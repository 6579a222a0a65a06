import Mathlib

/-!
# Threads inside a region

A tracker numbers the entries into a region.  It can be closed, which refuses further entries, and
a thread that closed it can wait for the entries of other threads below the number it got.  A gate
is a tracker with the module behind it.
-/

namespace Nscp.Threads

open Option Nat List

abbrev Thread := ℕ

structure Entry where
  thread : Thread
  seq : ℕ
  deriving DecidableEq

structure InFlight where
  entries : List Entry := []
  nextSeq : ℕ := 0
  closed : Bool := false
  deriving DecidableEq

namespace InFlight

section

variable (k : InFlight)

def close : InFlight :=
  { k with closed := true }

/-- The number below which every entry was made before the tracker was closed. -/
def cutoff : ℕ :=
  k.nextSeq

def reopen : InFlight :=
  { k with closed := false }

def othersBefore (self : Thread) (cutoff : ℕ) : Bool :=
  k.entries.any fun e => e.thread ≠ self ∧ e.seq < cutoff

/-- The tracker after an entry that is let in. -/
def entered (self : Thread) : InFlight :=
  { k with entries := k.entries ++ [⟨self, k.nextSeq⟩], nextSeq := k.nextSeq + 1 }

def tryEnter (self : Thread) : Option InFlight :=
  if k.closed then none
  else some (k.entered self)

/-- The last entry of the thread goes. -/
def leave (self : Thread) : InFlight :=
  { k with entries := (k.entries.reverse.eraseP fun e => e.thread = self).reverse }

def count (t : Thread) : ℕ :=
  k.entries.countP fun e => e.thread = t

end

variable {self : Thread} {k k' : InFlight}

theorem tryEnter_eq_some (h : k.tryEnter self = some k') :
    k.closed = false ∧ k' = k.entered self := by
  rw [tryEnter] at h
  split_ifs at h with hclosed
  exact ⟨Bool.not_eq_true _ ▸ hclosed, (some.inj h).symm⟩

theorem mem_leave {e : Entry} (h : e ∈ (k.leave self).entries) : e ∈ k.entries :=
  mem_reverse.mp (mem_of_mem_eraseP (mem_reverse.mp h))

theorem count_leave (h : 0 < k.count self) (t : Thread) :
    (k.leave self).count t + (if t = self then 1 else 0) = k.count t := by
  obtain ⟨e, he, hself⟩ := countP_pos_iff.mp h
  obtain ⟨a, l, r, -, ha, hsplit, herase⟩ :=
    exists_of_eraseP (p := fun e => decide (e.thread = self)) (mem_reverse.mpr he) hself
  have ha : a.thread = self := of_decide_eq_true ha
  have hall : k.count t = (l ++ a :: r).countP fun e => e.thread = t := by
    rw [← hsplit, countP_reverse, count]
  rw [hall, count, leave, herase, countP_reverse, countP_append, countP_append, countP_cons, ha]
  by_cases ht : t = self
  · subst ht
    simp only [decide_true, if_pos]
    omega
  · have hne : decide (self = t) = false := decide_eq_false fun heq => ht heq.symm
    rw [hne, if_neg ht, if_neg Bool.false_ne_true, add_assoc]

theorem count_entered (k : InFlight) (self t : Thread) :
    (k.entered self).count t = k.count t + if t = self then 1 else 0 := by
  rw [count, entered, countP_append, countP_singleton, count]
  by_cases ht : t = self
  · rw [if_pos ht, if_pos (decide_eq_true ht.symm)]
  · rw [if_neg ht, if_neg]
    simpa using fun heq => ht (Eq.symm heq)

end InFlight

/-! ## Gates -/

/-- A gate owns its module until it is taken.  The other fields are the history that the
statements below speak of: the thread that is removing the module, how often the gate was
reopened, the clean waits, each with its thread and the reopenings before it, and the thread
the module was handed back to. -/
structure Gate where
  tracker : InFlight := {}
  value : Bool := true
  removing : Option Thread := none
  reopens : ℕ := 0
  released : List (Thread × ℕ) := []
  handed : Option Thread := none
  deriving DecidableEq

namespace Gate

/-- How far a removal has come. -/
inductive Stage
  | closed
  | drained (clean : Bool)
  | erased

/-- The wait of the removal came back clean. -/
def Stage.Clean : Stage → Prop
  | .closed => False
  | .drained clean => clean = true
  | .erased => True

/-- What a thread is doing with one gate: a guard that has entered, with whether the module has
been copied for the call; a removal; or a removal of everything that has closed the gate and not
seen to it yet. -/
inductive Role
  | guard (called : Bool)
  | removal (cutoff : ℕ) (stage : Stage)
  | swept (cutoff reopens : ℕ)

namespace Role

def isGuard : Role → Bool
  | .guard _ => true
  | _ => false

def isRemoval : Role → Bool
  | .removal _ _ => true
  | _ => false

end Role

open Role

def Alone (gate : Gate) (t : Thread) : Prop :=
  ∀ e ∈ gate.tracker.entries, e.thread = t

def Fits (listed : Prop) (gate : Gate) (t : Thread) : Role → Prop
  | .guard called => called = false → gate.handed = none
  | .removal cutoff stage =>
    gate.tracker.closed = true ∧ gate.tracker.nextSeq = cutoff ∧ (stage.Clean → gate.Alone t) ∧
      (stage = .erased → ¬ listed)
  | .swept cutoff n =>
    n ≤ gate.reopens ∧
      (n = gate.reopens → gate.tracker.closed = true ∧ gate.tracker.nextSeq = cutoff)

structure Protocol (listed : Prop) (gate : Gate) (roles : Thread → List Role) : Prop where
  seq : ∀ e ∈ gate.tracker.entries, e.seq < gate.tracker.nextSeq
  guards : ∀ t, gate.tracker.count t = (roles t).countP isGuard
  removing : ∀ t, (roles t).countP isRemoval = if gate.removing = some t then 1 else 0
  fits : ∀ {t r}, r ∈ roles t → Fits listed gate t r
  released : ∀ {t n}, (t, n) ∈ gate.released → n ≤ gate.reopens ∧
    (n = gate.reopens → gate.tracker.closed = true ∧ gate.Alone t)
  handed : ∀ {t}, gate.handed = some t → gate.tracker.closed = true ∧ gate.removing = none ∧
    ¬ listed ∧ gate.Alone t

structure Exchange (roles roles' : Thread → List Role) (t : Thread) (old new : List Role) :
    Prop where
  other : ∀ t' ≠ t, roles' t' = roles t'
  own : ∃ rest, (roles t).Perm (old ++ rest) ∧ (roles' t).Perm (new ++ rest)

section Exchange

variable {roles roles' : Thread → List Role} {t : Thread} {old new : List Role}

section

variable (h : Exchange roles roles' t old new)
include h

theorem Exchange.countP (p : Role → Bool) (t' : Thread) :
    (roles' t').countP p + (if t' = t then old.countP p else 0) =
      (roles t').countP p + if t' = t then new.countP p else 0 := by
  by_cases ht : t' = t
  · subst ht
    obtain ⟨rest, hold, hnew⟩ := h.own
    rw [hold.countP_eq, hnew.countP_eq, countP_append, countP_append, if_pos rfl, if_pos rfl]
    omega
  · rw [h.other t' ht, if_neg ht, if_neg ht]

theorem Exchange.countP_eq {p : Role → Bool} (hp : old.countP p = new.countP p) (t' : Thread) :
    (roles' t').countP p = (roles t').countP p := by
  have hcount := h.countP p t'
  rw [hp] at hcount
  omega

theorem Exchange.mem {t' : Thread} {r : Role} (hr : r ∈ roles' t') :
    (t' = t ∧ r ∈ new) ∨ r ∈ roles t' := by
  by_cases ht : t' = t
  · subst ht
    obtain ⟨rest, hold, hnew⟩ := h.own
    exact (mem_append.mp (hnew.mem_iff.mp hr)).imp (fun hr => ⟨rfl, hr⟩)
      fun hr => hold.mem_iff.mpr (mem_append.mpr (.inr hr))
  · rw [h.other t' ht] at hr
    exact .inr hr

theorem Exchange.mem_old {r : Role} (hr : r ∈ old) : r ∈ roles t := by
  obtain ⟨rest, hold, -⟩ := h.own
  exact hold.mem_iff.mpr (mem_append.mpr (.inl hr))

end

end Exchange

/-! ## What a thread can do at a gate -/

section Steps

variable {listed : Prop} {gate : Gate} {roles roles' : Thread → List Role} {t t' : Thread} {c : ℕ}
  {stage : Stage} {called : Bool} (h : Protocol listed gate roles)

include h

theorem Protocol.no_removal (ht : gate.removing ≠ some t') : .removal c stage ∉ roles t' := by
  intro hmem
  have hpos : 0 < (roles t').countP isRemoval := countP_pos_iff.mpr ⟨_, hmem, rfl⟩
  rw [h.removing t', if_neg ht] at hpos
  exact absurd hpos (lt_irrefl 0)

theorem Protocol.no_removal_of_free (hfree : gate.removing = none) : .removal c stage ∉ roles t :=
  h.no_removal (by simp [hfree])

theorem Protocol.removing_eq (hmem : .removal c stage ∈ roles t) : gate.removing = some t := by
  by_contra hne
  exact h.no_removal hne hmem

theorem Protocol.no_guard (halone : gate.Alone t) (ht : t' ≠ t) : .guard called ∉ roles t' := by
  intro hmem
  have hpos : 0 < (roles t').countP isGuard := countP_pos_iff.mpr ⟨_, hmem, rfl⟩
  rw [← h.guards t'] at hpos
  obtain ⟨e, he, hthread⟩ := countP_pos_iff.mp hpos
  exact ht ((of_decide_eq_true hthread).symm.trans (halone e he))

theorem Protocol.alone_of_wait (hc : gate.tracker.nextSeq = c)
    (hwait : gate.tracker.othersBefore t c = false) : gate.Alone t := by
  intro e he
  by_contra hne
  have hbefore : gate.tracker.othersBefore t c = true :=
    any_eq_true.mpr ⟨e, he, decide_eq_true ⟨hne, hc ▸ h.seq e he⟩⟩
  exact Bool.false_ne_true (hwait.symm.trans hbefore)

theorem Protocol.exchange {old new : List Role} (hx : Exchange roles roles' t old new)
    (hguards : old.countP isGuard = new.countP isGuard)
    (hremovals : old.countP isRemoval = new.countP isRemoval)
    (hnew : ∀ r ∈ new, Fits listed gate t r) : Protocol listed gate roles' := by
  refine ⟨h.seq, fun t' => ?_, fun t' => ?_, fun {t' r} hr => ?_, h.released, h.handed⟩
  · rw [hx.countP_eq hguards, h.guards t']
  · rw [hx.countP_eq hremovals, h.removing t']
  · rcases hx.mem hr with ⟨rfl, hr⟩ | hr
    · exact hnew r hr
    · exact h.fits hr

theorem Protocol.enter (hopen : gate.tracker.closed = false)
    (hx : Exchange roles roles' t [] [.guard false]) :
    Protocol listed { gate with tracker := gate.tracker.entered t } roles' := by
  have hclosed : gate.tracker.closed ≠ true := fun hclosed =>
    Bool.false_ne_true (hopen.symm.trans hclosed)
  have hhanded : gate.handed = none := by
    cases hh : gate.handed with
    | none => rfl
    | some a => exact absurd (h.handed hh).1 hclosed
  refine ⟨?_, fun t' => ?_, fun t' => ?_, fun {t' r} hr => ?_, fun hr => ?_, fun hh => ?_⟩
  · intro e he
    rcases mem_append.mp he with he | he
    · exact lt_succ_of_lt (h.seq e he)
    · rw [mem_singleton.mp he]
      exact lt_succ_self _
  · have hcount := hx.countP isGuard t'
    simp only [countP_nil, countP_singleton, isGuard, if_true, ite_self, add_zero] at hcount
    change (gate.tracker.entered t).count t' = _
    rw [InFlight.count_entered, h.guards t', hcount]
  · rw [hx.countP_eq rfl]
    exact h.removing t'
  · rcases hx.mem hr with ⟨-, hr⟩ | hr
    · rw [mem_singleton.mp hr]
      exact fun _ => hhanded
    · cases r with
      | guard called => exact fun _ => hhanded
      | removal c stage => exact absurd (h.fits hr).1 hclosed
      | swept c n => exact ⟨(h.fits hr).1, fun hn => absurd ((h.fits hr).2 hn).1 hclosed⟩
  · exact ⟨(h.released hr).1, fun hn => absurd ((h.released hr).2 hn).1 hclosed⟩
  · exact absurd (h.handed hh).1 hclosed

theorem Protocol.leave (hx : Exchange roles roles' t [.guard called] []) :
    Protocol listed { gate with tracker := gate.tracker.leave t } roles' := by
  have hpos : 0 < gate.tracker.count t := by
    rw [h.guards t]
    exact countP_pos_iff.mpr ⟨_, hx.mem_old (mem_singleton_self _), rfl⟩
  have halone : ∀ {t'}, gate.Alone t' → Alone { gate with tracker := gate.tracker.leave t } t' :=
    fun halone e he => halone e (InFlight.mem_leave he)
  refine ⟨fun e he => h.seq e (InFlight.mem_leave he), fun t' => ?_, fun t' => ?_,
    fun {t' r} hr => ?_, fun hr => ?_, fun hh => ?_⟩
  · have hcount := hx.countP isGuard t'
    have hleave := InFlight.count_leave hpos t'
    simp only [countP_nil, countP_singleton, isGuard, if_true, ite_self, add_zero] at hcount
    rw [h.guards t', ← hcount] at hleave
    exact add_right_cancel hleave
  · rw [hx.countP_eq rfl]
    exact h.removing t'
  · rcases hx.mem hr with ⟨-, hr⟩ | hr
    · exact absurd hr not_mem_nil
    · cases r with
      | guard called | swept c n => exact h.fits hr
      | removal c stage =>
        obtain ⟨hclosed, hseq, hclean, herased⟩ := h.fits hr
        exact ⟨hclosed, hseq, fun hstage => halone (hclean hstage), herased⟩
  · exact ⟨(h.released hr).1, fun hn => ((h.released hr).2 hn).imp_right halone⟩
  · obtain ⟨hclosed, hremoving, hlisted, hal⟩ := h.handed hh
    exact ⟨hclosed, hremoving, hlisted, halone hal⟩

theorem Protocol.close (hfree : gate.removing = none) (hlisted : listed)
    (hx : Exchange roles roles' t [] [.removal gate.tracker.cutoff .closed]) :
    Protocol listed { gate with tracker := gate.tracker.close, removing := some t } roles' := by
  refine ⟨h.seq, fun t' => ?_, fun t' => ?_, fun {t' r} hr => ?_, fun hr => ?_, fun hh => ?_⟩
  · rw [hx.countP_eq rfl]
    exact h.guards t'
  · have hcount := hx.countP isRemoval t'
    simp only [countP_nil, countP_singleton, isRemoval, if_true, ite_self,
      add_zero, h.removing t', hfree, reduceCtorEq, if_false, zero_add] at hcount
    rw [hcount]
    exact if_congr (by rw [some.injEq, eq_comm]) rfl rfl
  · rcases hx.mem hr with ⟨-, hr⟩ | hr
    · rw [mem_singleton.mp hr]
      exact ⟨rfl, rfl, fun hclean => hclean.elim, fun heq => nomatch heq⟩
    · cases r with
      | guard called => exact h.fits hr
      | removal c stage => exact absurd hr (h.no_removal_of_free hfree)
      | swept c n => exact ⟨(h.fits hr).1, fun hn => ⟨rfl, ((h.fits hr).2 hn).2⟩⟩
  · exact ⟨(h.released hr).1, fun hn => ⟨rfl, ((h.released hr).2 hn).2⟩⟩
  · exact absurd hlisted (h.handed hh).2.2.1

theorem Protocol.abandon (hx : Exchange roles roles' t [.removal c stage] []) :
    Protocol listed { gate with removing := none } roles' := by
  have hremoving := h.removing_eq (hx.mem_old (mem_singleton_self _))
  have hnone : ∀ t', (roles' t').countP isRemoval = 0 := by
    intro t'
    have hcount := hx.countP isRemoval t'
    simp only [countP_nil, countP_singleton, isRemoval, if_true, ite_self,
      add_zero, h.removing t', hremoving, some.injEq] at hcount
    by_cases ht : t' = t
    · rw [if_pos ht, if_pos ht.symm] at hcount
      omega
    · rw [if_neg ht, if_neg fun heq => ht (Eq.symm heq)] at hcount
      exact hcount
  refine ⟨h.seq, fun t' => ?_, hnone, fun {t' r} hr => ?_, h.released, fun hh => ?_⟩
  · rw [hx.countP_eq rfl]
    exact h.guards t'
  · rcases hx.mem hr with ⟨-, hr⟩ | hr
    · exact absurd hr not_mem_nil
    · exact h.fits hr
  · obtain ⟨hclosed, -, hlisted, halone⟩ := h.handed hh
    exact ⟨hclosed, rfl, hlisted, halone⟩

theorem Protocol.reopen (hfree : gate.removing = none) (hhanded : gate.handed = none) :
    Protocol listed
      { gate with tracker := gate.tracker.reopen, reopens := gate.reopens + 1 } roles := by
  refine ⟨h.seq, h.guards, h.removing, fun {t' r} hr => ?_, fun {t' n} hr => ?_, fun hh => ?_⟩
  · cases r with
    | guard called => exact h.fits hr
    | removal c stage =>
      exact absurd hr (h.no_removal_of_free hfree)
    | swept c n =>
      have hle : n ≤ gate.reopens := (h.fits hr).1
      refine ⟨le_succ_of_le hle, fun hn => ?_⟩
      change n = gate.reopens + 1 at hn
      omega
  · have hle := (h.released hr).1
    refine ⟨le_succ_of_le hle, fun hn => ?_⟩
    change n = gate.reopens + 1 at hn
    omega
  · exact nomatch hhanded.symm.trans hh

theorem Protocol.take
    (hx : Exchange roles roles' t [.removal c .erased] []) (hcalled : .guard false ∉ roles t) :
    Protocol listed { gate with value := false, removing := none, handed := some t } roles' := by
  obtain ⟨hclosed, -, halone, hlisted⟩ := h.fits (hx.mem_old (mem_singleton_self _))
  have hab := h.abandon hx
  refine ⟨hab.seq, hab.guards, hab.removing, fun {t' r} hr => ?_, hab.released, fun {a} hh => ?_⟩
  · have hold : r ∈ roles t' := by
      rcases hx.mem hr with ⟨-, hr⟩ | hr
      · exact absurd hr not_mem_nil
      · exact hr
    cases r with
    | guard called =>
      rintro rfl
      by_cases ht : t' = t
      · exact absurd (ht ▸ hold) hcalled
      · exact absurd hold (h.no_guard (halone trivial) ht)
    | removal c stage | swept c n => exact hab.fits hr
  · cases hh
    exact ⟨hclosed, rfl, hlisted rfl, halone trivial⟩

theorem Protocol.sweep (hx : Exchange roles roles' t [] [.swept gate.tracker.cutoff gate.reopens]) :
    Protocol listed { gate with tracker := gate.tracker.close } roles' := by
  refine ⟨h.seq, fun t' => ?_, fun t' => ?_, fun {t' r} hr => ?_, fun hr => ?_, fun hh => ?_⟩
  · rw [hx.countP_eq rfl]
    exact h.guards t'
  · rw [hx.countP_eq rfl]
    exact h.removing t'
  · rcases hx.mem hr with ⟨-, hr⟩ | hr
    · rw [mem_singleton.mp hr]
      exact ⟨le_rfl, fun _ => ⟨rfl, rfl⟩⟩
    · cases r with
      | guard called => exact h.fits hr
      | removal c stage => exact ⟨rfl, (h.fits hr).2⟩
      | swept c n => exact ⟨(h.fits hr).1, fun hn => ⟨rfl, ((h.fits hr).2 hn).2⟩⟩
  · exact ⟨(h.released hr).1, fun hn => ⟨rfl, ((h.released hr).2 hn).2⟩⟩
  · exact ⟨rfl, (h.handed hh).2⟩

theorem Protocol.release {n : ℕ} (hle : n ≤ gate.reopens)
    (hsafe : n = gate.reopens → gate.tracker.closed = true ∧ gate.Alone t) :
    Protocol listed { gate with released := (t, n) :: gate.released } roles := by
  refine ⟨h.seq, h.guards, h.removing, h.fits, fun hr => ?_, h.handed⟩
  rcases mem_cons.mp hr with heq | hr
  · cases heq
    exact ⟨hle, hsafe⟩
  · exact h.released hr

theorem Protocol.drop (value : Bool) : Protocol listed { gate with value := value } roles :=
  ⟨h.seq, h.guards, h.removing, h.fits, h.released, h.handed⟩

theorem Protocol.congr {listed' : Prop} (hlisted : listed ↔ listed') :
    Protocol listed' gate roles :=
  propext hlisted ▸ h

theorem Protocol.unlist : Protocol False gate roles := by
  refine ⟨h.seq, h.guards, h.removing, fun {t' r} hr => ?_, h.released, fun hh => ?_⟩
  · cases r with
    | guard called | swept c n => exact h.fits hr
    | removal c stage =>
      obtain ⟨hclosed, hseq, hclean, -⟩ := h.fits hr
      exact ⟨hclosed, hseq, hclean, fun _ => not_false⟩
  · obtain ⟨hclosed, hremoving, -, halone⟩ := h.handed hh
    exact ⟨hclosed, hremoving, not_false, halone⟩

theorem Protocol.list (hfree : gate.removing = none)
    (hhanded : gate.handed = none) : Protocol True gate roles := by
  refine ⟨h.seq, h.guards, h.removing, fun {t' r} hr => ?_, h.released, fun hh => ?_⟩
  · cases r with
    | guard called | swept c n => exact h.fits hr
    | removal c stage =>
      exact absurd hr (h.no_removal_of_free hfree)
  · exact nomatch hhanded.symm.trans hh

end Steps

end Gate

end Nscp.Threads
