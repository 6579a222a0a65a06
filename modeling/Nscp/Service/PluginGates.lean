import Nscp.Library.Runs
import Nscp.Service.PluginList

/-!
# Rounds stay out of modules that are being removed

Seen from one gate, a step of the list is a step of the gate's protocol by one thread, and all
other gates keep theirs.
-/

namespace Nscp.Service.PluginList

open State Nscp.Service.PluginList.Frame PluginList List Threads Threads.Gate

/-! ## The roles at one gate -/

def Phase.roles : Phase → List Role
  | .idle => []
  | .entered => [.guard false]
  | .calling _ | .left => [.guard true]

def itemRoles (g : ℕ) (closed : List Item) : List Role :=
  (closed.filter (·.gate = g)).map fun item => .swept item.cutoff item.reopens

def Frame.roles (g : ℕ) : Frame → List Role
  | .round [] _ => []
  | .round (slot :: _) phase => if slot.gate = g then phase.roles else []
  | .removal gate cutoff stage => if gate = g then [.removal cutoff stage] else []
  | .closingAll _ closed | .drainingAll closed _ => itemRoles g closed

def rolesAt (g : ℕ) (frames : List Frame) : List Role :=
  frames.flatMap (roles g)

variable (g : ℕ)

theorem rolesAt_cons (frame : Frame) (frames : List Frame) :
    rolesAt g (frame :: frames) = frame.roles g ++ rolesAt g frames :=
  flatMap_cons

theorem itemRoles_cons (item : Item) (closed : List Item) : itemRoles g (item :: closed) =
      (if item.gate = g then [.swept item.cutoff item.reopens] else []) ++ itemRoles g closed := by
  by_cases hg : item.gate = g <;> simp [itemRoles, hg]

theorem itemRoles_append (closed closed' : List Item) :
    itemRoles g (closed ++ closed') = itemRoles g closed ++ itemRoles g closed' := by
  simp [itemRoles]

def Listed (s : State) (g : ℕ) : Prop :=
  ∃ slot ∈ s.plugins, slot.gate = g

structure Invariant (s : State) : Prop where
  gates : ∀ g, Protocol (Listed s g) (s.gates g) fun t => rolesAt g (s.frames t)
  suspended : ∀ t, ∀ frame ∈ (s.frames t).tail, frame.suspended = true

theorem invariant_initial : Invariant initial where
  gates := fun _ =>
    { seq := fun _ he => absurd he not_mem_nil
      guards := fun _ => rfl
      removing := fun _ => rfl
      fits := fun hr => absurd hr not_mem_nil
      released := fun hr => absurd hr not_mem_nil
      handed := fun hh => nomatch hh }
  suspended := fun _ _ hframe => absurd hframe not_mem_nil

variable {s s' : State} {t : Thread}

theorem Invariant.running (h : Invariant s) (hmay : mayCall (s.frames t) = true) :
    ∀ frame ∈ s.frames t, frame.suspended = true := by
  have hsuspended := h.suspended t
  cases hframes : s.frames t with
  | nil => exact fun frame hframe => absurd hframe not_mem_nil
  | cons top below =>
    rw [hframes] at hmay hsuspended
    exact forall_mem_cons.mpr ⟨hmay, hsuspended⟩

variable {g cutoff : ℕ} {frames : List Frame} {gate : Gate}

/-- One thread exchanges roles at one gate; the protocol of every other gate is as before. -/
theorem Invariant.update (h : Invariant s) {old new : List Role} (rest : List Role)
    (hold : (rolesAt g (s.frames t)).Perm (old ++ rest))
    (hnew : (rolesAt g frames).Perm (new ++ rest))
    (hgate : ∀ roles, Exchange (fun t => rolesAt g (s.frames t)) roles t old new →
      Protocol (Listed s g) gate roles)
    (hother : ∀ g' ≠ g, rolesAt g' frames = rolesAt g' (s.frames t))
    (hsuspended : ∀ frame ∈ frames.tail, frame.suspended = true) :
    Invariant ((s.setGate g gate).setFrames t frames) := by
  have hframes : ((s.setGate g gate).setFrames t frames).frames = (s.setFrames t frames).frames :=
    rfl
  constructor
  · intro g'
    rw [hframes]
    by_cases hg : g' = g
    · subst hg
      have hsame : ((s.setGate g' gate).setFrames t frames).gates g' = gate :=
        s.setGate_gates_self g' gate
      rw [hsame]
      refine hgate _ ⟨fun t' ht => ?_, rest, hold, ?_⟩
      · rw [s.setFrames_frames_of_ne t frames ht]
      · rw [s.setFrames_frames_self]
        exact hnew
    · have hsame : ((s.setGate g gate).setFrames t frames).gates g' = s.gates g' :=
        s.setGate_gates_of_ne g gate hg
      have hroles : (fun t' => rolesAt g' ((s.setFrames t frames).frames t')) =
          fun t' => rolesAt g' (s.frames t') := by
        funext t'
        by_cases ht : t' = t
        · subst ht
          rw [s.setFrames_frames_self, hother g' hg]
        · rw [s.setFrames_frames_of_ne t frames ht]
      rw [hsame, hroles]
      exact h.gates g'
  · intro t' frame hframe
    rw [hframes] at hframe
    by_cases ht : t' = t
    · subst ht
      rw [s.setFrames_frames_self] at hframe
      exact hsuspended frame hframe
    · rw [s.setFrames_frames_of_ne t frames ht] at hframe
      exact h.suspended t' frame hframe

theorem Invariant.setFrames (h : Invariant s)
    (hroles : ∀ g, rolesAt g frames = rolesAt g (s.frames t))
    (hsuspended : ∀ frame ∈ frames.tail, frame.suspended = true) :
    Invariant (s.setFrames t frames) := by
  have hgate : ∀ roles, Exchange (fun t => rolesAt 0 (s.frames t)) roles t [] [] →
      Protocol (Listed s 0) (s.gates 0) roles := fun roles hx =>
    (h.gates 0).exchange hx rfl rfl fun r hr => absurd hr not_mem_nil
  have hnew : (rolesAt 0 frames).Perm ([] ++ rolesAt 0 (s.frames t)) := by
    rw [hroles 0]
    exact List.Perm.refl _
  rw [← s.setGate_self 0]
  exact h.update (rolesAt 0 (s.frames t)) (List.Perm.refl _) hnew hgate (fun g' _ => hroles g')
    hsuspended

section Top

variable {frame frame' : Frame} {below : List Frame} {g : ℕ} {gate : Gate} {old new : List Role}

section

variable (h : Invariant s) (hframes : s.frames t = frame :: below)
include h hframes

theorem Invariant.waiting : ∀ f ∈ below, f.suspended = true := by
  have hsuspended := h.suspended t
  rwa [hframes] at hsuspended

theorem Invariant.replace (hold : frame.roles g = old) (hnew : frame'.roles g = new)
    (hgate : ∀ roles, Exchange (fun t => rolesAt g (s.frames t)) roles t old new →
      Protocol (Listed s g) gate roles)
    (hother : ∀ g' ≠ g, frame'.roles g' = frame.roles g') :
    Invariant ((s.setGate g gate).setFrames t (frame' :: below)) := by
  refine h.update (rolesAt g below) ?_ ?_ hgate (fun g' hg => ?_) (h.waiting hframes)
  · rw [hframes, rolesAt_cons, hold]
  · rw [rolesAt_cons, hnew]
  · rw [hframes, rolesAt_cons, rolesAt_cons, hother g' hg]

theorem Invariant.pop (hold : frame.roles g = old)
    (hgate : ∀ roles, Exchange (fun t => rolesAt g (s.frames t)) roles t old [] →
      Protocol (Listed s g) gate roles)
    (hother : ∀ g' ≠ g, frame.roles g' = []) :
    Invariant ((s.setGate g gate).setFrames t below) := by
  refine h.update (rolesAt g below) ?_ (List.Perm.refl _) hgate (fun g' hg => ?_)
    fun f hf => h.waiting hframes f (mem_of_mem_tail hf)
  · rw [hframes, rolesAt_cons, hold]
  · rw [hframes, rolesAt_cons, hother g' hg, nil_append]

end

theorem Invariant.push (h : Invariant s) (hmay : mayCall (s.frames t) = true)
    (hnew : frame.roles g = new)
    (hgate : ∀ roles, Exchange (fun t => rolesAt g (s.frames t)) roles t [] new →
      Protocol (Listed s g) gate roles)
    (hother : ∀ g' ≠ g, frame.roles g' = []) :
    Invariant ((s.setGate g gate).setFrames t (frame :: s.frames t)) := by
  refine h.update (rolesAt g (s.frames t)) (List.Perm.refl _) ?_ hgate (fun g' hg => ?_)
    (h.running hmay)
  · rw [rolesAt_cons, hnew]
  · rw [rolesAt_cons, hother g' hg, nil_append]

end Top

/-! ## Every step keeps the invariant -/

theorem roles_idle (todo : List Slot) (g : ℕ) : (round todo .idle).roles g = [] := by
  cases todo with
  | nil => rfl
  | cons slot todo => exact ite_self []

theorem roles_round_of_ne (slot : Slot) (todo : List Slot) (phase : Phase) (h : g ≠ slot.gate) :
    (round (slot :: todo) phase).roles g = [] :=
  if_neg h.symm

theorem roles_removal_of_ne (cutoff : ℕ) (stage : Stage) {gate : ℕ} (h : g ≠ gate) :
    (removal gate cutoff stage).roles g = [] :=
  if_neg h.symm

section

variable (h : Invariant s)
include h

theorem Invariant.startRound (hs : startRound s t = some s') : Invariant s' := by
  rw [PluginList.startRound] at hs
  split_ifs at hs with hmay
  cases hs
  refine h.setFrames (fun g => ?_) (h.running hmay.2)
  rw [rolesAt_cons, roles_idle, nil_append]

theorem Invariant.enter (hs : enter s t = some s') : Invariant s' := by
  rw [PluginList.enter] at hs
  split at hs
  · next slot todo below hframes =>
      split at hs
      · cases hs
        refine h.setFrames (fun g => ?_) (h.waiting hframes)
        rw [hframes, rolesAt_cons, rolesAt_cons, roles_idle, roles_idle]
      · next tracker htracker =>
          cases hs
          obtain ⟨hopen, rfl⟩ := InFlight.tryEnter_eq_some htracker
          refine h.replace hframes (roles_idle _ _) (if_pos rfl) (fun roles hx => ?_)
            fun g' hg => ?_
          · exact (h.gates slot.gate).enter hopen hx
          · rw [roles_round_of_ne _ _ _ hg, roles_idle]
  · cases hs

theorem Invariant.copy (hs : copy s t = some s') : Invariant s' := by
  rw [PluginList.copy] at hs
  split at hs
  · next slot todo below hframes =>
      cases hs
      rw [← s.setGate_self slot.gate]
      refine h.replace hframes (if_pos rfl) (if_pos rfl) (fun roles hx => ?_) fun g' hg => ?_
      · refine (h.gates slot.gate).exchange hx rfl rfl fun r hr => ?_
        rw [mem_singleton.mp hr]
        exact fun hcalled => nomatch hcalled
      · rw [roles_round_of_ne _ _ _ hg, roles_round_of_ne _ _ _ hg]
  · cases hs

theorem Invariant.endCall {threw : Bool} (hs : endCall s t threw = some s') : Invariant s' := by
  rw [PluginList.endCall] at hs
  split at hs
  · next slot todo holding below hframes =>
      cases hs
      refine h.setFrames (fun g => ?_) (h.waiting hframes)
      rw [hframes, rolesAt_cons, rolesAt_cons]
      rfl
  · cases hs

theorem Invariant.leave (hs : leave s t = some s') : Invariant s' := by
  rw [PluginList.leave] at hs
  split at hs
  · next slot todo below hframes =>
      cases hs
      refine h.replace hframes (if_pos rfl) (roles_idle _ _) (fun roles hx => ?_) fun g' hg => ?_
      · exact (h.gates slot.gate).leave hx
      · rw [roles_round_of_ne _ _ _ hg, roles_idle]
  · cases hs

theorem Invariant.endRound (hs : endRound s t = some s') : Invariant s' := by
  rw [PluginList.endRound] at hs
  split at hs
  · next below hframes =>
      cases hs
      refine h.setFrames (fun g => ?_) fun f hf => h.waiting hframes f (mem_of_mem_tail hf)
      rw [hframes, rolesAt_cons, roles_idle, nil_append]
  · cases hs

theorem Invariant.closePlugin {id : ℕ} (hs : closePlugin s t id = some s') : Invariant s' := by
  rw [PluginList.closePlugin] at hs
  split_ifs at hs with hmay
  split at hs
  · cases hs
  · next slot hslot =>
      split_ifs at hs with hfree
      cases hs
      have hlisted : Listed s slot.gate := ⟨slot, mem_of_find?_eq_some hslot, rfl⟩
      exact h.push hmay.2 (if_pos rfl)
        (fun roles hx => (h.gates slot.gate).close hfree hlisted hx)
        fun g' hg => roles_removal_of_ne _ _ hg

end

variable {timedOut : Bool} {below : List Frame} {stage : Stage}

theorem mem_rolesAt_removal (hframes : s.frames t = .removal g cutoff stage :: below) :
    .removal cutoff stage ∈ rolesAt g (s.frames t) := by
  rw [hframes, rolesAt_cons, roles, if_pos rfl]
  exact mem_append_left _ (mem_singleton_self _)

section

variable (h : Invariant s)
include h

theorem Invariant.drain (hs : drain s t timedOut = some s') : Invariant s' := by
  rw [PluginList.drain] at hs
  split at hs
  · next g cutoff below hframes =>
      obtain ⟨hclosed, hseq, -, -⟩ := (h.gates g).fits (mem_rolesAt_removal hframes)
      have hstage : ∀ clean gate, (clean = true → gate.Alone t) →
          Protocol (Listed s g) gate (fun t => rolesAt g (s.frames t)) →
            gate.tracker = (s.gates g).tracker →
          Invariant ((s.setGate g gate).setFrames t
            (.removal g cutoff (.drained clean) :: below)) := by
        intro clean gate halone hgate htracker
        refine h.replace hframes (if_pos rfl) (if_pos rfl) (fun roles hx => ?_) fun g' hg => ?_
        · refine hgate.exchange hx rfl rfl fun r hr => ?_
          rw [mem_singleton.mp hr]
          exact ⟨htracker ▸ hclosed, htracker ▸ hseq, halone, fun herased => nomatch herased⟩
        · rw [roles_removal_of_ne _ _ hg, roles_removal_of_ne _ _ hg]
      split_ifs at hs with htimed hothers
      · cases hs
        have hfailed := hstage false _ (fun hclean => nomatch hclean) (h.gates g) rfl
        rwa [setGate_self] at hfailed
      · cases hs
        have halone := (h.gates g).alone_of_wait hseq (Bool.not_eq_true _ ▸ hothers)
        exact hstage true _ (fun _ => halone)
          ((h.gates g).release le_rfl fun _ => ⟨hclosed, halone⟩) rfl
  · cases hs

theorem Invariant.abandon (hframes : s.frames t = .removal g cutoff stage :: below) :
    Invariant (abandon s t g below) :=
  h.pop hframes (if_pos rfl) (fun _ hx => (h.gates g).abandon hx)
    fun _ hg => roles_removal_of_ne _ _ hg

theorem Invariant.reopen (hs : reopen s t = some s') : Invariant s' := by
  rw [PluginList.reopen] at hs
  split at hs
  · next g cutoff clean below hframes =>
      cases hs
      have hremoving := (h.gates g).removing_eq (mem_rolesAt_removal hframes)
      have hhanded : (s.gates g).handed = none := by
        cases hh : (s.gates g).handed with
        | none => rfl
        | some a => exact nomatch hremoving.symm.trans ((h.gates g).handed hh).2.1
      exact h.pop hframes (if_pos rfl)
        (fun roles hx => ((h.gates g).abandon hx).reopen rfl hhanded)
        fun g' hg => roles_removal_of_ne _ _ hg
  · cases hs

theorem Invariant.giveUp (hs : giveUp s t = some s') : Invariant s' := by
  rw [PluginList.giveUp] at hs
  split at hs
  · next g cutoff below hframes =>
      cases hs
      exact h.abandon hframes
  · cases hs

theorem Invariant.relist {plugins : List Slot} (lock : Option Thread)
    (hgates : ∀ g, Protocol (Listed { s with plugins := plugins } g) (s.gates g)
      fun t => rolesAt g (s.frames t)) : Invariant { s with plugins := plugins, lock := lock } :=
  ⟨hgates, h.suspended⟩

theorem Invariant.setGate (hgate : Protocol (Listed s g) gate fun t => rolesAt g (s.frames t)) :
    Invariant (s.setGate g gate) := by
  refine ⟨fun g' => ?_, h.suspended⟩
  by_cases hg : g' = g
  · subst hg
    rw [s.setGate_gates_self]
    exact hgate
  · rw [s.setGate_gates_of_ne g gate hg]
    exact h.gates g'

theorem Invariant.dropItem {item : Item} {closed : List Item} {clean : Bool}
    (hframes : s.frames t = .drainingAll (item :: closed) clean :: below) (value : Bool) :
    Invariant ((s.setGate item.gate { s.gates item.gate with value := value }).setFrames t
      (.drainingAll closed false :: below)) := by
  have hold : (rolesAt item.gate (s.frames t)).Perm ([.swept item.cutoff item.reopens] ++
      (itemRoles item.gate closed ++ rolesAt item.gate below)) := by
    rw [hframes, rolesAt_cons, roles, itemRoles_cons, if_pos rfl, append_assoc]
  have hnew : (rolesAt item.gate (.drainingAll closed false :: below)).Perm
      ([] ++ (itemRoles item.gate closed ++ rolesAt item.gate below)) := by
    rw [rolesAt_cons]
    exact List.Perm.refl _
  refine h.update _ hold hnew (fun roles hx => ?_) (fun g' hg => ?_) (h.waiting hframes)
  · exact ((h.gates item.gate).exchange hx rfl rfl fun r hr => absurd hr not_mem_nil).drop value
  · rw [hframes, rolesAt_cons, rolesAt_cons, roles, roles, itemRoles_cons,
      if_neg hg.symm, nil_append]

theorem Invariant.eraseSlot {locked : Bool} (hs : eraseSlot s t locked = some s') :
    Invariant s' := by
  rw [PluginList.eraseSlot] at hs
  split at hs
  · next g cutoff below hframes =>
      split_ifs at hs with hlocked hlock hlisted
      · cases hs
        exact h.abandon hframes
      · cases hs
        obtain ⟨hclosed, hseq, halone, -⟩ := (h.gates g).fits (mem_rolesAt_removal hframes)
        have hgone : ¬ Listed { s with plugins := s.plugins.filter (·.gate ≠ g) } g := by
          rintro ⟨slot, hslot, hgate⟩
          exact of_decide_eq_true (mem_filter.mp hslot).2 hgate
        have hrelist : Invariant { s with plugins := s.plugins.filter (·.gate ≠ g) } := by
          refine h.relist s.lock fun g' => ?_
          by_cases hg : g' = g
          · subst hg
            exact (h.gates g').unlist.congr (iff_of_false not_false hgone)
          · refine (h.gates g').congr ⟨?_, ?_⟩
            · rintro ⟨slot, hslot, rfl⟩
              exact ⟨slot, mem_filter.mpr ⟨hslot, decide_eq_true hg⟩, rfl⟩
            · rintro ⟨slot, hslot, rfl⟩
              exact ⟨slot, (mem_filter.mp hslot).1, rfl⟩
        have hstep : Invariant ((State.setGate { s with plugins := s.plugins.filter (·.gate ≠ g) } g
            (s.gates g)).setFrames t (.removal g cutoff .erased :: below)) := by
          refine hrelist.replace hframes (if_pos rfl) (if_pos rfl) (fun roles hx => ?_)
            fun g' hg => ?_
          · refine (hrelist.gates g).exchange hx rfl rfl fun r hr => ?_
            rw [mem_singleton.mp hr]
            exact ⟨hclosed, hseq, fun _ => halone rfl, fun _ => hgone⟩
          · rw [roles_removal_of_ne _ _ hg, roles_removal_of_ne _ _ hg]
        rw [setGate_self { s with plugins := s.plugins.filter (·.gate ≠ g) } g] at hstep
        exact hstep
      · cases hs
        exact h.abandon hframes
  · cases hs

end

theorem not_called_of_suspended (h : ∀ f ∈ frames, f.suspended = true) (g : ℕ) :
    .guard false ∉ rolesAt g frames := by
  intro hmem
  obtain ⟨frame, hframe, hrole⟩ := mem_flatMap.mp hmem
  have hsuspended := h frame hframe
  unfold suspended at hsuspended
  split at hsuspended
  · next todo holding =>
      cases todo with
      | nil => cases hrole
      | cons slot todo => simp [roles, Phase.roles] at hrole
  · simp [roles] at hrole
  · cases hsuspended

section

variable (h : Invariant s)
include h

theorem Invariant.take (hs : take s t = some s') : Invariant s' := by
  rw [PluginList.take] at hs
  split at hs
  · next g cutoff below hframes =>
      cases hs
      have hmay : mayCall (s.frames t) = true := by
        rw [hframes]
        rfl
      exact h.pop hframes (if_pos rfl)
        (fun roles hx => (h.gates g).take hx (not_called_of_suspended (h.running hmay) g))
        fun g' hg => roles_removal_of_ne _ _ hg
  · cases hs

theorem Invariant.removeAll (hs : removeAll s t = some s') : Invariant s' := by
  rw [PluginList.removeAll] at hs
  split_ifs at hs with hmay
  cases hs
  have hpush : Invariant (s.setFrames t (.closingAll s.plugins [] :: s.frames t)) :=
    h.setFrames (fun g => rfl) (h.running hmay.2)
  exact ⟨hpush.gates, hpush.suspended⟩

theorem Invariant.closeNext (hs : closeNext s t = some s') : Invariant s' := by
  rw [PluginList.closeNext] at hs
  split at hs
  · next slot toClose closed below hframes =>
      cases hs
      refine h.update (itemRoles slot.gate closed ++ rolesAt slot.gate below) ?_ ?_
        (fun roles hx => (h.gates slot.gate).sweep hx) (fun g' hg => ?_) (h.waiting hframes)
      · rw [hframes, rolesAt_cons]
        exact List.Perm.refl _
      · rw [rolesAt_cons, roles, itemRoles_append, itemRoles_cons, if_pos rfl, append_assoc]
        exact perm_middle
      · rw [hframes, rolesAt_cons, rolesAt_cons, roles, roles, itemRoles_append,
          itemRoles_cons, if_neg hg.symm, nil_append]
        exact congrArg (· ++ rolesAt g' below) (append_nil _)
  · cases hs

theorem Invariant.clear (hs : clear s t = some s') : Invariant s' := by
  rw [PluginList.clear] at hs
  split at hs
  · next closed below hframes =>
      cases hs
      have hstep : Invariant (s.setFrames t (.drainingAll closed false :: below)) := by
        refine h.setFrames (fun g => ?_) (h.waiting hframes)
        rw [hframes]
        rfl
      refine hstep.relist none fun g => (hstep.gates g).unlist.congr (iff_of_false not_false ?_)
      rintro ⟨slot, hslot, -⟩
      exact not_mem_nil hslot
  · cases hs

theorem Invariant.drainNext (hs : drainNext s t timedOut = some s') : Invariant s' := by
  rw [PluginList.drainNext] at hs
  split at hs
  · next item closed below hframes =>
      split_ifs at hs with htimed hothers
      · cases hs
        have hdrop := h.dropItem hframes (s.gates item.gate).value
        rwa [setGate_self] at hdrop
      · cases hs
        have hmem : .swept item.cutoff item.reopens ∈ rolesAt item.gate (s.frames t) := by
          rw [hframes, rolesAt_cons, roles, itemRoles_cons, if_pos rfl]
          exact mem_append_left _ mem_cons_self
        obtain ⟨hle, hsince⟩ := (h.gates item.gate).fits hmem
        have hgate := h.setGate ((h.gates item.gate).release (t := t) hle fun hn =>
          ⟨(hsince hn).1, (h.gates item.gate).alone_of_wait (hsince hn).2
            (Bool.not_eq_true _ ▸ hothers)⟩)
        refine hgate.setFrames (fun g => ?_) (h.waiting hframes)
        change _ = rolesAt g (s.frames t)
        rw [hframes]
        rfl
  · cases hs

theorem Invariant.takeNext (hs : takeNext s t = some s') : Invariant s' := by
  rw [PluginList.takeNext] at hs
  split at hs
  · next item closed below hframes =>
      cases hs
      exact h.dropItem hframes false
  · cases hs

theorem Invariant.endRemoveAll (hs : endRemoveAll s t = some s') : Invariant s' := by
  rw [PluginList.endRemoveAll] at hs
  split at hs
  · next below hframes =>
      cases hs
      refine h.setFrames (fun g => ?_) fun f hf => h.waiting hframes f (mem_of_mem_tail hf)
      rw [hframes, rolesAt_cons]
      rfl
  · cases hs

theorem Invariant.addPlugin {id gate : ℕ} (hs : addPlugin s id gate = some s') : Invariant s' := by
  rw [PluginList.addPlugin] at hs
  split_ifs at hs with hnew
  obtain ⟨-, -, hgate⟩ := hnew
  cases hs
  refine h.relist s.lock fun g => ?_
  by_cases hg : g = gate
  · subst hg
    have hlisted : Listed { s with plugins := s.plugins ++ [⟨id, g⟩] } g :=
      ⟨⟨id, g⟩, mem_append_right _ (mem_singleton_self _), rfl⟩
    refine ((h.gates g).list ?_ ?_).congr (iff_of_true trivial hlisted)
    · rw [hgate]
    · rw [hgate]
  · refine (h.gates g).congr ⟨?_, ?_⟩
    · rintro ⟨slot, hslot, rfl⟩
      exact ⟨slot, mem_append_left _ hslot, rfl⟩
    · rintro ⟨slot, hslot, rfl⟩
      rcases mem_append.mp hslot with hslot | hslot
      · exact ⟨slot, hslot, rfl⟩
      · rw [mem_singleton.mp hslot] at hg
        exact absurd rfl hg

end

variable {a : Action}

theorem Invariant.step (h : Invariant s) (hs : step s a = some s') : Invariant s' := by
  cases a with
  | addPlugin id gate => exact h.addPlugin hs
  | startRound t => exact h.startRound hs
  | enter t => exact h.enter hs
  | copy t => exact h.copy hs
  | endCall t threw => exact h.endCall hs
  | leave t => exact h.leave hs
  | endRound t => exact h.endRound hs
  | closePlugin t id => exact h.closePlugin hs
  | drain t timedOut => exact h.drain hs
  | reopen t => exact h.reopen hs
  | giveUp t => exact h.giveUp hs
  | eraseSlot t locked => exact h.eraseSlot hs
  | take t => exact h.take hs
  | removeAll t => exact h.removeAll hs
  | closeNext t => exact h.closeNext hs
  | clear t => exact h.clear hs
  | drainNext t timedOut => exact h.drainNext hs
  | takeNext t => exact h.takeNext hs
  | endRemoveAll t => exact h.endRemoveAll hs

theorem invariant_run (actions : List Action) : Invariant (run actions) := by
  refine Runs.foldl_invariant (I := Invariant) (fun s a h => ?_) invariant_initial actions
  rw [next]
  cases hs : step s a with
  | none => exact h
  | some s' => exact h.step hs

/-! ## Safety -/

theorem Frame.holds_of_not_inside {frame : Frame} (h : frame.inside g = false) :
    frame.holds g = false := by
  unfold holds
  split
  · exact h
  · rfl

theorem countP_isGuard_rolesAt (frames : List Frame) :
    (rolesAt g frames).countP Role.isGuard = frames.countP (inside g) := by
  induction frames with
  | nil => rfl
  | cons frame frames ih =>
    have hitems : ∀ closed, (itemRoles g closed).countP Role.isGuard = 0 := by
      intro closed
      refine countP_eq_zero.mpr fun r hr => ?_
      obtain ⟨item, -, rfl⟩ := mem_map.mp hr
      exact Bool.false_ne_true
    have hframe : (frame.roles g).countP Role.isGuard = if frame.inside g then 1 else 0 := by
      cases frame with
      | round todo phase =>
        cases todo with
        | nil => cases phase <;> rfl
        | cons slot todo =>
          by_cases hg : slot.gate = g <;> cases phase <;>
            simp [roles, Phase.roles, inside, hg, Role.isGuard]
      | removal gate cutoff stage =>
        by_cases hg : gate = g <;> simp [roles, inside, hg, Role.isGuard]
      | closingAll toClose closed | drainingAll closed clean => exact hitems closed
    rw [rolesAt_cons, countP_append, countP_cons, ih, hframe, Nat.add_comm]

theorem Invariant.count (h : Invariant s) (t : Thread) (g : ℕ) :
    (s.gates g).tracker.count t = (s.frames t).countP (inside g) := by
  rw [(h.gates g).guards t, countP_isGuard_rolesAt]

theorem Invariant.not_inside (h : Invariant s) (halone : (s.gates g).Alone t) {t' : Thread}
    (ht : t' ≠ t) : ∀ frame ∈ s.frames t', frame.inside g = false := by
  have hzero : (s.gates g).tracker.count t' = 0 := by
    refine countP_eq_zero.mpr fun e he hthread => ht ?_
    rw [← of_decide_eq_true hthread, halone e he]
  rw [h.count t' g] at hzero
  exact fun frame hframe => Bool.not_eq_true _ ▸ countP_eq_zero.mp hzero frame hframe

theorem step_plugins (hs : step s a = some s') (ha : a.rearranges = false) :
    s'.plugins = s.plugins := by
  cases a <;> grind [step, startRound, enter, copy, endCall, leave, endRound, closePlugin,
    drain, reopen, giveUp, abandon, take,
    removeAll, closeNext, drainNext, takeNext,
    endRemoveAll, setFrames, setGate, Action.rearranges]

theorem Invariant.step_handed (h : Invariant s) (hs : PluginList.step s a = some s')
    (hh : (s.gates g).handed = some t) : (s'.gates g).handed = some t := by
  have hfree : ∀ t' c stage below, s.frames t' ≠ .removal g c stage :: below := by
    intro t' c stage below hframes
    have hremoving := (h.gates g).removing_eq (mem_rolesAt_removal hframes)
    exact nomatch hremoving.symm.trans ((h.gates g).handed hh).2.1
  have hgates : ∀ s : State, ∀ g' gate, (s.setGate g' gate).gates g =
      if g = g' then gate else s.gates g := fun s g' gate => Function.update_apply s.gates g' gate g
  have hframes : ∀ s : State, ∀ t frames, (s.setFrames t frames).gates = s.gates :=
    fun _ _ _ => rfl
  cases a <;> grind [PluginList.step, PluginList.addPlugin, PluginList.startRound,
    PluginList.enter, PluginList.copy, PluginList.endCall, PluginList.leave, PluginList.endRound,
    PluginList.closePlugin, PluginList.drain, PluginList.reopen, PluginList.giveUp,
    PluginList.eraseSlot, PluginList.abandon, PluginList.take, PluginList.removeAll,
    PluginList.closeNext, PluginList.clear, PluginList.drainNext, PluginList.takeNext,
    PluginList.endRemoveAll]

theorem handed_append (actions later : List Action) (hh : ((run actions).gates g).handed = some t) :
    ((run (actions ++ later)).gates g).handed = some t := by
  induction later using List.reverseRecOn with
  | nil => rwa [append_nil]
  | append_singleton later a ih =>
    have hinv := invariant_run (actions ++ later)
    rw [run] at ih hinv
    rw [← append_assoc, run, foldl_append, foldl_cons, foldl_nil, next]
    cases hs : step ((actions ++ later).foldl next initial) a with
    | none => exact ih
    | some s' => exact hinv.step_handed hs ih

theorem Invariant.not_called (h : Invariant s) (hh : (s.gates g).handed = some t) (a : Action) :
    calls s a ≠ some g := by
  intro hcalls
  cases a with
  | copy t' =>
    rw [calls] at hcalls
    split at hcalls
    · next slot todo below hframes =>
        cases hcalls
        have hmem : .guard false ∈ rolesAt slot.gate (s.frames t') := by
          rw [hframes, rolesAt_cons, roles, if_pos rfl]
          exact mem_append_left _ (mem_singleton_self _)
        exact nomatch hh.symm.trans ((h.gates slot.gate).fits hmem rfl)
    · cases hcalls
  | _ => cases hcalls

/-- For every interleaving: while a removal has drained its module no other thread is inside and
the gate is shut; so it is ever after a wait of a removal, or of the removal of everything, that
came back clean, as long as nobody has reopened the gate since; a module that was handed back is
never called again and no other thread holds it; only adding, taking out and removing everything
change the order of the modules; and a tracker has one entry for each guard. -/
theorem gates_safe (actions : List Action) :
    (∀ t g cutoff stage, .removal g cutoff stage ∈ (run actions).frames t → stage.Clean →
      ((run actions).gates g).tracker.closed = true ∧
        ∀ t' ≠ t, ∀ frame ∈ (run actions).frames t', frame.inside g = false) ∧
    (∀ t g, (t, ((run actions).gates g).reopens) ∈ ((run actions).gates g).released →
      ((run actions).gates g).tracker.closed = true ∧
        ∀ t' ≠ t, ∀ frame ∈ (run actions).frames t', frame.inside g = false) ∧
    (∀ t g, ((run actions).gates g).handed = some t → ∀ later,
      (∀ a, calls (run (actions ++ later)) a ≠ some g) ∧
        ∀ t' ≠ t, ∀ frame ∈ (run (actions ++ later)).frames t', frame.holds g = false) ∧
    (∀ a, a.rearranges = false → (next (run actions) a).plugins = (run actions).plugins) ∧
    ∀ t g, ((run actions).gates g).tracker.count t =
      ((run actions).frames t).countP (inside g) := by
  have h := invariant_run actions
  refine ⟨?_, ?_, ?_, ?_, h.count⟩
  · intro t g cutoff stage hframe hclean
    have hmem : .removal cutoff stage ∈ rolesAt g ((run actions).frames t) :=
      mem_flatMap.mpr ⟨_, hframe, by rw [roles, if_pos rfl]; exact mem_cons_self⟩
    obtain ⟨hclosed, -, halone, -⟩ := (h.gates g).fits hmem
    exact ⟨hclosed, fun t' ht => h.not_inside (halone hclean) ht⟩
  · intro t g hreleased
    obtain ⟨hclosed, halone⟩ := ((h.gates g).released hreleased).2 rfl
    exact ⟨hclosed, fun t' ht => h.not_inside halone ht⟩
  · intro t g hhanded later
    have hlater := invariant_run (actions ++ later)
    have hh := handed_append actions later hhanded
    refine ⟨hlater.not_called hh, fun t' ht frame hframe => ?_⟩
    have hinside := hlater.not_inside ((hlater.gates g).handed hh).2.2.2 ht frame hframe
    exact holds_of_not_inside hinside
  · intro a ha
    rw [next]
    cases hs : step (run actions) a with
    | none => rfl
    | some s' => exact step_plugins hs ha

end Nscp.Service.PluginList
