import Nscp.Service.FailedChecks

/-!
# Runs of the failed-check log

The bookkeeping of the log holds over every interleaving.  Whether an entry meets the options in
force when it is pushed depends on what was configured since its check.
-/

namespace Nscp.Service.FailedChecks

open Nat Log Function List

variable {β : Type}

/-! ## Trimming -/

theorem Store.trimEntries_spec (maxEntries : ℕ) (es : List (Entry β)) (dropped : ℕ) :
    (trimEntries maxEntries es dropped).1 <:+ es ∧
      (trimEntries maxEntries es dropped).1.length ≤ maxEntries ∧
      (trimEntries maxEntries es dropped).1.length + (trimEntries maxEntries es dropped).2 =
        es.length + dropped := by
  induction es generalizing dropped with
  | nil => exact ⟨suffix_rfl, zero_le _, rfl⟩
  | cons e es ih =>
    rw [trimEntries]
    split_ifs with hmany
    · obtain ⟨hsuffix, hlength, hcount⟩ := ih (dropped + 1)
      refine ⟨hsuffix.trans (suffix_cons e es), hlength, ?_⟩
      rw [hcount, length_cons]
      omega
    · exact ⟨suffix_rfl, not_lt.mp hmany, rfl⟩

/-! ## Bookkeeping -/

structure Log.Consistent (s : Log β) : Prop where
  increasing : s.recorded.Pairwise fun x y => x.index < y.index
  started : 0 < s.store.nextIndex
  bounded : ∀ e ∈ s.recorded, 0 < e.index ∧ e.index < s.store.nextIndex
  stored : s.store.entries <:+ s.recorded
  counted : s.recorded.length = s.store.entries.length + s.store.dropped + s.cleared
  distinct : ∀ p, ((s.received p).map Entry.index).Nodup
  seen : ∀ p, ∀ e ∈ s.received p, e.index < s.store.nextIndex
  complete : ∀ p, ∀ e ∈ s.store.entries, e.index ≤ highest (s.received p) → e ∈ s.received p

def Log.Capped (s : Log β) : Prop :=
  s.store.entries.length ≤ s.store.options.maxEntries

section Highest

variable {e : Entry β} {es : List (Entry β)} {s : Store β}

theorem index_le_highest (he : e ∈ es) : e.index ≤ highest es := by
  induction es with
  | nil => cases he
  | cons x es ih =>
    rw [highest, foldr_cons]
    rcases mem_cons.mp he with rfl | he
    · exact le_max_left _ _
    · exact (ih he).trans (le_max_right _ _)

theorem highest_lt {n : ℕ} (hn : 0 < n) (hes : ∀ e ∈ es, e.index < n) : highest es < n := by
  induction es with
  | nil => exact hn
  | cons x es ih =>
    obtain ⟨hx, hrest⟩ := forall_mem_cons.mp hes
    exact max_lt hx (ih hrest)

theorem mem_list_iff (hsorted : s.entries.Pairwise fun x y => x.index < y.index) {since : ℕ} :
    e ∈ s.list since 0 ↔ e ∈ s.entries ∧ since < e.index := by
  have hlist : s.list since 0 = (s.entries.filter fun x => since < x.index).reverse := by
    have hreverse : s.entries.reverse.Pairwise fun x y => y.index < x.index :=
      pairwise_reverse.mpr hsorted
    rw [← filter_reverse]
    change s.entries.reverse.takeWhile _ = _
    generalize s.entries.reverse = xs at hreverse
    induction xs with
    | nil => rfl
    | cons x xs ih =>
      obtain ⟨hx, hrest⟩ := pairwise_cons.mp hreverse
      by_cases hsince : since < x.index
      · rw [takeWhile_cons_of_pos (by simpa using hsince),
          filter_cons_of_pos (by simpa using hsince), ih hrest]
      · have hnone : xs.filter (fun y => since < y.index) = [] := by
          refine filter_eq_nil_iff.mpr fun y hy => ?_
          have hlt := hx y hy
          simp only [decide_eq_true_eq]
          omega
        rw [takeWhile_cons_of_neg (by simpa using hsince),
          filter_cons_of_neg (by simpa using hsince), hnone]
  rw [hlist, mem_reverse, mem_filter, decide_eq_true_eq]

theorem nodup_index_list (hsorted : s.entries.Pairwise fun x y => x.index < y.index) (since : ℕ) :
    ((s.list since 0).map Entry.index).Nodup := by
  have hsub : (s.list since 0).Sublist s.entries.reverse := takeWhile_sublist _
  refine List.Nodup.sublist (hsub.map Entry.index) ?_
  rw [map_reverse, nodup_reverse]
  exact pairwise_map.mpr (hsorted.imp fun hlt => hlt.ne)

end Highest

namespace Log.Consistent

variable {s : Log β}

theorem sorted (h : s.Consistent) : s.store.entries.Pairwise fun x y => x.index < y.index :=
  h.increasing.sublist h.stored.sublist

theorem empty : (empty : Log β).Consistent where
  increasing := List.Pairwise.nil
  started := one_pos
  bounded := forall_mem_nil _
  stored := suffix_rfl
  counted := rfl
  distinct _ := nodup_nil
  seen _ := forall_mem_nil _
  complete _ := forall_mem_nil _

section

variable (h : s.Consistent)
include h

theorem shrink {store : Store β} {cleared : ℕ} (hnext : store.nextIndex = s.store.nextIndex)
    (hentries : store.entries <:+ s.store.entries)
    (hcount : store.entries.length + store.dropped + cleared =
      s.store.entries.length + s.store.dropped + s.cleared) :
    ({ s with store := store, cleared := cleared } : Log β).Consistent where
  increasing := h.increasing
  started := hnext ▸ h.started
  bounded := hnext ▸ h.bounded
  stored := hentries.trans h.stored
  counted := h.counted.trans hcount.symm
  distinct := h.distinct
  seen := hnext ▸ h.seen
  complete p e he := h.complete p e (hentries.subset he)

theorem append (item : Entry β) (held : ℕ → Option (Entry β)) : ({ s with
      store := { s.store with
        entries := s.store.entries ++ [{ item with index := s.store.nextIndex }]
        nextIndex := s.store.nextIndex + 1 }
      held := held
      recorded := s.recorded ++ [{ item with index := s.store.nextIndex }] } :
      Log β).Consistent where
  increasing := by
    refine pairwise_append.mpr ⟨h.increasing, pairwise_singleton _ _, ?_⟩
    intro x hx y hy
    rw [mem_singleton.mp hy]
    exact (h.bounded x hx).2
  started := succ_pos _
  bounded := by
    refine forall_mem_append.mpr ⟨fun e he => ?_, ?_⟩
    · exact ⟨(h.bounded e he).1, (h.bounded e he).2.trans (lt_succ_self _)⟩
    · exact forall_mem_singleton.mpr ⟨h.started, lt_succ_self _⟩
  stored := by
    obtain ⟨before, hbefore⟩ := h.stored
    exact ⟨before, by rw [← hbefore, append_assoc]⟩
  counted := by
    have hcounted := h.counted
    simp only [length_append, length_singleton]
    omega
  distinct := h.distinct
  seen p e he := (h.seen p e he).trans (lt_succ_self _)
  complete p e he hle := by
    rcases mem_append.mp he with he | he
    · exact h.complete p e he hle
    · obtain rfl := mem_singleton.mp he
      exact absurd hle (not_le.mpr (highest_lt h.started (h.seen p)))

theorem poll (poller : ℕ) (trimBody : β → β) : (s.step trimBody (.poll poller)).Consistent ∧
      ∀ e ∈ s.store.entries, e ∈ (s.step trimBody (.poll poller)).received poller := by
  have hmem : ∀ e, e ∈ s.store.list (highest (s.received poller)) 0 ↔
      e ∈ s.store.entries ∧ highest (s.received poller) < e.index := fun e => mem_list_iff h.sorted
  have hall : ∀ e ∈ s.store.entries,
      e ∈ s.received poller ++ s.store.list (highest (s.received poller)) 0 := by
    intro e he
    rcases le_or_gt e.index (highest (s.received poller)) with hle | hlt
    · exact mem_append_left _ (h.complete poller e he hle)
    · exact mem_append_right _ ((hmem e).mpr ⟨he, hlt⟩)
  have hupdate : ∀ p, (s.step trimBody (.poll poller)).received p =
      if p = poller then s.received poller ++ s.store.list (highest (s.received poller)) 0
      else s.received p := fun p => update_apply _ _ _ _
  refine ⟨⟨h.increasing, h.started, h.bounded, h.stored, h.counted, fun p => ?_, fun p => ?_,
    fun p e he hle => ?_⟩, fun e he => ?_⟩
  · rw [hupdate]
    split_ifs
    · rw [map_append]
      refine nodup_append.mpr ⟨h.distinct poller, nodup_index_list h.sorted _, ?_⟩
      intro i hi j hj
      obtain ⟨x, hx, rfl⟩ := mem_map.mp hi
      obtain ⟨y, hy, rfl⟩ := mem_map.mp hj
      exact ((index_le_highest hx).trans_lt ((hmem y).mp hy).2).ne
    · exact h.distinct p
  · rw [hupdate]
    split_ifs
    · refine forall_mem_append.mpr ⟨h.seen poller, fun e he => ?_⟩
      exact (h.bounded e (h.stored.subset ((hmem e).mp he).1)).2
    · exact h.seen p
  · rw [hupdate] at hle ⊢
    split_ifs at hle ⊢
    · exact hall e he
    · exact h.complete p e he hle
  · rw [hupdate, if_pos rfl]
    exact hall e he

theorem trimLocked : ({ s with store := s.store.trimLocked } : Log β).Consistent ∧
      s.store.trimLocked.entries.length ≤ s.store.trimLocked.options.maxEntries := by
  obtain ⟨hsuffix, hlength, hcount⟩ :=
    Store.trimEntries_spec s.store.options.maxEntries s.store.entries s.store.dropped
  refine ⟨h.shrink rfl hsuffix ?_, hlength⟩
  exact congrArg (· + s.cleared) hcount

theorem check (trimBody : β → β) (thread : ℕ) (call : Call β) :
    (s.checkStep trimBody thread call).Consistent ∧
      (s.checkStep trimBody thread call).store = s.store := by
  rw [checkStep]
  split
  · exact ⟨h, rfl⟩
  split_ifs
  · exact ⟨⟨h.increasing, h.started, h.bounded, h.stored, h.counted, h.distinct, h.seen,
      h.complete⟩, rfl⟩
  · exact ⟨h, rfl⟩

theorem push (hcap : s.Capped) (thread : ℕ) :
    (s.pushStep thread).Consistent ∧ (s.pushStep thread).Capped := by
  rw [pushStep]
  split
  · exact ⟨h, hcap⟩
  next item _ =>
    split_ifs
    · exact (h.append item (update s.held thread none)).trimLocked
    · exact ⟨⟨h.increasing, h.started, h.bounded, h.stored, h.counted, h.distinct, h.seen,
        h.complete⟩, hcap⟩

theorem clear : ({ s with
      store := s.store.clear
      cleared := s.cleared + s.store.entries.length } : Log β).Consistent := by
  refine h.shrink rfl (nil_suffix) ?_
  change 0 + s.store.dropped + (s.cleared + s.store.entries.length) = _
  omega

theorem configure (trimBody : β → β) (value : Options) :
    (s.step trimBody (.configure value)).Consistent ∧
      (s.step trimBody (.configure value)).Capped := by
  have hstep : s.step trimBody (.configure value) = { s with
        store := s.store.configure value
        cleared := s.cleared + if value.enabled then 0 else s.store.entries.length } := rfl
  have henabled : value.clamped.enabled = value.enabled := rfl
  cases hvalue : value.enabled with
  | false =>
    have hoff : s.store.configure value =
        { s.store with options := value.clamped, entries := [] } := by
      rw [Store.configure, henabled, hvalue, if_pos rfl]
    rw [hstep, hoff, hvalue, if_neg Bool.false_ne_true]
    refine ⟨h.shrink rfl nil_suffix ?_, zero_le _⟩
    change 0 + s.store.dropped + (s.cleared + s.store.entries.length) = _
    omega
  | true =>
    have hon : s.store.configure value = { s.store with options := value.clamped }.trimLocked := by
      rw [Store.configure, henabled, hvalue, if_neg Bool.true_eq_false.mp]
    have hreopt : ({ s with store := { s.store with options := value.clamped } } :
        Log β).Consistent := h.shrink rfl suffix_rfl rfl
    rw [hstep, hon, hvalue, if_pos rfl, add_zero]
    exact hreopt.trimLocked

theorem step (hcap : s.Capped) (trimBody : β → β) (event : Event β) :
    (s.step trimBody event).Consistent ∧ (s.step trimBody event).Capped := by
  cases event with
  | check thread call =>
    obtain ⟨hnext, hstore⟩ := h.check trimBody thread call
    refine ⟨hnext, ?_⟩
    change (s.checkStep trimBody thread call).Capped
    rw [Capped, hstore]
    exact hcap
  | push thread => exact h.push hcap thread
  | configure value => exact h.configure trimBody value
  | clear => exact ⟨h.clear, zero_le _⟩
  | poll poller => exact ⟨(h.poll poller trimBody).1, hcap⟩

end

end Log.Consistent

theorem consistent_run (trimBody : β → β) (events : List (Event β)) :
    (run trimBody events).Consistent ∧ (run trimBody events).Capped :=
  Runs.foldl_invariant (I := fun s : Log β => s.Consistent ∧ s.Capped)
    (fun _ event hs => hs.1.step hs.2 trimBody event) ⟨Log.Consistent.empty, zero_le _⟩ events

/-! ## Options in force -/

def lastConfigured (events : List (Event β)) : Option Options :=
  events.foldl (fun last event =>
    match event with
    | .configure value => some value
    | _ => last) none

theorem lastConfigured_concat (events : List (Event β)) (event : Event β) :
    lastConfigured (events ++ [event]) = match event with
      | .configure value => some value
      | _ => lastConfigured events := by
  rw [lastConfigured, foldl_append]
  rfl

section InForce

variable {trimBody : β → β} {s : Log β} {thread : ℕ} {item : Entry β} {events : List (Event β)}

section

variable (trimBody : β → β) (s : Log β)

theorem options_step (event : Event β) : (s.step trimBody event).store.options = match event with
      | .configure value => value.clamped
      | _ => s.store.options := by
  cases event with
  | check t call =>
    change (s.checkStep trimBody t call).store.options = s.store.options
    rw [checkStep]
    split
    · rfl
    split_ifs <;> rfl
  | push t =>
    change (s.pushStep t).store.options = s.store.options
    rw [pushStep]
    split
    · rfl
    split_ifs <;> rfl
  | configure value =>
    change (s.store.configure value).options = value.clamped
    rw [Store.configure]
    split_ifs <;> rfl
  | clear => rfl
  | poll p => rfl

theorem options_foldl (events : List (Event β)) :
    (events.foldl (step trimBody) s).store.options =
      ((lastConfigured events).map Options.clamped).getD s.store.options := by
  induction events using List.reverseRecOn with
  | nil => rfl
  | append_singleton events event ih =>
    rw [foldl_append, foldl_cons, foldl_nil, options_step, lastConfigured_concat]
    cases event with
    | configure value => rfl
    | _ => exact ih

/-- A copy is held from the check that passed to its own push. -/
theorem held_step (event : Event β) (thread : ℕ) :
    (s.step trimBody event).held thread = s.held thread ∨
      (event = .push thread ∧ (s.step trimBody event).held thread = none) ∨
      ∃ call, event = .check thread call ∧ s.held thread = none ∧
        s.store.options.records call.response.result = true ∧
        (s.step trimBody event).held thread = some (call.copy trimBody s.store.options) := by
  cases event with
  | check t call =>
    change (s.checkStep trimBody t call).held thread = s.held thread ∨ _
    rw [step, checkStep]
    cases hheld : s.held t with
    | some item => exact .inl rfl
    | none =>
      cases hrecords : s.store.options.records call.response.result with
      | false => exact .inl rfl
      | true =>
        by_cases ht : thread = t
        · subst ht
          exact .inr (.inr ⟨call, rfl, hheld, hrecords, update_self _ _ _⟩)
        · exact .inl (update_of_ne ht _ _)
  | push t =>
    change (s.pushStep t).held thread = s.held thread ∨ _
    rw [step, pushStep]
    cases hheld : s.held t with
    | none => exact .inl rfl
    | some item =>
      by_cases ht : thread = t
      · subst ht
        refine .inr (.inl ⟨rfl, ?_⟩)
        dsimp only
        split_ifs <;> exact update_self _ _ _
      · refine .inl ?_
        dsimp only
        split_ifs <;> exact update_of_ne ht _ _
  | _ => exact .inl rfl

end

theorem held_foldl (hheld : s.held thread = some item)
    (hevents : ∀ event ∈ events, event ≠ .push thread) :
    (events.foldl (step trimBody) s).held thread = some item := by
  induction events generalizing s with
  | nil => exact hheld
  | cons event events ih =>
    obtain ⟨hfirst, hrest⟩ := forall_mem_cons.mp hevents
    refine ih ?_ hrest
    rcases held_step trimBody s event thread with hkept | ⟨hpush, -⟩ | ⟨call, -, hnone, -⟩
    · exact hkept.trans hheld
    · exact absurd hpush hfirst
    · rw [hheld] at hnone
      cases hnone

/-- A check that is let through in a run, with what follows it up to the push. -/
structure Checked (trimBody : β → β) (before : List (Event β)) (thread : ℕ) (call : Call β)
    (between : List (Event β)) : Prop where
  free : (run trimBody before).held thread = none
  recorded : (run trimBody before).store.options.records call.response.result = true
  unpushed : ∀ event ∈ between, event ≠ .push thread

def copyAfter (trimBody : β → β) (before : List (Event β)) (call : Call β) : Entry β :=
  call.copy trimBody (run trimBody before).store.options

theorem run_append (trimBody : β → β) (events rest : List (Event β)) :
    run trimBody (events ++ rest) = rest.foldl (step trimBody) (run trimBody events) :=
  foldl_append

theorem Checked.held {before between : List (Event β)} {call : Call β}
    (h : Checked trimBody before thread call between) :
    (run trimBody (before ++ .check thread call :: between)).held thread =
      some (copyAfter trimBody before call) := by
  rw [run_append, foldl_cons]
  refine held_foldl ?_ h.unpushed
  change ((run trimBody before).checkStep trimBody thread call).held thread = _
  rw [checkStep, h.free]
  dsimp only
  rw [if_pos h.recorded]
  exact update_self _ _ _

theorem exists_checked (hheld : (run trimBody events).held thread = some item) :
    ∃ before call between, events = before ++ .check thread call :: between ∧
      Checked trimBody before thread call between ∧ item = copyAfter trimBody before call := by
  induction events using List.reverseRecOn with
  | nil => cases hheld
  | append_singleton events event ih =>
    have hstep : run trimBody (events ++ [event]) =
        (run trimBody events).step trimBody event := run_append trimBody events [event]
    rw [hstep] at hheld
    rcases held_step trimBody (run trimBody events) event thread with
      hkept | ⟨-, hnone⟩ | ⟨call, rfl, hfree, hrecorded, hcopy⟩
    · obtain ⟨before, call, between, rfl, hchecked, hitem⟩ := ih (hkept.symm.trans hheld)
      have hevent : event ≠ .push thread := by
        rintro rfl
        have hpushed : ((run trimBody (before ++ .check thread call :: between)).pushStep
            thread).held thread = some item := hheld
        rw [pushStep, hchecked.held] at hpushed
        dsimp only at hpushed
        split_ifs at hpushed
        · exact absurd (hpushed.symm.trans (update_self _ _ _)) (Option.some_ne_none _)
        · exact absurd (hpushed.symm.trans (update_self _ _ _)) (Option.some_ne_none _)
      refine ⟨before, call, between ++ [event], ?_, ?_, hitem⟩
      · rw [append_assoc, cons_append]
      · exact ⟨hchecked.free, hchecked.recorded,
          forall_mem_append.mpr ⟨hchecked.unpushed, forall_mem_singleton.mpr hevent⟩⟩
    · rw [hnone] at hheld
      cases hheld
    · refine ⟨events, call, [], rfl, ⟨hfree, hrecorded, forall_mem_nil _⟩, ?_⟩
      exact Option.some.inj (hheld.symm.trans hcopy)

end InForce

/-! ## Entries and the configuration -/

def Entry.Allowed (e : Entry β) (o : Options) : Prop :=
  o.hasStatus e.response.result = true ∧ (e.response.arguments ≠ [] → o.recordArguments = true)

section

variable (trimBody : β → β)

/-- Every entry is allowed by the options in force when it is pushed. -/
def RespectsOptions (events : List (Event β)) : Prop :=
  ∀ before thread, before ++ [.push thread] <+: events →
    ∀ item, (run trimBody before).held thread = some item →
      (run trimBody before).store.options.enabled = true →
        item.Allowed (run trimBody before).store.options

/-- The bookkeeping at every point: indices increase, the cap is kept, nothing is lost, and a
poll completes what its poller has received once each. -/
def Bookkept (events : List (Event β)) : Prop :=
  ∀ before, before <+: events → let s := run trimBody before
    (s.recorded.Pairwise fun x y => x.index < y.index) ∧
    s.store.entries <:+ s.recorded ∧
    s.store.entries.length ≤ s.store.options.maxEntries ∧
    s.recorded.length = s.store.entries.length + s.store.dropped + s.cleared ∧
    ∀ poller, ((s.received poller).map Entry.index).Nodup ∧
      ∀ e ∈ s.store.entries, e ∈ (s.step trimBody (.poll poller)).received poller

/-- Between the check of an entry and its push the store is not reconfigured, or last so that it
is off or allows the entry. -/
def Undisturbed (events : List (Event β)) : Prop :=
  ∀ before thread call between,
    before ++ .check thread call :: between ++ [.push thread] <+: events →
      Checked trimBody before thread call between →
        ∀ value, lastConfigured between = some value → value.enabled = true →
          (copyAfter trimBody before call).Allowed value.clamped

end

theorem bookkept (trimBody : β → β) (events : List (Event β)) : Bookkept trimBody events := by
  intro before _
  obtain ⟨hs, hcap⟩ := consistent_run trimBody before
  exact ⟨hs.increasing, hs.stored, hcap, hs.counted,
    fun poller => ⟨hs.distinct poller, (hs.poll poller trimBody).2⟩⟩

theorem Checked.allowed {trimBody : β → β} {before between : List (Event β)} {thread : ℕ}
    {call : Call β} (h : Checked trimBody before thread call between) :
    (copyAfter trimBody before call).Allowed (run trimBody before).store.options := by
  refine ⟨(Bool.and_eq_true_iff.mp h.recorded).2, fun harguments => ?_⟩
  by_contra hoff
  apply harguments
  rw [copyAfter, Call.copy, if_neg hoff]
  rfl

/-- The log respects the options in force if and only if no entry is disturbed between its check
and its push. -/
theorem respectsOptions_iff (trimBody : β → β) (events : List (Event β)) :
    (RespectsOptions trimBody events ∧ Bookkept trimBody events) ↔ Undisturbed trimBody events := by
  refine (and_iff_left (bookkept trimBody events)).trans ⟨?_, ?_⟩
  · intro hrespects before thread call between hevents hchecked value hlast henabled
    have hoptions : (run trimBody (before ++ .check thread call :: between)).store.options =
        value.clamped := by
      rw [run_append, foldl_cons, options_foldl, hlast]
      rfl
    have hallowed := hrespects _ thread hevents _ hchecked.held (hoptions ▸ henabled)
    rwa [hoptions] at hallowed
  · intro hundisturbed events' thread hevents item hheld henabled
    obtain ⟨before, call, between, rfl, hchecked, rfl⟩ := exists_checked hheld
    have hoptions : (run trimBody (before ++ .check thread call :: between)).store.options =
        ((lastConfigured between).map Options.clamped).getD
          (run trimBody before).store.options := by
      rw [run_append, foldl_cons, options_foldl, options_step]
    rw [hoptions] at henabled ⊢
    cases hlast : lastConfigured between with
    | none => exact hchecked.allowed
    | some value =>
      rw [hlast] at henabled
      exact hundisturbed before thread call between hevents hchecked value hlast henabled

/-! ## A reconfiguration between the two steps -/

/-- A critical result with an argument is checked while both are recorded; before it is pushed
the operator turns the recording of arguments and of critical results off. -/
def reconfigured : List (Event Unit) :=
  [.configure ⟨true, 50, true, defaultStatuses⟩,
    .check 0 ⟨⟨2, (), []⟩, some ["a".toList], [], 0, 0⟩,
    .configure ⟨true, 50, false, statusBit 1⟩,
    .push 0]

theorem reconfigured_pushes :
    (run id reconfigured).recorded.map (fun e => (e.response.result, e.response.arguments)) =
        [(2, ["a".toList])] ∧
      (run id reconfigured).store.options.hasStatus 2 = false ∧
      (run id reconfigured).store.options.recordArguments = false := by
  decide +kernel

end Nscp.Service.FailedChecks
