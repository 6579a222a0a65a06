import Nscp.Filter.Accounting

/-!
# A filter that is used again

`start_match` resets the summary and the kept records and leaves the unique index and the
performance data.  A batch leaves the same result on a used filter as on a new one, at
every point of the batch, exactly when the performance data was empty and no line of the
batch is held back because of a key of an earlier batch.
-/

namespace Nscp.Filter.ModernFilters

open Where

variable {Obj Perf : Type} (f : ModernFilters Obj Perf)

/-- The result of a batch on a used filter and on a new one. -/
structure SameResult (used fresh : State Obj Perf) : Prop where
  summary : used.summary = fresh.summary
  perf : used.performanceInstanceData = fresh.performanceInstanceData

def uniqueKey (s : Summary) (record : Obj) : String :=
  f.rendererUnique.render (f.context s (some record))

def line (s : Summary) (record : Obj) : String :=
  f.rendererDetail.render (f.context s (some record))

/-- A record whose line does not hang on the keys of earlier batches: it is not kept, its key
is not among them, or it is the second with its key in its own batch or has no line. -/
def Unshared (index : List String) (st : State Obj Perf) (record : Obj) : Prop :=
  f.keeps st.summary.count record = true → f.hasUniqueIndex = true →
    f.uniqueKey st.summary.count record ∈ index →
      f.uniqueKey st.summary.count record ∈ st.uniqueIndex ∨ f.line st.summary.count record = ""

/-! ## Two filters side by side -/

/-- A kept record on a new filter and on a used one. -/
structure SameRow (d d' : DeferredRecord Obj) : Prop where
  record : d'.record = d.record
  current : d'.current = d.current
  unique : d.current = "" ∨ d'.secondUniqueMatch = d.secondUniqueMatch

/-- A new filter and one that has used the keys `index`, at the same point of a batch. -/
structure Alike (index : List String) (a b : State Obj Perf) : Prop where
  summary : b.summary = a.summary
  perf : b.performanceInstanceData = a.performanceInstanceData
  index : ∀ k, k ∈ b.uniqueIndex ↔ k ∈ a.uniqueIndex ∨ k ∈ index
  deferred : List.Forall₂ SameRow a.deferredRecords b.deferredRecords

theorem appendList_empty (list separator : String) : appendList list "" separator = list := by
  rw [appendList, if_pos rfl]

theorem appendList_ne {list item separator : String} (h : item ≠ "") :
    appendList list item separator ≠ list := by
  rw [appendList, if_neg h]
  split
  next hlist =>
    rw [hlist]
    exact h
  next =>
    intro heq
    have hlength := congrArg String.length heq
    simp only [String.length_append] at hlength
    have hitem : item.length ≠ 0 := fun h0 => h (String.length_eq_zero_iff.mp h0)
    omega

theorem judge_congr {d d' : DeferredRecord Obj} (h : SameRow d d') (p : Summary × Bool) :
    f.judge p d' = f.judge p d := by
  obtain ⟨record, current, second⟩ := d
  obtain ⟨record', current', second'⟩ := d'
  obtain ⟨rfl, rfl, hunique⟩ := h
  obtain rfl | rfl := hunique
  · cases second <;> cases second' <;>
      simp [judge, Summary.matchedCrit, Summary.matchedCritUnique, Summary.matchedWarn,
        Summary.matchedWarnUnique, Summary.matchedOk, Summary.matchedOkUnique, appendList_empty]
  · rfl

theorem foldl_judge_congr {ds ds' : List (DeferredRecord Obj)} (h : List.Forall₂ SameRow ds ds')
    (p : Summary × Bool) : ds'.foldl f.judge p = ds.foldl f.judge p := by
  induction h generalizing p with
  | nil => rfl
  | cons hrow _ ih => rw [List.foldl_cons, List.foldl_cons, f.judge_congr hrow, ih]

variable {a b : State Obj Perf} {index : List String}

theorem sameResult_matchPost (h : Alike index a b) :
    SameResult (f.matchPost b).1 (f.matchPost a).1 := by
  have hjudged : (f.evaluateDeferredRecords b).summary = (f.evaluateDeferredRecords a).summary := by
    rw [evaluateDeferredRecords, evaluateDeferredRecords, h.summary, f.foldl_judge_congr h.deferred]
  refine ⟨?_, ?_⟩
  · change (f.judgeSummary (f.evaluateDeferredRecords b).summary).1 = _
    rw [hjudged]
    rfl
  · change b.performanceInstanceData ++
      f.rowPerformanceData (f.context (f.evaluateDeferredRecords b).summary none) "" = _
    rw [hjudged, h.perf]
    rfl

variable (st : State Obj Perf) {record : Obj}

theorem matchPost_listMatch : (f.matchPost st).1.summary.listMatch = st.summary.listMatch := by
  have hjudge : ∀ (p : Summary × Bool) d, (f.judge p d).1.listMatch = p.1.listMatch := by
    intro p d
    simp only [judge]
    split_ifs <;> rfl
  have hdeferred : (f.evaluateDeferredRecords st).summary.listMatch = st.summary.listMatch :=
    Runs.foldl_invariant (I := fun p : Summary × Bool => p.1.listMatch = st.summary.listMatch)
      (fun p d h => (hjudge p d).trans h) rfl st.deferredRecords
  rw [← hdeferred]
  change (f.judgeSummary (f.evaluateDeferredRecords st).summary).1.listMatch = _
  simp only [judgeSummary]
  split_ifs <;> rfl

/-! ## One record -/

def secondUnique (st : State Obj Perf) (record : Obj) : Bool :=
  f.hasUniqueIndex && decide (f.uniqueKey st.summary record ∈ st.uniqueIndex)

theorem keep_summary_eq (record : Obj) : (f.keep st record).summary =
      if f.secondUnique st record then st.summary.matchedUnique
      else st.summary.matched (f.line st.summary record) := rfl

theorem keep_deferredRecords (record : Obj) : (f.keep st record).deferredRecords =
      st.deferredRecords ++ [⟨record, f.line st.summary record, f.secondUnique st record⟩] := rfl

theorem mem_keep_uniqueIndex {st : State Obj Perf} {k : String} :
    k ∈ (f.keep st record).uniqueIndex ↔
      k ∈ st.uniqueIndex ∨ f.hasUniqueIndex = true ∧ k = f.uniqueKey st.summary record := by
  have hindex : (f.keep st record).uniqueIndex =
      if f.hasUniqueIndex && !f.secondUnique st record then
        f.uniqueKey st.summary record :: st.uniqueIndex
      else st.uniqueIndex := rfl
  rw [hindex, secondUnique]
  cases f.hasUniqueIndex with
  | false => simp
  | true =>
    by_cases hmem : f.uniqueKey st.summary record ∈ st.uniqueIndex
    · simp only [hmem, decide_true, Bool.and_true, Bool.not_true, Bool.and_false,
        Bool.false_eq_true, if_false, true_and]
      exact ⟨.inl, fun h => h.elim id fun heq => heq ▸ hmem⟩
    · simp [hmem, or_comm]

theorem secondUnique_eq (hsummary : b.summary = a.summary)
    (hindex : ∀ k, k ∈ b.uniqueIndex ↔ k ∈ a.uniqueIndex ∨ k ∈ index)
    (hshared : f.hasUniqueIndex = true → f.uniqueKey a.summary record ∈ index →
      f.uniqueKey a.summary record ∈ a.uniqueIndex ∨ f.line a.summary record = "") :
    f.line a.summary record = "" ∨ f.secondUnique b record = f.secondUnique a record := by
  rw [secondUnique, secondUnique, hsummary]
  cases hunique : f.hasUniqueIndex with
  | false => exact .inr rfl
  | true =>
    by_cases hmem : f.uniqueKey a.summary record ∈ index
    · obtain hown | hline := hshared hunique hmem
      · exact .inr (by simp [hindex, hown])
      · exact .inl hline
    · exact .inr (by simp [hindex, hmem])

section

variable (h : Alike index a b)
include h

theorem Alike.keep
    (hshared : f.hasUniqueIndex = true → f.uniqueKey a.summary record ∈ index →
      f.uniqueKey a.summary record ∈ a.uniqueIndex ∨ f.line a.summary record = "") :
    Alike index (f.keep a record) (f.keep b record) := by
  have hsecond := f.secondUnique_eq h.summary h.index hshared
  refine ⟨?_, ?_, ?_, ?_⟩
  · rw [keep_summary_eq, keep_summary_eq, h.summary]
    obtain hline | hsame := hsecond
    · have hempty : a.summary.matched "" = a.summary.matchedUnique := by
        rw [Summary.matched, appendList_empty]
        rfl
      rw [hline, hempty, ite_self, ite_self]
    · rw [hsame]
  · change b.performanceInstanceData ++ f.rowPerformanceData (f.context b.summary _) _ = _
    rw [h.perf, h.summary]
    rfl
  · intro k
    rw [mem_keep_uniqueIndex, mem_keep_uniqueIndex, h.index, h.summary]
    tauto
  · rw [keep_deferredRecords, keep_deferredRecords, h.summary]
    refine List.rel_append h.deferred (List.Forall₂.cons ⟨rfl, rfl, hsecond⟩ .nil)

theorem Alike.count :
    Alike index { a with summary := a.summary.count } { b with summary := b.summary.count } where
  summary := congrArg Summary.count h.summary
  perf := h.perf
  index := h.index
  deferred := h.deferred

theorem Alike.step (hshared : f.Unshared index a record) :
    Alike index (f.step a record) (f.step b record) := by
  rw [step_eq, step_eq, h.summary]
  split
  next hkeeps => exact h.summary ▸ h.count.keep f fun hunique hmem => hshared hkeeps hunique hmem
  next => exact h.summary ▸ h.count

theorem not_sameResult (hshared : ¬ f.Unshared index a record) :
    ¬ SameResult (f.matchPost (f.step b record)).1 (f.matchPost (f.step a record)).1 := by
  simp only [Unshared, not_forall, not_or] at hshared
  obtain ⟨hkeeps, hunique, hmem, hfirst, hline⟩ := hshared
  intro hsame
  have hlist := congrArg Summary.listMatch hsame.summary
  rw [matchPost_listMatch, matchPost_listMatch, step_eq, step_eq, h.summary, if_pos hkeeps,
    if_pos hkeeps, keep_summary_eq, keep_summary_eq, secondUnique, secondUnique] at hlist
  have hused : f.uniqueKey a.summary.count record ∈ b.uniqueIndex := (h.index _).mpr (.inr hmem)
  simp only [hunique, hused, hfirst, decide_true, decide_false, Bool.and_true, Bool.and_false,
    if_true, Bool.false_eq_true, if_false] at hlist
  exact appendList_ne hline hlist.symm

theorem sameResult_step_iff (record : Obj) :
    SameResult (f.matchPost (f.step b record)).1 (f.matchPost (f.step a record)).1 ↔
      f.Unshared index a record :=
  ⟨fun hsame => by_contra fun hshared => f.not_sameResult h hshared hsame,
    fun hshared => f.sameResult_matchPost (h.step f hshared)⟩

end

/-! ## A batch -/

variable {used : State Obj Perf}

theorem alike_startMatch (h : used.performanceInstanceData = []) :
    Alike used.uniqueIndex (State.new used.summary.listSeparator : State Obj Perf).startMatch
      used.startMatch where
  summary := rfl
  perf := h
  index _ := (or_iff_right List.not_mem_nil).symm
  deferred := .nil

theorem performanceInstanceData_of_sameResult
    (h : SameResult (f.run used []) (f.run (.new used.summary.listSeparator) [])) :
    used.performanceInstanceData = [] := by
  have hperf := h.perf
  change used.performanceInstanceData ++
    f.rowPerformanceData (f.context used.summary.reset none) "" =
    [] ++ f.rowPerformanceData (f.context used.summary.reset none) "" at hperf
  exact List.append_cancel_right hperf

theorem run_listSeparator (records : List Obj) :
    (f.run st records).summary.listSeparator = st.summary.listSeparator := by
  have hstep : ∀ (st : State Obj Perf) record,
      (f.step st record).summary.listSeparator = st.summary.listSeparator := by
    intro st record
    rw [step_eq]
    split
    · obtain h | ⟨line, h⟩ := f.keep_summary { st with summary := st.summary.count } record
      · rw [h]
        rfl
      · rw [h]
        rfl
    · rfl
  have hjudge : ∀ (p : Summary × Bool) d, (f.judge p d).1.listSeparator = p.1.listSeparator := by
    intro p d
    simp only [judge]
    split_ifs <;> rfl
  have hpost : ∀ s, (f.judgeSummary s).1.listSeparator = s.listSeparator := by
    intro s
    simp only [judgeSummary]
    split_ifs <;> rfl
  refine (hpost _).trans ?_
  refine Runs.foldl_invariant
    (I := fun p : Summary × Bool => p.1.listSeparator = st.summary.listSeparator)
    (fun p d h => (hjudge p d).trans h) ?_ _
  exact Runs.foldl_invariant
    (I := fun st' : State Obj Perf => st'.summary.listSeparator = st.summary.listSeparator)
    (fun st' record h => (hstep st' record).trans h) (s := st.startMatch) rfl records

/-- Whatever a filter was used for, a batch and every part of it leave the same summary and the
same performance data as on a new filter if and only if the batch before left no performance
data and none of its keys holds back a line. -/
theorem sameResult_run_iff (st : State Obj Perf) (first second : List Obj) :
    (∀ l, l <+: second → SameResult (f.run (f.run st first) l)
      (f.run (.new st.summary.listSeparator) l)) ↔
    (f.run st first).performanceInstanceData = [] ∧ ∀ l record, l ++ [record] <+: second →
        f.Unshared (f.run st first).uniqueIndex
          (l.foldl f.step (State.new st.summary.listSeparator).startMatch) record := by
  rw [← f.run_listSeparator st first]
  generalize f.run st first = used
  by_cases hperf : used.performanceInstanceData = []
  · have hstart := alike_startMatch hperf
    have hrun := Runs.forall_prefix_iff_of_invariant
      (f := fun (x : State Obj Perf × State Obj Perf) record =>
        (f.step x.1 record, f.step x.2 record))
      (R := fun x => Alike used.uniqueIndex x.1 x.2)
      (P := fun x => SameResult (f.matchPost x.2).1 (f.matchPost x.1).1)
      (Q := fun x record => f.Unshared used.uniqueIndex x.1 record)
      (fun x record hx hshared => hx.step f hshared)
      (fun x record hx => f.sameResult_step_iff hx record)
      (s := (_, _)) hstart (f.sameResult_matchPost hstart) second
    simp only [Runs.foldl_prod f.step f.step] at hrun
    exact hrun.trans (iff_and_self.mpr fun _ => hperf)
  · refine iff_of_false (fun hall => hperf ?_) fun h => hperf h.1
    exact f.performanceInstanceData_of_sameResult (hall [] List.nil_prefix)

def byName : ModernFilters Sample.Row ℤ where
  host := Sample.host
  now := 0
  rendererDetail := ⟨[.value fun ctx => (ctx.object.map Sample.Row.name).getD ""]⟩
  rendererPerf := ⟨[.text "level"]⟩
  rendererUnique := ⟨[.value fun ctx => (ctx.object.map Sample.Row.name).getD ""]⟩
  rendererHash _ := []
  engineFilter := none
  engineWarn := none
  engineCrit := none
  engineOk := none
  leafPerformanceData := [⟨"level", fun ctx _ => (ctx.object.map Sample.Row.level).toList⟩]
  fetchHash := false
  hasUniqueIndex := true

/-- The second batch loses its line to the first and repeats the data of the first. -/
theorem run_byName_twice : (byName.run (.new ", ") [⟨5, 0, "up"⟩]).summary.listMatch = "up" ∧
      (byName.run (.new ", ") [⟨5, 0, "up"⟩]).performanceInstanceData = [5] ∧
      (byName.run (byName.run (.new ", ") [⟨5, 0, "up"⟩]) [⟨5, 0, "up"⟩]).summary.listMatch = "" ∧
      (byName.run (byName.run (.new ", ") [⟨5, 0, "up"⟩])
        [⟨5, 0, "up"⟩]).performanceInstanceData = [5, 5] := by
  decide +kernel

end Nscp.Filter.ModernFilters
