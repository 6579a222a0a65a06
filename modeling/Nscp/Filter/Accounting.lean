import Nscp.Filter.ModernFilter
import Nscp.Where.Parse
import Nscp.Library.Runs

/-!
# What a check counts

The summary a check leaves, described from the records alone.  An expression that reads
no record takes no part in the pass over the records, and one that reads a record takes
part in the summary pass only when no record was kept.
-/

namespace Nscp.Filter

open DeferredRecord Runs List Where

variable {Obj Perf : Type}

/-! ## What the two passes look at -/

section

variable (ctx : Context Obj)

def rowHolds (filters : List (Node Obj)) : Bool :=
  filters.any fun root => root.requireObject && (verdictValue ctx root).isTrue

def plainHolds (filters : List (Node Obj)) : Bool :=
  filters.any fun root => !root.requireObject && (verdictValue ctx root).isTrue

/-- Some expression is true without a record, whatever the record would be. -/
def sureHolds (filters : List (Node Obj)) : Bool :=
  filters.any fun root => (verdictValue ctx root).isTrue && !(verdictValue ctx root).isUnsure

def unsure (filters : List (Node Obj)) : Bool :=
  filters.any fun root => (verdictValue ctx root).isUnsure

/-- What the summary pass takes for true. -/
def summaryHolds (noRows : Bool) (filters : List (Node Obj)) : Bool :=
  plainHolds ctx filters || noRows && sureHolds ctx filters

end

variable (ctx : Context Obj) (filters : List (Node Obj))

theorem engineMatch_true : engineMatch ctx true filters = rowHolds ctx filters := by
  have hroot : ∀ root : Node Obj, filterMatch ctx true root =
      (root.requireObject && (verdictValue ctx root).isTrue) := fun root => by
    cases h : root.requireObject <;> simp [filterMatch, h]
  rw [engineMatch, rowHolds, funext hroot]

theorem engineMatch_false : engineMatch ctx false filters = plainHolds ctx filters := by
  have hroot : ∀ root : Node Obj, filterMatch ctx false root =
      (!root.requireObject && (verdictValue ctx root).isTrue) := fun root => by
    cases h : root.requireObject <;> simp [filterMatch, h]
  rw [engineMatch, plainHolds, funext hroot]

theorem matchForceFrom_eq (anyUnsure : Bool) (filters : List (Node Obj)) :
    matchForceFrom ctx anyUnsure filters =
      if sureHolds ctx filters then ⟨true, false⟩
      else ⟨false, unsure ctx filters || anyUnsure⟩ := by
  induction filters generalizing anyUnsure with
  | nil => rfl
  | cons root filters ih =>
    have hsure : sureHolds ctx (root :: filters) = ((verdictValue ctx root).isTrue &&
        !(verdictValue ctx root).isUnsure || sureHolds ctx filters) := any_cons
    have hunsure : unsure ctx (root :: filters) =
        ((verdictValue ctx root).isUnsure || unsure ctx filters) := any_cons
    rw [matchForceFrom, ih, hsure, hunsure, filterMatchForce]
    cases (verdictValue ctx root).isTrue <;> cases (verdictValue ctx root).isUnsure <;> simp

theorem engineMatchForce_eq :
    engineMatchForce ctx filters =
      if sureHolds ctx filters then ⟨true, false⟩ else ⟨false, unsure ctx filters⟩ := by
  rw [engineMatchForce, matchForceFrom_eq, Bool.or_false]

namespace ModernFilters

variable (f : ModernFilters Obj Perf)

theorem holdsPost_matched (ctx : Context Obj) (noRows : Bool) (engine : Option (List (Node Obj))) :
    (holdsPost ctx noRows engine).matched = engine.any (summaryHolds ctx noRows) := by
  cases engine with
  | none => rfl
  | some filters =>
    rw [holdsPost, engineMatch_false, engineMatchForce_eq, Option.any_some, summaryHolds]
    cases plainHolds ctx filters <;> cases noRows <;> cases sureHolds ctx filters <;> rfl

theorem holdsPost_isUnsure {ctx : Context Obj} {noRows : Bool}
    {engine : Option (List (Node Obj))} (h : engine.any (summaryHolds ctx noRows) = false) :
    (holdsPost ctx noRows engine).isUnsure = (noRows && engine.any (unsure ctx)) := by
  cases engine with
  | none => rw [Option.any_none, Bool.and_false, holdsPost]
  | some filters =>
    rw [Option.any_some, summaryHolds, Bool.or_eq_false_iff] at h
    rw [holdsPost, engineMatch_false, engineMatchForce_eq, Option.any_some, h.1]
    cases noRows with
    | false => rfl
    | true =>
      rw [Bool.true_and] at h
      rw [h.2]
      rfl

/-! ## The records of a check -/

inductive Severity where
  | crit
  | warn
  | ok
  deriving DecidableEq, Repr

def severity (s : Summary) (record : Obj) : Severity :=
  let ctx := f.context s (some record)
  if f.engineCrit.any (rowHolds ctx) then .crit
  else if f.engineWarn.any (rowHolds ctx) then .warn
  else .ok

def keeps (s : Summary) (record : Obj) : Bool :=
  match f.engineFilter with
  | none => true
  | some filters => rowHolds (f.context s (some record)) filters

section

variable (st : State Obj Perf) (records : List Obj)

def seen : List (Obj × Summary) :=
  (trail f.step st.startMatch records).map fun x => (x.1, x.2.summary.count)

def judged : List (Obj × Summary) :=
  let matched := records.foldl f.step st.startMatch
  (trail f.judge (matched.summary, false) matched.deferredRecords).map fun x =>
    (x.1.record, x.2.1)

def judgedSummary : Summary :=
  (f.evaluateDeferredRecords (records.foldl f.step st.startMatch)).summary

end

/-- The return code, from the records as they were judged and the summary behind them. -/
def verdict (rows : List (Obj × Summary)) (s : Summary) : ReturnCode :=
  let ctx := f.context s none
  let noRows := rows.isEmpty
  if rows.any (fun x => f.severity x.2 x.1 = .crit) ||
      f.engineCrit.any (summaryHolds ctx noRows) then
    .crit
  else if
      rows.any (fun x => f.severity x.2 x.1 = .warn) ||
        f.engineWarn.any (summaryHolds ctx noRows) then
    .warn
  else if noRows && (f.engineCrit.any (unsure ctx) || f.engineWarn.any (unsure ctx)) &&
      !f.engineOk.any (plainHolds ctx) then
    .unknown
  else .ok

/-- The accounting of a whole check. -/
structure Accounts (st : State Obj Perf) (records : List Obj) : Prop where
  total : (f.run st records).summary.countTotal = records.length
  kept : (f.run st records).summary.countMatch = (f.seen st records).countP fun x => f.keeps x.2 x.1
  seen_records : (f.seen st records).map Prod.fst = records
  all_kept : f.engineFilter = none → (f.run st records).summary.countMatch = records.length
  judged_records : (f.judged st records).map Prod.fst =
    ((f.seen st records).filter fun x => f.keeps x.2 x.1).map Prod.fst
  judged_final : ∀ x ∈ f.judged st records, x.2.countMatch = (f.run st records).summary.countMatch ∧
      x.2.countTotal = (f.run st records).summary.countTotal
  crit : (f.run st records).summary.countCrit =
    (f.judged st records).countP fun x => f.severity x.2 x.1 = .crit
  warn : (f.run st records).summary.countWarn =
    (f.judged st records).countP fun x => f.severity x.2 x.1 = .warn
  ok : (f.run st records).summary.countOk =
    (f.judged st records).countP fun x => f.severity x.2 x.1 = .ok
  classes : (f.run st records).summary.countOk + (f.run st records).summary.countWarn +
    (f.run st records).summary.countCrit = (f.run st records).summary.countMatch
  code : (f.run st records).summary.returnCode =
    f.verdict (f.judged st records) (f.judgedSummary st records)

/-! ## One record -/

variable (s : Summary)

theorem passes_eq_keeps (record : Obj) :
    f.passes (f.context s (some record)) = f.keeps s record := by
  rw [passes, keeps]
  cases f.engineFilter with
  | none => rfl
  | some filters => exact engineMatch_true _ filters

variable (st : State Obj Perf) (p : Summary × Bool)

section

variable (record : Obj)

theorem step_eq : f.step st record = if f.keeps st.summary.count record then
        f.keep { st with summary := st.summary.count } record
      else { st with summary := st.summary.count } := by
  rw [step, matchRecord, passes_eq_keeps]
  split <;> rfl

theorem keep_summary : (f.keep st record).summary = st.summary.matchedUnique ∨
      ∃ line, (f.keep st record).summary = st.summary.matched line := by
  rw [keep]
  split
  · exact .inl rfl
  · exact .inr ⟨_, rfl⟩

@[simp]
theorem step_counts : (f.step st record).summary.countTotal = st.summary.countTotal + 1 ∧
    (f.step st record).summary.countMatch =
      st.summary.countMatch + if f.keeps st.summary.count record then 1 else 0 := by
  rw [step_eq]
  split
  · obtain h | ⟨line, h⟩ := f.keep_summary { st with summary := st.summary.count } record
    all_goals
      rw [h]
      exact ⟨rfl, rfl⟩
  · exact ⟨rfl, rfl⟩

theorem step_deferredRecords : (f.step st record).deferredRecords.map DeferredRecord.record =
      st.deferredRecords.map DeferredRecord.record ++
        if f.keeps st.summary.count record then [record] else [] := by
  rw [step_eq]
  split
  · exact map_append
  · exact (append_nil _).symm

end

structure Unjudged (s : Summary) : Prop where
  ok : s.countOk = 0
  warn : s.countWarn = 0
  crit : s.countCrit = 0
  code : s.returnCode = .ok

theorem Unjudged.step {st : State Obj Perf} (h : Unjudged st.summary) (record : Obj) :
    Unjudged (f.step st record).summary := by
  rw [step_eq]
  split
  · obtain hs | ⟨line, hs⟩ := f.keep_summary { st with summary := st.summary.count } record
    all_goals
      rw [hs]
      exact ⟨h.ok, h.warn, h.crit, h.code⟩
  · exact ⟨h.ok, h.warn, h.crit, h.code⟩

/-! ## One kept record -/

def Severity.escalate : Severity → ReturnCode → ReturnCode
  | crit => ReturnCode.escalateToCrit
  | warn => ReturnCode.escalateToWarn
  | ok => id

/-- What judging a record of a class does to the counters. -/
structure Counted (c : Severity) (s s' : Summary) : Prop where
  total : s'.countTotal = s.countTotal
  kept : s'.countMatch = s.countMatch
  crit : s'.countCrit = s.countCrit + if c = .crit then 1 else 0
  warn : s'.countWarn = s.countWarn + if c = .warn then 1 else 0
  ok : s'.countOk = s.countOk + if c = .ok then 1 else 0
  code : s'.returnCode = c.escalate s.returnCode

theorem Counted.classes {c : Severity} {s s' : Summary} (h : Counted c s s') :
    s'.countOk + s'.countWarn + s'.countCrit = s.countOk + s.countWarn + s.countCrit + 1 := by
  rw [h.ok, h.warn, h.crit]
  cases c <;> simp <;> omega

theorem counted_judge (d : DeferredRecord Obj) :
    Counted (f.severity p.1 d.record) p.1 (f.judge p d).1 := by
  have hrow : ∀ engine : Option (List (Node Obj)),
      holds (f.context p.1 (some d.record)) true engine =
        engine.any (rowHolds (f.context p.1 (some d.record))) := fun engine => by
    rw [holds, funext (engineMatch_true _)]
  rw [judge, severity]
  simp only [hrow]
  split
  · cases d.secondUniqueMatch <;> exact ⟨rfl, rfl, rfl, rfl, rfl, rfl⟩
  · split
    · cases d.secondUniqueMatch <;> exact ⟨rfl, rfl, rfl, rfl, rfl, rfl⟩
    · split <;> cases d.secondUniqueMatch <;> exact ⟨rfl, rfl, rfl, rfl, rfl, rfl⟩

def raised (rows : List (DeferredRecord Obj × Summary × Bool)) (code : ReturnCode) : ReturnCode :=
  if code = .crit ∨ rows.any (fun x => f.severity x.2.1 x.1.record = .crit) then .crit
  else if rows.any (fun x => f.severity x.2.1 x.1.record = .warn) then .warn
  else code

theorem foldl_judge_returnCode (ds : List (DeferredRecord Obj)) :
    (ds.foldl f.judge p).1.returnCode = f.raised (trail f.judge p ds) p.1.returnCode := by
  induction ds generalizing p with
  | nil => simp [raised, trail]
  | cons d ds ih =>
    rw [foldl_cons, ih, (f.counted_judge p d).code, raised, raised, trail, any_cons, any_cons]
    generalize f.severity p.1 d.record = c
    generalize p.1.returnCode = code
    generalize (trail f.judge (f.judge p d) ds).any
      (fun x => f.severity x.2.1 x.1.record = .crit) = anyCrit
    generalize (trail f.judge (f.judge p d) ds).any
      (fun x => f.severity x.2.1 x.1.record = .warn) = anyWarn
    cases c <;> cases code <;> cases anyCrit <;> cases anyWarn <;> rfl

/-! ## The check as a whole -/

section Records

variable (st : State Obj Perf) (records : List Obj)

theorem foldl_step_countTotal :
    (records.foldl f.step st.startMatch).summary.countTotal = records.length := by
  have htotal := foldl_eq_add_countP (m := fun st : State Obj Perf => st.summary.countTotal)
    (p := fun _ => true) (fun st record => (f.step_counts st record).1) st.startMatch records
  rw [htotal, countP_true, length_trail]
  exact Nat.zero_add _

theorem foldl_step_countMatch :
    (records.foldl f.step st.startMatch).summary.countMatch =
      (f.seen st records).countP fun x => f.keeps x.2 x.1 := by
  have hmatch := foldl_eq_add_countP (m := fun st : State Obj Perf => st.summary.countMatch)
    (p := fun x => f.keeps x.2.summary.count x.1) (fun st record => (f.step_counts st record).2)
    st.startMatch records
  rw [hmatch, seen, countP_map]
  exact Nat.zero_add _

theorem foldl_step_deferredRecords :
    (records.foldl f.step st.startMatch).deferredRecords.map record =
      ((f.seen st records).filter fun x => f.keeps x.2 x.1).map Prod.fst := by
  have hdeferred := foldl_eq_append_filter
    (m := fun st : State Obj Perf => st.deferredRecords.map record)
    (p := fun x => f.keeps x.2.summary.count x.1)
    (fun st record => f.step_deferredRecords st record)
    st.startMatch records
  rw [hdeferred, seen, filter_map, map_map]
  rfl

theorem unjudged_foldl_step : Unjudged (records.foldl f.step st.startMatch).summary :=
  foldl_invariant (I := fun st : State Obj Perf => Unjudged st.summary)
    (fun _ record h => h.step f record) ⟨rfl, rfl, rfl, rfl⟩ records

theorem map_fst_judged :
    (f.judged st records).map Prod.fst =
      ((f.seen st records).filter fun x => f.keeps x.2 x.1).map Prod.fst := by
  have htrail := congrArg (List.map record) (map_fst_trail (f := f.judge)
    ((records.foldl f.step st.startMatch).summary, false)
    (records.foldl f.step st.startMatch).deferredRecords)
  rw [map_map] at htrail
  rw [← foldl_step_deferredRecords, judged, map_map, ← htrail]
  rfl

theorem length_judged :
    (f.judged st records).length = (records.foldl f.step st.startMatch).summary.countMatch := by
  rw [← length_map Prod.fst, map_fst_judged, length_map, foldl_step_countMatch,
    countP_eq_length_filter]

end Records

structure SameCounts (s s' : Summary) : Prop where
  total : s'.countTotal = s.countTotal
  kept : s'.countMatch = s.countMatch
  crit : s'.countCrit = s.countCrit
  warn : s'.countWarn = s.countWarn
  ok : s'.countOk = s.countOk

theorem sameCounts_judgeSummary : SameCounts s (f.judgeSummary s).1 := by
  simp only [judgeSummary]
  split_ifs <;> exact ⟨rfl, rfl, rfl, rfl, rfl⟩

theorem judgeSummary_returnCode :
    (f.judgeSummary s).1.returnCode = let ctx := f.context s none
      let noRows := !s.hasMatched
      if f.engineCrit.any (summaryHolds ctx noRows) then .crit
      else if f.engineWarn.any (summaryHolds ctx noRows) then s.returnCode.escalateToWarn
      else if noRows && (f.engineCrit.any (unsure ctx) || f.engineWarn.any (unsure ctx)) &&
          !f.engineOk.any (plainHolds ctx) then
        s.returnCode.escalateToUnknown
      else s.returnCode := by
  have hok : holds (f.context s none) false f.engineOk =
      f.engineOk.any (plainHolds (f.context s none)) := by
    rw [holds, funext (engineMatch_false _)]
  simp only [judgeSummary, holdsPost_matched, hok]
  cases hcrit : f.engineCrit.any (summaryHolds (f.context s none) (!s.hasMatched)) with
  | true => rfl
  | false =>
    cases hwarn : f.engineWarn.any (summaryHolds (f.context s none) (!s.hasMatched)) with
    | true => rfl
    | false =>
      simp only [holdsPost_isUnsure hcrit, holdsPost_isUnsure hwarn]
      cases f.engineOk.any (plainHolds (f.context s none)) <;> cases s.hasMatched <;>
        cases f.engineCrit.any (unsure (f.context s none)) <;>
        cases f.engineWarn.any (unsure (f.context s none)) <;> rfl

section Run

variable (st : State Obj Perf) (records : List Obj)

theorem sameCounts_run : SameCounts (f.judgedSummary st records) (f.run st records).summary :=
  f.sameCounts_judgeSummary _

theorem judgedSummary_count {m : Summary → ℕ} (c : Severity)
    (hzero : ∀ s, Unjudged s → m s = 0)
    (hm : ∀ p d, m (f.judge p d).1 = m p.1 + if f.severity p.1 d.record = c then 1 else 0) :
    m (f.judgedSummary st records) =
      (f.judged st records).countP fun x => f.severity x.2 x.1 = c := by
  have hcount := foldl_eq_add_countP (m := fun p : Summary × Bool => m p.1)
    (p := fun x => f.severity x.2.1 x.1.record = c)
    (fun p d => (hm p d).trans (by simp))
    ((records.foldl f.step st.startMatch).summary, false)
    (records.foldl f.step st.startMatch).deferredRecords
  rw [hzero _ (f.unjudged_foldl_step st records), Nat.zero_add] at hcount
  rw [judged, countP_map]
  exact hcount

/-- Judging the rows changes neither what was counted nor what was kept. -/
def Kept (s : Summary) : Prop :=
  s.countTotal = (records.foldl f.step st.startMatch).summary.countTotal ∧
    s.countMatch = (records.foldl f.step st.startMatch).summary.countMatch

theorem kept_judge (p : Summary × Bool) (d : DeferredRecord Obj) (h : f.Kept st records p.1) :
    f.Kept st records (f.judge p d).1 :=
  ⟨(f.counted_judge p d).total.trans h.1, (f.counted_judge p d).kept.trans h.2⟩

theorem judgedSummary_kept : f.Kept st records (f.judgedSummary st records) :=
  foldl_invariant (I := fun p : Summary × Bool => f.Kept st records p.1) (f.kept_judge st records)
    ⟨rfl, rfl⟩ _

theorem judged_kept : ∀ x ∈ f.judged st records, f.Kept st records x.2 := by
  intro x hx
  obtain ⟨y, hy, rfl⟩ := mem_map.mp hx
  exact forall_mem_trail (I := fun p => f.Kept st records p.1) (f.kept_judge st records)
    ⟨rfl, rfl⟩ y hy

theorem judgedSummary_returnCode :
    (f.judgedSummary st records).returnCode =
      if (f.judged st records).any (fun x => f.severity x.2 x.1 = .crit) then .crit
      else if (f.judged st records).any (fun x => f.severity x.2 x.1 = .warn) then .warn
      else .ok := by
  have hcode := f.foldl_judge_returnCode ((records.foldl f.step st.startMatch).summary, false)
    (records.foldl f.step st.startMatch).deferredRecords
  rw [(f.unjudged_foldl_step st records).code, raised] at hcode
  simp only [reduceCtorEq, false_or] at hcode
  rw [judged, any_map, any_map]
  exact hcode

theorem judgedSummary_hasMatched :
    (!(f.judgedSummary st records).hasMatched) = (f.judged st records).isEmpty := by
  rw [Summary.hasMatched, (f.judgedSummary_kept st records).2, ← length_judged]
  cases f.judged st records <;> rfl

theorem run_returnCode :
    (f.run st records).summary.returnCode =
      f.verdict (f.judged st records) (f.judgedSummary st records) := by
  have hrun : (f.run st records).summary.returnCode =
      (f.judgeSummary (f.judgedSummary st records)).1.returnCode := rfl
  rw [hrun, judgeSummary_returnCode, judgedSummary_hasMatched, judgedSummary_returnCode, verdict]
  dsimp only
  generalize (f.judged st records).any (fun x => f.severity x.2 x.1 = .crit) = rowCrit
  generalize (f.judged st records).any (fun x => f.severity x.2 x.1 = .warn) = rowWarn
  generalize f.context (f.judgedSummary st records) none = ctx
  generalize f.engineCrit.any (summaryHolds ctx _) = crit
  generalize f.engineWarn.any (summaryHolds ctx _) = warn
  generalize (_ && _ && !f.engineOk.any (plainHolds ctx)) = unknown
  cases crit <;> cases warn <;> cases rowCrit <;> cases rowWarn <;> cases unknown <;> rfl

end Run

/-- What a check leaves in the summary, for every set of expressions and every sequence of
records, whatever the filter was used for before. -/
theorem accounts_run (st : State Obj Perf) (records : List Obj) : f.Accounts st records where
  total := by
    rw [(f.sameCounts_run st records).total, (f.judgedSummary_kept st records).1,
      foldl_step_countTotal]
  kept := by
    rw [(f.sameCounts_run st records).kept, (f.judgedSummary_kept st records).2,
      foldl_step_countMatch]
  seen_records := by
    rw [seen, map_map]
    exact map_fst_trail st.startMatch records
  all_kept hnone := by
    have hall : ∀ x ∈ f.seen st records, f.keeps x.2 x.1 = true := fun x _ => by
      rw [keeps, hnone]
    rw [(f.sameCounts_run st records).kept, (f.judgedSummary_kept st records).2,
      foldl_step_countMatch, countP_eq_length.mpr hall, seen, length_map,
      length_trail]
  judged_records := f.map_fst_judged st records
  judged_final x hx := by
    obtain ⟨htotal, hkept⟩ := f.judged_kept st records x hx
    obtain ⟨htotal', hkept'⟩ := f.judgedSummary_kept st records
    rw [(f.sameCounts_run st records).kept, (f.sameCounts_run st records).total]
    exact ⟨hkept.trans hkept'.symm, htotal.trans htotal'.symm⟩
  crit := by
    rw [(f.sameCounts_run st records).crit]
    exact f.judgedSummary_count st records .crit (fun _ h => h.crit) fun p d =>
      (f.counted_judge p d).crit
  warn := by
    rw [(f.sameCounts_run st records).warn]
    exact f.judgedSummary_count st records .warn (fun _ h => h.warn) fun p d =>
      (f.counted_judge p d).warn
  ok := by
    rw [(f.sameCounts_run st records).ok]
    exact f.judgedSummary_count st records .ok (fun _ h => h.ok) fun p d =>
      (f.counted_judge p d).ok
  classes := by
    have hsame := f.sameCounts_run st records
    have hcount := foldl_eq_add_countP
      (m := fun p : Summary × Bool => p.1.countOk + p.1.countWarn + p.1.countCrit)
      (p := fun _ => true) (fun p d => (f.counted_judge p d).classes)
      ((records.foldl f.step st.startMatch).summary, false)
      (records.foldl f.step st.startMatch).deferredRecords
    have hzero := f.unjudged_foldl_step st records
    simp only [hzero.ok, hzero.warn, hzero.crit, countP_true] at hcount
    rw [hsame.ok, hsame.warn, hsame.crit, hsame.kept, (f.judgedSummary_kept st records).2,
      ← length_judged, judged, length_map, judgedSummary, evaluateDeferredRecords, hcount]
    omega
  code := f.run_returnCode st records

/-! ## A filter that reads no record -/

def plain (filter : List (Node Sample.Row)) : ModernFilters Sample.Row Unit where
  host := Sample.host
  now := 0
  rendererDetail := ⟨[]⟩
  rendererPerf := ⟨[]⟩
  rendererUnique := ⟨[]⟩
  rendererHash _ := []
  engineFilter := some filter
  engineWarn := none
  engineCrit := none
  engineOk := none
  leafPerformanceData := []
  fetchHash := false
  hasUniqueIndex := false

/-- A filter that is true of every record and keeps none, since it reads none. -/
theorem countMatch_one_eq_one :
    (validate Sample.factory "1 = 1".toList).map (fun root =>
      ((verdictValue ((plain [root]).context Summary.new.count (some ⟨5, 0, "up"⟩)) root).isTrue,
        ((plain [root]).run (.new ", ") [⟨5, 0, "up"⟩]).summary.countTotal,
        ((plain [root]).run (.new ", ") [⟨5, 0, "up"⟩]).summary.countMatch)) =
      some (true, 1, 0) := by
  decide +kernel

end ModernFilters

end Nscp.Filter
