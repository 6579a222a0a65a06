import Nscp.Where.Engine

/-!
# A check over records

`modern_filters`: records go through `match` one by one, those that pass the filter are
kept, and `match_post` judges the kept records and then the summary.  What a template
or a performance entry reads from a context is a parameter here; the expressions are the
ones of the engine.
-/

namespace Nscp.Filter

open Where

inductive Entry (Obj : Type) where
  | text (name : String)
  | value (read : Context Obj → String)

def Entry.render {Obj : Type} (ctx : Context Obj) : Entry Obj → String
  | text name => name
  | value read => read ctx

structure TextRenderer (Obj : Type) where
  entries : List (Entry Obj)

namespace TextRenderer

variable {Obj : Type} (r : TextRenderer Obj)

def empty : Bool := r.entries.isEmpty

def render (ctx : Context Obj) : String :=
  r.entries.foldl (fun ret e => ret ++ e.render ctx) ""

end TextRenderer

/-- An entry of `leaf_performance_data`, with the thresholds its variable was given. -/
structure PerfEntry (Obj Perf : Type) where
  label : String
  performanceData : Context Obj → (perfAlias : String) → List Perf

/-- What is set up before a check runs. -/
structure ModernFilters (Obj Perf : Type) where
  host : Host
  now : ℤ
  rendererDetail : TextRenderer Obj
  rendererPerf : TextRenderer Obj
  rendererUnique : TextRenderer Obj
  rendererHash : Context Obj → List (String × String)
  engineFilter : Option (List (Node Obj))
  engineWarn : Option (List (Node Obj))
  engineCrit : Option (List (Node Obj))
  engineOk : Option (List (Node Obj))
  leafPerformanceData : List (PerfEntry Obj Perf)
  fetchHash : Bool
  hasUniqueIndex : Bool

structure DeferredRecord (Obj : Type) where
  record : Obj
  current : String
  secondUniqueMatch : Bool

/-- What a check changes while it runs. -/
structure State (Obj Perf : Type) where
  summary : Summary
  uniqueIndex : List String
  hasMatched : Bool
  records : List (List (String × String))
  deferredRecords : List (DeferredRecord Obj)
  performanceInstanceData : List Perf

namespace State

variable {Obj Perf : Type}

/-- A filter as it is built; the separator is configuration. -/
def new (listSeparator : String) : State Obj Perf :=
  ⟨{ Summary.new with listSeparator := listSeparator }, [], false, [], [], []⟩

def startMatch (st : State Obj Perf) : State Obj Perf :=
  { st with
    summary := st.summary.reset
    hasMatched := false
    records := []
    deferredRecords := [] }

end State

structure MatchResult where
  matchedFilter : Bool
  matchedBound : Bool
  deriving DecidableEq, Repr

namespace ModernFilters

variable {Obj Perf : Type} (f : ModernFilters Obj Perf)

def context (summary : Summary) (object : Option Obj) : Context Obj :=
  ⟨f.host, f.now, object, summary⟩

/-! ## A record -/

def rowPerformanceData (ctx : Context Obj) (perfAlias : String) : List Perf :=
  if f.rendererPerf.empty then []
  else f.leafPerformanceData.flatMap fun entry => entry.performanceData ctx perfAlias

def passes (ctx : Context Obj) : Bool :=
  match f.engineFilter with
  | none => true
  | some filters => engineMatch ctx true filters

/-- The part of `match` behind the filter. -/
def keep (st : State Obj Perf) (record : Obj) : State Obj Perf :=
  let ctx := f.context st.summary (some record)
  let current := f.rendererDetail.render ctx
  let perfAlias := f.rendererPerf.render ctx
  let unique := f.rendererUnique.render ctx
  let secondUniqueMatch := f.hasUniqueIndex && decide (unique ∈ st.uniqueIndex)
  { st with
    records := if f.fetchHash then st.records ++ [f.rendererHash ctx] else st.records
    uniqueIndex :=
      if f.hasUniqueIndex && !secondUniqueMatch then unique :: st.uniqueIndex else st.uniqueIndex
    performanceInstanceData :=
      st.performanceInstanceData ++ f.rowPerformanceData ctx perfAlias
    summary := if secondUniqueMatch then st.summary.matchedUnique else st.summary.matched current
    deferredRecords := st.deferredRecords ++ [⟨record, current, secondUniqueMatch⟩] }

def matchRecord (st : State Obj Perf) (record : Obj) : State Obj Perf × MatchResult :=
  let st := { st with summary := st.summary.count }
  if f.passes (f.context st.summary (some record)) then (f.keep st record, ⟨true, false⟩)
  else (st, ⟨false, false⟩)

/-! ## The kept records -/

def holds (ctx : Context Obj) (expectObject : Bool) (engine : Option (List (Node Obj))) : Bool :=
  engine.any (engineMatch ctx expectObject)

/-- One turn of the loop of `evaluate_deferred_records`, with the flag `any_bound`. -/
def judge (p : Summary × Bool) (d : DeferredRecord Obj) : Summary × Bool :=
  let s := p.1
  let ctx := f.context s (some d.record)
  if holds ctx true f.engineCrit then
    let s := if d.secondUniqueMatch then s.matchedCritUnique else s.matchedCrit d.current
    ({ s with returnCode := s.returnCode.escalateToCrit }, true)
  else if holds ctx true f.engineWarn then
    let s := if d.secondUniqueMatch then s.matchedWarnUnique else s.matchedWarn d.current
    ({ s with returnCode := s.returnCode.escalateToWarn }, true)
  else if holds ctx true f.engineOk then
    (if d.secondUniqueMatch then s.matchedOkUnique else s.matchedOk d.current, true)
  else (if d.secondUniqueMatch then s.matchedOkUnique else s.matchedOk d.current, p.2)

def evaluateDeferredRecords (st : State Obj Perf) : State Obj Perf :=
  let p := st.deferredRecords.foldl f.judge (st.summary, false)
  { st with
    summary := p.1
    hasMatched := p.2 || st.hasMatched
    deferredRecords := [] }

/-! ## The summary -/

/-- `match` without a record, then `force_sure_true` with the flag it leaves. -/
def holdsPost (ctx : Context Obj) (noRows : Bool) (engine : Option (List (Node Obj))) :
    ForceMatchResult :=
  match engine with
  | none => ⟨false, false⟩
  | some filters =>
    if engineMatch ctx false filters then ⟨true, false⟩
    else if noRows then
      let r := engineMatchForce ctx filters
      ⟨r.matched && !r.isUnsure, r.isUnsure⟩
    else ⟨false, false⟩

/-- The verdict of `match_post` on the summary, and what it returns. -/
def judgeSummary (s : Summary) : Summary × Bool :=
  let ctx := f.context s none
  let crit := holdsPost ctx (!s.hasMatched) f.engineCrit
  if crit.matched then
    ({ s with returnCode := s.returnCode.escalateToCrit }.moveHitsCrit, true)
  else
    let warn := holdsPost ctx (!s.hasMatched) f.engineWarn
    if warn.matched then
      ({ s with returnCode := s.returnCode.escalateToWarn }.moveHitsWarn, true)
    else if holds ctx false f.engineOk then (s, true)
    else if crit.isUnsure || warn.isUnsure then
      ({ s with returnCode := s.returnCode.escalateToUnknown }, s.hasMatched)
    else (s, s.hasMatched)

def matchPost (st : State Obj Perf) : State Obj Perf × Bool :=
  let st := f.evaluateDeferredRecords st
  let p := f.judgeSummary st.summary
  ({ st with
      performanceInstanceData :=
        st.performanceInstanceData ++ f.rowPerformanceData (f.context st.summary none) ""
      summary := p.1 }, p.2)

/-! ## A whole check -/

def step (st : State Obj Perf) (record : Obj) : State Obj Perf := (f.matchRecord st record).1

/-- `start_match`, `match` on every record, `match_post`. -/
def run (st : State Obj Perf) (records : List Obj) : State Obj Perf :=
  (f.matchPost (records.foldl f.step st.startMatch)).1

end ModernFilters

end Nscp.Filter
