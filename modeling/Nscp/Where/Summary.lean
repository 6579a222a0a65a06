import Nscp.Where.Value

/-!
# The summary of a check

`generic_summary`: the counters and lists a check accumulates while records are
matched, and the summary keywords expressions can read them by.
-/

namespace Nscp.Where

inductive ReturnCode where
  | ok
  | warn
  | crit
  | unknown
  deriving DecidableEq, Repr

namespace ReturnCode

def escalateToCrit (_ : ReturnCode) : ReturnCode := .crit

def escalateToWarn (code : ReturnCode) : ReturnCode := if code ≠ .crit then .warn else code

def escalateToUnknown (code : ReturnCode) : ReturnCode := if code = .ok then .unknown else code

def text : ReturnCode → String
  | ok => "OK"
  | crit => "CRITICAL"
  | warn => "WARNING"
  | unknown => "UNKNOWN"

end ReturnCode

/-- `str::format::append_list`: empty items are skipped. -/
def appendList (list item separator : String) : String :=
  if item = "" then list
  else if list = "" then item
  else list ++ separator ++ item

structure Summary where
  countMatch : ℕ
  countOk : ℕ
  countWarn : ℕ
  countCrit : ℕ
  countTotal : ℕ
  listMatch : String
  listOk : String
  listCrit : String
  listWarn : String
  listProblem : String
  returnCode : ReturnCode
  listSeparator : String
  deriving DecidableEq, Repr

namespace Summary

def new : Summary := ⟨0, 0, 0, 0, 0, "", "", "", "", "", .ok, ", "⟩

section

variable (s : Summary)

def reset : Summary := { new with listSeparator := s.listSeparator }

def count : Summary := { s with countTotal := s.countTotal + 1 }

def matched (line : String) : Summary :=
  { s with
    listMatch := appendList s.listMatch line s.listSeparator
    countMatch := s.countMatch + 1 }

def matchedUnique : Summary := { s with countMatch := s.countMatch + 1 }

def hasMatched : Bool := decide (0 < s.countMatch)

def matchedOk (line : String) : Summary :=
  { s with
    listOk := appendList s.listOk line s.listSeparator
    countOk := s.countOk + 1 }

def matchedWarn (line : String) : Summary :=
  { s with
    listWarn := appendList s.listWarn line s.listSeparator
    listProblem := appendList s.listProblem line s.listSeparator
    countWarn := s.countWarn + 1 }

def matchedCrit (line : String) : Summary :=
  { s with
    listCrit := appendList s.listCrit line s.listSeparator
    listProblem := appendList s.listProblem line s.listSeparator
    countCrit := s.countCrit + 1 }

def matchedOkUnique : Summary := { s with countOk := s.countOk + 1 }
def matchedWarnUnique : Summary := { s with countWarn := s.countWarn + 1 }
def matchedCritUnique : Summary := { s with countCrit := s.countCrit + 1 }

def moveHitsCrit : Summary :=
  { s with listCrit := s.listMatch, listProblem := s.listMatch }

def moveHitsWarn : Summary :=
  { s with listWarn := s.listMatch, listProblem := s.listMatch }

/-- One severity group of the detail list, in its parentheses. -/
def appendGroup (result tag value : String) : String :=
  if value = "" then result
  else (if result = "" then result else result ++ s.listSeparator) ++ tag ++ "(" ++ value ++ ")"

def getListDetail : String :=
  appendList (s.appendGroup (s.appendGroup "" "critical" s.listCrit) "warning" s.listWarn)
    s.listOk s.listSeparator

end

def hasVariable (name : String) : Bool :=
  name ∈ ["count", "total", "ok_count", "warn_count", "crit_count", "problem_count", "list",
    "ok_list", "warn_list", "crit_list", "problem_list", "detail_list", "lines", "status", "sep"]

def intVariable (key : String) : Option (Summary → ℤ) :=
  if key = "count" then some fun s => s.countMatch
  else if key = "total" then some fun s => s.countTotal
  else if key = "ok_count" then some fun s => s.countOk
  else if key = "warn_count" then some fun s => s.countWarn
  else if key = "crit_count" then some fun s => s.countCrit
  else if key = "problem_count" then some fun s => s.countWarn + s.countCrit
  else none

def stringVariable (key : String) : Option (Summary → String) :=
  if key = "list" ∨ key = "match_list" ∨ key = "lines" then some listMatch
  else if key = "ok_list" then some listOk
  else if key = "warn_list" then some listWarn
  else if key = "crit_list" then some listCrit
  else if key = "problem_list" then some listProblem
  else if key = "detail_list" then some getListDetail
  else if key = "status" then some fun s => s.returnCode.text
  else if key = "sep" then some listSeparator
  else none

end Summary

end Nscp.Where
