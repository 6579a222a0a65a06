import Nscp.Service.Query

/-!
# Checks around other checks

`check_negate`, `check_multi` and the `check_always` family run other commands and change their
status.  A command that cannot be executed has none.
-/

namespace Nscp.Service

/-! ## Severity -/

namespace ResultCode

def severity : ResultCode → ℕ
  | ok => 0
  | warning => 1
  | critical => 2
  | unknown => 3

instance : LinearOrder ResultCode :=
  .lift' severity fun a b => by cases a <;> cases b <;> simp [severity]

instance : OrderBot ResultCode where
  bot := ok
  bot_le a := Nat.zero_le a.severity

instance : Fintype ResultCode where
  elems := {ok, warning, critical, unknown}
  complete a := by cases a <;> decide

end ResultCode

namespace CheckHelpers

open ResultCode

def escalateResult (current new : ResultCode) : ResultCode :=
  if current = new then current
  else if current = .ok ∧ new ≠ .ok then new
  else if new = .ok then current
  else if current = .warning ∧ new ≠ .warning then new
  else if new = .warning then current
  else if current = .critical ∧ new ≠ .critical then new
  else if new = .critical then current
  else if current = .unknown ∧ new ≠ .unknown then new
  else current

theorem escalateResult_eq_max : ∀ a b, escalateResult a b = max a b := by
  decide

/-! ## The commands -/

/-- The states `check_negate` returns instead of those of the wrapped command. -/
structure States where
  ok : ResultCode := .ok
  warning : ResultCode := .warning
  critical : ResultCode := .critical
  unknown : ResultCode := .unknown

def States.apply (new : States) : ResultCode → ResultCode
  | .ok => new.ok
  | .warning => new.warning
  | .critical => new.critical
  | .unknown => new.unknown

def checkNegate (new : States) : Option ResultCode → ResultCode
  -- the response is left as it came
  | none => .ok
  | some result =>
    let result := if result = .ok then new.ok else result
    let result := if result = .warning then new.warning else result
    let result := if result = .critical then new.critical else result
    if result = .unknown then new.unknown else result

def checkChangeStatus (status : ResultCode) : Option ResultCode → ResultCode
  | none => .unknown
  | some _ => status

def checkMulti (response : ResultCode) : List (Option ResultCode) → ResultCode
  | [] => response
  | none :: _ => .unknown
  | some result :: rest => checkMulti (escalateResult response result) rest

/-- A command: one that is not a wrapper, with its status, or a wrapper around others. -/
inductive Check where
  | leaf (result : Option ResultCode)
  | negate (new : States) (command : Check)
  | multi (n : Fin 128) (commands : Fin (n.val + 1) → Check)
  | always (status : ResultCode) (command : Check)

namespace Check

def maxQueryDepth : ℕ := 16

/-- The core answers UNKNOWN instead of running a command that is nested too deep. -/
def executeQuery (depth : ℕ) (result : Option ResultCode) : Option ResultCode :=
  if maxQueryDepth < depth + 1 then some .unknown else result

/-- The status of a command that is run inside `depth` others. -/
def status : Check → (depth : ℕ) → Option ResultCode
  | leaf result, depth => executeQuery depth result
  | negate new command, depth =>
    executeQuery depth (some (checkNegate new (command.status (depth + 1))))
  | multi _ commands, depth =>
    executeQuery depth (some (checkMulti .ok (List.ofFn fun i => (commands i).status (depth + 1))))
  | always status command, depth =>
    executeQuery depth (some (checkChangeStatus status (command.status (depth + 1))))

/-- The status with each mapping applied once.  The commands of `check_multi` have no order here. -/
def expected : Check → Option ResultCode
  | leaf result => result
  | negate new command => some ((command.expected.map new.apply).getD .unknown)
  | multi _ commands => some (Finset.univ.sup fun i => (commands i).expected.getD .unknown)
  | always status command => some ((command.expected.map fun _ => status).getD .unknown)

/-- The commands of a tree with the number of commands around each, down to those refused. -/
inductive Nested (t : Check) : ℕ → Check → Prop
  | root : Nested t 0 t
  | negate {d : ℕ} {new : States} {c : Check} :
    Nested t d (negate new c) → d < maxQueryDepth → Nested t (d + 1) c
  | multi {d : ℕ} {n : Fin 128} {cs : Fin (n.val + 1) → Check} (i : Fin (n.val + 1)) :
    Nested t d (multi n cs) → d < maxQueryDepth → Nested t (d + 1) (cs i)
  | always {d : ℕ} {status : ResultCode} {c : Check} :
    Nested t d (always status c) → d < maxQueryDepth → Nested t (d + 1) c

@[simp] theorem executeQuery_of_lt {depth : ℕ} (h : depth < maxQueryDepth)
    (result : Option ResultCode) : executeQuery depth result = result :=
  if_neg (not_lt.mpr h)

theorem status_of_le {depth : ℕ} (h : maxQueryDepth ≤ depth) (c : Check) :
    c.status depth = some .unknown := by
  cases c <;> exact if_pos (Nat.lt_succ_of_le h)

end Check

/-! ## The expected status -/

/-- Applied again and again, as long as the state becomes worse, the mapping comes back to the state
it gave first. -/
def States.Settled (new : States) (r : ResultCode) : Prop :=
  let a := new.apply r
  let b := new.apply a
  let c := new.apply b
  a ≤ r ∨ b = a ∨ (a < b ∧ c = a) ∨ (a < b ∧ b < c ∧ new.apply c = a)

theorem checkNegate_eq_iff (new : States) (r : ResultCode) :
    checkNegate new (some r) = new.apply r ↔ new.Settled r := by
  have hall : ∀ o w c u r, checkNegate ⟨o, w, c, u⟩ (some r) = States.apply ⟨o, w, c, u⟩ r ↔
      States.Settled ⟨o, w, c, u⟩ r := by
    unfold States.Settled
    decide +kernel
  exact hall new.ok new.warning new.critical new.unknown r

theorem checkMulti_eq_foldl (response : ResultCode) (commands : List (Option ResultCode)) :
    checkMulti response commands = (commands.map (·.getD .unknown)).foldl max response := by
  have hworst : ∀ l : List ResultCode, l.foldl max .unknown = .unknown := fun l => by
    induction l with
    | nil => rfl
    | cons a l ih => rwa [List.foldl_cons, show max .unknown a = .unknown by cases a <;> rfl]
  induction commands generalizing response with
  | nil => rfl
  | cons command rest ih =>
    cases command with
    | none =>
      rw [checkMulti, List.map_cons, List.foldl_cons, Option.getD_none,
        show max response .unknown = .unknown by cases response <;> rfl, hworst]
    | some result => rw [checkMulti, ih, escalateResult_eq_max]; rfl

theorem checkMulti_ofFn {n : ℕ} (f : Fin n → Option ResultCode) :
    checkMulti .ok (List.ofFn f) = Finset.univ.sup fun i => (f i).getD .unknown := by
  rw [checkMulti_eq_foldl, List.map_ofFn, Finset.sup_def, Fin.univ_val_map]
  exact (Multiset.coe_fold_l max ⊥ _).symm

example : ((Check.negate {})^[16] (.leaf (some .ok))).status 0 = some .unknown := by
  simp [Check.status, Check.executeQuery, Check.maxQueryDepth, checkNegate]

end CheckHelpers

end Nscp.Service
