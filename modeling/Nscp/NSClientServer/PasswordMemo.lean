import Nscp.Library.Runs

/-!
# The password memo of the check_nt server

A password that was accepted by a stored hash is remembered with that hash, so that the next
request is answered by a comparison.  The lock covers the memo and not the derivation: between the
lookup of a call and the step that remembers its password other calls may do anything.
-/

namespace Nscp.NSClientServer

open Runs Function

/-- How passwords are checked: what a stored hash looks like and which passwords it accepts. -/
structure PasswordHash where
  isHashed : List Char → Bool
  verifyPassword : List Char → List Char → Bool

structure Memo where
  known : Bool := false
  clear : List Char := []
  hash : List Char := []
  derivations : ℕ := 0

structure Call where
  offered : List Char
  stored : List Char

inductive Phase where
  | idle
  | derivation (call : Call)
  | storage (call : Call)

/-- The memo, the threads and the calls that returned, each with its result. -/
structure State where
  memo : Memo := {}
  phase : ℕ → Phase := fun _ => .idle
  returned : List (Call × Bool) := []

inductive Step where
  | lookup (thread : ℕ) (call : Call)
  | derive (thread : ℕ)
  | store (thread : ℕ)
  | forget

namespace State

variable (h : PasswordHash)

def finish (s : State) (thread : ℕ) (call : Call) (result : Bool) : State :=
  { s with phase := update s.phase thread .idle, returned := s.returned ++ [(call, result)] }

/-- One step of a thread; a thread that is elsewhere does nothing. -/
def step (s : State) : Step → State
  | .lookup thread call =>
    match s.phase thread with
    | .idle =>
      if !h.isHashed call.stored then
        s.finish thread call (h.verifyPassword call.offered call.stored)
      else if s.memo.known && s.memo.hash = call.stored then
        s.finish thread call (call.offered = s.memo.clear)
      else
        { s with
          memo := { s.memo with derivations := s.memo.derivations + 1 }
          phase := update s.phase thread (.derivation call) }
    | _ => s
  | .derive thread =>
    match s.phase thread with
    | .derivation call =>
      if !h.verifyPassword call.offered call.stored then s.finish thread call false
      else { s with phase := update s.phase thread (.storage call) }
    | _ => s
  | .store thread =>
    match s.phase thread with
    | .storage call =>
      { s with
        memo := { s.memo with clear := call.offered, hash := call.stored, known := true } }.finish
        thread call true
    | _ => s
  | .forget => { s with memo := { s.memo with known := false, clear := [], hash := [] } }

/-- What a call may return. -/
def Sound (call : Call) (result : Bool) : Prop :=
  (result = true → h.verifyPassword call.offered call.stored = true) ∧
    ((∀ stored a b, h.isHashed stored = true → h.verifyPassword a stored = true →
        h.verifyPassword b stored = true → a = b) →
      result = h.verifyPassword call.offered call.stored)

def Phase.Holds : Phase → Prop
  | .idle => True
  | .derivation call => h.isHashed call.stored = true
  | .storage call => h.isHashed call.stored = true ∧
      h.verifyPassword call.offered call.stored = true

/-- The memo holds a password that its hash accepts, and a thread remembers only such ones. -/
structure Invariant (s : State) : Prop where
  memo : s.memo.known = true →
    h.isHashed s.memo.hash = true ∧ h.verifyPassword s.memo.clear s.memo.hash = true
  phase : ∀ thread, Phase.Holds h (s.phase thread)
  returned : ∀ x ∈ s.returned, Sound h x.1 x.2

variable {h} {s : State} {call : Call}

theorem Invariant.setPhase (hs : Invariant h s) (thread : ℕ) {p : Phase} (hp : Phase.Holds h p) :
    Invariant h { s with phase := update s.phase thread p } := by
  refine ⟨hs.memo, fun t => ?_, hs.returned⟩
  by_cases ht : t = thread
  · subst ht
    simpa using hp
  · simpa [ht] using hs.phase t

theorem Invariant.finish (hs : Invariant h s) (thread : ℕ) {result : Bool}
    (hresult : Sound h call result) : Invariant h (s.finish thread call result) := by
  have hidle := hs.setPhase thread (p := .idle) trivial
  refine ⟨hidle.memo, hidle.phase, fun x hx => ?_⟩
  rcases List.mem_append.mp hx with hx | hx
  · exact hs.returned x hx
  · rw [List.mem_singleton.mp hx]
    exact hresult

/-- The memo is written behind a derivation that accepted the password, under the hash it was
derived with. -/
theorem Invariant.step (s : State) (e : Step) (hs : Invariant h s) : Invariant h (s.step h e) := by
  cases e with
  | lookup thread call =>
    rw [State.step]
    split
    · split_ifs with hhashed hknown
      · exact hs.finish thread ⟨id, fun _ => rfl⟩
      · -- the password that is known is the only one the hash accepts
        rw [Bool.and_eq_true, decide_eq_true_iff] at hknown
        obtain ⟨hhash, hclear⟩ := hs.memo hknown.1
        rw [hknown.2] at hhash hclear
        refine hs.finish thread ⟨fun h => ?_, fun hone => ?_⟩
        · rwa [of_decide_eq_true h]
        · rw [Bool.eq_iff_iff, decide_eq_true_iff]
          exact ⟨fun h => h ▸ hclear, fun h => hone _ _ _ hhash h hclear⟩
      · have hcounted : Invariant h
            { s with memo := { s.memo with derivations := s.memo.derivations + 1 } } :=
          ⟨hs.memo, hs.phase, hs.returned⟩
        exact hcounted.setPhase thread (p := .derivation call)
          (by simpa [Phase.Holds] using hhashed)
    · exact hs
  | derive thread =>
    rw [State.step]
    split
    · next call hphase =>
        have hcall := hs.phase thread
        rw [hphase] at hcall
        split_ifs with hverify
        · rw [Bool.not_eq_true'] at hverify
          exact hs.finish thread ⟨fun h => (by cases h), fun _ => hverify.symm⟩
        · exact hs.setPhase thread ⟨hcall, by simpa using hverify⟩
    · exact hs
  | store thread =>
    rw [State.step]
    split
    · next call hphase =>
        have hcall := hs.phase thread
        rw [hphase] at hcall
        have hlearned : Invariant h { s with
            memo := { s.memo with clear := call.offered, hash := call.stored, known := true } } :=
          ⟨fun _ => hcall, hs.phase, hs.returned⟩
        exact hlearned.finish thread ⟨fun _ => hcall.2, fun _ => hcall.2.symm⟩
    · exact hs
  | forget => exact ⟨fun hknown => (by cases hknown), hs.phase, hs.returned⟩

end State

/-- Whatever the threads do, a call returns true only if the stored value accepts the password,
and it returns what a check returns if no stored hash accepts two passwords. -/
theorem memo_transparent (h : PasswordHash) (run : List Step) (call : Call) (result : Bool)
    (hreturned : (call, result) ∈ (run.foldl (State.step h) {}).returned) :
    (result = true → h.verifyPassword call.offered call.stored = true) ∧
      ((∀ stored a b, h.isHashed stored = true → h.verifyPassword a stored = true →
          h.verifyPassword b stored = true → a = b) →
        result = h.verifyPassword call.offered call.stored) := by
  have hinitial : State.Invariant h {} :=
    ⟨fun hknown => (by cases hknown), fun _ => trivial, by simp⟩
  have hs := foldl_invariant State.Invariant.step hinitial run
  exact hs.returned _ hreturned

def Sample.hash : PasswordHash where
  isHashed stored := stored.head? = some '$'
  verifyPassword offered stored := stored = '$' :: offered

def Sample.run : List Step :=
  [.lookup 0 ⟨['a'], ['$', 'a']⟩, .derive 0, .store 0, .lookup 1 ⟨['b'], ['$', 'a']⟩]

theorem memo_transparent_again :
    (⟨['b'], ['$', 'a']⟩, false) ∈ (Sample.run.foldl (State.step Sample.hash) {}).returned ∧
      false = Sample.hash.verifyPassword ['b'] ['$', 'a'] := by
  have hreturned : (⟨['b'], ['$', 'a']⟩, false) ∈
      (Sample.run.foldl (State.step Sample.hash) {}).returned := .tail _ (.head _)
  refine ⟨hreturned, (memo_transparent _ _ _ _ hreturned).2 fun stored a b _ ha hb => ?_⟩
  simp_all [Sample.hash]

end Nscp.NSClientServer
