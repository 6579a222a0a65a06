import Mathlib

/-!
# Truth values that may be guesses

A truth value together with a mark that says whether it was guessed.  A conjunction
with a sure false and a disjunction with a sure true are sure whatever the other side
is; otherwise a guess on either side makes the result a guess.
-/

structure Guess where
  truth : Bool
  unsure : Bool
  deriving DecidableEq, Repr

namespace Guess

variable (a b c : Guess) (stop : Bool)

def sureIs (t : Bool) : Bool := a.truth == t && !a.unsure

/-- Combine two values where a sure `stop` decides. -/
def combine (stop : Bool) : Guess :=
  if a.sureIs stop || b.sureIs stop then ⟨stop, false⟩
  else ⟨if stop then a.truth || b.truth else a.truth && b.truth, a.unsure || b.unsure⟩

protected def and : Guess := combine a b false
protected def or : Guess := combine a b true
protected def not : Guess := ⟨!a.truth, a.unsure⟩

theorem combine_comm : combine a b stop = combine b a stop := by
  unfold combine
  rw [Bool.or_comm (a.sureIs stop), Bool.or_comm a.truth, Bool.and_comm a.truth,
    Bool.or_comm a.unsure]

theorem combine_self : combine a a stop = a := by
  obtain ⟨t, u⟩ := a
  cases stop <;> cases t <;> cases u <;> rfl

theorem not_combine : (combine a b stop).not = combine a.not b.not (!stop) := by
  obtain ⟨t, u⟩ := a
  obtain ⟨t', u'⟩ := b
  cases stop <;> cases t <;> cases u <;> cases t' <;> cases u' <;> rfl

@[simp] theorem not_not : a.not.not = a := by
  simp [Guess.not]

/-- Values guessed or known together: the mark is the common one. -/
theorem or_of_unsure_eq (h : a.unsure = b.unsure) :
    a.or b = ⟨a.truth || b.truth, a.unsure⟩ := by
  obtain ⟨t, u⟩ := a
  obtain ⟨t', u'⟩ := b
  obtain rfl : u = u' := h
  cases t <;> cases t' <;> cases u <;> rfl

end Guess
