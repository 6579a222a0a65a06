import Mathlib

/-!
# Pre- and postconditions of computations with exceptions

A computation works on a state and ends with a value or an exception; the state outlives the
exception.  `Triple P c Q E` states that from a state with `P` the computation ends with a value
and a state as `Q` has them, or with an exception in a state with `E`.
-/

namespace Hoare

variable {ε σ α β : Type}

def Triple (P : σ → Prop) (c : EStateM ε σ α) (Q : α → σ → Prop) (E : σ → Prop) : Prop :=
  ∀ s, P s → match c s with
    | .ok a s' => Q a s'
    | .error _ s' => E s'

def refuseIf (c : Prop) [Decidable c] (e : ε) : EStateM ε σ Unit :=
  if c then throw e else pure ()

def attempt (c : EStateM ε σ α) : EStateM ε σ Unit :=
  tryCatch (do discard c) fun _ => pure ()

variable {P P' : σ → Prop} {Q Q' : α → σ → Prop} {E E' : σ → Prop}

variable {c : EStateM ε σ α} {R : β → σ → Prop}

theorem Triple.mono (h : Triple P c Q E) (hP : ∀ s, P' s → P s) (hQ : ∀ a s, Q a s → Q' a s)
    (hE : ∀ s, E s → E' s) : Triple P' c Q' E' := by
  intro s hs
  have hc := h s (hP s hs)
  cases hcs : c s with
  | ok a s' =>
    rw [hcs] at hc
    exact hQ a s' hc
  | error e s' =>
    rw [hcs] at hc
    exact hE s' hc

theorem Triple.bind {k : α → EStateM ε σ β} (hc : Triple P c Q E)
    (hk : ∀ a, Triple (Q a) (k a) R E) : Triple P (c >>= k) R E := by
  intro s hs
  have hcs := hc s hs
  change match EStateM.bind c k s with
    | .ok b s' => R b s'
    | .error _ s' => E s'
  rw [EStateM.bind]
  cases hrun : c s with
  | ok a s' =>
    rw [hrun] at hcs
    exact hk a s' hcs
  | error e s' =>
    rw [hrun] at hcs
    exact hcs

theorem Triple.and (h : Triple P c Q E) (h' : Triple P' c Q' E') :
    Triple (fun s => P s ∧ P' s) c (fun a s => Q a s ∧ Q' a s) fun s => E s ∧ E' s := by
  intro s hs
  have hc := h s hs.1
  have hc' := h' s hs.2
  cases hcs : c s <;> rw [hcs] at hc hc' <;> exact ⟨hc, hc'⟩

/-- A triple for each of the states it may start from. -/
theorem Triple.of_forall (h : ∀ s, P s → Triple (· = s) c Q E) : Triple P c Q E :=
  fun s hs => h s hs s rfl

theorem Triple.of_exists {ι : Sort*} {P : ι → σ → Prop} (h : ∀ i, Triple (P i) c Q E) :
    Triple (fun s => ∃ i, P i s) c Q E := by
  rintro s ⟨i, hs⟩
  exact h i s hs

theorem Triple.of_and {p : Prop} (h : p → Triple P c Q E) : Triple (fun s => p ∧ P s) c Q E := by
  rintro s ⟨hp, hs⟩
  exact h hp s hs

theorem Triple.pure {a : α} (h : ∀ s, P s → Q a s) :
    Triple P (pure a : EStateM ε σ α) Q E :=
  fun s hs => h s hs

variable {e : ε}

theorem Triple.refuse (h : ∀ s, P s → E s) : Triple P (throw e : EStateM ε σ α) Q E :=
  fun s hs => h s hs

theorem Triple.refuseIf {c : Prop} [Decidable c] (h : c → ∀ s, P s → E s) :
    Triple P (refuseIf c e : EStateM ε σ Unit) (fun _ s => P s ∧ ¬ c) E := by
  rw [Hoare.refuseIf]
  split
  next hc => exact Triple.refuse (h hc)
  next hc => exact Triple.pure fun s hs => ⟨hs, hc⟩

theorem Triple.refuseIf_bind {c : Prop} [Decidable c] {k : Unit → EStateM ε σ β}
    (h : ∀ s, P s → E s) (hk : ¬ c → Triple P (k ()) R E) :
    Triple P (Hoare.refuseIf c e >>= k) R E := by
  refine Triple.bind (Triple.refuseIf fun _ => h) fun _ s hs => ?_
  exact hk hs.2 s hs.1

theorem Triple.ite {c : Prop} [Decidable c] {x y : EStateM ε σ α} (hx : c → Triple P x Q E)
    (hy : ¬ c → Triple P y Q E) : Triple P (if c then x else y) Q E := by
  split
  next hc => exact hx hc
  next hc => exact hy hc

theorem Triple.attempt {Q : Unit → σ → Prop} (hc : Triple P c (fun _ => Q ()) (Q ())) :
    Triple P (attempt c) Q E := by
  intro s hs
  have hcs := hc s hs
  have hrun : (Hoare.attempt c : EStateM ε σ Unit) s = match c s with
      | .ok _ s' => .ok () s'
      | .error _ s' => .ok () s' := by
    change EStateM.tryCatch (EStateM.map (fun _ => PUnit.unit) c) (fun _ => EStateM.pure ()) s = _
    rw [EStateM.tryCatch, EStateM.map]
    cases c s <;> rfl
  rw [hrun]
  cases hc' : c s <;> rw [hc'] at hcs <;> exact hcs

end Hoare
