import Mathlib

/-!
# Runs that keep a property step by step

A system takes one operation after another.  Where a step out of a good state leads to a
good state exactly when the operation meets a condition there, a run stays good at every
point exactly when each of its operations meets the condition where it is done.
-/

namespace Runs

open List

variable {σ ο : Type} {f : σ → ο → σ} {s : σ} {I : σ → Prop} {ops : List ο}

/-! ## Runs as lists of steps -/

def trail (f : σ → ο → σ) : σ → List ο → List (ο × σ)
  | _, [] => []
  | s, op :: ops => (op, s) :: trail f (f s op) ops

@[simp]
theorem map_fst_trail (s : σ) (ops : List ο) : (trail f s ops).map Prod.fst = ops := by
  induction ops generalizing s with
  | nil => rfl
  | cons op ops ih => rw [trail, map_cons, ih]

theorem length_trail (s : σ) (ops : List ο) : (trail f s ops).length = ops.length := by
  rw [← length_map Prod.fst, map_fst_trail]

theorem trail_append (s : σ) (ops rest : List ο) :
    trail f s (ops ++ rest) = trail f s ops ++ trail f (ops.foldl f s) rest := by
  induction ops generalizing s with
  | nil => rfl
  | cons op ops ih => rw [cons_append, trail, trail, ih, cons_append, foldl_cons]

/-- A counter that each step raises or leaves counts the steps that raise it. -/
theorem foldl_eq_add_countP {m : σ → ℕ} {p : ο × σ → Bool}
    (hm : ∀ s op, m (f s op) = m s + if p (op, s) then 1 else 0) (s : σ) (ops : List ο) :
    m (ops.foldl f s) = m s + (trail f s ops).countP p := by
  induction ops generalizing s with
  | nil => rfl
  | cons op ops ih =>
    rw [foldl_cons, ih, hm, trail, countP_cons]
    omega

/-- A list that some steps extend by their operation holds those operations in order. -/
theorem foldl_eq_append_filter {m : σ → List ο} {p : ο × σ → Bool}
    (hm : ∀ s op, m (f s op) = m s ++ if p (op, s) then [op] else []) (s : σ) (ops : List ο) :
    m (ops.foldl f s) = m s ++ ((trail f s ops).filter p).map Prod.fst := by
  induction ops generalizing s with
  | nil => exact (append_nil _).symm
  | cons op ops ih =>
    rw [foldl_cons, ih, hm, trail, append_assoc]
    cases hp : p (op, s) with
    | true => rw [filter_cons_of_pos hp, map_cons, if_pos rfl, singleton_append]
    | false => rw [filter_cons_of_neg (by simp [hp]), if_neg (by simp), nil_append]

/-- What every step keeps holds in the state of each step. -/
theorem forall_mem_trail (hI : ∀ s op, I s → I (f s op)) (hs : I s) :
    ∀ x ∈ trail f s ops, I x.2 := by
  induction ops generalizing s with
  | nil => exact forall_mem_nil _
  | cons op ops ih => exact forall_mem_cons.mpr ⟨hs, ih (hI s op hs)⟩

/-- What every step keeps holds behind a run. -/
theorem foldl_invariant (hI : ∀ s op, I s → I (f s op)) (hs : I s) (ops : List ο) :
    I (ops.foldl f s) := by
  induction ops generalizing s with
  | nil => exact hs
  | cons op ops ih => exact ih (hI s op hs)

/-- Two systems that take the same operations side by side. -/
theorem foldl_prod {τ : Type} (f : σ → ο → σ) (g : τ → ο → τ) (s : σ) (t : τ) (ops : List ο) :
    ops.foldl (fun x op => (f x.1 op, g x.2 op)) (s, t) = (ops.foldl f s, ops.foldl g t) := by
  induction ops generalizing s t with
  | nil => rfl
  | cons op ops ih => exact ih (f s op) (g t op)

/-! ## Guarded runs -/

section Guarded

variable {ok : σ → ο → Prop}

def Guarded (f : σ → ο → σ) (ok : σ → ο → Prop) : σ → List ο → Prop
  | _, [] => True
  | s, op :: ops => ok s op ∧ Guarded f ok (f s op) ops

instance Guarded.instDecidable [∀ s op, Decidable (ok s op)] :
    ∀ (s : σ) (ops : List ο), Decidable (Guarded f ok s ops)
  | _, [] => isTrue trivial
  | s, op :: ops =>
    have := Guarded.instDecidable (f s op) ops
    inferInstanceAs (Decidable (ok s op ∧ Guarded f ok (f s op) ops))

theorem guarded_append {ops rest : List ο} :
    Guarded f ok s (ops ++ rest) ↔ Guarded f ok s ops ∧ Guarded f ok (ops.foldl f s) rest := by
  induction ops generalizing s with
  | nil => exact (iff_of_eq (true_and _)).symm
  | cons op ops ih =>
    rw [cons_append, Guarded, Guarded, ih, foldl_cons, and_assoc]

/-- A property with a counter that the operations marked by `c` raise. -/
theorem Guarded.counted {J : ℕ → σ → Prop} {p : ο → Prop} {c : ο → Bool}
    (hJ : ∀ n s op, p op → ok s op → J n s → J (if c op then n + 1 else n) (f s op)) {n : ℕ}
    (hops : Guarded f ok s ops) (hp : ∀ op ∈ ops, p op) (hs : J n s) :
    J (n + ops.countP c) (ops.foldl f s) := by
  induction ops generalizing n s with
  | nil => exact hs
  | cons op ops ih =>
    obtain ⟨hop, hrest⟩ := forall_mem_cons.mp hp
    have hstep := ih hops.2 hrest (hJ n s op hop hops.1 hs)
    have hcount : n + (op :: ops).countP c = (if c op then n + 1 else n) + ops.countP c := by
      rw [countP_cons]
      split <;> omega
    rw [hcount]
    exact hstep

theorem Guarded.invariant {p : ο → Prop} (hI : ∀ s op, p op → ok s op → I s → I (f s op))
    (hops : Guarded f ok s ops) (hp : ∀ op ∈ ops, p op) (hs : I s) : I (ops.foldl f s) :=
  Guarded.counted (J := fun _ => I) (c := fun _ => false) (n := 0)
    (fun _ s op hop hok h => hI s op hop hok h) hops hp hs

end Guarded

/-! ## Runs that stay good -/

variable {I P R : σ → Prop} {Q : σ → ο → Prop}

/-- The relation `R` carries the run as long as the condition `Q` is met. -/
theorem forall_prefix_iff_of_invariant (hR : ∀ s op, R s → Q s op → R (f s op))
    (hf : ∀ s op, R s → (P (f s op) ↔ Q s op)) (hs : R s) (hP : P s) (ops : List ο) :
    (∀ l, l <+: ops → P (l.foldl f s)) ↔ ∀ l op, l ++ [op] <+: ops → Q (l.foldl f s) op := by
  induction ops generalizing s with
  | nil =>
    refine iff_of_true (fun l hl => ?_) fun l op hl => ?_
    · rw [prefix_nil.mp hl]
      exact hP
    · exact absurd (prefix_nil.mp hl) (by simp)
  | cons op ops ih =>
    constructor
    · intro hall l op' hl
      have hfirst : P (f s op) := hall [op] (prefix_append [op] ops)
      have hQ := (hf s op hs).mp hfirst
      cases l with
      | nil =>
        obtain ⟨rfl, -⟩ := cons_prefix_cons.mp hl
        exact hQ
      | cons o l =>
        obtain ⟨rfl, hrest⟩ := cons_prefix_cons.mp hl
        exact (ih (hR s o hs hQ) hfirst).mp
          (fun l' hl' => hall (o :: l') (cons_prefix_cons.mpr ⟨rfl, hl'⟩)) l op' hrest
    · intro hall l hl
      have hQ := hall [] op (prefix_append [op] ops)
      cases l with
      | nil => exact hP
      | cons o l =>
        obtain ⟨rfl, hrest⟩ := cons_prefix_cons.mp hl
        exact (ih (hR s o hs hQ) ((hf s o hs).mpr hQ)).mpr
          (fun l' op' hl' => hall (o :: l') op' (cons_prefix_cons.mpr ⟨rfl, hl'⟩)) l hrest

theorem forall_prefix_iff (hI : ∀ s op, I s → I (f s op))
    (hf : ∀ s op, I s → P s → (P (f s op) ↔ Q s op)) (hs : I s) (hP : P s) (ops : List ο) :
    (∀ l, l <+: ops → P (l.foldl f s)) ↔ ∀ l op, l ++ [op] <+: ops → Q (l.foldl f s) op := by
  have hgood : ∀ s op, I s ∧ P s → Q s op → I (f s op) ∧ P (f s op) := fun s op h hQ =>
    ⟨hI s op h.1, (hf s op h.1 h.2).mpr hQ⟩
  exact forall_prefix_iff_of_invariant hgood (fun s op h => hf s op h.1 h.2) ⟨hs, hP⟩ hP ops

end Runs
