import Mathlib

/-!
# Computations that log and may fail

A computation ends with a value or an exception and leaves a list of messages
behind.  Messages are kept when the computation fails, and a handler continues
with them.  `Safe P Q` states what every message and the final value satisfy,
with one rule for each way of building a computation.
-/

structure Logged (ε μ α : Type) where
  result : Except ε α
  log : List μ

namespace Logged

variable {ε μ α β γ : Type}

protected def pure (a : α) : Logged ε μ α := ⟨.ok a, []⟩

protected def bind (x : Logged ε μ α) (f : α → Logged ε μ β) : Logged ε μ β :=
  match x.result with
  | .ok a => ⟨(f a).result, x.log ++ (f a).log⟩
  | .error e => ⟨.error e, x.log⟩

instance : Monad (Logged ε μ) where
  pure := Logged.pure
  bind := Logged.bind

def tell (m : μ) : Logged ε μ Unit := ⟨.ok (), [m]⟩

def raise (e : ε) : Logged ε μ α := ⟨.error e, []⟩

def ofExcept (x : Except ε α) : Logged ε μ α := ⟨x, []⟩

def catching (x : Logged ε μ α) (handler : ε → Logged ε μ α) : Logged ε μ α :=
  match x.result with
  | .ok a => ⟨.ok a, x.log⟩
  | .error e => ⟨(handler e).result, x.log ++ (handler e).log⟩

def mapList (f : α → Logged ε μ β) : List α → Logged ε μ (List β)
  | [] => pure []
  | a :: as => do
      let b ← f a
      let bs ← mapList f as
      return b :: bs

variable (a : α)

@[simp] theorem pure_eq : (pure a : Logged ε μ α) = ⟨.ok a, []⟩ := rfl

@[simp] theorem bind_ok (log : List μ) (f : α → Logged ε μ β) :
    (⟨.ok a, log⟩ : Logged ε μ α) >>= f = ⟨(f a).result, log ++ (f a).log⟩ := rfl

variable (e : ε) (log : List μ) {f g : α → Logged ε μ β} (x : Except ε α) {as : List α}

@[simp] theorem bind_error (f : α → Logged ε μ β) :
    (⟨.error e, log⟩ : Logged ε μ α) >>= f = ⟨.error e, log⟩ := rfl

theorem pure_bind (f : α → Logged ε μ β) : (pure a : Logged ε μ α) >>= f = f a := rfl

theorem result_bind (x : Logged ε μ α) (f : α → Logged ε μ β) :
    (x >>= f).result = x.result.bind fun a => (f a).result := by
  obtain ⟨_ | _, _⟩ := x <;> rfl

theorem result_bind_congr {x : Logged ε μ α} {g : α → Except ε β} (h : ∀ a, (f a).result = g a) :
    (x >>= f).result = x.result.bind g := by
  rw [result_bind, funext h]

theorem result_bind_map {x : Logged ε μ α} {g : α → β} (h : ∀ a, (f a).result = .ok (g a)) :
    (x >>= f).result = x.result.map g := by
  obtain ⟨_ | a, _⟩ := x
  · rfl
  · exact h a

@[simp] theorem except_ok_bind (f : α → Except ε β) : (Except.ok a).bind f = f a := rfl

@[simp] theorem except_error_bind (f : α → Except ε β) :
    (Except.error e : Except ε α).bind f = .error e := rfl

@[simp] theorem except_ok_map (f : α → β) :
    (Except.ok a : Except ε α).map f = .ok (f a) := rfl

theorem except_map_map (f : α → β) (g : β → γ) : (x.map f).map g = x.map fun a => g (f a) := by
  cases x <;> rfl

theorem except_map_eq_bind (f : α → β) : x.map f = x.bind fun a => .ok (f a) := by
  cases x <;> rfl

theorem except_map_bind (f : α → Except ε β) (g : β → γ) :
    (x.bind f).map g = x.bind fun a => (f a).map g := by
  cases x <;> rfl

theorem mapList_pure {g : α → β} (h : ∀ a ∈ as, f a = pure (g a)) :
    mapList f as = pure (as.map g) := by
  induction as with
  | nil => rfl
  | cons a as ih =>
    unfold mapList
    rw [h a (by simp), ih fun a' ha' => h a' (List.mem_cons_of_mem a ha')]
    rfl

/-! ## What a computation logs and returns -/

/-- Every message satisfies `P`, and the value, if there is one, satisfies `Q`. -/
structure Safe (P : μ → Prop) (Q : α → Prop) (x : Logged ε μ α) : Prop where
  log : ∀ m ∈ x.log, P m
  result : ∀ a, x.result = .ok a → Q a

abbrev Logs (P : μ → Prop) (x : Logged ε μ α) : Prop := Safe P (fun _ => True) x

variable {P : μ → Prop} {Q Q' : α → Prop} {R : β → Prop}

theorem Safe.of_pure {a : α} (h : Q a) : Safe P Q (pure a : Logged ε μ α) := by
  refine ⟨by simp, ?_⟩
  intro b hb
  cases hb
  exact h

variable {x : Logged ε μ α}

theorem Safe.of_bind (hx : Safe P Q x) (hf : ∀ a, Q a → Safe P R (f a)) : Safe P R (x >>= f) := by
  obtain ⟨result, log⟩ := x
  cases result with
  | error e => exact ⟨hx.log, by simp⟩
  | ok a =>
    have ha := hf a (hx.result a rfl)
    refine ⟨?_, ?_⟩
    · intro m hm
      rcases List.mem_append.mp hm with hm | hm
      · exact hx.log m hm
      · exact ha.log m hm
    · intro b hb
      exact ha.result b hb

theorem Safe.of_tell {m : μ} {Q : Unit → Prop} (hm : P m) (hQ : Q ()) :
    Safe P Q (tell m : Logged ε μ Unit) := by
  refine ⟨?_, ?_⟩
  · intro n hn
    rw [List.mem_singleton.mp hn]
    exact hm
  · intro _ _
    exact hQ

theorem Safe.of_raise {e : ε} : Safe P Q (raise e : Logged ε μ α) :=
  ⟨by simp [raise], by simp [raise]⟩

theorem Safe.of_catching {handler : ε → Logged ε μ α} (hx : Safe P Q x)
    (hhandler : ∀ e, Safe P Q (handler e)) : Safe P Q (x.catching handler) := by
  obtain ⟨result, log⟩ := x
  cases result with
  | ok a => exact hx
  | error e =>
    refine ⟨?_, ?_⟩
    · intro m hm
      rcases List.mem_append.mp hm with hm | hm
      · exact hx.log m hm
      · exact (hhandler e).log m hm
    · intro a ha
      exact (hhandler e).result a ha

theorem Safe.of_mapList (h : ∀ a ∈ as, Safe P R (f a)) :
    Safe P (fun bs => ∀ b ∈ bs, R b) (mapList f as) := by
  induction as with
  | nil => exact .of_pure (by simp)
  | cons a as ih =>
    refine .of_bind (h a (by simp)) fun b hb => ?_
    refine .of_bind (ih fun a' ha' => h a' (List.mem_cons_of_mem a ha')) fun bs hbs => ?_
    refine .of_pure ?_
    intro b' hb'
    rcases List.mem_cons.mp hb' with rfl | hb'
    · exact hb
    · exact hbs b' hb'

theorem mem_log_bind {m : μ} (f : α → Logged ε μ β) (h : m ∈ x.log) : m ∈ (x >>= f).log := by
  obtain ⟨result, log⟩ := x
  cases result with
  | ok a => exact List.mem_append_left _ h
  | error e => exact h

theorem mem_log_catching {m : μ} (handler : ε → Logged ε μ α) (h : m ∈ x.log) :
    m ∈ (x.catching handler).log := by
  obtain ⟨result, log⟩ := x
  cases result with
  | ok a => exact h
  | error e => exact List.mem_append_left _ h

theorem Safe.mono (hx : Safe P Q x) (h : ∀ a, Q a → Q' a) : Safe P Q' x :=
  ⟨hx.log, fun a ha => h a (hx.result a ha)⟩

/-- Two continuations that agree on every value a computation can end with. -/
theorem bind_congr_of_safe (hx : Safe P Q x) (h : ∀ a, Q a → f a = g a) : x >>= f = x >>= g := by
  obtain ⟨result, log⟩ := x
  cases result with
  | error e => rfl
  | ok a => simp [bind_ok, h a (hx.result a rfl)]

end Logged
