import Nscp.Library.Logged

/-!
# Backtracking parsers with a trace

A parser reads from the front of a list of characters.  It fails, or returns a value
with the characters it left.  What it records on the way stays recorded when it
fails, so an ordered choice carries the trace of the alternatives it gave up.

The rules at the end carry a property of the returned values, or of the trace and of the
rest, through each way of building a parser.
-/

namespace Peg

open List

def Parser (μ α : Type) := List Char → Logged Unit μ (α × List Char)

namespace Parser

variable {μ α β : Type}

instance : Monad (Parser μ) where
  pure a := fun s => pure (a, s)
  bind p f := fun s => p s >>= fun r => f r.1 r.2

def fail : Parser μ α := fun _ => Logged.raise ()

def record (m : μ) : Parser μ Unit := fun s => ⟨.ok ((), s), [m]⟩

def orElse (p q : Parser μ α) : Parser μ α := fun s => (p s).catching fun _ => q s

def satisfy (accept : Char → Bool) : Parser μ Char
  | [] => Logged.raise ()
  | c :: s => if accept c then pure (c, s) else Logged.raise ()

def span (accept : Char → Bool) : Parser μ (List Char) :=
  fun s => pure (s.takeWhile accept, s.dropWhile accept)

/-- A fixed text, compared character by character. -/
def text (same : Char → Char → Bool) : List Char → Parser μ Unit
  | [] => pure ()
  | c :: cs => do
      let _ ← satisfy (same c)
      text same cs

def foldMany (p : Parser μ β) (f : α → β → α) : ℕ → α → Parser μ α
  | 0, a => pure a
  | fuel + 1, a => orElse (p >>= fun b => foldMany p f fuel (f a b)) (pure a)

def many (p : Parser μ β) (f : α → β → α) (a : α) : Parser μ α :=
  fun s => foldMany p f (s.length + 1) a s

/-! ## What a parser returns -/

def Yields (Q : α → Prop) (p : Parser μ α) : Prop :=
  ∀ s, Logged.Safe (fun _ => True) (fun r => Q r.1) (p s)

variable {Q : α → Prop} {R : β → Prop} {p q : Parser μ α} {f : α → Parser μ β} {a : α}

theorem Yields.any (p : Parser μ α) : Yields (fun _ => True) p :=
  fun _ => ⟨fun _ _ => trivial, fun _ _ => trivial⟩

theorem Yields.of_pure (h : Q a) : Yields Q (pure a : Parser μ α) :=
  fun _ => .of_pure h

theorem Yields.of_bind (hp : Yields Q p) (hf : ∀ a, Q a → Yields R (f a)) : Yields R (p >>= f) :=
  fun s => .of_bind (hp s) fun r hr => hf r.1 hr r.2

theorem Yields.of_fail : Yields Q (fail : Parser μ α) := fun _ => .of_raise

theorem Yields.of_orElse (hp : Yields Q p) (hq : Yields Q q) : Yields Q (orElse p q) :=
  fun s => .of_catching (hp s) fun _ => hq s

variable {f : β → α → β}

theorem Yields.of_foldMany (hp : Yields Q p) (hf : ∀ b a, R b → Q a → R (f b a)) (fuel : ℕ)
    {b : β} (hb : R b) : Yields R (foldMany p f fuel b) := by
  induction fuel generalizing b with
  | zero => exact .of_pure hb
  | succ fuel ih => exact .of_orElse (.of_bind hp fun a ha => ih (hf b a hb ha)) (.of_pure hb)

theorem Yields.of_many (hp : Yields Q p) (hf : ∀ b a, R b → Q a → R (f b a)) {b : β} (hb : R b) :
    Yields R (many p f b) :=
  fun s => Yields.of_foldMany hp hf (s.length + 1) hb s

/-! ## Where a parser reads -/

/-- A property of a place in the text: what stands before it, nearest character first, and
what follows. -/
abbrev Place := List Char → List Char → Prop

/-- From a place with `P` the parser records only what satisfies `M`, and the place it ends
at, further on in the same text, has `Q` of the value. -/
def Moves (M : μ → Prop) (P : Place) (Q : α → Place) (p : Parser μ α) : Prop :=
  ∀ b s, P b s → Logged.Safe M (fun r => ∃ t, s = t ++ r.2 ∧ Q r.1 (t.reverse ++ b) r.2) (p s)

section Moves

variable {M : μ → Prop} {P P' : Place} {Q Q' : α → Place} {R : β → Place} {p : Parser μ α}

theorem Moves.mono (hp : Moves M P Q p) (hP : ∀ b s, P' b s → P b s)
    (hQ : ∀ a b s, Q a b s → Q' a b s) : Moves M P' Q' p :=
  fun b s h => (hp b s (hP b s h)).mono fun _ ⟨t, ht, hr⟩ => ⟨t, ht, hQ _ _ _ hr⟩

theorem Moves.weaken (hp : Moves M P Q p) (hP : ∀ b s, P' b s → P b s) : Moves M P' Q p :=
  hp.mono hP fun _ _ _ h => h

theorem Moves.of_pure (h : ∀ b s, P b s → Q a b s) : Moves M P Q (pure a : Parser μ α) :=
  fun b s hP => .of_pure ⟨[], rfl, h b s hP⟩

theorem Moves.of_return : Moves M P (fun _ => P) (pure a : Parser μ α) :=
  .of_pure fun _ _ h => h

theorem Moves.of_bind {f : α → Parser μ β} (hp : Moves M P Q p) (hf : ∀ a, Moves M (Q a) R (f a)) :
    Moves M P R (p >>= f) := by
  refine fun b s hP => .of_bind (hp b s hP) fun r ⟨t, ht, hr⟩ => ?_
  refine (hf r.1 _ r.2 hr).mono fun x ⟨u, hu, hx⟩ => ⟨t ++ u, ?_, ?_⟩
  · rw [ht, hu, append_assoc]
  · rw [reverse_append, append_assoc]
    exact hx

theorem Moves.of_fail : Moves M P Q (fail : Parser μ α) := fun _ _ _ => .of_raise

variable {q : Parser μ α}

theorem Moves.of_ite {c : Prop} [Decidable c] (hp : Moves M P Q p) (hq : Moves M P Q q) :
    Moves M P Q (if c then p else q) := by
  split
  · exact hp
  · exact hq

theorem Moves.of_record {m : μ} (hm : ∀ b s, P b s → M m) : Moves M P (fun _ => P) (record m) := by
  refine fun b s hP => ⟨fun n hn => ?_, fun r hr => ?_⟩
  · rw [mem_singleton.mp hn]
    exact hm b s hP
  · cases hr
    exact ⟨[], rfl, hP⟩

/-- The second alternative runs at places the first has failed at. -/
theorem Moves.of_orElse_of_failed (hp : Moves M P Q p)
    (hq : Moves M (fun b s => P b s ∧ (p s).result = .error ()) Q q) :
    Moves M P Q (orElse p q) := by
  intro b s hP
  have hps := hp b s hP
  have hqs := fun h => hq b s ⟨hP, h⟩
  rw [orElse]
  generalize p s = x at hps hqs
  obtain ⟨result, log⟩ := x
  cases result with
  | ok r => exact hps
  | error e => exact .of_catching hps fun _ => hqs rfl

theorem Moves.of_orElse (hp : Moves M P Q p) (hq : Moves M P Q q) : Moves M P Q (orElse p q) :=
  .of_orElse_of_failed hp (hq.weaken fun _ _ h => h.1)

variable {f : β → α → β} {accept : Char → Bool}

theorem Moves.of_foldMany (hp : Moves M P (fun _ => P) p) (fuel : ℕ) (b : β) :
    Moves M P (fun _ => P) (foldMany p f fuel b) := by
  induction fuel generalizing b with
  | zero => exact .of_return
  | succ fuel ih => exact .of_orElse (.of_bind hp fun a => ih (f b a)) .of_return

theorem Moves.of_many (hp : Moves M P (fun _ => P) p) (b : β) :
    Moves M P (fun _ => P) (many p f b) :=
  fun before s hP => Moves.of_foldMany hp (s.length + 1) b before s hP

theorem Moves.of_satisfy {Q : Char → Place}
    (h : ∀ c b s, accept c = true → P b (c :: s) → Q c (c :: b) s) :
    Moves M P Q (satisfy accept : Parser μ Char) := by
  intro b s hP
  cases s with
  | nil => exact .of_raise
  | cons c s =>
    rw [satisfy]
    split
    next hc => exact .of_pure ⟨[c], rfl, h c b s hc hP⟩
    next => exact .of_raise

theorem place_span (h : ∀ c b s, accept c = true → P b (c :: s) → P (c :: b) s) {b s : List Char}
    (hP : P b s) : P ((s.takeWhile accept).reverse ++ b) (s.dropWhile accept) := by
  induction s generalizing b with
  | nil => exact hP
  | cons c s ih =>
    rw [takeWhile_cons, dropWhile_cons]
    split
    next hc =>
      rw [reverse_cons, append_assoc]
      exact ih (h c b s hc hP)
    next => exact hP

/-- A place kept while accepted characters are read. -/
theorem Moves.of_span (h : ∀ c b s, accept c = true → P b (c :: s) → P (c :: b) s) :
    Moves M P (fun _ => P) (span accept : Parser μ (List Char)) :=
  fun _ _ hP => .of_pure ⟨_, takeWhile_append_dropWhile.symm, place_span h hP⟩

theorem Moves.of_text {same : Char → Char → Bool} {cs : List Char} {Q : Unit → Place}
    (h : ∀ t b s, List.Forall₂ (fun c d => same c d = true) cs t → P b (t ++ s) →
      Q () (t.reverse ++ b) s) : Moves M P Q (text same cs : Parser μ Unit) := by
  induction cs generalizing P with
  | nil => exact .of_pure fun b s hP => h [] b s .nil hP
  | cons c cs ih =>
    refine .of_bind (Q := fun d b s => same c d = true ∧ ∃ b₀, b = d :: b₀ ∧ P b₀ (d :: s))
      (.of_satisfy fun d b s hd hP => ⟨hd, b, rfl, hP⟩) fun d =>
        ih fun t b s ht ⟨hd, b₀, hb, hP⟩ => ?_
    subst hb
    have := h (d :: t) b₀ s (.cons hd ht) hP
    rwa [reverse_cons, append_assoc] at this

end Moves

end Parser

end Peg
