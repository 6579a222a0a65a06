import Nscp.Where.Parse

/-!
# How deep the grammar nests

`max_paren_depth` counts parentheses without the grammar: `scanned` is the state of its loop
behind a part of the text.  `ReadsTo` says how the grammar may have come to a place of the text,
and how many of its parentheses are open there.  Where the two differ the loop takes for a
quoted text, or for code, what the grammar takes otherwise, and nesting may be hidden from it.
Every rule that succeeds ends at the depth it started at, whatever it tried and gave up in
between, so the grammar is never entered deeper than some reading of the text nests.
-/

namespace Nscp.Where

open List hiding span
open Event Nat Peg Peg.Parser Grammar

/-! ## The loop of the guard -/

/-- The loop of `max_paren_depth` behind a text given backwards. -/
def scanned : (before : List Char) → ScanMode × ℕ
  | [] => (.code, 0)
  | c :: before =>
    match scanned before with
    | (.quoted, depth) => (if c = '\'' then .code else .quoted, depth)
    | (.strBody, depth) => (if c = ')' then .code else .strBody, depth)
    | (.code, depth) =>
      if c = '\'' then (.quoted, depth)
      else if c = '(' then if opensStr before then (.strBody, depth) else (.code, depth + 1)
      else if c = ')' then (.code, depth - 1)
      else (.code, depth)

section Guard

variable {b s expr v t : List Char} {d m : ℕ}

theorem scanned_quoted (h : scanned b = (.quoted, d)) (c : Char) :
    scanned (c :: b) = (if c = '\'' then .code else .quoted, d) := by
  rw [scanned, h]

theorem scanned_strBody (h : scanned b = (.strBody, d)) (c : Char) :
    scanned (c :: b) = (if c = ')' then .code else .strBody, d) := by
  rw [scanned, h]

theorem scanned_code (h : scanned b = (.code, d)) (c : Char) :
    scanned (c :: b) = if c = '\'' then (.quoted, d)
      else if c = '(' then if opensStr b then (.strBody, d) else (.code, d + 1)
      else if c = ')' then (.code, d - 1)
      else (.code, d) := by
  rw [scanned, h]

/-- A text that passes the guard is nested no deeper than the limit anywhere, as the loop
counts.  The loop returns early when it passes the limit, so the maximum it has seen bounds
the depth at every place. -/
theorem depth_le_of_scan_le {mode : ScanMode} (hstate : scanned b = (mode, d))
    (hd : d ≤ maxExpressionDepth) (hm : m ≤ maxExpressionDepth)
    (h : scan mode b d m s ≤ maxExpressionDepth) (hs : s = t ++ v) :
    (scanned (t.reverse ++ b)).2 ≤ maxExpressionDepth := by
  induction s generalizing mode b d m t with
  | nil =>
    rw [(append_eq_nil_iff.mp hs.symm).1]
    exact hstate ▸ hd
  | cons c s ih =>
    cases t with
    | nil => exact hstate ▸ hd
    | cons c' t =>
      obtain ⟨rfl, htail⟩ := cons.inj hs
      rw [reverse_cons, append_assoc]
      cases mode with
      | quoted => exact ih (scanned_quoted hstate c) hd hm h htail
      | strBody => exact ih (scanned_strBody hstate c) hd hm h htail
      | code =>
        have hnext := scanned_code hstate c
        rw [scan] at h
        split at h
        next hquote => exact ih (hnext.trans (if_pos hquote)) hd hm h htail
        next hquote =>
          rw [if_neg hquote] at hnext
          split at h
          next hopen =>
            rw [if_pos hopen] at hnext
            split at h
            next hstr => exact ih (hnext.trans (if_pos hstr)) hd hm h htail
            next hstr =>
              have hdeeper := hnext.trans (if_neg hstr)
              split at h
              next =>
                split at h
                next hlimit => exact absurd h (Nat.not_le.mpr hlimit)
                next hlimit =>
                  have hlimit := Nat.le_of_not_lt hlimit
                  exact ih hdeeper hlimit hlimit h htail
              next hmax => exact ih hdeeper ((Nat.le_of_not_lt hmax).trans hm) hm h htail
          next hopen =>
            rw [if_neg hopen] at hnext
            split at h
            next hclose =>
              exact ih (hnext.trans (if_pos hclose)) ((Nat.sub_le d 1).trans hd) hm h htail
            next hclose => exact ih (hnext.trans (if_neg hclose)) hd hm h htail

theorem depth_le_of_maxParenDepth_le (h : maxParenDepth expr ≤ maxExpressionDepth)
    (hexpr : b.reverse ++ s = expr) : (scanned b).2 ≤ maxExpressionDepth := by
  have := depth_le_of_scan_le (b := []) rfl (Nat.zero_le _) (Nat.zero_le _) h hexpr.symm
  rwa [reverse_reverse, append_nil] at this

end Guard

/-! ## Readings of a text -/

/-- Characters that neither quote nor nest. -/
def Plain (c : Char) : Prop := c ≠ '\'' ∧ c ≠ '(' ∧ c ≠ ')'

instance (c : Char) : Decidable (Plain c) := inferInstanceAs (Decidable (_ ∧ _))

/-- The grammar takes the front of the text for `str(...)`: blanks may stand before the
parenthesis, and the text behind it closes and is not empty. -/
def opensLiteral : List Char → Bool
  | 's' :: 't' :: 'r' :: s =>
    match s.dropWhile isSpace with
    | '(' :: c :: u => c != ')' && u.contains ')'
    | _ => false
  | _ => false

/-- A letter here starts a word, and the word an operand. -/
def startsWord : (before : List Char) → Bool
  | [] => true
  | c :: _ => isSpace c || ['(', ',', '=', '<', '>', '&', '|'].contains c

/-- What opens a literal, which the grammar takes as a whole, and the character that closes it:
a quote, a parenthesis behind `str` and blanks, and one behind `nan`. -/
inductive Opens (before : List Char) : (opening : List Char) → (stop : Char) → Prop
  | quote : Opens before ['\''] '\''
  | str {blanks : List Char} : (∀ c ∈ blanks, isSpace c = true) →
      Opens before ("str".toList ++ blanks ++ ['(']) ')'
  | nan : (before.take 3).map Char.toLower = "nan".toList → Opens before ['('] ')'

/-- A place the grammar may come to in the text, and the parentheses open there.  A `str` that
starts a word and opens a literal is never read as a name. -/
inductive ReadsTo (expr : List Char) : (before rest : List Char) → (depth : ℕ) → Prop
  | start : ReadsTo expr [] expr 0
  | plain {b s : List Char} {c : Char} {d : ℕ} : ReadsTo expr b (c :: s) d → Plain c →
      (startsWord b = true → opensLiteral (c :: s) = false) → ReadsTo expr (c :: b) s d
  | opens {b s : List Char} {d : ℕ} :
      ReadsTo expr b ('(' :: s) d → ReadsTo expr ('(' :: b) s (d + 1)
  | closes {b s : List Char} {d : ℕ} :
      ReadsTo expr b (')' :: s) (d + 1) → ReadsTo expr (')' :: b) s d
  | literal {b s w u : List Char} {stop : Char} {d : ℕ} :
      ReadsTo expr b (w ++ u ++ stop :: s) d → Opens b w stop → stop ∉ u →
        ReadsTo expr (stop :: (w ++ u).reverse ++ b) s d

/-- The grammar may nest beyond the limit at a place where the guard has counted less. -/
def HidesNesting (expr : List Char) : Prop :=
  ∃ b s d, ReadsTo expr b s d ∧ maxExpressionDepth < d ∧ (scanned b).2 < d

variable {expr : List Char} {d n : ℕ}

section Readings

variable {b s : List Char} {c : Char}

theorem reverse_cons_append (h : b.reverse ++ c :: s = expr) : (c :: b).reverse ++ s = expr := by
  rw [reverse_cons, append_assoc]
  exact h

theorem ReadsTo.text (h : ReadsTo expr b s d) : b.reverse ++ s = expr := by
  induction h with
  | start => rfl
  | plain _ _ _ ih => exact reverse_cons_append ih
  | opens _ ih => exact reverse_cons_append ih
  | closes _ ih => exact reverse_cons_append ih
  | literal _ _ _ ih => simpa using ih

theorem ReadsTo.depth_le_count (h : ReadsTo expr b s d) : d ≤ b.count '(' := by
  induction h with
  | start => exact le_rfl
  | plain _ _ _ ih => exact ih.trans count_le_count_cons
  | opens _ ih =>
    rw [count_cons_self]
    exact succ_le_succ ih
  | closes _ ih => exact (le_succ _).trans (ih.trans count_le_count_cons)
  | literal _ _ _ ih =>
    rw [count_append]
    exact ih.trans (Nat.le_add_left _ _)

theorem not_hidesNesting_of_count_le (h : expr.count '(' ≤ maxExpressionDepth) :
    ¬ HidesNesting expr := by
  rintro ⟨b, s, d, hreads, hdeep, -⟩
  have hcount := hreads.depth_le_count
  rw [← hreads.text, count_append, count_reverse] at h
  omega

/-- Where no nesting is hidden, a text that passes the guard is nowhere read as nested beyond
the limit. -/
theorem ReadsTo.depth_le (h : ReadsTo expr b s d) (hhidden : ¬ HidesNesting expr)
    (hguard : maxParenDepth expr ≤ maxExpressionDepth) : d ≤ maxExpressionDepth := by
  by_contra hdeep
  have hcounted := depth_le_of_maxParenDepth_le hguard h.text
  exact hhidden ⟨b, s, d, h, by omega, by omega⟩

theorem opensLiteral_of_ne (hc : c ≠ 's') : opensLiteral (c :: s) = false := by
  unfold opensLiteral
  split
  next heq => exact absurd (cons.inj heq).1 hc
  next => rfl

end Readings

/-! ## Places -/

/-- What the grammar may record: no rule is entered beyond the limit, and the recursion is
never cut off. -/
def Event.Bounded : Event → Prop
  | .enter level => level ≤ maxExpressionDepth
  | .message _ => True
  | .exhausted => False

/-- A place read at depth `d`, with at most `n` characters to come. -/
structure At (expr : List Char) (d n : ℕ) (b s : List Char) : Prop where
  reads : ReadsTo expr b s d
  length : s.length ≤ n

structure Mid (expr : List Char) (d n : ℕ) (b s : List Char) : Prop
    extends At expr d n b s where
  mid : startsWord b = false

section Places

variable {b s t : List Char} {c : Char}

theorem At.read (h : At expr d n b (c :: s)) (hc : Plain c) (hs : c ≠ 's') :
    At expr d n (c :: b) s :=
  ⟨h.reads.plain hc fun _ => opensLiteral_of_ne hs, (le_succ _).trans h.length⟩

theorem Mid.read (h : Mid expr d n b (c :: s)) (hc : Plain c) (hmid : startsWord [c] = false) :
    Mid expr d n (c :: b) s :=
  ⟨⟨h.reads.plain hc fun hb => absurd hb (by rw [h.mid]; decide), (le_succ _).trans h.length⟩, hmid⟩

theorem At.open (h : At expr d n b ('(' :: s)) : 0 < n ∧ At expr (d + 1) (n - 1) ('(' :: b) s := by
  have hlength := h.length
  rw [length_cons] at hlength
  exact ⟨by omega, h.reads.opens, by omega⟩

theorem At.close (h : At expr (d + 1) n b (')' :: s)) : At expr d n (')' :: b) s :=
  ⟨h.reads.closes, (le_succ _).trans h.length⟩

theorem At.mono {n' : ℕ} (h : At expr d n b s) (hn : n ≤ n') : At expr d n' b s :=
  ⟨h.reads, h.length.trans hn⟩

/-- Characters that mean nothing to a reading wherever they stand. -/
def Inert (c : Char) : Prop := Plain c ∧ c ≠ 's'

instance (c : Char) : Decidable (Inert c) := inferInstanceAs (Decidable (_ ∧ _))

theorem At.append (h : At expr d n b (t ++ s)) (ht : ∀ c ∈ t, Inert c) :
    At expr d n (t.reverse ++ b) s := by
  induction t generalizing b with
  | nil => exact h
  | cons c t ih =>
    rw [reverse_cons, append_assoc]
    have hc := ht c mem_cons_self
    exact ih (h.read hc.1 hc.2) fun c' hc' => ht c' (mem_cons_of_mem c hc')

theorem inert_of_isSpace (h : isSpace c = true) : Inert c := by
  have hc : c ∈ [' ', '\t', '\n', '\x0b', '\x0c', '\x0d'] := by simpa [isSpace] using h
  fin_cases hc <;> decide

theorem At.space (h : At expr d n b (c :: s)) (hc : isSpace c = true) : At expr d n (c :: b) s :=
  h.read (inert_of_isSpace hc).1 (inert_of_isSpace hc).2

theorem plain_of_isIdent (h : isIdent c = true) : Plain c := by
  refine ⟨?_, ?_, ?_⟩ <;> rintro rfl <;> exact absurd h (by decide)

def separators : List Char :=
  [' ', '\t', '\n', '\x0b', '\x0c', '\x0d', '(', ',', '=', '<', '>', '&', '|']

theorem startsWord_of_not_separator {f : Char → Bool} (hf : separators.all fun c => !f c)
    (h : f c = true) : startsWord [c] = false := by
  rw [Bool.eq_false_iff]
  intro hc
  have hmem : c ∈ separators := by
    simpa [separators, startsWord, isSpace, or_assoc] using hc
  have := all_eq_true.mp hf c hmem
  rw [h] at this
  cases this

theorem startsWord_of_isIdent (h : isIdent c = true) : startsWord [c] = false :=
  startsWord_of_not_separator (by decide) h

end Places

abbrev Stays (expr : List Char) (d n : ℕ) {α : Type} (p : Rule α) : Prop :=
  Moves Event.Bounded (At expr d n) (fun _ => At expr d n) p

/-! ## Tokens -/

section Tokens

variable {α : Type} {P : Place} {Q : α → Place} {p : Rule α} {cs t : List Char}

section

variable (hP : ∀ c b s, isSpace c = true → P b (c :: s) → P (c :: b) s)
include hP

theorem moves_skip : Moves Event.Bounded P (fun _ => P) skip :=
  .of_bind (p := (span isSpace : Rule (List Char))) (f := fun _ => pure ())
    (.of_span hP) fun _ => .of_return

theorem moves_token (hp : Moves Event.Bounded P Q p) : Moves Event.Bounded P Q (token p) :=
  .of_bind (moves_skip hP) fun _ => hp

end

theorem token_congr {s s' : List Char} (h : s.dropWhile isSpace = s'.dropWhile isSpace) :
    token p s = token p s' := by
  have hskip : skip s = skip s' := by rw [skip, skip, h]
  change (skip s >>= fun r => p r.2) = skip s' >>= fun r => p r.2
  rw [hskip]

theorem inert_of_toLower {c : Char} (h : Inert c.toLower) : Inert c := by
  refine ⟨⟨?_, ?_, ?_⟩, ?_⟩ <;> rintro rfl <;> revert h <;> decide

theorem inert_of_all (hall : cs.all fun c => decide (Inert c)) : ∀ c ∈ cs, Inert c :=
  fun c hc => of_decide_eq_true (all_eq_true.mp hall c hc)

/-- A text in any case; what is read of it is known at the end. -/
theorem moves_textNoCase (hall : cs.all fun c => decide (Inert c)) :
    Moves Event.Bounded (At expr d n)
      (fun _ b s => At expr d n b s ∧
        ∃ t b₀ : List Char, t.map Char.toLower = cs ∧ b = t.reverse ++ b₀)
      (text (fun c d => c == d.toLower) cs) := by
  refine .of_text fun t b s ht hat => ?_
  have hmap : t.map Char.toLower = cs := by
    clear hat hall
    induction ht with
    | nil => rfl
    | cons h _ ih => rw [map_cons, ih, ← eq_of_beq h]
  refine ⟨hat.append fun c hc => inert_of_toLower ?_, t, b, hmap, rfl⟩
  exact inert_of_all hall _ (hmap ▸ mem_map_of_mem hc)

theorem eq_of_forall₂_beq (h : List.Forall₂ (fun c d => (c == d) = true) cs t) : t = cs := by
  induction h with
  | nil => rfl
  | cons h _ ih => rw [ih, eq_of_beq h]

theorem moves_lit (k : String) (hall : k.toList.all fun c => decide (Inert c)) :
    Stays expr d n (lit k) := by
  refine moves_token (fun c b s hc h => h.space hc) (.of_text fun t b s ht hat => ?_)
  rw [eq_of_forall₂_beq ht] at hat ⊢
  exact hat.append (inert_of_all hall)

theorem moves_litNoCase (k : String) (hall : k.toList.all fun c => decide (Inert c)) :
    Stays expr d n (litNoCase k) :=
  moves_token (fun _ _ _ hc h => h.space hc)
    ((moves_textNoCase hall).mono (fun _ _ h => h) fun _ _ _ h => h.1)

theorem moves_open :
    Moves Event.Bounded (At expr d n) (fun _ b s => 0 < n ∧ At expr (d + 1) (n - 1) b s)
      (lit "(") := by
  refine moves_token (fun c b s hc h => h.space hc) (.of_text fun t b s ht h => ?_)
  rw [eq_of_forall₂_beq ht] at h ⊢
  exact h.open

theorem moves_close :
    Moves Event.Bounded (At expr (d + 1) n) (fun _ => At expr d n) (lit ")") := by
  refine moves_token (fun c b s hc h => h.space hc) (.of_text fun t b s ht h => ?_)
  rw [eq_of_forall₂_beq ht] at h ⊢
  exact h.close

end Tokens

/-! ## Operators -/

section Operators

variable {α : Type} {P : Place} {Q : α → Place}

theorem moves_choice {ps : List (Rule α)} (h : ∀ p ∈ ps, Moves Event.Bounded P Q p) :
    Moves Event.Bounded P Q (choice ps) := by
  induction ps with
  | nil => exact .of_fail
  | cons p ps ih =>
    exact .of_orElse (h p mem_cons_self) (ih fun q hq => h q (mem_cons_of_mem p hq))

theorem moves_operator {p : Rule Unit} (o : Operator) (hp : Stays expr d n p) :
    Stays expr d n (operator p o) :=
  .of_bind hp fun _ => .of_return

theorem moves_op : Stays expr d n op := by
  refine moves_choice ?_
  simp only [forall_mem_cons]
  refine ⟨?_, ?_, ?_, ?_, ?_, ?_, ?_, ?_, ?_, ?_, ?_, ?_, ?_, ?_, ?_, ?_, forall_mem_nil _⟩
  iterate 6 exact moves_operator _ (moves_lit _ rfl)
  all_goals exact moves_operator _ (moves_litNoCase _ rfl)

theorem moves_bitop : Stays expr d n bitop := by
  refine moves_choice ?_
  simp only [forall_mem_cons]
  refine ⟨?_, ?_, forall_mem_nil _⟩
  all_goals exact moves_operator _ (moves_lit _ rfl)

end Operators

/-! ## Literals -/

section Literals

/-- Inside a literal that `stop` will close. -/
def Inside (expr : List Char) (d n : ℕ) (stop : Char) (b s : List Char) : Prop :=
  ∃ b₀ w u, Opens b₀ w stop ∧ stop ∉ u ∧ b = (w ++ u).reverse ++ b₀ ∧
    At expr d n b₀ (w ++ u ++ s)

variable {stop c : Char} {b s w : List Char}

theorem Inside.of_at (h : At expr d n b (w ++ s)) (hw : Opens b w stop) :
    Inside expr d n stop (w.reverse ++ b) s :=
  ⟨b, w, [], hw, not_mem_nil, by rw [append_nil], by rwa [append_nil]⟩

theorem Inside.read (h : Inside expr d n stop b (c :: s)) (hc : (c != stop) = true) :
    Inside expr d n stop (c :: b) s := by
  obtain ⟨b₀, w, u, hw, hu, rfl, hat⟩ := h
  refine ⟨b₀, w, u ++ [c], hw, ?_, by simp, by simpa using hat⟩
  rw [mem_append, mem_singleton, not_or]
  exact ⟨hu, (bne_iff_ne.mp hc).symm⟩

theorem Inside.close (h : Inside expr d n stop b (stop :: s)) : At expr d n (stop :: b) s := by
  obtain ⟨b₀, w, u, hw, hu, rfl, hat⟩ := h
  have hlength := hat.length
  rw [length_append, length_cons] at hlength
  exact ⟨hat.reads.literal hw hu, by omega⟩

/-- The rest of a literal, from behind its opening. -/
theorem moves_body {α : Type} {Q : α → Place} {f : List Char → Rule α}
    (hstop : startsWord [stop] = false)
    (hf : ∀ cs, Moves Event.Bounded (Mid expr d n) Q (f cs)) :
    Moves Event.Bounded (Inside expr d n stop) Q
      (do
        let cs ← span (· != stop)
        let _ ← satisfy (· == stop)
        f cs) := by
  refine .of_bind (.of_span fun c b s hc h => h.read hc) fun cs =>
    .of_bind (.of_satisfy fun c b s hc h => ?_) fun _ => hf cs
  rw [eq_of_beq hc] at h ⊢
  exact ⟨h.close, hstop⟩

theorem moves_stringLiteral : Stays expr d n stringLiteral := by
  refine moves_token (fun c b s hc h => h.space hc) (.of_bind (.of_satisfy fun c b s hc h => ?_)
    fun _ => moves_body rfl fun _ => .of_pure fun _ _ h => h.toAt)
  rw [eq_of_beq hc] at h ⊢
  exact .of_at (w := ['\'']) h .quote

def BehindStr (expr : List Char) (d n : ℕ) (b s : List Char) : Prop :=
  ∃ b₀ blanks, (∀ c ∈ blanks, isSpace c = true) ∧ b = ("str".toList ++ blanks).reverse ++ b₀ ∧
    At expr d n b₀ ("str".toList ++ blanks ++ s)

theorem BehindStr.space (h : BehindStr expr d n b (c :: s)) (hc : isSpace c = true) :
    BehindStr expr d n (c :: b) s := by
  obtain ⟨b₀, blanks, hblanks, rfl, hat⟩ := h
  refine ⟨b₀, blanks ++ [c], ?_, by simp, by simpa using hat⟩
  rw [forall_mem_append, forall_mem_singleton]
  exact ⟨hblanks, hc⟩

def strLiteral {Obj : Type} : Rule (Node Obj) := do
  lit "str"
  let v ← stringLiteralEx
  return .createString v

theorem moves_strLiteral {Obj : Type} : Stays expr d n (strLiteral : Rule (Node Obj)) := by
  refine .of_bind (Q := fun _ => BehindStr expr d n) ?_ fun _ =>
    .of_bind (Q := fun _ => At expr d n) ?_ fun _ => .of_return
  · refine moves_token (fun c b s hc h => h.space hc) (.of_text fun t b s ht h => ?_)
    rw [eq_of_forall₂_beq ht] at h ⊢
    exact ⟨b, [], forall_mem_nil _, rfl, h⟩
  · refine moves_token (fun c b s hc h => h.space hc)
      (.of_bind (Q := fun _ => Inside expr d n ')') (.of_satisfy fun c b s hc h => ?_) fun _ =>
        .of_bind (.of_satisfy fun c b s hc h => h.read hc) fun c =>
          moves_body rfl fun _ => .of_pure fun _ _ h => h.toAt)
    rw [eq_of_beq hc] at h ⊢
    obtain ⟨b₀, blanks, hblanks, rfl, hat⟩ := h
    simpa using Inside.of_at (b := b₀) (by simpa using hat) (.str hblanks)

end Literals

/-! ## Names -/

section Names

variable {Obj : Type}

theorem stringLiteralEx_ok {c : Char} {body rest : List Char} (hc : c ≠ ')') (hbody : ')' ∉ body) :
    stringLiteralEx ('(' :: c :: (body ++ ')' :: rest)) =
      pure (String.ofList (c :: body), rest) := by
  have htext : ∀ x ∈ body, (x != ')') = true := fun x hx =>
    bne_iff_ne.mpr fun heq => hbody (heq ▸ hx)
  have hspan : (span (· != ')') : Rule (List Char)) (body ++ ')' :: rest) =
      pure (body, ')' :: rest) := by
    rw [span, takeWhile_append_of_pos htext, dropWhile_append_of_pos htext]
    simp
  have hfirst : (satisfy (· != ')') : Rule Char) (c :: (body ++ ')' :: rest)) =
      pure (c, body ++ ')' :: rest) := by
    rw [satisfy, if_pos (bne_iff_ne.mpr hc)]
  change ((satisfy (· != ')') : Rule Char) (c :: (body ++ ')' :: rest)) >>= _) = _
  rw [hfirst, Logged.pure_bind]
  change ((span (· != ')') : Rule (List Char)) (body ++ ')' :: rest) >>= _) = _
  rw [hspan]
  rfl

/-- Where a literal opens, the first alternative succeeds, so no other one is tried. -/
theorem strLiteral_ok (Obj : Type) {s : List Char} (h : opensLiteral s = true) :
    ∃ r, (strLiteral s : Logged Unit Event (Node Obj × List Char)).result = .ok r := by
  unfold opensLiteral at h
  split at h
  next v =>
    split at h
    next c u hv =>
      rw [Bool.and_eq_true, bne_iff_ne, contains_iff_mem] at h
      obtain ⟨body, rest, rfl, hbody⟩ := eq_append_cons_of_mem h.2
      have hv' : v.dropWhile isSpace =
          ('(' :: c :: (body ++ ')' :: rest)).dropWhile isSpace := hv
      refine ⟨(.createString (String.ofList (c :: body)), rest), ?_⟩
      change (stringLiteralEx v >>= _).result = _
      rw [show stringLiteralEx v = _ from token_congr hv', ← stringLiteralEx,
        stringLiteralEx_ok h.1 hbody]
      rfl
    next => cases h
  next => cases h

theorem moves_variableName :
    Moves Event.Bounded
      (fun b s => At expr d n b s ∧
        (strLiteral s : Logged Unit Event (Node Obj × List Char)).result = .error ())
      (fun _ => At expr d n) variableName := by
  refine moves_token (fun c b s hc h => ⟨h.1.space hc, ?_⟩) ?_
  · have hsame : (c :: s).dropWhile isSpace = s.dropWhile isSpace := by
      rw [dropWhile_cons, if_pos hc]
    have hlit : lit "str" (c :: s) = lit "str" s := token_congr hsame
    have hfailed := h.2
    change (lit "str" (c :: s) >>= _).result = _ at hfailed
    rw [hlit] at hfailed
    exact hfailed
  have hident : ∀ c b s, isIdent c = true → Mid expr d n b (c :: s) → Mid expr d n (c :: b) s :=
    fun c b s hc h => h.read (plain_of_isIdent hc) (startsWord_of_isIdent hc)
  refine .of_bind (Q := fun _ => Mid expr d n) (.of_satisfy fun c b s hc h => ?_) fun _ =>
    .of_bind (Q := fun _ => Mid expr d n) (.of_span hident) fun _ => .of_pure fun _ _ h => h.toAt
  have hc : isIdent c = true := by
    rw [isIdent, Char.isAlphanum, hc]
    rfl
  refine ⟨⟨h.1.reads.plain (plain_of_isIdent hc) fun _ => ?_, (le_succ _).trans h.1.length⟩,
    startsWord_of_isIdent hc⟩
  rw [Bool.eq_false_iff]
  intro hopens
  obtain ⟨r, hr⟩ := strLiteral_ok Obj hopens
  exact absurd (h.2.symm.trans hr) (by simp)

end Names

/-! ## Numbers -/

section Numbers

def isNumeric (c : Char) : Bool := c.isDigit || ['+', '-', '.', 'e', 'E'].contains c

theorem inert_of_isNumeric {c : Char} (h : isNumeric c = true) :
    Inert c ∧ startsWord [c] = false := by
  rw [isNumeric, Bool.or_eq_true] at h
  rcases h with h | h
  · have hident : isIdent c = true := by
      rw [isIdent, Char.isAlphanum, h]
      simp
    refine ⟨⟨plain_of_isIdent hident, ?_⟩, startsWord_of_isIdent hident⟩
    rintro rfl
    exact absurd h (by decide)
  · have hmem : c ∈ ['+', '-', '.', 'e', 'E'] := by simpa using h
    fin_cases hmem <;> decide

section

variable {P : Place} (hP : ∀ c b s, isNumeric c = true → P b (c :: s) → P (c :: b) s)
include hP

theorem moves_sign : Moves Event.Bounded P (fun _ => P) sign := by
  have hsign : ∀ (x : Char) (a : Bool), isNumeric x = true →
      Moves Event.Bounded P (fun _ => P) (satisfy (· == x) >>= fun _ => pure a) := fun x a hx =>
    .of_bind (.of_satisfy fun c b s hc h => hP c b s (eq_of_beq hc ▸ hx) h) fun _ => .of_return
  exact .of_orElse (hsign '-' true rfl) (.of_orElse (hsign '+' false rfl) .of_return)

theorem moves_digits : Moves Event.Bounded P (fun _ => P) (span Char.isDigit) :=
  .of_span fun c b s hc h => hP c b s (by rw [isNumeric, hc]; rfl) h

theorem moves_exponent : Moves Event.Bounded P (fun _ => P) exponent := by
  refine .of_orElse (.of_bind (.of_satisfy fun c b s hc h => hP c b s ?_ h) fun _ =>
    .of_bind (moves_sign hP) fun _ => .of_bind (moves_digits hP) fun _ =>
      .of_ite .of_return .of_fail) fun b s h => ?_
  · rcases Bool.or_eq_true_iff.mp hc with hc | hc
    all_goals
      rw [eq_of_beq hc]
      rfl
  · split
    all_goals exact .of_pure ⟨[], rfl, h⟩

end

theorem At.numeric (c : Char) (b s : List Char) (hc : isNumeric c = true)
    (h : At expr d n b (c :: s)) : Mid expr d n (c :: b) s :=
  have hinert := inert_of_isNumeric hc
  ⟨h.read hinert.1.1 hinert.1.2, hinert.2⟩

theorem Mid.numeric (c : Char) (b s : List Char) (hc : isNumeric c = true)
    (h : Mid expr d n b (c :: s)) : Mid expr d n (c :: b) s := h.toAt.numeric c b s hc

/-- Digits that are there end a number. -/
theorem moves_number :
    Moves Event.Bounded (At expr d n)
      (fun cs b s => At expr d n b s ∧ (cs ≠ [] → Mid expr d n b s)) (span Char.isDigit) := by
  intro b s h
  have hdigit : ∀ c, c.isDigit = true → isNumeric c = true := fun c hc => by
    rw [isNumeric, hc]
    rfl
  refine .of_pure ⟨_, takeWhile_append_dropWhile.symm,
    place_span (fun c b s hc h => (At.numeric c b s (hdigit c hc) h).toAt) h, fun hne => ?_⟩
  cases s with
  | nil => exact absurd rfl hne
  | cons c s =>
    rw [takeWhile_cons] at hne
    split at hne
    next hc =>
      have := place_span (fun c b s hc h => Mid.numeric c b s (hdigit c hc) h)
        (h.numeric c b s (hdigit c hc))
      rw [takeWhile_cons, dropWhile_cons, if_pos hc, reverse_cons, append_assoc]
      simpa [hc] using this
    next => exact absurd rfl hne

abbrev Numbers (expr : List Char) (d n : ℕ) {α : Type} (p : Rule α) : Prop :=
  Moves Event.Bounded (At expr d n) (fun _ => Mid expr d n) p

theorem moves_longLong : Numbers expr d n longLong := by
  have hvalue : ∀ (cs : List Char) (v : ℤ),
      Moves Event.Bounded (fun b s => At expr d n b s ∧ (cs ≠ [] → Mid expr d n b s))
        (fun _ => Mid expr d n) (if cs ≠ [] ∧ Number.inInt64 v then pure v else fail) := by
    intro cs v
    split
    next hne => exact .of_pure fun _ _ h => h.2 hne.1
    next => exact .of_fail
  exact .of_bind (moves_sign fun c b s hc h => (At.numeric c b s hc h).toAt) fun _ =>
    .of_bind moves_number fun cs => hvalue cs _

theorem startsWord_of_word {cs t b : List Char} (ht : t.map Char.toLower = cs)
    (hlast : cs.getLast?.any fun c => isIdent c) : startsWord (t.reverse ++ b) = false := by
  subst ht
  rw [getLast?_map, ← head?_reverse] at hlast
  cases hhead : t.reverse with
  | nil => simp [hhead] at hlast
  | cons c u =>
    rw [hhead] at hlast
    exact startsWord_of_not_separator (c := c) (f := fun c => isIdent c.toLower) (by decide) hlast

/-- A word of a number, in any case. -/
theorem moves_word (cs : List Char) (hall : cs.all fun c => decide (Inert c))
    (hlast : cs.getLast?.any fun c => isIdent c) :
    Numbers expr d n (text (fun c d => c == d.toLower) cs) :=
  (moves_textNoCase hall).mono (fun _ _ h => h) fun _ _ _ ⟨hat, _, _, ht, hb⟩ =>
    ⟨hat, hb ▸ startsWord_of_word ht hlast⟩

theorem moves_inf : Numbers expr d n inf :=
  .of_bind (moves_word _ rfl rfl) fun _ => .of_bind
    (.of_orElse ((moves_word _ rfl rfl).weaken fun _ _ h => h.toAt) .of_return)
    fun _ => .of_return

theorem moves_scaled {P : Place} (host : Host) (digits : List Char) (e : ℤ) :
    Moves Event.Bounded P (fun _ => P) (scaled host digits e) := by
  rw [scaled]
  split
  · exact .of_return
  · exact .of_fail

theorem moves_decimal (host : Host) : Numbers expr d n (decimal host) := by
  refine .of_bind moves_number fun whole => .of_orElse ?_ ?_
  · refine .of_bind (.of_satisfy fun c b s hc h => ?_) fun _ =>
      .of_bind (moves_digits Mid.numeric) fun frac => .of_ite .of_fail
        (.of_bind (moves_exponent Mid.numeric) fun e => moves_scaled host _ _)
    exact At.numeric c b s (by rw [eq_of_beq hc]; rfl) h.1
  · split
    next => exact .of_fail
    next hne =>
      refine Moves.weaken (P := Mid expr d n) ?_ fun _ _ h => h.2 hne
      refine .of_bind (moves_exponent Mid.numeric) fun e => ?_
      cases e with
      | none => exact .of_fail
      | some e => exact moves_scaled host whole e

theorem moves_unit : Moves Event.Bounded (Mid expr d n) (fun _ => At expr d n) unit := by
  refine .of_bind (Q := fun _ => At expr d n) (.of_satisfy fun c b s hc h => ?_) fun _ => .of_return
  have hplain : Plain c := by
    refine ⟨?_, ?_, ?_⟩ <;> rintro rfl <;> exact absurd hc (by decide)
  refine ⟨h.reads.plain hplain fun hb => ?_, (le_succ _).trans h.length⟩
  rw [h.mid] at hb
  cases hb

theorem moves_nan : Numbers expr d n nan := by
  refine .of_bind (Q := fun _ b s => Mid expr d n b s ∧ (b.take 3).map Char.toLower = "nan".toList)
    ((moves_textNoCase rfl).mono (fun _ _ h => h) fun _ b s ⟨hat, t, b₀, ht, hb⟩ => ?_) fun _ =>
      .of_orElse (.of_bind (.of_satisfy fun c b s hc h => ?_) fun _ =>
        moves_body rfl fun _ => .of_return) fun b s h => ?_
  · subst hb
    have hlength : t.reverse.length = 3 := by simpa using congrArg length ht
    refine ⟨⟨hat, startsWord_of_word ht rfl⟩, ?_⟩
    rw [← hlength, take_left, map_reverse, ht]
    rfl
  · rw [eq_of_beq hc] at h ⊢
    exact .of_at (w := ['(']) h.1.toAt (.nan h.2)
  · split
    · exact .of_raise
    · exact .of_pure ⟨[], rfl, h.1⟩

theorem moves_real (host : Host) : Numbers expr d n (real host) :=
  .of_bind (moves_sign fun c b s hc h => (At.numeric c b s hc h).toAt) fun _ =>
    .of_bind (.of_orElse moves_nan (.of_orElse moves_inf (moves_decimal host))) fun _ => .of_return

end Numbers

/-! ## Expressions -/

section Expressions

variable {Obj α : Type} (factory : Factory Obj) {level : ℕ}

theorem moves_call {P : Place} (x : Eval α) : Moves Event.Bounded P (fun _ => P) (call x) := by
  intro b s hP
  have hlog : ∀ e ∈ x.log.map message, e.Bounded := by
    intro e he
    obtain ⟨m, -, rfl⟩ := mem_map.mp he
    trivial
  rw [call]
  split
  · refine ⟨hlog, fun r hr => ?_⟩
    cases hr
    exact ⟨[], rfl, hP⟩
  · exact ⟨hlog, fun r hr => by cases hr⟩

theorem moves_parens {p : Rule α} (hp : 0 < n → Stays expr (d + 1) (n - 1) p) {β : Type}
    {f : α → Rule β} (hf : ∀ a, Stays expr d n (f a)) :
    Stays expr d n
      (do
        lit "("
        let a ← p
        lit ")"
        f a) := by
  refine .of_bind moves_open fun _ => .of_bind (Q := fun _ b s => At expr (d + 1) n b s) ?_ fun a =>
    .of_bind moves_close fun _ => hf a
  exact fun b s h => (hp h.1 b s h.2).mono fun r ⟨t, ht, hr⟩ => ⟨t, ht, hr.mono (sub_le n 1)⟩

theorem moves_identifierBody {arguments : Rule (Node Obj)}
    (harguments : 0 < n → Stays expr (d + 1) (n - 1) arguments) :
    Stays expr d n (identifierBody factory arguments) := by
  have hname : ∀ {β : Type} {f : String → Rule β}, (∀ name, Stays expr d n (f name)) →
      Moves Event.Bounded (fun b s => At expr d n b s ∧
        (strLiteral s : Logged Unit Event (Node Obj × List Char)).result = .error ())
        (fun _ => At expr d n) (variableName >>= f) := fun hf =>
    .of_bind moves_variableName hf
  have hunit : ∀ {β : Type} {p : Rule β} (g : β → String → Node Obj), Numbers expr d n p →
      Stays expr d n (token do
        let v ← p
        let u ← unit
        return g v u) := fun g hp =>
    moves_token (fun c b s hc h => h.space hc) (.of_bind hp fun _ =>
      .of_bind moves_unit fun _ => .of_return)
  have hnumber : ∀ {β : Type} {p : Rule β} (g : β → Node Obj), Numbers expr d n p →
      Stays expr d n (token (p >>= fun v => pure (g v))) := fun g hp =>
    moves_token (fun c b s hc h => h.space hc) (.of_bind hp fun _ => .of_pure fun _ _ h => h.toAt)
  refine .of_orElse_of_failed (p := strLiteral) moves_strLiteral
    (.of_orElse ?_ (.of_orElse ?_ (.of_orElse ?_ ?_)))
  · exact hname fun name => moves_parens harguments fun _ => moves_call _
  · refine hname fun name => .of_bind moves_open fun _ =>
      .of_bind (Q := fun _ => At expr d n) ?_ fun _ => moves_call _
    exact moves_close.weaken fun _ _ h => h.2.mono (sub_le n 1)
  · exact hname fun name => moves_call _
  · refine Moves.mono (P := At expr d n) (moves_choice ?_) (fun _ _ h => h.1) fun _ _ _ h => h
    simp only [forall_mem_cons]
    refine ⟨?_, ?_, ?_, ?_, ?_, forall_mem_nil _⟩
    · exact .of_bind moves_stringLiteral fun _ => .of_return
    · exact hunit _ (moves_real factory.host)
    · exact hunit _ moves_longLong
    · exact hnumber _ (moves_real factory.host)
    · exact hnumber _ moves_longLong

theorem moves_identifierExpr {ident : Rule (Node Obj)}
    (hident : ∀ d' n', d ≤ d' → n' ≤ n → Stays expr d' n' ident) :
    Stays expr d n (identifierExpr ident) := by
  have hhere := hident d n le_rfl le_rfl
  have hdeeper := hident (d + 1) (n - 1) (le_succ d) (sub_le n 1)
  refine .of_orElse ?_ (.of_orElse ?_ (.of_orElse hhere .of_fail))
  · exact .of_bind hhere fun _ => .of_bind moves_bitop fun _ => .of_bind hhere fun _ =>
      .of_return
  · refine .of_bind moves_open fun _ => .of_bind (hdeeper.weaken fun _ _ h => h.2) fun _ => ?_
    exact .of_bind moves_bitop fun _ => .of_bind hdeeper fun _ => .of_bind moves_close fun _ =>
      .of_pure fun _ _ h => h.mono (sub_le n 1)

theorem moves_condExpr {ident list nested : Rule (Node Obj)}
    (hident : ∀ d' n', d ≤ d' → n' ≤ n → Stays expr d' n' ident)
    (hlist : 0 < n → Stays expr (d + 1) (n - 1) list)
    (hnested : 0 < n → Stays expr (d + 1) (n - 1) nested) :
    Stays expr d n (condExpr ident list nested) := by
  have hoperand := moves_identifierExpr hident
  refine .of_orElse ?_ (.of_orElse ?_ (.of_orElse ?_ (.of_orElse ?_
    (.of_orElse hoperand .of_fail))))
  · exact .of_bind hoperand fun _ => .of_bind moves_op fun _ => .of_bind hoperand fun _ =>
      .of_return
  · exact .of_bind hoperand fun _ => .of_bind (moves_litNoCase "not in" rfl) fun _ =>
      moves_parens hlist fun _ => .of_return
  · exact .of_bind hoperand fun _ => .of_bind (moves_litNoCase "in" rfl) fun _ =>
      moves_parens hlist fun _ => .of_return
  · exact moves_parens hnested fun _ => .of_return

theorem moves_notExpr {cond : Rule (Node Obj)} (hcond : Stays expr d n cond) :
    Stays expr d n (notExpr cond) :=
  .of_orElse (.of_bind (moves_litNoCase "not" rfl) fun _ => .of_bind hcond fun _ => .of_return)
    hcond

theorem moves_chain {keyword : String} (o : Operator) {operand : Rule (Node Obj)}
    (hall : keyword.toList.all fun c => decide (Inert c)) (hoperand : Stays expr d n operand) :
    Stays expr d n (chain keyword o operand) :=
  .of_bind hoperand fun _ =>
    .of_many (.of_bind (moves_litNoCase keyword hall) fun _ => hoperand) _

variable (hdepth : ∀ b s d, ReadsTo expr b s d → d ≤ maxExpressionDepth)
include hdepth

theorem At.bounded {b s : List Char} (h : At expr d n b s) (hlevel : level ≤ d) :
    (enter level).Bounded :=
  hlevel.trans (hdepth b s d h.reads)

theorem moves_listExpr {item : Rule (Node Obj)} (hlevel : level ≤ d) (hitem : Stays expr d n item) :
    Stays expr d n (listExpr item level) :=
  .of_bind (.of_record fun _ _ h => h.bounded hdepth hlevel) fun _ => .of_bind hitem fun _ =>
    .of_bind (.of_many (.of_bind (moves_lit "," rfl) fun _ => hitem) _) fun _ => .of_return

theorem moves_identifier (fuel : ℕ) (hlevel : level ≤ d) (hfuel : n < fuel) :
    Stays expr d n (identifier factory fuel level) := by
  induction fuel generalizing level d n with
  | zero => exact absurd hfuel (not_lt_zero n)
  | succ fuel ih =>
    exact moves_identifierBody factory fun hn =>
      moves_listExpr hdepth (succ_le_succ hlevel) (ih (succ_le_succ hlevel) (by omega))

/-- The rules nest only behind a parenthesis, which is one character of the text, so the fuel
outlasts the text and the depth keeps up with the level. -/
theorem moves_expression (fuel : ℕ) (hlevel : level ≤ d) (hfuel : n < fuel) :
    Stays expr d n (expression factory fuel level) := by
  induction fuel generalizing level d n with
  | zero => exact absurd hfuel (not_lt_zero n)
  | succ fuel ih =>
    have hlevel' := succ_le_succ hlevel
    refine .of_bind (.of_record fun b s h => h.bounded hdepth hlevel) fun _ =>
      moves_chain _ rfl (moves_chain _ rfl (moves_notExpr (moves_condExpr ?_ ?_ ?_)))
    · exact fun d' n' hd hn => moves_identifier factory hdepth (fuel + 1)
        (hlevel.trans hd) (hn.trans_lt hfuel)
    · exact fun hn => moves_listExpr hdepth hlevel'
        (moves_identifier factory hdepth fuel hlevel' (by omega))
    · exact fun hn => ih hlevel' (by omega)

end Expressions

/-! ## The guard -/

theorem bounded_of_mem_trace {Obj : Type} (factory : Factory Obj) (h : ¬ HidesNesting expr) :
    ∀ e ∈ (parse factory expr).trace, e.Bounded := by
  rw [parse]
  split
  next => exact forall_mem_nil _
  next =>
    split
    next => exact forall_mem_nil _
    next hguard =>
      have hdepth : ∀ b s d, ReadsTo expr b s d → d ≤ maxExpressionDepth :=
        fun b s d hreads => hreads.depth_le h (Nat.le_of_not_lt hguard)
      have hrun : Stays expr 0 expr.length
          (do
            let n ← expression factory (expr.length + 1) 0
            skip
            return n) :=
        .of_bind (moves_expression factory hdepth _ le_rfl (lt_succ_self _)) fun _ =>
          .of_bind (moves_skip fun c b s hc h => h.space hc) fun _ => .of_return
      have hlog := (hrun [] expr ⟨.start, le_rfl⟩).log
      change ∀ e ∈ (Grammar.run factory expr).log, e.Bounded at hlog
      generalize Grammar.run factory expr = x at hlog
      split
      all_goals exact hlog

/-- The grammar skips the space before the parenthesis of a `str`; for the guard that
parenthesis opens code, where the quote hides the rest of the text. -/
def hiddenNesting : List Char := "level = str (') and ".toList ++ replicate 66 '('

end Nscp.Where
