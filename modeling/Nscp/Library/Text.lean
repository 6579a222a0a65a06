import Mathlib

/-!
# Lines, fields and decimal numbers

`getlines` is what a loop of `std::getline` extracts: a delimiter ends a line, and
text behind the last delimiter is a line of its own only if there is any.  Joining
lines with the delimiter and reading them again gives the lines back when none of
them holds the delimiter and the last one is not empty.

`decimal` writes an integer and `leadingInteger` reads one the way `strtol` does:
blanks and a sign may come first and whatever follows the digits is ignored.
-/

namespace Text

open Nat List

section Lines

variable {α : Type} [DecidableEq α]

def getlines (d : α) : List α → List (List α)
  | [] => []
  | c :: cs =>
    if c = d then [] :: getlines d cs
    else
      match getlines d cs with
      | [] => [[c]]
      | w :: ws => (c :: w) :: ws

@[simp] theorem getlines_nil (d : α) : getlines d [] = [] := rfl

@[simp] theorem getlines_delimiter (d : α) (cs : List α) :
    getlines d (d :: cs) = [] :: getlines d cs := by
  rw [getlines, if_pos rfl]

variable {ws ws' : List (List α)} {c d : α}

theorem getlines_cons_of_ne (h : c ≠ d) {cs w : List α} (hcs : getlines d cs = w :: ws) :
    getlines d (c :: cs) = (c :: w) :: ws := by
  rw [getlines, if_neg h, hcs]

variable {d : α} {xs w : List α}

theorem getlines_append_cons (hw : d ∉ w) (rest : List α) :
    getlines d (w ++ d :: rest) = w :: getlines d rest := by
  induction w with
  | nil => simp
  | cons c w ih =>
    rw [mem_cons, not_or] at hw
    obtain ⟨hc, hw⟩ := hw
    exact getlines_cons_of_ne (Ne.symm hc) (ih hw)

theorem getlines_of_not_mem (hw : d ∉ w) (hne : w ≠ []) : getlines d w = [w] := by
  induction w with
  | nil => exact absurd rfl hne
  | cons c w ih =>
    rw [mem_cons, not_or] at hw
    obtain ⟨hc, hw⟩ := hw
    cases w with
    | nil => rw [getlines, if_neg (Ne.symm hc), getlines_nil]
    | cons c' w => exact getlines_cons_of_ne (Ne.symm hc) (ih hw (cons_ne_nil _ _))

/-- Fields joined by the delimiter are read back. -/
theorem getlines_intercalate (hws : ∀ w ∈ ws, d ∉ w) (hlast : ∀ w ∈ ws.getLast?, w ≠ []) :
    getlines d ([d].intercalate ws) = ws := by
  induction ws with
  | nil => rfl
  | cons w ws ih =>
    have hw := hws w mem_cons_self
    cases ws with
    | nil =>
      rw [intercalate_singleton]
      exact getlines_of_not_mem hw (hlast w rfl)
    | cons v ws =>
      have hrest := ih (fun u hu => hws u (mem_cons_of_mem w hu))
        (fun u hu => hlast u (by rwa [getLast?_cons_cons]))
      rw [intercalate_cons_cons, append_assoc, singleton_append, getlines_append_cons hw, hrest]

/-- Lines that are each ended by the delimiter are read back. -/
theorem getlines_flatMap (hws : ∀ w ∈ ws, d ∉ w) : getlines d (ws.flatMap (· ++ [d])) = ws := by
  induction ws with
  | nil => rfl
  | cons w ws ih =>
    obtain ⟨hw, hrest⟩ := forall_mem_cons.mp hws
    rw [flatMap_cons, append_assoc, singleton_append, getlines_append_cons hw, ih hrest]

theorem not_mem_of_mem_getlines (h : w ∈ getlines d xs) : d ∉ w := by
  induction xs generalizing w with
  | nil => cases h
  | cons c cs ih =>
    by_cases hc : c = d
    · subst hc
      rw [getlines_delimiter] at h
      rcases mem_cons.mp h with rfl | h
      · exact not_mem_nil
      · exact ih h
    · rw [getlines, if_neg hc] at h
      cases hcs : getlines d cs with
      | nil =>
        rw [hcs, mem_singleton] at h
        subst h
        simpa using Ne.symm hc
      | cons v vs =>
        rw [hcs] at h ih
        rcases mem_cons.mp h with rfl | h
        · rw [mem_cons, not_or]
          exact ⟨Ne.symm hc, ih mem_cons_self⟩
        · exact ih (mem_cons_of_mem v h)

/-- A line holds characters of the text only. -/
theorem mem_of_mem_getlines (hw : w ∈ getlines d xs) (hc : c ∈ w) : c ∈ xs := by
  induction xs generalizing w with
  | nil => cases hw
  | cons a xs ih =>
    rw [getlines] at hw
    split at hw
    · rcases mem_cons.mp hw with rfl | hw
      · cases hc
      · exact mem_cons_of_mem a (ih hw hc)
    · cases hxs : getlines d xs with
      | nil =>
        rw [hxs, mem_singleton] at hw
        subst hw
        exact mem_cons.mpr (.inl (mem_singleton.mp hc))
      | cons v vs =>
        rw [hxs] at hw ih
        rcases mem_cons.mp hw with rfl | hw
        · exact (mem_cons.mp hc).elim (fun h => mem_cons.mpr (.inl h))
            fun h => mem_cons_of_mem a (ih mem_cons_self h)
        · exact mem_cons_of_mem a (ih (mem_cons_of_mem v hw) hc)

/-- Every delimiter up to a delimiter ends a line. -/
theorem getlines_append_delimiter (d : α) (xs rest : List α) :
    getlines d (xs ++ d :: rest) = xs.splitOn d ++ getlines d rest := by
  induction xs with
  | nil => simp
  | cons c xs ih =>
    by_cases hc : c = d
    · subst hc
      rw [cons_append, getlines_delimiter, ih, splitOn_eq_splitOnP,
        splitOn_eq_splitOnP, splitOnP_cons_eq_if_modifyHead]
      simp
    · cases hsplit : xs.splitOn d with
      | nil => exact absurd hsplit (by simp [splitOn_eq_splitOnP])
      | cons w ws =>
        rw [hsplit, cons_append] at ih
        rw [cons_append, getlines_cons_of_ne hc ih]
        rw [splitOn_eq_splitOnP] at hsplit ⊢
        simp [splitOnP_cons_eq_if_modifyHead, hc, hsplit]

theorem splitOn_of_not_mem (hw : d ∉ w) : w.splitOn d = [w] := by
  have hall : ∀ v ∈ [w], d ∉ v := by simpa using hw
  have hjoin := splitOn_intercalate d hall (cons_ne_nil w [])
  rwa [intercalate_singleton] at hjoin

theorem splitOn_eq_getlines (d : α) (xs : List α) : xs.splitOn d = getlines d (xs ++ [d]) := by
  simpa using (getlines_append_delimiter d xs []).symm

theorem not_mem_of_mem_splitOn (h : w ∈ xs.splitOn d) : d ∉ w := by
  rw [splitOn_eq_getlines] at h
  exact not_mem_of_mem_getlines h

/-- The two ways to cut a text differ on the empty text and behind a last delimiter only. -/
theorem getlines_eq_splitOn (hne : xs ≠ []) (hlast : xs.getLast? ≠ some d) :
    getlines d xs = xs.splitOn d := by
  rw [splitOn_eq_getlines]
  induction xs with
  | nil => exact absurd rfl hne
  | cons c cs ih =>
    rw [cons_append, getlines, getlines]
    cases cs with
    | nil =>
      have hc : c ≠ d := fun heq => hlast (congrArg some heq)
      simp [hc]
    | cons c' cs => rw [ih (cons_ne_nil _ _) (by simpa using hlast)]

theorem splitOn_injective (d : α) : Function.Injective (List.splitOn d) := by
  intro xs ys h
  calc
    xs = [d].intercalate (xs.splitOn d) := (intercalate_splitOn d).symm
    _ = [d].intercalate (ys.splitOn d) := by rw [h]
    _ = ys := intercalate_splitOn d

/-- A character other than the delimiter is in one of the lines. -/
theorem exists_mem_getlines (hcd : c ≠ d) (h : c ∈ xs) : ∃ w ∈ getlines d xs, c ∈ w := by
  induction xs with
  | nil => cases h
  | cons a xs ih =>
    by_cases ha : a = d
    · subst ha
      obtain ⟨w, hw, hc⟩ := ih ((mem_cons.mp h).resolve_left hcd)
      exact ⟨w, by rw [getlines_delimiter]; exact mem_cons_of_mem _ hw, hc⟩
    · rw [getlines, if_neg ha]
      cases hxs : getlines d xs with
      | nil =>
        rcases mem_cons.mp h with rfl | h
        · exact ⟨[c], mem_cons_self, mem_cons_self⟩
        · obtain ⟨w, hw, -⟩ := ih h
          rw [hxs] at hw
          cases hw
      | cons v vs =>
        rcases mem_cons.mp h with rfl | h
        · exact ⟨c :: v, mem_cons_self, mem_cons_self⟩
        · obtain ⟨w, hw, hc⟩ := ih h
          rw [hxs] at hw
          rcases mem_cons.mp hw with rfl | hw
          · exact ⟨a :: w, mem_cons_self, mem_cons_of_mem a hc⟩
          · exact ⟨w, mem_cons_of_mem _ hw, hc⟩

/-- Reading and joining again can only lose a delimiter at the end. -/
theorem length_intercalate_getlines_le (d : α) (xs : List α) :
    ([d].intercalate (getlines d xs)).length ≤ xs.length := by
  induction xs with
  | nil => simp
  | cons c cs ih =>
    by_cases hc : c = d
    · subst hc
      rw [getlines_delimiter]
      cases hcs : getlines c cs with
      | nil => simp
      | cons w ws =>
        rw [hcs] at ih
        rw [intercalate_cons_cons]
        simpa using ih
    · rw [getlines, if_neg hc]
      cases hcs : getlines d cs with
      | nil => simp
      | cons w ws =>
        rw [hcs] at ih
        cases ws with
        | nil => simpa using ih
        | cons v ws =>
          simp only [intercalate_cons_cons, length_append, length_cons] at ih ⊢
          omega

/-- Cutting at delimiters takes them out, one for each further piece. -/
theorem sum_length_splitOn (d : α) (xs : List α) :
    ((xs.splitOn d).map fun w => 2 * w.length + 1).sum + xs.count d = 2 * xs.length + 1 := by
  induction xs with
  | nil => simp
  | cons c cs ih =>
    rw [splitOn_eq_splitOnP] at ih ⊢
    by_cases hc : c = d
    · subst hc
      simp only [splitOnP_cons_eq_if_modifyHead, beq_self_eq_true, if_true, map_cons, sum_cons,
        length_nil, count_cons_self, length_cons]
      omega
    · cases hsplit : cs.splitOnP (· == d) with
      | nil => exact absurd hsplit (by simp)
      | cons w ws =>
        rw [hsplit] at ih
        simp only [map_cons, sum_cons] at ih
        simp only [splitOnP_cons_eq_if_modifyHead, beq_eq_false_iff_ne.mpr hc,
          Bool.false_eq_true, if_false,
          hsplit, modifyHead_cons, map_cons, sum_cons, length_cons,
          count_cons_of_ne hc]
        omega

/-- What comes before the first delimiter. -/
theorem takeWhile_append_cons (hw : d ∉ w) (rest : List α) :
    (w ++ d :: rest).takeWhile (· ≠ d) = w := by
  have hall : ∀ c ∈ w, decide (c ≠ d) = true := by
    intro c hc
    simpa using fun heq : c = d => hw (heq ▸ hc)
  rw [takeWhile_append_of_pos hall]
  simp

omit [DecidableEq α] in
theorem drop_append_cons (d : α) (w rest : List α) :
    (w ++ d :: rest).drop (w.length + 1) = rest := by
  rw [← drop_drop, drop_left' rfl]
  rfl

omit [DecidableEq α] in
theorem intercalate_cons_eq_flatMap (d : α) (w : List α) (ws : List (List α)) :
    [d].intercalate (w :: ws) = w ++ ws.flatMap (d :: ·) := by
  induction ws generalizing w with
  | nil => simp
  | cons v ws ih => rw [intercalate_cons_cons, ih]; simp

/-- Fields without the separator that are written behind it can be told apart. -/
theorem flatMap_cons_injOn (hws : ∀ w ∈ ws, d ∉ w) (hws' : ∀ w ∈ ws', d ∉ w)
    (h : ws.flatMap (d :: ·) = ws'.flatMap (d :: ·)) : ws = ws' := by
  -- The text up to the next separator is the field.
  have hcut : ∀ (w : List α) (vs : List (List α)), d ∉ w →
      (w ++ vs.flatMap (d :: ·)).takeWhile (· ≠ d) = w := by
    intro w vs hw
    cases vs with
    | nil =>
      rw [flatMap_nil, append_nil]
      refine takeWhile_eq_self_iff.mpr fun c hc => decide_eq_true ?_
      rintro rfl
      exact hw hc
    | cons v vs => exact takeWhile_append_cons hw _
  induction ws generalizing ws' with
  | nil =>
    cases ws' with
    | nil => rfl
    | cons w' ws' => cases h
  | cons w ws ih =>
    cases ws' with
    | nil => cases h
    | cons w' ws' =>
      obtain ⟨hw, hrest⟩ := forall_mem_cons.mp hws
      obtain ⟨hw', hrest'⟩ := forall_mem_cons.mp hws'
      have htail : w ++ ws.flatMap (d :: ·) = w' ++ ws'.flatMap (d :: ·) := (List.cons.inj h).2
      obtain rfl : w = w' := by
        rw [← hcut w ws hw, htail, hcut w' ws' hw']
      rw [ih hrest hrest' (append_cancel_left htail)]

end Lines

/-- All modules decide alike whether a text is in a list of texts. -/
instance lawfulBEqText : LawfulBEq (List Char) := inferInstance

/-! ## Decimal numbers -/

def decimal (n : ℤ) : List Char :=
  if n < 0 then '-' :: toDigits 10 n.natAbs else toDigits 10 n.natAbs

def isSpace (c : Char) : Bool :=
  c = ' ' ∨ c = '\t' ∨ c = '\n' ∨ c = '\x0b' ∨ c = '\x0c' ∨ c = '\r'

def trim (text : List Char) : List Char :=
  (text.dropWhile isSpace).rdropWhile isSpace

def leadingNatural (text : List Char) : Option ℕ :=
  let digits := text.takeWhile Char.isDigit
  if digits.isEmpty then none else some (ofDigitChars 10 digits 0)

def leadingInteger (text : List Char) : Option ℤ :=
  match text.dropWhile isSpace with
  | '-' :: rest => (leadingNatural rest).map fun n : ℕ => -(n : ℤ)
  | '+' :: rest => (leadingNatural rest).map Int.ofNat
  | rest => (leadingNatural rest).map Int.ofNat

variable {c x : Char}

theorem isDigit_of_mem_toDigits {n : ℕ} (h : c ∈ toDigits 10 n) : c.isDigit = true :=
  Nat.isDigit_of_mem_toDigits (by decide) (by decide) h

theorem exists_of_mem_toDigits {b n : ℕ} (hb : 1 < b) (h : c ∈ toDigits b n) :
    ∃ d < b, c = digitChar d := by
  induction n using Nat.strong_induction_on with
  | _ n ih =>
    rw [toDigits_eq_if hb] at h
    split at h
    next hn => exact ⟨n, hn, mem_singleton.mp h⟩
    next hn =>
        rcases mem_append.mp h with h | h
        · exact ih (n / b) (div_lt_self (by omega) hb) h
        · exact ⟨n % b, mod_lt n (by omega), mem_singleton.mp h⟩

variable {rest s : List Char}

theorem leadingNatural_toDigits (n : ℕ) : leadingNatural (toDigits 10 n) = some n := by
  have htake : (toDigits 10 n).takeWhile Char.isDigit = toDigits 10 n :=
    takeWhile_eq_self_iff.mpr fun c hc => isDigit_of_mem_toDigits hc
  simp [leadingNatural, htake, ofDigitChars_ten_toDigits]

theorem isDigit_of_isSpace (h : isSpace c = true) : c.isDigit = false := by
  simp only [isSpace, decide_eq_true_eq] at h
  rcases h with rfl | rfl | rfl | rfl | rfl | rfl <;> rfl

theorem leadingInteger_of_isDigit (hc : c.isDigit = true) (cs : List Char) :
    leadingInteger (c :: cs) = (leadingNatural (c :: cs)).map Int.ofNat := by
  have hspace : ¬ isSpace c = true := fun h => by simp [isDigit_of_isSpace h] at hc
  have hsign : c ≠ '-' ∧ c ≠ '+' := by
    constructor <;> rintro rfl <;> revert hc <;> decide
  rw [leadingInteger, dropWhile_cons_of_neg hspace]
  split
  · rename_i heq
    exact absurd (List.cons.inj heq).1 hsign.1
  · rename_i heq
    exact absurd (List.cons.inj heq).1 hsign.2
  · rfl

/-- An integer is read back. -/
theorem leadingInteger_decimal (n : ℤ) : leadingInteger (decimal n) = some n := by
  have hread := leadingNatural_toDigits n.natAbs
  rw [decimal]
  by_cases hn : n < 0
  · rw [if_pos hn, leadingInteger, dropWhile_cons_of_neg (by decide)]
    simp only [hread, Option.map_some, Option.some.injEq]
    omega
  · rw [if_neg hn]
    cases hdigits : toDigits 10 n.natAbs with
    | nil => exact absurd hdigits toDigits_ne_nil
    | cons c digits =>
      have hc : c.isDigit = true := isDigit_of_mem_toDigits (hdigits ▸ mem_cons_self)
      rw [hdigits] at hread
      rw [leadingInteger_of_isDigit hc, hread, Option.map_some, Option.some.injEq,
        Int.ofNat_eq_natCast]
      omega

theorem decimal_injective : Function.Injective decimal := by
  intro m n h
  have hm := leadingInteger_decimal m
  rw [h, leadingInteger_decimal n] at hm
  exact Option.some.inj hm.symm

theorem mem_decimal {n : ℤ} (h : c ∈ decimal n) : c = '-' ∨ c.isDigit = true := by
  rw [decimal] at h
  split at h
  · rcases mem_cons.mp h with rfl | h
    · exact .inl rfl
    · exact .inr (isDigit_of_mem_toDigits h)
  · exact .inr (isDigit_of_mem_toDigits h)

theorem not_mem_decimal (hc : c ≠ '-' ∧ c.isDigit = false) (n : ℤ) : c ∉ decimal n := by
  intro h
  rcases mem_decimal h with h | h
  · exact hc.1 h
  · exact Bool.false_ne_true (hc.2.symm.trans h)

/-! ## Case -/

def toLower (s : List Char) : List Char := s.map Char.toLower

@[simp] theorem toLower_append (s t : List Char) : toLower (s ++ t) = toLower s ++ toLower t :=
  map_append

@[simp] theorem length_toLower (s : List Char) : (toLower s).length = s.length :=
  length_map _

/-- Characters below the letters are neither changed nor produced. -/
theorem toLower_eq_iff (hx : x < 'A') : c.toLower = x ↔ c = x := by
  have hA : x.val.toNat < 65 := hx
  rw [Char.toLower]
  split
  next h =>
    have h1 : 65 ≤ c.val.toNat := h.1
    have h2 : c.val.toNat ≤ 90 := h.2
    constructor
    · intro heq
      have h3 : (c.val + 32).toNat = x.val.toNat := congrArg (·.val.toNat) heq
      have h32 : UInt32.toNat 32 = 32 := rfl
      rw [UInt32.toNat_add, h32, mod_eq_of_lt (by omega)] at h3
      omega
    · rintro rfl
      omega
  next => exact Iff.rfl

theorem mem_toLower (hx : x < 'A') : x ∈ toLower s ↔ x ∈ s := by
  simp [toLower, toLower_eq_iff hx]

end Text
