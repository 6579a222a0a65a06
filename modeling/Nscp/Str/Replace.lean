import Nscp.Library.Replace

/-!
# Global substitution

`str::utils::replace` searches on from the character behind the one it replaced at, or behind the
replacement where that holds the key.  It is global substitution as long as no key starts in
between: within the replacement, reaching into the text behind it, or where the replacement is
empty and another key follows.
-/

namespace Nscp.Str

open List Delimited

def replace (string key word : List Char) : List Char := Replace.replace key word string

/-- Every occurrence of the key from left to right is replaced, and nothing else. -/
def substitute (string key word : List Char) : List Char :=
  (split key string).1.flatMap (· ++ word) ++ (split key string).2

variable (key word : List Char)

/-- What the loop passes over behind a replacement, given the text behind the occurrence. -/
def passed (rest : List Char) : List Char :=
  if cut key word = none then (word ++ rest).take 1 else word

/-- Where the loop searches on. -/
def next (rest : List Char) : List Char :=
  if cut key word = none then (word ++ rest).drop 1 else rest

/-- The texts behind the first occurrences that are replaced. -/
def occurrences (resume : List Char → List Char) : ℕ → List Char → List (List Char)
  | 0, _ => []
  | n + 1, s =>
    match cut key s with
    | none => []
    | some (_, rest) => rest :: occurrences resume n (resume rest)

/-- Both searches find the same. -/
def Agrees (rest : List Char) : Prop :=
  (cut key (next key word rest)).map Prod.snd = (cut key rest).map Prod.snd

/-- The replacement holds the key; or no key starts behind the first character of the replacement
and reaches into the text behind it, and none follows an empty replacement. -/
def Separate (rest : List Char) : Prop :=
  key <:+: word ∨ (word = [] → ¬ key <+: rest) ∧
    ∀ i < word.length, 0 < i → ¬ key <+: word.drop i ++ rest

variable {key word} {s rest b : List Char} {n : ℕ} {resume : List Char → List Char}

theorem occurrences_eq (h : cut key s = some (b, rest)) :
    occurrences key resume (n + 1) s = rest :: occurrences key resume n (resume rest) := by
  rw [occurrences, h]

theorem Agrees.occurrences_eq (h : Agrees key word rest) (n : ℕ) :
    occurrences key resume n (next key word rest) = occurrences key resume n rest := by
  cases n with
  | zero => rfl
  | succ n =>
    rw [Agrees] at h
    rw [occurrences, occurrences]
    cases hx : cut key (next key word rest) <;> cases hy : cut key rest <;> simp_all

/-- The occurrences are the same exactly as long as the searches agree. -/
theorem occurrences_next_iff (s : List Char) :
    (∀ n, occurrences key (next key word) n s = occurrences key id n s) ↔
      ∀ n, ∀ rest ∈ occurrences key id n s, Agrees key word rest := by
  constructor
  · intro h n
    have hs := h (n + 1)
    clear h
    induction n generalizing s with
    | zero => simp [occurrences]
    | succ n ih =>
      cases hcut : cut key s with
      | none => simp [occurrences, hcut]
      | some p =>
        rw [occurrences_eq hcut, occurrences_eq hcut, cons.injEq] at hs
        have hfirst : Agrees key word p.2 := by
          have hhead := congrArg head? hs.2
          rw [occurrences, occurrences, id] at hhead
          rw [Agrees]
          cases hx : cut key (next key word p.2) <;> cases hy : cut key p.2 <;> simp_all
        rw [occurrences_eq hcut, forall_mem_cons]
        exact ⟨hfirst, ih p.2 ((hfirst.occurrences_eq _).symm.trans hs.2)⟩
  · intro h n
    have hs := h n
    clear h
    induction n generalizing s with
    | zero => rfl
    | succ n ih =>
      cases hcut : cut key s with
      | none => simp [occurrences, hcut]
      | some p =>
        rw [occurrences_eq hcut, forall_mem_cons] at hs
        rw [occurrences_eq hcut, occurrences_eq hcut, hs.1.occurrences_eq, ih p.2 hs.2, id]

/-! ## The text -/

variable (hkey : key ≠ []) (word)
include hkey

/-- A search that meets no key in `w` is a search in the text behind it, and one that does leaves
more of that text than any search in it. -/
theorem cut_append_snd_iff (w rest : List Char) :
    (cut key (w ++ rest)).map Prod.snd = (cut key rest).map Prod.snd ↔
      ∀ i < w.length, ¬ key <+: w.drop i ++ rest := by
  induction w with
  | nil => simp
  | cons x w ih =>
    rw [cons_append, cut, length_cons, Nat.forall_lt_succ_left, drop_zero, cons_append,
      ← isPrefixOf_iff_prefix]
    split_ifs with hprefix
    · refine iff_of_false (fun hsame => ?_) fun h => h.1 hprefix
      obtain ⟨⟨b, r⟩, hcut, hr⟩ := Option.map_eq_some_iff.mp hsame.symm
      have hlen := congrArg length (eq_of_cut hcut)
      have hdrop := congrArg length hr
      have hpos := length_pos_iff.mpr hkey
      simp only [length_append, length_drop, length_cons] at hlen hdrop
      omega
    · rw [Option.map_map]
      exact ih.trans (and_iff_right hprefix).symm

theorem cut_eq_none_iff (xs : List Char) : cut key xs = none ↔ ¬ key <:+: xs := by
  rw [← not_iff_not, not_not]
  constructor
  · intro h
    obtain ⟨⟨b, r⟩, hcut⟩ := Option.ne_none_iff_exists'.mp h
    exact ⟨b, r, (eq_of_cut hcut).symm⟩
  · rintro ⟨b, r, rfl⟩
    exact cut_ne_none hkey b r

theorem agrees_iff (word rest : List Char) : Agrees key word rest ↔ Separate key word rest := by
  rw [Agrees, Separate, next]
  by_cases hword : key <:+: word
  · rw [if_neg (by rwa [cut_eq_none_iff hkey, not_not])]
    exact iff_of_true rfl (Or.inl hword)
  · rw [if_pos ((cut_eq_none_iff hkey word).mpr hword), or_iff_right hword]
    cases word with
    | nil =>
      cases rest with
      | nil => simp [hkey]
      | cons x rest =>
        rw [nil_append, drop_succ_cons, drop_zero, eq_comm, ← singleton_append,
          cut_append_snd_iff hkey [x] rest]
        simp
    | cons x word =>
      rw [cons_append, drop_succ_cons, drop_zero, cut_append_snd_iff hkey, length_cons,
        Nat.forall_lt_succ_left]
      simp

theorem replace_eq (s : List Char) : replace s key word =
    match cut key s with
    | none => s
    | some (b, rest) => b ++ (passed key word rest ++ replace (next key word rest) key word) := by
  rw [replace, Replace.replace, dif_neg hkey]
  split <;> rename_i hcut <;> rw [hcut]
  simp only [next, passed, replace]
  split_ifs <;> simp

variable {word}

theorem Agrees.replace_next (h : Agrees key word rest) :
    passed key word rest ++ replace (next key word rest) key word =
      word ++ replace rest key word := by
  have htext : passed key word rest ++ next key word rest = word ++ rest := by
    simp only [passed, next]
    split_ifs
    · exact take_append_drop 1 _
    · rfl
  rw [Agrees] at h
  rw [replace_eq word hkey, replace_eq word hkey rest]
  cases hx : cut key (next key word rest) with
  | none =>
    rw [hx, Option.map_none, eq_comm, Option.map_eq_none_iff] at h
    rw [h]
    exact htext
  | some p =>
    obtain ⟨⟨b, t⟩, hy, rfl⟩ := Option.map_eq_some_iff.mp (hx ▸ h).symm
    have hfront : passed key word rest ++ p.1 = word ++ b := by
      refine (append_left_inj (key ++ p.2)).mp ?_
      calc
        _ = passed key word rest ++ next key word rest := by rw [eq_of_cut hx]; simp
        _ = word ++ rest := htext
        _ = _ := by rw [eq_of_cut hy]; simp
    rw [hy]
    dsimp only
    rw [← append_assoc, hfront, append_assoc]

theorem replace_eq_substitute (h : ∀ n, ∀ rest ∈ occurrences key id n s, Agrees key word rest) :
    replace s key word = substitute s key word := by
  induction hlen : s.length using Nat.strong_induction_on generalizing s with
  | _ n ih =>
    rw [replace_eq word hkey]
    cases hcut : cut key s with
    | none => simp [substitute, split, records_of_cut_eq_none hcut, endOf]
    | some p =>
      have hfirst := h 1 p.2 (by simp [occurrences, hcut])
      have hrest := ih p.2.length (hlen ▸ length_lt_of_cut hkey hcut)
        (fun n t ht => h (n + 1) t (by simp [occurrences_eq hcut, ht])) rfl
      dsimp only
      rw [hfirst.replace_next hkey, hrest]
      simp [substitute, split_of_cut_eq_some hkey hcut]

omit hkey

/-- The occurrences that are replaced are those from left to right, and the text is the global
substitution, exactly if no key starts between the two places where the search may go on. -/
theorem replace_global_iff (s key word : List Char) (hkey : key ≠ []) :
    (replace s key word = substitute s key word ∧
      ∀ n, occurrences key (next key word) n s = occurrences key id n s) ↔
    ∀ n, ∀ rest ∈ occurrences key id n s, Separate key word rest := by
  simp only [← agrees_iff hkey]
  exact ⟨fun h => (occurrences_next_iff s).mp h.2,
    fun h => ⟨replace_eq_substitute hkey h, (occurrences_next_iff s).mpr h⟩⟩

/-- The replacement ends as the key starts, but none is made up at its end. -/
theorem replace_global_iff_seam :
    let text := "abcab".toList
    replace text "ab".toList "xa".toList = substitute text "ab".toList "xa".toList := by
  refine ((replace_global_iff _ _ _ (by decide)).mpr fun n rest hrest => ?_).1
  have hmem : rest = "cab".toList ∨ rest = [] := by
    rcases n with _ | _ | _ | n <;> simp_all [occurrences, cut]
  rcases hmem with rfl | rfl <;> exact Or.inr (by decide)

/-- Of two keys next to each other that are to be deleted one stays. -/
theorem replace_adjacent : replace ['a', 'a'] ['a'] [] = ['a'] ∧
    substitute ['a', 'a'] ['a'] [] = [] := by
  simp [replace_eq, passed, next, cut]
  decide

end Nscp.Str
