import Mathlib

/-!
# Records that end in a delimiter

A text is split from left to right: each record runs up to the first delimiter behind the one
before, and what follows the last delimiter is not a record yet.  A text that grows keeps its
records, and the split can be taken up again at the end of any of them.
-/

namespace Delimited

open Nat List Prod Option

variable {α : Type} [DecidableEq α] (d : List α)

/-! ## The first delimiter -/

def cut : List α → Option (List α × List α)
  | [] => none
  | x :: xs =>
    if d.isPrefixOf (x :: xs) then some ([], (x :: xs).drop d.length)
    else (cut xs).map fun p => (x :: p.1, p.2)

variable {d} {xs b r : List α}

theorem eq_of_cut (h : cut d xs = some (b, r)) : xs = b ++ d ++ r := by
  induction xs generalizing b with
  | nil => cases h
  | cons x xs ih =>
    rw [cut] at h
    split_ifs at h with hd
    · cases h
      exact (prefix_iff_eq_append.mp (List.isPrefixOf_iff_prefix.mp hd)).symm
    · obtain ⟨⟨b', r'⟩, hcut, heq⟩ := map_eq_some_iff.mp h
      cases heq
      exact congrArg (x :: ·) (ih hcut)

theorem cut_append (h : cut d xs = some (b, r)) (ys : List α) :
    cut d (xs ++ ys) = some (b, r ++ ys) := by
  induction xs generalizing b with
  | nil => cases h
  | cons x xs ih =>
    rw [cut] at h
    rw [cons_append, cut]
    split_ifs at h with hd
    · cases h
      have hle := (List.isPrefixOf_iff_prefix.mp hd).length_le
      have hd' : d.isPrefixOf (x :: (xs ++ ys)) = true := by
        apply isPrefixOf_iff_prefix.mpr
        exact (List.isPrefixOf_iff_prefix.mp hd).trans (prefix_append _ ys)
      rw [if_pos hd', ← cons_append, drop_append_of_le_length hle]
    · obtain ⟨⟨b', r'⟩, hcut, heq⟩ := map_eq_some_iff.mp h
      cases heq
      -- the delimiter lies within `xs`, so it cannot start at `x` by reaching into `ys`
      have hd' : ¬ d.isPrefixOf (x :: (xs ++ ys)) = true := by
        intro hd'
        apply hd
        apply isPrefixOf_iff_prefix.mpr
        apply prefix_of_prefix_length_le (List.isPrefixOf_iff_prefix.mp hd')
        · exact prefix_append (x :: xs) ys
        · rw [eq_of_cut hcut]
          simp only [length_append, length_cons]
          omega
      rw [if_neg hd', ih hcut, map_some]

variable (hd : d ≠ [])

include hd

/-- Where there is a delimiter one is found. -/
theorem cut_ne_none (b r : List α) : cut d (b ++ d ++ r) ≠ none := by
  induction b with
  | nil =>
    obtain ⟨x, d', rfl⟩ := exists_cons_of_ne_nil hd
    rw [nil_append, cons_append, cut, if_pos]
    · exact some_ne_none _
    · apply isPrefixOf_iff_prefix.mpr
      exact prefix_append (x :: d') r
  | cons y b ih =>
    rw [cons_append, cons_append, cut]
    split_ifs
    · exact some_ne_none _
    · rwa [ne_eq, map_eq_none_iff]

/-- A text that holds the first delimiter is cut where the whole is. -/
theorem cut_take (h : cut d xs = some (b, r)) {k : ℕ} (hk : b.length + d.length ≤ k) :
    cut d (xs.take k) = some (b, r.take (k - (b.length + d.length))) := by
  have hxs := eq_of_cut h
  have htake : xs.take k = b ++ d ++ r.take (k - (b.length + d.length)) := by
    rw [hxs, take_append, take_of_length_le (by rw [length_append]; exact hk), length_append]
  cases hcut : cut d (xs.take k) with
  | none =>
    rw [htake] at hcut
    exact absurd hcut (cut_ne_none hd _ _)
  | some p =>
    obtain ⟨b', r'⟩ := p
    have happend := cut_append hcut (xs.drop k)
    rw [take_append_drop, h] at happend
    obtain ⟨rfl, -⟩ := mk.inj (some.inj happend)
    have hr' := (eq_of_cut hcut).symm.trans htake
    rw [append_cancel_left hr']

/-! ## Records -/

variable (d)

/-- The records of a text that starts at a position, each with the position it starts at; every
record takes up at least its delimiter, so there are no more of them than the text is long. -/
def recordsWithin : ℕ → ℕ → List α → List (ℕ × List α)
  | 0, _, _ => []
  | fuel + 1, n, xs =>
    match cut d xs with
    | none => []
    | some (b, r) => (n, b) :: recordsWithin fuel (n + b.length + d.length) r

def records (n : ℕ) (xs : List α) : List (ℕ × List α) :=
  recordsWithin d xs.length n xs

def endOf : ℕ → List (ℕ × List α) → ℕ
  | n, [] => n
  | _, r :: rs => endOf (r.1 + r.2.length + d.length) rs

variable {d}

theorem length_lt_of_cut (h : cut d xs = some (b, r)) : r.length < xs.length := by
  have hpos := length_pos_iff.mpr hd
  rw [eq_of_cut h, length_append, length_append]
  omega

variable {xs zs d' w : List α}

theorem recordsWithin_eq {fuel : ℕ} (hfuel : xs.length ≤ fuel) (n : ℕ) :
    recordsWithin d fuel n xs = records d n xs := by
  induction hlen : xs.length using Nat.strong_induction_on generalizing xs fuel n with
  | _ m ih =>
    subst hlen
    cases fuel with
    | zero =>
      rw [length_eq_zero_iff.mp (le_zero.mp hfuel)]
      rfl
    | succ fuel =>
      cases xs with
      | nil => rfl
      | cons x xs =>
        rw [records, length_cons, recordsWithin, recordsWithin]
        cases hcut : cut d (x :: xs) with
        | none => rfl
        | some p =>
          obtain ⟨b, r⟩ := p
          have hlt := length_lt_of_cut hd hcut
          rw [length_cons] at hlt hfuel
          dsimp only
          rw [ih r.length (by rw [length_cons]; exact hlt) (by omega) _ rfl,
            ih r.length (by rw [length_cons]; exact hlt) (by omega) _ rfl]

omit hd in
theorem records_of_cut_eq_none (h : cut d xs = none) (n : ℕ) : records d n xs = [] := by
  cases xs with
  | nil => rfl
  | cons x xs => rw [records, length_cons, recordsWithin, h]

theorem records_of_cut_eq_some (h : cut d xs = some (b, r)) (n : ℕ) :
    records d n xs = (n, b) :: records d (n + b.length + d.length) r := by
  have hlt := length_lt_of_cut hd h
  cases xs with
  | nil => cases h
  | cons x xs =>
    rw [length_cons] at hlt
    rw [records, length_cons, recordsWithin, h]
    dsimp only
    rw [recordsWithin_eq hd (by omega)]

/-- The induction over a split: a text without a delimiter, or a record and what follows it. -/
theorem records_induction {motive : ℕ → List α → Prop}
    (none : ∀ n xs, cut d xs = none → motive n xs)
    (some : ∀ n xs b r, cut d xs = some (b, r) → motive (n + b.length + d.length) r → motive n xs)
    (n : ℕ) (xs : List α) : motive n xs := by
  induction hlen : xs.length using Nat.strong_induction_on generalizing xs n with
  | _ m ih =>
    subst hlen
    cases hcut : cut d xs with
    | none => exact none n xs hcut
    | some p =>
      obtain ⟨b, r⟩ := p
      exact some n xs b r hcut (ih r.length (length_lt_of_cut hd hcut) _ r rfl)

/-- A text that grows keeps its records. -/
theorem records_prefix_append (n : ℕ) (xs ys : List α) :
    records d n xs <+: records d n (xs ++ ys) := by
  induction n, xs using records_induction hd with
  | none n xs hcut =>
    rw [records_of_cut_eq_none hcut]
    exact nil_prefix
  | some n xs b r hcut ih =>
    rw [records_of_cut_eq_some hd hcut, records_of_cut_eq_some hd (cut_append hcut ys)]
    exact (prefix_cons_inj _).mpr ih

theorem records_mono (n : ℕ) (h : xs <+: zs) : records d n xs <+: records d n zs := by
  obtain ⟨ys, rfl⟩ := h
  exact records_prefix_append hd n xs ys

variable {n i : ℕ}

theorem fst_of_records_eq_cons {r : ℕ × List α} {rs : List (ℕ × List α)}
    (h : records d n xs = r :: rs) : r.1 = n := by
  cases hcut : cut d xs with
  | none =>
    rw [records_of_cut_eq_none hcut] at h
    cases h
  | some p =>
    rw [records_of_cut_eq_some hd hcut] at h
    obtain ⟨rfl, -⟩ := cons.inj h
    rfl

/-! ## Taking a split up again -/

omit hd in
omit [DecidableEq α] in
theorem endOf_append (n : ℕ) (rs ts : List (ℕ × List α)) :
    endOf d n (rs ++ ts) = endOf d (endOf d n rs) ts := by
  induction rs generalizing n with
  | nil => rfl
  | cons r rs ih => exact ih _

variable {rs ts rs' : List (ℕ × List α)}

/-- Behind any of its first records a text is split like a text of its own. -/
theorem records_resume (h : records d n xs = rs ++ ts) :
    n ≤ endOf d n rs ∧ endOf d n rs ≤ n + xs.length ∧
      ts = records d (endOf d n rs) (xs.drop (endOf d n rs - n)) := by
  induction rs generalizing n xs with
  | nil =>
    refine ⟨le_rfl, le_add_right n _, ?_⟩
    rw [endOf, Nat.sub_self, drop_zero, h, nil_append]
  | cons s rs ih =>
    cases hcut : cut d xs with
    | none =>
      rw [records_of_cut_eq_none hcut] at h
      cases h
    | some p =>
      obtain ⟨b, r⟩ := p
      rw [records_of_cut_eq_some hd hcut, cons_append] at h
      obtain ⟨rfl, hrest⟩ := cons.inj h
      obtain ⟨hlow, hhigh, hts⟩ := ih hrest
      have hxs := eq_of_cut hcut
      have hlen : xs.length = b.length + d.length + r.length := by
        rw [hxs, length_append, length_append]
      have hdrop : ∀ k, n + b.length + d.length ≤ k →
          xs.drop (k - n) = r.drop (k - (n + b.length + d.length)) := by
        intro k hk
        rw [hxs, drop_append, drop_of_length_le, nil_append, length_append]
        · congr 1
          omega
        · rw [length_append]
          omega
      rw [endOf]
      dsimp only
      refine ⟨by omega, by omega, ?_⟩
      rw [hts, hdrop _ hlow]

theorem lt_endOf (h : records d n xs = rs ++ ts) (hrs : rs ≠ []) :
    n < endOf d n rs := by
  obtain ⟨r, rs, rfl⟩ := exists_cons_of_ne_nil hrs
  have hpos := length_pos_iff.mpr hd
  have hfirst : r.1 = n := fst_of_records_eq_cons hd h
  cases hcut : cut d xs with
  | none =>
    rw [records_of_cut_eq_none hcut] at h
    cases h
  | some p =>
    rw [records_of_cut_eq_some hd hcut, cons_append] at h
    obtain ⟨rfl, hrest⟩ := cons.inj h
    obtain ⟨hlow, -⟩ := records_resume hd hrest
    rw [endOf]
    dsimp only
    omega

/-- The first records of a text are known by where they end. -/
theorem eq_of_endOf_eq (h : rs <+: records d n xs) (h' : rs' <+: records d n xs)
    (heq : endOf d n rs = endOf d n rs') : rs = rs' := by
  have hshort : ∀ {rs rs' : List (ℕ × List α)}, rs' <+: records d n xs → rs <+: rs' →
      endOf d n rs = endOf d n rs' → rs = rs' := by
    rintro rs rs' ⟨us, hus⟩ ⟨ts, rfl⟩ heq
    rw [append_assoc] at hus
    obtain ⟨-, -, hts⟩ := records_resume hd hus.symm
    rw [endOf_append] at heq
    by_contra hne
    have hts' : ts ≠ [] := fun hnil => hne (by rw [hnil, append_nil])
    exact (lt_endOf hd hts.symm hts').ne heq
  rcases prefix_or_prefix_of_prefix h h' with hle | hle
  · exact hshort h' hle heq
  · exact (hshort h hle heq.symm).symm

/-! ## Texts that were cut off -/

/-- A text that reaches up to the end of its last record has all of them. -/
theorem records_take {k : ℕ} (hk : endOf d n (records d n xs) ≤ n + k) :
    records d n (xs.take k) = records d n xs := by
  induction n, xs using records_induction hd generalizing k with
  | none n xs hcut =>
    rw [records_of_cut_eq_none hcut]
    apply records_of_cut_eq_none
    cases htake : cut d (xs.take k) with
    | none => rfl
    | some p =>
      have happend := cut_append htake (xs.drop k)
      rw [take_append_drop, hcut] at happend
      cases happend
  | some n xs b r hcut ih =>
    have hrecords := records_of_cut_eq_some hd hcut n
    have hend : endOf d n (records d n xs) = endOf d (n + b.length + d.length)
        (records d (n + b.length + d.length) r) := by
      rw [hrecords, endOf]
    obtain ⟨hlow, -⟩ := records_resume hd (append_nil (records d
      (n + b.length + d.length) r)).symm
    rw [hend] at hk
    have hcut' := cut_take hd hcut (k := k) (by omega)
    rw [hrecords, records_of_cut_eq_some hd hcut', ih (by omega)]

variable (d)

/-- The last place where the delimiter stands, overlapping ones included. -/
def rfind : List α → Option ℕ
  | [] => none
  | x :: xs =>
    match rfind xs with
    | some i => some (i + 1)
    | none => if d.isPrefixOf (x :: xs) then some 0 else none

variable {d}

omit hd in
theorem rfind_append (h : rfind d r = some i) (ys : List α) :
    rfind d (ys ++ r) = some (ys.length + i) := by
  induction ys with
  | nil => rw [nil_append, length_nil, zero_add, h]
  | cons y ys ih =>
    rw [cons_append, rfind, ih, length_cons]
    dsimp only
    congr 1
    omega

theorem exists_rfind (b r : List α) :
    ∃ i, rfind d (b ++ d ++ r) = some i ∧ b.length ≤ i := by
  induction b with
  | nil =>
    obtain ⟨x, d', rfl⟩ := exists_cons_of_ne_nil hd
    rw [nil_append, cons_append, rfind]
    cases rfind (x :: d') (d' ++ r) with
    | some i => exact ⟨i + 1, rfl, zero_le _⟩
    | none =>
      refine ⟨0, ?_, le_rfl⟩
      apply if_pos
      apply isPrefixOf_iff_prefix.mpr
      exact prefix_append (x :: d') r
  | cons y b ih =>
    obtain ⟨i, hi, hle⟩ := ih
    refine ⟨i + 1, ?_, succ_le_succ hle⟩
    rw [cons_append, cons_append, rfind, hi]

theorem rfind_eq_none_iff (n : ℕ) (xs : List α) :
    rfind d xs = none ↔ records d n xs = [] := by
  cases hcut : cut d xs with
  | none =>
    refine iff_of_true ?_ (records_of_cut_eq_none hcut n)
    induction xs with
    | nil => rfl
    | cons x xs ih =>
      rw [cut] at hcut
      split_ifs at hcut with hprefix
      rw [rfind, ih (map_eq_none_iff.mp hcut)]
      exact if_neg hprefix
  | some p =>
    obtain ⟨i, hi, -⟩ := exists_rfind hd p.1 p.2
    rw [← eq_of_cut hcut] at hi
    rw [hi, records_of_cut_eq_some hd hcut]
    exact iff_of_false (some_ne_none i) (cons_ne_nil _ _)

/-- The last record ends no later than the last delimiter. -/
theorem endOf_records_le (h : rfind d xs = some i) :
    endOf d n (records d n xs) ≤ n + (i + d.length) := by
  induction n, xs using records_induction hd generalizing i with
  | none n xs hcut =>
    rw [records_of_cut_eq_none hcut, endOf]
    omega
  | some n xs b r hcut ih =>
    have hxs := eq_of_cut hcut
    rw [records_of_cut_eq_some hd hcut, endOf]
    dsimp only
    cases hr : rfind d r with
    | none =>
      obtain ⟨j, hj, hle⟩ := exists_rfind hd b r
      rw [← hxs, h] at hj
      rw [(rfind_eq_none_iff hd _ r).mp hr, endOf, some.inj hj]
      omega
    | some j =>
      have happend := rfind_append hr (b ++ d)
      rw [← hxs, h, length_append] at happend
      have hend := ih hr
      rw [some.inj happend]
      omega

/-! ## Records without their positions -/

/-- Where a text stands does not matter for its records. -/
theorem records_shift (m n : ℕ) (xs : List α) :
    (records d m xs).map snd = (records d n xs).map snd ∧
      endOf d m (records d m xs) + n = endOf d n (records d n xs) + m := by
  induction n, xs using records_induction hd generalizing m with
  | none n xs hcut =>
    rw [records_of_cut_eq_none hcut, records_of_cut_eq_none hcut]
    exact ⟨rfl, add_comm m n⟩
  | some n xs b r hcut ih =>
    rw [records_of_cut_eq_some hd hcut, records_of_cut_eq_some hd hcut, endOf, endOf,
      map_cons, map_cons]
    obtain ⟨hmap, hend⟩ := ih (m + b.length + d.length)
    refine ⟨congrArg (b :: ·) hmap, ?_⟩
    dsimp only
    omega

variable (d)

def split (xs : List α) : List (List α) × List α :=
  ((records d 0 xs).map snd, xs.drop (endOf d 0 (records d 0 xs)))

variable {d}

theorem split_of_cut_eq_some (h : cut d xs = some (b, r)) :
    split d xs = (b :: (split d r).1, (split d r).2) := by
  have hxs := eq_of_cut h
  obtain ⟨hmap, hend⟩ := records_shift hd (0 + b.length + d.length) 0 r
  have hdrop : xs.drop (endOf d (0 + b.length + d.length)
      (records d (0 + b.length + d.length) r)) = r.drop (endOf d 0 (records d 0 r)) := by
    rw [hxs, drop_append, drop_of_length_le, nil_append, length_append]
    · congr 1
      omega
    · rw [length_append]
      omega
  rw [split, records_of_cut_eq_some hd h, map_cons, hmap, endOf, split]
  exact congrArg (mk _) hdrop

theorem split_fst_mono (h : xs <+: zs) : (split d xs).1 <+: (split d zs).1 :=
  (records_mono hd 0 h).map snd

omit hd in
/-- A record without the first character of the delimiter. -/
theorem cut_of_not_mem {x : α} (hw : x ∉ w) (r : List α) :
    cut (x :: d') (w ++ x :: d' ++ r) = some (w, r) := by
  induction w with
  | nil =>
    rw [nil_append, cons_append, cut, if_pos]
    · rw [← cons_append, drop_left' rfl]
    · apply isPrefixOf_iff_prefix.mpr
      exact prefix_append (x :: d') r
  | cons y w ih =>
    obtain ⟨hy, hw⟩ := ne_and_not_mem_of_not_mem_cons hw
    rw [cons_append, cons_append, cut, if_neg, ih hw]
    · rfl
    · intro hfirst
      exact hy (cons_prefix_cons.mp (List.isPrefixOf_iff_prefix.mp hfirst)).1

omit hd in
/-- Records without the first character of the delimiter, each ended by it. -/
theorem split_flatMap {x : α} {ws : List (List α)} (hws : ∀ w ∈ ws, x ∉ w) (r : List α) :
    split (x :: d') (ws.flatMap (· ++ x :: d') ++ r) =
      (ws ++ (split (x :: d') r).1, (split (x :: d') r).2) := by
  induction ws with
  | nil => rfl
  | cons w ws ih =>
    obtain ⟨hw, hrest⟩ := forall_mem_cons.mp hws
    rw [flatMap_cons, append_assoc,
      split_of_cut_eq_some (cons_ne_nil x d') (cut_of_not_mem hw _), ih hrest]
    rfl

end Delimited
