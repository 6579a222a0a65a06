import Mathlib

/-!
# Glob patterns

A pattern is a list of symbols in which `star` stands for any run of symbols and `one`
for a single symbol.  `scan` is the usual iterative matcher: it compares symbol by
symbol, notes the last star it passed and, on a mismatch, lets that star take one more
symbol.  It tries the literal comparison first, so it is exact for texts that do not
hold the star symbol; a star symbol of the text uses up a star of the pattern.
-/

namespace Glob

open List

variable {α : Type} [DecidableEq α] (star one : α)

def Matches : List α → List α → Prop
  | [], t => t = []
  | a :: p, t =>
    if a = star then ∃ u v, t = u ++ v ∧ Matches p v
    else ∃ c v, t = c :: v ∧ (a = one ∨ a = c) ∧ Matches p v

/-- The matcher at pattern `p` and text `t`.  `back` holds the pattern behind the last star
and the text that star was met at. -/
def scan (p t : List α) (back : Option (List α × List α))
    (h : ∀ b ∈ back, t.length ≤ b.2.length) : Bool :=
  match t, p with
  | [], p => p.all (· = star)
  | c :: t, a :: p =>
    if a = one ∨ a = c then scan p t back fun b hb => (Nat.le_succ _).trans (h b hb)
    else if a = star then
      scan p (c :: t) (some (p, c :: t)) fun b hb => by cases hb; exact le_rfl
    else
      match back with
      | none => false
      | some (_, []) => false
      | some (sp, _ :: st) => scan sp st (some (sp, st)) fun b hb => by cases hb; exact le_rfl
  | _ :: _, [] =>
    match back with
    | none => false
    | some (_, []) => false
    | some (sp, _ :: st) => scan sp st (some (sp, st)) fun b hb => by cases hb; exact le_rfl
termination_by
  ((back.map (·.2.length)).getD (t.length + 1), t.length, p.length)
decreasing_by
  · cases back with
    | none | some b => simp [Prod.lex_def]
  · cases back with
    | none => simp [Prod.lex_def]
    | some b =>
      have := h b rfl
      simp only [length_cons] at this
      simp [Prod.lex_def]
      omega
  · simp [Prod.lex_def]
  · simp [Prod.lex_def]

def matcher (p t : List α) : Bool := scan star one p t none fun _ h => by cases h

/-! ## Meaning of patterns -/

variable {star one}

variable {p t q w s : List α} {a c : α}

theorem matches_star :
    Matches star one (star :: p) t ↔ ∃ u v, t = u ++ v ∧ Matches star one p v := by
  rw [Matches, if_pos rfl]

theorem matches_cons (ha : a ≠ star) : Matches star one (a :: p) t ↔
      ∃ c v, t = c :: v ∧ (a = one ∨ a = c) ∧ Matches star one p v := by
  rw [Matches, if_neg ha]

theorem matches_cons_cons (ha : a ≠ star) :
    Matches star one (a :: p) (c :: t) ↔ (a = one ∨ a = c) ∧ Matches star one p t := by
  rw [matches_cons ha]
  constructor
  · rintro ⟨c', v, heq, hac, hv⟩
    cases heq
    exact ⟨hac, hv⟩
  · rintro ⟨hac, hv⟩
    exact ⟨c, t, rfl, hac, hv⟩

/-- A star takes at least what it takes of a shorter text. -/
theorem Matches.star_append (h : Matches star one (star :: p) t) (w : List α) :
    Matches star one (star :: p) (w ++ t) := by
  rw [matches_star] at h ⊢
  obtain ⟨u, v, rfl, hv⟩ := h
  exact ⟨w ++ u, v, (append_assoc w u v).symm, hv⟩

/-- A pattern of stars and nothing else matches everything. -/
theorem matches_replicate (n : ℕ) (t : List α) :
    Matches star one (List.replicate (n + 1) star) t := by
  induction n with
  | zero => exact matches_star.mpr ⟨t, [], (append_nil t).symm, rfl⟩
  | succ n ih => exact matches_star.mpr ⟨[], t, rfl, ih⟩

theorem Matches.append (hq : Matches star one q w) (hp : Matches star one p t) :
    Matches star one (q ++ p) (w ++ t) := by
  induction q generalizing w with
  | nil =>
    subst hq
    exact hp
  | cons a q ih =>
    by_cases ha : a = star
    · subst ha
      obtain ⟨u, v, rfl, hv⟩ := matches_star.mp hq
      exact matches_star.mpr ⟨u, v ++ t, append_assoc u v t, ih hv⟩
    · obtain ⟨c, v, rfl, hac, hv⟩ := (matches_cons ha).mp hq
      exact (matches_cons_cons ha).mpr ⟨hac, ih hv⟩

/-- A pattern matches itself, whatever its symbols are. -/
theorem matches_self (p : List α) : Matches star one p p := by
  induction p with
  | nil => rfl
  | cons a p ih =>
    by_cases ha : a = star
    · subst ha
      exact matches_star.mpr ⟨[a], p, rfl, ih⟩
    · exact (matches_cons_cons ha).mpr ⟨.inr rfl, ih⟩

/-- A symbol by symbol match. -/
theorem matches_map_map {f g : α → α} (h : ∀ x ∈ s, f x ≠ star ∧ (f x = one ∨ f x = g x)) :
    Matches star one (s.map f) (s.map g) := by
  induction s with
  | nil => rfl
  | cons x s ih =>
    have hx := h x mem_cons_self
    exact (matches_cons_cons hx.1).mpr ⟨hx.2, ih fun y hy => h y (mem_cons_of_mem x hy)⟩

/-- A part of a pattern without stars takes as many symbols as it has. -/
theorem Matches.of_append (hq : star ∉ q) (h : Matches star one (q ++ p) t) :
    ∃ w v, t = w ++ v ∧ w.length = q.length ∧ Matches star one p v := by
  induction q generalizing t with
  | nil => exact ⟨[], t, rfl, rfl, h⟩
  | cons a q ih =>
    rw [mem_cons, not_or] at hq
    obtain ⟨c, v, rfl, -, hv⟩ := (matches_cons (Ne.symm hq.1)).mp h
    obtain ⟨w, v', rfl, hlen, hv'⟩ := ih hq.2 hv
    exact ⟨c :: w, v', rfl, by simp [hlen], hv'⟩

theorem Matches.length_eq (hq : star ∉ q) (h : Matches star one q t) : t.length = q.length := by
  rw [← append_nil q] at h
  obtain ⟨w, v, rfl, hlen, rfl⟩ := h.of_append hq
  rw [append_nil, hlen]

theorem matches_nil_iff : Matches star one p [] ↔ p.all (· = star) = true := by
  induction p with
  | nil => simp [Matches]
  | cons a p ih =>
    by_cases ha : a = star
    · subst ha
      rw [matches_star, all_cons, decide_eq_true rfl, Bool.true_and, ← ih]
      constructor
      · rintro ⟨u, v, heq, hv⟩
        obtain ⟨-, rfl⟩ := append_eq_nil_iff.mp heq.symm
        exact hv
      · intro h
        exact ⟨[], [], rfl, h⟩
    · rw [matches_cons ha]
      simp [ha]

/-! ## The matcher -/

section Scan

variable {p t : List α} {back : Option (List α × List α)} {h : ∀ b ∈ back, t.length ≤ b.2.length}

def retry (star one : α) (back : Option (List α × List α)) : Bool :=
  match back with
  | none => false
  | some (_, []) => false
  | some (sp, _ :: st) =>
    scan star one sp st (some (sp, st)) fun b hb => by cases hb; exact le_rfl

theorem scan_nil {h : ∀ b ∈ back, ([] : List α).length ≤ b.2.length} :
    scan star one p [] back h = p.all (· = star) := by
  rw [scan]

section

variable {h : ∀ b ∈ back, (c :: t).length ≤ b.2.length}

theorem scan_cons_cons : scan star one (a :: p) (c :: t) back h =
      if a = one ∨ a = c then scan star one p t back fun b hb => (Nat.le_succ _).trans (h b hb)
      else if a = star then
        scan star one p (c :: t) (some (p, c :: t)) fun b hb => by cases hb; exact le_rfl
      else retry star one back := by
  rw [scan.eq_def]
  rcases back with _ | ⟨sp, _ | ⟨d, st⟩⟩ <;> rfl

theorem scan_nil_cons : scan star one [] (c :: t) back h = retry star one back := by
  rw [scan.eq_def]
  rcases back with _ | ⟨sp, _ | ⟨d, st⟩⟩ <;> rfl

end

/-- The literal comparison comes first, for star symbols as well. -/
theorem matcher_append (q p t : List α) :
    matcher star one (q ++ p) (q ++ t) = matcher star one p t := by
  induction q with
  | nil => rfl
  | cons a q ih =>
    rw [← ih, matcher, cons_append, cons_append, scan_cons_cons, if_pos (.inr rfl)]
    rfl

theorem scan_nil_back (t : List α) :
    scan star one [] t (some ([], t)) (fun b hb => by cases hb; exact le_rfl) = true := by
  induction t with
  | nil => rw [scan_nil]; rfl
  | cons c t ih => rw [scan_nil_cons, retry, ih]

/-- As many stars as the text starts with, and one more, match the text. -/
theorem exists_matcher_replicate (hne : star ≠ one) (t : List α) :
    ∃ n, matcher star one (List.replicate (n + 1) star) t = true := by
  induction t with
  | nil => exact ⟨0, by rw [matcher, scan_nil]; simp⟩
  | cons c t ih =>
    by_cases hc : star = c
    · subst hc
      obtain ⟨n, hn⟩ := ih
      exact ⟨n + 1, by rw [replicate_succ, ← hn]; exact matcher_append [star] _ t⟩
    · refine ⟨0, ?_⟩
      rw [matcher, replicate_one, scan_cons_cons, if_neg (not_or.mpr ⟨hne, hc⟩), if_pos rfl]
      exact scan_nil_back (c :: t)

/-- The pattern behind the last star, as far as it was compared since, has no star and took
as many symbols as it has. -/
def Compared (star : α) (p t : List α) (back : Option (List α × List α)) : Prop :=
  ∀ b ∈ back, ∃ q w, b.1 = q ++ p ∧ b.2 = w ++ t ∧ q.length = w.length ∧ star ∉ q

/-- The last star takes more than it has so far. -/
def Resumes (star one : α) (back : Option (List α × List α)) : Prop :=
  ∃ b ∈ back, ∃ u v, u ≠ [] ∧ b.2 = u ++ v ∧ Matches star one b.1 v

/-- Letting the last star take more gives nothing that the rest of the comparison does not
already decide, once the pattern has come to another star or the text to its end. -/
theorem Resumes.of_compared (hback : Compared star p t back) (h : Resumes star one back) :
    ∃ u v, u ≠ [] ∧ t = u ++ v ∧ Matches star one p v := by
  obtain ⟨⟨sp, st⟩, hb, u, v, hu, hst, hv⟩ := h
  obtain ⟨q, w, hsp, hwt, hlen, hq⟩ := hback _ hb
  simp only at hsp hwt hst hv
  subst hsp
  obtain ⟨w', v', rfl, hlen', hv'⟩ := hv.of_append hq
  have heq : w ++ t = (u ++ w') ++ v' := by rw [← hwt, hst, append_assoc]
  have hpos := length_pos_iff.mpr hu
  rcases append_eq_append_iff.mp heq with ⟨s, hs, hts⟩ | ⟨s, hs, -⟩
  · refine ⟨s, v', ?_, hts, hv'⟩
    rintro rfl
    have := congrArg List.length hs
    simp only [length_append, length_nil] at this
    omega
  · have := congrArg List.length hs
    simp only [length_append] at this
    omega

theorem matches_star_iff_resumes :
    Matches star one (star :: p) t ↔ Matches star one p t ∨ Resumes star one (some (p, t)) := by
  rw [matches_star]
  constructor
  · rintro ⟨u, v, heq, hv⟩
    by_cases hu : u = []
    · subst hu
      exact .inl (heq ▸ hv)
    · exact .inr ⟨(p, t), rfl, u, v, hu, heq, hv⟩
  · rintro (h | ⟨b, hb, u, v, -, heq, hv⟩)
    · exact ⟨[], t, rfl, h⟩
    · cases hb
      exact ⟨u, v, heq, hv⟩

theorem resumes_cons {sp st : List α} {d : α} :
    Resumes star one (some (sp, d :: st)) ↔
      Matches star one sp st ∨ Resumes star one (some (sp, st)) := by
  constructor
  · rintro ⟨b, hb, u, v, hu, heq, hv⟩
    cases hb
    obtain ⟨c, u, rfl⟩ := exists_cons_of_ne_nil hu
    have htail : st = u ++ v := (List.cons.inj heq).2
    by_cases hu' : u = []
    · rw [hu', nil_append] at htail
      exact .inl (htail ▸ hv)
    · exact .inr ⟨(sp, st), rfl, u, v, hu', htail, hv⟩
  · rintro (h | ⟨b, hb, u, v, -, heq, hv⟩)
    · exact ⟨_, rfl, [d], st, cons_ne_nil _ _, rfl, h⟩
    · cases hb
      exact ⟨_, rfl, d :: u, v, cons_ne_nil _ _, congrArg (d :: ·) heq, hv⟩

omit [DecidableEq α] in
theorem compared_self (p t : List α) : Compared star p t (some (p, t)) := by
  rintro b hb
  cases hb
  exact ⟨[], [], rfl, rfl, rfl, not_mem_nil⟩

omit [DecidableEq α] in
theorem Compared.step (h : Compared star (a :: p) (c :: t) back) (ha : a ≠ star) :
    Compared star p t back := by
  intro b hb
  obtain ⟨q, w, hq, hw, hlen, hstar⟩ := h b hb
  refine ⟨q ++ [a], w ++ [c], by simp [hq], by simp [hw], by simp [hlen], ?_⟩
  rw [mem_append, not_or, mem_singleton]
  exact ⟨hstar, Ne.symm ha⟩

/-- On a text without the star symbol the matcher decides whether the pattern matches, or
would if the last star took more. -/
theorem scan_iff (hne : star ≠ one) (ht : star ∉ t) (hst : ∀ b ∈ back, star ∉ b.2)
    (hback : Compared star p t back) :
    scan star one p t back h = true ↔ Matches star one p t ∨ Resumes star one back := by
  fun_induction scan star one p t back h with
  | case1 back p h =>
    rw [matches_nil_iff]
    refine (or_iff_left fun hresumes => ?_).symm
    obtain ⟨u, v, hu, heq, -⟩ := hresumes.of_compared hback
    exact hu (append_eq_nil_iff.mp heq.symm).1
  | case2 back c t a p _ hac _ ih =>
    rw [mem_cons, not_or] at ht
    have ha : a ≠ star := by
      rintro rfl
      exact hac.elim hne ht.1
    rw [ih ht.2 hst (hback.step ha), matches_cons_cons ha]
    simp [hac]
  | case3 back c t p _ _ _ ih =>
    rw [ih ht (fun b hb => by cases hb; exact ht) (compared_self p (c :: t)),
      ← matches_star_iff_resumes]
    refine (or_iff_left_of_imp fun hresumes => ?_).symm
    obtain ⟨u, v, -, heq, hv⟩ := hresumes.of_compared hback
    rw [heq]
    exact hv.star_append u
  | case4 c t a p hac ha _ _ =>
    rw [matches_cons_cons ha]
    simp [hac, Resumes]
  | case5 c t a p _ _ sp h _ | case8 c t sp h _ => exact absurd (h _ rfl) (by simp)
  | case6 c t a p hac ha sp d st _ _ ih =>
    have hst' : star ∉ st := fun hmem => hst _ rfl (mem_cons_of_mem d hmem)
    rw [ih hst' (fun b hb => by cases hb; exact hst') (compared_self sp st), resumes_cons,
      matches_cons_cons ha]
    simp [hac]
  | case7 c t _ _ => simp [Matches, Resumes]
  | case9 c t sp d st _ _ ih =>
    have hst' : star ∉ st := fun hmem => hst _ rfl (mem_cons_of_mem d hmem)
    rw [ih hst' (fun b hb => by cases hb; exact hst') (compared_self sp st), resumes_cons]
    simp [Matches]

/-- The matcher is exact on texts without the star symbol. -/
theorem matcher_iff (hne : star ≠ one) (ht : star ∉ t) :
    matcher star one p t = true ↔ Matches star one p t := by
  rw [matcher, scan_iff hne ht (fun b hb => by cases hb) fun b hb => by cases hb]
  exact or_iff_left fun ⟨b, hb, _⟩ => by cases hb

theorem matcher_append_star (u p v : List α) :
    matcher star one (u ++ star :: p) (u ++ star :: v) = matcher star one p v := by
  rw [matcher_append]
  exact matcher_append [star] p v

theorem matcher_self (p : List α) : matcher star one p p = true := by
  rw [← append_nil p, matcher_append, matcher, scan_nil]
  rfl

/-- Without a star to go back to, a pattern that starts with more symbols than the text has
is refused. -/
theorem matcher_eq_false_of_length_lt (hq : star ∉ q) (h : t.length < q.length) (p : List α) :
    matcher star one (q ++ p) t = false := by
  induction q generalizing t with
  | nil => exact absurd h (Nat.not_lt_zero _)
  | cons a q ih =>
    rw [mem_cons, not_or] at hq
    cases t with
    | nil =>
      rw [cons_append, matcher, scan_nil, all_cons, decide_eq_false (Ne.symm hq.1)]
      rfl
    | cons c t =>
      rw [cons_append, matcher, scan_cons_cons, if_neg (Ne.symm hq.1)]
      split
      · exact ih hq.2 (Nat.lt_of_succ_lt_succ h)
      · rfl

end Scan

end Glob
