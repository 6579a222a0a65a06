import Nscp.Library.Glob
import Nscp.Library.Text

/-!
# Permissions

The policy that decides whether a caller may run a command.  A caller is a module with an
optional principal, a target is a command of a module, and a rule pairs a subject pattern
with object patterns.  `Granted` says what the documentation promises about a table of
rules; `isAllowed` is the decision as the service takes it.  The two agree for every table
exactly when the names hold no star and no NUL and the command has no dot.
-/

namespace Nscp.Service

open List Text Glob
open Text (toLower mem_toLower)

structure Rule where
  subject : List Char
  objects : List (List Char)
  deriving DecidableEq

structure Permissions where
  enabled : Bool := false
  allowExec : Bool := true
  logDenials : Bool := true
  logAllows : Bool := false
  rules : List Rule := []

namespace Permissions

def trim (s : List Char) : List Char :=
  ((s.dropWhile (· ∈ [' ', '\t'])).reverse.dropWhile (· ∈ [' ', '\t'])).reverse

def addRule (p : Permissions) (subjectPattern objectsCsv : List Char) : Permissions :=
  let objects := ((objectsCsv.splitOn ',').map trim).filter (· ≠ [])
  if objects = [] then p else { p with rules := p.rules ++ [⟨subjectPattern, objects⟩] }

def isExecAllowed (p : Permissions) : Bool := !p.enabled || p.allowExec

def completeFailedLoad (p : Permissions) (enabledRead execRead previouslyEnabled : Bool) :
    Permissions :=
  { p with
    enabled := if enabledRead then p.enabled else previouslyEnabled
    allowExec := if execRead then p.allowExec else false }

/-! ## Patterns -/

def nul : Char := Char.ofNat 0

/-- What is left of a string handed on as `c_str`. -/
def cStr (s : List Char) : List Char := s.takeWhile (· ≠ nul)

def glob (pattern text : List Char) : Bool :=
  matcher '*' '?' (cStr (toLower pattern)) (cStr (toLower text))

def subjectMatches (pattern subject : List Char) : Bool :=
  decide (pattern = subject) || glob pattern subject ||
    -- a bare module stands for every principal of it
    decide (':' ∉ pattern ∧ '*' ∉ pattern ∧ subject[pattern.length]? = some ':' ∧
      toLower (subject.take pattern.length) = toLower pattern) ||
    -- a trailing colon stands for the empty principal
    decide (pattern.getLast? = some ':' ∧ '*' ∉ pattern ∧ ':' ∉ subject ∧
      toLower pattern.dropLast = toLower subject)

/-- The part behind the last dot. -/
def command (object : List Char) : List Char := (object.reverse.takeWhile (· ≠ '.')).reverse

def objectMatches (pattern object : List Char) : Bool :=
  glob pattern object ||
    (decide ('.' ∉ pattern ∧ '.' ∈ object) && glob pattern (command object))

def isAllowed (p : Permissions) (subject object : List Char) : Bool :=
  !p.enabled || p.rules.any fun rule =>
    subjectMatches rule.subject subject && rule.objects.any fun o => objectMatches o object

def makeSubject (module principal : List Char) : List Char :=
  if principal = [] then module else module ++ ':' :: principal

def makeObject (module command : List Char) : List Char :=
  if module = [] then command else module ++ '.' :: command

/-! ## What the rules are documented to mean -/

def Wild (pattern text : List Char) : Prop :=
  Glob.Matches '*' '?' (toLower pattern) (toLower text)

def SubjectGrants (S m q : List Char) : Prop :=
  Wild S (makeSubject m q) ∨ (':' ∉ S ∧ '*' ∉ S ∧ toLower S = toLower m) ∨
    (toLower S = toLower (m ++ [':']) ∧ q = [])

def ObjectGrants (O t c : List Char) : Prop :=
  Wild O (makeObject t c) ∨ ('.' ∉ O ∧ Wild O c)

def Granted (rules : List Rule) (m q t c : List Char) : Prop :=
  ∃ rule ∈ rules, SubjectGrants rule.subject m q ∧ ∃ O ∈ rule.objects, ObjectGrants O t c

/-- Tables as a settings file can hold them. -/
def NulFree (rules : List Rule) : Prop :=
  ∀ rule ∈ rules, nul ∉ rule.subject ∧ ∀ O ∈ rule.objects, nul ∉ O

/-- Names the matcher takes for themselves. -/
def Literal (s : List Char) : Prop := '*' ∉ s ∧ nul ∉ s

/-! ## Strings -/

theorem literal_append {s t : List Char} : Literal (s ++ t) ↔ Literal s ∧ Literal t := by
  simp only [Literal, mem_append, not_or]
  tauto

variable {s : List Char}

theorem literal_cons {c : Char} (hstar : c ≠ '*') (hnul : c ≠ nul) :
    Literal (c :: s) ↔ Literal s := by
  simp [Literal, hstar.symm, hnul.symm]

theorem literal_makeSubject {m q : List Char} :
    Literal (makeSubject m q) ↔ Literal m ∧ Literal q := by
  rw [makeSubject]
  split
  next hq => simp [hq, Literal]
  next => rw [literal_append, literal_cons (by decide) (by decide)]

variable {t c p S : List Char}

theorem literal_makeObject : Literal (makeObject t c) ↔ Literal t ∧ Literal c := by
  rw [makeObject]
  split
  next ht => simp [ht, Literal]
  next => rw [literal_append, literal_cons (by decide) (by decide)]

theorem cStr_of_not_mem (h : nul ∉ s) : cStr s = s :=
  takeWhile_eq_self_iff.mpr fun c hc => by
    rw [decide_eq_true_iff]
    rintro rfl
    exact h hc

theorem cStr_toLower (h : nul ∉ s) : cStr (toLower s) = toLower s :=
  cStr_of_not_mem ((mem_toLower (by decide)).not.mpr h)

theorem length_cStr_lt (h : nul ∈ s) : (cStr s).length < s.length := by
  refine lt_of_le_of_ne (takeWhile_sublist _).length_le fun hlen => ?_
  have hself := (takeWhile_sublist _).eq_of_length hlen
  simpa using takeWhile_eq_self_iff.mp hself nul h

theorem command_eq {a b : List Char} (hb : '.' ∉ b) : command (a ++ '.' :: b) = b := by
  rw [command, reverse_append, reverse_cons, append_assoc, singleton_append,
    takeWhile_append_cons (by simpa using hb), reverse_reverse]

/-! ## The wildcard match -/

theorem wild_self (s : List Char) : Wild s s := matches_self _

theorem wild_of_toLower_eq (h : toLower s = toLower t) : Wild s t := by
  rw [Wild, h]
  exact matches_self _

theorem Wild.append {q w : List Char} (hq : Wild q w) (hp : Wild p t) : Wild (q ++ p) (w ++ t) := by
  rw [Wild, toLower_append, toLower_append]
  exact Glob.Matches.append hq hp

theorem Wild.length_eq (hp : '*' ∉ p) (h : Wild p t) : t.length = p.length := by
  have := Glob.Matches.length_eq ((mem_toLower (by decide)).not.mpr hp) h
  rwa [length_toLower, length_toLower] at this

theorem wild_star (t : List Char) : Wild ['*'] t := matches_replicate 0 _

theorem glob_iff (hp : nul ∉ p) (ht : Literal t) : glob p t = true ↔ Wild p t := by
  rw [glob, cStr_toLower hp, cStr_toLower ht.2]
  exact matcher_iff (by decide) ((mem_toLower (by decide)).not.mpr ht.1)

theorem glob_self (t : List Char) : glob t t = true := matcher_self _

theorem exists_glob (t : List Char) :
    ∃ p, nul ∉ p ∧ glob p t = true ∧ ∀ s, Wild p s := by
  obtain ⟨n, hn⟩ := exists_matcher_replicate (show '*' ≠ '?' by decide) (cStr (toLower t))
  have hlow : toLower (replicate (n + 1) '*') = replicate (n + 1) '*' :=
    map_replicate
  have hnul : nul ∉ replicate (n + 1) '*' := fun h =>
    absurd (eq_of_mem_replicate h) (by decide)
  refine ⟨replicate (n + 1) '*', hnul, ?_, fun s => ?_⟩
  · rw [glob, cStr_toLower hnul, hlow]
    exact hn
  · rw [Wild, hlow]
    exact matches_replicate n _

/-! ## Patterns that tell a star or a NUL from a plain character -/

/-- The text with everything but its dots replaced by question marks. -/
def mask (s : List Char) : List Char := s.map fun c => if c = '.' then c else '?'

theorem mem_mask {c : Char} (h : c ∈ mask s) : c = '.' ∨ c = '?' := by
  obtain ⟨x, -, rfl⟩ := mem_map.mp h
  split
  next hx => exact .inl hx
  next => exact .inr rfl

theorem nul_notMem_mask (s : List Char) : nul ∉ mask s := fun h =>
  (mem_mask h).elim (by decide) (by decide)

theorem star_notMem_mask (s : List Char) : '*' ∉ mask s := fun h =>
  (mem_mask h).elim (by decide) (by decide)

theorem dot_mem_mask (h : '.' ∈ s) : '.' ∈ mask s :=
  mem_map.mpr ⟨'.', h, if_pos rfl⟩

@[simp] theorem length_mask (s : List Char) : (mask s).length = s.length := length_map _

theorem wild_mask (s : List Char) : Wild (mask s) s := by
  rw [Wild, mask, toLower, map_map]
  refine matches_map_map fun c _ => ?_
  by_cases hc : c = '.'
  · subst hc
    decide
  · simp only [Function.comp_apply, if_neg hc]
    exact ⟨by decide, .inl (by decide)⟩

theorem glob_mask_of_nul_mem (hs : nul ∈ s) (hp : nul ∉ p) : glob (mask s ++ p) s = false := by
  have hnul : nul ∉ mask s ++ p := by
    rw [mem_append, not_or]
    exact ⟨nul_notMem_mask s, hp⟩
  rw [glob, cStr_toLower hnul, toLower_append]
  refine matcher_eq_false_of_length_lt ((mem_toLower (by decide)).not.mpr
    (star_notMem_mask s)) ?_ _
  have := length_cStr_lt ((mem_toLower (by decide)).mpr hs)
  simpa using this

theorem glob_mask_of_star {u v : List Char} (hu : nul ∉ u) (hv : nul ∉ v) :
    glob (u ++ '*' :: mask ('*' :: v)) (u ++ '*' :: v) = false := by
  have hpattern : nul ∉ u ++ '*' :: mask ('*' :: v) := by
    rw [mem_append, mem_cons, not_or, not_or]
    exact ⟨hu, by decide, nul_notMem_mask _⟩
  have htext : nul ∉ u ++ '*' :: v := by
    rw [mem_append, mem_cons, not_or, not_or]
    exact ⟨hu, by decide, hv⟩
  rw [glob, cStr_toLower hpattern, cStr_toLower htext, toLower_append, toLower_append]
  refine (matcher_append_star (toLower u) _ (toLower v)).trans ?_
  rw [← append_nil (map _ _)]
  refine matcher_eq_false_of_length_lt ((mem_toLower (by decide)).not.mpr
    (star_notMem_mask _)) ?_ _
  simp

theorem wild_mask_of_star (u v : List Char) :
    Wild (u ++ '*' :: mask ('*' :: v)) (u ++ '*' :: v) :=
  (wild_self u).append ((matches_star (p := toLower (mask ('*' :: v)))).mpr
    ⟨[], toLower ('*' :: v), rfl, wild_mask ('*' :: v)⟩)

/-! ## Subjects -/

theorem subjectMatches_iff_or : subjectMatches S s = true ↔ S = s ∨ glob S s = true ∨
      (':' ∉ S ∧ '*' ∉ S ∧ s[S.length]? = some ':' ∧ toLower (s.take S.length) = toLower S) ∨
      (S.getLast? = some ':' ∧ '*' ∉ S ∧ ':' ∉ s ∧ toLower S.dropLast = toLower s) := by
  simp [subjectMatches, or_assoc]

theorem subjectMatches_of_star_mem (hS : '*' ∈ S) (hne : S ≠ s) :
    subjectMatches S s = glob S s := by
  rw [Bool.eq_iff_iff, subjectMatches_iff_or]
  tauto

variable {S m q O : List Char}

theorem take_makeSubject_iff (hS : ':' ∉ S) (hm : ':' ∉ m) :
    (makeSubject m q)[S.length]? = some ':' ∧
        toLower ((makeSubject m q).take S.length) = toLower S ↔
      toLower S = toLower m ∧ q ≠ [] := by
  rw [makeSubject]
  split
  next hq =>
    refine iff_of_false (fun h => hm (mem_of_getElem? h.1)) fun h => h.2 hq
  next hq =>
    constructor
    · rintro ⟨hcolon, htake⟩
      rcases lt_trichotomy S.length m.length with hlt | heq | hgt
      · rw [getElem?_append_left hlt] at hcolon
        exact absurd (mem_of_getElem? hcolon) hm
      · rw [heq, take_left] at htake
        exact ⟨htake.symm, hq⟩
      · have hmem : ':' ∈ (m ++ ':' :: q).take S.length := by
          rw [take_append, mem_append]
          right
          obtain ⟨k, hk⟩ : ∃ k, S.length - m.length = k + 1 := ⟨S.length - m.length - 1, by omega⟩
          rw [hk, take_succ_cons]
          exact mem_cons_self
        rw [← mem_toLower (by decide), htake, mem_toLower (by decide)] at hmem
        exact absurd hmem hS
    · rintro ⟨hlow, -⟩
      have hlen : S.length = m.length := by simpa using congrArg length hlow
      rw [hlen, take_left]
      exact ⟨by simp, hlow.symm⟩

theorem dropLast_makeSubject_iff (hm : ':' ∉ m) :
    S.getLast? = some ':' ∧ ':' ∉ makeSubject m q ∧ toLower S.dropLast = toLower (makeSubject m q) ↔
      toLower S = toLower (m ++ [':']) ∧ q = [] := by
  have hq : ':' ∉ makeSubject m q ↔ q = [] := by
    rw [makeSubject]
    split
    next hq => simp [hq, hm]
    next hq => simp [hq]
  rw [hq]
  constructor
  · rintro ⟨hlast, rfl, hlow⟩
    rw [makeSubject, if_pos rfl] at hlow
    refine ⟨?_, rfl⟩
    rw [← dropLast_append_getLast? _ hlast, toLower_append, toLower_append, hlow]
  · rintro ⟨hlow, rfl⟩
    rw [makeSubject, if_pos rfl]
    rcases eq_nil_or_concat S with rfl | ⟨S, c, rfl⟩
    · exact absurd (congrArg length hlow) (by simp)
    · rw [concat_eq_append, toLower_append, toLower_append] at hlow
      obtain ⟨hS, hc⟩ := append_inj' hlow rfl
      have hcolon : c = ':' := (toLower_eq_iff (by decide)).mp (singleton_inj.mp hc)
      refine ⟨by simp [hcolon], rfl, by simpa using hS⟩

theorem subjectMatches_iff (hm : ':' ∉ m) (hsubject : Literal (makeSubject m q)) (hS : nul ∉ S) :
    subjectMatches S (makeSubject m q) = true ↔ SubjectGrants S m q := by
  rw [subjectMatches_iff_or, glob_iff hS hsubject, SubjectGrants]
  constructor
  · rintro (rfl | h | ⟨hcolon, hstar, h⟩ | ⟨hlast, -, h⟩)
    · exact .inl (wild_self _)
    · exact .inl h
    · exact .inr (.inl ⟨hcolon, hstar, ((take_makeSubject_iff hcolon hm).mp h).1⟩)
    · exact .inr (.inr ((dropLast_makeSubject_iff hm).mp ⟨hlast, h⟩))
  · rintro (h | ⟨hcolon, hstar, h⟩ | h)
    · exact .inr (.inl h)
    · by_cases hq : q = []
      · refine .inr (.inl ?_)
        rw [makeSubject, if_pos hq]
        exact wild_of_toLower_eq h
      · exact .inr (.inr (.inl
          ⟨hcolon, hstar, (take_makeSubject_iff hcolon hm).mpr ⟨h, hq⟩⟩))
    · have hstar : '*' ∉ S := by
        rw [← mem_toLower (by decide), h.1, mem_toLower (by decide), mem_append, not_or]
        exact ⟨(literal_makeSubject.mp hsubject).1.1, by decide⟩
      obtain ⟨hlast, hrest⟩ := (dropLast_makeSubject_iff hm).mpr h
      exact .inr (.inr (.inr ⟨hlast, hstar, hrest⟩))

theorem literal_of_glob {x : List Char} (hnul : nul ∉ x)
    (h : ∀ u v, x = u ++ '*' :: v → nul ∉ u ++ '*' :: mask ('*' :: v) →
      glob (u ++ '*' :: mask ('*' :: v)) x = true) : Literal x := by
  refine ⟨fun hmem => ?_, hnul⟩
  obtain ⟨u, v, rfl⟩ := append_of_mem hmem
  rw [mem_append, mem_cons, not_or, not_or] at hnul
  have hmatch := h u v rfl (by
    rw [mem_append, mem_cons, not_or, not_or]
    exact ⟨hnul.1, by decide, nul_notMem_mask _⟩)
  rw [glob_mask_of_star hnul.1 hnul.2.2] at hmatch
  exact absurd hmatch (by decide)

theorem literal_of_subjectMatches_iff
    (h : ∀ S, nul ∉ S → (subjectMatches S (makeSubject m q) = true ↔ SubjectGrants S m q)) :
    Literal (makeSubject m q) := by
  have hnul : nul ∉ makeSubject m q := fun hmem => by
    have hS : nul ∉ mask (makeSubject m q) ++ ['*'] := by
      rw [mem_append, not_or]
      exact ⟨nul_notMem_mask _, by decide⟩
    have hmatch := (h _ hS).mpr (.inl (by
      simpa using (wild_mask (makeSubject m q)).append (wild_star [])))
    rw [subjectMatches_of_star_mem (by simp) (fun heq => by
      simpa using congrArg length heq), glob_mask_of_nul_mem hmem (by decide)] at hmatch
    exact absurd hmatch (by decide)
  refine literal_of_glob hnul fun u v huv hS => ?_
  have hmatch := (h _ hS).mpr (.inl (by rw [huv]; exact wild_mask_of_star u v))
  rwa [subjectMatches_of_star_mem (by simp) (fun heq => by
    simpa using congrArg length (heq.trans huv))] at hmatch

/-! ## Objects -/

theorem dot_mem_makeObject : '.' ∈ makeObject t c ↔ t ≠ [] ∨ '.' ∈ c := by
  rw [makeObject]
  split
  next ht => simp [ht]
  next ht => simp [ht]

theorem objectMatches_iff (hc : '.' ∉ c) (hobject : Literal (makeObject t c)) (hO : nul ∉ O) :
    objectMatches O (makeObject t c) = true ↔ ObjectGrants O t c := by
  rw [objectMatches, ObjectGrants, Bool.or_eq_true, Bool.and_eq_true, decide_eq_true_iff,
    glob_iff hO hobject]
  by_cases ht : t = []
  · rw [dot_mem_makeObject]
    simp only [ht, makeObject, if_pos]
    tauto
  · have hcommand : command (makeObject t c) = c := by
      rw [makeObject, if_neg ht, command_eq hc]
    rw [hcommand, glob_iff hO (literal_makeObject.mp hobject).2, dot_mem_makeObject]
    tauto

theorem objectMatches_of_dot (h : '.' ∈ s → '.' ∈ O) : objectMatches O s = glob O s := by
  rw [objectMatches, decide_eq_false fun hdot => hdot.1 (h hdot.2), Bool.false_and, Bool.or_false]

theorem literal_of_objectMatches_iff
    (h : ∀ O, nul ∉ O → (objectMatches O (makeObject t c) = true ↔ ObjectGrants O t c)) :
    Literal (makeObject t c) := by
  have hnul : nul ∉ makeObject t c := fun hmem => by
    have hmatch := (h _ (nul_notMem_mask _)).mpr (.inl (wild_mask (makeObject t c)))
    rw [objectMatches_of_dot dot_mem_mask, ← append_nil (mask _),
      glob_mask_of_nul_mem hmem not_mem_nil] at hmatch
    exact absurd hmatch (by decide)
  refine literal_of_glob hnul fun u v huv hO => ?_
  have hdot : '.' ∈ u ++ '*' :: v → '.' ∈ u ++ '*' :: mask ('*' :: v) := by
    rw [mem_append, mem_append]
    exact Or.imp_right fun hv => mem_cons_of_mem _ (dot_mem_mask hv)
  have hmatch := (h _ hO).mpr (.inl (by rw [huv]; exact wild_mask_of_star u v))
  rwa [objectMatches_of_dot (huv ▸ hdot)] at hmatch

theorem dot_notMem_of_objectMatches_iff (hobject : Literal (makeObject t c))
    (h : ∀ O, nul ∉ O → (objectMatches O (makeObject t c) = true ↔ ObjectGrants O t c)) :
    '.' ∉ c := by
  intro hmem
  obtain ⟨b, a, hrev, hb⟩ := eq_append_cons_of_mem (mem_reverse.mpr hmem)
  have hc : c = a.reverse ++ '.' :: b.reverse := by simpa using congrArg reverse hrev
  have hdot : '.' ∉ b.reverse := mem_reverse.not.mpr hb
  generalize a.reverse = a at hc
  generalize b.reverse = b at hc hdot
  obtain ⟨x, hx⟩ : ∃ x, makeObject t c = x ++ '.' :: b := by
    rw [makeObject, hc]
    split
    next => exact ⟨a, rfl⟩
    next => exact ⟨t ++ '.' :: a, by simp⟩
  have hliteral := hobject
  rw [hx, literal_append, literal_cons (by decide) (by decide)] at hliteral
  have hmatch : objectMatches b (makeObject t c) = true := by
    have hmem' : '.' ∈ makeObject t c := dot_mem_makeObject.mpr (.inr hmem)
    rw [objectMatches, decide_eq_true ⟨hdot, hmem'⟩, hx, command_eq hdot, glob_self]
    exact Bool.or_true _
  rcases (h b hliteral.2.2).mp hmatch with hwild | ⟨-, hwild⟩
  · have hlen := hwild.length_eq hliteral.2.1
    rw [hx, length_append, length_cons] at hlen
    omega
  · have hlen := hwild.length_eq hliteral.2.1
    rw [hc, length_append, length_cons] at hlen
    omega

/-! ## Tables -/

variable {p : Permissions}

theorem isAllowed_iff (hp : p.enabled = true) {subject object : List Char} :
    p.isAllowed subject object = true ↔ ∃ rule ∈ p.rules,
      subjectMatches rule.subject subject = true ∧ ∃ O ∈ rule.objects,
        objectMatches O object = true := by
  simp [isAllowed, hp]

theorem isAllowed_iff_granted (hp : p.enabled = true) (hrules : NulFree p.rules) (hm : ':' ∉ m)
    (hc : '.' ∉ c) (hsubject : Literal (makeSubject m q)) (hobject : Literal (makeObject t c)) :
    p.isAllowed (makeSubject m q) (makeObject t c) = true ↔ Granted p.rules m q t c := by
  rw [isAllowed_iff hp, Granted]
  refine exists_congr fun rule => and_congr_right fun hrule => ?_
  obtain ⟨hS, hO⟩ := hrules rule hrule
  rw [subjectMatches_iff hm hsubject hS]
  refine and_congr_right fun _ => exists_congr fun O => and_congr_right fun hmem => ?_
  exact objectMatches_iff hc hobject (hO O hmem)

theorem matches_iff_of_isAllowed_iff
    (h : ∀ p : Permissions, p.enabled = true → NulFree p.rules →
      (p.isAllowed (makeSubject m q) (makeObject t c) = true ↔ Granted p.rules m q t c))
    (hS : nul ∉ S) (hO : nul ∉ O) :
    subjectMatches S (makeSubject m q) = true ∧ objectMatches O (makeObject t c) = true ↔
      SubjectGrants S m q ∧ ObjectGrants O t c := by
  have hrules : NulFree [⟨S, [O]⟩] := by
    intro rule hrule
    rw [mem_singleton.mp hrule]
    exact ⟨hS, forall_mem_singleton.mpr hO⟩
  have hsingle := h ⟨true, true, true, false, [⟨S, [O]⟩]⟩ rfl hrules
  simpa [isAllowed_iff, Granted] using hsingle

/-- The decision is the documented one for every table exactly when the caller's and the
target's names hold no star and no NUL, and the command no dot. -/
theorem isAllowed_iff_granted_iff (m q t c : List Char) (hm : ':' ∉ m) :
    (∀ p : Permissions, p.enabled = true → NulFree p.rules →
      (p.isAllowed (makeSubject m q) (makeObject t c) = true ↔ Granted p.rules m q t c)) ↔
    (Literal m ∧ Literal q) ∧ (Literal t ∧ Literal c) ∧ '.' ∉ c := by
  rw [← literal_makeSubject, ← literal_makeObject]
  constructor
  · intro h
    have hsubject : Literal (makeSubject m q) := by
      obtain ⟨O, hO, hmatch, hwild⟩ := exists_glob (makeObject t c)
      have hobject : objectMatches O (makeObject t c) = true := by
        rw [objectMatches, hmatch, Bool.true_or]
      refine literal_of_subjectMatches_iff fun S hS => ?_
      have := matches_iff_of_isAllowed_iff h hS hO
      have hgrants : ObjectGrants O t c := .inl (hwild _)
      rwa [and_iff_left hobject, and_iff_left hgrants] at this
    have hobjects : ∀ O, nul ∉ O →
        (objectMatches O (makeObject t c) = true ↔ ObjectGrants O t c) := by
      intro O hO
      have hstar : SubjectGrants ['*'] m q := .inl (wild_star _)
      have := matches_iff_of_isAllowed_iff h (S := ['*']) (by decide) hO
      rwa [and_iff_right ((subjectMatches_iff hm hsubject (by decide)).mpr hstar),
        and_iff_right hstar] at this
    have hobject := literal_of_objectMatches_iff hobjects
    exact ⟨hsubject, hobject, dot_notMem_of_objectMatches_iff hobject hobjects⟩
  · rintro ⟨hsubject, hobject, hc⟩ p hp hrules
    exact isAllowed_iff_granted hp hrules hm hc hsubject hobject

/-- Plain names: the decision follows the table, whatever it holds. -/
theorem isAllowed_iff_granted_nrpe : ':' ∉ "NRPEServer".toList ∧
    ∀ p : Permissions, p.enabled = true → NulFree p.rules →
    (p.isAllowed (makeSubject "NRPEServer".toList "10.0.0.5".toList)
        (makeObject "CheckHelpers".toList "check_ok".toList) = true ↔
      Granted p.rules "NRPEServer".toList "10.0.0.5".toList "CheckHelpers".toList
        "check_ok".toList) :=
  ⟨by decide, (isAllowed_iff_granted_iff _ _ _ _ (by decide)).mpr (by
    simp only [Literal]
    decide)⟩

/-- A rule for everyone does not cover a caller whose module is unknown, and a rule for one
command covers another whose name ends in a dot and that command. -/
theorem isAllowed_star_bob :
    (Permissions.isAllowed ⟨true, true, true, false, [⟨['*'], [['*']]⟩]⟩
        (makeSubject "*".toList "bob".toList) (makeObject "M".toList "c".toList) = false ∧
      Granted [⟨['*'], [['*']]⟩] "*".toList "bob".toList "M".toList "c".toList) ∧
    Permissions.isAllowed ⟨true, true, true, false, [⟨['*'], [['b']]⟩]⟩
        (makeSubject "N".toList []) (makeObject "M".toList "a.b".toList) = true ∧
      ¬ Granted [⟨['*'], [['b']]⟩] "N".toList [] "M".toList "a.b".toList := by
  refine ⟨⟨?_, ?_⟩, ?_, ?_⟩
  · have hglob : glob ['*'] "*:bob".toList = false :=
      (matcher_append_star [] [] ":bob".toList).trans scan_nil_cons
    have hsubject : subjectMatches ['*'] "*:bob".toList = false :=
      (subjectMatches_of_star_mem mem_cons_self (by decide)).trans hglob
    have hmake : makeSubject "*".toList "bob".toList = "*:bob".toList := rfl
    simp only [isAllowed, hmake, any_cons, any_nil, hsubject]
    rfl
  · exact ⟨_, mem_singleton_self _, .inl (wild_star _), _, mem_singleton_self _, .inl (wild_star _)⟩
  · have hsubject : subjectMatches ['*'] (makeSubject "N".toList []) = true := by
      refine (subjectMatches_iff (by decide) ?_ (by decide)).mpr (.inl (wild_star _))
      exact ⟨by decide, by decide⟩
    have hobject : objectMatches ['b'] "M.a.b".toList = true :=
      (congrArg₂ or rfl (glob_self ['b'])).trans (Bool.or_true _)
    exact (isAllowed_iff rfl).mpr ⟨_, mem_singleton_self _, hsubject, _,
      mem_singleton_self _, hobject⟩
  · rintro ⟨rule, hrule, -, O, hO, h⟩
    rw [mem_singleton.mp hrule, mem_singleton] at hO
    subst hO
    rcases h with h | ⟨-, h⟩
    all_goals exact absurd (h.length_eq (by decide)) (by decide)

/-! ## Loading the policy -/

/-- The settings of the policy, and how many reads of them come before one that throws. -/
structure Load where
  (enabled logDenials logAllows allowExec : List Char)
  policies : List (List Char × List Char)
  reads : ℕ

def Load.isOn (l : Load) : Bool := l.enabled = "true".toList ∨ l.enabled = "1".toList

def addRules (p : Permissions) (lines : List (List Char × List Char)) : Permissions :=
  lines.foldl (fun p line => p.addRule line.1 line.2) p

/-- The table is built aside, and put in force as far as it was read. -/
def loadPermissions (p : Permissions) (l : Load) : Permissions :=
  let fresh : Permissions := if l.reads = 0 then {} else { enabled := l.isOn }
  let fresh := if l.reads ≤ 1 then fresh else
    { fresh with logDenials := l.logDenials ≠ "false".toList }
  let fresh := if l.reads ≤ 2 then fresh else
    { fresh with logAllows := l.logAllows = "true".toList }
  let fresh := if l.reads ≤ 3 then fresh else
    { fresh with allowExec := l.allowExec ≠ "false".toList }
  -- the fifth read gives the subjects
  let fresh := fresh.addRules (l.policies.take (l.reads - 5))
  if 5 + l.policies.length ≤ l.reads then fresh
  else fresh.completeFailedLoad (l.reads ≠ 0) (3 < l.reads) p.enabled

theorem addRules_eq (p : Permissions) (lines : List (List Char × List Char)) :
    p.addRules lines = { p with rules := (addRules { rules := p.rules } lines).rules } := by
  induction lines generalizing p with
  | nil => rfl
  | cons line lines ih =>
    simp only [addRules, foldl_cons, addRule] at ih ⊢
    split_ifs <;> exact ih _

/-- The rules read before the exception. -/
def Load.rules (l : Load) : List Rule := (addRules {} (l.policies.take (l.reads - 5))).rules

def Load.exec (l : Load) : Bool := 3 < l.reads ∧ l.allowExec ≠ "false".toList

theorem loadPermissions_spec (p : Permissions) (l : Load) :
    (p.loadPermissions l).enabled = (if l.reads = 0 then p.enabled else l.isOn) ∧
      (p.loadPermissions l).allowExec = l.exec ∧ (p.loadPermissions l).rules = l.rules := by
  rw [loadPermissions, addRules_eq]
  -- by the read that throws; behind the fourth only the lines are left
  obtain ⟨enabled, denials, allows, exec, lines, _ | _ | _ | _ | reads⟩ := l
  all_goals simp [completeFailedLoad, apply_ite, Load.exec, Load.rules]
  all_goals omega

/-- Whatever throws: the policy is on as the last load that could read it says, and calls are
decided by what the newest load has read, with no rule of the loads before. -/
theorem foldl_loadPermissions (p : Permissions) (loads : List Load) :
    let q := loads.foldl loadPermissions p
    q.enabled = (loads.filter (·.reads ≠ 0)).getLast?.elim p.enabled Load.isOn ∧
      ∀ l ∈ loads.getLast?, q.isExecAllowed = (!q.enabled || l.exec) ∧
        ∀ subject object, q.isAllowed subject object =
          isAllowed { enabled := q.enabled, rules := l.rules } subject object := by
  induction loads using reverseRecOn with
  | nil => simp
  | append_singleton loads l ih =>
    obtain ⟨henabled, hexec, hrules⟩ := loadPermissions_spec (loads.foldl loadPermissions p) l
    simp only [foldl_concat, getLast?_concat, filter_append, isExecAllowed, isAllowed, hexec,
      hrules]
    refine ⟨?_, by simp⟩
    by_cases h : l.reads = 0 <;> simp [henabled, h, ih.1]

end Permissions

end Nscp.Service
