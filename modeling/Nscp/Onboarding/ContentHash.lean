import Nscp.Onboarding.Ini

/-!
# The content hash of an apply

An apply reloads the service when the hash of what it renders changes.  The hash is taken
over the INI text, which is not delimited, and over the scripts in the order of their names,
each with its size.  The text ends where a blank line is not followed by a heading.
-/

namespace Nscp.Onboarding

open IniSections Text List

/-- The staged scripts in the order the directory yields them: names relative to the
directory, and contents. -/
structure ScriptDir where
  files : List (Text × Text)
  distinct : (files.map Prod.fst).Nodup
  safe : ∀ file ∈ files, ':' ∉ file.1

def ScriptDir.sorted (dir : ScriptDir) : List (Text × Text) :=
  dir.files.mergeSort fun a b => decide (a.1 ≤ b.1)

def hashedFile (file : Text × Text) : Text :=
  "\nfile:".toList ++ (file.1 ++ ':' :: (Nat.toDigits 10 file.2.length ++ ':' :: file.2))

/-- What `compute_content_hash` feeds to the digest. -/
def hashedContent (fleetIni : Text) (dir : ScriptDir) : Text :=
  "ini:".toList ++ (fleetIni ++ dir.sorted.flatMap hashedFile)

/-! ## The end of the INI text -/

/-- Behind a blank line comes a heading. -/
def Headed : List Text → Prop
  | [] => True
  | line :: lines => (line = [] → ∃ name rest, lines = ('[' :: name) :: rest) ∧ Headed lines

variable {front lines : List Text}

theorem Headed.right (h : Headed (front ++ lines)) : Headed lines := by
  induction front with
  | nil => exact h
  | cons line front ih => exact ih h.2

theorem Headed.append (hfront : ∀ line ∈ front, line ≠ []) (h : Headed lines) :
    Headed (front ++ lines) := by
  induction front with
  | nil => exact h
  | cons line front ih =>
    obtain ⟨hline, hfront⟩ := forall_mem_cons.mp hfront
    exact ⟨fun hnil => absurd hnil hline, ih hfront⟩

theorem headed_lines (sections : IniSections) : Headed sections.lines := by
  rw [lines, Headed]
  refine ⟨fun h => absurd h (by decide), ?_⟩
  induction sections with
  | nil => trivial
  | cons s sections ih =>
    refine ⟨fun _ => ⟨_, _, rfl⟩, by simp, ?_⟩
    refine Headed.append (fun line hline => ?_) ih
    obtain ⟨e, -, rfl⟩ := mem_map.mp hline
    simp [entryLine]

/-- The text of a document ends with a line break, and a blank line in it is followed by a
heading. -/
structure Closed (text : Text) : Prop where
  last : ∃ front, text = front ++ ['\n']
  blank : ∀ front rest, text = front ++ '\n' :: '\n' :: rest → ∃ rest', rest = '[' :: rest'

theorem closed_print {sections : IniSections} (h : sections.Unbroken) :
    Closed sections.print where
  last := by
    rw [print_eq_lines]
    obtain ⟨lines, line, hlines⟩ := (eq_nil_or_concat sections.lines).resolve_left nofun
    exact ⟨lines.flatMap (· ++ ['\n']) ++ line, by simp [hlines]⟩
  blank front rest heq := by
    have hlines : sections.lines = front.splitOn '\n' ++ [] :: getlines '\n' rest := by
      rw [← getlines_flatMap h.lines, ← print_eq_lines, heq,
        getlines_append_delimiter, getlines_delimiter]
    obtain ⟨name, lines, hrest⟩ := (hlines ▸ headed_lines sections).right.1 rfl
    cases rest with
    | nil => cases hrest
    | cons c rest =>
      by_cases hc : c = '['
      · exact ⟨rest, by rw [hc]⟩
      · by_cases hbreak : c = '\n'
        · rw [hbreak, getlines_delimiter] at hrest
          cases hrest
        · cases htail : getlines '\n' rest with
          | nil => simp [getlines, htail, hbreak] at hrest; exact absurd hrest.1.1 hc
          | cons w ws =>
            rw [getlines_cons_of_ne hbreak htail] at hrest
            simp at hrest
            exact absurd hrest.1.1 hc

theorem closed_of_renderIni {f : Format} {config : Json} {text : Text}
    (h : renderIni f config = .ok text) : Closed text := by
  cases config with
  | object ms =>
    obtain ⟨rfl, hclean⟩ := renderIni_object h
    exact closed_print (unbroken_sectionsOf hclean)
  | _ => cases h

def Follows (rest : Text) : Prop :=
  rest = [] ∨ ∃ rest', rest = '\n' :: 'f' :: rest'

theorem follows_flatMap (files : List (Text × Text)) : Follows (files.flatMap hashedFile) := by
  cases files with
  | nil => exact .inl rfl
  | cons file files => exact .inr ⟨_, rfl⟩

/-- The longer of two texts would have a blank line without a heading. -/
theorem Closed.not_longer {text more rest rest' : Text} (h : Closed text)
    (h' : Closed (text ++ more)) (hrest : Follows rest) (heq : rest = more ++ rest') :
    more = [] := by
  obtain ⟨front, rfl⟩ := h.last
  match more, hrest with
  | [], _ => rfl
  | c :: more, .inl hnil => simp [hnil] at heq
  | c :: more, .inr ⟨_, hrest⟩ =>
    rw [hrest, cons_append] at heq
    obtain ⟨rfl, heq⟩ := List.cons.inj heq
    obtain ⟨more', rfl⟩ := h'.blank front more (by simp)
    cases heq

theorem Closed.append_inj {text text' rest rest' : Text} (h : Closed text) (h' : Closed text')
    (hrest : Follows rest) (hrest' : Follows rest') (heq : text ++ rest = text' ++ rest') :
    text = text' ∧ rest = rest' := by
  rcases append_eq_append_iff.mp heq with ⟨more, rfl, hmore⟩ | ⟨more, rfl, hmore⟩
  · simp_all [h.not_longer h' hrest hmore]
  · simp_all [h'.not_longer h hrest' hmore]

/-! ## The files -/

theorem append_cons_inj {d : Char} {w w' rest rest' : Text} (hw : d ∉ w) (hw' : d ∉ w')
    (h : w ++ d :: rest = w' ++ d :: rest') : w = w' ∧ rest = rest' := by
  obtain rfl : w = w' := by
    rw [← takeWhile_append_cons hw rest, h, takeWhile_append_cons hw']
  exact ⟨rfl, by simpa using h⟩

theorem colon_not_mem_toDigits (n : ℕ) : ':' ∉ Nat.toDigits 10 n := by
  intro h
  exact absurd (isDigit_of_mem_toDigits h) (by decide)

theorem flatMap_hashedFile_inj {files files' : List (Text × Text)}
    (hsafe : ∀ file ∈ files, ':' ∉ file.1) (hsafe' : ∀ file ∈ files', ':' ∉ file.1)
    (h : files.flatMap hashedFile = files'.flatMap hashedFile) : files = files' := by
  induction files generalizing files' with
  | nil =>
    cases files' with
    | nil => rfl
    | cons file' files' => cases h
  | cons file files ih =>
    cases files' with
    | nil => cases h
    | cons file' files' =>
      obtain ⟨hname, hsafe⟩ := forall_mem_cons.mp hsafe
      obtain ⟨hname', hsafe'⟩ := forall_mem_cons.mp hsafe'
      simp only [flatMap_cons, hashedFile, append_assoc, append_cancel_left_eq, cons_append] at h
      obtain ⟨hnames, h⟩ := append_cons_inj hname hname' h
      obtain ⟨hsizes, h⟩ := append_cons_inj (colon_not_mem_toDigits _)
        (colon_not_mem_toDigits _) h
      have hlength : file.2.length = file'.2.length := by
        rw [← Nat.ofDigitChars_ten_toDigits (n := file.2.length), hsizes,
          Nat.ofDigitChars_ten_toDigits]
      obtain ⟨hcontents, h⟩ := append_inj h hlength
      rw [Prod.ext hnames hcontents, ih hsafe hsafe' h]

theorem ScriptDir.sorted_perm (dir : ScriptDir) : dir.sorted.Perm dir.files :=
  mergeSort_perm _ _

theorem ScriptDir.sorted_pairwise (dir : ScriptDir) :
    dir.sorted.Pairwise fun a b => a.1 ≤ b.1 := by
  have hsorted : dir.sorted.Pairwise fun a b => decide (a.1 ≤ b.1) = true := by
    refine pairwise_mergeSort (fun a b c => ?_) (fun a b => ?_) dir.files
    · simpa using le_trans
    · simpa using le_total a.1 b.1
  simpa using hsorted

/-- Distinct names leave only one order. -/
theorem ScriptDir.sorted_eq_iff (dir dir' : ScriptDir) :
    dir.sorted = dir'.sorted ↔ dir.files.Perm dir'.files := by
  constructor
  · intro h
    exact dir.sorted_perm.symm.trans (h ▸ dir'.sorted_perm)
  · intro h
    have hperm := (dir.sorted_perm.trans h).trans dir'.sorted_perm.symm
    refine hperm.eq_of_pairwise (fun a b ha hb hab hba => ?_) dir.sorted_pairwise
      dir'.sorted_pairwise
    have hb' : b ∈ dir.files := dir.sorted_perm.mem_iff.mp (hperm.mem_iff.mpr hb)
    exact inj_on_of_nodup_map dir.distinct (dir.sorted_perm.mem_iff.mp ha) hb'
      (le_antisymm hab hba)

/-- The digest is fed the same bytes for two applied contents just when their INI texts are
the same and so are their scripts, whatever the order the directories yield them in. -/
theorem hashedContent_eq_iff {f f' : Format} {config config' : Json} {ini ini' : Text}
    (dir dir' : ScriptDir) (h : renderIni f config = .ok ini)
    (h' : renderIni f' config' = .ok ini') :
    hashedContent ini dir = hashedContent ini' dir' ↔ ini = ini' ∧ dir.files.Perm dir'.files := by
  rw [hashedContent, hashedContent, append_cancel_left_eq, ← ScriptDir.sorted_eq_iff]
  constructor
  · intro heq
    obtain ⟨hini, hfiles⟩ := (closed_of_renderIni h).append_inj (closed_of_renderIni h')
      (follows_flatMap _) (follows_flatMap _) heq
    refine ⟨hini, flatMap_hashedFile_inj (fun file hfile => ?_) (fun file hfile => ?_) hfiles⟩
    · exact dir.safe file (dir.sorted_perm.mem_iff.mp hfile)
    · exact dir'.safe file (dir'.sorted_perm.mem_iff.mp hfile)
  · rintro ⟨rfl, hfiles⟩
    rw [hfiles]

/-- A key that imitates a script in the INI text does not stand for one. -/
theorem hashedContent_ne_imitated :
    ∃ ini ini', renderIni stringsOnly (.object []) = .ok ini ∧
      renderIni stringsOnly (.object [("file:a:0:".toList, .string [])]) = .ok ini' ∧
      hashedContent ini ⟨[("a".toList, [])], by decide, by decide⟩ ≠
        hashedContent ini' ⟨[], by decide, by decide⟩ := by
  have hempty : renderIni stringsOnly (.object []) = .ok (print []) := rfl
  have hkey : renderIni stringsOnly (.object [("file:a:0:".toList, .string [])]) =
      .ok (print [("/".toList, [("file:a:0:".toList, [])])]) := rfl
  refine ⟨_, _, hempty, hkey, fun heq => ?_⟩
  have hini := ((hashedContent_eq_iff _ _ hempty hkey).mp heq).1
  revert hini
  decide

end Nscp.Onboarding
