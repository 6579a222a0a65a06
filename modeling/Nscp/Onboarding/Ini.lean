import Nscp.Library.Fallible
import Nscp.Library.OrderedMap
import Nscp.Onboarding.Json

/-!
# The rendered fleet configuration

`renderIni` writes a document as INI text: the names of the objects above a member, joined
with slashes, are its section, its own name is the key.  Nothing is quoted; names and values
with control characters are refused.  `readIni` is a reader of such text, and the document's
own account of what it sets is the list of its `leaves`.
-/

namespace Nscp.Onboarding

open Except Text OrderedMap List

/-- The two library functions that write numbers and nested values. -/
structure Format where
  xtosNonSci : UInt64 → Text
  serialize : Json → Text

@[ext] structure Setting where
  path : Text
  key : Text
  value : Text
deriving DecidableEq

/-- The sections in the order of their names, each with its keys in their order. -/
abbrev IniSections := List (Text × List (Text × Text))

namespace IniSections

section

variable (sections : IniSections)

def find (path key : Text) : Option Text :=
  (OrderedMap.lookup path sections).bind (OrderedMap.lookup key)

def store (x : Setting) : IniSections :=
  OrderedMap.insert x.path
    (OrderedMap.insert x.key x.value ((OrderedMap.lookup x.path sections).getD [])) sections

/-- What is written under the headings. -/
def entries : List Setting :=
  sections.flatMap fun s => s.2.map fun e => ⟨s.1, e.1, e.2⟩

end

end IniSections

open IniSections

/-! ## Rendering -/

def isControl (c : Char) : Bool :=
  (c.toNat < 0x20 && c != '\t') || c.toNat == 0x7f

def rejectControlChars (value : Text) (what : String) : Except String Unit :=
  if value.any isControl then
    .error ("Managed configuration " ++ what ++ " contains a control character")
  else .ok ()

namespace Format

variable (f : Format)

def formatIniValue : Json → Text
  | .string s => s
  | .bool b => if b then "true".toList else "false".toList
  | .double bits => f.xtosNonSci bits
  | v => f.serialize v

def joined (xs : List Json) : Text :=
  xs.foldl
    (fun joined x => (if joined.isEmpty then joined else joined ++ [',']) ++ f.formatIniValue x) []

end Format

def sectionName (path : Text) : Text :=
  if path.isEmpty then ['/'] else path

mutual

def collectIni (f : Format) (path : Text) (sections : IniSections) :
    Members → Except String IniSections
  | [] => .ok sections
  | (key, value) :: ms => do
      rejectControlChars key "key"
      let sections ← collectValue f path key sections value
      collectIni f path sections ms

def collectValue (f : Format) (path key : Text) (sections : IniSections) :
    Json → Except String IniSections
  | .object ms => collectIni f (path ++ '/' :: key) sections ms
  | .null => .ok sections
  | .array xs => do
      rejectControlChars (f.joined xs) "value"
      return sections.store ⟨sectionName path, key, f.joined xs⟩
  | value => do
      rejectControlChars (f.formatIniValue value) "value"
      return sections.store ⟨sectionName path, key, f.formatIniValue value⟩

end

def iniHeader : Text :=
  "; Managed by the fleet sync - DO NOT EDIT, changes are overwritten on the next sync.".toList

def IniSections.print (sections : IniSections) : Text :=
  iniHeader ++ '\n' :: sections.flatMap fun s =>
    '\n' :: '[' :: s.1 ++ ']' :: '\n' :: s.2.flatMap fun e => e.1 ++ '=' :: e.2 ++ ['\n']

def renderIni (f : Format) : Json → Except String Text
  | .object ms => do
      let sections ← collectIni f [] [] ms
      return sections.print
  | _ => .error "Managed configuration must be a JSON object"

/-! ## The members a document sets -/

structure Leaf where
  names : List Text
  key : Text
  value : Json

mutual

def leaves (names : List Text) : Members → List Leaf
  | [] => []
  | (key, value) :: ms => leavesOf names key value ++ leaves names ms

def leavesOf (names : List Text) (key : Text) : Json → List Leaf
  | .object ms => leaves (names ++ [key]) ms
  | .null => []
  | value => [⟨names, key, value⟩]

end

def pathOf (names : List Text) : Text :=
  names.flatMap fun name => '/' :: name

def Format.rendered (f : Format) : Json → Text
  | .array xs => f.joined xs
  | value => f.formatIniValue value

def Leaf.setting (f : Format) (l : Leaf) : Setting :=
  ⟨sectionName (pathOf l.names), l.key, f.rendered l.value⟩

/-- The settings of the document, in the order in which they are stored. -/
def settings (f : Format) (ms : Members) : List Setting :=
  (leaves [] ms).map (Leaf.setting f)

def sectionsOf (f : Format) (ms : Members) : IniSections :=
  (settings f ms).foldl store []

/-! ## Reading -/

inductive Line
  | heading (name : Text)
  | ignored
  | setting (key value : Text)
deriving DecidableEq

def upTo (c : Char) (text : Text) : Text :=
  text.takeWhile (· ≠ c)

def isComment (line : Text) : Bool :=
  line.head? = some ';' ∨ line.head? = some '#'

def readLine (line : Text) : Line :=
  match line.dropWhile isSpace with
  | [] => .ignored
  | c :: rest =>
    if c = '[' then
      if ']' ∈ rest then .heading (upTo ']' rest) else .ignored
    else if isComment line then .ignored
    else .setting (trim (upTo '=' line)) (trim (line.drop ((upTo '=' line).length + 1)))

def readLines (path : Text) : List Text → List Setting
  | [] => []
  | line :: lines =>
    match readLine line with
    | .heading name => readLines name lines
    | .ignored => readLines path lines
    | .setting key value => ⟨path, key, value⟩ :: readLines path lines

def readIni (text : Text) : List Setting :=
  readLines [] (getlines '\n' text)

/-! ## What rendering stores -/

def Clean (text : Text) : Prop :=
  text.any isControl = false

/-- Neither a name above the member nor its own, nor its value, holds a control character. -/
def Leaf.Clean (f : Format) (l : Leaf) : Prop :=
  (∀ name ∈ l.names, Onboarding.Clean name) ∧ Onboarding.Clean l.key ∧
    Onboarding.Clean (f.rendered l.value)

section Collecting

variable {f : Format} {names : List Text} {sections out : IniSections}

theorem pathOf_concat (names : List Text) (key : Text) :
    pathOf (names ++ [key]) = pathOf names ++ '/' :: key := by
  simp [pathOf]

theorem rejectControlChars_bind_eq_ok {α : Type} {value : Text} {what : String}
    {k : Unit → Except String α} {a : α} (h : (rejectControlChars value what >>= k) = .ok a) :
    Clean value ∧ k () = .ok a := by
  rw [rejectControlChars] at h
  split_ifs at h with hcontrol
  · cases h
  · exact ⟨Bool.eq_false_iff.mpr hcontrol, h⟩

/-- What the walk over the members has stored, and what it has accepted. -/
def Collected (f : Format) (names : List Text) (ls : List Leaf) (sections out : IniSections) :
    Prop :=
  out = (ls.map (Leaf.setting f)).foldl store sections ∧
    ((∀ name ∈ names, Clean name) → ∀ l ∈ ls, l.Clean f)

theorem Collected.nil : Collected f names [] sections sections :=
  ⟨rfl, fun _ => forall_mem_nil _⟩

theorem Collected.append {ls ls' : List Leaf} {mid : IniSections}
    (h : Collected f names ls sections mid) (h' : Collected f names ls' mid out) :
    Collected f names (ls ++ ls') sections out := by
  refine ⟨?_, fun hnames => forall_mem_append.mpr ⟨h.2 hnames, h'.2 hnames⟩⟩
  rw [map_append, foldl_append, ← h.1, h'.1]

theorem Collected.leaf {key : Text} {value : Json} (hkey : Clean key)
    (h : (do
      rejectControlChars (f.rendered value) "value"
      return sections.store ⟨sectionName (pathOf names), key, f.rendered value⟩) = ok out) :
    Collected f names [⟨names, key, value⟩] sections out := by
  obtain ⟨hvalue, hout⟩ := rejectControlChars_bind_eq_ok h
  refine ⟨(ok.inj hout).symm, fun hnames l hl => ?_⟩
  obtain rfl := mem_singleton.mp hl
  exact ⟨hnames, hkey, hvalue⟩

mutual

theorem collected_collectIni {names : List Text} {sections out : IniSections} : ∀ {ms : Members},
    collectIni f (pathOf names) sections ms = .ok out →
      Collected f names (leaves names ms) sections out
  | [], h => ok.inj h ▸ Collected.nil
  | (key, value) :: ms, h => by
      rw [collectIni] at h
      obtain ⟨hkey, h⟩ := rejectControlChars_bind_eq_ok h
      obtain ⟨mid, hvalue, hrest⟩ := Fallible.bind_eq_ok h
      rw [leaves]
      exact (collected_collectValue hkey hvalue).append (collected_collectIni hrest)

theorem collected_collectValue {names : List Text} {key : Text} {sections out : IniSections}
    (hkey : Clean key) : ∀ {value : Json},
    collectValue f (pathOf names) key sections value = .ok out →
      Collected f names (leavesOf names key value) sections out
  | .object ms, h => by
      rw [collectValue, ← pathOf_concat] at h
      obtain ⟨hout, hclean⟩ := collected_collectIni h
      rw [leavesOf]
      refine ⟨hout, fun hnames => hclean ?_⟩
      exact forall_mem_append.mpr ⟨hnames, forall_mem_singleton.mpr hkey⟩
  | .null, h => ok.inj h ▸ Collected.nil
  | .array _, h => Collected.leaf hkey h
  | .string _, h => Collected.leaf hkey h
  | .bool _, h => Collected.leaf hkey h
  | .int _, h => Collected.leaf hkey h
  | .double _, h => Collected.leaf hkey h

end

theorem eq_sectionsOf {ms : Members} (h : collectIni f [] [] ms = .ok sections) :
    sections = sectionsOf f ms := by
  have hcollect : collectIni f (pathOf []) [] ms = .ok sections := h
  exact (collected_collectIni hcollect).1

theorem renderIni_object {ms : Members} {text : Text} (h : renderIni f (.object ms) = .ok text) :
    text = (sectionsOf f ms).print ∧ ∀ l ∈ leaves [] ms, l.Clean f := by
  obtain ⟨sections, hsections, htext⟩ := Fallible.bind_eq_ok h
  have hcollect : collectIni f (pathOf []) [] ms = .ok sections := hsections
  refine ⟨?_, (collected_collectIni hcollect).2 (forall_mem_nil _)⟩
  rw [← ok.inj htext, eq_sectionsOf hsections]

end Collecting

/-! ## The lines of a rendered document -/

def IniSections.Unbroken (sections : IniSections) : Prop :=
  ∀ s ∈ sections, '\n' ∉ s.1 ∧ ∀ e ∈ s.2, '\n' ∉ e.1 ∧ '\n' ∉ e.2

def entryLine (e : Text × Text) : Text :=
  e.1 ++ '=' :: e.2

def IniSections.lines (sections : IniSections) : List Text :=
  iniHeader :: sections.flatMap fun s => [] :: ('[' :: s.1 ++ [']']) :: s.2.map entryLine

namespace IniSections

variable {sections : IniSections}

theorem print_eq_lines (sections : IniSections) :
    sections.print = sections.lines.flatMap (· ++ ['\n']) := by
  rw [print, lines, flatMap_cons, flatMap_assoc, append_assoc]
  simp [flatMap_map, entryLine]

theorem Unbroken.lines (h : sections.Unbroken) : ∀ line ∈ sections.lines, '\n' ∉ line := by
  refine forall_mem_cons.mpr ⟨by decide, fun line hline => ?_⟩
  obtain ⟨s, hs, hline⟩ := mem_flatMap.mp hline
  obtain ⟨hname, hentries⟩ := h s hs
  rcases mem_cons.mp hline with rfl | hline
  · exact not_mem_nil
  rcases mem_cons.mp hline with rfl | hline
  · simpa using hname
  obtain ⟨e, he, rfl⟩ := mem_map.mp hline
  obtain ⟨hkey, hvalue⟩ := hentries e he
  simpa [entryLine] using ⟨hkey, hvalue⟩

/-- What holds of the stored settings holds of what is under each heading. -/
theorem forall_mem_foldl_store {P : Text → Prop} {Q : Text → Text × Text → Prop}
    {xs : List Setting} (h : ∀ x ∈ xs, P x.path ∧ Q x.path (x.key, x.value)) :
    ∀ s ∈ xs.foldl store [], P s.1 ∧ ∀ e ∈ s.2, Q s.1 e := by
  refine List.foldlRecOn (motive := fun m : IniSections => ∀ s ∈ m, P s.1 ∧ ∀ e ∈ s.2, Q s.1 e) xs
    store (forall_mem_nil _) fun sections hsections x hx s hs => ?_
  obtain ⟨hpath, hentry⟩ := h x hx
  rcases mem_insert hs with rfl | hs
  · refine ⟨hpath, fun e he => ?_⟩
    rcases mem_insert he with rfl | he
    · exact hentry
    cases hlookup : OrderedMap.lookup x.path sections with
    | none =>
      rw [hlookup] at he
      cases he
    | some es =>
      rw [hlookup] at he
      exact (hsections _ (mem_of_lookup hlookup)).2 e he
  · exact hsections s hs

end IniSections

theorem Clean.not_newline {text : Text} (h : Clean text) : '\n' ∉ text := by
  intro hmem
  have hcontrol : text.any isControl = true := any_eq_true.mpr ⟨_, hmem, by decide⟩
  rw [h] at hcontrol
  cases hcontrol

theorem newline_not_mem_sectionName {names : List Text} (h : ∀ name ∈ names, Clean name) :
    '\n' ∉ sectionName (pathOf names) := by
  rw [sectionName]
  split_ifs
  · decide
  · intro hmem
    obtain ⟨name, hname, hmem⟩ := mem_flatMap.mp hmem
    rcases mem_cons.mp hmem with heq | hmem
    · cases heq
    · exact (h name hname).not_newline hmem

theorem unbroken_sectionsOf {f : Format} {ms : Members} (h : ∀ l ∈ leaves [] ms, l.Clean f) :
    (sectionsOf f ms).Unbroken := by
  refine forall_mem_foldl_store (P := fun name => '\n' ∉ name)
    (Q := fun _ e => '\n' ∉ e.1 ∧ '\n' ∉ e.2) fun x hx => ?_
  obtain ⟨l, hl, rfl⟩ := mem_map.mp hx
  obtain ⟨hnames, hkey, hvalue⟩ := h l hl
  exact ⟨newline_not_mem_sectionName hnames, hkey.not_newline, hvalue.not_newline⟩

/-! ## How a rendered document is read -/

/-- The entry is taken for a setting: neither for a heading nor for a comment. -/
def ReadsAsSetting (e : Text × Text) : Prop :=
  (e.1.dropWhile isSpace).head? ≠ some '[' ∧ isComment e.1 = false

instance (e : Text × Text) : Decidable (ReadsAsSetting e) :=
  inferInstanceAs (Decidable (_ ∧ _))

/-- The section a heading in the place of an entry opens. -/
def opens (e : Text × Text) : Option Text :=
  match e.1.dropWhile isSpace with
  | [] => none
  | c :: rest =>
    if c = '[' ∧ ']' ∈ rest ++ '=' :: e.2 then some (upTo ']' (rest ++ '=' :: e.2)) else none

def readSetting (path : Text) (e : Text × Text) : Setting :=
  ⟨path, trim (upTo '=' e.1), trim ((entryLine e).drop ((upTo '=' e.1).length + 1))⟩

section Reading

variable {path : Text} {e : Text × Text} {es : List (Text × Text)}

theorem dropWhile_entryLine (e : Text × Text) :
    (entryLine e).dropWhile isSpace = e.1.dropWhile isSpace ++ '=' :: e.2 := by
  have hsign : ('=' :: e.2).dropWhile isSpace = '=' :: e.2 :=
    dropWhile_cons_of_neg (by decide)
  rw [entryLine, dropWhile_append, hsign]
  split_ifs with h
  · rw [isEmpty_iff.mp h, nil_append]
  · rfl

theorem isComment_entryLine (e : Text × Text) : isComment (entryLine e) = isComment e.1 := by
  obtain ⟨key, value⟩ := e
  cases key <;> rfl

theorem upTo_append_cons (c : Char) (text rest : Text) :
    upTo c (text ++ c :: rest) = upTo c text := by
  rw [upTo, takeWhile_append]
  split_ifs with h
  · rw [takeWhile_cons_of_neg (by simp), append_nil, upTo]
    exact ((takeWhile_sublist _).eq_of_length h).symm
  · rfl

theorem readLine_entryLine (e : Text × Text) :
    readLine (entryLine e) = if ReadsAsSetting e then
        .setting (readSetting [] e).key (readSetting [] e).value
      else (opens e).elim .ignored .heading := by
  have hkey : upTo '=' (entryLine e) = upTo '=' e.1 := upTo_append_cons '=' e.1 e.2
  rw [readLine, dropWhile_entryLine, isComment_entryLine, hkey]
  cases hrest : e.1.dropWhile isSpace with
  | nil =>
    cases hcomment : isComment e.1 <;>
      simp [ReadsAsSetting, opens, readSetting, hrest, hcomment]
  | cons c rest =>
    by_cases hc : c = '['
    · by_cases hclosed : ']' ∈ rest ++ '=' :: e.2
      all_goals simp [ReadsAsSetting, opens, hrest, hc, hclosed]
    · cases hcomment : isComment e.1 <;>
        simp [ReadsAsSetting, opens, readSetting, hrest, hc, hcomment]

theorem readLines_entryLine_cons (path : Text) (e : Text × Text) (lines : List Text) :
    readLines path (entryLine e :: lines) =
      if ReadsAsSetting e then readSetting path e :: readLines path lines
      else readLines ((opens e).getD path) lines := by
  rw [readLines, readLine_entryLine]
  split_ifs
  · rfl
  · cases opens e <;> rfl

/-- The line of the setting is read as the setting or not at all, and its section stays open. -/
def Setting.Plain (x : Setting) : Prop :=
  (∀ name ∈ opens (x.key, x.value), name = x.path) ∧
    (ReadsAsSetting (x.key, x.value) →
      ']' ∉ x.path ∧ '=' ∉ x.key ∧ trim x.key = x.key ∧ trim x.value = x.value)

instance (x : Setting) : Decidable x.Plain :=
  inferInstanceAs (Decidable (_ ∧ (_ → _)))

theorem upTo_eq_self {c : Char} {text : Text} (h : c ∉ text) : upTo c text = text :=
  takeWhile_eq_self_iff.mpr fun _ hd => decide_eq_true (ne_of_mem_of_not_mem hd h)

/-- Under a heading that is read in full, or that no line is read under, plain entries are read as
they are written. -/
theorem exists_of_mem_readLines {name : Text} {x : Setting}
    (hplain : ∀ e ∈ es, (⟨name, e.1, e.2⟩ : Setting).Plain) (hpath : path = name ∨ ']' ∈ name)
    (hx : x ∈ readLines path (es.map entryLine)) : ∃ e ∈ es, x = ⟨name, e.1, e.2⟩ := by
  induction es generalizing path with
  | nil => cases hx
  | cons e es ih =>
    obtain ⟨⟨hopens, hreads⟩, hrest⟩ := forall_mem_cons.mp hplain
    rw [map_cons, readLines_entryLine_cons] at hx
    split_ifs at hx with he
    · obtain ⟨hname, hkey, htrim, hvalue⟩ := hreads he
      obtain rfl := hpath.resolve_right hname
      rcases mem_cons.mp hx with rfl | hx
      · have hrest : (entryLine e).drop (e.1.length + 1) = e.2 := by simp [entryLine, drop_append]
        refine ⟨e, mem_cons_self, ?_⟩
        rw [readSetting, upTo_eq_self hkey, htrim, hrest, hvalue]
      · obtain ⟨e', he', heq⟩ := ih hrest hpath hx
        exact ⟨e', mem_cons_of_mem e he', heq⟩
    · have hopen : (opens e).getD path = name ∨ ']' ∈ name := by
        cases hsection : opens e with
        | none => exact hpath
        | some section' => exact .inl (hopens section' hsection)
      obtain ⟨e', he', heq⟩ := ih hrest hopen hx
      exact ⟨e', mem_cons_of_mem e he', heq⟩

theorem exists_readLines_append (path : Text) (lines : List Text) :
    ∃ path', ∀ rest,
      readLines path (lines ++ rest) = readLines path lines ++ readLines path' rest := by
  induction lines generalizing path with
  | nil => exact ⟨path, fun _ => rfl⟩
  | cons line lines ih =>
    cases hline : readLine line with
    | heading name =>
      obtain ⟨path', h⟩ := ih name
      refine ⟨path', fun rest => ?_⟩
      rw [cons_append, readLines, readLines, hline]
      exact h rest
    | ignored =>
      obtain ⟨path', h⟩ := ih path
      refine ⟨path', fun rest => ?_⟩
      rw [cons_append, readLines, readLines, hline]
      exact h rest
    | setting key value =>
      obtain ⟨path', h⟩ := ih path
      refine ⟨path', fun rest => ?_⟩
      rw [cons_append, readLines, readLines, hline]
      exact congrArg (⟨path, key, value⟩ :: ·) (h rest)

theorem readLine_heading (name : Text) :
    readLine ('[' :: name ++ [']']) = .heading (upTo ']' name) := by
  have hcut : upTo ']' (name ++ [']']) = upTo ']' name := upTo_append_cons ']' name []
  rw [cons_append, readLine, dropWhile_cons_of_neg (by decide)]
  simp [hcut]

theorem readLines_sections (path : Text) (sections : IniSections) :
    readLines path
        (sections.flatMap fun s => [] :: ('[' :: s.1 ++ [']']) :: s.2.map entryLine) =
      sections.flatMap fun s => readLines (upTo ']' s.1) (s.2.map entryLine) := by
  induction sections generalizing path with
  | nil => rfl
  | cons s sections ih =>
    obtain ⟨path', h⟩ := exists_readLines_append (upTo ']' s.1) (s.2.map entryLine)
    rw [flatMap_cons, cons_append, cons_append, readLines, readLines,
      readLine_heading, flatMap_cons, ← ih path']
    exact h _

end Reading

/-! ## Settings a reader finds -/

section Found

variable {f : Format} {ms : Members} {text : Text}

theorem readIni_renderIni (h : renderIni f (.object ms) = .ok text) :
    readIni text =
      (sectionsOf f ms).flatMap fun s => readLines (upTo ']' s.1) (s.2.map entryLine) := by
  obtain ⟨rfl, hclean⟩ := renderIni_object h
  have hlines := (unbroken_sectionsOf hclean).lines
  rw [readIni, print_eq_lines, getlines_flatMap hlines]
  exact readLines_sections [] (sectionsOf f ms)

/-- Two members of one object: the first one's name reads as a heading, and the second one is
found in the section it opens. -/
def headingName : Members :=
  [("a".toList, .object
    [("[/b]".toList, .string "1".toList), ("c".toList, .string "2".toList)])]

def stringsOnly : Format :=
  ⟨fun _ => [], fun _ => []⟩

/-- A bracket and a sign inside a value, and a name that makes its line a comment. -/
def plainNames : Members :=
  [("a".toList,
    .object [("b c".toList, .string "[x]=y".toList), ("#d".toList, .string " ".toList)])]

end Found

end Nscp.Onboarding
