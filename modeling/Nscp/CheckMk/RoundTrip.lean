import Nscp.CheckMk.Packet

/-!
# Reading back what was written

The writer joins the items of a line with the section's own separator; the reader
cuts every line at spaces.  The two also disagree about a title in angle brackets,
whose header looks like that of a piggyback block.  A packet survives writing and
reading exactly when neither happens.

One count carries the necessity part.  Reading cannot make more text and titled sections than
there are lines to read, so no separator is a line break and every header was recognised; and
then sections and lines correspond one to one.
-/

namespace Nscp.CheckMk

open Reader PiggybackBlock Text List

/-! ## Brackets -/

variable (n : ℕ) {c : Char}

section

variable (text : List Char)

theorem length_wrap : (wrap n text).length = text.length + 2 * n := by
  simp only [wrap, length_append, length_replicate]
  omega

theorem wrapped_wrap : wrapped n (wrap n text) = true := by
  have hlen := length_wrap n text
  have htake : (wrap n text).take n = List.replicate n '<' := by
    rw [wrap, take_left' (by simp)]
  have hdrop : (wrap n text).drop ((wrap n text).length - n) = List.replicate n '>' := by
    rw [hlen, wrap, ← append_assoc, drop_left']
    simp only [length_append, length_replicate]
    omega
  rw [wrapped, decide_eq_true_eq]
  exact ⟨by omega, htake, hdrop⟩

theorem inside_wrap : inside n (wrap n text) = text := by
  rw [inside, length_wrap, wrap, drop_left' (by simp), take_left' (by omega)]

theorem getLast?_wrap : (wrap (n + 1) text).getLast? = some '>' := by
  rw [wrap, getLast?_append, getLast?_append]
  simp [getLast?_replicate]

theorem stripCr_wrap : stripCr (wrap (n + 1) text) = wrap (n + 1) text := by
  rw [stripCr, getLast?_wrap, if_neg (by decide)]

theorem isPb_wrap_three_iff :
    isPb (wrap 3 text) = true ↔ ∃ inner, text = '<' :: (inner ++ ['>']) := by
  have hlen := length_wrap 3 text
  rw [isPb, wrapped, decide_eq_true_eq]
  constructor
  · rintro ⟨hsize, htake, hdrop⟩
    obtain ⟨a, rest, rfl⟩ := exists_cons_of_length_pos (show 0 < text.length by omega)
    have hrest : rest ≠ [] := by
      rintro rfl
      simp at hlen
      omega
    obtain ⟨inner, b, rfl⟩ := (eq_nil_or_concat rest).resolve_left hrest
    have ha : a = '<' := by
      rw [wrap] at htake
      simpa using htake
    have hb : b = '>' := by
      have hsplit : wrap 3 (a :: (inner.concat b)) =
          (List.replicate 3 '<' ++ (a :: inner)) ++ (b :: List.replicate 3 '>') := by
        simp [wrap]
      rw [hsplit, drop_left'] at hdrop
      · simpa using hdrop
      · simp
    exact ⟨inner, by rw [ha, hb, concat_eq_append]⟩
  · rintro ⟨inner, rfl⟩
    have hfour : wrap 3 ('<' :: (inner ++ ['>'])) = wrap 4 inner := by
      simp [wrap, replicate_succ, append_assoc]
    have h := wrapped_wrap 4 inner
    rw [wrapped, decide_eq_true_eq] at h
    rw [hfour]
    exact h

end

/-! ## Headers -/

namespace Section

theorem applyOption_option (s : Section) {name : List Char} (hname : '(' ∉ name)
    (args : List Char) : s.applyOption (option name args) = s.decorate name args := by
  have htake := takeWhile_append_cons hname (args ++ [')'])
  have hdrop := drop_append_cons '(' name (args ++ [')'])
  have hlast : (option name args).getLast? = some ')' := by
    rw [option, getLast?_append, ← cons_append, getLast?_append]
    rfl
  rw [applyOption, if_pos ⟨by simp [option], hlast⟩]
  simp only [option, htake, hdrop, dropLast_concat]

end Section

theorem stoi_decimal (code : Int32) : stoi (decimal code.toInt) = some code := by
  have hlo := code.le_toInt
  have hhi := code.toInt_lt
  rw [stoi, leadingInteger_decimal, Option.bind_some, if_pos ⟨by omega, by omega⟩,
    Int32.ofInt_toInt]

theorem stoll_decimal (value : Int64) : stoll (decimal value.toInt) = some value := by
  have hlo := value.le_toInt
  have hhi := value.toInt_lt
  rw [stoll, leadingInteger_decimal, Option.bind_some, if_pos ⟨by omega, by omega⟩,
    Int64.ofInt_toInt]

namespace Section

variable (s : Section)

theorem decorate_sep (code : Int32) :
    s.decorate sepName (decimal code.toInt) = { s with separator := some code } := by
  rw [decorate, if_pos rfl, stoi_decimal]

theorem decorate_cached (gen interval : Int64) :
    s.decorate cachedName (decimal gen.toInt ++ ',' :: decimal interval.toInt) =
      { s with cached := some (gen, interval) } := by
  have hcomma := not_mem_decimal (c := ',') (by decide) gen.toInt
  have htake := takeWhile_append_cons hcomma (decimal interval.toInt)
  have hdrop := drop_append_cons ',' (decimal gen.toInt) (decimal interval.toInt)
  rw [decorate, if_neg (by decide), if_pos rfl, if_pos (by simp)]
  simp only [htake, hdrop, stoll_decimal]

theorem decorate_persist (epoch : Int64) :
    s.decorate persistName (decimal epoch.toInt) = { s with persistUntil := some epoch } := by
  rw [decorate, if_neg (by decide), if_neg (by decide), if_pos rfl, stoll_decimal]

theorem not_mem_option {name args : List Char} (hname : c ∉ name) (hargs : c ∉ args)
    (hopen : c ≠ '(') (hclose : c ≠ ')') : c ∉ option name args := by
  simp [option, hname, hargs, hopen, hclose]

structure Foreign (c : Char) : Prop where
  names : c ∉ sepName ∧ c ∉ cachedName ∧ c ∉ persistName
  marks : c ≠ '(' ∧ c ≠ ')' ∧ c ≠ ','
  number : c ≠ '-' ∧ c.isDigit = false

theorem not_mem_options (hc : Foreign c) (s : Section) : ∀ opt ∈ s.options, c ∉ opt := by
  have hnumber := not_mem_decimal hc.number
  intro opt hopt
  simp only [options, mem_append, mem_map] at hopt
  rcases hopt with ⟨code, -, rfl⟩ | ⟨value, -, rfl⟩ | ⟨epoch, -, rfl⟩
  · exact not_mem_option hc.names.1 (hnumber _) hc.marks.1 hc.marks.2.1
  · refine not_mem_option hc.names.2.1 ?_ hc.marks.1 hc.marks.2.1
    simp [hnumber, hc.marks.2.2]
  · exact not_mem_option hc.names.2.2 (hnumber _) hc.marks.1 hc.marks.2.1

/-- The section a header stands for: everything but the lines. -/
def bare (s : Section) : Section := { s with lines := [] }

theorem foldl_applyOption_toList {α : Type} {name : List Char} (hname : '(' ∉ name)
    (args : α → List Char) (value : Option α) (s : Section) (set : Option α → Section)
    (hnone : set none = s) (hsome : ∀ v, s.decorate name (args v) = set (some v)) :
    (value.toList.map fun v => option name (args v)).foldl applyOption s = set value := by
  cases value with
  | none => exact hnone.symm
  | some v =>
    rw [Option.toList_some, map_singleton, foldl_cons, foldl_nil, applyOption_option s hname, hsome]

theorem foldl_applyOption_options : s.options.foldl applyOption { title := s.title } = s.bare := by
  have hsep := foldl_applyOption_toList (by decide : '(' ∉ sepName)
    (fun code : Int32 => decimal code.toInt) s.separator { title := s.title }
    (fun v => { title := s.title, separator := v }) rfl (decorate_sep _)
  have hcached := foldl_applyOption_toList (by decide : '(' ∉ cachedName)
    (fun c : Int64 × Int64 => decimal c.1.toInt ++ ',' :: decimal c.2.toInt) s.cached
    { title := s.title, separator := s.separator }
    (fun v => { title := s.title, separator := s.separator, cached := v }) rfl
    (fun c => decorate_cached _ c.1 c.2)
  have hpersist := foldl_applyOption_toList (by decide : '(' ∉ persistName)
    (fun epoch : Int64 => decimal epoch.toInt) s.persistUntil
    { title := s.title, separator := s.separator, cached := s.cached }
    (fun v => { s.bare with persistUntil := v }) rfl (decorate_persist _)
  rw [options, foldl_append, hsep, foldl_append, hcached, hpersist]
  rfl

theorem parseSectionHeader_inner (htitle : ':' ∉ s.title) :
    parseSectionHeader (s.title ++ s.options.flatMap (':' :: ·)) = s.bare := by
  have hcolon : ∀ w ∈ s.title :: s.options, ':' ∉ w := by
    intro w hw
    rcases mem_cons.mp hw with rfl | hw
    · exact htitle
    · exact not_mem_options ⟨by decide, by decide, by decide⟩ s w hw
  rw [← intercalate_cons_eq_flatMap, parseSectionHeader,
    splitOn_intercalate ':' hcolon (cons_ne_nil _ _)]
  exact foldl_applyOption_options s

theorem isPb_header_iff :
    isPb s.header = true ↔ s.options = [] ∧ ∃ inner, s.title = '<' :: (inner ++ ['>']) := by
  rw [header, isPb_wrap_three_iff]
  constructor
  · rintro ⟨inner, hinner⟩
    cases hopts : s.options with
    | nil =>
      rw [hopts, flatMap_nil, append_nil] at hinner
      exact ⟨rfl, inner, hinner⟩
    | cons opt opts =>
      -- a decoration ends with a parenthesis
      have hlast : ∀ o ∈ s.options, o.getLast? = some ')' := by
        intro o ho
        simp only [options, mem_append, mem_map] at ho
        rcases ho with ⟨code, -, rfl⟩ | ⟨value, -, rfl⟩ | ⟨epoch, -, rfl⟩ <;>
          simp [option, getLast?_append, getLast?_cons]
      have hend : (s.title ++ s.options.flatMap (':' :: ·)).getLast? = some ')' := by
        obtain ⟨front, back, hback⟩ := (eq_nil_or_concat s.options).resolve_left
          (by rw [hopts]; exact cons_ne_nil _ _)
        have hmem : back ∈ s.options := by rw [hback]; simp
        have hb := hlast back hmem
        rw [hback, concat_eq_append, flatMap_append, ← append_assoc, getLast?_append]
        simp [getLast?_cons, hb]
      rw [hinner] at hend
      simp [getLast?_cons, getLast?_append] at hend
  · rintro ⟨hopts, inner, hinner⟩
    exact ⟨inner, by rw [hopts, flatMap_nil, append_nil, hinner]⟩

end Section

/-! ## What can be written -/

def NoBreak (text : List Char) : Prop := '\n' ∉ text ∧ '\r' ∉ text

def looksLikeHeader (chunk : List Char) : Bool := isPb chunk || isSection chunk

theorem looksLikeHeader_eq (chunk : List Char) :
    looksLikeHeader chunk = (isPb chunk || wrapped 3 chunk) := by
  rw [looksLikeHeader, isSection]
  cases isPb chunk <;> simp

/-- The sections the round trip is about: nothing in a text is mistaken for the
structure around it by the format itself. -/
structure Section.Proper (s : Section) : Prop where
  title_ne_nil : s.title ≠ []
  colon : ':' ∉ s.title
  title_noBreak : NoBreak s.title
  items : ∀ l ∈ s.lines, ∀ item ∈ l, NoBreak item ∧ s.separatorChar ∉ item
  last : ∀ l ∈ s.lines, ∀ item ∈ l.getLast?, item ≠ []
  plain : ∀ l ∈ s.lines, looksLikeHeader (l.render s.separatorChar) = false

structure Packet.Proper (p : Packet) : Prop where
  sections : ∀ s ∈ p.sectionList, s.Proper
  hosts_nodup : (p.piggybacks.map host).Nodup
  hosts : ∀ b ∈ p.piggybacks, b.host ≠ [] ∧ NoBreak b.host
  blocks : ∀ b ∈ p.piggybacks, ∀ s ∈ b.sectionList, s.Proper

def Packet.allSections (p : Packet) : List Section :=
  p.sectionList ++ p.piggybacks.flatMap PiggybackBlock.sectionList

variable {s : Section} {p : Packet}

theorem Packet.Proper.of_mem (hp : p.Proper) (hs : s ∈ p.allSections) : s.Proper := by
  rcases mem_append.mp hs with hs | hs
  · exact hp.sections s hs
  · obtain ⟨b, hb, hs⟩ := mem_flatMap.mp hs
    exact hp.blocks b hb s hs

/-! ## The lines of the text -/

def Section.chunks (s : Section) : List (List Char) :=
  s.header :: s.lines.flatMap fun l => (l.render s.separatorChar).splitOn '\n'

def PiggybackBlock.chunks (b : PiggybackBlock) : List (List Char) :=
  wrap 4 b.host :: (b.sectionList.flatMap Section.chunks ++ [wrap 4 []])

def Packet.chunks (p : Packet) : List (List Char) :=
  p.sectionList.flatMap Section.chunks ++ p.piggybacks.flatMap PiggybackBlock.chunks

theorem newline_not_mem_wrap {text : List Char} (h : '\n' ∉ text) (n : ℕ) : '\n' ∉ wrap n text := by
  simp [wrap, h]

theorem Section.newline_not_mem_header (h : '\n' ∉ s.title) : '\n' ∉ s.header := by
  apply newline_not_mem_wrap
  have hopts := not_mem_options (c := '\n') ⟨by decide, by decide, by decide⟩ s
  simp only [mem_append, mem_flatMap, mem_cons, not_or, not_exists, not_and]
  exact ⟨h, fun opt hopt => ⟨by decide, hopts opt hopt⟩⟩

theorem Section.getlines_render (hs : s.Proper) (rest : List Char) :
    getlines '\n' (s.render ++ rest) = s.chunks ++ getlines '\n' rest := by
  have hlines : ∀ lines : List Line,
      getlines '\n' ((lines.flatMap fun l => l.render s.separatorChar ++ ['\n']) ++ rest) =
        (lines.flatMap fun l => (l.render s.separatorChar).splitOn '\n') ++ getlines '\n' rest := by
    intro lines
    induction lines with
    | nil => rfl
    | cons l lines ih =>
      rw [flatMap_cons, flatMap_cons, append_assoc, append_assoc,
        singleton_append, getlines_append_delimiter, ih, append_assoc]
  rw [Section.render, append_assoc, cons_append,
    getlines_append_cons (newline_not_mem_header hs.title_noBreak.1), hlines]
  rfl

variable {sections : List Section}

theorem getlines_sections (hs : ∀ s ∈ sections, s.Proper) (rest : List Char) :
    getlines '\n' (sections.flatMap Section.render ++ rest) =
      sections.flatMap Section.chunks ++ getlines '\n' rest := by
  induction sections with
  | nil => rfl
  | cons s sections ih =>
    rw [flatMap_cons, flatMap_cons, append_assoc,
      Section.getlines_render (hs s mem_cons_self), ih fun t ht => hs t (mem_cons_of_mem s ht),
      append_assoc]

variable {blocks : List PiggybackBlock} {l : Line}

theorem getlines_blocks (hhosts : ∀ b ∈ blocks, NoBreak b.host)
    (hsections : ∀ b ∈ blocks, ∀ s ∈ b.sectionList, s.Proper) :
    getlines '\n' (blocks.flatMap render) = blocks.flatMap chunks := by
  induction blocks with
  | nil => rfl
  | cons b blocks ih =>
    have hrest := ih (fun c hc => hhosts c (mem_cons_of_mem b hc))
      (fun c hc => hsections c (mem_cons_of_mem b hc))
    have hhost := newline_not_mem_wrap (hhosts b mem_cons_self).1 4
    have hclose := newline_not_mem_wrap (not_mem_nil : '\n' ∉ []) 4
    rw [flatMap_cons, flatMap_cons, render, append_assoc,
      cons_append, getlines_append_cons hhost, append_assoc,
      getlines_sections (hsections b mem_cons_self), append_assoc,
      singleton_append, getlines_append_cons hclose, hrest, chunks]
    simp

theorem Packet.getlines_write (hp : p.Proper) : getlines '\n' p.write = p.chunks := by
  rw [Packet.write, getlines_sections hp.sections,
    getlines_blocks (fun b hb => (hp.hosts b hb).2) hp.blocks]
  rfl

/-! ## What reading can gain -/

def Packet.total (f : Section → ℕ) (p : Packet) : ℕ := (p.allSections.map f).sum

def Reader.total (f : Section → ℕ) (r : Reader) : ℕ := r.packet.total f + f r.current

section Totals

variable {f : Section → ℕ}

theorem total_addToBlock_le (host : List Char) (s : Section) (blocks : List PiggybackBlock) :
    (((addToBlock host s blocks).flatMap sectionList).map f).sum ≤
      ((blocks.flatMap sectionList).map f).sum + f s := by
  induction blocks with
  | nil => simp [addToBlock]
  | cons b blocks ih =>
    rw [addToBlock]
    split
    · simp only [flatMap_cons, addSection, map_append, sum_append,
        map_cons, map_nil, sum_cons, sum_nil]
      omega
    · simp only [flatMap_cons, map_append, sum_append]
      omega

variable (r : Reader)

theorem Reader.total_add_le (s : Section) : (r.add s).packet.total f ≤ r.packet.total f + f s := by
  rw [add]
  cases r.active with
  | none =>
    simp only [Packet.total, Packet.allSections, map_append, sum_append, map_cons,
      map_nil, sum_cons, sum_nil]
    omega
  | some host =>
    have hblock := total_addToBlock_le (f := f) host s r.packet.piggybacks
    simp only [Packet.total, Packet.allSections, map_append, sum_append]
    omega

theorem Reader.total_flushSection_le (hempty : f {} = 0) (r : Reader) :
    r.flushSection.total f ≤ r.total f := by
  rw [flushSection]
  split
  · exact le_rfl
  · have hadd := r.total_add_le (f := f) r.current
    simp only [total, hempty, Nat.add_zero]
    exact hadd

theorem Reader.packet_total_flushSection_le : r.flushSection.packet.total f ≤ r.total f := by
  rw [flushSection]
  split
  · exact Nat.le_add_right _ _
  · exact r.total_add_le r.current

theorem Packet.total_piggybackFor (p : Packet) (host : List Char) :
    (p.piggybackFor host).total f = p.total f := by
  rw [Packet.piggybackFor]
  split
  · rfl
  · simp [Packet.total, Packet.allSections]

theorem Reader.total_openBlock (host : List Char) : (r.openBlock host).total f = r.total f := by
  rw [openBlock]
  split
  · rfl
  · simp [total, Packet.total_piggybackFor]

variable (hempty : f {} = 0) (gain : List Char → ℕ)
  (hheader : ∀ chunk, isSection (stripCr chunk) = true →
    f (parseSectionHeader (inside 3 (stripCr chunk))) ≤ gain chunk)
  (hline : ∀ chunk, looksLikeHeader (stripCr chunk) = false → ∀ s : Section,
    f (s.push (stripCr chunk)) ≤ f s + gain chunk)

include hempty hheader hline

/-- What one line can add: a section header brings its own section, any other line
changes the current section, and a block header brings nothing. -/
theorem Reader.total_step_le (r : Reader) (chunk : List Char) :
    (r.step chunk).total f ≤ r.total f + gain chunk := by
  have hflush := r.total_flushSection_le hempty
  have hpacket := r.packet_total_flushSection_le (f := f)
  rw [step]
  by_cases hpb : isPb (stripCr chunk) = true
  · simp only [hpb, if_true, total_openBlock]
    omega
  · by_cases hsection : isSection (stripCr chunk) = true
    · have hnew := hheader chunk hsection
      simp only [hpb, hsection, if_true, if_false, Bool.false_eq_true, total]
      have htotal : r.total f = r.packet.total f + f r.current := rfl
      omega
    · have hadds := hline chunk (by simp [looksLikeHeader, hpb, hsection]) r.current
      simp only [hpb, hsection, if_false, Bool.false_eq_true, total]
      omega

theorem total_read_le (data : List Char) :
    (({} : Packet).read data).total f ≤ ((getlines '\n' data).map gain).sum := by
  have hrun : ∀ (chunks : List (List Char)) (r : Reader),
      (chunks.foldl step r).total f ≤ r.total f + (chunks.map gain).sum := by
    intro chunks
    induction chunks with
    | nil => simp
    | cons chunk chunks ih =>
      intro r
      have hstep := total_step_le hempty gain hheader hline r chunk
      have hrest := ih (r.step chunk)
      simp only [foldl_cons, map_cons, sum_cons]
      omega
  have hstart : total f {} = 0 := by
    simp [total, Packet.total, Packet.allSections, hempty]
  rw [Packet.read]
  have hread := hrun (getlines '\n' data) {}
  have hflush := ((getlines '\n' data).foldl step {}).packet_total_flushSection_le
    (f := f)
  omega

end Totals

theorem Packet.sum_chunks_le {f g : Section → ℕ} {gain : List Char → ℕ}
    (hblock : ∀ host, gain (wrap 4 host) = 0)
    (hsection : ∀ s ∈ p.allSections, (s.chunks.map gain).sum + g s ≤ f s) :
    (p.chunks.map gain).sum + p.total g ≤ p.total f := by
  have hsections : ∀ sections : List Section,
      (∀ s ∈ sections, (s.chunks.map gain).sum + g s ≤ f s) →
      ((sections.flatMap Section.chunks).map gain).sum + (sections.map g).sum ≤
        (sections.map f).sum := by
    intro sections hs
    induction sections with
    | nil => simp
    | cons s sections ih =>
      have hhead := hs s mem_cons_self
      have htail := ih fun t ht => hs t (mem_cons_of_mem s ht)
      simp only [flatMap_cons, map_append, sum_append, map_cons, sum_cons]
      omega
  have hblocks : ∀ blocks : List PiggybackBlock,
      ((blocks.flatMap PiggybackBlock.chunks).map gain).sum =
        (((blocks.flatMap PiggybackBlock.sectionList).flatMap Section.chunks).map gain).sum := by
    intro blocks
    induction blocks with
    | nil => rfl
    | cons b blocks ih =>
      simp only [flatMap_cons, PiggybackBlock.chunks, map_append, map_cons,
        map_nil, sum_append, sum_cons, sum_nil, hblock, flatMap_append, ih]
      omega
  have hall := hsections p.allSections hsection
  rw [Packet.chunks, map_append, sum_append, hblocks]
  simp only [Packet.allSections, flatMap_append, map_append, sum_append] at hall
  simp only [Packet.total, Packet.allSections, map_append, sum_append]
  omega

/-! ### Text and titles -/

theorem Line.length_render (a b : Char) (l : Line) : (l.render a).length = (l.render b).length := by
  cases l with
  | nil => rfl
  | cons item l =>
    rw [Line.render, Line.render, intercalate_cons_eq_flatMap, intercalate_cons_eq_flatMap]
    simp [length_flatMap]

/-- Counts a line twice for its characters and once for itself, so that a line cut in
two loses something. -/
def Section.textSize (s : Section) : ℕ := (s.lines.map fun l => 2 * (l.render ' ').length + 1).sum

def Section.newlines (s : Section) : ℕ :=
  (s.lines.map fun l => (l.render s.separatorChar).count '\n').sum

theorem Section.lines_decorate (s : Section) (name args : List Char) :
    (s.decorate name args).lines = s.lines := by
  rw [decorate]
  split
  · cases stoi args <;> rfl
  · split
    · split
      · simp only
        split <;> rfl
      · rfl
    · split
      · cases stoll args <;> rfl
      · rfl

theorem lines_parseSectionHeader (inner : List Char) : (parseSectionHeader inner).lines = [] := by
  have hfold : ∀ (opts : List (List Char)) (s : Section),
      (opts.foldl Section.applyOption s).lines = s.lines := by
    intro opts
    induction opts with
    | nil => intro s; rfl
    | cons opt opts ih =>
      intro s
      rw [foldl_cons, ih, Section.applyOption]
      split
      · exact s.lines_decorate _ _
      · rfl
  rw [parseSectionHeader]
  split
  · rfl
  · exact hfold _ _

theorem length_stripCr_le (chunk : List Char) : (stripCr chunk).length ≤ chunk.length := by
  rw [stripCr]
  split
  · simp
  · exact le_rfl

def textGain (chunk : List Char) : ℕ :=
  if looksLikeHeader (stripCr chunk) then 0 else 2 * chunk.length + 1

def Section.titled (s : Section) : ℕ := if s.title = [] then 0 else 1

def Section.mistaken (s : Section) : ℕ := if isPb s.header then 1 else 0

def titleGain (chunk : List Char) : ℕ := if isSection (stripCr chunk) then 1 else 0

theorem isPb_wrap_four (host : List Char) : isPb (wrap 4 host) = true := wrapped_wrap 4 host

theorem gain_wrap_four (host : List Char) :
    textGain (wrap 4 host) + titleGain (wrap 4 host) = 0 := by
  rw [textGain, titleGain, stripCr_wrap, looksLikeHeader, isSection, isPb_wrap_four]
  rfl

theorem gain_header (s : Section) : textGain s.header + titleGain s.header + s.mistaken = 1 := by
  rw [textGain, titleGain, Section.mistaken, Section.header, stripCr_wrap, looksLikeHeader_eq,
    isSection, wrapped_wrap]
  cases isPb (wrap 3 (s.title ++ s.options.flatMap (':' :: ·))) <;> rfl

/-- A line that looks like a header loses its text. -/
theorem gain_le (chunk : List Char) : textGain chunk + titleGain chunk ≤ 2 * chunk.length + 1 := by
  rw [textGain, titleGain, looksLikeHeader]
  cases isPb (stripCr chunk) <;> cases isSection (stripCr chunk) <;> simp

theorem gained_read_le (data : List Char) :
    (({} : Packet).read data).total (fun s => s.textSize + s.titled) ≤
      ((getlines '\n' data).map fun chunk => textGain chunk + titleGain chunk).sum := by
  apply total_read_le rfl
  · intro chunk hsection
    rw [Section.textSize, lines_parseSectionHeader, titleGain, if_pos hsection, Section.titled]
    split <;> simp
  · intro chunk hplain s
    have hread := length_intercalate_getlines_le ' ' (stripCr chunk)
    have hstrip := length_stripCr_le chunk
    have htitled : (s.push (stripCr chunk)).titled = s.titled := rfl
    rw [textGain, hplain, htitled]
    simp only [Section.textSize, Section.push, map_append, map_cons, map_nil,
      sum_append, sum_cons, sum_nil, Bool.false_eq_true, if_false, Line.render]
    omega

theorem Section.Proper.sum_gain_le (hs : s.Proper) :
    (s.chunks.map fun chunk => textGain chunk + titleGain chunk).sum + (s.newlines + s.mistaken) ≤
      s.textSize + s.titled := by
  have hlines : ∀ lines : List Line,
      ((lines.flatMap fun l => (l.render s.separatorChar).splitOn '\n').map
          fun chunk => textGain chunk + titleGain chunk).sum +
        (lines.map fun l => (l.render s.separatorChar).count '\n').sum ≤
      (lines.map fun l => 2 * (l.render ' ').length + 1).sum := by
    intro lines
    induction lines with
    | nil => simp
    | cons l lines ih =>
      have hpieces := sum_length_splitOn '\n' (l.render s.separatorChar)
      have hgain := sum_le_sum fun w (_ : w ∈ (l.render s.separatorChar).splitOn '\n') => gain_le w
      rw [l.length_render s.separatorChar ' '] at hpieces
      simp only [flatMap_cons, map_append, sum_append, map_cons, sum_cons]
      omega
  have hsum := hlines s.lines
  have hheader := gain_header s
  rw [Section.chunks, map_cons, sum_cons, Section.titled, if_neg hs.title_ne_nil, Section.newlines,
    Section.textSize]
  omega

theorem recognised_of_read (hp : p.Proper) (hread : ({} : Packet).read p.write = p)
    (hs : s ∈ p.allSections) :
    isPb s.header = false ∧ ∀ l ∈ s.lines, '\n' ∉ l.render s.separatorChar := by
  have hgained := gained_read_le p.write
  rw [hread, Packet.getlines_write hp] at hgained
  have hbound := p.sum_chunks_le gain_wrap_four fun s hs => (hp.of_mem hs).sum_gain_le
  have hnone : p.total (fun s => s.newlines + s.mistaken) = 0 := by omega
  obtain ⟨hnewlines, hmistaken⟩ :=
    Nat.add_eq_zero_iff.mp (sum_eq_zero_iff.mp hnone _ (mem_map_of_mem hs))
  refine ⟨Bool.eq_false_iff.mpr fun hpb => ?_, fun l hl => ?_⟩
  · rw [Section.mistaken, if_pos hpb] at hmistaken
    cases hmistaken
  · exact count_eq_zero.mp (sum_eq_zero_iff.mp hnewlines _ (mem_map_of_mem hl))

theorem Section.Proper.stripCr_render (hs : s.Proper) (hl : l ∈ s.lines) :
    stripCr (l.render s.separatorChar) = l.render s.separatorChar := by
  rw [stripCr, if_neg]
  intro hcr
  rcases eq_nil_or_concat l with rfl | ⟨front, item, rfl⟩
  · cases hcr
  · have hitem : item ≠ [] := hs.last _ hl item (by simp)
    have hbreak := ((hs.items _ hl) item (by simp)).1.2
    have hlast : (Line.render s.separatorChar (front.concat item)).getLast? = item.getLast? := by
      rw [Line.render, concat_eq_append]
      cases front with
      | nil => simp
      | cons first front =>
        rw [cons_append, intercalate_cons_eq_flatMap, flatMap_append]
        simp only [flatMap_cons, flatMap_nil, append_nil]
        rw [← append_assoc, getLast?_append, getLast?_cons]
        cases item with
        | nil => exact absurd rfl hitem
        | cons c item => simp [getLast?_cons]
    rw [hlast] at hcr
    exact hbreak (mem_of_getLast? hcr)

/-! ## Reading when every line is recognised -/

/-- The section as the reader sees it: its lines cut at spaces. -/
def Section.reread (s : Section) : Section :=
  { s with lines := s.lines.map fun l => getlines ' ' (l.render s.separatorChar) }

def PiggybackBlock.reread (b : PiggybackBlock) : PiggybackBlock :=
  { b with sectionList := b.sectionList.map Section.reread }

def Packet.reread (p : Packet) : Packet :=
  ⟨p.sectionList.map Section.reread, p.piggybacks.map PiggybackBlock.reread⟩

structure Section.Recognised (s : Section) : Prop where
  proper : s.Proper
  header : isPb s.header = false
  newline : ∀ l ∈ s.lines, '\n' ∉ l.render s.separatorChar

namespace Section.Recognised

variable {s : Section}

section

variable (hs : s.Recognised)
include hs

theorem chunks_eq : s.chunks = s.header :: s.lines.map (Line.render s.separatorChar) := by
  have hlines : ∀ lines : List Line, (∀ l ∈ lines, '\n' ∉ l.render s.separatorChar) →
      (lines.flatMap fun l => (l.render s.separatorChar).splitOn '\n') =
        lines.map (Line.render s.separatorChar) := by
    intro lines h
    induction lines with
    | nil => rfl
    | cons l lines ih =>
      rw [flatMap_cons, splitOn_of_not_mem (h l mem_cons_self),
        ih fun m hm => h m (mem_cons_of_mem l hm)]
      rfl
  rw [Section.chunks, hlines s.lines hs.newline]

theorem step_header (r : Reader) : r.step s.header = { r.flushSection with current := s.bare } := by
  have hstrip : stripCr s.header = s.header := stripCr_wrap 2 _
  have hsection : isSection s.header = true := by
    rw [isSection, hs.header, Section.header, wrapped_wrap]
    rfl
  have hparse : parseSectionHeader (inside 3 s.header) = s.bare := by
    rw [Section.header, inside_wrap]
    exact s.parseSectionHeader_inner hs.proper.colon
  rw [step]
  simp [hstrip, hs.header, hsection, hparse, Bool.false_eq_true]

theorem step_line (hl : l ∈ s.lines) (r : Reader) : r.step (l.render s.separatorChar) =
      { r with current := r.current.push (l.render s.separatorChar) } := by
  have hplain := hs.proper.plain l hl
  rw [looksLikeHeader, Bool.or_eq_false_iff] at hplain
  rw [step]
  simp [hs.proper.stripCr_render hl, hplain, Bool.false_eq_true]

theorem foldl_lines (lines : List Line) (hsub : ∀ l ∈ lines, l ∈ s.lines) (r : Reader) :
    (lines.map (Line.render s.separatorChar)).foldl step r = { r with current := { r.current with
          lines := r.current.lines ++
            lines.map fun l => getlines ' ' (l.render s.separatorChar) } } := by
  induction lines generalizing r with
  | nil => simp
  | cons l lines ih =>
    rw [map_cons, foldl_cons, hs.step_line (hsub l mem_cons_self),
      ih fun m hm => hsub m (mem_cons_of_mem l hm)]
    simp [Section.push]

theorem foldl_chunks (r : Reader) :
    s.chunks.foldl step r = { r.flushSection with current := s.reread } := by
  rw [hs.chunks_eq, foldl_cons, hs.step_header, hs.foldl_lines _ fun _ hl => hl]
  simp [Section.bare, Section.reread]

end

end Section.Recognised

variable {r : Reader} {host : List Char}

theorem Reader.flushSection_current (hr : r.current = {}) (hs : s.title ≠ []) :
    ({ r with current := s } : Reader).flushSection = r.add s := by
  have hempty : s.empty = false := by
    rw [Section.empty, isEmpty_eq_false_iff.mpr hs]
    rfl
  rw [flushSection]
  obtain ⟨packet, current, active⟩ := r
  subst hr
  simp only [hempty, Bool.false_eq_true, if_false, add]
  cases active <;> rfl

theorem Reader.add_current (r : Reader) (s : Section) : (r.add s).current = r.current := by
  rw [add]
  cases r.active <;> rfl

theorem Reader.flushSection_idle (hr : r.current = {}) : r.flushSection = r := by
  rw [flushSection, hr]
  rfl

theorem foldl_sections (hs : ∀ s ∈ sections, s.Recognised) (hr : r.flushSection.current = {}) :
    ((sections.flatMap Section.chunks).foldl step r).flushSection =
      (sections.map Section.reread).foldl add r.flushSection := by
  induction sections generalizing r with
  | nil => rfl
  | cons s sections ih =>
    have hrec := hs s mem_cons_self
    have hadded : ({ r.flushSection with current := s.reread } : Reader).flushSection =
        r.flushSection.add s.reread :=
      flushSection_current hr hrec.proper.title_ne_nil
    rw [flatMap_cons, foldl_append, hrec.foldl_chunks,
      ih (fun t ht => hs t (mem_cons_of_mem s ht)) (by rw [hadded, add_current, hr]),
      hadded]
    rfl

theorem foldl_add_of_none (hactive : r.active = none) (sections : List Section) :
    sections.foldl add r =
      { r with packet := { r.packet with sectionList := r.packet.sectionList ++ sections } } := by
  induction sections generalizing r with
  | nil => simp
  | cons s sections ih =>
    have hadd : r.add s =
        { r with packet := { r.packet with sectionList := r.packet.sectionList ++ [s] } } := by
      rw [add, hactive]
    rw [foldl_cons, ih (r := r.add s) (by rw [hadd]; exact hactive), hadd]
    simp

theorem addToBlock_concat (hhost : host ∉ blocks.map PiggybackBlock.host) (s : Section)
    (sections : List Section) :
    addToBlock host s (blocks ++ [⟨host, sections⟩]) = blocks ++ [⟨host, sections ++ [s]⟩] := by
  induction blocks with
  | nil => simp [addToBlock, addSection]
  | cons b blocks ih =>
    rw [map_cons, mem_cons, not_or] at hhost
    rw [cons_append, addToBlock, if_neg (Ne.symm hhost.1), ih hhost.2, cons_append]

theorem foldl_add_of_some (blocks : List PiggybackBlock) (before : List Section)
    (hactive : r.active = some host) (hblocks : r.packet.piggybacks = blocks ++ [⟨host, before⟩])
    (hhost : host ∉ blocks.map PiggybackBlock.host) (sections : List Section) :
    sections.foldl add r =
      { r with
        packet := { r.packet with piggybacks := blocks ++ [⟨host, before ++ sections⟩] } } := by
  induction sections generalizing r before with
  | nil => rw [foldl_nil, append_nil, ← hblocks]
  | cons s sections ih =>
    have hadd : r.add s =
        { r with packet := { r.packet with piggybacks := blocks ++ [⟨host, before ++ [s]⟩] } } := by
      rw [add, hactive]
      simp [hblocks, addToBlock_concat hhost]
    rw [foldl_cons, ih (r := r.add s) (before ++ [s]) (by rw [hadd]; exact hactive) (by rw [hadd]),
      hadd]
    simp

theorem Reader.step_wrap_four (r : Reader) (host : List Char) :
    r.step (wrap 4 host) = r.flushSection.openBlock host := by
  have hstrip : stripCr (wrap 4 host) = wrap 4 host := stripCr_wrap 3 host
  rw [step, hstrip]
  simp [isPb_wrap_four, inside_wrap]

theorem Reader.openBlock_new (hne : host ≠ [])
    (hhost : host ∉ r.packet.piggybacks.map PiggybackBlock.host) : r.openBlock host = { r with
        active := some host
        packet := { r.packet with piggybacks := r.packet.piggybacks ++ [⟨host, []⟩] } } := by
  have hany : r.packet.piggybacks.any (·.host = host) = false := by
    rw [any_eq_false]
    intro c hc
    simpa using fun heq : c.host = host => hhost (mem_map.mpr ⟨c, hc, heq⟩)
  simp [openBlock, isEmpty_eq_false_iff.mpr hne, Bool.false_eq_true, Packet.piggybackFor, hany]

theorem foldl_block {b : PiggybackBlock} (hb : b.host ≠ [])
    (hs : ∀ s ∈ b.sectionList, s.Recognised) (hr : r.flushSection.current = {})
    (hhost : b.host ∉ r.flushSection.packet.piggybacks.map PiggybackBlock.host) :
    b.chunks.foldl step r = { r.flushSection with
        active := none
        packet := { r.flushSection.packet with
          piggybacks := r.flushSection.packet.piggybacks ++ [b.reread] } } := by
  set base := r.flushSection with hbase
  have hopen := openBlock_new hb hhost
  have hidle : (base.openBlock b.host).flushSection = base.openBlock b.host :=
    flushSection_idle (by rw [hopen]; exact hr)
  have hadded := foldl_sections hs (r := base.openBlock b.host) (by rw [hidle, hopen]; exact hr)
  rw [hidle, foldl_add_of_some base.packet.piggybacks [] (by rw [hopen]) (by rw [hopen]) hhost,
    nil_append] at hadded
  rw [chunks, foldl_cons, foldl_append, step_wrap_four,
    foldl_cons, foldl_nil, step_wrap_four, ← hbase, hadded, hopen]
  rfl

theorem foldl_blocks (hhosts : ∀ b ∈ blocks, b.host ≠ [])
    (hs : ∀ b ∈ blocks, ∀ s ∈ b.sectionList, s.Recognised) (hr : r.flushSection.current = {})
    (hnodup : ((r.flushSection.packet.piggybacks ++ blocks).map PiggybackBlock.host).Nodup) :
    ((blocks.flatMap chunks).foldl step r).flushSection.packet = { r.flushSection.packet with
        piggybacks := r.flushSection.packet.piggybacks ++ blocks.map reread } := by
  induction blocks generalizing r with
  | nil => simp
  | cons b blocks ih =>
    have hhost : b.host ∉ r.flushSection.packet.piggybacks.map host := by
      rw [map_append, map_cons, nodup_append] at hnodup
      exact fun hmem => hnodup.2.2 _ hmem _ mem_cons_self rfl
    rw [flatMap_cons, foldl_append,
      foldl_block (hhosts b mem_cons_self) (hs b mem_cons_self) hr hhost]
    set q : Reader := { r.flushSection with
      active := none
      packet := { r.flushSection.packet with
        piggybacks := r.flushSection.packet.piggybacks ++ [b.reread] } } with hq
    have hidle : q.flushSection = q := flushSection_idle hr
    rw [ih (fun c hc => hhosts c (mem_cons_of_mem b hc))
      (fun c hc => hs c (mem_cons_of_mem b hc)) (by rw [hidle]; exact hr) ?_, hidle]
    · simp [hq]
    · rw [hidle, hq]
      simpa [reread] using hnodup

/-- **Reading recognised sections.**  Everything comes back, with the lines cut at
spaces. -/
theorem Packet.read_write (hp : p.Proper) (hs : ∀ s ∈ p.allSections, s.Recognised) :
    ({} : Packet).read p.write = p.reread := by
  have hsections : ∀ s ∈ p.sectionList, s.Recognised :=
    fun s h => hs s (mem_append_left _ h)
  have hblocks : ∀ b ∈ p.piggybacks, ∀ s ∈ b.sectionList, s.Recognised :=
    fun b hb s h => hs s (mem_append_right _ (mem_flatMap.mpr ⟨b, hb, h⟩))
  have hflushed := foldl_sections (r := {}) hsections rfl
  have hidle : ({} : Reader).flushSection = {} := rfl
  rw [hidle, foldl_add_of_none rfl] at hflushed
  rw [Packet.read, Packet.getlines_write hp, Packet.chunks, foldl_append,
    foldl_blocks (fun b hb => (hp.hosts b hb).1) hblocks (by rw [hflushed])
      (by rw [hflushed]; simpa using hp.hosts_nodup), hflushed]
  rfl

/-! ## When a packet survives -/

/-- Writer and reader agree on the section: its lines are joined with spaces, or have
nothing to join and nothing to cut, and its header does not look like that of a
block. -/
structure Section.Readable (s : Section) : Prop where
  lines : s.separatorChar = ' ' ∨ ∀ l ∈ s.lines, l.length ≤ 1 ∧ ∀ item ∈ l, ' ' ∉ item
  title : ¬ (s.options = [] ∧ ∃ inner, s.title = '<' :: (inner ++ ['>']))

/-- The reader cuts at spaces whatever the separator was. -/
theorem Line.getlines_render_iff {sep : Char} (hsep : ∀ item ∈ l, sep ∉ item)
    (hlast : ∀ item ∈ l.getLast?, item ≠ []) : getlines ' ' (l.render sep) = l ↔
      sep = ' ' ∨ (l.length ≤ 1 ∧ ∀ item ∈ l, ' ' ∉ item) := by
  by_cases hspace : sep = ' '
  · subst hspace
    exact ⟨fun _ => .inl rfl, fun _ => getlines_intercalate hsep hlast⟩
  constructor
  · intro hread
    refine .inr ⟨?_, ?_⟩
    · -- a separator between two items would still be in one of them
      by_contra hlong
      obtain ⟨a, b, l', rfl⟩ : ∃ a b l', l = a :: b :: l' := by
        cases l with
        | nil => simp at hlong
        | cons a l =>
          cases l with
          | nil => simp at hlong
          | cons b l' => exact ⟨a, b, l', rfl⟩
      have hmem : sep ∈ Line.render sep (a :: b :: l') := by
        rw [Line.render, intercalate_cons_cons]
        simp
      obtain ⟨w, hw, hin⟩ := exists_mem_getlines hspace hmem
      rw [hread] at hw
      exact hsep w hw hin
    · intro item hitem
      rw [← hread] at hitem
      exact not_mem_of_mem_getlines hitem
  · rintro (heq | ⟨hshort, hitems⟩)
    · exact absurd heq hspace
    · match l, hshort with
      | [], _ => rfl
      | [item], _ =>
        rw [Line.render, intercalate_singleton]
        exact getlines_of_not_mem (hitems item mem_cons_self) (hlast item rfl)

theorem map_eq_self_iff {α : Type} {f : α → α} {xs : List α} :
    xs.map f = xs ↔ ∀ x ∈ xs, f x = x := by
  have h : xs.map f = xs.map id ↔ ∀ x ∈ xs, f x = id x := map_inj_left
  rwa [map_id] at h

theorem Section.reread_eq_iff (hs : s.Proper) : s.reread = s ↔
      s.separatorChar = ' ' ∨ ∀ l ∈ s.lines, l.length ≤ 1 ∧ ∀ item ∈ l, ' ' ∉ item := by
  have hlines : s.reread = s ↔ ∀ l ∈ s.lines, getlines ' ' (l.render s.separatorChar) = l := by
    rw [← map_eq_self_iff]
    exact ⟨congrArg Section.lines, fun hmap => by rw [Section.reread, hmap]⟩
  rw [hlines]
  have hiff : ∀ l ∈ s.lines, (getlines ' ' (l.render s.separatorChar) = l ↔ _) :=
    fun l hl => Line.getlines_render_iff (fun item hitem => (hs.items l hl item hitem).2)
      (hs.last l hl)
  by_cases hspace : s.separatorChar = ' '
  · exact ⟨fun _ => .inl hspace, fun _ l hl => (hiff l hl).mpr (.inl hspace)⟩
  · constructor
    · exact fun hall => .inr fun l hl => ((hiff l hl).mp (hall l hl)).resolve_left hspace
    · exact fun h l hl => (hiff l hl).mpr (.inr (h.resolve_left hspace l hl))

theorem Packet.reread_eq_iff (p : Packet) : p.reread = p ↔ ∀ s ∈ p.allSections, s.reread = s := by
  have hblock : ∀ b : PiggybackBlock, b.reread = b ↔ ∀ s ∈ b.sectionList, s.reread = s := by
    intro b
    rw [← map_eq_self_iff]
    exact ⟨congrArg PiggybackBlock.sectionList, fun hmap => by rw [PiggybackBlock.reread, hmap]⟩
  have hparts : p.reread = p ↔ p.sectionList.map Section.reread = p.sectionList ∧
      p.piggybacks.map PiggybackBlock.reread = p.piggybacks := by
    obtain ⟨sections, blocks⟩ := p
    exact Packet.mk.injEq .. ▸ Iff.rfl
  simp only [hparts, map_eq_self_iff, hblock, Packet.allSections, mem_append,
    mem_flatMap, or_imp, forall_and, forall_exists_index, and_imp]
  exact and_congr_right fun _ => ⟨fun h s b hb hs => h b hb s hs, fun h b hb s hs => h s b hb hs⟩

theorem Section.Readable.recognised (hs : s.Proper) (hr : s.Readable) : s.Recognised := by
  refine ⟨hs, ?_, ?_⟩
  · rw [Bool.eq_false_iff]
    exact fun hpb => hr.title (s.isPb_header_iff.mp hpb)
  · intro l hl hnewline
    have hitems := hs.items l hl
    have hmem : '\n' = s.separatorChar ∧ 1 < l.length ∨ ∃ item ∈ l, '\n' ∈ item := by
      match l, hnewline with
      | [item], hnewline =>
        rw [Line.render, intercalate_singleton] at hnewline
        exact .inr ⟨item, mem_cons_self, hnewline⟩
      | a :: b :: l', hnewline =>
        rw [Line.render, intercalate_cons_eq_flatMap, mem_append, mem_flatMap] at hnewline
        rcases hnewline with ha | ⟨item, hitem, hin⟩
        · exact .inr ⟨a, mem_cons_self, ha⟩
        · rcases mem_cons.mp hin with hsep | hin
          · exact .inl ⟨hsep, by simp⟩
          · exact .inr ⟨item, mem_cons_of_mem a hitem, hin⟩
    rcases hmem with ⟨hsep, hlong⟩ | ⟨item, hitem, hin⟩
    · rcases hr.lines with hspace | hshort
      · rw [hspace] at hsep
        cases hsep
      · exact absurd (hshort l hl).1 (by omega)
    · exact (hitems item hitem).1.1 hin

/-- **Which packets survive writing and reading.** -/
theorem read_write_iff (p : Packet) (hp : p.Proper) :
    ({} : Packet).read p.write = p ↔ ∀ s ∈ p.allSections, s.Readable := by
  constructor
  · intro hread
    have hrecognised : ∀ s ∈ p.allSections, s.Recognised :=
      fun s hs => have h := recognised_of_read hp hread hs; ⟨hp.of_mem hs, h.1, h.2⟩
    rw [Packet.read_write hp hrecognised, Packet.reread_eq_iff] at hread
    intro s hs
    refine ⟨(Section.reread_eq_iff (hp.of_mem hs)).mp (hread s hs), fun hmistaken => ?_⟩
    rw [← Section.isPb_header_iff, (hrecognised s hs).header] at hmistaken
    cases hmistaken
  · intro hreadable
    rw [Packet.read_write hp fun s hs => (hreadable s hs).recognised (hp.of_mem hs),
      Packet.reread_eq_iff]
    exact fun s hs => (Section.reread_eq_iff (hp.of_mem hs)).mpr (hreadable s hs).lines

namespace Sample

def agreed : Packet where
  sectionList := [{ title := ['m', 'e', 'm'], lines := [[['a'], ['b']]] }]
  piggybacks :=
    [{ host := ['h'],
       sectionList := [{ title := ['d', 'f'], separator := some 124, lines := [[['x']]] }] }]

def barred : Packet where
  sectionList := [{ title := ['d', 'f'], separator := some 124, lines := [[['a'], ['b']]] }]

def bracketed : Packet where
  sectionList := [{ title := ['<', 'h', '>'] }]

end Sample

open Sample

/-- Written and read back unchanged. -/
theorem read_write_agreed : ({} : Packet).read agreed.write = agreed := by
  refine (read_write_iff agreed ⟨?_, by decide, by simp [agreed, NoBreak], ?_⟩).mpr ?_
  · simp only [agreed, mem_singleton]
    rintro s rfl
    exact ⟨by decide, by decide, by simp [NoBreak], by simp [NoBreak, Section.separatorChar],
      by simp, by decide⟩
  · simp only [agreed, mem_singleton]
    rintro b rfl s hs
    rw [mem_singleton] at hs
    subst hs
    exact ⟨by decide, by decide, by simp [NoBreak],
      by simp [NoBreak, Section.separatorChar, charOf],
      by simp, by decide⟩
  · simp only [Packet.allSections, agreed, flatMap_cons, flatMap_nil,
      append_nil, cons_append, nil_append, mem_cons, not_mem_nil, or_false]
    rintro s (rfl | rfl)
    · exact ⟨.inl rfl, by simp⟩
    · exact ⟨.inr (by simp), by simp⟩

/-- Two items joined with `|` come back as one; a title in angle brackets comes back
as an empty block. -/
theorem read_write_barred : (barred.Proper ∧ bracketed.Proper) ∧ ({} : Packet).read barred.write =
        ⟨[{ title := ['d', 'f'], separator := some 124, lines := [[['a', '|', 'b']]] }], []⟩ ∧
      ({} : Packet).read bracketed.write = ⟨[], [⟨['h'], []⟩]⟩ := by
  refine ⟨⟨⟨?_, by decide, by simp [barred], by simp [barred]⟩,
    ⟨?_, by decide, by simp [bracketed], by simp [bracketed]⟩⟩, by decide +kernel⟩
  · simp only [barred, mem_singleton]
    rintro s rfl
    exact ⟨by decide, by decide, by simp [NoBreak],
      by simp [NoBreak, Section.separatorChar, charOf],
      by simp, by decide⟩
  · simp only [bracketed, mem_singleton]
    rintro s rfl
    exact ⟨by decide, by decide, by simp [NoBreak], by simp, by simp, by simp⟩

end Nscp.CheckMk
