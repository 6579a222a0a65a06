import Nscp.Smtp.Message

/-!
# The lines of the data section

What the loop over the body writes are the body's lines, each with its leading dot doubled and
ended by CR LF; a line of the body is ended by CR LF, by a lone CR or by a lone LF.  The headers
are lines as well, and none of all these lines holds a CR.
-/

namespace Nscp.Smtp

open List DotText

/-! ## The body as it is meant to arrive -/

/-- Every CR LF, lone CR and lone LF turned into CR LF. -/
def toCrlf : List Char → List Char
  | '\r' :: '\n' :: rest => crlf ++ toCrlf rest
  | '\r' :: rest => crlf ++ toCrlf rest
  | '\n' :: rest => crlf ++ toCrlf rest
  | c :: rest => c :: toCrlf rest
  | [] => []

def endLine (text : List Char) : List Char :=
  if crlf <:+ text then text else text ++ crlf

def deliveredBody (body : List Char) : List Char :=
  if body = [] then [] else endLine (toCrlf body)

def bodyLines : List Char → List (List Char)
  | '\r' :: '\n' :: rest => [] :: bodyLines rest
  | '\r' :: rest => [] :: bodyLines rest
  | '\n' :: rest => [] :: bodyLines rest
  | c :: rest =>
    match bodyLines rest with
    | [] => [[c]]
    | l :: ls => (c :: l) :: ls
  | [] => []

theorem not_mem_of_mem_bodyLines {body l : List Char} (h : l ∈ bodyLines body) :
    '\r' ∉ l ∧ '\n' ∉ l := by
  fun_induction bodyLines body generalizing l with
  | case1 rest ih | case2 rest hrest ih | case3 rest ih =>
    rcases mem_cons.mp h with rfl | h
    · exact ⟨not_mem_nil, not_mem_nil⟩
    · exact ih h
  | case4 c rest hcrlf hcr hlf hnone ih =>
    obtain rfl := mem_singleton.mp h
    exact ⟨by simpa using Ne.symm hcr, by simpa using Ne.symm hlf⟩
  | case5 c rest hcrlf hcr hlf l' ls hsome ih =>
    rcases mem_cons.mp h with rfl | h
    · obtain ⟨hr, hn⟩ := ih (hsome ▸ mem_cons_self)
      exact ⟨by simpa [hr] using Ne.symm hcr, by simpa [hn] using Ne.symm hlf⟩
    · exact ih (hsome ▸ mem_cons_of_mem l' h)
  | case6 => cases h

/-! ## The loop -/

/-- Whether a text that was at the start of a line, or not, is so behind the body. -/
def endsLine : Bool → List Char → Bool
  | atLineStart, [] => atLineStart
  | _, c :: rest => endsLine (c = '\r' ∨ c = '\n') rest

/-- The loop with a text to put in front of a leading dot. -/
def loopWith (dot : List Char) : Bool → List Char → List Char
  | _, '\r' :: '\n' :: rest => crlf ++ loopWith dot true rest
  | _, '\r' :: rest => crlf ++ loopWith dot true rest
  | _, '\n' :: rest => crlf ++ loopWith dot true rest
  | b, c :: rest => (if b ∧ c = '.' then dot else []) ++ c :: loopWith dot false rest
  | _, [] => []

theorem dotStuffLoop_eq (b : Bool) (body : List Char) :
    dotStuffLoop b body = loopWith ['.'] b body := by
  fun_induction loopWith ['.'] b body with
  | case1 b rest ih | case3 b rest ih => simp [dotStuffLoop, ih]
  | case2 b rest hrest ih =>
    have hhead : rest.head? ≠ some '\n' := by
      intro hhead
      obtain ⟨rest', rfl⟩ := head?_eq_some_iff.mp hhead
      exact hrest rest' rfl
    simp [dotStuffLoop, hhead, ih]
  | case4 b c rest hcrlf hcr hlf ih =>
    rw [dotStuffLoop, if_neg hcr, if_neg hlf, ih]
  | case5 => rfl

theorem toCrlf_eq (b : Bool) (body : List Char) : toCrlf body = loopWith [] b body := by
  fun_induction loopWith [] b body with
  | case1 b rest ih | case3 b rest ih => rw [toCrlf, ih]
  | case2 b rest hrest ih => rw [toCrlf, ih]; exact hrest
  | case4 b c rest hcrlf hcr hlf ih =>
    rw [toCrlf, ih, ite_self, nil_append]
    · exact hcrlf
    · exact hcr
    · exact hlf
  | case5 => rfl

/-- The text in front of a line that starts with a dot. -/
def stuffWith (dot l : List Char) : List Char :=
  (if l.head? = some '.' then dot else []) ++ l

/-- The rest of an open line, or lines of their own. -/
def render (dot : List Char) : Bool → List (List Char) → List Char
  | true, ls => join (ls.map (stuffWith dot))
  | false, [] => crlf
  | false, l :: ls => l ++ crlf ++ join (ls.map (stuffWith dot))

theorem render_nil_cons (dot : List Char) (b : Bool) (ls : List (List Char)) :
    render dot b ([] :: ls) = crlf ++ render dot true ls := by
  cases b <;> rfl

theorem loopWith_eq (dot : List Char) (b : Bool) (body : List Char) :
    loopWith dot b body ++ (if endsLine b body then [] else crlf) =
      render dot b (bodyLines body) := by
  fun_induction loopWith dot b body with
  | case1 b rest ih => rw [bodyLines, render_nil_cons, ← ih, append_assoc]; rfl
  | case2 b rest hrest ih =>
    rw [bodyLines, render_nil_cons, ← ih, append_assoc]
    · rfl
    · exact hrest
  | case3 b rest ih => rw [bodyLines, render_nil_cons, ← ih, append_assoc]; rfl
  | case4 b c rest hcrlf hcr hlf ih =>
    rw [endsLine, decide_eq_false (not_or_intro hcr hlf), append_assoc, cons_append, ih, bodyLines]
    · cases bodyLines rest with
      | nil | cons l ls => cases b <;> simp [render, stuffWith]
    · exact hcrlf
    · exact hcr
    · exact hlf
  | case5 b => cases b <;> rfl

theorem endsLine_iff (dot p : List Char) (b : Bool) (hb : b = true ↔ p = [] ∨ crlf <:+ p)
    (body : List Char) :
    endsLine b body = true ↔ p ++ loopWith dot b body = [] ∨ crlf <:+ p ++ loopWith dot b body := by
  have hline : ∀ p, true = true ↔ p ++ crlf = [] ∨ crlf <:+ p ++ crlf := by
    intro p
    exact iff_of_true rfl (.inr (suffix_append p crlf))
  fun_induction loopWith dot b body generalizing p with
  | case1 b rest ih | case2 b rest hrest ih | case3 b rest ih =>
    rw [← append_assoc]
    exact ih (p ++ crlf) (hline p)
  | case4 b c rest hcrlf hcr hlf ih =>
    rw [endsLine, decide_eq_false (not_or_intro hcr hlf), ← append_assoc, append_cons]
    apply ih
    refine iff_of_false Bool.false_ne_true ?_
    rintro (hnil | hsuffix)
    · simp at hnil
    · obtain ⟨q, hq⟩ := hsuffix
      have hlast := congrArg List.getLast? hq
      rw [getLast?_concat, getLast?_append_of_ne_nil _ (by decide)] at hlast
      exact hlf (Option.some.inj hlast).symm
  | case5 b => rw [endsLine, append_nil, hb]

theorem endsLine_true_iff (dot body : List Char) :
    endsLine true body = true ↔ loopWith dot true body = [] ∨ crlf <:+ loopWith dot true body :=
  endsLine_iff dot [] true (iff_of_true rfl (.inl rfl)) body

theorem dotStuffAndCrlf_eq (body : List Char) :
    dotStuffAndCrlf body = join ((bodyLines body).map stuff) := by
  have hstuff : stuffWith ['.'] = stuff := by
    funext l
    by_cases h : l.head? = some '.'
    · obtain ⟨l', rfl⟩ := head?_eq_some_iff.mp h
      rfl
    · rw [stuffWith, if_neg h, stuff_of_head?_ne h, nil_append]
  have hlines := loopWith_eq ['.'] true body
  rw [render, hstuff] at hlines
  rw [← hlines, dotStuffAndCrlf, dotStuffLoop_eq]
  by_cases hends : endsLine true body = true
  · rw [if_pos hends, append_nil, if_neg]
    intro hopen
    exact ((endsLine_true_iff ['.'] body).mp hends).elim hopen.1 hopen.2
  · rw [if_neg hends, if_pos]
    exact not_or.mp fun h => hends ((endsLine_true_iff ['.'] body).mpr h)

theorem deliveredBody_eq (body : List Char) : deliveredBody body = join (bodyLines body) := by
  have hlines := loopWith_eq [] true body
  have hplain : stuffWith [] = id := by
    funext l
    rw [stuffWith, ite_self, nil_append, id]
  rw [render, hplain, map_id, ← toCrlf_eq] at hlines
  rw [← hlines, deliveredBody]
  have hends := endsLine_true_iff [] body
  rw [← toCrlf_eq] at hends
  by_cases hbody : body = []
  · subst hbody
    rfl
  · have hne : toCrlf body ≠ [] := by
      fun_cases toCrlf body <;> simp_all [crlf]
    rw [if_neg hbody, endLine]
    by_cases hsuffix : crlf <:+ toCrlf body
    · rw [if_pos hsuffix, if_pos (hends.mpr (.inr hsuffix)), append_nil]
    · rw [if_neg hsuffix, if_neg]
      exact fun h => (hends.mp h).elim hne hsuffix

/-! ## The headers -/

def headerLines (cfg : ConnectionConfig) (msg : Message) (stamp : Stamp) : List (List Char) :=
  ["From: ".toList ++ msg.sender, "To: ".toList ++ msg.recipient] ++
    (if sanitiseHeader msg.subject = [] then []
      else ["Subject: ".toList ++ sanitiseHeader msg.subject]) ++
    ["MIME-Version: 1.0".toList, "Content-Type: text/plain; charset=utf-8".toList,
      "Message-ID: ".toList ++ makeMessageId stamp.unique msg.sender cfg.ehloName,
      "Date: ".toList ++ stamp.now.text]

theorem headers_eq (cfg : ConnectionConfig) (msg : Message) (stamp : Stamp) :
    headers cfg msg stamp = join (headerLines cfg msg stamp ++ [[]]) := by
  have hsubject : (if sanitiseHeader msg.subject = [] then []
      else "Subject: ".toList ++ sanitiseHeader msg.subject ++ crlf) =
      join (if sanitiseHeader msg.subject = [] then []
        else ["Subject: ".toList ++ sanitiseHeader msg.subject]) := by
    by_cases h : sanitiseHeader msg.subject = []
    · rw [if_pos h, if_pos h, join_nil]
    · rw [if_neg h, if_neg h, join_cons, join_nil, append_nil]
  unfold headers headerLines
  rw [hsubject]
  simp only [join_append, join_cons, join_nil, append_assoc, append_nil, nil_append]

/-! ## No line holds a CR -/

theorem not_mem_of_validateAddress {address what : List Char}
    (h : validateAddress address what = .ok ()) : '\r' ∉ address := by
  rw [validateAddress] at h
  split at h
  · cases h
  · split at h
    · cases h
    · rename_i hcontrol
      intro hmem
      exact hcontrol (any_eq_true.mpr ⟨'\r', hmem, by decide⟩)

theorem not_mem_of_validateEhloName {name : List Char} (h : validateEhloName name = .ok ()) :
    '\r' ∉ name := by
  rw [validateEhloName] at h
  split at h
  · cases h
  · split at h
    · cases h
    · rename_i hlegal
      intro hmem
      exact absurd (all_eq_true.mp (not_not.mp hlegal) '\r' hmem) (by decide)

theorem not_mem_sanitiseHeader (v : List Char) : '\r' ∉ sanitiseHeader v := by
  intro hmem
  simp [sanitiseHeader] at hmem

theorem digitChar_ne_cr {d : ℕ} (hd : d < 16) : Nat.digitChar d ≠ '\r' := by
  revert d
  decide

theorem not_mem_toDigits {b : ℕ} (hb : 1 < b) (hb' : b ≤ 16) (n : ℕ) :
    '\r' ∉ Nat.toDigits b n := by
  intro hmem
  obtain ⟨d, hd, heq⟩ := Text.exists_of_mem_toDigits hb hmem
  exact digitChar_ne_cr (by omega) heq.symm

theorem not_mem_padded (width n : ℕ) : '\r' ∉ padded width n := by
  rw [padded, mem_append, not_or]
  refine ⟨?_, not_mem_toDigits (by decide) (by decide) n⟩
  intro hmem
  exact absurd (eq_of_mem_replicate hmem) (by decide)

theorem not_mem_unique (unique : Unique) : '\r' ∉ unique.text := by
  cases unique with
  | random raw =>
    intro hmem
    obtain ⟨b, -, hb⟩ := mem_flatMap.mp hmem
    rw [hexByte, mem_pair] at hb
    rcases hb with hb | hb
    all_goals exact digitChar_ne_cr (by omega) hb.symm
  | fallback clock counter =>
    rw [Unique.text, mem_append, mem_cons, not_or, not_or]
    exact ⟨not_mem_toDigits (by decide) le_rfl clock, by decide,
      not_mem_toDigits (by decide) le_rfl counter⟩

theorem not_mem_makeMessageId (unique : Unique) (sender name : List Char) :
    '\r' ∉ makeMessageId unique sender name := by
  have hdomain : '\r' ∉ if safeDomain sender name = [] then "localhost".toList
      else safeDomain sender name := by
    split
    · decide
    · intro hmem
      exact absurd (mem_filter.mp hmem).2 (by decide)
  unfold makeMessageId
  simp only [cons_append, mem_cons, mem_append, not_or]
  exact ⟨by decide, ⟨not_mem_unique unique, by decide, hdomain⟩, by decide, not_mem_nil⟩

theorem not_mem_moment (m : Moment) : '\r' ∉ m.text := by
  have hday : ∀ d : Fin 7, '\r' ∉ daysOfWeek.getD d [] := by decide
  have hmonth : ∀ d : Fin 12, '\r' ∉ months.getD d [] := by decide
  unfold Moment.text
  simp only [mem_append, not_or]
  simp only [not_mem_padded, hday, hmonth, not_false_eq_true, true_and, and_true]
  decide

theorem header_line {name value : List Char} (hname : '\r' ∉ name ∧ name ≠ [] ∧
    name.head? ≠ some '.') (hvalue : '\r' ∉ value) :
    '\r' ∉ name ++ value ∧ (name ++ value).head? ≠ some '.' := by
  rw [mem_append, not_or, head?_append_of_ne_nil _ hname.2.1]
  exact ⟨⟨hname.1, hvalue⟩, hname.2.2⟩

theorem headerLines_plain {cfg : ConnectionConfig} {msg : Message} {stamp : Stamp}
    (hsender : '\r' ∉ msg.sender) (hrecipient : '\r' ∉ msg.recipient) :
    ∀ l ∈ headerLines cfg msg stamp, '\r' ∉ l ∧ l.head? ≠ some '.' := by
  unfold headerLines
  rw [forall_mem_append, forall_mem_append]
  refine ⟨⟨?_, ?_⟩, ?_⟩
  · rw [forall_mem_cons, forall_mem_singleton]
    exact ⟨header_line (by decide) hsender, header_line (by decide) hrecipient⟩
  · split
    · exact forall_mem_nil _
    · rw [forall_mem_singleton]
      exact header_line (by decide) (not_mem_sanitiseHeader msg.subject)
  · rw [forall_mem_cons, forall_mem_cons, forall_mem_cons, forall_mem_singleton]
    exact ⟨by decide, by decide, header_line (by decide) (not_mem_makeMessageId _ _ _),
      header_line (by decide) (not_mem_moment stamp.now)⟩

theorem b64Char_ne_cr (v : ℕ) : b64Char v ≠ '\r' := by
  have hall : ∀ i < 64, b64Alphabet.getD i 'A' ≠ '\r' := by decide +kernel
  exact hall (v % 64) (Nat.mod_lt v (by decide))

theorem not_mem_b64 (text : List Char) : '\r' ∉ b64 text := by
  fun_induction b64 text with
  | case1 => exact not_mem_nil
  | case2 x | case3 x y v => simp [(b64Char_ne_cr _).symm]
  | case4 x y z rest v ih => simp [(b64Char_ne_cr _).symm, ih]

end Nscp.Smtp
