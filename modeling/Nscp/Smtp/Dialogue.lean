import Nscp.Smtp.DataSection
import Nscp.Smtp.Script

/-!
# What the server reads

A server cuts the bytes of a session into lines and reads a line as a command, as a response of a
login, or as part of a message, which ends at the first line with a single dot.  Whatever the
configuration, the message and the replies hold, it reads the dialogue that was meant: the
commands in their order, and the message with its headers and its body.
-/

namespace Nscp.Smtp

open Delimited Utterance List DotText

/-! ## The receiver -/

inductive Item
  | command (line : List Char)
  | response (line : List Char)
  | message (text : List Char)
  deriving DecidableEq

/-- What the next line is read as; `text` holds the message so far. -/
inductive Mode
  | commands
  | responses (left : ℕ)
  | text (t : List Char)
  deriving DecidableEq

structure Receiver where
  mode : Mode := .commands
  items : List Item := []
  deriving DecidableEq

open Receiver

def Receiver.line (r : Receiver) (l : List Char) : Receiver :=
  match r.mode with
  | .commands =>
    { mode :=
        if l = "DATA".toList then .text []
        else if l = "AUTH LOGIN".toList then .responses 2
        else .commands
      items := r.items ++ [.command l] }
  | .responses left =>
    { mode := if left ≤ 1 then .commands else .responses (left - 1)
      items := r.items ++ [.response l] }
  | .text t =>
    -- the first line with a single dot ends the message, others lose one leading dot
    if l = ['.'] then { mode := .commands, items := r.items ++ [.message t] }
    else { r with mode := .text (t ++ (unstuff l ++ crlf)) }

/-- What has been read from a session so far. -/
structure Reading where
  items : List Item
  mode : Mode
  /-- The bytes behind the last line end. -/
  pending : List Char
  deriving DecidableEq

def receive (bytes : List Char) : Reading where
  items := ((split crlf bytes).1.foldl line {}).items
  mode := ((split crlf bytes).1.foldl line {}).mode
  pending := (split crlf bytes).2

theorem items_foldl (r : Receiver) (ls : List (List Char)) :
    r.items <+: (ls.foldl line r).items := by
  induction ls generalizing r with
  | nil => exact prefix_rfl
  | cons l ls ih =>
    refine List.IsPrefix.trans ?_ (ih (r.line l))
    rw [line]
    split
    · exact prefix_append _ _
    · exact prefix_append _ _
    · split
      · exact prefix_append _ _
      · exact prefix_rfl

theorem receive_mono {xs ys : List Char} (h : xs <+: ys) :
    (receive xs).items <+: (receive ys).items := by
  obtain ⟨more, hmore⟩ := split_fst_mono (d := crlf) (by decide) h
  rw [receive, receive]
  dsimp only
  rw [← hmore, foldl_append]
  exact items_foldl _ more

/-! ## The dialogue that is meant -/

section Meaning

variable (cfg : ConnectionConfig) (msg : Message) (stamp : Stamp)

def Utterance.command : Utterance → List Char
  | .ehlo => "EHLO ".toList ++ cfg.ehloName
  | .helo => "HELO ".toList ++ cfg.ehloName
  | .starttls => "STARTTLS".toList
  | .authPlain => "AUTH PLAIN ".toList ++ b64 (saslPlain cfg.username cfg.password)
  | .authLogin => "AUTH LOGIN".toList
  | .authUser => b64 cfg.username
  | .authPass => b64 cfg.password
  | .mailFrom => "MAIL FROM:<".toList ++ msg.sender ++ ['>']
  | .rcptTo => "RCPT TO:<".toList ++ msg.recipient ++ ['>']
  | .data => "DATA".toList
  | .message => []
  | .quit => "QUIT".toList

def messageText : List Char :=
  join (headerLines cfg msg stamp) ++ crlf ++ deliveredBody msg.body

def Utterance.item : Utterance → Item
  | .message => .message (messageText cfg msg stamp)
  | .authUser => .response (command cfg msg .authUser)
  | .authPass => .response (command cfg msg .authPass)
  | u => .command (command cfg msg u)

def Utterance.lines : Utterance → List (List Char)
  | .message => headerLines cfg msg stamp ++ [[]] ++ (bodyLines msg.body).map stuff ++ [['.']]
  | u => [command cfg msg u]

/-- A whole dialogue in the order of the protocol. -/
def dialogue (security : Security) (helo : Bool) (auth : List Utterance) : List Utterance :=
  greeting helo ++ (if security = .starttls then [.starttls, .ehlo] else []) ++ auth ++
    [.mailFrom, .rcptTo, .data, .message, .quit]

end Meaning

variable {cfg : ConnectionConfig} {msg : Message} {stamp : Stamp} {security : Security}

theorem text_eq_join (u : Utterance) :
    u.text cfg msg stamp = join (u.lines cfg msg stamp) := by
  -- the closing bracket of an address is written together with the line end
  have hbracket : ∀ command address : List Char,
      command ++ address ++ '>' :: crlf = join [command ++ address ++ ['>']] := by
    intro command address
    rw [join_cons, join_nil, append_nil, append_assoc (command ++ address)]
    rfl
  cases u with
  | message =>
    change headers cfg msg stamp ++ dotStuffAndCrlf msg.body ++ '.' :: crlf =
      join (headerLines cfg msg stamp ++ [[]] ++ (bodyLines msg.body).map stuff ++ [['.']])
    rw [headers_eq, dotStuffAndCrlf_eq, join_append _ [['.']], join_append _ (List.map _ _)]
    rfl
  | mailFrom | rcptTo => exact hbracket _ _
  | _ => exact (append_nil _).symm

theorem not_mem_lines (h : validate cfg msg = .ok security) (u : Utterance) :
    ∀ l ∈ u.lines cfg msg stamp, '\r' ∉ l := by
  obtain ⟨hsender, hrecipient, hname⟩ := of_validate h
  have hsender' := not_mem_of_validateAddress hsender
  have hrecipient' := not_mem_of_validateAddress hrecipient
  have hname' := not_mem_of_validateEhloName hname
  have happend : ∀ {x y : List Char}, '\r' ∉ x → '\r' ∉ y → '\r' ∉ x ++ y := by
    intro x y hx hy hmem
    exact (mem_append.mp hmem).elim hx hy
  cases u with
  | message =>
    change ∀ l ∈ headerLines cfg msg stamp ++ [[]] ++ (bodyLines msg.body).map stuff ++ [['.']],
      '\r' ∉ l
    rw [forall_mem_append, forall_mem_append, forall_mem_append]
    refine ⟨⟨⟨fun l hl => ?_, by decide⟩, ?_⟩, by decide⟩
    · exact (headerLines_plain hsender' hrecipient' l hl).1
    · intro l hl
      obtain ⟨l', hl', rfl⟩ := mem_map.mp hl
      exact not_mem_stuff (by decide) (not_mem_of_mem_bodyLines hl').1
  | ehlo | helo => exact forall_mem_singleton.mpr (happend (by decide) hname')
  | authPlain => exact forall_mem_singleton.mpr (happend (by decide) (not_mem_b64 _))
  | authUser | authPass => exact forall_mem_singleton.mpr (not_mem_b64 _)
  | mailFrom =>
    exact forall_mem_singleton.mpr (happend (happend (by decide) hsender') (by decide))
  | rcptTo =>
    exact forall_mem_singleton.mpr (happend (happend (by decide) hrecipient') (by decide))
  | starttls | authLogin | data | quit =>
    exact forall_mem_singleton.mpr (by unfold command; dsimp only; decide)

/-! ## Reading an utterance -/

def Utterance.before : Utterance → Mode
  | .authUser => .responses 2
  | .authPass => .responses 1
  | .message => .text []
  | _ => .commands

def Utterance.after : Utterance → Mode
  | .authLogin => .responses 2
  | .authUser => .responses 1
  | .data => .text []
  | _ => .commands

variable {p q t : List Char}

theorem append_ne (h : q.take p.length ≠ p) (x : List Char) : p ++ x ≠ q := by
  rintro rfl
  exact h (take_left' rfl)

theorem append_append_ne (h : q.take p.length ≠ p) (x y : List Char) : p ++ x ++ y ≠ q := by
  rw [append_assoc]
  exact append_ne h (x ++ y)

variable {r : Receiver}

theorem foldl_text (hr : r.mode = .text t) {ls : List (List Char)} (hls : ∀ l ∈ ls, l ≠ ['.']) :
    ls.foldl line r = { r with mode := .text (t ++ join (ls.map unstuff)) } := by
  induction ls generalizing r t with
  | nil =>
    rw [map_nil, join_nil, append_nil, ← hr]
    rfl
  | cons l ls ih =>
    obtain ⟨hl, hrest⟩ := forall_mem_cons.mp hls
    have hline : r.line l = { r with mode := .text (t ++ (unstuff l ++ crlf)) } := by
      rw [line, hr]
      exact if_neg hl
    rw [foldl_cons, hline, ih rfl hrest, map_cons, join_cons, append_assoc]

/-- A receiver reads the lines of an utterance as that utterance, whatever it has read before.
-/
theorem foldl_lines (h : validate cfg msg = .ok security) {u : Utterance} (hr : r.mode = u.before) :
    (u.lines cfg msg stamp).foldl line r = ⟨u.after, r.items ++ [u.item cfg msg stamp]⟩ := by
  have hcommand : ∀ {l : List Char}, r.mode = .commands → l ≠ "DATA".toList →
      l ≠ "AUTH LOGIN".toList → r.line l = ⟨.commands, r.items ++ [.command l]⟩ := by
    intro l hmode hdata hauth
    rw [line, hmode]
    dsimp only
    rw [if_neg hdata, if_neg hauth]
  cases u with
  | message =>
    obtain ⟨hsender, hrecipient, -⟩ := of_validate h
    have hplain : ∀ l ∈ headerLines cfg msg stamp, '\r' ∉ l ∧ l.head? ≠ some '.' :=
      headerLines_plain (not_mem_of_validateAddress hsender)
        (not_mem_of_validateAddress hrecipient)
    have hls : ∀ l ∈ headerLines cfg msg stamp ++ [[]] ++ (bodyLines msg.body).map stuff,
        l ≠ ['.'] := by
      rw [forall_mem_append, forall_mem_append]
      refine ⟨⟨?_, by decide⟩, ?_⟩
      · rintro l hl rfl
        exact (hplain _ hl).2 rfl
      · intro l hl
        obtain ⟨l', -, rfl⟩ := mem_map.mp hl
        exact stuff_ne_dot l'
    have hmap : (headerLines cfg msg stamp ++ [[]] ++ (bodyLines msg.body).map stuff).map unstuff =
        headerLines cfg msg stamp ++ [[]] ++ bodyLines msg.body := by
      have hheaders : (headerLines cfg msg stamp).map unstuff = headerLines cfg msg stamp := by
        conv_rhs => rw [← map_id (headerLines cfg msg stamp)]
        exact map_congr_left fun l hl => unstuff_of_head?_ne (hplain l hl).2
      have hbody : ((bodyLines msg.body).map stuff).map unstuff = bodyLines msg.body := by
        rw [map_map]
        exact map_id'' unstuff_stuff (bodyLines msg.body)
      rw [map_append, map_append, hheaders, hbody]
      rfl
    have htext : [] ++ join (headerLines cfg msg stamp ++ [[]] ++ bodyLines msg.body) =
        messageText cfg msg stamp := by
      rw [messageText, deliveredBody_eq, join_append, join_append]
      rfl
    change (headerLines cfg msg stamp ++ [[]] ++ (bodyLines msg.body).map stuff ++
      [['.']]).foldl line r = _
    rw [foldl_append, foldl_text hr hls, hmap, htext]
    rfl
  | ehlo | helo | authPlain => exact hcommand hr (append_ne (by decide) _) (append_ne (by decide) _)
  | mailFrom | rcptTo =>
    exact hcommand hr (append_append_ne (by decide) _ _) (append_append_ne (by decide) _ _)
  | starttls | quit => refine hcommand hr ?_ ?_ <;> unfold command <;> dsimp only <;> decide
  | authLogin | data | authUser | authPass =>
    refine Eq.trans (b := r.line _) rfl ?_
    rw [line, hr]
    rfl

variable {us auth : List Utterance}

theorem foldl_dialogue (h : validate cfg msg = .ok security)
    (hchain : us.IsChain fun u v => u.after = v.before) (hr : ∀ u ∈ us.head?, r.mode = u.before) :
    ((us.flatMap (lines cfg msg stamp)).foldl line r).items =
      r.items ++ us.map (item cfg msg stamp) := by
  induction us generalizing r with
  | nil => exact (append_nil _).symm
  | cons u us ih =>
    rw [flatMap_cons, foldl_append, foldl_lines h (hr u rfl), ih, map_cons,
      append_assoc, singleton_append]
    · exact hchain.tail
    · intro v hv
      obtain ⟨vs, rfl⟩ := head?_eq_some_iff.mp hv
      exact (isChain_cons_cons.mp hchain).1

theorem dialogue_isChain (hauth : auth ∈ logins cfg security) (helo : Bool) :
    (dialogue security helo auth).IsChain fun u v => u.after = v.before := by
  have hcases : auth = [] ∨ auth = [.authPlain] ∨ auth = [.authLogin, .authUser, .authPass] := by
    rw [logins] at hauth
    split at hauth
    · exact Or.inl (mem_singleton.mp hauth)
    · exact Or.inr (mem_pair.mp hauth)
  rcases hcases with rfl | rfl | rfl <;> cases security <;> cases helo <;> decide

/-! ## From the script to the dialogue -/

theorem completed_said (channel : Channel) (us : List Utterance) :
    completed (said cfg msg stamp channel us) = us.map (text cfg msg stamp) := by
  induction us with
  | nil => rfl
  | cons u us ih => exact congrArg (u.text cfg msg stamp :: ·) ih

theorem sent_eq_flatten_completed {log : List Event}
    (h : ∀ channel bytes, .broke channel bytes ∉ log) : sent log = (completed log).flatten := by
  induction log with
  | nil => rfl
  | cons e log ih =>
    have hrest := ih fun channel bytes hmem => h channel bytes (mem_cons_of_mem e hmem)
    cases e with
    | broke channel bytes => exact absurd mem_cons_self (h channel bytes)
    | wrote channel bytes => exact congrArg (bytes ++ ·) hrest
    | _ => exact hrest

theorem completed_script (helo : Bool) (auth : List Utterance) :
    completed (script cfg msg stamp security helo auth) =
      (dialogue security helo auth).map (text cfg msg stamp) := by
  have hopening : completed (opening security) = [] := by
    cases security <;> rfl
  have hupgrade : completed (upgrade cfg msg stamp security) =
      (if security = .starttls then [.starttls, .ehlo] else []).map
        (text cfg msg stamp) := by
    cases security <;> rfl
  have hclosing : [mailFrom, .rcptTo, .data, .message, .quit] =
      [.mailFrom, .rcptTo, .data] ++ [.message, .quit] := rfl
  rw [script, introduction, dialogue, hclosing]
  simp [completed_append, completed_said, hopening, hupgrade]

theorem sent_script (helo : Bool) (auth : List Utterance) :
    sent (script cfg msg stamp security helo auth) =
      ((dialogue security helo auth).map (text cfg msg stamp)).flatten := by
  rw [← completed_script]
  refine sent_eq_flatten_completed fun channel bytes => ?_
  cases security <;> simp [script, introduction, said, opening, upgrade]

theorem receive_utterances (h : validate cfg msg = .ok security)
    (hchain : us.IsChain fun u v => u.after = v.before)
    (hfirst : ∀ u ∈ us.head?, u.before = .commands) :
    (receive (us.map (text cfg msg stamp)).flatten).items = us.map (item cfg msg stamp) ∧
      (receive (us.map (text cfg msg stamp)).flatten).pending = [] := by
  have hjoin : (us.map (text cfg msg stamp)).flatten =
      join (us.flatMap (lines cfg msg stamp)) ++ [] := by
    rw [append_nil, join, flatMap_assoc, flatMap_def]
    exact congrArg List.flatten (map_congr_left fun u _ => text_eq_join u)
  have hcr : ∀ l ∈ us.flatMap (lines cfg msg stamp), '\r' ∉ l := by
    intro l hl
    obtain ⟨u, -, hu⟩ := mem_flatMap.mp hl
    exact not_mem_lines h u l hu
  have hsplit : split crlf (join (us.flatMap (lines cfg msg stamp)) ++ []) =
      (us.flatMap (lines cfg msg stamp) ++ [], []) := split_flatMap hcr []
  have hread : ((us.flatMap (lines cfg msg stamp)).foldl line {}).items =
      [] ++ us.map (item cfg msg stamp) :=
    foldl_dialogue h hchain fun u hu => (hfirst u hu).symm
  rw [receive, hjoin, hsplit, append_nil]
  exact ⟨hread, rfl⟩

/-! ## What the server has read -/

/-- Every completed write is read as one utterance of the dialogue and ends where the server
expects the next, and what is read of all bytes on the wire is the beginning of the dialogue. -/
theorem submission_reads_as_meant (cfg : ConnectionConfig) (msg : Message) (stamp : Stamp)
    (network : Network) (security : Security) (h : validate cfg msg = .ok security) :
    ∃ helo, ∃ auth ∈ logins cfg security,
      (∀ n ≤ (completed (sessionLog cfg msg stamp network)).length,
        (receive ((completed (sessionLog cfg msg stamp network)).take n).flatten).items =
            ((dialogue security helo auth).take n).map (item cfg msg stamp) ∧
          (receive ((completed (sessionLog cfg msg stamp network)).take n).flatten).pending = []) ∧
      (completed (sessionLog cfg msg stamp network)).length ≤ (dialogue security helo auth).length ∧
      (receive (sent (sessionLog cfg msg stamp network))).items <+:
        (dialogue security helo auth).map (item cfg msg stamp) := by
  obtain ⟨⟨-, script, ⟨helo, auth, hauth, rfl⟩, hcut⟩, -⟩ := send_spec h stamp network
  obtain ⟨hcompleted, hsent⟩ := hcut.sent_prefix
  rw [completed_acts, completed_script] at hcompleted
  rw [sent_acts, sent_script] at hsent
  have hchain := dialogue_isChain hauth helo
  have hfirst : ∀ n, ∀ u ∈ ((dialogue security helo auth).take n).head?, u.before = .commands := by
    intro n u hu
    obtain ⟨rest, hrest⟩ : ∃ rest, dialogue security helo auth = .ehlo :: rest := by
      cases helo <;> exact ⟨_, rfl⟩
    rw [hrest] at hu
    cases n with
    | zero => cases hu
    | succ n =>
      cases hu
      rfl
  refine ⟨helo, auth, hauth, ?_, ?_, ?_⟩
  · intro n hn
    have htake : (completed (sessionLog cfg msg stamp network)).take n =
        ((dialogue security helo auth).take n).map (text cfg msg stamp) := by
      obtain ⟨rest, hrest⟩ := hcompleted
      rw [map_take, ← hrest]
      exact (take_append_of_le_length hn).symm
    rw [htake]
    exact receive_utterances h (hchain.take n) (hfirst n)
  · rw [← length_map (text cfg msg stamp)]
    exact hcompleted.length_le
  · have hall := hfirst (dialogue security helo auth).length
    rw [take_length] at hall
    rw [← (receive_utterances h hchain hall).1]
    exact receive_mono hsent

def quietConfig : ConnectionConfig where
  server := ['s']
  security := "none".toList

def emptyMessage : Message where
  sender := ['a']
  recipient := ['b']

def someStamp : Stamp where
  unique := .random [1]
  now := ⟨0, 1, 0, 2026, 0, 0, 0⟩

def acceptingServer : Network where
  arrivals := ["220 x\r\n", "250 x\r\n", "250 x\r\n", "250 x\r\n", "354 x\r\n", "250 x\r\n",
    "221 x\r\n"].map fun line => .bytes line.toList
  writes := List.replicate 6 .done

def dottedMessage : Message :=
  { emptyMessage with subject := "x\rBcc: y".toList, body := ".\r.\n..a\rb\n.".toList }

theorem submission_reads_as_meant_dotted :
    validate quietConfig dottedMessage = .ok .none ∧ ∃ helo, ∃ auth ∈ logins quietConfig .none,
        (receive (sent (sessionLog quietConfig dottedMessage someStamp acceptingServer))).items <+:
          (dialogue .none helo auth).map (item quietConfig dottedMessage someStamp) := by
  have hvalid : validate quietConfig dottedMessage = .ok .none := by decide +kernel
  obtain ⟨helo, auth, hauth, -, -, hitems⟩ :=
    submission_reads_as_meant quietConfig dottedMessage someStamp acceptingServer .none hvalid
  exact ⟨hvalid, helo, auth, hauth, hitems⟩

/-- Nothing is added to an empty body. -/
theorem emptyBody_stays_empty :
    .message (join (headerLines quietConfig emptyMessage someStamp) ++ crlf) ∈
        (receive (sent (sessionLog quietConfig emptyMessage someStamp acceptingServer))).items ∧
      .message (join (headerLines quietConfig emptyMessage someStamp) ++ crlf ++
          endLine (toCrlf emptyMessage.body)) ∉
        (receive (sent (sessionLog quietConfig emptyMessage someStamp acceptingServer))).items := by
  decide +kernel

end Nscp.Smtp
