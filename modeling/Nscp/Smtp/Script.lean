import Nscp.Library.Fallible
import Nscp.Smtp.Trace

/-!
# The scripts of a submission

What the client says is one of twelve utterances.  A script is a whole dialogue: the handshake,
the greeting, the upgrade, the login, the envelope, the message and the farewell, as the security
mode and the server's replies lead to them.  Whatever the network does, the acts of a submission
are those of a script, cut off somewhere; and a submission that succeeds has read a positive reply
behind its message.
-/

namespace Nscp.Smtp

open Fallible List DotText Hoare
open Triple hiding ite pure refuseIf attempt

inductive Utterance
  | ehlo
  | helo
  | starttls
  | authPlain
  | authLogin
  | authUser
  | authPass
  | mailFrom
  | rcptTo
  | data
  | message
  | quit
  deriving DecidableEq

/-! ## Scripts -/

section Scripts

variable (cfg : ConnectionConfig) (msg : Message) (stamp : Stamp)

def Utterance.text : Utterance → List Char
  | .ehlo => ehloLine cfg.ehloName
  | .helo => heloLine cfg.ehloName
  | .starttls => "STARTTLS".toList ++ crlf
  | .authPlain => "AUTH PLAIN ".toList ++ b64 (saslPlain cfg.username cfg.password) ++ crlf
  | .authLogin => "AUTH LOGIN".toList ++ crlf
  | .authUser => b64 cfg.username ++ crlf
  | .authPass => b64 cfg.password ++ crlf
  | .mailFrom => mailFromLine msg
  | .rcptTo => rcptToLine msg
  | .data => "DATA".toList ++ crlf
  | .message => dataSection cfg msg stamp
  | .quit => "QUIT".toList ++ crlf

def Security.first : Security → Channel
  | .tls => .tls
  | _ => .clear

/-- The channel behind the upgrade. -/
def Security.later : Security → Channel
  | .none => .clear
  | _ => .tls

def said (channel : Channel) (us : List Utterance) : List Event :=
  us.map fun u => .wrote channel (u.text cfg msg stamp)

def opening : Security → List Event
  | .tls => [.handshake]
  | _ => []

def greeting (helo : Bool) : List Utterance :=
  if helo then [.ehlo, .helo] else [.ehlo]

def upgrade : Security → List Event
  | .starttls =>
    said cfg msg stamp .clear [.starttls] ++ .handshake :: said cfg msg stamp .tls [.ehlo]
  | _ => []

section

variable (security : Security)

/-- The exchanges of the login; there is none without a user name or without TLS. -/
def logins : List (List Utterance) :=
  if cfg.username = [] ∨ security = .none then [[]]
  else [[.authPlain], [.authLogin, .authUser, .authPass]]

/-- A script up to the message. -/
def introduction (helo : Bool) (auth : List Utterance) : List Event :=
  opening security ++ said cfg msg stamp security.first (greeting helo) ++
    upgrade cfg msg stamp security ++
    said cfg msg stamp security.later (auth ++ [.mailFrom, .rcptTo, .data])

def script (helo : Bool) (auth : List Utterance) : List Event :=
  introduction cfg msg stamp security helo auth ++
    said cfg msg stamp security.later [.message, .quit]

def scriptsOf : Set (List Event) :=
  {s | ∃ helo, ∃ auth ∈ logins cfg security, s = script cfg msg stamp security helo auth}

end

@[simp] theorem said_append (channel : Channel) (us vs : List Utterance) :
    said cfg msg stamp channel (us ++ vs) =
      said cfg msg stamp channel us ++ said cfg msg stamp channel vs :=
  map_append

theorem append_said_cons {done : List Event} {channel : Channel} (u : Utterance)
    {us : List Utterance} : done ++ said cfg msg stamp channel (u :: us) =
      done ++ said cfg msg stamp channel [u] ++ said cfg msg stamp channel us := by
  rw [append_assoc, ← said_append, singleton_append]

theorem logins_ne_nil (security : Security) : ∃ auth, auth ∈ logins cfg security := by
  rw [logins]
  split
  all_goals exact ⟨_, mem_cons_self⟩

end Scripts

/-! ## The stages of a dialogue -/

variable {cfg : ConnectionConfig} {msg : Message} {stamp : Stamp} {security : Security}
variable {scripts : Set (List Event)} {channel : Channel} {done : List Event}
  {caps bytes : List Char}

theorem exchange_spec {α : Type} {u : Utterance} {k : List Char → Io α} {Q : α → Wire → Prop}
    (hlead : Leads scripts (done ++ said cfg msg stamp channel [u]))
    (hk : ∀ reply, Triple (At channel (done ++ said cfg msg stamp channel [u])) (k reply) Q
      (Stops scripts)) :
    Triple (At channel done) (write (u.text cfg msg stamp) >>= fun _ => readReply >>= k) Q
      (Stops scripts) := by
  refine bind (write_spec hlead) fun _ => ?_
  exact bind (readReply_at hlead) hk

theorem greet_spec
    (hlead : ∀ helo, Leads scripts (done ++ said cfg msg stamp channel (greeting helo))) :
    Triple (At channel done) (greet cfg.ehloName)
      (fun _ w => ∃ helo, At channel (done ++ said cfg msg stamp channel (greeting helo)) w)
      (Stops scripts) := by
  have hdone := (hlead false).of_append
  rw [greet]
  refine bind (readReply_at hdone) fun banner => ?_
  refine bind (refuseIf_spec hdone) fun _ => ?_
  refine exchange_spec (u := .ehlo) (hlead false) fun reply => ?_
  apply Triple.ite
  · intro _
    have hhelo := hlead true
    rw [greeting, if_pos rfl, append_said_cons] at hhelo
    refine exchange_spec (u := .helo) hhelo fun reply => ?_
    refine bind (refuseIf_spec hhelo) fun _ => ?_
    apply Triple.pure
    intro w hw
    refine ⟨true, ?_⟩
    rw [greeting, if_pos rfl, append_said_cons]
    exact hw
  · intro _
    apply Triple.pure
    intro w hw
    exact ⟨false, hw⟩

theorem startTls_spec (hlead : Leads scripts (done ++ upgrade cfg msg stamp .starttls)) :
    Triple (At .clear done) (startTls cfg.ehloName caps)
      (fun _ => At .tls (done ++ upgrade cfg msg stamp .starttls)) (Stops scripts) := by
  rw [upgrade, ← append_assoc] at hlead ⊢
  have hstart := hlead.of_append
  have hsecure : Leads scripts (done ++ said cfg msg stamp .clear [.starttls] ++ [.handshake] ++
      said cfg msg stamp .tls [.ehlo]) := by
    rwa [append_assoc _ [_], singleton_append]
  rw [startTls]
  refine refuseIf_bind (fun _ hw => hw.stops hstart.of_append) fun _ => ?_
  refine exchange_spec (u := .starttls) hstart fun reply => ?_
  refine bind (refuseIf_spec hstart) fun _ => ?_
  refine bind (handshake_spec hstart) fun _ => ?_
  refine exchange_spec (u := .ehlo) hsecure fun reply => ?_
  refine bind (refuseIf_spec hsecure) fun _ => ?_
  apply Triple.pure
  intro w hw
  rwa [append_assoc _ [_], singleton_append] at hw

theorem authPlain_spec (hlead : Leads scripts (done ++ said cfg msg stamp channel [.authPlain])) :
    Triple (At channel done) (authPlain cfg.username cfg.password)
      (fun _ => At channel (done ++ said cfg msg stamp channel [.authPlain])) (Stops scripts) := by
  rw [authPlain]
  exact exchange_spec (u := .authPlain) hlead fun reply => refuseIf_spec hlead

theorem authLogin_spec
    (hlead : Leads scripts
      (done ++ said cfg msg stamp channel [.authLogin, .authUser, .authPass])) :
    Triple (At channel done) (authLogin cfg.username cfg.password)
      (fun _ => At channel (done ++ said cfg msg stamp channel [.authLogin, .authUser, .authPass]))
      (Stops scripts) := by
  rw [append_said_cons _ _ _ .authLogin, append_said_cons _ _ _ .authUser] at hlead ⊢
  rw [authLogin]
  refine exchange_spec (u := .authLogin) hlead.of_append.of_append fun reply => ?_
  refine bind (refuseIf_spec hlead.of_append.of_append) fun _ => ?_
  refine exchange_spec (u := .authUser) hlead.of_append fun reply => ?_
  refine bind (refuseIf_spec hlead.of_append) fun _ => ?_
  exact exchange_spec (u := .authPass) hlead fun reply => refuseIf_spec hlead

theorem login_spec
    (hlead : ∀ auth ∈ logins cfg security,
      Leads scripts (done ++ said cfg msg stamp channel auth)) :
    Triple (At channel done) (login cfg security caps)
      (fun _ w => ∃ auth ∈ logins cfg security,
        At channel (done ++ said cfg msg stamp channel auth) w)
      (Stops scripts) := by
  obtain ⟨auth, hauth⟩ := logins_ne_nil cfg security
  have hdone := (hlead auth hauth).of_append
  rw [login]
  apply Triple.ite
  · intro huser
    have hmem : [] ∈ logins cfg security := by
      rw [logins, if_pos (Or.inl huser)]
      exact mem_cons_self
    apply Triple.pure
    intro w hw
    refine ⟨[], hmem, ?_⟩
    rwa [said, map_nil, append_nil]
  · intro huser
    refine refuseIf_bind (fun _ hw => hw.stops hdone) fun hsecurity => ?_
    have hlogins : logins cfg security = [[.authPlain], [.authLogin, .authUser, .authPass]] := by
      rw [logins, if_neg (not_or_intro huser hsecurity)]
    rw [hlogins] at hlead ⊢
    rw [doAuth]
    refine refuseIf_bind (fun _ hw => hw.stops hdone) fun _ => ?_
    refine refuseIf_bind (fun _ hw => hw.stops hdone) fun _ => ?_
    apply Triple.ite
    · intro _
      refine (authPlain_spec (hlead _ mem_cons_self)).mono (fun _ h => h) ?_ fun _ h => h
      exact fun _ w hw => ⟨_, mem_cons_self, hw⟩
    · intro _
      have hmem : [.authLogin, .authUser, .authPass] ∈
          [[Utterance.authPlain], [.authLogin, .authUser, .authPass]] := by
        decide
      refine (authLogin_spec (hlead _ hmem)).mono (fun _ h => h) ?_ fun _ h => h
      exact fun _ w hw => ⟨_, hmem, hw⟩

theorem envelope_spec
    (hlead : Leads scripts (done ++ said cfg msg stamp channel [.mailFrom, .rcptTo, .data])) :
    Triple (At channel done) (envelope msg)
      (fun _ => At channel (done ++ said cfg msg stamp channel [.mailFrom, .rcptTo, .data]))
      (Stops scripts) := by
  rw [append_said_cons _ _ _ .mailFrom, append_said_cons _ _ _ .rcptTo] at hlead ⊢
  rw [envelope]
  refine exchange_spec (u := .mailFrom) hlead.of_append.of_append fun reply => ?_
  refine bind (refuseIf_spec hlead.of_append.of_append) fun _ => ?_
  refine exchange_spec (u := .rcptTo) hlead.of_append fun reply => ?_
  refine bind (refuseIf_spec hlead.of_append) fun _ => ?_
  exact exchange_spec (u := .data) hlead fun reply => refuseIf_spec hlead

/-! ## The message and the reply to it -/

/-- A write was completed behind these acts, and a reply that starts with the digit 2 was read
behind it. -/
def Answered (done : List Event) (channel : Channel) (bytes : List Char) (log : List Event) :
    Prop :=
  ∃ pre mid post, log = pre ++ .wrote channel bytes :: mid ++ post ∧ acts pre = done ∧
    (∀ e ∈ mid, e.isReading = true) ∧ (replyText mid).head? = some '2'

theorem Answered.mono {log log' : List Event} (h : Answered done channel bytes log)
    (hlog : log <+: log') : Answered done channel bytes log' := by
  obtain ⟨pre, mid, post, rfl, hacts, hreading, hreply⟩ := h
  obtain ⟨more, rfl⟩ := hlog
  exact ⟨pre, mid, post ++ more, append_assoc .., hacts, hreading, hreply⟩

theorem transmit_spec (hlead : Leads scripts (done ++ [.wrote channel bytes])) :
    Triple (At channel done) (transmit bytes)
      (fun _ w => At channel (done ++ [.wrote channel bytes]) w ∧ Answered done channel bytes w.log)
      (Stops scripts) := by
  rw [transmit]
  apply of_forall
  intro w hw
  have hwrite : Triple (· = w) (write bytes)
      (fun _ w' => At channel (done ++ [.wrote channel bytes]) w' ∧
        w'.log = w.log ++ [.wrote w.channel bytes]) (Stops scripts) := by
    refine ((write_spec hlead).and (write_log bytes w)).mono ?_ (fun _ _ h => h) fun _ h => h.1
    rintro _ rfl
    exact ⟨hw, rfl⟩
  refine bind hwrite fun _ => of_forall fun w₁ hw₁ => ?_
  obtain ⟨hat, hlog⟩ := hw₁
  refine bind ((readReply_spec w₁).mono (fun _ h => h) (fun _ _ h => h) ?_) fun reply => ?_
  · rintro w' ⟨mid, hreads⟩
    exact (hat.reads hreads).stops hlead
  · refine of_forall fun w₂ hw₂ => ?_
    obtain ⟨mid, hreads, rfl⟩ := hw₂
    have hat₂ := hat.reads hreads
    refine (Triple.refuseIf ?_).mono (fun _ h => h) ?_ fun _ h => h
    · rintro _ _ rfl
      exact hat₂.stops hlead
    · rintro _ _ ⟨rfl, hreply⟩
      refine ⟨hat₂, w.log, mid, [], ?_, hw.acts, hreads.reading, ?_⟩
      · rw [hreads.log, hlog, hw.channel, append_nil, append_assoc, singleton_append]
      · exact not_not.mp (not_or.mp hreply).2

theorem quit_spec (hlead : Leads scripts (done ++ said cfg msg stamp channel [.quit])) {w : Wire}
    (hw : At channel done w) {E : Wire → Prop} :
    Triple (· = w) (attempt do write ("QUIT".toList ++ crlf); readReply)
      (fun _ w' => Stops scripts w' ∧ w.log <+: w'.log) E := by
  apply Triple.attempt
  have hwrite : Triple (· = w) (write ("QUIT".toList ++ crlf))
      (fun _ w' => At channel (done ++ said cfg msg stamp channel [.quit]) w' ∧
        w'.log = w.log ++ [.wrote w.channel ("QUIT".toList ++ crlf)])
      fun w' => Stops scripts w' ∧ w.log <+: w'.log := by
    refine ((write_spec hlead).and (write_log _ w)).mono ?_ (fun _ _ h => h) fun _ h => h
    rintro _ rfl
    exact ⟨hw, rfl⟩
  refine bind hwrite fun _ => of_forall fun w₁ hw₁ => ?_
  obtain ⟨hat, hlog⟩ := hw₁
  have hread : ∀ {w' mid}, Reads w₁ w' mid → Stops scripts w' ∧ w.log <+: w'.log := by
    intro w' mid hreads
    refine ⟨(hat.reads hreads).stops hlead, ?_⟩
    rw [hreads.log, hlog, append_assoc]
    exact prefix_append w.log _
  refine (readReply_spec w₁).mono (fun _ h => h) ?_ ?_
  · rintro reply w' ⟨mid, hreads, -⟩
    exact hread hreads
  · rintro w' ⟨mid, hreads⟩
    exact hread hreads

/-! ## The dialogue -/

theorem secureFirst_spec (hlead : Leads scripts (opening security)) :
    Triple (At .clear []) (secureFirst security) (fun _ => At security.first (opening security))
      (Stops scripts) := by
  rw [secureFirst]
  cases security with
  | none | starttls => exact Triple.pure fun w hw => hw
  | tls =>
    have hnil : Leads scripts ([] ++ [.handshake]) := hlead
    exact handshake_spec hnil.of_append

theorem secureLater_spec (hlead : Leads scripts (done ++ upgrade cfg msg stamp security)) :
    Triple (At security.first done) (secureLater security cfg.ehloName caps)
      (fun _ => At security.later (done ++ upgrade cfg msg stamp security)) (Stops scripts) := by
  rw [secureLater]
  cases security with
  | none | tls =>
    apply Triple.pure
    intro w hw
    exact (append_nil done).symm ▸ hw
  | starttls => exact startTls_spec hlead

theorem converse_spec :
    Triple (At .clear []) (converse cfg msg stamp security)
      (fun _ w => Stops (scriptsOf cfg msg stamp security) w ∧ ∃ helo, ∃ auth ∈ logins cfg security,
          Answered (introduction cfg msg stamp security helo auth) security.later
            (dataSection cfg msg stamp) w.log)
      (Stops (scriptsOf cfg msg stamp security)) := by
  have hlead : ∀ helo, ∀ auth ∈ logins cfg security,
      Leads (scriptsOf cfg msg stamp security) (script cfg msg stamp security helo auth) :=
    fun helo auth hauth => ⟨_, ⟨helo, auth, hauth, rfl⟩, prefix_rfl⟩
  simp only [script, introduction, said_append, ← append_assoc] at hlead
  obtain ⟨auth₀, hauth₀⟩ := logins_ne_nil cfg security
  have hupgrade := fun helo => (hlead helo auth₀ hauth₀).of_append.of_append.of_append
  rw [converse]
  refine bind (secureFirst_spec (hupgrade false).of_append.of_append) fun _ => ?_
  refine bind (greet_spec fun helo => (hupgrade helo).of_append) fun caps => ?_
  refine of_exists fun helo => ?_
  refine bind (secureLater_spec (hupgrade helo)) fun caps => ?_
  refine bind (login_spec fun auth hauth => (hlead helo auth hauth).of_append.of_append)
    fun _ => ?_
  refine of_exists fun auth => of_and fun hauth => ?_
  refine bind (envelope_spec (hlead helo auth hauth).of_append) fun _ => ?_
  -- the message and the farewell
  have hquit := hlead helo auth hauth
  rw [append_said_cons _ _ _ .message] at hquit
  refine bind (transmit_spec hquit.of_append) fun _ => ?_
  refine of_forall fun w hw => ?_
  refine (quit_spec hquit hw.1).mono (fun _ h => h) ?_ fun _ h => h
  rintro _ w' ⟨hstops, hlog⟩
  refine ⟨hstops, helo, auth, hauth, ?_⟩
  rw [introduction, said_append, ← append_assoc]
  exact hw.2.mono hlog

/-! ## Whole submissions -/

theorem of_validate (h : validate cfg msg = .ok security) :
    validateAddress msg.sender "from".toList = .ok () ∧
      validateAddress msg.recipient "to".toList = .ok () ∧
      validateEhloName cfg.ehloName = .ok () := by
  rw [validate] at h
  obtain ⟨_, -, h⟩ := bind_eq_ok h
  obtain ⟨_, hsender, h⟩ := bind_eq_ok h
  obtain ⟨_, hrecipient, h⟩ := bind_eq_ok h
  obtain ⟨_, -, h⟩ := bind_eq_ok h
  obtain ⟨_, hname, h⟩ := bind_eq_ok h
  exact ⟨hsender, hrecipient, hname⟩

theorem at_start (network : Network) (timeoutSeconds : ℤ) :
    At .clear [] { network, timeoutSeconds } := by
  refine ⟨rfl, rfl, rfl, ?_⟩
  intro pre post h
  cases pre <;> cases h

/-- Whatever the network does, a submission follows a script; it succeeds only behind a positive
reply to the message. -/
theorem send_spec (h : validate cfg msg = .ok security) (stamp : Stamp) (network : Network) :
    Stops (scriptsOf cfg msg stamp security) (finalWire (send cfg msg stamp network)) ∧
      ∀ w, send cfg msg stamp network = .ok () w → ∃ helo, ∃ auth ∈ logins cfg security,
          Answered (introduction cfg msg stamp security helo auth) security.later
            (dataSection cfg msg stamp) w.log := by
  have hstart := at_start network cfg.timeoutSeconds
  obtain ⟨auth, hauth⟩ := logins_ne_nil cfg security
  rw [send, h]
  dsimp only
  cases openConnection cfg network with
  | error e =>
    refine ⟨hstart.stops ⟨_, ⟨false, auth, hauth, rfl⟩, nil_prefix⟩, ?_⟩
    intro w hw
    cases hw
  | ok _ =>
    have hconverse : Triple (At .clear []) (converse cfg msg stamp security) _ _ := converse_spec
    have hrun := hconverse _ hstart
    dsimp only
    cases hresult : converse cfg msg stamp security
        { network := network, timeoutSeconds := cfg.timeoutSeconds } with
    | error e w =>
      rw [hresult] at hrun
      refine ⟨hrun, ?_⟩
      intro w' hw'
      cases hw'
    | ok _ w =>
      rw [hresult] at hrun
      refine ⟨hrun.1, ?_⟩
      rintro w' hw'
      cases hw'
      exact hrun.2

end Nscp.Smtp
