import Nscp.Library.Runs
import Nscp.Smtp.Dialogue

/-!
# What leaves in clear

With TLS asked for, nothing but the greeting and STARTTLS is written before the handshake, and
everything behind it is written on the encrypted channel; no byte that was received before the
handshake is taken behind it.  Without TLS no credential is written.  A submission succeeds only
behind a positive reply to its message; that the bytes of the reply came in behind the message is
not checked.
-/

namespace Nscp.Smtp

open Security List DotText Runs

def Event.channel? : Event → Option Channel
  | .wrote channel _ => some channel
  | .broke channel _ => some channel
  | _ => none

variable {cfg : ConnectionConfig} {msg : Message} {stamp : Stamp} {security : Security}

/-! ## Before and behind the handshake -/

def secured (before : Bool) (e : Event) : Bool :=
  before || e = .handshake

/-- At most a part of one of these utterances. -/
def PartOf (cfg : ConnectionConfig) (msg : Message) (stamp : Stamp) (us : List Utterance)
    (e : Event) : Prop :=
  ∃ u ∈ us, e.sent <+: u.text cfg msg stamp

/-- What may be said before the handshake. -/
def preliminaries : List Utterance := [.ehlo, .helo, .starttls]

/-- An event is encrypted behind the handshake, or part of the preliminaries. -/
def Covered (cfg : ConnectionConfig) (msg : Message) (stamp : Stamp) (before : Bool) (e : Event) :
    Prop :=
  before = true ∧ e.channel? = some .tls ∨ PartOf cfg msg stamp preliminaries e

theorem foldl_secured (before : Bool) (log : List Event) :
    log.foldl secured before = true ↔ before = true ∨ .handshake ∈ log := by
  induction log generalizing before with
  | nil => simp
  | cons e log ih =>
    rw [foldl_cons, ih, secured, mem_cons, Bool.or_eq_true, decide_eq_true_eq, or_assoc]
    exact or_congr Iff.rfl (or_congr eq_comm Iff.rfl)

variable {us auth : List Utterance} {e : Event}

theorem partOf_of_sent_eq_nil (hus : us ≠ []) (he : e.sent = []) : PartOf cfg msg stamp us e := by
  obtain ⟨u, us, rfl⟩ := exists_cons_of_ne_nil hus
  refine ⟨u, mem_cons_self, ?_⟩
  rw [he]
  exact nil_prefix

theorem secured_of_ne (he : e ≠ .handshake) (before : Bool) : secured before e = before := by
  rw [secured, decide_eq_false he, Bool.or_false]

variable {log : List Event} {before : Bool}

theorem guarded_of_acts (h : Guarded secured (Covered cfg msg stamp) before (acts log)) :
    Guarded secured (Covered cfg msg stamp) before log := by
  have hread : ∀ {e : Event} {before : Bool} {log : List Event}, e.sent = [] → e ≠ .handshake →
      Guarded secured (Covered cfg msg stamp) before log →
      Guarded secured (Covered cfg msg stamp) before (e :: log) := by
    intro e before log hsent hne hlog
    refine ⟨.inr (partOf_of_sent_eq_nil (by decide) hsent), ?_⟩
    rwa [secured_of_ne hne]
  induction log generalizing before with
  | nil => trivial
  | cons e log ih =>
    cases e with
    | received bytes | took line => exact hread rfl (by rintro ⟨⟩) (ih h)
    | wrote channel bytes | broke channel bytes | handshake => exact ⟨h.1, ih h.2⟩

variable {channel : Channel}

theorem guarded_said (hus : before = true ∧ channel = .tls ∨ us ⊆ preliminaries) :
    Guarded secured (Covered cfg msg stamp) before (said cfg msg stamp channel us) := by
  induction us with
  | nil => trivial
  | cons u us ih =>
    refine ⟨?_, ?_⟩
    · rcases hus with ⟨hbefore, rfl⟩ | hus
      · exact .inl ⟨hbefore, rfl⟩
      · exact .inr ⟨u, hus mem_cons_self, prefix_rfl⟩
    · rw [secured_of_ne (by rintro ⟨⟩)]
      exact ih (hus.imp_right fun h v hv => h (mem_cons_of_mem u hv))

theorem guarded_handshake :
    Guarded secured (Covered cfg msg stamp) before (.handshake :: said cfg msg stamp .tls us) := by
  refine ⟨.inr (partOf_of_sent_eq_nil (by decide) rfl), guarded_said (.inl ⟨?_, rfl⟩)⟩
  rw [secured, decide_eq_true rfl, Bool.or_true]

theorem guarded_script (hsecurity : security ≠ .none) (helo : Bool) (auth : List Utterance) :
    Guarded secured (Covered cfg msg stamp) false (script cfg msg stamp security helo auth) := by
  cases security with
  | none => exact absurd rfl hsecurity
  | tls =>
    have hscript : script cfg msg stamp .tls helo auth =
        .handshake :: said cfg msg stamp .tls (greeting helo ++
          (auth ++ [.mailFrom, .rcptTo, .data]) ++ [.message, .quit]) := by
      rw [said_append, said_append]
      simp [script, introduction, opening, upgrade, first, later]
    rw [hscript]
    exact guarded_handshake
  | starttls =>
    have hscript : script cfg msg stamp .starttls helo auth =
        said cfg msg stamp .clear (greeting helo ++ [.starttls]) ++
          .handshake :: said cfg msg stamp .tls ([.ehlo] ++
            (auth ++ [.mailFrom, .rcptTo, .data]) ++ [.message, .quit]) := by
      rw [said_append, said_append, said_append]
      simp [script, introduction, opening, upgrade, first, later]
    rw [hscript, guarded_append]
    refine ⟨guarded_said (.inr ?_), guarded_handshake⟩
    cases helo <;> decide

variable {plan as : List Event}

theorem CutOff.guarded (h : CutOff plan as)
    (hplan : Guarded secured (Covered cfg msg stamp) false plan) :
    Guarded secured (Covered cfg msg stamp) false as := by
  rcases h with ⟨rest, rfl⟩ | ⟨done, channel, part, bytes, rfl, ⟨rest, rfl⟩, hpart⟩
  · exact (guarded_append.mp hplan).1
  · obtain ⟨hdone, hwrite, -⟩ := guarded_append.mp (guarded_append.mp hplan).1
    refine guarded_append.mpr ⟨hdone, ?_, trivial⟩
    rcases hwrite with hsecured | ⟨u, hu, hbytes⟩
    · exact .inl hsecured
    · exact .inr ⟨u, hu, hpart.trans hbytes⟩

/-! ## Without TLS -/

/-- What is said without TLS; none of it depends on the credentials. -/
def uncredentialed : List Utterance :=
  [.ehlo, .helo, .mailFrom, .rcptTo, .data, .message, .quit]

theorem partOf_script {helo : Bool} (hauth : auth ∈ logins cfg .none) :
    ∀ e ∈ script cfg msg stamp .none helo auth, PartOf cfg msg stamp uncredentialed e := by
  have hlogins : logins cfg .none = [[]] := by
    rw [logins, if_pos (.inr rfl)]
  rw [hlogins, mem_singleton] at hauth
  subst hauth
  have hsubset : greeting helo ++ [.mailFrom, .rcptTo, .data] ++ [.message, .quit] ⊆
      uncredentialed := by
    cases helo <;> decide
  have hscript : script cfg msg stamp .none helo [] = said cfg msg stamp .clear
        (greeting helo ++ [.mailFrom, .rcptTo, .data] ++ [.message, .quit]) := by
    rw [said_append, said_append]
    simp [script, introduction, opening, upgrade, first, later]
  intro e he
  rw [hscript] at he
  obtain ⟨u, hu, rfl⟩ := mem_map.mp he
  exact ⟨u, hsubset hu, prefix_rfl⟩

theorem CutOff.partOf (h : CutOff plan as) (hplan : ∀ e ∈ plan, PartOf cfg msg stamp us e) :
    ∀ e ∈ as, PartOf cfg msg stamp us e := by
  rcases h with ⟨rest, rfl⟩ | ⟨done, channel, part, bytes, rfl, ⟨rest, rfl⟩, hpart⟩
  · exact (forall_mem_append.mp hplan).1
  · obtain ⟨hdone, hwrite⟩ := forall_mem_append.mp (forall_mem_append.mp hplan).1
    obtain ⟨u, hu, hbytes⟩ := hwrite _ mem_cons_self
    refine forall_mem_append.mpr ⟨hdone, forall_mem_singleton.mpr ⟨u, hu, ?_⟩⟩
    exact hpart.trans hbytes

/-! ## Confidentiality -/

theorem Sound.taken_prefix {w : Wire} (h : Sound w) {pre post : List Event}
    (hlog : w.log = pre ++ .handshake :: post) : taken post <+: received post := by
  have hbuffered := h.buffered
  have hdrained := h.drained pre post hlog
  have hcons : ∀ log, received (.handshake :: log) = received log ∧
      taken (.handshake :: log) = taken log := fun log => ⟨rfl, rfl⟩
  rw [hlog, received_append, taken_append, hdrained, append_assoc, (hcons post).1,
    (hcons post).2] at hbuffered
  exact ⟨w.buffer, (append_cancel_left hbuffered).symm⟩

theorem send_of_refused {e : List Char} (h : validate cfg msg = .error e) (network : Network) :
    sessionLog cfg msg stamp network = [] ∧ ∀ w, send cfg msg stamp network ≠ .ok () w := by
  rw [sessionLog, send, h]
  refine ⟨rfl, ?_⟩
  rintro w ⟨⟩

/-- What is refused leaves no trace.  With TLS asked for, an event is encrypted behind the handshake
or part of the preliminaries, and bytes from before the handshake are not taken behind it.  Without
TLS nothing that depends on the credentials is written.  A submission that succeeds has read a reply
that starts with the digit 2 behind the introduction and the message. -/
theorem submission_confidential (cfg : ConnectionConfig) (msg : Message) (stamp : Stamp)
    (network : Network) :
    (∀ e, validate cfg msg = .error e →
      sessionLog cfg msg stamp network = [] ∧ ∀ w, send cfg msg stamp network ≠ .ok () w) ∧
    ∀ security, validate cfg msg = .ok security →
      (security ≠ .none → ∀ pre e post, sessionLog cfg msg stamp network = pre ++ e :: post →
        (.handshake ∈ pre ∧ e.channel? = some .tls) ∨ PartOf cfg msg stamp preliminaries e) ∧
      (∀ pre post, sessionLog cfg msg stamp network = pre ++ .handshake :: post →
        taken post <+: received post) ∧
      (security = .none → ∀ e ∈ sessionLog cfg msg stamp network,
        PartOf cfg msg stamp uncredentialed e) ∧
      (∀ w, send cfg msg stamp network = .ok () w → ∃ helo, ∃ auth ∈ logins cfg security,
          Answered (introduction cfg msg stamp security helo auth) security.later
            (dataSection cfg msg stamp) w.log) := by
  refine ⟨fun e h => send_of_refused h network, fun security h => ?_⟩
  obtain ⟨⟨hsound, plan, ⟨helo, auth, hauth, rfl⟩, hcut⟩, hok⟩ := send_spec h stamp network
  refine ⟨?_, fun pre post hlog => hsound.taken_prefix hlog, ?_, hok⟩
  · intro hsecurity pre e post hlog
    have hguarded := guarded_of_acts (hcut.guarded (guarded_script hsecurity helo auth))
    rw [show (finalWire (send cfg msg stamp network)).log = pre ++ e :: post from hlog,
      guarded_append] at hguarded
    rcases hguarded.2.1 with ⟨hsecured, hchannel⟩ | hpart
    · refine .inl ⟨?_, hchannel⟩
      exact ((foldl_secured false pre).mp hsecured).resolve_left Bool.false_ne_true
    · exact .inr hpart
  · rintro rfl e he
    have hacts := hcut.partOf (partOf_script hauth)
    cases hreading : e.isReading with
    | false => exact hacts e (mem_filter.mpr ⟨he, by rw [hreading]; rfl⟩)
    | true =>
      apply partOf_of_sent_eq_nil (by decide)
      cases e with
      | received bytes => rfl
      | took line => rfl
      | wrote channel bytes | broke channel bytes | handshake => cases hreading

/-! ## A reply that came too early -/

/-- The reply to the message was also received behind it. -/
def AnsweredAfter (channel : Channel) (bytes : List Char) (log : List Event) : Prop :=
  ∃ pre mid post, log = pre ++ .wrote channel bytes :: mid ++ post ∧
    (∀ e ∈ mid, e.isReading = true) ∧ (replyText mid).head? = some '2' ∧
    taken mid <+: received mid

theorem not_answeredAfter {bytes : List Char} (hfirst : ∀ e ∈ log.head?, e.isReading = true)
    (hquiet : ∀ e ∈ log.tail, e.receivedBytes = []) : ¬ AnsweredAfter channel bytes log := by
  rintro ⟨pre, mid, post, rfl, hreading, hreply, htaken⟩
  have hreceived : received mid = [] := by
    apply flatMap_eq_nil_iff.mpr
    intro e he
    cases pre with
    | nil => exact absurd (hfirst _ rfl) (by simp [Event.isReading])
    | cons x pre =>
      apply hquiet
      simp [he]
  rw [hreceived, prefix_nil, taken, flatMap_eq_nil_iff] at htaken
  have hlines : takenLines mid = [] := by
    apply eq_nil_iff_forall_not_mem.mpr
    intro l hl
    simpa using htaken l hl
  rw [replyText, hlines] at hreply
  cases hreply

/-- All replies come in one segment, before the client has said anything. -/
def eagerServer : Network where
  arrivals := [.bytes "220 x\r\n250 x\r\n250 x\r\n250 x\r\n354 x\r\n250 x\r\n".toList]
  writes := List.replicate 6 .done

/-- The submission succeeds although the positive reply was in the buffer before the message was
written. -/
theorem eagerServer_answered_before :
    (∃ w, send quietConfig emptyMessage someStamp eagerServer = .ok () w) ∧
      ¬ AnsweredAfter .clear (dataSection quietConfig emptyMessage someStamp)
        (sessionLog quietConfig emptyMessage someStamp eagerServer) := by
  constructor
  · have hok : (send quietConfig emptyMessage someStamp eagerServer).casesOn
        (motive := fun _ => Bool) (fun _ _ => true) (fun _ _ => false) = true := by
      decide +kernel
    cases hsend : send quietConfig emptyMessage someStamp eagerServer with
    | ok _ w => exact ⟨w, rfl⟩
    | error e w =>
      rw [hsend] at hok
      cases hok
  · apply not_answeredAfter
    · decide +kernel
    · decide +kernel

end Nscp.Smtp
