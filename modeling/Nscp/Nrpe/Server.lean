import Nscp.Nrpe.Parser

/-!
# The server side of a connection

`nrpe::read_protocol` collects a request, hands it to the handler and sends the
handler's responses one write at a time.  A response that cannot be serialized is
dropped and an error is offered in its place; the error can fail to serialize as
well.  `socket_helpers::server::connection` drives the protocol: it reads while
data is wanted, writes while there is data, and closes otherwise.

What a state still has to send is computed from its buffer and its queue alone
(`outstanding`).  Serializing the next response uses up the queue up
to that response, a write uses up the buffer, and so every run of writes sends
exactly the outstanding buffers and ends in `done`.
-/

namespace Nscp.Nrpe

open Nrpe.Parser List Data

namespace Server

inductive State where
  | none
  | connected
  | hasMore
  | lastPacket
  | done
  deriving DecidableEq, Repr

inductive Thrown where
  | exception (what : String)
  | other
  deriving DecidableEq, Repr

def Thrown.message : Thrown → String
  | .exception what => "Exception processing request: " ++ what
  | .other => "Exception processing request"

structure Handler where
  handle : Packet → String → Except Thrown (List Packet)
  createError : String → Packet
  payloadLength : ℕ

/-- The error offered in place of a response that cannot be serialized. -/
def Handler.substitute (handler : Handler) : Packet :=
  handler.createError "Failed to create return package"

/-- The responses to a request, as `on_read` obtains them when its queue is
empty. -/
def Handler.answers (handler : Handler) (request : Except String Packet)
    (peerIdentity : String) : List Packet :=
  match request with
  | .ok packet =>
    match handler.handle packet peerIdentity with
    | .ok responses => responses
    | .error thrown => [handler.createError thrown.message]
  | .error what => [handler.createError (Thrown.exception what).message]

structure ReadProtocol where
  parser : Parser
  currentState : State
  data : List UInt8
  responses : List Packet
  peerIdentity : String
  deriving DecidableEq, Repr

namespace ReadProtocol

def create (handler : Handler) : ReadProtocol :=
  ⟨.new handler.payloadLength, .none, [], [], ""⟩

section

variable (s : ReadProtocol)

def setState (state : State) : ReadProtocol := { s with currentState := state }

def setPeerIdentity (identity : String) : ReadProtocol :=
  { s with peerIdentity := identity }

def onAccept : ReadProtocol := { s with parser := s.parser.reset }

def onConnect : ReadProtocol := s.setState .connected

def wantsData : Bool := s.currentState = .connected

def hasData : Bool := s.currentState = .hasMore ∨ s.currentState = .lastPacket

def getOutbound : List UInt8 := s.data

end

def queueFrom (handler : Handler) (s : ReadProtocol) (reported : Bool)
    (responses : List Packet) : ReadProtocol :=
  match responses with
  | [] => { s with data := [], responses := [], currentState := .done }
  | response :: rest =>
    match response.getBuffer with
    | .ok data =>
      { s with
        data := data
        responses := rest
        currentState := if rest.isEmpty then .lastPacket else .hasMore }
    | .error _ =>
      if reported then queueFrom handler s true rest
      else queueFrom handler s true (handler.substitute :: rest)
termination_by responses.length + if reported then 0 else 2
decreasing_by
  all_goals simp_all

def queueNext (handler : Handler) (s : ReadProtocol) : ReadProtocol :=
  queueFrom handler s false s.responses

/-- The `try` block of `on_read`: an exception adds an error to the queue. -/
def receive (handler : Handler) (s : ReadProtocol) (request : Except String Packet) :
    ReadProtocol :=
  match request with
  | .ok packet =>
    match handler.handle packet s.peerIdentity with
    | .ok responses => { s with responses := responses }
    | .error thrown =>
      { s with responses := s.responses ++ [handler.createError thrown.message] }
  | .error what =>
    { s with
      responses := s.responses ++ [handler.createError (Thrown.exception what).message] }

/-- `on_read`: whether the connection goes on, and the protocol. -/
def onRead (handler : Handler) (s : ReadProtocol) (chunk : List UInt8) : Bool × ReadProtocol :=
  match s.parser.onRead chunk with
  | .waiting parser => (true, { s with parser := parser })
  | .complete parser _ =>
    let read := { s with parser := parser.parse.2 }
    (true, (read.receive handler parser.parse.1).queueNext handler)
  | .gaveUp parser => (false, { s with parser := parser })

def onWrite (handler : Handler) (s : ReadProtocol) : ReadProtocol :=
  if s.currentState = .lastPacket then s.setState .done else s.queueNext handler

/-- The buffers the connection writes in its next `n` rounds of `do_process`. -/
def writes (handler : Handler) : ℕ → ReadProtocol → List (List UInt8)
  | 0, _ => []
  | n + 1, s => if s.hasData then s.getOutbound :: writes handler n (s.onWrite handler) else []

/-- The states a connection can bring the protocol into. -/
inductive Reachable (handler : Handler) : ReadProtocol → Prop where
  | create : Reachable handler (create handler)
  | accept {s} (hs : Reachable handler s) (hstate : s.currentState = .none) :
      Reachable handler s.onAccept
  | handshake {s} (hs : Reachable handler s) (hstate : s.currentState = .none)
      (identity : String) : Reachable handler (s.setPeerIdentity identity)
  | connect {s} (hs : Reachable handler s) (hstate : s.currentState = .none) :
      Reachable handler s.onConnect
  | read {s} (hs : Reachable handler s) (hwants : s.wantsData) (chunk : List UInt8) :
      Reachable handler (s.onRead handler chunk).2
  | write {s} (hs : Reachable handler s) (hdata : s.hasData) : Reachable handler (s.onWrite handler)

/-! ## What is still to be sent -/

section Sending

variable {handler : Handler} {s : ReadProtocol}

/-- The buffers sent for one response: its own, or the error's when it cannot be
serialized, or none when the error cannot be either. -/
def reply (handler : Handler) (response : Packet) : List (List UInt8) :=
  match response.getBuffer with
  | .ok data => [data]
  | .error _ => handler.substitute.getBuffer.toOption.toList

variable {response : Packet} {message : String} {data : List UInt8}

theorem reply_of_ok (h : response.getBuffer = .ok data) : reply handler response = [data] := by
  rw [reply, h]

theorem reply_of_error (h : response.getBuffer = .error message) :
    reply handler response = handler.substitute.getBuffer.toOption.toList := by
  rw [reply, h]

theorem reply_of_error_error {message' : String} (h : response.getBuffer = .error message)
    (hsubstitute : handler.substitute.getBuffer = .error message') :
    reply handler response = [] := by
  rw [reply_of_error h, hsubstitute]
  rfl

def outstanding (handler : Handler) (s : ReadProtocol) : List (List UInt8) :=
  if s.hasData then s.data :: s.responses.flatMap (reply handler) else []

/-- The queue agrees with the state: responses wait exactly in state `hasMore`. -/
def Consistent (s : ReadProtocol) : Prop := s.currentState = .hasMore ↔ s.responses ≠ []

structure Queued (handler : Handler) (buffers : List (List UInt8)) (s : ReadProtocol) : Prop where
  outstanding_eq : s.outstanding handler = buffers
  consistent : s.Consistent
  settled : s.hasData ∨ s.currentState = .done

theorem Queued.done :
    Queued handler [] { s with data := [], responses := [], currentState := .done } :=
  ⟨by simp [outstanding, hasData], by simp [Consistent], .inr rfl⟩

theorem Queued.buffered (data : List UInt8) (rest : List Packet) :
    Queued handler (data :: rest.flatMap (reply handler))
      { s with
        data := data
        responses := rest
        currentState := if rest.isEmpty then .lastPacket else .hasMore } := by
  cases rest with
  | nil => exact ⟨by simp [outstanding, hasData], by simp [Consistent], .inl (by simp [hasData])⟩
  | cons response rest =>
    exact ⟨by simp [outstanding, hasData], by simp [Consistent], .inl (by simp [hasData])⟩

theorem queueFrom_reported (hsubstitute : handler.substitute.getBuffer = .error message)
    (responses : List Packet) :
    Queued handler (responses.flatMap (reply handler)) (queueFrom handler s true responses) := by
  induction responses with
  | nil =>
    rw [queueFrom]
    exact Queued.done
  | cons response rest ih =>
    rw [queueFrom, flatMap_cons]
    cases hbuffer : response.getBuffer with
    | ok data =>
      rw [reply_of_ok hbuffer]
      exact Queued.buffered data rest
    | error _ =>
      rw [reply_of_error_error hbuffer hsubstitute]
      simpa using ih

theorem queueFrom_unreported (responses : List Packet) :
    Queued handler (responses.flatMap (reply handler)) (queueFrom handler s false responses) := by
  cases responses with
  | nil =>
    rw [queueFrom]
    exact Queued.done
  | cons response rest =>
    rw [queueFrom, flatMap_cons]
    cases hbuffer : response.getBuffer with
    | ok data =>
      rw [reply_of_ok hbuffer]
      exact Queued.buffered data rest
    | error _ =>
      -- the error takes the place of the response at the head of the queue
      simp only [Bool.false_eq_true, if_false]
      cases hsubstitute : handler.substitute.getBuffer with
      | ok data =>
        rw [reply_of_error hbuffer, queueFrom, hsubstitute]
        exact Queued.buffered data rest
      | error message =>
        have hdropped := queueFrom_reported (s := s) hsubstitute (handler.substitute :: rest)
        rw [flatMap_cons, reply_of_error_error hsubstitute hsubstitute] at hdropped
        rw [reply_of_error_error hbuffer hsubstitute]
        exact hdropped

section

variable (handler : Handler)

theorem queueNext_queued (s : ReadProtocol) :
    Queued handler (s.responses.flatMap (reply handler)) (s.queueNext handler) :=
  queueFrom_unreported s.responses

theorem onWrite_queued (hs : s.Consistent) (hdata : s.hasData) :
    Queued handler (s.outstanding handler).tail (s.onWrite handler) := by
  rw [outstanding, if_pos hdata, tail_cons, onWrite]
  by_cases hlast : s.currentState = .lastPacket
  · have hempty : s.responses = [] := by
      by_contra hne
      have hmore := hs.mpr hne
      rw [hlast] at hmore
      cases hmore
    rw [if_pos hlast, hempty]
    exact ⟨by simp [outstanding, hasData, setState], by simp [Consistent, setState, hempty],
      .inr rfl⟩
  · rw [if_neg hlast]
    exact queueNext_queued handler s

theorem receive_responses (request : Except String Packet) (hs : s.responses = []) :
    (s.receive handler request).responses = handler.answers request s.peerIdentity := by
  cases request with
  | error what => simp [receive, Handler.answers, hs]
  | ok packet =>
    cases hhandle : handler.handle packet s.peerIdentity with
    | ok responses => simp [receive, Handler.answers, hhandle]
    | error thrown => simp [receive, Handler.answers, hhandle, hs]

/-- **What one completed read leads to.** -/
theorem onRead_queued {chunk unread : List UInt8} {parser : Parser} (hs : s.responses = [])
    (hread : s.parser.onRead chunk = .complete parser unread) : (s.onRead handler chunk).1 = true ∧
      Queued handler
        ((handler.answers parser.parse.1 s.peerIdentity).flatMap (reply handler))
        (s.onRead handler chunk).2 := by
  rw [onRead, hread]
  refine ⟨rfl, ?_⟩
  have hresponses := receive_responses (s := { s with parser := parser.parse.2 }) handler
    parser.parse.1 hs
  rw [← hresponses]
  exact queueNext_queued handler _

end

/-! ## Runs of a connection -/

theorem Consistent.responses_eq_nil (hs : s.Consistent) (hstate : s.currentState ≠ .hasMore) :
    s.responses = [] := by
  by_contra hne
  exact hstate (hs.mpr hne)

theorem Reachable.consistent (hs : Reachable handler s) : s.Consistent := by
  induction hs with
  | create => simp [Consistent, ReadProtocol.create]
  | accept _ _ ih => exact ih
  | handshake _ _ _ ih => exact ih
  | @connect s _ hstate ih =>
    have hempty := ih.responses_eq_nil (by rw [hstate]; decide)
    simp [Consistent, onConnect, setState, hempty]
  | @read s _ hwants chunk ih =>
    have hstate : s.currentState = .connected := by simpa [wantsData] using hwants
    have hempty := ih.responses_eq_nil (by rw [hstate]; decide)
    cases hread : s.parser.onRead chunk with
    | waiting parser | gaveUp parser =>
      rw [onRead, hread]
      exact ih
    | complete parser unread => exact (onRead_queued handler hempty hread).2.consistent
  | write _ hdata ih => exact (onWrite_queued handler ih hdata).consistent

variable {buffers : List (List UInt8)}

theorem Queued.onWrite (h : Queued handler (data :: buffers) s) :
    s.hasData ∧ s.getOutbound = data ∧ Queued handler buffers (s.onWrite handler) := by
  have hdata : s.hasData := by
    by_contra hno
    have heq := h.outstanding_eq
    rw [outstanding, if_neg hno] at heq
    cases heq
  have heq := h.outstanding_eq
  rw [outstanding, if_pos hdata, cons.injEq] at heq
  have hnext := onWrite_queued handler h.consistent hdata
  rw [h.outstanding_eq, tail_cons] at hnext
  exact ⟨hdata, heq.1, hnext⟩

theorem Queued.done_of_nil (h : Queued handler [] s) : s.currentState = .done := by
  rcases h.settled with hdata | hdone
  · have heq := h.outstanding_eq
    rw [outstanding, if_pos hdata] at heq
    cases heq
  · exact hdone

theorem Queued.run (h : Queued handler buffers s) :
    ((ReadProtocol.onWrite handler)^[buffers.length] s).currentState = .done ∧
      ∀ n, buffers.length ≤ n → s.writes handler n = buffers := by
  induction buffers generalizing s with
  | nil =>
    have hdone := h.done_of_nil
    refine ⟨hdone, fun n _ => ?_⟩
    cases n with
    | zero => rfl
    | succ n => rw [writes, if_neg (by simp [hasData, hdone])]
  | cons data buffers ih =>
    obtain ⟨hdata, hout, hnext⟩ := h.onWrite
    obtain ⟨hdone, hwrites⟩ := ih hnext
    refine ⟨hdone, fun n hn => ?_⟩
    obtain ⟨m, rfl⟩ : ∃ m, n = m + 1 := ⟨n - 1, by simp at hn; omega⟩
    rw [writes, if_pos hdata, hout, hwrites m (by simpa using hn)]

theorem Reachable.queued (hs : Reachable handler s) (hdata : s.hasData) :
    Queued handler (s.outstanding handler) s :=
  ⟨rfl, hs.consistent, .inl hdata⟩

theorem Reachable.responses_eq_nil (hs : Reachable handler s) (hwants : s.wantsData) :
    s.responses = [] := by
  have hstate : s.currentState = .connected := by simpa [wantsData] using hwants
  exact hs.consistent.responses_eq_nil (by rw [hstate]; decide)

/-! ## How much is sent -/

def serializable (packet : Packet) : Bool := packet.getBuffer.isOk

theorem length_flatMap_reply (handler : Handler) (answers : List Packet) :
    (answers.flatMap (reply handler)).length = answers.countP serializable +
        if serializable handler.substitute then answers.countP (fun r => !serializable r)
        else 0 := by
  induction answers with
  | nil => simp
  | cons answer answers ih =>
    rw [flatMap_cons, length_append, ih, countP_cons, countP_cons]
    cases hanswer : answer.getBuffer with
    | ok data =>
      have hser : serializable answer = true := by rw [serializable, hanswer]; rfl
      rw [reply_of_ok hanswer, hser]
      simp
      omega
    | error _ =>
      have hser : serializable answer = false := by rw [serializable, hanswer]; rfl
      rw [reply_of_error hanswer, hser, serializable]
      cases handler.substitute.getBuffer <;> simp [Except.toOption, Except.isOk, Except.toBool]
      omega

theorem sublist_flatMap_reply (handler : Handler) (answers : List Packet) :
    (answers.filterMap fun r => r.getBuffer.toOption).Sublist
      (answers.flatMap (reply handler)) := by
  induction answers with
  | nil => simp
  | cons answer answers ih =>
    rw [filterMap_cons, flatMap_cons]
    cases hanswer : answer.getBuffer with
    | ok data =>
      rw [reply_of_ok hanswer]
      exact ih.cons_cons data
    | error _ => exact ih.trans (sublist_append_right _ _)

/-- **The connection neither stalls nor repeats itself.**  From every reachable
state with data the writes send what is outstanding and end in `done`; and after a
read that completes a request they send, in order, one buffer for each response
that can be serialized and one error for each that cannot, as far as the error can
be serialized itself. -/
theorem writes_answers (handler : Handler) :
    (∀ s, Reachable handler s → s.hasData →
      ((onWrite handler)^[(s.outstanding handler).length] s).currentState = .done ∧
        ∀ n, (s.outstanding handler).length ≤ n → s.writes handler n = s.outstanding handler) ∧
    ∀ s chunk parser unread, Reachable handler s → s.wantsData →
      s.parser.onRead chunk = .complete parser unread →
      let answers := handler.answers parser.parse.1 s.peerIdentity
      let sent := answers.flatMap (reply handler)
      ((onWrite handler)^[sent.length] (s.onRead handler chunk).2).currentState = .done ∧
        (∀ n, sent.length ≤ n → (s.onRead handler chunk).2.writes handler n = sent) ∧
        sent.length = answers.countP serializable +
          (if serializable handler.substitute then answers.countP (fun r => !serializable r)
            else 0) ∧
        (answers.filterMap fun r => r.getBuffer.toOption).Sublist sent := by
  refine ⟨fun s hs hdata => (hs.queued hdata).run, ?_⟩
  intro s chunk parser unread hs hwants hread
  obtain ⟨hdone, hwrites⟩ := (onRead_queued handler (hs.responses_eq_nil hwants) hread).2.run
  exact ⟨hdone, hwrites, length_flatMap_reply handler _, sublist_flatMap_reply handler _⟩

end Sending

namespace Sample

def oversized : Packet := Packet.createResponse version2 0 (replicate 40 120) 40

def fitting : Packet := Packet.createResponse version2 0 [111, 107] 40

def handler (responses : List Packet) : Handler where
  handle _ _ := .ok responses
  createError message := Packet.createResponse version2 3 message.toUTF8.data.toList 40
  payloadLength := 40

def request : List UInt8 :=
  [0, 2, 0, 1, 111, 81, 130, 23, 0, 0, 104] ++ replicate 41 0

theorem onRead_request :
    (new 40).onRead request = .complete ⟨40, request⟩ [] := by
  have hdigest : (new 40).digest request = (true, ⟨40, request⟩, []) := by
    decide +kernel
  rw [request, cons_append] at hdigest ⊢
  rw [Parser.onRead, hdigest]
  rfl

theorem parse_request (responses : List Packet) :
    (handler responses).answers (parse ⟨40, request⟩).1 "" = responses := by
  have hparse : (parse ⟨40, request⟩).1 = .ok ⟨40, queryPacket, version2, 0, [104]⟩ := by
    decide +kernel
  rw [hparse]
  rfl

end Sample

open Sample in
/-- Two responses, the second of which is replaced by an error. -/
theorem writes_answers_oversized :
    let s := (create (handler [fitting, oversized])).onConnect
    let sent := [fitting, oversized].flatMap (reply (handler [fitting, oversized]))
    sent.length = 2 ∧ (∀ n, 2 ≤ n → (s.onRead (handler [fitting, oversized]) request).2.writes
        (handler [fitting, oversized]) n = sent) := by
  have hreach : Reachable (handler [fitting, oversized])
      (create (handler [fitting, oversized])).onConnect :=
    .connect .create rfl
  obtain ⟨-, hwrites, hlength, -⟩ := (writes_answers (handler [fitting, oversized])).2 _ request
    ⟨40, request⟩ [] hreach rfl onRead_request
  have hcounts : [fitting, oversized].countP serializable +
      (if serializable (handler [fitting, oversized]).substitute then
        [fitting, oversized].countP (fun r => !serializable r) else 0) = 2 := by
    decide +kernel
  have hanswers := parse_request [fitting, oversized]
  rw [show (create (handler [fitting, oversized])).onConnect.peerIdentity = "" from rfl,
    hanswers] at hlength hwrites
  rw [hcounts] at hlength
  rw [hlength] at hwrites
  exact ⟨hlength, hwrites⟩

open Sample in
/-- Two responses that cannot be serialized are answered with two errors, which are
the same bytes. -/
theorem writes_two_errors :
    ∃ error, Reachable (handler [oversized, oversized])
        (create (handler [oversized, oversized])).onConnect ∧
      [oversized, oversized].countP serializable = 0 ∧
      ((create (handler [oversized, oversized])).onConnect.onRead
        (handler [oversized, oversized]) request).2.writes (handler [oversized, oversized]) 2 =
          [error, error] := by
  obtain ⟨error, herror⟩ : ∃ error,
      (handler [oversized, oversized]).substitute.getBuffer = .ok error := by
    have hok : (handler [oversized, oversized]).substitute.getBuffer.isOk = true := by
      decide +kernel
    cases herror : (handler [oversized, oversized]).substitute.getBuffer with
    | ok error => exact ⟨error, rfl⟩
    | error message => rw [herror] at hok; cases hok
  have hoversized : oversized.getBuffer =
      .error "To much data cant create return packet (truncate data)" := by
    decide
  have hreply : reply (handler [oversized, oversized]) oversized = [error] := by
    rw [reply_of_error hoversized, herror]
    rfl
  have hqueued := (onRead_queued (s := (create (handler [oversized, oversized])).onConnect)
    (handler [oversized, oversized]) rfl onRead_request).2.run.2 2
  rw [show (create (handler [oversized, oversized])).onConnect.peerIdentity = "" from rfl,
    parse_request] at hqueued
  refine ⟨error, .connect .create rfl, by decide, ?_⟩
  rw [hqueued (by simp [hreply])]
  simp [hreply]

end ReadProtocol

end Server

end Nscp.Nrpe
