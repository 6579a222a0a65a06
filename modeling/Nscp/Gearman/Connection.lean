import Nscp.Gearman.Codec

/-!
# Receiving packets

A connection keeps the bytes it has read but not yet decoded, and a read that has completed but
has not been looked at.  A call decodes before it waits, so that packets that arrived together come
out one by one, and whatever cuts the stream is cut into does not change what comes out.
-/

namespace Nscp.Gearman

open List WirePacket Framing

/-! ## One call -/

/-- How an asynchronous read completes. -/
inductive ReadOutcome
  | bytes (chunk : List UInt8)
  | eof
  | reset
  | aborted
  | failed (message : String)

structure Connection where
  buffer : List UInt8 := []
  arrived : Option ReadOutcome := none
  isOpen : Bool := true

/-- What a call of `receive` comes to; `failed` is an exception. -/
inductive Received
  | packet (p : Packet)
  | timedOut
  | closed
  | failed (message : String)
  deriving DecidableEq

/-- What one wait sees: the deadline or a stop, nothing, or a read that completes. -/
inductive Poll
  | expired
  | quiet
  | completed (outcome : ReadOutcome)

inductive Attempt
  | over (result : Received) (c : Connection)
  | wait (c : Connection)

def decodeNext (c : Connection) : Attempt :=
  match decodePacket c.buffer with
  | .packet p consumed => .over (.packet p) { c with buffer := c.buffer.drop consumed }
  | .malformed e => .over (.failed ("Not a gearman stream: " ++ e)) c
  | .incomplete => .wait c

/-- A completed read is looked at, and the buffer decoded again if it brought bytes. -/
def takeRead (c : Connection) : ReadOutcome → Attempt
  | .eof => .over .closed { c with arrived := none }
  | .reset => .over .closed { c with arrived := none }
  | .aborted => .wait { c with arrived := none }
  | .failed message => .over (.failed ("Failed to read: " ++ message)) { c with arrived := none }
  | .bytes chunk =>
    if chunk = [] then .over .closed { c with arrived := none }
    else decodeNext { c with buffer := c.buffer ++ chunk, arrived := none }

def attempt (c : Connection) : Attempt :=
  match decodeNext c with
  | .over result c' => .over result c'
  | .wait c' =>
    match c'.arrived with
    | none => .wait c'
    | some outcome => takeRead c' outcome

/-- One call, with what its waits see.  When that is used up the deadline has passed. -/
def receive (c : Connection) : List Poll → Received × Connection × List Poll
  | [] =>
    match attempt c with
    | .over result c' => (result, c', [])
    | .wait c' => (.timedOut, c', [])
  | poll :: polls =>
    match attempt c with
    | .over result c' => (result, c', poll :: polls)
    | .wait c' =>
      match poll with
      | .expired => (.timedOut, c', polls)
      | .quiet => if c'.isOpen then receive c' polls else (.closed, c', polls)
      | .completed outcome =>
        if c'.isOpen then receive { c' with arrived := some outcome } polls
        else (.closed, c', polls)

/-- Call after call. -/
def receiveMany : ℕ → Connection → List Poll → List Received
  | 0, _, _ => []
  | n + 1, c, polls =>
    match receive c polls with
    | (result, c', polls') => result :: receiveMany n c' polls'

/-! ## Delivery of a stream -/

def ReadOutcome.data : ReadOutcome → List UInt8
  | .bytes chunk => chunk
  | _ => []

def Poll.data : Poll → List UInt8
  | .completed outcome => outcome.data
  | _ => []

def ReadOutcome.Delivers : ReadOutcome → Prop
  | .bytes chunk => chunk ≠ []
  | .aborted => True
  | _ => False

def Poll.Delivers : Poll → Prop
  | .completed outcome => outcome.Delivers
  | _ => True

/-- What the connection holds and what is still to come are the packets that are left. -/
structure Connection.Holds (c : Connection) (polls : List Poll) (ws : List WirePacket) : Prop where
  isOpen : c.isOpen = true
  arrived : ∀ outcome ∈ c.arrived, outcome.Delivers
  delivers : ∀ poll ∈ polls, poll.Delivers
  stream : c.buffer ++ (c.arrived.elim [] ReadOutcome.data ++ polls.flatMap Poll.data) =
    ws.flatMap wire

section Delivery

variable {c : Connection} {polls : List Poll} {ws : List WirePacket}

theorem decodeNext_of_stream {later : List UInt8}
    (hstream : c.buffer ++ later = ws.flatMap wire) :
    (∃ w ws' rest, ws = w :: ws' ∧ rest ++ later = ws'.flatMap wire ∧
        decodeNext c = .over (.packet w.packet) { c with buffer := rest }) ∨
      decodeNext c = .wait c ∧ decodePacket c.buffer = .incomplete := by
  rcases decodePacket_inverts.decode_front hstream with
    ⟨w, rest, ws', hws, hbuffer, hlater, hdecode⟩ | hdecode
  · refine .inl ⟨w, ws', rest, hws, hlater, ?_⟩
    rw [decodeNext, hdecode]
    dsimp only
    rw [hbuffer, drop_left]
  · refine .inr ⟨?_, hdecode⟩
    rw [decodeNext, hdecode]

/-- A whole packet in the buffer is returned, and otherwise the call waits for more. -/
theorem attempt_of_holds (h : c.Holds polls ws) :
    (∃ w ws' c', ws = w :: ws' ∧ c'.Holds polls ws' ∧ attempt c = .over (.packet w.packet) c') ∨
      ∃ c', c'.Holds polls ws ∧ c'.arrived = none ∧ decodePacket c'.buffer = .incomplete ∧
        attempt c = .wait c' := by
  rw [attempt]
  rcases decodeNext_of_stream h.stream with ⟨w, ws', rest, hws, hlater, hnext⟩ | ⟨hnext, hdecode⟩
  · rw [hnext]
    refine .inl ⟨w, ws', { c with buffer := rest }, hws, ?_, rfl⟩
    exact ⟨h.isOpen, h.arrived, h.delivers, hlater⟩
  · rw [hnext]
    dsimp only
    have hstream := h.stream
    rcases harrived : c.arrived with _ | outcome
    · exact .inr ⟨c, h, harrived, hdecode, rfl⟩
    have hdelivers := h.arrived outcome harrived
    rw [harrived, Option.elim_some] at hstream
    cases outcome with
    | eof | reset | failed message => exact hdelivers.elim
    | aborted =>
      refine .inr ⟨{ c with arrived := none }, ⟨h.isOpen, ?_, h.delivers, hstream⟩, rfl, hdecode,
        rfl⟩
      exact fun _ ho => (nomatch ho)
    | bytes chunk =>
      dsimp only
      rw [takeRead, if_neg hdelivers]
      have hstream' : (c.buffer ++ chunk) ++ polls.flatMap Poll.data = ws.flatMap wire := by
        rw [append_assoc]
        exact hstream
      have hrest : ∀ {buffer : List UInt8} {ws : List WirePacket},
          buffer ++ polls.flatMap Poll.data = ws.flatMap wire →
          Connection.Holds { c with buffer, arrived := none } polls ws :=
        fun heq => ⟨h.isOpen, fun _ ho => (nomatch ho), h.delivers, heq⟩
      rcases decodeNext_of_stream (c := { c with buffer := c.buffer ++ chunk, arrived := none })
          hstream' with ⟨w, ws', rest, hws, hlater, hnext⟩ | ⟨hnext, hdecode⟩
      · exact .inl ⟨w, ws', _, hws, hrest hlater, hnext⟩
      · exact .inr ⟨_, hrest hstream', rfl, hdecode, hnext⟩

/-- How many waits of a schedule see the deadline. -/
def expirations (polls : List Poll) : ℕ :=
  polls.countP fun
    | .expired => true
    | _ => false

/-- A call gives the next packet or times out, and then either the deadline was seen or everything
has been given back. -/
theorem receive_of_holds (h : c.Holds polls ws) :
    (∃ w ws' c' polls', ws = w :: ws' ∧ c'.Holds polls' ws' ∧
        expirations polls' ≤ expirations polls ∧
        receive c polls = (.packet w.packet, c', polls')) ∨
      ∃ c' polls', c'.Holds polls' ws ∧ receive c polls = (.timedOut, c', polls') ∧
        (expirations polls' < expirations polls ∨ polls' = [] ∧ ws = []) := by
  induction polls generalizing c with
  | nil =>
    rw [receive]
    rcases attempt_of_holds h with ⟨w, ws', c', hws, hc, hattempt⟩ |
      ⟨c', hc, harrived, hdecode, hattempt⟩
    · rw [hattempt]
      exact .inl ⟨w, ws', c', [], hws, hc, le_rfl, rfl⟩
    · rw [hattempt]
      refine .inr ⟨c', [], hc, rfl, .inr ⟨rfl, ?_⟩⟩
      have hstream := hc.stream
      rw [harrived] at hstream
      apply decodePacket_inverts.eq_nil_of_incomplete
      rw [← hstream]
      simpa using hdecode
  | cons poll polls ih =>
    rw [receive]
    rcases attempt_of_holds h with ⟨w, ws', c', hws, hc, hattempt⟩ |
      ⟨c', hc, harrived, hdecode, hattempt⟩
    · rw [hattempt]
      exact .inl ⟨w, ws', c', poll :: polls, hws, hc, le_rfl, rfl⟩
    · rw [hattempt]
      have hstream := hc.stream
      rw [harrived, flatMap_cons] at hstream
      obtain ⟨hpoll, hpolls⟩ := forall_mem_cons.mp hc.delivers
      cases poll with
      | expired =>
        refine .inr ⟨c', polls, ⟨hc.isOpen, hc.arrived, hpolls, ?_⟩, rfl, .inl ?_⟩
        · rw [harrived]
          exact hstream
        · rw [expirations, expirations, countP_cons_of_pos rfl]
          exact Nat.lt_succ_self _
      | quiet =>
        have hc' : c'.Holds polls ws := by
          refine ⟨hc.isOpen, hc.arrived, hpolls, ?_⟩
          rw [harrived]
          exact hstream
        dsimp only
        rw [if_pos hc.isOpen]
        exact ih hc'
      | completed outcome =>
        have hc' : Connection.Holds { c' with arrived := some outcome } polls ws := by
          refine ⟨hc.isOpen, ?_, hpolls, hstream⟩
          intro o ho
          cases ho
          exact hpoll
        dsimp only
        rw [if_pos hc.isOpen]
        exact ih hc'

def Received.packet? : Received → Option Packet
  | .packet p => some p
  | _ => none

theorem receiveMany_of_holds (n : ℕ) (h : c.Holds polls ws) :
    (∀ r ∈ receiveMany n c polls, r = .timedOut ∨ ∃ p, r = .packet p) ∧
      (receiveMany n c polls).filterMap Received.packet? <+: ws.map packet ∧
      (ws.length + expirations polls ≤ n →
        (receiveMany n c polls).filterMap Received.packet? = ws.map packet) := by
  induction n generalizing c polls ws with
  | zero =>
    refine ⟨fun _ hr => (nomatch hr), nil_prefix, fun hn => ?_⟩
    have hws : ws = [] := eq_nil_of_length_eq_zero (by omega)
    rw [hws]
    rfl
  | succ n ih =>
    rw [receiveMany]
    rcases receive_of_holds h with ⟨w, ws', c', polls', rfl, hc, hle, hreceive⟩ |
      ⟨c', polls', hc, hreceive, hless⟩
    · obtain ⟨hresults, hfirst, hall⟩ := ih hc
      rw [hreceive]
      refine ⟨?_, ?_, fun hn => ?_⟩
      · exact forall_mem_cons.mpr ⟨.inr ⟨_, rfl⟩, hresults⟩
      · exact cons_prefix_cons.mpr ⟨rfl, hfirst⟩
      · rw [length_cons] at hn
        exact congrArg (w.packet :: ·) (hall (by omega))
    · obtain ⟨hresults, hfirst, hall⟩ := ih hc
      rw [hreceive]
      refine ⟨?_, hfirst, fun hn => ?_⟩
      · exact forall_mem_cons.mpr ⟨.inl rfl, hresults⟩
      · apply hall
        rcases hless with hless | ⟨rfl, rfl⟩
        · omega
        · exact Nat.zero_le _

end Delivery

/-- A packet the protocol can carry is decoded with its length, whatever follows it, and a part of
it is incomplete; any sequence of packets comes out of `receive` as it was, however it is cut. -/
theorem codec_and_framing (w : WirePacket) (ws : List WirePacket) (polls : List Poll)
    (hdelivers : ∀ poll ∈ polls, poll.Delivers)
    (hstream : polls.flatMap Poll.data = ws.flatMap wire) :
    encodePacket (.known w.type) w.args w.magic = .ok w.wire ∧
      (∀ rest, decodePacket (w.wire ++ rest) =
        .packet ⟨w.magic, .known w.type, w.args⟩ w.wire.length) ∧
      (∀ front, front <+: w.wire → front ≠ w.wire → decodePacket front = .incomplete) ∧
      ∀ n, (∀ r ∈ receiveMany n {} polls, r = .timedOut ∨ ∃ p, r = .packet p) ∧
        (receiveMany n {} polls).filterMap Received.packet? <+: ws.map packet ∧
        (ws.length + expirations polls ≤ n →
          (receiveMany n {} polls).filterMap Received.packet? = ws.map packet) := by
  refine ⟨w.encodePacket_eq, decodePacket_inverts.whole w, decodePacket_inverts.short w,
    fun n => receiveMany_of_holds n ⟨rfl, fun _ ho => (nomatch ho), hdelivers, ?_⟩⟩
  exact hstream

def noopPacket : WirePacket where
  magic := .response
  type := .noop
  args := []
  count := rfl
  separable := fun _ h => (nomatch h)
  handle := (nomatch ·)
  size := by decide

def jobPacket : WirePacket where
  magic := .response
  type := .jobAssign
  args := [[72, 58, 49], [99], [7, 0, 8]]
  count := rfl
  separable := by decide
  handle := fun _ => by decide
  size := by decide

/-- Two packets in three pieces, the second one cut in its header and in its arguments. -/
theorem codec_and_framing_pieces :
    let polls : List Poll := [.completed (.bytes [0, 82, 69, 83, 0, 0, 0, 6, 0, 0, 0, 0, 0, 82]),
      .expired, .completed (.bytes [69, 83, 0, 0, 0, 11, 0, 0, 0, 9, 72, 58]),
      .completed (.bytes [49, 0, 99, 0, 7, 0, 8])]
    decodePacket (jobPacket.wire ++ [0]) = .packet jobPacket.packet jobPacket.wire.length ∧
      (receiveMany 3 {} polls).filterMap Received.packet? = [noopPacket, jobPacket].map packet := by
  intro polls
  obtain ⟨-, hdecode, -, hmany⟩ := codec_and_framing jobPacket [noopPacket, jobPacket] polls
    (by simp [polls, Poll.Delivers, ReadOutcome.Delivers]) (by decide)
  exact ⟨hdecode [0], (hmany 3).2.2 (by decide)⟩

end Nscp.Gearman
