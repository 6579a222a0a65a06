import Nscp.Nrpe.Parser

/-!
# The client side of a request

`nrpe::client::protocol` and the part of `socket_helpers::client::connection`
that drives it.  Request and response share one buffer: it is written out as the
request and then handed to the read, which completes when it has filled the
buffer or when the peer closes.  A response longer than the request is therefore
cut short, and the exact condition for a response to arrive is the main result.
-/

namespace Nscp.Nrpe

open Except Packet List Data

namespace Client

inductive State where
  | none
  | connected
  | hasRequest
  | sentResponse
  | hasMore
  | done
  deriving DecidableEq, Repr

structure Protocol where
  buffer : List UInt8
  payloadLength : ℕ
  responses : List Packet
  currentState : State
  deriving DecidableEq, Repr

namespace Protocol

def new : Protocol := ⟨[], 0, [], .none⟩

section

variable (s : Protocol)

def setState (state : State) : Protocol := { s with currentState := state }

def onConnect : Protocol := s.setState .connected

def prepareRequest (packet : Packet) : Except String Protocol :=
  packet.getBuffer.map fun buffer =>
    { s with currentState := .hasRequest, payloadLength := packet.payloadLength, buffer := buffer }

def hasData : Bool := s.currentState = .hasRequest

def wantsData : Bool := s.currentState = .sentResponse ∨ s.currentState = .hasMore

end

def textBytes (text : String) : List UInt8 := text.toUTF8.data.toList

section

variable (s : Protocol)

def reject (message : String) : Protocol :=
  { s with responses := s.responses ++ [unknownResponse (textBytes message)],
           currentState := .connected }

def accept (packet : Packet) : Protocol :=
  { s with responses := s.responses ++ [packet],
           currentState := if packet.type = moreResponsePacket then .hasMore else .connected }

def onRead (bytesTransferred : ℕ) : Protocol :=
  if bytesTransferred = 0 ∨ s.buffer.length < bytesTransferred then
    s.reject "Truncated response from NRPE server"
  else
    match ofBuffer (s.buffer.take bytesTransferred) with
    | .ok packet => s.accept packet
    | .error message => s.reject ("Failed to read response: " ++ message)

def onWrite : Protocol := s.setState .sentResponse

def onReadError : Bool := s.currentState = .connected

end

theorem onRead_currentState (s : Protocol) (n : ℕ) :
    (s.onRead n).currentState = .connected ∨ ((s.onRead n).currentState = .hasMore ∧ n ≠ 0) := by
  rw [onRead]
  split
  · exact .inl rfl
  · rename_i hn
    split
    · rename_i packet _
      by_cases hmore : packet.type = moreResponsePacket
      · exact .inr ⟨by simp [accept, hmore], fun hzero => hn (.inl hzero)⟩
      · exact .inl (by simp [accept, hmore])
    · exact .inl rfl

end Protocol

/-! ## The connection -/

/-- A connection to a peer that sends `inbound` and then closes. -/
structure Connection where
  protocol : Protocol
  inbound : List UInt8
  outbound : List UInt8
  deriving DecidableEq, Repr

namespace Connection

section

variable (c : Connection)

def transferred : ℕ := min c.protocol.buffer.length c.inbound.length

/-- The read overwrites the front of the buffer; the rest is still the request. -/
def receive : Connection :=
  { c with
    protocol := { c.protocol with
      buffer := c.inbound.take c.transferred ++ c.protocol.buffer.drop c.transferred }
    inbound := c.inbound.drop c.transferred }

def handleReadRequest : Option Connection :=
  let read := c.receive
  let digested := { read with protocol := read.protocol.onRead c.transferred }
  if c.transferred = c.protocol.buffer.length then some digested
  else
    -- the peer closed before the buffer was full
    let partially := if 0 < c.transferred then digested else read
    if partially.protocol.onReadError then some partially else none

def handleWriteRequest : Connection :=
  { c with
    protocol := c.protocol.onWrite
    outbound := c.outbound ++ c.protocol.buffer }

/-- Reads and writes still to come: every read uses up input or ends the wait. -/
def pending : ℕ :=
  c.inbound.length +
    match c.protocol.currentState with
    | .hasRequest => 2
    | .sentResponse | .hasMore => 1
    | _ => 0

end

variable {c next : Connection}

theorem pending_of_wantsData (h : c.protocol.wantsData) : c.pending = c.inbound.length + 1 := by
  simp only [Protocol.wantsData, decide_eq_true_eq] at h
  rcases h with h | h <;> rw [pending, h]

theorem transferred_le_inbound (c : Connection) : c.transferred ≤ c.inbound.length :=
  Nat.min_le_right _ _

theorem handleReadRequest_pending (hwants : c.protocol.wantsData)
    (hnext : c.handleReadRequest = some next) : next.pending < c.pending := by
  rw [pending_of_wantsData hwants]
  have hle := c.transferred_le_inbound
  have hdigested : pending { c.receive with
      protocol := c.receive.protocol.onRead c.transferred } < c.inbound.length + 1 := by
    rcases c.receive.protocol.onRead_currentState c.transferred with h | ⟨h, hpos⟩
    all_goals
      rw [pending, h]
      simp only [receive, length_drop]
      omega
  rw [handleReadRequest] at hnext
  by_cases hfull : c.transferred = c.protocol.buffer.length
  · rw [if_pos hfull, Option.some_inj] at hnext
    exact hnext ▸ hdigested
  · rw [if_neg hfull] at hnext
    by_cases hpos : 0 < c.transferred
    · simp only [if_pos hpos] at hnext
      split at hnext
      · cases hnext
        exact hdigested
      · cases hnext
    · -- nothing arrived, so the protocol is still waiting and the error stands
      have herror : c.receive.protocol.onReadError = false := by
        simp only [Protocol.wantsData, decide_eq_true_eq] at hwants
        rcases hwants with h | h <;> simp [Protocol.onReadError, receive, h]
      simp [hpos, herror] at hnext

theorem handleWriteRequest_pending (hdata : c.protocol.hasData) :
    c.handleWriteRequest.pending < c.pending := by
  simp only [Protocol.hasData, decide_eq_true_eq] at hdata
  simp [pending, hdata, handleWriteRequest, Protocol.onWrite, Protocol.setState]

/-- `do_process` and the handlers it starts, up to the end of the exchange;
`none` when a read failed. -/
def doProcess (c : Connection) : Option (List Packet) :=
  if _ : c.protocol.wantsData then
    match _ : c.handleReadRequest with
    | some next => doProcess next
    | none => none
  else if _ : c.protocol.hasData then doProcess c.handleWriteRequest
  else some c.protocol.responses
termination_by c.pending
decreasing_by
  · exact handleReadRequest_pending ‹_› ‹_›
  · exact handleWriteRequest_pending ‹_›

theorem doProcess_of_wantsData (h : c.protocol.wantsData)
    (hnext : c.handleReadRequest = some next) : c.doProcess = next.doProcess := by
  rw [doProcess, dif_pos h]
  split
  · rename_i other hother
    rw [Option.some_inj.mp (hnext.symm.trans hother)]
  · rename_i hnone
    rw [hnext] at hnone
    cases hnone

theorem doProcess_of_hasData (h : c.protocol.currentState = .hasRequest) :
    c.doProcess = c.handleWriteRequest.doProcess := by
  rw [doProcess, dif_neg (by simp [Protocol.wantsData, h]), dif_pos (by simp [Protocol.hasData, h])]

theorem doProcess_of_connected (h : c.protocol.currentState = .connected) :
    c.doProcess = some c.protocol.responses := by
  rw [doProcess, dif_neg (by simp [Protocol.wantsData, h]), dif_neg (by simp [Protocol.hasData, h])]

end Connection

def processRequest (request : Packet) (answer : List UInt8) :
    Except String (Option (List Packet)) :=
  (Protocol.new.onConnect.prepareRequest request).map fun protocol =>
    Connection.doProcess ⟨protocol, answer, []⟩

/-! ## One request, one response -/

def reported (received : List UInt8) : Packet :=
  match ofBuffer received with
  | .ok packet => packet
  | .error message =>
    unknownResponse (Protocol.textBytes ("Failed to read response: " ++ message))

theorem Protocol.onRead_eq {s : Protocol} {n : ℕ} (hpos : 0 < n) (hle : n ≤ s.buffer.length)
    (hmore : (reported (s.buffer.take n)).type ≠ moreResponsePacket) :
    s.onRead n = { s with responses := s.responses ++ [reported (s.buffer.take n)],
                          currentState := .connected } := by
  have hn : ¬ (n = 0 ∨ s.buffer.length < n) := by omega
  rw [Protocol.onRead, if_neg hn]
  rw [reported] at hmore ⊢
  cases hread : ofBuffer (s.buffer.take n) with
  | ok packet =>
    rw [hread] at hmore
    simp [accept, hmore]
  | error message => simp [reject]

variable {out answer : List UInt8} {request response : Packet}

/-- The exchange ends with the one packet read from as much of the answer as
fits in the request's buffer. -/
theorem processRequest_eq (hout : request.getBuffer = .ok out) (hpos : out ≠ [])
    (hanswer : answer ≠ [])
    (hmore : (reported (answer.take out.length)).type ≠ moreResponsePacket) :
    processRequest request answer = .ok (some [reported (answer.take out.length)]) := by
  set asked : Connection := ⟨⟨out, request.payloadLength, [], .sentResponse⟩, answer, out⟩
    with hasked
  have hn : asked.transferred = min out.length answer.length := rfl
  have hlen : 0 < out.length := length_pos_iff.mpr hpos
  have halen : 0 < answer.length := length_pos_iff.mpr hanswer
  have htake : asked.receive.protocol.buffer.take asked.transferred = answer.take out.length := by
    have hfront : (answer.take asked.transferred).length = asked.transferred := by
      rw [length_take]
      omega
    rw [Connection.receive, take_left' hfront, hn, ← take_eq_take_min]
  have hroom : asked.transferred ≤ asked.receive.protocol.buffer.length := by
    simp only [Connection.receive, hasked, length_append, length_take, length_drop] at hn ⊢
    omega
  have hread := Protocol.onRead_eq (s := asked.receive.protocol) (n := asked.transferred)
    (by omega) hroom (by rwa [htake])
  rw [htake] at hread
  have hhandled : asked.handleReadRequest = some { asked.receive with
      protocol := asked.receive.protocol.onRead asked.transferred } := by
    rw [Connection.handleReadRequest]
    by_cases hfull : asked.transferred = asked.protocol.buffer.length
    · rw [if_pos hfull]
    · have hsome : 0 < asked.transferred := by omega
      simp [if_pos hsome, hread, Protocol.onReadError]
  have hprocess : asked.doProcess = some [reported (answer.take out.length)] := by
    rw [Connection.doProcess_of_wantsData (by rfl) hhandled, Connection.doProcess_of_connected]
    · rw [hread]
      rfl
    · rw [hread]
  rw [processRequest, Protocol.prepareRequest, hout, Except.map, Except.map,
    Connection.doProcess_of_hasData (by rfl)]
  exact congrArg ok hprocess

/-! ## When the response arrives -/

/-- A response a server may send to `request`. -/
structure Conforming (request response : Packet) : Prop where
  version : response.version = request.version
  type : response.type = responsePacket
  fixed : request.version = version2 → response.payloadLength = request.payloadLength ∧
      response.payload.length < response.payloadLength
  bounded : request.version = version4 → response.payload.length ≤ maxPayload

/-- The exchange ends with exactly this response; the payload length is the
client's own estimate and not part of it. -/
def Delivered (request : Packet) (answer : List UInt8) (response : Packet) : Prop :=
  ∃ payloadLength,
    processRequest request answer = .ok (some [{ response with payloadLength := payloadLength }])

theorem delivered_iff_of_reported {payloadLength : ℕ} (hout : request.getBuffer = .ok out)
    (hpos : out ≠ []) (hanswer : answer ≠ []) (htype : response.type = responsePacket)
    (hread : ofBuffer (answer.take out.length) =
      .ok { response with
        payloadLength := payloadLength, payload := response.payload.takeWhile (· ≠ 0) }) :
    Delivered request answer response ↔ 0 ∉ response.payload := by
  have hreported : reported (answer.take out.length) =
      { response with payloadLength := payloadLength,
                      payload := response.payload.takeWhile (· ≠ 0) } := by
    rw [reported, hread]
  have hmore : (reported (answer.take out.length)).type ≠ moreResponsePacket := by
    rw [hreported, htype]
    decide
  rw [Delivered, processRequest_eq hout hpos hanswer hmore, hreported,
    ← takeWhile_ne_zero_eq_self_iff]
  constructor
  · rintro ⟨_, h⟩
    simp only [ok.injEq, Option.some.injEq, List.cons.injEq, mk.injEq] at h
    exact h.1.2.2.2.2
  · intro h
    exact ⟨payloadLength, by rw [h]⟩

theorem delivered_v2_iff (hversion : request.version = version2)
    (hout : request.getBuffer = .ok out) (hfit : request.payload.length < request.payloadLength)
    (hconforming : Conforming request response) (hanswer : response.getBuffer = .ok answer) :
    Delivered request answer response ↔ 0 ∉ response.payload := by
  have hrv : response.version = version2 := hconforming.version.trans hversion
  obtain ⟨hlen, hroom⟩ := hconforming.fixed hversion
  obtain rfl := ok.inj ((getBuffer_frameV2 hversion hfit).symm.trans hout)
  obtain rfl := ok.inj ((getBuffer_frameV2 hrv hroom).symm.trans hanswer)
  set crc := calculateCrc32 (response.frameV2 0) with hcrc
  have hsize := response.length_frameV2 crc hroom
  have hsize' := request.length_frameV2 (calculateCrc32 (request.frameV2 0)) hfit
  have hv2 : sizeofPacketV2 ≤ packetLengthV2 response.payloadLength := Nat.le_add_right _ _
  have hpositive : 0 < sizeofPacketV2 := by decide
  have htype : isPacketType response.type = true := by
    rw [hconforming.type]
    decide
  have hlong : ¬ (response.frameV2 crc).length < sizeofPacketV2 := by omega
  have hpayload : payloadLengthOf (response.frameV2 crc).length = response.payloadLength := by
    rw [payloadLengthOf, if_neg hlong, hsize, packetLengthV2, Nat.add_sub_cancel_left]
  have hread : ofBuffer ((response.frameV2 crc).take
      (request.frameV2 (calculateCrc32 (request.frameV2 0))).length) =
      .ok { response with payload := response.payload.takeWhile (· ≠ 0) } := by
    rw [hsize', ← hlen, ← hsize, take_length, ofBuffer, if_neg hlong, hpayload]
    exact response.readFrom_frameV2 hrv htype hroom
  refine delivered_iff_of_reported hout ?_ ?_ hconforming.type hread
  · apply ne_nil_of_length_pos
    rw [hsize', ← hlen]
    exact hpositive.trans_le hv2
  · apply ne_nil_of_length_pos
    rw [hsize]
    exact hpositive.trans_le hv2

theorem length_frameV4 {p : Packet} (h : p.version = version4) (crc : UInt32) :
    (p.frameV3 crc).length = 16 + p.payload.length := by
  rw [p.length_frameV3, h, packetLength, if_neg (by decide), packetLengthV4, sizeofPacketV3]
  omega

/-- The client reads into the request's buffer, so a longer answer is cut off. -/
theorem delivered_v4_iff (hversion : request.version = version4)
    (hout : request.getBuffer = .ok out) (hconforming : Conforming request response)
    (hanswer : response.getBuffer = .ok answer) : Delivered request answer response ↔
      response.payload.length ≤ request.payload.length ∧ 0 ∉ response.payload := by
  have hrv : response.version = version4 := hconforming.version.trans hversion
  have hlen := hconforming.bounded hversion
  have htype : isPacketType response.type = true := by
    rw [hconforming.type]
    decide
  obtain rfl := ok.inj ((getBuffer_frameV3 (.inr hversion)).symm.trans hout)
  obtain rfl := ok.inj ((getBuffer_frameV3 (.inr hrv)).symm.trans hanswer)
  set crc := calculateCrc32 (response.frameV3 0) with hcrc
  have hsize := length_frameV4 hrv crc
  have hsize' := length_frameV4 hversion (calculateCrc32 (request.frameV3 0))
  have hout' := length_pos_iff.mp (hsize' ▸ Nat.add_pos_left (by decide : 0 < 16) _)
  have hanswer' := length_pos_iff.mp (hsize ▸ Nat.add_pos_left (by decide : 0 < 16) _)
  have hv2 : sizeofPacketV2 = 12 := rfl
  by_cases hfits : response.payload.length ≤ request.payload.length
  · -- the whole answer fits in the request's buffer
    rw [and_iff_right hfits]
    apply delivered_iff_of_reported hout hout' hanswer' hconforming.type
    rw [take_of_length_le (by omega), ofBuffer, if_neg (by omega)]
    simpa using response.readFrom_frameV3 _ [] (.inr hrv) htype hlen
  · -- only the first part of the answer fits, and reading it is refused
    refine ⟨?_, fun h => absurd h.1 hfits⟩
    set n := (request.frameV3 (calculateCrc32 (request.frameV3 0))).length
    have hn : ((response.frameV3 crc).take n).length = n := by
      rw [length_take]
      omega
    have hshort := response.length_frameV3 crc
    have hread := response.readFrom_frameV3_truncated
      (payloadLengthOf ((response.frameV3 crc).take n).length) n crc (.inr hrv) htype hlen
      (by rw [bufferOffsetV3]; omega) (by omega)
    have hreported : (reported ((response.frameV3 crc).take n)).version = version2 ∧
        (reported ((response.frameV3 crc).take n)).type = responsePacket := by
      rw [reported, ofBuffer, if_neg (by omega), hread]
      exact ⟨rfl, rfl⟩
    rintro ⟨_, hdelivered⟩
    rw [processRequest_eq hout hout' hanswer' (by rw [hreported.2]; decide)] at hdelivered
    simp only [ok.injEq, Option.some.injEq, List.cons.injEq, and_true] at hdelivered
    have hversions := congrArg version hdelivered
    rw [hreported.1, hrv] at hversions
    exact absurd hversions (by decide)

/-- **When the client receives the response.**  A version 2 response always
arrives; a version 4 response arrives exactly when its payload is no longer than
the command that was sent.  Text is cut at its first NUL byte in every version. -/
theorem delivered_iff {command answer : List UInt8} {bufferLength : ℕ} {version : Int16}
    {request response : Packet}
    (hrequest : makeRequest command bufferLength version = .ok request)
    (hfit : version = version2 → command.length < bufferLength)
    (hconforming : Conforming request response) (hanswer : response.getBuffer = .ok answer) :
    Delivered request answer response ↔
      (version = version2 ∨ response.payload.length ≤ command.length) ∧ 0 ∉ response.payload := by
  have hversion : version = version2 ∨ version = version4 := by
    by_contra hother
    have hneither : version ≠ 2 ∧ version ≠ 4 := not_or.mp hother
    rw [makeRequest, if_pos hneither] at hrequest
    cases hrequest
  rw [makeRequest, if_neg (by rcases hversion with rfl | rfl <;> decide)] at hrequest
  cases hrequest
  rcases hversion with rfl | rfl
  · rw [delivered_v2_iff rfl (getBuffer_frameV2 rfl (hfit rfl)) (hfit rfl) hconforming
      hanswer]
    simp
  · rw [delivered_v4_iff rfl (getBuffer_frameV3 (.inr rfl)) hconforming hanswer]
    simp [version2, version4]

/-- A two byte command answered with one byte. -/
theorem delivered_short_answer :
    Delivered ⟨1024, queryPacket, version4, -1, [104, 105]⟩
      [0, 4, 0, 2, 63, 203, 240, 6, 0, 0, 0, 0, 0, 0, 0, 1, 107]
      ⟨1024, responsePacket, version4, 0, [107]⟩ := by
  have hrequest : makeRequest [104, 105] 1024 version4 =
      .ok ⟨1024, queryPacket, version4, -1, [104, 105]⟩ := rfl
  refine (delivered_iff hrequest (by decide) ?_ (by decide +kernel)).mpr
    ⟨.inr (by decide), by decide⟩
  exact ⟨rfl, rfl, fun h => absurd h (by decide), fun _ => by decide⟩

/-- A one byte command answered with two bytes: the answer is cut at the length
of the request. -/
theorem not_delivered_long_answer :
    ∃ request answer, makeRequest [104] 1024 version4 = .ok request ∧
      (createResponse version4 0 [111, 107] 1024).getBuffer = .ok answer ∧
      processRequest request answer = .ok (some [unknownResponse (Protocol.textBytes
        "Failed to read response: Invalid packet length: 17 != 18")]) := by
  refine ⟨⟨1024, queryPacket, version4, -1, [104]⟩,
    [0, 4, 0, 2, 135, 20, 66, 197, 0, 0, 0, 0, 0, 0, 0, 2, 111, 107], rfl, by decide +kernel, ?_⟩
  have hout : (mk 1024 queryPacket version4 (-1) [104]).getBuffer =
      .ok [0, 4, 0, 1, 181, 167, 142, 202, 255, 255, 0, 0, 0, 0, 0, 1, 104] := by
    decide +kernel
  have hreported : reported [0, 4, 0, 2, 135, 20, 66, 197, 0, 0, 0, 0, 0, 0, 0, 2, 111] =
      unknownResponse (Protocol.textBytes
        "Failed to read response: Invalid packet length: 17 != 18") := by
    decide +kernel
  rw [← hreported]
  refine processRequest_eq hout (by decide) (by decide) ?_
  rw [length_cons]
  decide +kernel

end Client

end Nscp.Nrpe
