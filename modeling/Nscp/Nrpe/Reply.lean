import Nscp.Nrpe.Packet

/-!
# The reply of the NRPE server

`NRPEServer::handle` runs the check a request names and cuts its text into packets.  A
version 2 packet holds one byte less than the payload length; with multiple packets the text
is sent in as many as it takes, otherwise it is cut short.  Dispatching the check and
converting texts are parameters, as are the exceptions both may throw.
-/

namespace Nscp.Nrpe

open List Packet Data

namespace Server

structure Options where
  allowArgs : Bool
  allowNasty : Bool
  noPerfData : Bool
  multiplePackets : Bool
  /-- `client identity source` is `cn`. -/
  identityFromCn : Bool

/-- The core, as the handler sees it. -/
structure Core where
  pingMessage : List UInt8
  decode : List UInt8 → Except Unit (List UInt8)
  encode : List UInt8 → Except Unit (List UInt8)
  /-- The principal, the command, its arguments and the longest text wanted. -/
  query : Option String → List UInt8 → List UInt8 → ℕ → Except Unit (ℤ × List UInt8 × List UInt8)

def getToken (buffer : List UInt8) (split : UInt8) : List UInt8 × List UInt8 :=
  (buffer.takeWhile (· ≠ split), (buffer.dropWhile (· ≠ split)).drop 1)

def nastyMetachars : List UInt8 :=
  [0x7c, 0x60, 0x26, 0x3e, 0x3c, 0x27, 0x22, 0x5c, 0x5b, 0x5d, 0x7b, 0x7d]

def nasty (text : List UInt8) : Bool := text.any nastyMetachars.contains

/-- The exception a request is turned down with. -/
def refusal (o : Options) (cmd : List UInt8 × List UInt8) : Option String :=
  if !o.allowArgs && !cmd.2.isEmpty then
    some ("Request contained arguments (not currently allowed, " ++
      "check the allow arguments option).")
  else if !o.allowNasty && nasty cmd.1 then
    some "Request command contained illegal metachars!"
  else if !o.allowNasty && nasty cmd.2 then
    some "Request arguments contained illegal metachars!"
  else none

def maxLen (p : Packet) : ℕ :=
  if p.payloadLength = 0 then 2 ^ 64 - 1 else p.payloadLength - 1

/-- The check's code, message and performance data, converted for the peer. -/
def runCheck (o : Options) (core : Core) (p : Packet) (cmd : List UInt8 × List UInt8)
    (peerIdentity : String) : Except Unit (Int16 × List UInt8 × List UInt8) := do
  let wcmd ← core.decode cmd.1
  let wargs ← core.decode cmd.2
  if !o.allowNasty && (nasty wcmd || nasty wargs) then throw ()
  let usePrincipal := o.identityFromCn && peerIdentity ≠ ""
  let (ret, wmsg, wperf) ← core.query (if usePrincipal then some peerIdentity else none) wcmd wargs
    (if o.multiplePackets then 2 ^ 64 - 1 else maxLen p)
  if ret ≠ 0 ∧ ret ≠ 1 ∧ ret ≠ 2 ∧ ret ≠ 3 then throw ()
  return (Int16.ofInt ret, ← core.encode wmsg, ← core.encode wperf)

def replyText (o : Options) (msg perf : List UInt8) : List UInt8 :=
  if perf.isEmpty || o.noPerfData then msg else msg ++ 0x7c :: perf

def split (p : Packet) (ret : Int16) : ℕ → List UInt8 → Option (List Packet)
  | _, [] => some []
  | 0, _ :: _ => none
  | fuel + 1, c :: data =>
    (split p ret fuel ((c :: data).drop (maxLen p))).map
      ((if (c :: data).length ≤ maxLen p then
          createResponse p.version ret ((c :: data).take (maxLen p)) p.payloadLength
        else createMoreResponse ret ((c :: data).take (maxLen p)) p.payloadLength) :: ·)

def packets (o : Options) (p : Packet) (ret : Int16) (data : List UInt8) :
    Option (List Packet) :=
  if o.multiplePackets && p.version = version2 then split p ret data.length data
  else
    some [createResponse p.version ret
      (if p.version = version2 ∧ data.length ≥ maxLen p then data.take (maxLen p) else data)
      p.payloadLength]

def handle (o : Options) (core : Core) (p : Packet) (peerIdentity : String) :
    Option (Except String (List Packet)) :=
  let cmd := getToken p.payload 0x21
  if cmd.1 = "_NRPE_CHECK".toUTF8.data.toList then
    some (.ok [createResponse p.version 0 core.pingMessage p.payloadLength])
  else
    match refusal o cmd with
    | some message => some (.error message)
    | none =>
      match runCheck o core p cmd peerIdentity with
      | .ok (ret, msg, perf) => (packets o p ret (replyText o msg perf)).map .ok
      | .error () => some (.ok [createResponse p.version 3
          "UNKNOWN: Internal exception".toUTF8.data.toList p.payloadLength])

/-! ## What the packets carry -/

/-- Packets of one reply: only the last is a `response`, and each can be written. -/
structure Series (ret : Int16) (ps : List Packet) : Prop where
  more : ∀ q ∈ ps.dropLast, q.type = moreResponsePacket
  last : ∀ q ∈ ps.getLast?, q.type = responsePacket
  code : ∀ q ∈ ps, q.result = ret
  fits : ∀ q ∈ ps, q.payload.length < q.payloadLength ∧ ∃ buffer, q.createBufferV2 = .ok buffer

theorem series_nil (ret : Int16) : Series ret [] := by
  constructor <;> simp

theorem series_cons {ret : Int16} {q : Packet} {ps : List Packet} (h : Series ret ps)
    (htype : q.type = if ps = [] then responsePacket else moreResponsePacket)
    (hcode : q.result = ret) (hfits : q.payload.length < q.payloadLength) :
    Series ret (q :: ps) := by
  have hbuffer : ∃ buffer, q.createBufferV2 = .ok buffer :=
    ⟨_, if_neg (by omega)⟩
  obtain ⟨hmore, hlast, hcodes, hfit⟩ := h
  constructor
  · cases ps <;> simp_all
  · cases ps <;> simp_all
  · simpa [hcode] using hcodes
  · simpa [hfits, hbuffer] using hfit

variable {p : Packet}

theorem maxLen_add_one (hlen : 0 < p.payloadLength) : maxLen p + 1 = p.payloadLength := by
  rw [maxLen, if_neg (by omega)]
  omega

theorem split_series (hlen : 2 ≤ p.payloadLength) (ret : Int16) (fuel : ℕ) (data : List UInt8)
    (hfuel : data.length ≤ fuel) :
    ∃ ps, split p ret fuel data = some ps ∧ Series ret ps ∧ (ps = [] ↔ data = []) ∧
      ps.flatMap payload = data := by
  have hmax := maxLen_add_one (p := p) (by omega)
  induction fuel generalizing data with
  | zero =>
    obtain rfl := eq_nil_of_length_eq_zero (Nat.le_zero.mp hfuel)
    exact ⟨[], rfl, series_nil ret, by simp, rfl⟩
  | succ fuel ih =>
    cases data with
    | nil => exact ⟨[], rfl, series_nil ret, by simp, rfl⟩
    | cons c data =>
      obtain ⟨ps, hsplit, hseries, hnil, htexts⟩ := ih ((c :: data).drop (maxLen p)) (by
        simp only [length_drop, length_cons] at hfuel ⊢
        omega)
      rw [drop_eq_nil_iff] at hnil
      refine ⟨_, by rw [split, hsplit]; rfl, series_cons hseries ?_ ?_ ?_, by simp, ?_⟩
      · by_cases h : (c :: data).length ≤ maxLen p
        · rw [if_pos h, if_pos (hnil.mpr h)]
          rfl
        · rw [if_neg h, if_neg (mt hnil.mp h)]
          rfl
      · split_ifs <;> rfl
      · split_ifs <;> simp [createResponse, createMoreResponse] <;> omega
      · rw [flatMap_cons, htexts]
        split_ifs <;> exact take_append_drop _ _

theorem packets_single {o : Options} (hversion : p.version = version2)
    (hlen : 0 < p.payloadLength) (ret : Int16) (data : List UInt8) (h : o.multiplePackets = false) :
    ∃ q, packets o p ret data = some [q] ∧ Series ret [q] := by
  have hmax := maxLen_add_one hlen
  refine ⟨_, by rw [packets, h]; rfl, series_cons (series_nil ret) rfl rfl ?_⟩
  simp only [hversion, true_and, createResponse]
  split_ifs with hdata
  · simp
    omega
  · omega

/-- A check that answered is answered with packets that lose nothing, except that with
multiple packets an empty text is not answered at all. -/
theorem handle_answered_iff {o : Options} {core : Core} {p : Packet} {peerIdentity : String}
    {ret : Int16} {msg perf : List UInt8} (hversion : p.version = version2)
    (hlen : 16 ≤ p.payloadLength)
    (hcommand : (getToken p.payload 0x21).1 ≠ "_NRPE_CHECK".toUTF8.data.toList)
    (hallowed : refusal o (getToken p.payload 0x21) = none)
    (hcheck : runCheck o core p (getToken p.payload 0x21) peerIdentity = .ok (ret, msg, perf)) :
    (∃ ps, handle o core p peerIdentity = some (.ok ps) ∧ ps ≠ [] ∧ Series ret ps ∧
        (o.multiplePackets = true → ps.flatMap payload = replyText o msg perf)) ↔
      (o.multiplePackets = true → replyText o msg perf ≠ []) := by
  have hhandle : handle o core p peerIdentity =
      (packets o p ret (replyText o msg perf)).map .ok := by
    simp only [handle, if_neg hcommand, hallowed, hcheck]
  cases hmultiple : o.multiplePackets with
  | false =>
    obtain ⟨q, hpackets, hseries⟩ := packets_single hversion (by omega) ret
      (replyText o msg perf) hmultiple
    simp [hhandle, hpackets, hseries]
  | true =>
    obtain ⟨ps, hsplit, hseries, hnil, htexts⟩ := split_series (p := p) (by omega) ret _
      (replyText o msg perf) le_rfl
    have hpackets : packets o p ret (replyText o msg perf) = some ps := by
      simp [packets, hmultiple, hversion, hsplit]
    simp [hhandle, hpackets, hseries, htexts, hnil]

/-! ## An empty answer -/

def messageCore (message : List UInt8) : Core where
  pingMessage := []
  decode := .ok
  encode := .ok
  query _ _ _ _ := .ok (0, message, [])

def listOptions : Options := ⟨false, false, false, true, false⟩

def shortRequest : Packet := ⟨16, queryPacket, version2, -1, [0x6f, 0x6b]⟩

theorem handle_answered_seventeen :
    ∃ ps, handle listOptions (messageCore (replicate 17 0x61)) shortRequest "" =
        some (.ok ps) ∧ ps ≠ [] ∧ Series 0 ps ∧
      (listOptions.multiplePackets = true →
        ps.flatMap payload = replyText listOptions (replicate 17 0x61) []) := by
  have hcheck : runCheck listOptions (messageCore (replicate 17 0x61)) shortRequest
      (getToken shortRequest.payload 0x21) "" = .ok (0, replicate 17 0x61, []) := rfl
  exact (handle_answered_iff rfl (by decide) (by decide +kernel) rfl hcheck).mpr (by decide)

/-- The check succeeds and the client is not told. -/
theorem handle_unanswered :
    handle listOptions (messageCore []) shortRequest "" = some (.ok []) := by
  decide +kernel

end Server

end Nscp.Nrpe
