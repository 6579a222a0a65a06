import Nscp.Library.BigEndian

/-!
# NRPE packets

The three wire formats of `net/nrpe/packet.hpp`.  Version 2 packets have a fixed
size, set by the configured payload length; versions 3 and 4 carry the payload
length in their header and differ only in whether the three alignment bytes at
the end of the C struct are sent.  Both directions are modelled byte by byte:
`Packet.getBuffer` writes a packet and `Packet.readFrom` reads one back or fails
with the text of the `nrpe_exception` the source throws.
-/

namespace Nscp.Nrpe

open List BigEndian

/-! ## Checksums -/

def crc32Entry : ℕ → UInt32 → UInt32
  | 0, crc => crc
  | n + 1, crc =>
    crc32Entry n (if crc &&& 1 = 1 then (crc >>> 1) ^^^ 0xEDB88320 else crc >>> 1)

def crc32Step (crc : UInt32) (byte : UInt8) : UInt32 :=
  ((crc >>> 8) &&& 0x00FFFFFF) ^^^ crc32Entry 8 ((crc ^^^ byte.toUInt32) &&& 0xFF)

def calculateCrc32 (buffer : List UInt8) : UInt32 :=
  buffer.foldl crc32Step 0xFFFFFFFF ^^^ 0xFFFFFFFF

/-! ## Fields of a buffer -/

def field (buffer : List UInt8) (offset width : ℕ) : List UInt8 :=
  (buffer.drop offset).take width

/-- Overwrite a field with zero bytes, as the checksum verification does on its
local copy of the packet. -/
def zeroField (buffer : List UInt8) (offset width : ℕ) : List UInt8 :=
  buffer.take offset ++ replicate width 0 ++ buffer.drop (offset + width)

variable {offset width : ℕ}

section

variable {a b c : List UInt8} (ha : a.length = offset) (hb : b.length = width)
include ha hb

theorem field_append : field (a ++ (b ++ c)) offset width = b := by
  subst ha hb
  simp [field]

theorem zeroField_append :
    zeroField (a ++ (b ++ c)) offset width = a ++ (replicate width 0 ++ c) := by
  subst ha hb
  simp [zeroField, drop_append]

end

variable {received whole : List UInt8}

theorem field_received (h : received <+: whole) (hlen : offset + width ≤ received.length) :
    field received offset width = field whole offset width := by
  obtain ⟨rest, rfl⟩ := h
  rw [field, field, drop_append_of_le_length (by omega), take_append_of_le_length (by simp; omega)]

def int16Bytes (value : Int16) : List UInt8 := encode 2 value.toBitVec.toNat

def uint32Bytes (value : UInt32) : List UInt8 := encode 4 value.toNat

def int32Bytes (value : ℕ) : List UInt8 := encode 4 value

section

variable (buffer : List UInt8) (offset : ℕ)

def int16At : Int16 :=
  Int16.ofBitVec (BitVec.ofNat 16 (decode (field buffer offset 2)))

def uint32At : UInt32 :=
  UInt32.ofNat (decode (field buffer offset 4))

def int32At : ℤ :=
  (BitVec.ofNat 32 (decode (field buffer offset 4))).toInt

end

@[simp] theorem length_int16Bytes (value : Int16) : (int16Bytes value).length = 2 := by
  simp [int16Bytes]

@[simp] theorem length_uint32Bytes (value : UInt32) : (uint32Bytes value).length = 4 := by
  simp [uint32Bytes]

@[simp] theorem length_int32Bytes (value : ℕ) : (int32Bytes value).length = 4 := by
  simp [int32Bytes]

@[simp] theorem uint32Bytes_zero : uint32Bytes 0 = replicate 4 0 := by decide

variable {offset : ℕ} {a c : List UInt8}

theorem int16At_append (value : Int16) (ha : a.length = offset) :
    int16At (a ++ (int16Bytes value ++ c)) offset = value := by
  have hlt : value.toBitVec.toNat < 256 ^ 2 := value.toBitVec.isLt
  rw [int16At, field_append ha (length_int16Bytes value), int16Bytes, decode_encode_of_lt hlt]
  simp

theorem uint32At_append (value : UInt32) (ha : a.length = offset) :
    uint32At (a ++ (uint32Bytes value ++ c)) offset = value := by
  have hlt : value.toNat < 256 ^ 4 := value.toNat_lt
  rw [uint32At, field_append ha (length_uint32Bytes value), uint32Bytes, decode_encode_of_lt hlt]
  simp

theorem int32At_append {value : ℕ} (ha : a.length = offset) (hvalue : value < 2 ^ 31) :
    int32At (a ++ (int32Bytes value ++ c)) offset = value := by
  have hlt : value < 256 ^ 4 := by omega
  rw [int32At, field_append ha (length_int32Bytes value), int32Bytes,
    decode_encode_of_lt hlt, BitVec.toInt_eq_toNat_of_lt]
  · simp only [BitVec.toNat_ofNat, Nat.cast_inj]
    omega
  · simp only [BitVec.toNat_ofNat]
    omega

theorem int16At_received (h : received <+: whole) (hlen : offset + 2 ≤ received.length) :
    int16At received offset = int16At whole offset := by
  rw [int16At, int16At, field_received h hlen]

theorem int32At_received (h : received <+: whole) (hlen : offset + 4 ≤ received.length) :
    int32At received offset = int32At whole offset := by
  rw [int32At, int32At, field_received h hlen]

/-! ## Packets and their sizes -/

namespace Data

def queryPacket : Int16 := 1
def responsePacket : Int16 := 2
def moreResponsePacket : Int16 := 3
def version2 : Int16 := 2
def version3 : Int16 := 3
def version4 : Int16 := 4

def bufferOffsetV2 : ℕ := 10
def bufferOffsetV3 : ℕ := 16

def sizeofPacketHeader : ℕ := 4
def sizeofPacketV2 : ℕ := 12
def sizeofPacketV3 : ℕ := 20

end Data

open Data

def packetLengthV2 (payloadLength : ℕ) : ℕ := sizeofPacketV2 + payloadLength
def packetLengthV3 (payloadLength : ℕ) : ℕ := sizeofPacketV3 + payloadLength - 1
def packetLengthV4 (payloadLength : ℕ) : ℕ := sizeofPacketV3 + payloadLength - 4

def payloadLengthOf (packetLength : ℕ) : ℕ :=
  if packetLength < sizeofPacketV2 then 0 else packetLength - sizeofPacketV2

structure Packet where
  payloadLength : ℕ
  type : Int16
  version : Int16
  result : Int16
  payload : List UInt8
  deriving DecidableEq, Repr

namespace Packet

def unknownResponse (message : List UInt8) : Packet :=
  ⟨0, responsePacket, version2, 3, message⟩

def makeRequest (payload : List UInt8) (bufferLength : ℕ) (version : Int16) :
    Except String Packet :=
  if version ≠ 2 ∧ version ≠ 4 then
    .error ("Invalid NRPE version: " ++ toString version ++ ", expected 2 or 4")
  else
    .ok ⟨bufferLength, queryPacket, version, -1, payload⟩

def createResponse (version ret : Int16) (payload : List UInt8) (bufferLength : ℕ) : Packet :=
  ⟨bufferLength, responsePacket, version, ret, payload⟩

def createMoreResponse (ret : Int16) (payload : List UInt8) (bufferLength : ℕ) : Packet :=
  ⟨bufferLength, moreResponsePacket, version2, ret, payload⟩

/-! ## Writing -/

/-- `strncpy` of the whole payload into zeroed memory: copying stops at the
first NUL byte and the remainder stays zero. -/
def strncpy (payload : List UInt8) : List UInt8 :=
  payload.takeWhile (· ≠ 0) ++ replicate (payload.length - (payload.takeWhile (· ≠ 0)).length) 0

/-- The four leading fields, common to every version, in front of `tail`. -/
def header (p : Packet) (crc : UInt32) (tail : List UInt8) : List UInt8 :=
  int16Bytes p.version ++ (int16Bytes p.type ++ (uint32Bytes crc ++ (int16Bytes p.result ++ tail)))

def frameV2 (p : Packet) (crc : UInt32) : List UInt8 :=
  p.header crc (strncpy p.payload ++
    replicate (packetLengthV2 p.payloadLength - bufferOffsetV2 - p.payload.length) 0)

def createBufferV2 (p : Packet) : Except String (List UInt8) :=
  if p.payload.length ≥ p.payloadLength then
    .error "To much data cant create return packet (truncate data)"
  else
    .ok (p.frameV2 (calculateCrc32 (p.frameV2 0)))

def packetLength (version : Int16) (payloadLength : ℕ) : ℕ :=
  if version = version3 then packetLengthV3 payloadLength else packetLengthV4 payloadLength

def frameV3 (p : Packet) (crc : UInt32) : List UInt8 :=
  p.header crc (replicate 2 0 ++ (int32Bytes p.payload.length ++ (strncpy p.payload ++ replicate
      (packetLength p.version p.payload.length - bufferOffsetV3 - p.payload.length) 0)))

def createBufferV3 (p : Packet) : Except String (List UInt8) :=
  .ok (p.frameV3 (calculateCrc32 (p.frameV3 0)))

def getBuffer (p : Packet) : Except String (List UInt8) :=
  if p.version = version2 then p.createBufferV2 else p.createBufferV3

/-! ## Reading -/

def isPacketType (type : Int16) : Bool :=
  type = queryPacket ∨ type = responsePacket ∨ type = moreResponsePacket

def fetchPayload (buffer : List UInt8) (offset packetLength : ℕ) : List UInt8 :=
  (field buffer offset (packetLength - offset)).takeWhile (· ≠ 0)

def readFromV2 (payloadLength : ℕ) (buffer : List UInt8) : Except String Packet :=
  let type := int16At buffer 2
  let version := int16At buffer 0
  let crc := uint32At buffer 4
  let calculated :=
    calculateCrc32 ((zeroField buffer 4 4).take (packetLengthV2 payloadLength))
  if buffer.length ≠ packetLengthV2 payloadLength then
    .error ("Invalid packet length: " ++ toString buffer.length ++ " != " ++
      toString (packetLengthV2 payloadLength) ++ " configured payload is: " ++
      toString payloadLength)
  else if !isPacketType type then
    .error ("Invalid packet type: " ++ toString type)
  else if version ≠ version2 then
    .error ("Invalid packet version: " ++ toString version)
  else if crc ≠ calculated then
    .error ("Invalid checksum reading v2 NRPE packet: " ++ toString crc ++ "!=" ++
      toString calculated ++ " payload length: " ++ toString payloadLength)
  else
    .ok ⟨payloadLength, type, version, int16At buffer 8,
      fetchPayload buffer bufferOffsetV2 buffer.length⟩

def maxPayload : ℕ := 1024 * 1024

def readFromV3 (payloadLength : ℕ) (buffer : List UInt8) : Except String Packet :=
  let type := int16At buffer 2
  let version := int16At buffer 0
  let rawPayloadLength := int32At buffer 12
  let announced := rawPayloadLength.toNat
  let sourceDataLength :=
    if version = version4 then packetLengthV4 announced else packetLengthV3 announced
  let crc := uint32At buffer 4
  let calculated :=
    calculateCrc32 ((zeroField (zeroField buffer 4 4) 10 2).take sourceDataLength)
  if buffer.length < bufferOffsetV3 then
    .error ("Invalid packet length: " ++ toString buffer.length ++ " < " ++ toString bufferOffsetV3)
  else if !isPacketType type then
    .error ("Invalid packet type: " ++ toString type)
  else if version ≠ version3 ∧ version ≠ version4 then
    .error ("Invalid packet version: " ++ toString version)
  else if rawPayloadLength < 0 then
    .error ("Negative payload length in NRPE v3 packet: " ++ toString rawPayloadLength)
  else if announced > maxPayload then
    .error ("Invalid packet length specified: " ++ toString announced)
  else if buffer.length < sourceDataLength then
    .error ("Invalid packet length: " ++ toString buffer.length ++ " != " ++
      toString sourceDataLength)
  else if crc ≠ calculated then
    .error ("Invalid checksum reading v3 NRPE packet: " ++ toString crc ++ "!=" ++
      toString calculated)
  else
    .ok ⟨payloadLength, type, version, int16At buffer 8,
      fetchPayload buffer bufferOffsetV3 (bufferOffsetV3 + announced)⟩

def readFrom (payloadLength : ℕ) (buffer : List UInt8) : Except String Packet :=
  if buffer.length < sizeofPacketHeader then
    .error ("Packet too short to determine version: " ++ toString buffer.length ++ " < " ++
      toString sizeofPacketHeader)
  else if int16At buffer 0 = version3 ∨ int16At buffer 0 = version4 then
    readFromV3 payloadLength buffer
  else
    readFromV2 payloadLength buffer

def ofBuffer (buffer : List UInt8) : Except String Packet :=
  if buffer.length < sizeofPacketV2 then
    .error ("Packet too short: " ++ toString buffer.length ++ " < " ++ toString sizeofPacketV2)
  else
    readFrom (payloadLengthOf buffer.length) buffer

end Packet

end Nscp.Nrpe
