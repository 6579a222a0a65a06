import Nscp.Nrpe.Packet

/-!
# Reading back what was written

A packet written by `Packet.getBuffer` is read back by `Packet.readFrom` with the
same version, type and result, and with its payload up to the first NUL byte.
Versions 3 and 4 are read back whatever bytes follow them in the same buffer,
because both the checksum and the payload are bounded by the announced length.
-/

namespace Nscp.Nrpe

open List Data

namespace Packet

/-! ## Text fields -/

variable (payload : List UInt8)

@[simp] theorem length_strncpy : (strncpy payload).length = payload.length := by
  have hle : (payload.takeWhile (· ≠ 0)).length ≤ payload.length :=
    (List.takeWhile_prefix _).length_le
  simp only [strncpy, length_append, length_replicate]
  omega

theorem takeWhile_append_zeros (text rest : List UInt8) (n : ℕ)
    (htext : ∀ b ∈ text, b ≠ 0) (hrest : n = 0 → rest.takeWhile (· ≠ 0) = []) :
    (text ++ (replicate n 0 ++ rest)).takeWhile (· ≠ 0) = text := by
  rw [takeWhile_append_of_pos (by simpa using htext)]
  cases n with
  | zero => simpa using hrest rfl
  | succ n => simp [replicate_succ]

theorem takeWhile_strncpy (n : ℕ) :
    (strncpy payload ++ replicate n 0).takeWhile (· ≠ 0) = payload.takeWhile (· ≠ 0) := by
  rw [strncpy, append_assoc]
  apply takeWhile_append_zeros
  · intro b hb
    simpa using mem_takeWhile_imp hb
  · intro _
    cases n <;> simp [replicate_succ]

theorem takeWhile_ne_zero_eq_self_iff : payload.takeWhile (· ≠ 0) = payload ↔ 0 ∉ payload := by
  rw [takeWhile_eq_self_iff]
  constructor
  · intro h hmem
    simpa using h 0 hmem
  · intro h b hb
    have hne : b ≠ 0 := fun hzero => h (hzero ▸ hb)
    simpa using hne

/-! ## Fields of the common header -/

section Header

variable (p : Packet) (crc : UInt32) (tail : List UInt8)

@[simp] theorem length_header : (p.header crc tail).length = 10 + tail.length := by
  simp [header]
  omega

theorem header_append (extra : List UInt8) :
    p.header crc tail ++ extra = p.header crc (tail ++ extra) := by
  simp [header]

@[simp] theorem int16At_header_version : int16At (p.header crc tail) 0 = p.version :=
  int16At_append (a := []) p.version rfl

@[simp] theorem int16At_header_type : int16At (p.header crc tail) 2 = p.type :=
  int16At_append p.type (length_int16Bytes p.version)

@[simp] theorem uint32At_header : uint32At (p.header crc tail) 4 = crc := by
  rw [header, ← append_assoc]
  exact uint32At_append crc (by simp)

@[simp] theorem int16At_header_result : int16At (p.header crc tail) 8 = p.result := by
  rw [header, ← append_assoc, ← append_assoc]
  exact int16At_append p.result (by simp)

@[simp] theorem zeroField_header_crc :
    zeroField (p.header crc tail) 4 4 = p.header 0 tail := by
  rw [header, ← append_assoc, zeroField_append (by simp) (by simp), header,
    uint32Bytes_zero, append_assoc]

theorem exists_header_eq_append :
    ∃ fields : List UInt8, fields.length = 10 ∧ ∀ rest, p.header crc rest = fields ++ rest := by
  refine ⟨int16Bytes p.version ++ (int16Bytes p.type ++ (uint32Bytes crc ++
    int16Bytes p.result)), by simp, ?_⟩
  intro rest
  simp [header]

theorem field_header_tail (offset width : ℕ) :
    field (p.header crc tail) (10 + offset) width = field tail offset width := by
  obtain ⟨fields, hlen, hsplit⟩ := p.exists_header_eq_append crc
  rw [field, field, hsplit, ← hlen, drop_length_add_append]

theorem zeroField_header_alignment :
    zeroField (p.header crc (replicate 2 0 ++ tail)) 10 2 =
      p.header crc (replicate 2 0 ++ tail) := by
  obtain ⟨fields, hlen, hsplit⟩ := p.exists_header_eq_append crc
  rw [hsplit, zeroField_append hlen (by simp)]

end Header

/-! ## Sizes -/

variable (p : Packet) (crc : UInt32)

theorem length_frameV2 (h : p.payload.length < p.payloadLength) :
    (p.frameV2 crc).length = packetLengthV2 p.payloadLength := by
  simp only [frameV2, length_header, length_append, length_strncpy, length_replicate,
    packetLengthV2, sizeofPacketV2, bufferOffsetV2]
  omega

theorem bufferOffsetV3_le_packetLength (version : Int16) (n : ℕ) :
    bufferOffsetV3 + n ≤ packetLength version n := by
  simp only [packetLength, packetLengthV3, packetLengthV4, sizeofPacketV3, bufferOffsetV3]
  split <;> omega

theorem length_frameV3 : (p.frameV3 crc).length = packetLength p.version p.payload.length := by
  have hle := bufferOffsetV3_le_packetLength p.version p.payload.length
  simp only [frameV3, length_header, length_append, length_strncpy, length_replicate,
    length_int32Bytes, bufferOffsetV3] at hle ⊢
  omega

theorem getBuffer_frameV2 {p : Packet} (hversion : p.version = version2)
    (hlen : p.payload.length < p.payloadLength) :
    p.getBuffer = .ok (p.frameV2 (calculateCrc32 (p.frameV2 0))) := by
  rw [getBuffer, if_pos hversion, createBufferV2, if_neg (Nat.not_le_of_lt hlen)]

theorem getBuffer_frameV3 {p : Packet}
    (hversion : p.version = version3 ∨ p.version = version4) :
    p.getBuffer = .ok (p.frameV3 (calculateCrc32 (p.frameV3 0))) := by
  have hne : p.version ≠ version2 := by
    rcases hversion with h | h <;> rw [h] <;> decide
  rw [getBuffer, if_neg hne, createBufferV3]

/-! ## Version 2 -/

theorem readFrom_frameV2 (hversion : p.version = version2) (htype : isPacketType p.type = true)
    (hlen : p.payload.length < p.payloadLength) :
    readFrom p.payloadLength (p.frameV2 (calculateCrc32 (p.frameV2 0))) =
      .ok { p with payload := p.payload.takeWhile (· ≠ 0) } := by
  have hsize := p.length_frameV2 (calculateCrc32 (p.frameV2 0)) hlen
  have hsize0 := p.length_frameV2 0 hlen
  have hcrc : (zeroField (p.frameV2 (calculateCrc32 (p.frameV2 0))) 4 4).take
      (packetLengthV2 p.payloadLength) = p.frameV2 0 := by
    rw [frameV2, zeroField_header_crc, ← frameV2, ← hsize0, take_length]
  have htext : fetchPayload (p.frameV2 (calculateCrc32 (p.frameV2 0))) bufferOffsetV2
      (packetLengthV2 p.payloadLength) = p.payload.takeWhile (· ≠ 0) := by
    rw [fetchPayload, frameV2, show bufferOffsetV2 = 10 + 0 from rfl, field_header_tail]
    rw [field, drop_zero, take_of_length_le, takeWhile_strncpy]
    simp only [length_append, length_strncpy, length_replicate, packetLengthV2, sizeofPacketV2]
    omega
  rw [readFrom, readFromV2]
  simp only [hsize, hcrc, htext]
  simp [frameV2, hversion, htype, version2, version3, version4, packetLengthV2, sizeofPacketV2,
    sizeofPacketHeader]
  omega

/-! ## Versions 3 and 4 -/

def tailV3 (p : Packet) : List UInt8 :=
  replicate 2 0 ++ (int32Bytes p.payload.length ++ (strncpy p.payload ++ replicate
      (packetLength p.version p.payload.length - bufferOffsetV3 - p.payload.length) 0))

variable (extra : List UInt8)

theorem frameV3_append : p.frameV3 crc ++ extra = p.header crc (p.tailV3 ++ extra) := by
  rw [frameV3, ← tailV3, header_append]

theorem int32At_frameV3 (hlen : p.payload.length < 2 ^ 31) :
    int32At (p.frameV3 crc ++ extra) 12 = p.payload.length := by
  have hfield : field (p.frameV3 crc ++ extra) 12 4 = field (p.tailV3 ++ extra) 2 4 := by
    rw [frameV3_append, show 12 = 10 + 2 from rfl, field_header_tail]
  rw [int32At, hfield, ← int32At, tailV3, append_assoc, append_assoc]
  exact int32At_append (by simp) hlen

theorem take_zeroField_frameV3 :
    (zeroField (zeroField (p.frameV3 crc ++ extra) 4 4) 10 2).take
      (packetLength p.version p.payload.length) = p.frameV3 0 := by
  rw [frameV3_append, zeroField_header_crc, tailV3, append_assoc,
    zeroField_header_alignment, ← append_assoc, ← tailV3, ← frameV3_append]
  exact take_left' (p.length_frameV3 0)

theorem fetchPayload_frameV3 :
    fetchPayload (p.frameV3 crc ++ extra) bufferOffsetV3
      (bufferOffsetV3 + p.payload.length) = p.payload.takeWhile (· ≠ 0) := by
  have hsplit : p.tailV3 ++ extra = (replicate 2 0 ++ int32Bytes p.payload.length) ++
      (strncpy p.payload ++ (replicate (packetLength p.version p.payload.length -
        bufferOffsetV3 - p.payload.length) 0 ++ extra)) := by
    simp [tailV3]
  rw [fetchPayload, Nat.add_sub_cancel_left, frameV3_append,
    show bufferOffsetV3 = 10 + 6 from rfl, field_header_tail, hsplit,
    field_append (by simp) (length_strncpy p.payload)]
  simpa using takeWhile_strncpy p.payload 0

theorem packetLength_of_version {version : Int16} (n : ℕ)
    (hversion : version = version3 ∨ version = version4) :
    (if version = version4 then packetLengthV4 n else packetLengthV3 n) =
      packetLength version n := by
  rcases hversion with rfl | rfl <;> simp [packetLength, version3, version4]

theorem readFrom_frameV3 (payloadLength : ℕ) (extra : List UInt8)
    (hversion : p.version = version3 ∨ p.version = version4) (htype : isPacketType p.type = true)
    (hlen : p.payload.length ≤ maxPayload) :
    readFrom payloadLength (p.frameV3 (calculateCrc32 (p.frameV3 0)) ++ extra) =
      .ok { p with payloadLength := payloadLength, payload := p.payload.takeWhile (· ≠ 0) } := by
  set crc := calculateCrc32 (p.frameV3 0) with hcrc
  have hoffset := bufferOffsetV3_le_packetLength p.version p.payload.length
  have hsize : packetLength p.version p.payload.length ≤ (p.frameV3 crc ++ extra).length := by
    rw [length_append, length_frameV3]
    exact Nat.le_add_right _ _
  have hheader : sizeofPacketHeader ≤ bufferOffsetV3 := by decide
  have hannounced := p.int32At_frameV3 crc extra (lt_of_le_of_lt hlen (by decide))
  have hversionAt : int16At (p.frameV3 crc ++ extra) 0 = p.version := by simp [frameV3_append]
  have htypeAt : int16At (p.frameV3 crc ++ extra) 2 = p.type := by simp [frameV3_append]
  have hresultAt : int16At (p.frameV3 crc ++ extra) 8 = p.result := by simp [frameV3_append]
  have hcrcAt : uint32At (p.frameV3 crc ++ extra) 4 = crc := by simp [frameV3_append]
  rw [readFrom, if_neg (by omega), hversionAt, if_pos hversion, readFromV3]
  simp only [hversionAt, htypeAt, hresultAt, hcrcAt, hannounced, Int.toNat_natCast,
    packetLength_of_version _ hversion, take_zeroField_frameV3, fetchPayload_frameV3]
  rw [if_neg (by omega), if_neg (by simp [htype]), if_neg (by tauto), if_neg (by omega),
    if_neg (by omega), if_neg (by omega), if_neg (by simp [hcrc])]

theorem readFrom_frameV3_truncated (payloadLength n : ℕ) (crc : UInt32)
    (hversion : p.version = version3 ∨ p.version = version4) (htype : isPacketType p.type = true)
    (hlen : p.payload.length ≤ maxPayload) (hheader : bufferOffsetV3 ≤ n)
    (hshort : n < packetLength p.version p.payload.length) :
    readFrom payloadLength ((p.frameV3 crc).take n) =
      .error ("Invalid packet length: " ++ toString n ++ " != " ++
        toString (packetLength p.version p.payload.length)) := by
  have hn : ((p.frameV3 crc).take n).length = n := by
    rw [length_take, length_frameV3]
    omega
  have hprefix : (p.frameV3 crc).take n <+: p.frameV3 crc := take_prefix _ _
  have hoffset : bufferOffsetV3 = 16 := rfl
  have hsizeof : sizeofPacketHeader = 4 := rfl
  have hframe : p.frameV3 crc = p.header crc p.tailV3 := rfl
  have hversionAt : int16At ((p.frameV3 crc).take n) 0 = p.version := by
    rw [int16At_received hprefix (by omega), hframe, int16At_header_version]
  have htypeAt : int16At ((p.frameV3 crc).take n) 2 = p.type := by
    rw [int16At_received hprefix (by omega), hframe, int16At_header_type]
  have hannounced : int32At ((p.frameV3 crc).take n) 12 = p.payload.length := by
    rw [int32At_received hprefix (by omega), ← append_nil (p.frameV3 crc)]
    exact p.int32At_frameV3 crc [] (lt_of_le_of_lt hlen (by decide))
  rw [readFrom, if_neg (by omega), hversionAt, if_pos hversion, readFromV3]
  simp only [hn, hversionAt, htypeAt, hannounced, Int.toNat_natCast,
    packetLength_of_version _ hversion]
  rw [if_neg (by omega), if_neg (by simp [htype]), if_neg (by tauto), if_neg (by omega),
    if_neg (by omega), if_pos hshort]

end Packet

end Nscp.Nrpe
