import Nscp.Nrpe.RoundTrip

/-!
# The server's stream parser

`server::parser` collects the bytes of a connection until it holds a packet.  It
cannot size the packet before the version has arrived, so the first bytes are
collected as if they belonged to a version 2 packet; a version 3 or 4 packet is
then sized from the length field of its own header.  `Parser.onRead` is the loop
of `read_protocol::on_read`, which hands the unread part of a chunk back to
`digest` until a packet is complete.

The main result is that framing does not depend on how the bytes were split:
every proper initial part of a packet leaves the parser waiting with exactly
those bytes collected, and the chunk with the last byte completes it.
-/

namespace Nscp.Nrpe

open Packet List Data

structure Parser where
  payloadLength : ℕ
  buffer : List UInt8
  deriving DecidableEq, Repr

namespace Parser

def new (payloadLength : ℕ) : Parser := ⟨payloadLength, []⟩

section

variable (s : Parser)

def push (byte : UInt8) : Parser := { s with buffer := s.buffer ++ [byte] }

def size : ℕ := s.buffer.length

def readVersion : Int16 :=
  if s.size < sizeofPacketHeader then -1 else int16At s.buffer 0

def hasV3Header : Bool := bufferOffsetV3 ≤ s.size

def readLen : ℤ :=
  if s.size < bufferOffsetV3 then -1 else int32At s.buffer 12

def getPacketLengthV2 : ℕ := packetLengthV2 s.payloadLength

/-- A negative advertised length becomes a `size_t`, so sums wrap at 64 bits. -/
def getPacketLengthV3 : ℕ :=
  if s.hasV3Header then
    let advertised := (s.readLen % 2 ^ 64).toNat
    if s.readVersion = version3 then packetLengthV3 advertised % 2 ^ 64
    else packetLengthV4 advertised % 2 ^ 64
  else packetLengthV3 s.payloadLength

end

def kMaxPayloadBytes : ℕ := 1024 * 1024

def kMaxBufferBytes : ℕ := sizeofPacketV3 + kMaxPayloadBytes

def fillV2 (target : ℕ) : Parser → List UInt8 → Parser × List UInt8
  | s, [] => (s, [])
  | s, b :: input =>
    if s.size < target then fillV2 target (s.push b) input else (s, b :: input)

def fillV3 (target : ℕ) : Parser → List UInt8 → Bool × Parser × List UInt8
  | s, [] => (false, s, [])
  | s, b :: input =>
    if s.size < target then
      if kMaxBufferBytes ≤ s.size then (true, s, b :: input)
      else fillV3 target (s.push b) input
    else (false, s, b :: input)

/-- How far the version 3 arm fills; `none` when the advertised length is
negative or above the cap. -/
def targetV3 (s : Parser) : Option ℕ :=
  if s.hasV3Header then
    if s.readLen < 0 then none
    else if kMaxBufferBytes < s.getPacketLengthV3 then none
    else some s.getPacketLengthV3
  else some bufferOffsetV3

theorem fillV3_length_le (target : ℕ) (s : Parser) (input : List UInt8) :
    (fillV3 target s input).2.2.length ≤ input.length := by
  induction input generalizing s with
  | nil => simp [fillV3]
  | cons b input ih =>
    rw [fillV3]
    split
    · split
      · simp
      · exact (ih (s.push b)).trans (by simp)
    · simp

theorem fillV3_progress {target : ℕ} {s : Parser} {b : UInt8} {input : List UInt8}
    (hsize : s.size < target) (hret : (fillV3 target s (b :: input)).1 = false) :
    (fillV3 target s (b :: input)).2.2.length < (b :: input).length := by
  rw [fillV3, if_pos hsize] at hret ⊢
  split at hret
  · simp at hret
  · rename_i hcap
    rw [if_neg hcap]
    exact Nat.lt_succ_of_le (fillV3_length_le target (s.push b) input)

/-- The loop of the version 3 arm; the flag tells that it returned from
`digest` because the advertised length is malformed. -/
def armV3 (s : Parser) (input : List UInt8) : Bool × Parser × List UInt8 :=
  match input with
  | [] => (false, s, [])
  | b :: rest =>
    match s.targetV3 with
    | none => (true, s, b :: rest)
    | some target =>
      if s.size < target then
        if (fillV3 target s (b :: rest)).1 then fillV3 target s (b :: rest)
        else armV3 (fillV3 target s (b :: rest)).2.1 (fillV3 target s (b :: rest)).2.2
      else (false, s, b :: rest)
termination_by input.length
decreasing_by
  rename_i hsize hret
  exact fillV3_progress hsize (by simpa using hret)

def isComplete (s : Parser) : Bool :=
  if s.readVersion = version3 ∨ s.readVersion = version4 then
    if s.hasV3Header then
      s.getPacketLengthV3 < bufferOffsetV3 ∨ kMaxBufferBytes < s.getPacketLengthV3 ∨
        s.getPacketLengthV3 ≤ s.size
    else false
  else if s.readVersion = version2 then
    kMaxBufferBytes < s.getPacketLengthV2 ∨ s.getPacketLengthV2 ≤ s.size
  else decide (s.readVersion ≠ -1)

def digest (s : Parser) (input : List UInt8) : Bool × Parser × List UInt8 :=
  if s.readVersion = -1 ∨ s.readVersion = version2 then
    let (s', rest) := fillV2 s.getPacketLengthV2 s input
    (s'.isComplete, s', rest)
  else if s.readVersion = version3 ∨ s.readVersion = version4 then
    let (returned, s', rest) := s.armV3 input
    (returned || s'.isComplete, s', rest)
  else
    (s.isComplete, s, input)

/-- A packet that cannot be read stays in the buffer: the exception leaves `parse`
before the buffer is cleared. -/
def parse (s : Parser) : Except String Packet × Parser :=
  match readFrom s.payloadLength s.buffer with
  | .ok packet => (.ok packet, { s with buffer := [] })
  | .error message => (.error message, s)

variable (s : Parser) (bytes : List UInt8)

theorem parse_fst : s.parse.1 = readFrom s.payloadLength s.buffer := by
  rw [parse]
  cases readFrom s.payloadLength s.buffer <;> rfl

def reset (s : Parser) : Parser := { s with buffer := [] }

/-- What one received chunk leads to. -/
inductive ReadResult where
  | waiting (s : Parser)
  | complete (s : Parser) (unread : List UInt8)
  | gaveUp (s : Parser)
  deriving DecidableEq, Repr

/-- The loop of `on_read`: digest until the chunk is used up, a packet is
complete, or the digester makes no progress. -/
def onRead (s : Parser) (chunk : List UInt8) : ReadResult :=
  match chunk with
  | [] => .waiting s
  | b :: rest =>
    let result := s.digest (b :: rest)
    if result.1 then .complete result.2.1 result.2.2
    else if result.2.2.length < (b :: rest).length then onRead result.2.1 result.2.2
    else .gaveUp result.2.1
termination_by chunk.length
decreasing_by assumption

/-- Feed chunks until one of them ends the wait. -/
def feed : Parser → List (List UInt8) → ReadResult
  | s, [] => .waiting s
  | s, chunk :: chunks =>
    match s.onRead chunk with
    | .waiting s' => feed s' chunks
    | result => result


/-! ## What the loops collect -/

def collect (s : Parser) (bytes : List UInt8) : Parser := { s with buffer := s.buffer ++ bytes }

@[simp] theorem size_collect : (s.collect bytes).size = s.size + bytes.length := by
  simp [collect, size]

@[simp] theorem payloadLength_collect : (s.collect bytes).payloadLength = s.payloadLength := rfl

@[simp] theorem buffer_collect : (s.collect bytes).buffer = s.buffer ++ bytes := rfl

@[simp] theorem collect_nil : s.collect [] = s := by
  simp [collect]

@[simp] theorem collect_collect (a b : List UInt8) :
    (s.collect a).collect b = s.collect (a ++ b) := by
  simp [collect]

theorem push_eq_collect (b : UInt8) : s.push b = s.collect [b] := rfl

theorem fillV2_eq (target : ℕ) (s : Parser) (input : List UInt8) :
    fillV2 target s input =
      (s.collect (input.take (target - s.size)), input.drop (target - s.size)) := by
  induction input generalizing s with
  | nil => simp [fillV2]
  | cons b input ih =>
    rw [fillV2]
    by_cases hsize : s.size < target
    · obtain ⟨missing, hmissing⟩ : ∃ m, target - s.size = m + 1 :=
        ⟨target - s.size - 1, by omega⟩
      have hnext : target - (s.push b).size = missing := by
        rw [push_eq_collect, size_collect, length_singleton]
        omega
      rw [if_pos hsize, ih, hnext, hmissing, push_eq_collect, collect_collect]
      simp
    · simp [hsize, Nat.sub_eq_zero_of_le (Nat.le_of_not_lt hsize)]

theorem fillV2_fillV2 {target goal : ℕ} (h : target ≤ goal) (s : Parser) (input : List UInt8) :
    fillV2 goal (fillV2 target s input).1 (fillV2 target s input).2 = fillV2 goal s input := by
  induction input generalizing s with
  | nil => rfl
  | cons b input ih =>
    by_cases hsize : s.size < target
    · have hgoal : s.size < goal := hsize.trans_le h
      simpa only [fillV2, if_pos hsize, if_pos hgoal] using ih (s.push b)
    · simp [fillV2, if_neg hsize]

theorem fillV3_eq {target : ℕ} (htarget : target ≤ kMaxBufferBytes) (s : Parser)
    (input : List UInt8) :
    fillV3 target s input = (false, fillV2 target s input) := by
  induction input generalizing s with
  | nil => rfl
  | cons b input ih =>
    rw [fillV3, fillV2]
    by_cases hsize : s.size < target
    · rw [if_pos hsize, if_pos hsize, if_neg (by omega), ih]
    · rw [if_neg hsize, if_neg hsize]

/-! ## One packet on the stream -/

/-- `bytes` is a single packet for a parser with the given payload length: the
size its header announces is its own, and it stays within the cap. -/
inductive Frames (payloadLength : ℕ) (bytes : List UInt8) : Prop where
  | fixed (hversion : int16At bytes 0 = version2)
      (hlength : bytes.length = packetLengthV2 payloadLength)
      (hcap : bytes.length ≤ kMaxBufferBytes)
  | announced (n : ℕ) (hversion : int16At bytes 0 = version3 ∨ int16At bytes 0 = version4)
      (hannounced : int32At bytes 12 = n) (hcap : n ≤ kMaxPayloadBytes)
      (hlength : bytes.length = packetLength (int16At bytes 0) n)

theorem Frames.sizeofPacketV2_le {payloadLength : ℕ} {bytes : List UInt8}
    (h : Frames payloadLength bytes) : sizeofPacketV2 ≤ bytes.length := by
  cases h with
  | fixed _ hlength _ =>
    rw [hlength, packetLengthV2]
    exact Nat.le_add_right _ _
  | announced n _ _ _ hlength =>
    have hoffset := bufferOffsetV3_le_packetLength (int16At bytes 0) n
    simp only [bufferOffsetV3, sizeofPacketV2] at hoffset ⊢
    omega

section OnePacket

variable {bytes extra : List UInt8} {s : Parser}

theorem readVersion_of_size_lt (h : s.size < sizeofPacketHeader) : s.readVersion = -1 :=
  if_pos h

theorem packetLength_le_kMaxBufferBytes (version : Int16) {n : ℕ} (hcap : n ≤ kMaxPayloadBytes) :
    packetLength version n ≤ kMaxBufferBytes := by
  simp only [packetLength, packetLengthV3, packetLengthV4, kMaxBufferBytes, sizeofPacketV3]
  split <;> omega

section

variable (hbuffer : s.buffer <+: bytes ++ extra)
include hbuffer

theorem readVersion_received (hsize : sizeofPacketHeader ≤ s.size)
    (hbytes : sizeofPacketHeader ≤ bytes.length) :
    s.readVersion = int16At bytes 0 := by
  have hheader : sizeofPacketHeader = 4 := rfl
  have hlen : s.size = s.buffer.length := rfl
  rw [readVersion, if_neg (by omega), int16At_received hbuffer (by omega),
    int16At_received (prefix_append bytes extra) (by omega)]

theorem readLen_received (hsize : bufferOffsetV3 ≤ s.size)
    (hbytes : bufferOffsetV3 ≤ bytes.length) :
    s.readLen = int32At bytes 12 := by
  have hoffset : bufferOffsetV3 = 16 := rfl
  have hlen : s.size = s.buffer.length := rfl
  rw [readLen, if_neg (by omega), int32At_received hbuffer (by omega),
    int32At_received (prefix_append bytes extra) (by omega)]

theorem getPacketLengthV3_received {n : ℕ} (hsize : bufferOffsetV3 ≤ s.size)
    (hannounced : int32At bytes 12 = n) (hcap : n ≤ kMaxPayloadBytes)
    (hlength : bytes.length = packetLength (int16At bytes 0) n) :
    s.readLen = n ∧ s.getPacketLengthV3 = bytes.length := by
  have hbytes : bufferOffsetV3 ≤ bytes.length := by
    have := bufferOffsetV3_le_packetLength (int16At bytes 0) n
    omega
  have hheader : sizeofPacketHeader ≤ bufferOffsetV3 := by decide
  have hlen : s.readLen = n := by
    rw [readLen_received hbuffer hsize hbytes, hannounced]
  have hmax : kMaxPayloadBytes = 1048576 := rfl
  have hmod : ((n : ℤ) % 2 ^ 64).toNat = n := by omega
  have hsmall : packetLength (int16At bytes 0) n < 2 ^ 64 := by
    simp only [packetLength, packetLengthV3, packetLengthV4, sizeofPacketV3]
    split <;> omega
  refine ⟨hlen, ?_⟩
  rw [getPacketLengthV3, if_pos (by simpa [hasV3Header] using hsize), hlen, hmod,
    readVersion_received hbuffer (by omega) (by omega), hlength, ← Nat.mod_eq_of_lt hsmall,
    packetLength]
  split <;> simp

theorem isComplete_eq (hframes : Frames s.payloadLength bytes) :
    s.isComplete = decide (bytes.length ≤ s.size) := by
  have hbytes := hframes.sizeofPacketV2_le
  have hheader : sizeofPacketHeader = 4 := rfl
  have hsizeof : sizeofPacketV2 = 12 := rfl
  by_cases hsize : s.size < sizeofPacketHeader
  · have hversion := readVersion_of_size_lt hsize
    have hnot : ¬ bytes.length ≤ s.size := by omega
    rw [isComplete, hversion, decide_eq_false hnot, if_neg (by decide), if_neg (by decide)]
    simp
  have hversion := readVersion_received hbuffer (Nat.le_of_not_lt hsize) (by omega)
  rw [isComplete, hversion]
  cases hframes with
  | fixed hfixed hlength hcap =>
    have hcap' : ¬ kMaxBufferBytes < s.getPacketLengthV2 := by
      rw [getPacketLengthV2, ← hlength]
      omega
    rw [hfixed, if_neg (by decide), if_pos rfl, getPacketLengthV2, ← hlength] at *
    simp [hcap]
  | announced n hann hannounced hcap hlength =>
    rw [if_pos hann]
    by_cases hfull : bufferOffsetV3 ≤ s.size
    · have hknown :=
        (getPacketLengthV3_received hbuffer hfull hannounced hcap hlength).2
      have hoffset := bufferOffsetV3_le_packetLength (int16At bytes 0) n
      have hmax : bytes.length ≤ kMaxBufferBytes := by
        rw [hlength]
        exact packetLength_le_kMaxBufferBytes _ hcap
      rw [if_pos (by simpa [hasV3Header] using hfull), hknown]
      have h1 : ¬ bytes.length < bufferOffsetV3 := by omega
      have h2 : ¬ kMaxBufferBytes < bytes.length := by omega
      simp [h1, h2]
    · have hoffset := bufferOffsetV3_le_packetLength (int16At bytes 0) n
      have hnot : ¬ bytes.length ≤ s.size := by omega
      rw [if_neg (by simpa [hasV3Header] using hfull), decide_eq_false hnot]

end

section

variable (hframes : Frames s.payloadLength bytes)
  (hversion : int16At bytes 0 = version3 ∨ int16At bytes 0 = version4)
include hframes hversion

theorem targetV3_spec (hbuffer : s.buffer <+: bytes ++ extra) :
    ∃ target, s.targetV3 = some target ∧ (s.size < bytes.length → s.size < target) ∧
      target ≤ bytes.length ∧ target ≤ kMaxBufferBytes := by
  cases hframes with
  | fixed hfixed _ _ =>
    rw [hfixed] at hversion
    exact absurd hversion (by decide)
  | announced n _ hannounced hcap hlength =>
    have hoffset := bufferOffsetV3_le_packetLength (int16At bytes 0) n
    by_cases hfull : bufferOffsetV3 ≤ s.size
    · obtain ⟨hlen, hknown⟩ :=
        getPacketLengthV3_received hbuffer hfull hannounced hcap hlength
      have hmax : bytes.length ≤ kMaxBufferBytes := by
        rw [hlength]
        exact packetLength_le_kMaxBufferBytes _ hcap
      refine ⟨bytes.length, ?_, id, le_rfl, hmax⟩
      rw [targetV3, if_pos (by simpa [hasV3Header] using hfull), hlen, hknown,
        if_neg (by omega), if_neg (by omega)]
    · refine ⟨bufferOffsetV3, ?_, fun _ => by omega, by omega, by decide⟩
      rw [targetV3, if_neg (by simpa [hasV3Header] using hfull)]

theorem armV3_eq (input : List UInt8) (hbuffer : s.buffer ++ input <+: bytes ++ extra)
    (hsize : s.size ≤ bytes.length) : s.armV3 input = (false, fillV2 bytes.length s input) := by
  -- each round of the outer loop consumes input, so the induction is on its length
  induction hn : input.length using Nat.strong_induction_on generalizing s input with
  | _ n ih =>
    cases input with
    | nil => simp [armV3, fillV2]
    | cons b rest =>
      have hprefix : s.buffer <+: bytes ++ extra :=
        (prefix_append s.buffer (b :: rest)).trans hbuffer
      obtain ⟨target, htarget, hopen, hwithin, hcap⟩ :=
        targetV3_spec hframes hversion hprefix
      rw [armV3]
      by_cases hlt : s.size < bytes.length
      · have hbelow := hopen hlt
        have hreturned : (fillV3 target s (b :: rest)).1 = false := by
          rw [fillV3_eq hcap]
        have hprogress := fillV3_progress hbelow hreturned
        simp only [htarget, if_pos hbelow, fillV3_eq hcap] at hprogress ⊢
        rw [if_neg (by simp)]
        set filled := fillV2 target s (b :: rest) with hfilled
        have hnext : filled.1.armV3 filled.2 = (false, fillV2 bytes.length filled.1 filled.2) := by
          rw [fillV2_eq] at hfilled
          apply ih filled.2.length (by omega) _ _ _ _ rfl
          · simpa [hfilled] using hframes
          · simpa [hfilled] using hbuffer
          · rw [hfilled, size_collect, length_take]
            omega
        rw [hnext, hfilled, fillV2_fillV2 hwithin]
      · have hdone : ¬ s.size < target := by omega
        simp [htarget, if_neg hdone, fillV2, if_neg hlt]

end

variable {chunk : List UInt8}

theorem fillV2_spec (hframes : Frames s.payloadLength bytes) {goal : ℕ} (hchunk : chunk ≠ [])
    (hbuffer : s.buffer ++ chunk <+: bytes ++ extra) (hgoal : s.size < goal) :
    ∃ k, 0 < k ∧ k ≤ chunk.length ∧ s.size + k ≤ goal ∧
      fillV2 goal s chunk = (s.collect (chunk.take k), chunk.drop k) ∧
      (fillV2 goal s chunk).1.isComplete = decide (bytes.length ≤ s.size + k) := by
  have hpos : 0 < chunk.length := length_pos_iff.mpr hchunk
  refine ⟨min (goal - s.size) chunk.length, by omega, by omega, by omega, ?_, ?_⟩
  · rw [fillV2_eq, take_eq_take_min, drop_eq_drop_min]
  · have hcollected : (s.collect (chunk.take (goal - s.size))).buffer <+: bytes ++ extra := by
      refine List.IsPrefix.trans ?_ hbuffer
      rw [buffer_collect, prefix_append_right_inj]
      exact take_prefix _ _
    rw [fillV2_eq, isComplete_eq hcollected (by simpa using hframes)]
    simp

/-- One call of `digest` on a stream that starts with a packet: it consumes at
least one byte, and it reports completeness exactly when the whole packet has
been consumed. -/
theorem digest_spec (hframes : Frames s.payloadLength bytes) (hchunk : chunk ≠ [])
    (hbuffer : s.buffer ++ chunk <+: bytes ++ extra) (hsize : s.size < bytes.length) :
    ∃ k, 0 < k ∧ k ≤ chunk.length ∧
      s.digest chunk = (decide (bytes.length ≤ s.size + k), s.collect (chunk.take k),
        chunk.drop k) ∧
      (int16At bytes 0 = version2 → s.size + k ≤ bytes.length) := by
  have hprefix : s.buffer <+: bytes ++ extra :=
    (prefix_append s.buffer chunk).trans hbuffer
  -- whichever arm runs, it fills up to some goal beyond what has been collected
  have harm : ∃ goal, s.size < goal ∧
      s.digest chunk = ((fillV2 goal s chunk).1.isComplete, fillV2 goal s chunk) ∧
      (int16At bytes 0 = version2 → goal ≤ bytes.length) := by
    have hbytes := hframes.sizeofPacketV2_le
    have hheader : sizeofPacketHeader = 4 := rfl
    have hsizeof : sizeofPacketV2 = 12 := rfl
    have hfixed : int16At bytes 0 = version2 → bytes.length = s.getPacketLengthV2 := by
      intro hversion
      cases hframes with
      | fixed _ hlength _ => exact hlength
      | announced _ hother =>
        rw [hversion] at hother
        exact absurd hother (by decide)
    by_cases hshort : s.size < sizeofPacketHeader
    · refine ⟨s.getPacketLengthV2, ?_, ?_, fun h => (hfixed h).ge⟩
      · rw [getPacketLengthV2, packetLengthV2]
        omega
      · rw [digest, if_pos (.inl (readVersion_of_size_lt hshort))]
    have hversion := readVersion_received hprefix (Nat.le_of_not_lt hshort) (by omega)
    by_cases hv2 : int16At bytes 0 = version2
    · refine ⟨s.getPacketLengthV2, hfixed hv2 ▸ hsize, ?_, fun h => (hfixed h).ge⟩
      rw [digest, if_pos (.inr (hversion.trans hv2))]
    · have hv3 : int16At bytes 0 = version3 ∨ int16At bytes 0 = version4 := by
        cases hframes with
        | fixed hv _ _ => exact absurd hv hv2
        | announced _ hv => exact hv
      refine ⟨bytes.length, hsize, ?_, fun h => absurd h hv2⟩
      have hnot : ¬ (s.readVersion = -1 ∨ s.readVersion = version2) := by
        rw [hversion]
        rcases hv3 with hv | hv <;> rw [hv] <;> decide
      rw [digest, if_neg hnot, if_pos (hversion ▸ hv3), armV3_eq hframes hv3 chunk hbuffer hsize.le]
      simp
  obtain ⟨goal, hgoal, hdigest, hfixed⟩ := harm
  obtain ⟨k, hpos, hle, hwithin, hfill, hcomplete⟩ := fillV2_spec hframes hchunk hbuffer hgoal
  refine ⟨k, hpos, hle, ?_, fun h => hwithin.trans (hfixed h)⟩
  rw [hdigest, hcomplete, hfill]

theorem collect_take_append_drop (k : ℕ) (chunk : List UInt8) :
    (s.collect (chunk.take k)).buffer ++ chunk.drop k = s.buffer ++ chunk := by
  simp

section

variable (hframes : Frames s.payloadLength bytes) (chunk : List UInt8)
  (hbuffer : s.buffer ++ chunk <+: bytes ++ extra)
include hframes hbuffer

theorem onRead_waiting (hopen : s.size + chunk.length < bytes.length) :
    s.onRead chunk = .waiting (s.collect chunk) := by
  induction hn : chunk.length using Nat.strong_induction_on generalizing s chunk with
  | _ n ih =>
    cases chunk with
    | nil => simp [onRead]
    | cons b rest =>
      obtain ⟨k, hpos, hle, hdigest, -⟩ :=
        digest_spec hframes (cons_ne_nil b rest) hbuffer (by omega)
      have hnot : ¬ bytes.length ≤ s.size + k := by omega
      have hless : ((b :: rest).drop k).length < (b :: rest).length := by
        rw [length_drop]
        omega
      rw [onRead, hdigest]
      simp only [decide_eq_false hnot, Bool.false_eq_true, if_false, if_pos hless]
      rw [ih ((b :: rest).drop k).length (by omega) _ _ _ _ rfl]
      · simp
      · exact hframes
      · rwa [collect_take_append_drop]
      · rw [size_collect, length_take, length_drop]
        omega

/-- The chunk with the packet's last byte completes it.  A version 2 packet is
collected exactly; a later version may be followed by bytes of the same chunk. -/
theorem onRead_complete (hsize : s.size < bytes.length)
    (hreach : bytes.length ≤ s.size + chunk.length) : ∃ k, k ≤ chunk.length ∧
      s.onRead chunk = .complete (s.collect (chunk.take k)) (chunk.drop k) ∧
      bytes.length ≤ s.size + k ∧
      (int16At bytes 0 = version2 → s.size + k = bytes.length) := by
  induction hn : chunk.length using Nat.strong_induction_on generalizing s chunk with
  | _ n ih =>
    cases chunk with
    | nil =>
      rw [length_nil] at hreach
      omega
    | cons b rest =>
      obtain ⟨k, hpos, hle, hdigest, hfixed⟩ :=
        digest_spec hframes (cons_ne_nil b rest) hbuffer hsize
      rw [onRead, hdigest]
      by_cases hdone : bytes.length ≤ s.size + k
      · refine ⟨k, hn ▸ hle, ?_, hdone, fun h => le_antisymm (hfixed h) hdone⟩
        simp [hdone]
      · have hless : ((b :: rest).drop k).length < (b :: rest).length := by
          rw [length_drop]
          omega
        have hlength : (s.collect ((b :: rest).take k)).size = s.size + k := by
          rw [size_collect, length_take]
          omega
        obtain ⟨j, hj, hread, hend, hexact⟩ :=
          ih ((b :: rest).drop k).length (by omega) (s := s.collect ((b :: rest).take k))
            hframes ((b :: rest).drop k) (by rwa [collect_take_append_drop])
            (by omega) (by rw [hlength, length_drop]; omega) rfl
        rw [length_drop] at hj
        refine ⟨k + j, by omega, ?_, by omega, fun h => by have := hexact h; omega⟩
        simp only [decide_eq_false hdone, Bool.false_eq_true, if_false, if_pos hless]
        rw [hread, collect_collect, drop_drop, ← take_add]

end

/-- Chunks that together fall short of the packet leave the parser waiting with
exactly their bytes. -/
theorem feed_waiting (hframes : Frames s.payloadLength bytes) (chunks : List (List UInt8))
    (hbuffer : s.buffer ++ chunks.flatten <+: bytes ++ extra)
    (hopen : s.size + chunks.flatten.length < bytes.length) (more : List (List UInt8)) :
    s.feed (chunks ++ more) = (s.collect chunks.flatten).feed more := by
  induction chunks generalizing s with
  | nil => simp
  | cons chunk chunks ih =>
    rw [flatten_cons] at hbuffer hopen ⊢
    rw [length_append] at hopen
    have hchunk : s.buffer ++ chunk <+: bytes ++ extra := by
      rw [← append_assoc] at hbuffer
      exact (prefix_append _ _).trans hbuffer
    rw [cons_append, feed, onRead_waiting hframes chunk hchunk (by omega)]
    simp only
    rw [ih (by simpa using hframes) (by simpa using hbuffer)
      (by rw [size_collect]; omega), collect_collect]

end OnePacket

/-! ## Packets written by the codec -/

/-- The packets whose framing is guaranteed: NUL-free text, and a wire size
within the cap.  Version 2 takes its size from the configured payload length. -/
structure Framable (payloadLength : ℕ) (p : Packet) : Prop where
  type : isPacketType p.type = true
  text : 0 ∉ p.payload
  fits : (p.version = version2 ∧ p.payloadLength = payloadLength ∧
      p.payload.length < payloadLength ∧ payloadLength ≤ kMaxPayloadBytes + 8) ∨
    ((p.version = version3 ∨ p.version = version4) ∧ p.payload.length ≤ kMaxPayloadBytes)

variable {payloadLength : ℕ} {p : Packet} {bytes : List UInt8}

theorem Framable.frames (h : Framable payloadLength p) (hbytes : p.getBuffer = .ok bytes) :
    Frames payloadLength bytes ∧ int16At bytes 0 = p.version := by
  rcases h.fits with ⟨hversion, rfl, hlen, hcap⟩ | ⟨hversion, hlen⟩
  · rw [getBuffer_frameV2 hversion hlen] at hbytes
    cases hbytes
    have hat : int16At (p.frameV2 (calculateCrc32 (p.frameV2 0))) 0 = p.version := by
      simp [frameV2]
    refine ⟨.fixed (hat.trans hversion) (p.length_frameV2 _ hlen) ?_, hat⟩
    rw [p.length_frameV2 _ hlen, packetLengthV2, kMaxBufferBytes]
    simp only [sizeofPacketV2, sizeofPacketV3]
    omega
  · rw [getBuffer_frameV3 hversion] at hbytes
    cases hbytes
    set crc := calculateCrc32 (p.frameV3 0)
    have hat : int16At (p.frameV3 crc) 0 = p.version := by simp [frameV3]
    have hann := p.int32At_frameV3 crc [] (lt_of_le_of_lt hlen (by decide))
    rw [append_nil] at hann
    refine ⟨.announced p.payload.length (hat ▸ hversion) hann hlen ?_, hat⟩
    rw [hat, p.length_frameV3]

/-- Parsing a collected packet gives the packet back, whatever later version
bytes were collected after it. -/
theorem Framable.parse (h : Framable payloadLength p) (hbytes : p.getBuffer = .ok bytes)
    (extra : List UInt8) (hextra : p.version = version2 → extra = []) :
    (Parser.parse ⟨payloadLength, bytes ++ extra⟩).1 =
      .ok { p with payloadLength := payloadLength } := by
  have htext := (takeWhile_ne_zero_eq_self_iff p.payload).mpr h.text
  rw [parse_fst]
  rcases h.fits with ⟨hversion, rfl, hlen, hcap⟩ | ⟨hversion, hlen⟩
  · rw [getBuffer_frameV2 hversion hlen] at hbytes
    cases hbytes
    rw [hextra hversion, append_nil, p.readFrom_frameV2 hversion h.type hlen, htext]
  · rw [getBuffer_frameV3 hversion] at hbytes
    cases hbytes
    rw [p.readFrom_frameV3 payloadLength extra hversion h.type hlen, htext]

/-- **Framing does not depend on fragmentation.**  However the bytes of a packet
are split, the parser waits, holding exactly the bytes fed to it, until the
chunk with the last byte; that chunk completes the packet, none of it is left
unless more bytes follow, and parsing returns the packet that was written. -/
theorem feed_getBuffer (h : Framable payloadLength p) (chunks : List (List UInt8))
    (last extra : List UInt8) (hlast : last ≠ [])
    (hbytes : p.getBuffer = .ok (chunks.flatten ++ last)) :
    (new payloadLength).feed chunks = .waiting ⟨payloadLength, chunks.flatten⟩ ∧
      ∃ s unread, (new payloadLength).feed (chunks ++ [last ++ extra]) = .complete s unread ∧
        (extra = [] → unread = []) ∧
        s.parse.1 = .ok { p with payloadLength := payloadLength } := by
  obtain ⟨hframes, hversion⟩ := h.frames hbytes
  have hpos : 0 < last.length := length_pos_iff.mpr hlast
  have hopen : (new payloadLength).size + chunks.flatten.length <
      (chunks.flatten ++ last).length := by
    simpa [new, size] using hpos
  have hcollect : (new payloadLength).collect chunks.flatten =
      ⟨payloadLength, chunks.flatten⟩ := rfl
  have hstart : (new payloadLength).buffer ++ chunks.flatten <+:
      (chunks.flatten ++ last) ++ extra := by
    simp [new]
  have hwait := feed_waiting (s := new payloadLength) hframes chunks hstart hopen
  refine ⟨?_, ?_⟩
  · simpa [feed, hcollect] using hwait []
  have hstream : (Parser.mk payloadLength chunks.flatten).buffer ++ (last ++ extra) <+:
      (chunks.flatten ++ last) ++ extra := by
    simp
  obtain ⟨k, hk, hread, hend, hexact⟩ :=
    onRead_complete (s := ⟨payloadLength, chunks.flatten⟩) hframes (last ++ extra) hstream
      (by simpa [size] using hpos) (by simp [size])
  have hreached : last.length ≤ k := by
    simp only [size, length_append] at hend
    omega
  have htake : (last ++ extra).take k = last ++ extra.take (k - last.length) := by
    rw [take_append, take_of_length_le hreached]
  refine ⟨(Parser.mk payloadLength chunks.flatten).collect ((last ++ extra).take k),
    (last ++ extra).drop k, ?_, ?_, ?_⟩
  · rw [hwait, hcollect, feed, hread]
  · rintro rfl
    rw [append_nil] at hk ⊢
    exact drop_eq_nil_of_le hreached
  · have hcollected : (Parser.mk payloadLength chunks.flatten).collect ((last ++ extra).take k) =
        ⟨payloadLength, (chunks.flatten ++ last) ++ extra.take (k - last.length)⟩ := by
      rw [htake, collect, append_assoc]
    rw [hcollected]
    apply h.parse hbytes
    intro hv2
    have hexact' := hexact (hversion.trans hv2)
    simp only [size, length_append] at hexact'
    rw [Nat.sub_eq_zero_of_le (by omega), take_zero]

/-- A version 4 query split inside its version field and inside its length
field, with two bytes of something else behind it. -/
theorem feed_getBuffer_split :
    (new 1024).feed [[0], [4, 0, 1, 55, 38, 223, 87, 0, 0, 0, 0, 0, 0]] =
        .waiting ⟨1024, [0, 4, 0, 1, 55, 38, 223, 87, 0, 0, 0, 0, 0, 0]⟩ ∧
      ∃ s unread, (new 1024).feed ([[0], [4, 0, 1, 55, 38, 223, 87, 0, 0, 0, 0, 0, 0]] ++
          [[0, 2, 104, 105] ++ [7, 7]]) = .complete s unread ∧
        (([7, 7] : List UInt8) = [] → unread = []) ∧
        s.parse.1 = .ok ⟨1024, queryPacket, version4, 0, [104, 105]⟩ :=
  feed_getBuffer (p := ⟨0, queryPacket, version4, 0, [104, 105]⟩)
    ⟨by decide, by decide, .inr ⟨by decide, by decide⟩⟩
    [[0], [4, 0, 1, 55, 38, 223, 87, 0, 0, 0, 0, 0, 0]] [0, 2, 104, 105] [7, 7] (by decide)
    (by decide +kernel)

/-- Above the cap a version 2 packet is reported complete with its fourth byte. -/
theorem digest_capped :
    ∃ bytes, (Packet.mk (kMaxPayloadBytes + 9) queryPacket version2 0 []).getBuffer = .ok bytes ∧
      bytes.length = kMaxBufferBytes + 1 ∧
      (new (kMaxPayloadBytes + 9)).feed [bytes.take 4] =
        .complete ⟨kMaxPayloadBytes + 9, bytes.take 4⟩ [] := by
  set p : Packet := ⟨kMaxPayloadBytes + 9, queryPacket, version2, 0, []⟩ with hp
  refine ⟨p.frameV2 (calculateCrc32 (p.frameV2 0)), ?_, ?_, ?_⟩
  · exact getBuffer_frameV2 rfl (by simp [hp])
  · rw [length_frameV2 _ _ (by simp [hp]), hp, packetLengthV2, kMaxBufferBytes]
    simp only [sizeofPacketV2, sizeofPacketV3]
    omega
  · have htake : (p.frameV2 (calculateCrc32 (p.frameV2 0))).take 4 = [0, 2, 0, 1] := by
      have hfields : int16Bytes version2 ++ int16Bytes queryPacket = [0, 2, 0, 1] := by decide
      rw [frameV2, header, ← append_assoc, take_left' (by simp)]
      exact hfields
    have hdigest : (new (kMaxPayloadBytes + 9)).digest [0, 2, 0, 1] =
        (true, ⟨kMaxPayloadBytes + 9, [0, 2, 0, 1]⟩, []) := by
      decide
    rw [htake, feed, onRead, hdigest]
    simp

end Parser

end Nscp.Nrpe
