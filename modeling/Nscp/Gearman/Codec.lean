import Nscp.Gearman.Protocol

/-!
# What is encoded is decoded

A packet the protocol can carry is given back by the decoder, whatever bytes follow it, and a part
of one is never taken for a malformed stream.
-/

namespace Nscp.Gearman

open BigEndian List Framing

/-- A packet the protocol can carry. -/
structure WirePacket where
  magic : Magic
  type : PacketType
  args : List (List UInt8)
  count : args.length = type.argumentCount
  separable : ∀ arg ∈ args.dropLast, 0 ∉ arg
  handle : type.startsWithJobHandle = true → (args.headD []).length ≤ maxJobHandleSize
  size : bodySize args ≤ maxPacketSize

namespace WirePacket

section

variable (w : WirePacket)

def packet : Packet :=
  ⟨w.magic, .known w.type, w.args⟩

def header : List UInt8 :=
  w.magic.bytes ++ encode 4 w.type.code ++ encode 4 (bodySize w.args)

def body : List UInt8 :=
  [0].intercalate w.args

def wire : List UInt8 :=
  w.header ++ w.body

end

theorem encodePacket_eq (w : WirePacket) :
    encodePacket (.known w.type) w.args w.magic = .ok w.wire := by
  rw [encodePacket, if_neg (not_not.mpr w.count), if_neg (Nat.not_lt.mpr w.size)]
  rfl

end WirePacket

open WirePacket

/-! ## The body -/

theorem bodySize_eq (args : List (List UInt8)) :
    bodySize args = ([0].intercalate args).length := by
  rw [bodySize]
  split_ifs with hnil
  · rw [hnil]
    rfl
  · induction args with
    | nil => exact absurd rfl hnil
    | cons arg args ih =>
      cases args with
      | nil => simp
      | cons arg' args =>
        have hrest := ih (cons_ne_nil arg' args)
        rw [intercalate_cons_cons, length_append, length_append, ← hrest]
        simp only [length_cons, length_nil, map_cons, sum_cons]
        omega

theorem splitArguments_intercalate {args : List (List UInt8)} {n : ℕ} (hlen : args.length = n + 1)
    (hsep : ∀ arg ∈ args.dropLast, 0 ∉ arg) (i : ℕ) :
    splitArguments i n ([0].intercalate args) = .ok args := by
  induction n generalizing i args with
  | zero =>
    obtain ⟨arg, rfl⟩ := length_eq_one_iff.mp hlen
    rw [intercalate_singleton, splitArguments]
  | succ n ih =>
    match args, hlen with
    | arg :: arg' :: args, hlen =>
      rw [dropLast_cons_cons, forall_mem_cons] at hsep
      obtain ⟨harg, hsep⟩ := hsep
      have hrest := ih (Nat.succ.inj hlen) hsep (i + 1)
      have hmem : 0 ∈ arg ++ [0] ++ [0].intercalate (arg' :: args) := by simp
      have hidx : (arg ++ [0] ++ [0].intercalate (arg' :: args)).idxOf 0 = arg.length := by
        rw [append_assoc, idxOf_append_of_notMem harg, singleton_append,
          idxOf_cons_self, Nat.add_zero]
      rw [intercalate_cons_cons, splitArguments, if_pos hmem, hidx]
      have hdrop : (arg ++ [0] ++ [0].intercalate (arg' :: args)).drop (arg.length + 1) =
          [0].intercalate (arg' :: args) := by
        rw [drop_left' (by simp)]
      rw [hdrop, hrest, append_assoc, take_left]

variable (w : WirePacket)

theorem decodeArguments_body : decodeArguments (.known w.type) w.body = .ok w.args := by
  rw [decodeArguments]
  have hcount := w.count
  cases hn : w.type.argumentCount with
  | zero =>
    rw [hn] at hcount
    rw [eq_nil_of_length_eq_zero hcount]
  | succ n =>
    rw [hn] at hcount
    exact splitArguments_intercalate hcount w.separable 0

theorem decodeBody_body :
    decodeBody w.magic (.known w.type) w.body = .packet w.packet (headerSize + w.body.length) := by
  have hhandle : handleTooLong (.known w.type) w.args = false := by
    rw [handleTooLong]
    cases hstarts : w.type.startsWithJobHandle with
    | false => rfl
    | true =>
      have hle := w.handle hstarts
      simp only [Bool.true_and, Bool.and_eq_false_iff, decide_eq_false_iff_not]
      exact .inr (Nat.not_lt.mpr hle)
  rw [decodeBody, decodeArguments_body]
  dsimp only
  rw [hhandle]
  rfl

/-! ## The header -/

theorem ofCode_code (type : PacketType) : Kind.ofCode type.code = .known type := by
  cases type <;> rfl

theorem code_lt (type : PacketType) : type.code < 256 ^ 4 := by
  cases type <;> decide

theorem length_bytes (magic : Magic) : magic.bytes.length = 4 := by
  cases magic <;> rfl

theorem length_header : w.header.length = headerSize := by
  rw [header, length_append, length_append, length_bytes, length_encode, length_encode]
  rfl

section Header

variable (w : WirePacket) (rest : List UInt8)

theorem readMagic_header : readMagic (w.header ++ rest) = some w.magic := by
  have htake : (w.header ++ rest).take 4 = w.magic.bytes := by
    rw [header, append_assoc, append_assoc, ← length_bytes w.magic, take_left]
  rw [readMagic, htake]
  cases w.magic <;> rfl

theorem code_header :
    decode (((w.header ++ rest).drop 4).take 4) = w.type.code := by
  have hdrop : (w.header ++ rest).drop 4 =
      encode 4 w.type.code ++ (encode 4 (bodySize w.args) ++ rest) := by
    rw [header, append_assoc, append_assoc, drop_left' (length_bytes w.magic)]
  rw [hdrop, take_left' (length_encode 4 _), decode_encode_of_lt (code_lt w.type)]

theorem size_header :
    decode (((w.header ++ rest).drop 8).take 4) = w.body.length := by
  have hdrop : (w.header ++ rest).drop 8 = encode 4 (bodySize w.args) ++ rest := by
    have hlen : (w.magic.bytes ++ encode 4 w.type.code).length = 8 := by
      rw [length_append, length_bytes, length_encode]
    rw [header, append_assoc, drop_left' hlen]
  have hlt : bodySize w.args < 256 ^ 4 := by
    have hsize := w.size
    rw [maxPacketSize] at hsize
    omega
  rw [hdrop, take_left' (length_encode 4 _), decode_encode_of_lt hlt, bodySize_eq]
  rfl

theorem decodePacket_header :
    decodePacket (w.header ++ rest) = if rest.length < w.body.length then .incomplete
      else decodeBody w.magic (.known w.type) (rest.take w.body.length) := by
  have hlen : (w.header ++ rest).length = headerSize + rest.length := by
    rw [length_append, length_header]
  have hsize : ¬ maxPacketSize < w.body.length := by
    have hle := w.size
    rw [bodySize_eq] at hle
    exact Nat.not_lt.mpr hle
  rw [decodePacket, if_neg (by omega), readMagic_header]
  dsimp only
  rw [code_header, ofCode_code, size_header, if_neg hsize, hlen, Nat.add_sub_cancel_left,
    drop_left' (length_header w)]

end Header

theorem decodePacket_inverts : Inverts decodePacket wire packet where
  whole := by
    intro w rest
    have hle : ¬ (w.body ++ rest).length < w.body.length := by
      rw [length_append]
      omega
    rw [wire, append_assoc, decodePacket_header, if_neg hle, take_left,
      decodeBody_body, length_append, length_header]
  short := by
    intro w front hfront hne
    obtain ⟨tail, htail⟩ := hfront
    rw [wire] at htail
    have hlen := congrArg List.length htail
    rw [length_append, length_append, length_header] at hlen
    rcases Nat.lt_or_ge front.length headerSize with hshort | hlong
    · rw [decodePacket, if_pos hshort]
    · -- the header is there, and the body is cut
      have hheader : w.header <+: front := by
        apply prefix_of_prefix_length_le (htail ▸ prefix_append w.header w.body)
          (prefix_append front tail)
        rw [length_header]
        exact hlong
      obtain ⟨rest, rfl⟩ := hheader
      rw [decodePacket_header, if_pos]
      have htail' : tail ≠ [] := by
        rintro rfl
        rw [append_nil] at htail
        exact hne htail
      have hpos := length_pos_iff.mpr htail'
      rw [length_append, length_header] at hlen
      omega
  empty := rfl

end Nscp.Gearman
