import Mathlib

/-!
# Big-endian words

A natural number written as a fixed number of bytes, most significant byte
first, and read back.  Writing truncates modulo `256 ^ width`; reading what was
written returns the number modulo the same power.
-/

namespace BigEndian

/-- The low `width` bytes of `value`, most significant first. -/
def encode : ℕ → ℕ → List UInt8
  | 0, _ => []
  | width + 1, value => UInt8.ofNat (value / 256 ^ width) :: encode width value

def decodeFrom (acc : ℕ) (bytes : List UInt8) : ℕ :=
  bytes.foldl (fun n b => n * 256 + b.toNat) acc

def decode (bytes : List UInt8) : ℕ := decodeFrom 0 bytes

@[simp] theorem length_encode (width value : ℕ) : (encode width value).length = width := by
  induction width with
  | zero => rfl
  | succ width ih => simp [encode, ih]

@[simp] theorem decodeFrom_nil (acc : ℕ) : decodeFrom acc [] = acc := rfl

@[simp] theorem decodeFrom_cons (acc : ℕ) (b : UInt8) (bytes : List UInt8) :
    decodeFrom acc (b :: bytes) = decodeFrom (acc * 256 + b.toNat) bytes := rfl

theorem decodeFrom_encode (acc width value : ℕ) :
    decodeFrom acc (encode width value) = acc * 256 ^ width + value % 256 ^ width := by
  induction width generalizing acc with
  | zero => simp [encode, Nat.mod_one]
  | succ width ih =>
    have hdigit : (UInt8.ofNat (value / 256 ^ width)).toNat = value / 256 ^ width % 256 := by
      simp
    have hsplit : value % 256 ^ (width + 1) =
        256 ^ width * (value / 256 ^ width % 256) + value % 256 ^ width := by
      rw [pow_succ, Nat.mod_mul, Nat.add_comm]
    rw [encode, decodeFrom_cons, ih, hdigit, hsplit]
    ring

/-- A value that fits its width survives the round trip. -/
theorem decode_encode_of_lt {width value : ℕ} (h : value < 256 ^ width) :
    decode (encode width value) = value := by
  simp [decode, decodeFrom_encode, Nat.mod_eq_of_lt h]

end BigEndian
