import Mathlib

/-!
# Doubles as exact numbers

A finite double is a signed integer times a power of two.  Decoding its bits
gives the exact value, from which truncation and rounding to an integer are
computed without a further rounding step.
-/

namespace Double

structure Parts where
  negative : Bool
  magnitude : ℕ
  exponent : ℤ
  deriving DecidableEq, Repr

def decode (x : Float) : Option Parts :=
  let bits := x.toBits.toNat
  let exponent : ℕ := bits / 2 ^ 52 % 2 ^ 11
  let fraction : ℕ := bits % 2 ^ 52
  let negative := decide (2 ^ 63 ≤ bits)
  if exponent = 2 ^ 11 - 1 then none
  else if exponent = 0 then some ⟨negative, fraction, -1074⟩
  else some ⟨negative, fraction + 2 ^ 52, exponent - 1075⟩

namespace Parts

def signed (p : Parts) (n : ℕ) : ℤ := if p.negative then -n else n

def truncate (p : Parts) : ℤ :=
  p.signed (p.magnitude * 2 ^ p.exponent.toNat / 2 ^ (-p.exponent).toNat)

def round (p : Parts) : ℤ :=
  p.signed ((2 * (p.magnitude * 2 ^ p.exponent.toNat) + 2 ^ (-p.exponent).toNat) /
    2 ^ ((-p.exponent).toNat + 1))

end Parts

end Double
