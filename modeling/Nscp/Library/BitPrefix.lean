import Mathlib

/-!
# Bit prefixes of byte strings

The bits of a byte string are numbered from the most significant bit of its first
byte.  Two strings agree on their first `n` bits exactly when they are equal under
any mask whose set bits are the first `n`.
-/

namespace BitPrefix

abbrev Bytes (w : ℕ) := Vector UInt8 w

/-- Bit `j`, counted from the most significant bit of the first byte. -/
def bit {w : ℕ} (a : Bytes w) (j : Fin (8 * w)) : Bool :=
  (a.get ⟨j / 8, by omega⟩).toBitVec.getMsbD (j % 8)

/-- Agreement on the first `n` bits, or on all of them when there are fewer. -/
def AgreeOn {w : ℕ} (n : ℕ) (a b : Bytes w) : Prop :=
  ∀ j : Fin (8 * w), (j : ℕ) < n → bit a j = bit b j

instance {w : ℕ} (n : ℕ) (a b : Bytes w) : Decidable (AgreeOn n a b) :=
  inferInstanceAs (Decidable (∀ j : Fin (8 * w), (j : ℕ) < n → bit a j = bit b j))

/-- Agreement on more bits is agreement on fewer. -/
theorem AgreeOn.mono {w n m : ℕ} {a b : Bytes w} (h : AgreeOn n a b) (hm : min m (8 * w) ≤ n) :
    AgreeOn m a b := by
  intro j hj
  exact h j (by omega)

theorem and_eq_and_iff (x y m : UInt8) :
    x &&& m = y &&& m ↔ ∀ k < 8, m.toBitVec.getMsbD k = true →
      x.toBitVec.getMsbD k = y.toBitVec.getMsbD k := by
  rw [← UInt8.toBitVec_inj, UInt8.toBitVec_and, UInt8.toBitVec_and]
  constructor
  · intro h k _ hm
    have hk := congrArg (fun v => v.getMsbD k) h
    simpa [hm] using hk
  · intro h
    refine BitVec.eq_of_getMsbD_eq fun k hk => ?_
    rw [BitVec.getMsbD_and, BitVec.getMsbD_and]
    cases hm : m.toBitVec.getMsbD k with
    | false => simp
    | true => rw [h k hk hm]

/-- Equality under a mask is agreement on the bits the mask sets. -/
theorem masked_eq_iff {w : ℕ} (a b mask : Bytes w) :
    (∀ i : Fin w, a.get i &&& mask.get i = b.get i &&& mask.get i) ↔
      ∀ j : Fin (8 * w), bit mask j = true → bit a j = bit b j := by
  constructor
  · intro h j hj
    exact (and_eq_and_iff _ _ _).mp (h ⟨j / 8, by omega⟩) (j % 8) (by omega) hj
  · intro h i
    refine (and_eq_and_iff _ _ _).mpr fun k hk hm => ?_
    have hdiv : (8 * (i : ℕ) + k) / 8 = i := by omega
    have hmod : (8 * (i : ℕ) + k) % 8 = k := by omega
    have hj := h ⟨8 * i + k, by omega⟩
    simp only [bit, hdiv, hmod, Fin.eta] at hj
    exact hj hm

/-- A mask of `n` leading ones compares the first `n` bits. -/
theorem masked_eq_iff_agreeOn {w n : ℕ} {mask : Bytes w} (hmask : ∀ j, bit mask j = decide (j < n))
    (a b : Bytes w) :
    (∀ i : Fin w, a.get i &&& mask.get i = b.get i &&& mask.get i) ↔ AgreeOn n a b := by
  rw [masked_eq_iff]
  refine forall_congr' fun j => ?_
  rw [hmask, decide_eq_true_eq]

end BitPrefix
