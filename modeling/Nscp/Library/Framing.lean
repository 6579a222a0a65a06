import Mathlib

/-!
# Packets in a stream

A decoder that looks at the front of a buffer answers with a packet and its length, asks for more,
or reports that the stream is malformed.  If it inverts an encoder packet by packet and only asks
for more while a packet is cut short, then a buffer that holds the beginning of a stream of packets
gives the next packet as soon as it is there.
-/

namespace Framing

open List

variable {α P E : Type}

inductive Decoded (P E : Type)
  | packet (p : P) (consumed : ℕ)
  | incomplete
  | malformed (e : E)
  deriving DecidableEq

/-- The decoder inverts the encoder, whatever follows a packet, and waits for whole packets. -/
structure Inverts (decode : List α → Decoded P E) {W : Type} (encode : W → List α)
    (packet : W → P) : Prop where
  whole : ∀ w rest, decode (encode w ++ rest) = .packet (packet w) (encode w).length
  short : ∀ w front, front <+: encode w → front ≠ encode w → decode front = .incomplete
  empty : decode [] = .incomplete

variable {decode : List α → Decoded P E} {W : Type} {encode : W → List α} {packet : W → P}
  {ws : List W}

/-- The front of a stream is the next packet with what follows it, or too short for it. -/
theorem Inverts.decode_front (h : Inverts decode encode packet) {buffer later : List α}
    (hstream : buffer ++ later = ws.flatMap encode) :
    (∃ w rest ws', ws = w :: ws' ∧ buffer = encode w ++ rest ∧ rest ++ later = ws'.flatMap encode ∧
        decode buffer = .packet (packet w) (encode w).length) ∨
      decode buffer = .incomplete := by
  cases ws with
  | nil =>
    obtain ⟨rfl, -⟩ := append_eq_nil_iff.mp hstream
    exact .inr h.empty
  | cons w ws =>
    rw [flatMap_cons] at hstream
    rcases prefix_or_prefix_of_prefix ⟨later, hstream⟩
        (prefix_append (encode w) (ws.flatMap encode)) with hshort | ⟨rest, rfl⟩
    · by_cases heq : buffer = encode w
      · subst heq
        have hwhole := h.whole w []
        rw [append_nil] at hwhole
        exact .inl ⟨w, [], ws, rfl, (append_nil _).symm, append_cancel_left hstream, hwhole⟩
      · exact .inr (h.short w buffer hshort heq)
    · rw [append_assoc] at hstream
      exact .inl ⟨w, rest, ws, rfl, rfl, append_cancel_left hstream, h.whole w rest⟩

/-- A whole stream in the buffer is not too short. -/
theorem Inverts.eq_nil_of_incomplete (h : Inverts decode encode packet)
    (hdecode : decode (ws.flatMap encode) = .incomplete) : ws = [] := by
  cases ws with
  | nil => rfl
  | cons w ws =>
    rw [flatMap_cons, h.whole] at hdecode
    cases hdecode

end Framing
