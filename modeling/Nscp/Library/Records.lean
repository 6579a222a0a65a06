import Nscp.Library.BigEndian

/-!
# Streams of self-describing records

A record is a two byte type, a two byte length that counts the four header bytes
as well, and a body.  A stream is read record by record; it is rejected when a
length is too small for its own header or points past the end.
-/

namespace Records

open List BigEndian

def record (type : ℕ) (body : List UInt8) : List UInt8 :=
  encode 2 type ++ (encode 2 (4 + body.length) ++ body)

def stream (records : List (ℕ × List UInt8)) : List UInt8 :=
  records.flatMap fun r => record r.1 r.2

def readFrom : ℕ → List UInt8 → Option (List (ℕ × List UInt8))
  | _, [] => some []
  | 0, _ :: _ => none
  | fuel + 1, b :: rest =>
    let bytes := b :: rest
    let type := decode (bytes.take 2)
    let length := decode ((bytes.drop 2).take 2)
    if bytes.length < 4 ∨ length < 4 ∨ bytes.length < length then none
    else (readFrom fuel (bytes.drop length)).map ((type, (bytes.take length).drop 4) :: ·)

def read (bytes : List UInt8) : Option (List (ℕ × List UInt8)) := readFrom bytes.length bytes

def Fits (r : ℕ × List UInt8) : Prop := r.1 < 256 ^ 2 ∧ 4 + r.2.length < 256 ^ 2

@[simp] theorem length_record (type : ℕ) (body : List UInt8) :
    (record type body).length = 4 + body.length := by
  simp only [record, length_append, length_encode]
  omega

@[simp] theorem stream_nil : stream [] = [] := rfl

@[simp] theorem stream_cons (r : ℕ × List UInt8) (records : List (ℕ × List UInt8)) :
    stream (r :: records) = record r.1 r.2 ++ stream records := rfl

@[simp] theorem stream_append (a b : List (ℕ × List UInt8)) :
    stream (a ++ b) = stream a ++ stream b := by
  simp [stream]

theorem record_append_fields (type : ℕ) (body rest : List UInt8) :
    (record type body ++ rest).take 2 = encode 2 type ∧
      ((record type body ++ rest).drop 2).take 2 = encode 2 (4 + body.length) ∧
      ((record type body ++ rest).take (4 + body.length)).drop 4 = body ∧
      (record type body ++ rest).drop (4 + body.length) = rest := by
  refine ⟨?_, ?_, ?_, ?_⟩
  · rw [record, append_assoc, take_left' (by simp)]
  · rw [record, append_assoc, drop_left' (by simp), append_assoc, take_left' (by simp)]
  · rw [take_left' (by simp), record, ← append_assoc, drop_left' (by simp)]
  · rw [drop_left' (by simp)]

theorem readFrom_record {r : ℕ × List UInt8} (hr : Fits r) (fuel : ℕ) (rest : List UInt8) :
    readFrom (fuel + 1) (record r.1 r.2 ++ rest) = (readFrom fuel rest).map (r :: ·) := by
  obtain ⟨htype, hlength⟩ := hr
  obtain ⟨hfirst, hsecond, hbody, hrest⟩ := record_append_fields r.1 r.2 rest
  have hlen : (record r.1 r.2 ++ rest).length = 4 + r.2.length + rest.length := by simp
  obtain ⟨b, bytes, hcons⟩ := exists_cons_of_length_pos
    (show 0 < (record r.1 r.2 ++ rest).length by omega)
  rw [hcons, readFrom]
  simp only [← hcons, hfirst, hsecond, decode_encode_of_lt htype,
    decode_encode_of_lt hlength, hbody, hrest]
  rw [if_neg (by omega)]

variable {records : List (ℕ × List UInt8)}

theorem readFrom_stream (hfits : ∀ r ∈ records, Fits r) {fuel : ℕ} (hfuel : records.length ≤ fuel) :
    readFrom fuel (stream records) = some records := by
  induction records generalizing fuel with
  | nil => cases fuel <;> rfl
  | cons r records ih =>
    obtain ⟨fuel, rfl⟩ : ∃ n, fuel = n + 1 := ⟨fuel - 1, by simp at hfuel; omega⟩
    have hrest := ih (fun r' hr' => hfits r' (mem_cons_of_mem r hr'))
      (Nat.le_of_succ_le_succ hfuel)
    rw [stream_cons, readFrom_record (hfits r mem_cons_self), hrest]
    rfl

theorem length_le_length_stream (records : List (ℕ × List UInt8)) :
    records.length ≤ (stream records).length := by
  induction records with
  | nil => simp
  | cons r records ih =>
    simp only [stream_cons, length_append, length_record, length_cons]
    omega

/-- Reading a stream gives back the records it was written from. -/
theorem read_stream (hfits : ∀ r ∈ records, Fits r) : read (stream records) = some records :=
  readFrom_stream hfits (length_le_length_stream records)

end Records
