import Nscp.Library.Records

/-!
# collectd datagrams

`collectd::packet` appends parts to a buffer of at most `max_packet_size` bytes:
string parts are cut to the identifier limit and to what is left of the datagram,
values parts are cut to the values that still fit, and the values left out are
counted.

The receiver is stated in its own terms: a datagram is a list of parts, an
identifier part stays in force until the next part of its kind, and every values
part reports its values under the identifiers in force.  Reading the bytes of
well-formed parts gives back those parts.
-/

namespace Nscp.Collectd

open BigEndian List

/-! ## Limits and codes -/

def maxPacketSize : ℕ := 1452
def maxStringLength : ℕ := 127
def stringPartOverhead : ℕ := 5
def valuesPartOverhead : ℕ := 6
def numberPartSize : ℕ := 12
def bytesPerValue : ℕ := 9

inductive PartType where
  | host
  | timeHr
  | plugin
  | pluginInstance
  | type
  | typeInstance
  | values
  | intervalHr
  deriving DecidableEq, Repr

def PartType.code : PartType → ℕ
  | .host => 0x0000
  | .timeHr => 0x0008
  | .plugin => 0x0002
  | .pluginInstance => 0x0003
  | .type => 0x0004
  | .typeInstance => 0x0005
  | .values => 0x0006
  | .intervalHr => 0x0009

theorem PartType.code_lt (part : PartType) : part.code < 256 ^ 2 := by
  cases part <;> decide

def valueGauge : UInt8 := 0x01
def valueDerive : UInt8 := 0x02

/-! ## Writing -/

structure Packet where
  buffer : List UInt8 := []
  clampedValues : ℕ := 0
  deriving DecidableEq, Repr

namespace Packet

def remaining (p : Packet) : ℕ :=
  if maxPacketSize ≤ p.buffer.length then 0 else maxPacketSize - p.buffer.length

def appendString (p : Packet) (part : PartType) (text : List UInt8) : Packet :=
  if p.remaining < stringPartOverhead then p
  else
    let dataLen := min text.length (min maxStringLength (p.remaining - stringPartOverhead))
    { p with
      buffer := p.buffer ++ (encode 2 part.code ++ (encode 2 (dataLen + stringPartOverhead) ++
          (text.take dataLen ++ [0]))) }

def appendInt (p : Packet) (part : PartType) (value : UInt64) : Packet :=
  { p with
    buffer := p.buffer ++ (encode 2 part.code ++ (encode 2 numberPartSize ++
        encode 8 value.toNat)) }

def appendValues {α : Type} (p : Packet) (valueType : UInt8) (appendValue : α → List UInt8)
    (values : List α) : Packet :=
  if p.remaining < valuesPartOverhead + bytesPerValue then
    { p with clampedValues := p.clampedValues + values.length }
  else
    let count := min values.length ((p.remaining - valuesPartOverhead) / bytesPerValue)
    let body := List.replicate count valueType ++ (values.take count).flatMap appendValue
    { buffer := p.buffer ++ (encode 2 PartType.values.code ++
          (encode 2 (valuesPartOverhead + body.length) ++ (encode 2 count ++ body)))
      clampedValues := p.clampedValues + (values.length - count) }

/-- A gauge is a double, given by its bits and written in little-endian order. -/
def gaugeBytes (bits : UInt64) : List UInt8 := (encode 8 bits.toNat).reverse

def deriveBytes (value : Int64) : List UInt8 := encode 8 value.toBitVec.toNat

section

variable (p : Packet) (text : List UInt8)

def addHost : Packet := p.appendString .host text
def addPlugin : Packet := p.appendString .plugin text
def addPluginInstance : Packet :=
  p.appendString .pluginInstance text
def addType : Packet := p.appendString .type text
def addTypeInstance : Packet := p.appendString .typeInstance text
def addGaugeValue (p : Packet) (values : List UInt64) : Packet :=
  p.appendValues valueGauge gaugeBytes values
def addDeriveValue (p : Packet) (values : List Int64) : Packet :=
  p.appendValues valueDerive deriveBytes values
def addTimeHr (p : Packet) (time : UInt64) : Packet := p.appendInt .timeHr time
def addIntervalHr (p : Packet) (time : UInt64) : Packet := p.appendInt .intervalHr time

end

end Packet

open Packet

/-! ## Parts and their meaning -/

inductive Identifier where
  | plugin
  | pluginInstance
  | type
  | typeInstance
  deriving DecidableEq, Repr

instance : Fintype Identifier where
  elems := {.plugin, .pluginInstance, .type, .typeInstance}
  complete id := by cases id <;> decide

def Identifier.partType : Identifier → PartType
  | .plugin => .plugin
  | .pluginInstance => .pluginInstance
  | .type => .type
  | .typeInstance => .typeInstance

abbrev Names := Identifier → List UInt8

inductive Value where
  | gauge (bits : UInt64)
  | derive (value : Int64)
  deriving DecidableEq, Repr

open Value

inductive Part where
  | host (text : List UInt8)
  | timeHr (value : UInt64)
  | intervalHr (value : UInt64)
  | name (id : Identifier) (text : List UInt8)
  | values (items : List Value)
  deriving DecidableEq, Repr

open Collectd.Part

/-- What a receiver has been told in the current datagram. -/
structure Context where
  host : List UInt8 := []
  timeHr : UInt64 := 0
  intervalHr : UInt64 := 0
  name : Names := fun _ => []
  deriving DecidableEq

structure ValueList where
  source : Context
  values : List Value
  deriving DecidableEq

namespace Context

def after (c : Context) : Part → Context
  | .host text => { c with host := text }
  | .timeHr value => { c with timeHr := value }
  | .intervalHr value => { c with intervalHr := value }
  | .name id text => { c with name := Function.update c.name id text }
  | .values _ => c

def reports (c : Context) : Part → List ValueList
  | .values items => [⟨c, items⟩]
  | _ => []

def afterAll (c : Context) (parts : List Part) : Context := parts.foldl after c

def receive : Context → List Part → List ValueList
  | _, [] => []
  | c, part :: parts => c.reports part ++ (c.after part).receive parts

variable (c : Context)

@[simp] theorem afterAll_nil : c.afterAll [] = c := rfl

@[simp] theorem afterAll_cons (part : Part) (parts : List Part) :
    c.afterAll (part :: parts) = (c.after part).afterAll parts := rfl

theorem afterAll_append (a b : List Part) : c.afterAll (a ++ b) = (c.afterAll a).afterAll b := by
  simp [afterAll]

theorem receive_append (a b : List Part) :
    c.receive (a ++ b) = c.receive a ++ (c.afterAll a).receive b := by
  induction a generalizing c with
  | nil => rfl
  | cons part a ih => simp [receive, ih, append_assoc]

end Context

/-! ## Parts as bytes -/

def Value.code : Value → UInt8
  | .gauge _ => valueGauge
  | .derive _ => valueDerive

def Value.bytes : Value → List UInt8
  | .gauge bits => gaugeBytes bits
  | .derive value => deriveBytes value

@[simp] theorem Value.length_bytes (v : Value) : v.bytes.length = 8 := by
  cases v <;> simp [bytes, gaugeBytes, deriveBytes]

variable (values : List Value) {part : Part}

theorem Value.length_flatMap_bytes : (values.flatMap bytes).length = 8 * values.length := by
  induction values with
  | nil => rfl
  | cons v values ih =>
    rw [flatMap_cons, length_append, ih, length_bytes, length_cons]
    omega

def Part.record : Part → ℕ × List UInt8
  | .host text => (PartType.host.code, text ++ [0])
  | .timeHr value => (PartType.timeHr.code, encode 8 value.toNat)
  | .intervalHr value => (PartType.intervalHr.code, encode 8 value.toNat)
  | .name id text => (id.partType.code, text ++ [0])
  | .values items =>
    (PartType.values.code, encode 2 items.length ++ (items.map code ++ items.flatMap bytes))

def bytesOf (parts : List Part) : List UInt8 := Records.stream (parts.map record)

@[simp] theorem bytesOf_nil : bytesOf [] = [] := rfl

theorem bytesOf_append (a b : List Part) : bytesOf (a ++ b) = bytesOf a ++ bytesOf b := by
  simp [bytesOf]

/-- Texts have no NUL byte and values parts stay far below the limit of their two
byte fields. -/
def Part.WellFormed : Part → Prop
  | .host text => 0 ∉ text ∧ text.length ≤ maxStringLength
  | .name _ text => 0 ∉ text ∧ text.length ≤ maxStringLength
  | .values items => items.length ≤ maxPacketSize
  | _ => True

/-! ## Reading -/

def readText (body : List UInt8) : Option (List UInt8) :=
  if body = body.takeWhile (· ≠ 0) ++ [0] then some (body.takeWhile (· ≠ 0)) else none

def readNumber (body : List UInt8) : Option UInt64 :=
  if body.length = 8 then some (UInt64.ofNat (decode body)) else none

def readValue (code : UInt8) (bytes : List UInt8) : Option Value :=
  if code = valueGauge then some (.gauge (UInt64.ofNat (decode bytes.reverse)))
  else if code = valueDerive then
    some (.derive (Int64.ofBitVec (BitVec.ofNat 64 (decode bytes))))
  else none

def readValues : List UInt8 → List UInt8 → Option (List Value)
  | [], bytes => if bytes = [] then some [] else none
  | code :: codes, bytes =>
    if bytes.length < 8 then none
    else
      (readValue code (bytes.take 8)).bind fun value =>
        (readValues codes (bytes.drop 8)).map (value :: ·)

def readPart (r : ℕ × List UInt8) : Option Part :=
  match r.1 with
  | 0x0000 => (readText r.2).map .host
  | 0x0002 => (readText r.2).map (.name .plugin)
  | 0x0003 => (readText r.2).map (.name .pluginInstance)
  | 0x0004 => (readText r.2).map (.name .type)
  | 0x0005 => (readText r.2).map (.name .typeInstance)
  | 0x0006 =>
    let count := decode (r.2.take 2)
    (readValues ((r.2.drop 2).take count) ((r.2.drop 2).drop count)).map .values
  | 0x0008 => (readNumber r.2).map .timeHr
  | 0x0009 => (readNumber r.2).map .intervalHr
  | _ => none

/-- The value lists a receiver takes from one datagram; `none` when the datagram
is malformed. -/
def decode (bytes : List UInt8) : Option (List ValueList) :=
  (Records.read bytes).bind fun records =>
    (records.mapM readPart).map (Context.receive {})

theorem readText_append {text : List UInt8} (h : 0 ∉ text) :
    readText (text ++ [0]) = some text := by
  have hall : ∀ b ∈ text, (decide (b ≠ 0)) = true := by
    intro b hb
    simpa using fun hzero : b = 0 => h (hzero ▸ hb)
  have htake : (text ++ [0]).takeWhile (· ≠ 0) = text := by
    rw [takeWhile_append_of_pos hall]
    simp
  rw [readText, htake, if_pos rfl]

theorem readNumber_encode (value : UInt64) :
    readNumber (encode 8 value.toNat) = some value := by
  have hlt : value.toNat < 256 ^ 8 := value.toNat_lt
  rw [readNumber, if_pos (by simp), decode_encode_of_lt hlt]
  simp

theorem readValue_bytes (v : Value) : readValue v.code v.bytes = some v := by
  cases v with
  | gauge bits =>
    have hlt : bits.toNat < 256 ^ 8 := bits.toNat_lt
    simp only [readValue, code, bytes, gaugeBytes, reverse_reverse,
      if_true, decode_encode_of_lt hlt]
    simp
  | derive value =>
    have hlt : value.toBitVec.toNat < 256 ^ 8 := value.toBitVec.isLt
    have hne : ¬ valueDerive = valueGauge := by decide
    simp only [readValue, code, bytes, deriveBytes, if_neg hne, if_true, decode_encode_of_lt hlt]
    simp

theorem readValues_bytes :
    readValues (values.map code) (values.flatMap bytes) = some values := by
  induction values with
  | nil => rfl
  | cons v values ih =>
    rw [map_cons, flatMap_cons, readValues, if_neg (by simp),
      take_left' v.length_bytes, drop_left' v.length_bytes, readValue_bytes, ih]
    rfl

theorem readPart_record (h : part.WellFormed) : readPart part.record = some part := by
  cases part with
  | host text => simp [readPart, record, PartType.code, readText_append h.1]
  | timeHr value => simp [readPart, record, PartType.code, readNumber_encode]
  | intervalHr value => simp [readPart, record, PartType.code, readNumber_encode]
  | name id text =>
    cases id <;>
      simp [readPart, record, PartType.code, Identifier.partType, readText_append h.1]
  | values items =>
    have hlt : items.length < 256 ^ 2 := lt_of_le_of_lt h (by decide)
    have hread := readValues_bytes items
    simp only [readPart, record, PartType.code]
    rw [take_left' (by simp), drop_left' (by simp), decode_encode_of_lt hlt, take_left' (by simp),
      drop_left' (by simp), hread]
    rfl

theorem Part.fits_record (h : part.WellFormed) : Records.Fits part.record := by
  cases part with
  | host text =>
    have hlen : text.length ≤ 127 := h.2
    exact ⟨PartType.code_lt .host, by simp [record]; omega⟩
  | timeHr value => exact ⟨PartType.code_lt .timeHr, by simp [record]⟩
  | intervalHr value => exact ⟨PartType.code_lt .intervalHr, by simp [record]⟩
  | name id text =>
    have hlen : text.length ≤ 127 := h.2
    exact ⟨PartType.code_lt id.partType, by simp [record]; omega⟩
  | values items =>
    have hlen : items.length ≤ 1452 := h
    refine ⟨PartType.code_lt .values, ?_⟩
    simp only [record, length_append, length_encode, length_map, length_flatMap_bytes]
    omega

/-- **A datagram of well-formed parts means those parts.** -/
theorem decode_bytesOf {parts : List Part} (h : ∀ part ∈ parts, part.WellFormed) :
    decode (bytesOf parts) = some (Context.receive {} parts) := by
  have hfits : ∀ r ∈ parts.map record, Records.Fits r := by
    intro r hr
    obtain ⟨part, hpart, rfl⟩ := mem_map.mp hr
    exact fits_record (h part hpart)
  have hread : (parts.map record).mapM readPart = some parts := by
    induction parts with
    | nil => rfl
    | cons part parts ih =>
      have hrest := ih (fun p hp => h p (mem_cons_of_mem part hp))
        (fun r hr => hfits r (mem_cons_of_mem _ hr))
      rw [map_cons, mapM_cons, readPart_record (h part mem_cons_self), hrest]
      rfl
  rw [decode, bytesOf, Records.read_stream hfits, Option.bind_some, hread]
  rfl

end Nscp.Collectd
