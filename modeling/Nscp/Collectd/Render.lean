import Nscp.Collectd.Packet

/-!
# Rendering metrics into datagrams

`collectd_builder::render` writes a list of metrics into datagrams.  Within a
datagram an identifier is written only when it differs from the one in force, and
a metric that would not fit what is left of a datagram starts a new one, so that
the clamps of the packet bite only on a metric too large for a datagram of its
own.  The main result is that a receiver gets exactly the metrics, with all their
values unless a metric is that large.
-/

namespace Nscp.Collectd

open Nat Function BigEndian Context Records Packet List

structure MetricContainer where
  pluginName : List UInt8
  pluginInstance : Option (List UInt8)
  typeName : List UInt8
  typeInstance : Option (List UInt8)
  gauges : List UInt64
  derives : List Int64
  deriving DecidableEq, Repr

open MetricContainer

/-- What `render` reads of the builder. -/
structure Builder where
  host : List UInt8
  timeHr : UInt64
  intervalHr : UInt64
  renderedMetrics : List MetricContainer
  deriving DecidableEq, Repr

open Builder

/-! ## Sizes -/

def stringPartSize (value : List UInt8) : ℕ :=
  stringPartOverhead + min value.length maxStringLength

def nameSize (last name : List UInt8) : ℕ := if name ≠ last then stringPartSize name else 0

def instanceSize (last : List UInt8) : Option (List UInt8) → ℕ
  | some value => if last ≠ value then stringPartSize value else 0
  | none => if last ≠ [] then stringPartSize [] else 0

def valuesSize (count : ℕ) : ℕ :=
  if count = 0 then 0 else valuesPartOverhead + bytesPerValue * count

def MetricContainer.identitySize (m : MetricContainer) (last : Names) : ℕ :=
  nameSize (last .plugin) m.pluginName + instanceSize (last .pluginInstance) m.pluginInstance +
    nameSize (last .type) m.typeName + instanceSize (last .typeInstance) m.typeInstance

def Builder.metricSize (b : Builder) (last : Names) (m : MetricContainer) (fresh : Bool) : ℕ :=
  (if fresh then stringPartSize b.host + 2 * numberPartSize else 0) +
    m.identitySize (if fresh then fun _ => [] else last) +
    valuesSize m.gauges.length + valuesSize m.derives.length

/-! ## The loop -/

structure RenderState where
  isNew : Bool := true
  packet : Packet := {}
  last : Names := fun _ => []
  packets : List Packet := []

def Packet.addName (p : Packet) : Identifier → List UInt8 → Packet
  | .plugin => p.addPlugin
  | .pluginInstance => p.addPluginInstance
  | .type => p.addType
  | .typeInstance => p.addTypeInstance

namespace RenderState

def flush (s : RenderState) : RenderState :=
  { s with packets := s.packets ++ [s.packet], packet := {}, isNew := true }

def start (b : Builder) (s : RenderState) : RenderState :=
  { s with
    last := fun _ => []
    packet := ((s.packet.addHost b.host).addTimeHr b.timeHr).addIntervalHr b.intervalHr
    isNew := false }

section

variable (s : RenderState) (id : Identifier)

def write (text : List UInt8) : RenderState :=
  { s with packet := s.packet.addName id text, last := update s.last id text }

def renderName (name : List UInt8) : RenderState :=
  if name ≠ s.last id then s.write id name else s

def renderInstance :
    Option (List UInt8) → RenderState
  | some value => if s.last id ≠ value then s.write id value else s
  | none => if s.last id ≠ [] then s.write id [] else s

end

def renderIdentity (s : RenderState) (m : MetricContainer) : RenderState :=
  (((s.renderName .plugin m.pluginName).renderInstance .pluginInstance m.pluginInstance).renderName
    .type m.typeName).renderInstance .typeInstance m.typeInstance

def renderValues {α : Type} (s : RenderState) (add : Packet → List α → Packet)
    (values : List α) : RenderState :=
  if values.isEmpty then s else { s with packet := add s.packet values }

section

variable (b : Builder) (s : RenderState) (m : MetricContainer)

def overflows : Bool :=
  !s.isNew && decide (s.packet.remaining < b.metricSize s.last m false)

def datagramFor : RenderState :=
  let flushed := if s.overflows b m then s.flush else s
  if flushed.isNew then flushed.start b else flushed

def renderMetric : RenderState :=
  (((s.datagramFor b m).renderIdentity m).renderValues addGaugeValue m.gauges).renderValues
    addDeriveValue m.derives

end

end RenderState

open RenderState

def Builder.render (b : Builder) : List Packet :=
  let s := b.renderedMetrics.foldl (renderMetric b) {}
  if 0 < s.packet.buffer.length then s.packets ++ [s.packet] else s.packets

/-! ## What the appends write -/

variable (p : Packet) {text : List UInt8}

theorem Packet.remaining_eq : p.remaining = maxPacketSize - p.buffer.length := by
  rw [remaining]
  split <;> omega

def truncate (text : List UInt8) : List UInt8 := text.take maxStringLength

theorem length_truncate (text : List UInt8) :
    (truncate text).length = min text.length maxStringLength := by
  rw [truncate, length_take, min_comm]

theorem not_mem_truncate (h : 0 ∉ text) : 0 ∉ truncate text :=
  fun hmem => h (mem_of_mem_take hmem)

theorem length_truncate_le (text : List UInt8) : (truncate text).length ≤ maxStringLength := by
  rw [length_truncate]
  exact min_le_right _ _

theorem Packet.appendString_eq (part : PartType) (h : stringPartSize text ≤ p.remaining) :
    p.appendString part text =
      { p with buffer := p.buffer ++ record part.code (truncate text ++ [0]) } := by
  rw [stringPartSize] at h
  have hlen : min text.length (min maxStringLength (p.remaining - stringPartOverhead)) =
      min text.length maxStringLength := by
    omega
  have htake : text.take (min text.length maxStringLength) = truncate text := by
    rw [truncate, min_comm, ← take_take, take_length]
  have hfield : min text.length maxStringLength + stringPartOverhead =
      4 + (truncate text ++ [0]).length := by
    rw [length_append, length_truncate, stringPartOverhead, length_singleton]
    omega
  rw [appendString, if_neg (by omega), hlen]
  simp only [htake, hfield]
  rfl

theorem length_stringRecord (code : ℕ) (text : List UInt8) :
    (record code (truncate text ++ [0])).length = stringPartSize text := by
  rw [length_record, length_append, length_truncate, stringPartSize,
    stringPartOverhead, length_singleton]
  omega

theorem Packet.appendInt_eq (part : PartType) (value : UInt64) :
    p.appendInt part value =
      { p with buffer := p.buffer ++ record part.code (encode 8 value.toNat) } := by
  rw [appendInt, record, length_encode, numberPartSize]

theorem Packet.addName_eq (id : Identifier) (text : List UInt8) :
    p.addName id text = p.appendString id.partType text := by
  cases id <;> rfl

def fit {α : Type} (budget : ℕ) (values : List α) : List α :=
  if budget < valuesPartOverhead + bytesPerValue then []
  else values.take ((budget - valuesPartOverhead) / bytesPerValue)

def valuesPart (items : List Value) : List Part := if items.isEmpty then [] else [.values items]

variable {α : Type} (budget : ℕ) (values : List α) {bytes : α → List UInt8} {code : UInt8}

theorem length_fit_le : (fit budget values).length ≤ values.length := by
  rw [fit]
  split
  · simp
  · simp [length_take]

theorem fit_prefix : fit budget values <+: values := by
  rw [fit]
  split
  · exact nil_prefix
  · exact take_prefix _ _

theorem valuesSize_fit_le : valuesSize (fit budget values).length ≤ budget := by
  rw [fit, valuesPartOverhead, bytesPerValue]
  split
  · simp [valuesSize]
  · rw [valuesSize, length_take, valuesPartOverhead, bytesPerValue]
    split <;> omega

theorem fit_eq_self {budget : ℕ} {values : List α} (h : valuesSize values.length ≤ budget) :
    fit budget values = values := by
  cases values with
  | nil => simp [fit]
  | cons v values =>
    simp only [valuesSize, length_cons, valuesPartOverhead, bytesPerValue] at h
    rw [if_neg (by omega)] at h
    rw [fit, valuesPartOverhead, bytesPerValue, if_neg (by omega), take_of_length_le]
    rw [length_cons]
    omega

theorem length_valuesPart (items : List Value) :
    (bytesOf (valuesPart items)).length = valuesSize items.length := by
  cases items with
  | nil => rfl
  | cons v items =>
    simp only [valuesPart, isEmpty_cons, Bool.false_eq_true, if_false, bytesOf, map_cons,
      map_nil, stream_cons, stream_nil, append_nil, length_record,
      Part.record, length_append, length_encode, length_map,
      Value.length_flatMap_bytes, valuesSize, length_cons, valuesPartOverhead, bytesPerValue]
    rw [if_neg (by omega)]
    omega

theorem Packet.appendValues_eq (wrap : α → Value) (hcode : ∀ v, (wrap v).code = code)
    (hbytes : ∀ v, (wrap v).bytes = bytes v) {values : List α} (hvalues : values ≠ []) :
    p.appendValues code bytes values =
      { buffer := p.buffer ++ bytesOf (valuesPart ((fit p.remaining values).map wrap))
        clampedValues := p.clampedValues + (values.length - (fit p.remaining values).length) } := by
  rw [appendValues, fit]
  by_cases hroom : p.remaining < valuesPartOverhead + bytesPerValue
  · rw [if_pos hroom, if_pos hroom]
    simp [valuesPart]
  rw [if_neg hroom, if_neg hroom]
  set room := (p.remaining - valuesPartOverhead) / bytesPerValue with hset
  have hpos : 0 < room := by
    rw [valuesPartOverhead, bytesPerValue] at hroom hset
    omega
  have htake : values.take (min values.length room) = values.take room := by
    rw [min_comm, ← take_take, take_length]
  have hlen : (values.take room).length = min values.length room := by
    rw [length_take, min_comm]
  have hitems : ((values.take room).map wrap).isEmpty = false := by
    cases values with
    | nil => exact absurd rfl hvalues
    | cons v values =>
      obtain ⟨n, hn⟩ : ∃ n, room = n + 1 := ⟨room - 1, by omega⟩
      rw [hn]
      rfl
  have hcodes : ((values.take room).map wrap).map Value.code =
      List.replicate (min values.length room) code := by
    rw [← hlen, map_map, eq_replicate_iff]
    refine ⟨by simp, ?_⟩
    intro c hc
    obtain ⟨v, -, rfl⟩ := mem_map.mp hc
    exact hcode v
  have hbody : ((values.take room).map wrap).flatMap Value.bytes =
      (values.take room).flatMap bytes := by
    simp only [flatMap_map, hbytes]
  have hlength : valuesPartOverhead +
      (List.replicate (min values.length room) code ++ (values.take room).flatMap bytes).length =
      4 + (encode 2 (min values.length room) ++
        (List.replicate (min values.length room) code ++
          (values.take room).flatMap bytes)).length := by
    simp only [length_append, length_encode, valuesPartOverhead]
    omega
  simp only [htake, valuesPart, hitems, Bool.false_eq_true, if_false, bytesOf, map_cons,
    map_nil, stream_cons, stream_nil, append_nil, Part.record, hcodes,
    hbody, record, length_map, hlen, hlength]

/-! ## What a datagram carries -/

def MetricContainer.names (m : MetricContainer) : Names
  | .plugin => m.pluginName
  | .pluginInstance => m.pluginInstance.getD []
  | .type => m.typeName
  | .typeInstance => m.typeInstance.getD []

def Builder.context (b : Builder) (names : Names) : Context :=
  ⟨truncate b.host, b.timeHr, b.intervalHr, fun id => truncate (names id)⟩

def reportsOf (c : Context) (items : List Value) : List ValueList :=
  if items.isEmpty then [] else [⟨c, items⟩]

/-- The value lists that stand for a metric: its gauges and its derives, as far as
there are any. -/
def Builder.valueLists (b : Builder) (m : MetricContainer) : List ValueList :=
  reportsOf (b.context m.names) (m.gauges.map .gauge) ++
    reportsOf (b.context m.names) (m.derives.map .derive)

theorem receive_valuesPart (c : Context) (items : List Value) :
    c.receive (valuesPart items) = reportsOf c items := by
  cases items <;> rfl

theorem afterAll_valuesPart (c : Context) (items : List Value) :
    c.afterAll (valuesPart items) = c := by
  cases items <;> rfl

/-- A started datagram whose parts report `lists` and leave the identifiers in
force that the loop remembers. -/
structure Carries (b : Builder) (s : RenderState) (lists : List ValueList) : Prop where
  started : s.isNew = false
  nonempty : 0 < s.packet.buffer.length
  bounded : s.packet.buffer.length ≤ maxPacketSize
  parts : ∃ parts, s.packet.buffer = bytesOf parts ∧ (∀ part ∈ parts, part.WellFormed) ∧
    afterAll {} parts = b.context s.last ∧ receive {} parts = lists

section Steps

variable {b : Builder} {s : RenderState} {lists : List ValueList}
  {metrics kept done : List MetricContainer} {m : MetricContainer}

theorem Carries.decode (h : Carries b s lists) : decode s.packet.buffer = some lists := by
  obtain ⟨parts, hbuffer, hwf, -, hlists⟩ := h.parts
  rw [hbuffer, decode_bytesOf hwf, hlists]

theorem Carries.extend (h : Carries b s lists) (s' : RenderState) (more : List Part)
    (hmore : ∀ part ∈ more, part.WellFormed) (hnew : s'.isNew = s.isNew)
    (hbuffer : s'.packet.buffer = s.packet.buffer ++ bytesOf more)
    (hsize : (bytesOf more).length ≤ s.packet.remaining)
    (hcontext : (b.context s.last).afterAll more = b.context s'.last) :
    Carries b s' (lists ++ (b.context s.last).receive more) ∧
      s'.packet.remaining = s.packet.remaining - (bytesOf more).length := by
  obtain ⟨parts, hparts, hwf, hafter, hlists⟩ := h.parts
  have hbounded := h.bounded
  rw [remaining_eq] at hsize
  have hnonempty := h.nonempty
  refine ⟨⟨hnew.trans h.started, ?_, ?_, parts ++ more, ?_, ?_, ?_, ?_⟩, ?_⟩
  · rw [hbuffer, length_append]
    omega
  · rw [hbuffer, length_append]
    omega
  · rw [hbuffer, hparts, bytesOf_append]
  · intro part hpart
    rcases mem_append.mp hpart with hpart | hpart
    · exact hwf part hpart
    · exact hmore part hpart
  · rw [afterAll_append, hafter, hcontext]
  · rw [receive_append, hlists, hafter]
  · rw [remaining_eq, remaining_eq, hbuffer, length_append]
    omega

theorem Builder.context_update (names : Names) (id : Identifier) (name : List UInt8) :
    (b.context names).after (.name id (truncate name)) = b.context (update names id name) := by
  simp only [Context.after, context, Context.mk.injEq, true_and]
  funext other
  by_cases hother : other = id
  · subst hother
    simp
  · simp [hother]

structure Writes (b : Builder) (s s' : RenderState) (lists : List ValueList) (size dropped : ℕ) :
    Prop where
  carries : Carries b s' lists
  remaining : s'.packet.remaining = s.packet.remaining - size
  clamped : s'.packet.clampedValues = s.packet.clampedValues + dropped
  packets : s'.packets = s.packets

theorem Writes.trans {s' s'' : RenderState} {lists' : List ValueList} {n n' d d' : ℕ}
    (h : Writes b s s' lists n d) (h' : Writes b s' s'' lists' n' d') :
    Writes b s s'' lists' (n + n') (d + d') :=
  ⟨h'.carries, by rw [h'.remaining, h.remaining, Nat.sub_sub],
    by rw [h'.clamped, h.clamped, Nat.add_assoc], h'.packets.trans h.packets⟩

theorem renderName_writes (h : Carries b s lists) (id : Identifier) {name : List UInt8}
    (hname : 0 ∉ name) (hsize : nameSize (s.last id) name ≤ s.packet.remaining) :
    Writes b s (s.renderName id name) lists (nameSize (s.last id) name) 0 ∧
      (s.renderName id name).last = update s.last id name := by
  rw [renderName]
  by_cases hsame : name ≠ s.last id
  · have hname_size : nameSize (s.last id) name = stringPartSize name := if_pos hsame
    rw [hname_size] at hsize ⊢
    rw [if_pos hsame]
    have hwrite : (s.write id name).packet = { s.packet with
        buffer := s.packet.buffer ++ bytesOf [.name id (truncate name)] } := by
      rw [write, addName_eq, appendString_eq _ _ hsize]
      simp [bytesOf, Part.record]
    have hlength : (bytesOf [.name id (truncate name)]).length = stringPartSize name := by
      simpa [bytesOf, Part.record] using length_stringRecord id.partType.code name
    obtain ⟨hcarries, hremaining⟩ := h.extend (s.write id name)
      [.name id (truncate name)]
      (by simpa [Part.WellFormed] using ⟨not_mem_truncate hname, length_truncate_le name⟩) rfl
      (by rw [hwrite]) (by rw [hlength]; exact hsize) (context_update _ _ _)
    refine ⟨⟨?_, ?_, by rw [hwrite]; rfl, rfl⟩, rfl⟩
    · simpa [receive, reports] using hcarries
    · rw [hremaining, hlength]
  · have hname_size : nameSize (s.last id) name = 0 := if_neg hsame
    rw [hname_size, if_neg hsame]
    rw [not_not] at hsame
    exact ⟨⟨h, rfl, rfl, rfl⟩, by rw [hsame, update_eq_self]⟩

def RenderState.renderNames (s : RenderState) (names : Names) (ids : List Identifier) :
    RenderState :=
  ids.foldl (fun s id => s.renderName id (names id)) s

def namesSize (last names : Names) (ids : List Identifier) : ℕ :=
  (ids.map fun id => nameSize (last id) (names id)).sum

theorem renderNames_writes {names : Names} (hnames : ∀ id, 0 ∉ names id)
    {ids : List Identifier} (hids : ids.Nodup) (h : Carries b s lists)
    (hsize : namesSize s.last names ids ≤ s.packet.remaining) :
    Writes b s (s.renderNames names ids) lists (namesSize s.last names ids) 0 ∧
      ∀ id, (s.renderNames names ids).last id = if id ∈ ids then names id else s.last id := by
  induction ids generalizing s with
  | nil => exact ⟨⟨h, rfl, rfl, rfl⟩, by simp [renderNames]⟩
  | cons id ids ih =>
    obtain ⟨hid, hids⟩ := nodup_cons.mp hids
    rw [namesSize, map_cons, sum_cons] at hsize
    obtain ⟨hname, hlast⟩ := renderName_writes h id (hnames id) (by omega)
    -- the other identifiers are not touched, so their sizes are still the same
    have hrest : namesSize (s.renderName id (names id)).last names ids =
        namesSize s.last names ids := by
      rw [namesSize, namesSize, hlast]
      congr 1
      apply map_congr_left
      intro other hother
      have hne : other ≠ id := by
        rintro rfl
        exact hid hother
      rw [update_of_ne hne]
    obtain ⟨hothers, hlast'⟩ :=
      ih hids hname.carries (by rw [hrest, hname.remaining, namesSize]; omega)
    rw [hrest] at hothers
    refine ⟨hname.trans hothers, ?_⟩
    · intro other
      change ((s.renderName id (names id)).renderNames names ids).last other = _
      rw [hlast', hlast]
      by_cases hother : other = id
      · subst hother
        simp [hid]
      · simp [hother]

theorem renderValues_writes (h : Carries b s lists) (add : Packet → List α → Packet)
    (wrap : α → Value) (hcode : ∀ v, (wrap v).code = code)
    (hbytes : ∀ v, (wrap v).bytes = bytes v)
    (hadd : ∀ p values, add p values = p.appendValues code bytes values) (values : List α) :
    Writes b s (s.renderValues add values)
        (lists ++ reportsOf (b.context s.last) ((fit s.packet.remaining values).map wrap))
        (valuesSize (fit s.packet.remaining values).length)
        (values.length - (fit s.packet.remaining values).length) ∧
      (s.renderValues add values).last = s.last := by
  rw [renderValues]
  cases values with
  | nil =>
    have hfit : fit s.packet.remaining ([] : List α) = [] := fit_eq_self (by simp [valuesSize])
    rw [hfit]
    exact ⟨⟨by simpa [reportsOf] using h, rfl, rfl, rfl⟩, rfl⟩
  | cons v values =>
    have hfit := valuesSize_fit_le s.packet.remaining (v :: values)
    set kept := fit s.packet.remaining (v :: values) with hkept
    have hpacket : add s.packet (v :: values) = _ :=
      (hadd s.packet (v :: values)).trans
        (appendValues_eq s.packet wrap hcode hbytes (cons_ne_nil v values))
    rw [← hkept] at hpacket
    have hlength : (bytesOf (valuesPart (kept.map wrap))).length = valuesSize kept.length := by
      rw [length_valuesPart, length_map]
    have hmore : ∀ part ∈ valuesPart (kept.map wrap), part.WellFormed := by
      intro part hpart
      rw [valuesPart] at hpart
      split at hpart
      · cases hpart
      · rw [mem_singleton] at hpart
        subst hpart
        have hroom := s.packet.remaining_eq
        rw [valuesSize, valuesPartOverhead, bytesPerValue] at hfit
        simp only [Part.WellFormed, length_map]
        split at hfit <;> omega
    obtain ⟨hcarries, hremaining⟩ := h.extend
      { s with packet := add s.packet (v :: values) } _ hmore rfl (by rw [hpacket])
      (by rw [hlength]; exact hfit) (afterAll_valuesPart _ _)
    rw [receive_valuesPart] at hcarries
    rw [hlength] at hremaining
    exact ⟨⟨hcarries, hremaining, by simp [hpacket], rfl⟩, rfl⟩

/-! ## One metric -/

def allIdentifiers : List Identifier := [.plugin, .pluginInstance, .type, .typeInstance]

theorem renderInstance_eq (id : Identifier) (name : Option (List UInt8)) :
    s.renderInstance id name = s.renderName id (name.getD []) := by
  cases name with
  | none | some value => exact if_congr ne_comm rfl rfl

theorem renderIdentity_eq (m : MetricContainer) :
    s.renderIdentity m = s.renderNames m.names allIdentifiers := by
  simp only [renderIdentity, renderInstance_eq]
  rfl

theorem instanceSize_eq (last : List UInt8) (name : Option (List UInt8)) :
    instanceSize last name = nameSize last (name.getD []) := by
  cases name with
  | none | some value => exact if_congr ne_comm rfl rfl

theorem identitySize_eq (last : Names) (m : MetricContainer) :
    m.identitySize last = namesSize last m.names allIdentifiers := by
  simp [identitySize, namesSize, allIdentifiers, instanceSize_eq, names]
  omega

theorem stringPartSize_le (text : List UInt8) : stringPartSize text ≤ 132 := by
  rw [stringPartSize, stringPartOverhead, maxStringLength]
  omega

theorem identitySize_le (last : Names) (m : MetricContainer) : m.identitySize last ≤ 528 := by
  have hname : ∀ a c : List UInt8, nameSize a c ≤ 132 := by
    intro a c
    rw [nameSize]
    split
    · exact stringPartSize_le c
    · omega
  rw [identitySize, instanceSize_eq, instanceSize_eq]
  have h₁ := hname (last .plugin) m.pluginName
  have h₂ := hname (last .pluginInstance) (m.pluginInstance.getD [])
  have h₃ := hname (last .type) m.typeName
  have h₄ := hname (last .typeInstance) (m.typeInstance.getD [])
  omega

def MetricContainer.valueCount (m : MetricContainer) : ℕ := m.gauges.length + m.derives.length

def MetricContainer.valuesSize (m : MetricContainer) : ℕ :=
  Collectd.valuesSize m.gauges.length + Collectd.valuesSize m.derives.length

def Builder.fitsAlone (b : Builder) (m : MetricContainer) : Prop :=
  b.metricSize (fun _ => []) m true ≤ maxPacketSize

/-- `k` is what is left of `m`: the same identity, the first of its values, and
all of them if it fits a datagram of its own. -/
structure Kept (b : Builder) (m k : MetricContainer) : Prop where
  names_eq : k.names = m.names
  gauges : k.gauges <+: m.gauges
  derives : k.derives <+: m.derives
  eq_of_fitsAlone : b.fitsAlone m → k = m

/-- The datagram has room for the identifiers of the metric, and for its values as
well if the metric fits a datagram of its own. -/
structure HasRoom (b : Builder) (s : RenderState) (m : MetricContainer) : Prop where
  identity : m.identitySize s.last ≤ s.packet.remaining
  values : b.fitsAlone m → m.identitySize s.last + m.valuesSize ≤ s.packet.remaining

def RenderState.renderBody (s : RenderState) (m : MetricContainer) : RenderState :=
  ((s.renderIdentity m).renderValues addGaugeValue m.gauges).renderValues
    addDeriveValue m.derives

theorem renderBody_carries (hm : ∀ id, 0 ∉ m.names id) (h : Carries b s lists)
    (hroom : HasRoom b s m) :
    ∃ k, Kept b m k ∧ Carries b (s.renderBody m) (lists ++ b.valueLists k) ∧
      (s.renderBody m).packet.clampedValues + k.valueCount = s.packet.clampedValues + m.valueCount ∧
      (s.renderBody m).packets = s.packets := by
  have hsize := hroom.identity
  rw [identitySize_eq] at hsize
  obtain ⟨hidentity, hlast⟩ := renderNames_writes hm (by decide : allIdentifiers.Nodup) h hsize
  rw [← renderIdentity_eq] at hidentity hlast
  have hnames : (s.renderIdentity m).last = m.names := by
    funext id
    rw [hlast, if_pos (by cases id <;> decide)]
  set s₁ := s.renderIdentity m with hs₁
  obtain ⟨hgauge, hlast₂⟩ :=
    renderValues_writes hidentity.carries addGaugeValue Value.gauge (fun _ => rfl) (fun _ => rfl)
      (fun _ _ => rfl) m.gauges
  set s₂ := s₁.renderValues addGaugeValue m.gauges with hs₂
  obtain ⟨hderive, -⟩ :=
    renderValues_writes hgauge.carries addDeriveValue Value.derive (fun _ => rfl) (fun _ => rfl)
      (fun _ _ => rfl) m.derives
  obtain ⟨hcarries, -, hclamped, hpackets⟩ := (hidentity.trans hgauge).trans hderive
  have hgauges := length_fit_le s₁.packet.remaining m.gauges
  have hderives := length_fit_le s₂.packet.remaining m.derives
  refine ⟨{ m with
      gauges := fit s₁.packet.remaining m.gauges
      derives := fit s₂.packet.remaining m.derives }, ⟨rfl, ?_, ?_, ?_⟩, ?_, ?_, ?_⟩
  · exact fit_prefix _ _
  · exact fit_prefix _ _
  · intro hfits
    have hvalues := hroom.values hfits
    rw [identitySize_eq, MetricContainer.valuesSize] at hvalues
    have hremaining := hidentity.remaining
    have hremaining₂ := hgauge.remaining
    have hall : fit s₁.packet.remaining m.gauges = m.gauges := fit_eq_self (by omega)
    rw [hall] at hremaining₂ ⊢
    have hall' : fit s₂.packet.remaining m.derives = m.derives := fit_eq_self (by omega)
    rw [hall']
  · rwa [append_assoc, hlast₂, hnames] at hcarries
  · change _ + ((fit s₁.packet.remaining m.gauges).length +
      (fit s₂.packet.remaining m.derives).length) = _
    rw [renderBody, hclamped, valueCount]
    omega
  · exact hpackets

/-! ## Choosing the datagram -/

theorem start_carries (hhost : 0 ∉ b.host) (hpacket : s.packet = {}) :
    Carries b (s.start b) [] ∧ (s.start b).packet.remaining =
        maxPacketSize - (stringPartSize b.host + 2 * numberPartSize) ∧
      (s.start b).packet.clampedValues = 0 ∧ (s.start b).packets = s.packets := by
  have hsize := stringPartSize_le b.host
  have hbuffer : (s.start b).packet = { buffer := bytesOf [.host (truncate b.host),
      .timeHr b.timeHr, .intervalHr b.intervalHr] } := by
    rw [start, hpacket, addHost, appendString_eq _ _
      (hsize.trans (by decide)), addTimeHr, appendInt_eq, addIntervalHr,
      appendInt_eq]
    simp [bytesOf, Part.record, append_assoc]
  have hlength : (s.start b).packet.buffer.length = stringPartSize b.host + 2 * numberPartSize := by
    have hrecord := length_stringRecord PartType.host.code b.host
    rw [hbuffer, numberPartSize]
    simp [bytesOf, Part.record, stream_cons, stream_nil, hrecord, length_record, length_encode]
  refine ⟨⟨rfl, ?_, ?_, ?_⟩, ?_, ?_, rfl⟩
  · rw [hlength, numberPartSize]
    omega
  · rw [hlength, maxPacketSize, numberPartSize]
    omega
  · refine ⟨[.host (truncate b.host), .timeHr b.timeHr, .intervalHr b.intervalHr], ?_, ?_, ?_, rfl⟩
    · rw [hbuffer]
    · have hwf : (Part.host (truncate b.host)).WellFormed :=
        ⟨not_mem_truncate hhost, length_truncate_le _⟩
      simp only [mem_cons, not_mem_nil, or_false]
      rintro part (rfl | rfl | rfl)
      · exact hwf
      · trivial
      · trivial
    · simp [Context.after, context, start, truncate]
  · rw [remaining_eq, hlength]
  · rw [hbuffer]

theorem start_hasRoom (hhost : 0 ∉ b.host) (hpacket : s.packet = {}) (m : MetricContainer) :
    HasRoom b (s.start b) m := by
  obtain ⟨-, hremaining, -, -⟩ := start_carries hhost hpacket
  have hidentity := identitySize_le (s.start b).last m
  have hsize := stringPartSize_le b.host
  refine ⟨?_, fun hfits => ?_⟩
  · rw [hremaining, maxPacketSize, numberPartSize]
    omega
  · have hlast : (s.start b).last = fun _ => [] := rfl
    rw [fitsAlone, metricSize] at hfits
    rw [hremaining, hlast, MetricContainer.valuesSize]
    simp only [if_true] at hfits
    omega

theorem hasRoom_of_not_overflows (hstarted : s.isNew = false) (h : s.overflows b m = false) :
    HasRoom b s m := by
  rw [overflows, hstarted] at h
  simp only [Bool.not_false, Bool.true_and, decide_eq_false_iff_not, not_lt,
    metricSize, Bool.false_eq_true, if_false, zero_add] at h
  refine ⟨by omega, fun _ => ?_⟩
  rw [MetricContainer.valuesSize]
  omega

/-! ## A whole run -/

/-- What a receiver takes from a sequence of datagrams. -/
def decodeAll (packets : List Packet) : Option (List ValueList) :=
  (packets.mapM fun p => decode p.buffer).map List.flatten

theorem decodeAll_concat {packets : List Packet} {p : Packet} {a c : List ValueList}
    (hpackets : decodeAll packets = some a) (hp : decode p.buffer = some c) :
    decodeAll (packets ++ [p]) = some (a ++ c) := by
  rw [decodeAll, Option.map_eq_some_iff] at hpackets
  obtain ⟨lists, hlists, rfl⟩ := hpackets
  simp [decodeAll, mapM_append, hlists, hp]

structure Rendered (b : Builder) (metrics kept : List MetricContainer) (s : RenderState) :
    Prop where
  kept_of : List.Forall₂ (Kept b) metrics kept
  bounded : ∀ p ∈ s.packets, p.buffer.length ≤ maxPacketSize
  counted : (s.packets.map clampedValues).sum + s.packet.clampedValues +
    (kept.map valueCount).sum = (metrics.map valueCount).sum
  received : ∃ flushed lists, decodeAll s.packets = some flushed ∧
    flushed ++ lists = kept.flatMap b.valueLists ∧
    ((s.isNew = true ∧ s.packet = {} ∧ lists = []) ∨ Carries b s lists)

theorem Rendered.initial : Rendered b [] [] {} :=
  ⟨.nil, by simp, rfl, [], [], rfl, rfl, .inl ⟨rfl, rfl, rfl⟩⟩

theorem Rendered.flush (h : Rendered b metrics kept s) (hstarted : s.isNew = false) :
    Rendered b metrics kept s.flush := by
  obtain ⟨flushed, lists, hflushed, hlists, ⟨hnew, -⟩ | hcarries⟩ := h.received
  · rw [hstarted] at hnew
    cases hnew
  refine ⟨h.kept_of, ?_, ?_, flushed ++ lists, [], ?_, ?_, .inl ⟨rfl, rfl, rfl⟩⟩
  · intro p hp
    rcases mem_append.mp hp with hp | hp
    · exact h.bounded p hp
    · rw [mem_singleton.mp hp]
      exact hcarries.bounded
  · have hcounted := h.counted
    simpa [RenderState.flush] using hcounted
  · exact decodeAll_concat hflushed hcarries.decode
  · rw [append_nil, hlists]

section

variable (h : Rendered b metrics kept s) (hhost : 0 ∉ b.host)
include h hhost

theorem Rendered.start (hnew : s.isNew = true) (m : MetricContainer) :
    Rendered b metrics kept (s.start b) ∧ HasRoom b (s.start b) m := by
  obtain ⟨flushed, lists, hflushed, hlists, ⟨-, hpacket, rfl⟩ | hcarries⟩ := h.received
  · obtain ⟨hcarries, -, hclamped, hpackets⟩ := start_carries hhost hpacket
    refine ⟨⟨h.kept_of, h.bounded, ?_, flushed, [], hflushed, hlists, .inr hcarries⟩,
      start_hasRoom hhost hpacket m⟩
    have hcounted := h.counted
    rw [hpacket] at hcounted
    rw [hclamped, hpackets]
    exact hcounted
  · rw [hcarries.started] at hnew
    cases hnew

theorem Rendered.datagramFor (m : MetricContainer) :
    Rendered b metrics kept (s.datagramFor b m) ∧ (s.datagramFor b m).isNew = false ∧
      HasRoom b (s.datagramFor b m) m := by
  rw [RenderState.datagramFor]
  cases hnew : s.isNew with
  | true =>
    have hover : s.overflows b m = false := by rw [overflows, hnew]; rfl
    obtain ⟨hrendered, hroom⟩ := h.start hhost hnew m
    simp only [hover, Bool.false_eq_true, if_false, hnew, if_true]
    exact ⟨hrendered, rfl, hroom⟩
  | false =>
    cases hover : s.overflows b m with
    | true =>
      obtain ⟨hrendered, hroom⟩ := (h.flush hnew).start hhost rfl m
      exact ⟨hrendered, rfl, hroom⟩
    | false =>
      simp only [Bool.false_eq_true, if_false, hnew]
      exact ⟨h, trivial, hasRoom_of_not_overflows hnew hover⟩

theorem Rendered.renderMetric (hm : ∀ id, 0 ∉ m.names id) :
    ∃ k, Rendered b (metrics ++ [m]) (kept ++ [k]) (s.renderMetric b m) := by
  obtain ⟨hopened, hstarted, hroom⟩ := h.datagramFor hhost m
  obtain ⟨flushed, lists, hflushed, hlists, ⟨hnew, -⟩ | hcarries⟩ := hopened.received
  · rw [hstarted] at hnew
    cases hnew
  obtain ⟨k, hkept, hcarries', hclamped, hpackets⟩ := renderBody_carries hm hcarries hroom
  have hbody : s.renderMetric b m = (s.datagramFor b m).renderBody m := rfl
  rw [← hbody] at hcarries' hclamped hpackets
  refine ⟨k, ?_, ?_, ?_, flushed, lists ++ b.valueLists k, ?_, ?_, .inr hcarries'⟩
  · exact rel_append hopened.kept_of (.cons hkept .nil)
  · rw [hpackets]
    exact hopened.bounded
  · have hcounted := hopened.counted
    rw [hpackets]
    simp only [map_append, List.sum_append, map_cons, map_nil, sum_cons, sum_nil]
    omega
  · rw [hpackets]
    exact hflushed
  · rw [← append_assoc, hlists]
    simp

end

theorem Rendered.foldl (h : Rendered b done kept s) (hhost : 0 ∉ b.host)
    (metrics : List MetricContainer) (hmetrics : ∀ m ∈ metrics, ∀ id, 0 ∉ m.names id) :
    ∃ more, Rendered b (done ++ metrics) (kept ++ more)
      (metrics.foldl (RenderState.renderMetric b) s) := by
  induction metrics generalizing s done kept with
  | nil => exact ⟨[], by simpa using h⟩
  | cons m metrics ih =>
    obtain ⟨k, hstep⟩ := h.renderMetric hhost (hmetrics m mem_cons_self)
    obtain ⟨more, hrest⟩ := ih hstep fun m' hm' => hmetrics m' (mem_cons_of_mem m hm')
    exact ⟨k :: more, by simpa using hrest⟩

/-- The host and every identifier are free of NUL bytes. -/
def Builder.NulFree (b : Builder) : Prop :=
  0 ∉ b.host ∧ ∀ m ∈ b.renderedMetrics, ∀ id, 0 ∉ m.names id

instance : DecidablePred Builder.NulFree := fun _ => inferInstanceAs (Decidable (_ ∧ _))

instance (b : Builder) : DecidablePred b.fitsAlone := fun _ => inferInstanceAs (Decidable (_ ≤ _))

theorem kept_eq_self (hfits : ∀ m ∈ metrics, b.fitsAlone m)
    (h : List.Forall₂ (Kept b) metrics kept) : kept = metrics := by
  induction h with
  | nil => rfl
  | @cons m k metrics kept hm _ ih =>
    rw [hm.eq_of_fitsAlone (hfits m mem_cons_self),
      ih fun m' hm' => hfits m' (mem_cons_of_mem m hm')]

end Steps

/-- **Rendering is faithful and bounded.**  Every datagram is well formed and
within the size limit, and a receiver gets exactly the metrics in order, each under
its own identifiers; values are left out, and counted, only of a metric that does
not fit a datagram of its own. -/
theorem decode_render (b : Builder) (hb : b.NulFree) :
    (∀ p ∈ b.render, p.buffer.length ≤ maxPacketSize) ∧
      ∃ kept, List.Forall₂ (Kept b) b.renderedMetrics kept ∧
        decodeAll b.render = some (kept.flatMap b.valueLists) ∧
        (b.render.map clampedValues).sum + (kept.map valueCount).sum =
          (b.renderedMetrics.map valueCount).sum := by
  obtain ⟨kept, hrendered⟩ := Rendered.initial.foldl hb.1 b.renderedMetrics hb.2
  rw [nil_append, nil_append] at hrendered
  rw [render]
  set s := b.renderedMetrics.foldl (renderMetric b) {} with hs
  obtain ⟨flushed, lists, hflushed, hlists, ⟨-, hpacket, rfl⟩ | hcarries⟩ := hrendered.received
  · -- nothing was rendered: there is no trailing datagram
    have hcounted := hrendered.counted
    simp only [hpacket, length_nil, lt_irrefl, if_false]
    rw [hpacket, add_zero] at hcounted
    rw [append_nil] at hlists
    exact ⟨hrendered.bounded, kept, hrendered.kept_of, hlists ▸ hflushed, hcounted⟩
  · have hpos := hcarries.nonempty
    have hcounted := hrendered.counted
    simp only [if_pos hpos]
    refine ⟨?_, kept, hrendered.kept_of, ?_, ?_⟩
    · intro p hp
      rcases mem_append.mp hp with hp | hp
      · exact hrendered.bounded p hp
      · rw [mem_singleton.mp hp]
        exact hcarries.bounded
    · rw [← hlists]
      exact decodeAll_concat hflushed hcarries.decode
    · simpa using hcounted

namespace Sample

def builder : Builder where
  host := [104]
  timeHr := 1
  intervalHr := 10
  renderedMetrics :=
    [⟨[99, 112, 117], some [48], [108], some [97], [0x3FF0000000000000, 0], []⟩,
      ⟨[99, 112, 117], none, [108], none, [], [-1]⟩]

end Sample

/-- Two metrics in one datagram; the second clears both instances. -/
theorem decode_render_sample :
    Sample.builder.render.length = 1 ∧ decodeAll Sample.builder.render =
        some (Sample.builder.renderedMetrics.flatMap Sample.builder.valueLists) := by
  obtain ⟨-, kept, hkept, hdecode, -⟩ := decode_render Sample.builder (by decide)
  rw [kept_eq_self (by decide +kernel) hkept] at hdecode
  exact ⟨by decide +kernel, hdecode⟩

end Nscp.Collectd
