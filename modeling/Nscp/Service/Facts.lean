import Mathlib

/-!
# The facts document

The tree modules report (`PB::Facts::Value`), its canonical order, its JSON rendering, and
the rules a fact set is checked against.  A text is a sequence of bytes, one character each.
-/

namespace Nscp.Service.Facts

open String List

mutual

/-- `PB::Facts::Value`. -/
inductive Value where
  | notSet
  | string (text : String)
  | int (n : ℤ)
  | uint (n : ℕ)
  | double (x : Float)
  | bool (b : Bool)
  | object (fields : List Field)
  | list (values : List Value)

inductive Field where
  | mk (key : String) (value : Value)

end

abbrev Object := List Field

def Field.key : Field → String
  | mk key _ => key

def Field.value : Field → Value
  | mk _ value => value

def Value.isObject : Value → Bool
  | object _ => true
  | _ => false

/-- `tree::get`: the first field of that name. -/
def get (object : Object) (key : String) : Option Value :=
  (object.find? fun field => field.key = key).map Field.value

/-! ## Canonical order -/

def sortByKey (fields : Object) : Object :=
  fields.mergeSort fun lhs rhs => decide (lhs.key ≤ rhs.key)

mutual

def Value.sortFields : Value → Value
  | .object fields => .object (sortByKey (sortEach fields))
  | .list values => .list (sortRecords values)
  | v => v

def sortEach : List Field → List Field
  | [] => []
  | .mk key value :: fields => .mk key value.sortFields :: sortEach fields

def sortRecords : List Value → List Value
  | [] => []
  | .object fields :: values => .object (sortByKey (sortEach fields)) :: sortRecords values
  | v :: values => v :: sortRecords values

end

def sortFields (object : Object) : Object := sortByKey (sortEach object)

/-! ## Rendering -/

def hexDigit (n : ℕ) : Char := "0123456789abcdef".toList.getD n '0'

def escapeJson (c : Char) : String :=
  if c = '"' then "\\\""
  else if c = '\\' then "\\\\"
  else if c = '\x08' then "\\b"
  else if c = '\x0c' then "\\f"
  else if c = '\n' then "\\n"
  else if c = '\x0d' then "\\r"
  else if c = '\t' then "\\t"
  else if c.toNat < 0x20 then
    "\\u00" ++ ofList [hexDigit (c.toNat / 16), hexDigit (c.toNat % 16)]
  else singleton c

def writeJsonString (text : String) : String :=
  "\"" ++ join (text.toList.map escapeJson) ++ "\""

section

variable (formatDouble : Float → String)

mutual

def writeJson : Value → String
  | .notSet => "null"
  | .string text => writeJsonString text
  | .int n => toString n
  | .uint n => toString n
  | .double x => formatDouble x
  | .bool b => if b then "true" else "false"
  | .object fields => "\x7b" ++ intercalate "," (writeFields fields) ++ "\x7d"
  | .list values => "[" ++ intercalate "," (writeValues values) ++ "]"

def writeFields : List Field → List String
  | [] => []
  | .mk key value :: fields => (writeJsonString key ++ ":" ++ writeJson value) :: writeFields fields

def writeValues : List Value → List String
  | [] => []
  | v :: values => writeJson v :: writeValues values

end

def toJson (object : Object) : String := writeJson formatDouble (.object object)

end

/-! ## The checks -/

def maxKeyLength : ℕ := 64
def maxDepth : ℕ := 6
def maxListLength : ℕ := 5000

def isKeyChar (c : Char) : Bool :=
  ('a' ≤ c && c ≤ 'z') || ('0' ≤ c && c ≤ '9') || c == '_'

def isValidKey (key : String) : Bool :=
  match key.toList with
  | [] => false
  | c :: cs =>
    decide (key.length ≤ maxKeyLength) && ('a' ≤ c && c ≤ 'z') && (c :: cs).all isKeyChar

def clip (text : String) : String :=
  if text.length ≤ 64 then text else ofList (text.toList.take 64) ++ "..."

def tooDeep (path : String) : String :=
  "'" ++ path ++ "' nests deeper than " ++ toString maxDepth ++ " levels"

def recordId (fields : Object) : Option String :=
  match get fields "id" with
  | some (.string id) => if id = "" then none else some id
  | _ => none

mutual

def validate (path : String) (depth : ℕ) : Value → Except String Unit
  | .object fields =>
    if depth > maxDepth then .error (tooDeep path) else validateFields path depth [] fields
  | .list values =>
    if values.length > maxListLength then
      .error ("'" ++ path ++ "' holds " ++ toString values.length ++ " entries, more than the " ++
        toString maxListLength ++ " allowed")
    else validateItems path depth ((values.head?.map Value.isObject).getD false) [] values
  | .notSet =>
    .error ("'" ++ path ++ "' carries no value: an unknown value is omitted, never stored empty")
  | _ => .ok ()

def validateFields (path : String) (depth : ℕ) (keys : List String) :
    List Field → Except String Unit
  | [] => .ok ()
  | .mk key value :: fields =>
    if !isValidKey key then
      .error ("'" ++ path ++ "." ++ clip key ++ "' is not a valid key (snake_case, at most " ++
        toString maxKeyLength ++ " characters)")
    else if key ∈ keys then
      .error ("'" ++ path ++ "' carries the key '" ++ clip key ++ "' twice")
    else
      match validate (path ++ "." ++ key) (depth + 1) value with
      | .error e => .error e
      | .ok () => validateFields path depth (key :: keys) fields

def validateItems (path : String) (depth : ℕ) (records : Bool) (ids : List String) :
    List Value → Except String Unit
  | [] => .ok ()
  | .object fields :: values =>
    if !records then
      .error ("'" ++ path ++
        "' mixes records and plain values: a list is either records or strings")
    else
      match recordId fields with
      | none => .error ("'" ++ path ++ "' holds a record without a non-empty string id")
      | some id =>
        if id ∈ ids then
          .error ("'" ++ path ++ "' holds two records with the id '" ++ clip id ++ "'")
        else if depth + 1 > maxDepth then
          .error (tooDeep (path ++ "[" ++ id ++ "]"))
        else
          match validateFields (path ++ "[" ++ id ++ "]") (depth + 1) [] fields with
          | .error e => .error e
          | .ok () => validateItems path depth records (id :: ids) values
  | .string _ :: values =>
    if records then
      .error ("'" ++ path ++
        "' mixes records and plain values: a list is either records or strings")
    else validateItems path depth records ids values
  | _ :: _ =>
    if records then
      .error ("'" ++ path ++
        "' mixes records and plain values: a list is either records or strings")
    else
      .error ("'" ++ path ++
        "' holds a plain value that is not a string: a list is either records or strings")

end

def validateObject (path : String) (depth : ℕ) (object : Object) : Except String Unit :=
  validate path depth (.object object)

/-! ## The rules -/

def IsString : Value → Prop
  | .string _ => True
  | _ => False

def HasId (id : String) : Value → Prop
  | .object fields => get fields "id" = some (.string id) ∧ id ≠ ""
  | _ => False

mutual

def Value.WellFormed (depth : ℕ) : Value → Prop
  | .object fields =>
    depth ≤ maxDepth ∧ (fields.map Field.key).Nodup ∧ FieldsWellFormed depth fields
  | .list values =>
    values.length ≤ maxListLength ∧ ((∀ v ∈ values, IsString v) ∨
        (∃ ids : List String, ids.Nodup ∧ List.Forall₂ HasId ids values)
          ∧ ItemsWellFormed depth values)
  | .notSet => False
  | _ => True

def FieldsWellFormed (depth : ℕ) : List Field → Prop
  | [] => True
  | .mk key value :: fields =>
    isValidKey key = true ∧ value.WellFormed (depth + 1) ∧ FieldsWellFormed depth fields

def ItemsWellFormed (depth : ℕ) : List Value → Prop
  | [] => True
  | v :: values => v.WellFormed (depth + 1) ∧ ItemsWellFormed depth values

end

def WellFormed (object : Object) : Prop := (Value.object object).WellFormed 1

/-! ## What passes the checks follows the rules -/

variable {fields : Object} {values : List Value} {key id : String} {v : Value}

theorem fieldsWellFormed_iff {depth : ℕ} : FieldsWellFormed depth fields ↔
      ∀ f ∈ fields, isValidKey f.key = true ∧ f.value.WellFormed (depth + 1) := by
  induction fields with
  | nil => simp [FieldsWellFormed]
  | cons f fields ih =>
    obtain ⟨key, value⟩ := f
    rw [FieldsWellFormed, ih, forall_mem_cons, Field.key, Field.value, and_assoc]

theorem recordId_eq_some (h : recordId fields = some id) : HasId id (.object fields) := by
  unfold recordId at h
  split at h
  next id' hget =>
    split at h
    next => cases h
    next hne =>
      cases h
      exact ⟨hget, hne⟩
  next => cases h

mutual

theorem wellFormed_of_validate {path : String} {depth : ℕ} (v : Value)
    (h : validate path depth v = .ok ()) : v.WellFormed depth := by
  cases v with
  | object fields =>
    rw [validate] at h
    split at h
    next => cases h
    next hdepth =>
      obtain ⟨hnodup, -, hfields⟩ := fieldsWellFormed_of_validateFields fields h
      exact ⟨Nat.le_of_not_lt hdepth, hnodup, hfields⟩
  | list values =>
    rw [validate] at h
    split at h
    next => cases h
    next hlength =>
      refine ⟨Nat.le_of_not_lt hlength, ?_⟩
      cases hrecords : (values.head?.map Value.isObject).getD false with
      | false =>
        rw [hrecords] at h
        exact .inl (isString_of_validateItems values h)
      | true =>
        rw [hrecords] at h
        obtain ⟨ids, hnodup, -, hids, hitems⟩ := itemsWellFormed_of_validateItems values h
        exact .inr ⟨⟨ids, hnodup, hids⟩, hitems⟩
  | notSet => cases h
  | _ => trivial

theorem fieldsWellFormed_of_validateFields {path : String} {depth : ℕ} {keys : List String}
    (fields : List Field) (h : validateFields path depth keys fields = .ok ()) :
    (fields.map Field.key).Nodup ∧ (∀ key ∈ fields.map Field.key, key ∉ keys) ∧
      FieldsWellFormed depth fields := by
  cases fields with
  | nil => exact ⟨nodup_nil, forall_mem_nil _, trivial⟩
  | cons f fields =>
    obtain ⟨key, value⟩ := f
    rw [validateFields] at h
    split at h
    next => cases h
    next hkey =>
      split at h
      next => cases h
      next hnew =>
        split at h
        next => cases h
        next hvalue =>
          obtain ⟨hnodup, hfresh, hfields⟩ := fieldsWellFormed_of_validateFields fields h
          have hvalue' := wellFormed_of_validate value hvalue
          refine ⟨?_, ?_, by simpa using hkey, hvalue', hfields⟩
          · refine nodup_cons.mpr ⟨fun hmem => ?_, hnodup⟩
            exact hfresh _ hmem mem_cons_self
          · refine forall_mem_cons.mpr ⟨hnew, fun k hk hmem => ?_⟩
            exact hfresh k hk (mem_cons_of_mem key hmem)

theorem itemsWellFormed_of_validateItems {path : String} {depth : ℕ} {ids : List String}
    (values : List Value) (h : validateItems path depth true ids values = .ok ()) :
    ∃ ids' : List String, ids'.Nodup ∧ (∀ id ∈ ids', id ∉ ids) ∧
      List.Forall₂ HasId ids' values ∧ ItemsWellFormed depth values := by
  cases values with
  | nil => exact ⟨[], nodup_nil, forall_mem_nil _, .nil, trivial⟩
  | cons v values =>
    cases v with
    | object fields =>
      rw [validateItems] at h
      split at h
      next hno => cases hno
      next =>
        split at h
        next => cases h
        next id hid =>
          split at h
          next => cases h
          next hnew =>
            split at h
            next => cases h
            next hdepth =>
              split at h
              next => cases h
              next hrecord =>
                obtain ⟨hkeys, -, hfields⟩ := fieldsWellFormed_of_validateFields fields hrecord
                obtain ⟨ids', hnodup, hfresh, hids, hitems⟩ :=
                  itemsWellFormed_of_validateItems values h
                refine ⟨id :: ids', ?_, ?_, .cons (recordId_eq_some hid) hids,
                  ⟨Nat.le_of_not_lt hdepth, hkeys, hfields⟩, hitems⟩
                · exact nodup_cons.mpr
                    ⟨fun hmem => hfresh _ hmem mem_cons_self, hnodup⟩
                · refine forall_mem_cons.mpr ⟨hnew, fun k hk hmem => ?_⟩
                  exact hfresh k hk (mem_cons_of_mem id hmem)
    | _ => cases h

theorem isString_of_validateItems {path : String} {depth : ℕ} {ids : List String}
    (values : List Value) (h : validateItems path depth false ids values = .ok ()) :
    ∀ v ∈ values, IsString v := by
  cases values with
  | nil => exact forall_mem_nil _
  | cons v values =>
    cases v with
    | string text =>
      exact forall_mem_cons.mpr ⟨trivial, isString_of_validateItems values h⟩
    | _ => cases h

end

/-! ## The canonical order keeps the rules -/

theorem perm_sortByKey (fields : Object) : (sortByKey fields).Perm fields :=
  mergeSort_perm fields _

theorem map_key_sortEach (fields : Object) :
    (sortEach fields).map Field.key = fields.map Field.key := by
  induction fields with
  | nil => rfl
  | cons f fields ih =>
    obtain ⟨key, value⟩ := f
    rw [sortEach, map_cons, map_cons, ih]
    rfl

theorem nodup_sortByKey (h : (fields.map Field.key).Nodup) :
    ((sortByKey (sortEach fields)).map Field.key).Nodup := by
  have hperm := (perm_sortByKey (sortEach fields)).map Field.key
  rw [map_key_sortEach] at hperm
  exact hperm.nodup_iff.mpr h

theorem mem_sortEach (h : Field.mk key v ∈ fields) :
    Field.mk key v.sortFields ∈ sortEach fields := by
  induction fields with
  | nil => cases h
  | cons f fields ih =>
    obtain ⟨key', value⟩ := f
    rw [sortEach]
    obtain heq | htail := mem_cons.mp h
    · cases heq
      exact mem_cons_self
    · exact mem_cons_of_mem _ (ih htail)

theorem get_eq_some_iff (hnodup : (fields.map Field.key).Nodup) :
    get fields key = some v ↔ Field.mk key v ∈ fields := by
  induction fields with
  | nil => simp [get]
  | cons f fields ih =>
    obtain ⟨key', value⟩ := f
    obtain ⟨hfresh, htail⟩ := nodup_cons.mp hnodup
    by_cases hkey : key' = key
    · subst hkey
      have hget : get (.mk key' value :: fields) key' = some value := by
        simp [get, Field.key, Field.value]
      rw [hget, mem_cons]
      refine ⟨fun h => .inl ?_, fun h => ?_⟩
      · rw [Option.some.inj h]
      · obtain heq | hmem := h
        · cases heq
          rfl
        · exact absurd (mem_map.mpr ⟨_, hmem, rfl⟩) hfresh
    · have hget : get (.mk key' value :: fields) key = get fields key := by
        simp [get, Field.key, hkey]
      rw [hget, ih htail, mem_cons]
      refine ⟨.inr, fun h => h.resolve_left fun heq => ?_⟩
      cases heq
      exact hkey rfl

theorem HasId.sortFields (h : HasId id (.object fields)) (hnodup : (fields.map Field.key).Nodup) :
    HasId id (.object (sortByKey (sortEach fields))) := by
  refine ⟨?_, h.2⟩
  rw [get_eq_some_iff (nodup_sortByKey hnodup), (perm_sortByKey _).mem_iff]
  exact mem_sortEach ((get_eq_some_iff hnodup).mp h.1)

theorem sortRecords_of_isString (h : ∀ v ∈ values, IsString v) : sortRecords values = values := by
  induction values with
  | nil => rfl
  | cons v values ih =>
    obtain ⟨hv, hvalues⟩ := forall_mem_cons.mp h
    cases v with
    | string text => rw [sortRecords, ih hvalues]; exact fun _ h => by cases h
    | _ => cases hv

theorem length_sortRecords (values : List Value) :
    (sortRecords values).length = values.length := by
  induction values with
  | nil => rfl
  | cons v values ih => cases v <;> simp [sortRecords, ih]

theorem hasId_sortRecords {depth : ℕ} {ids : List String} (h : List.Forall₂ HasId ids values)
    (hitems : ItemsWellFormed depth values) : List.Forall₂ HasId ids (sortRecords values) := by
  induction h with
  | nil => exact .nil
  | cons hid _ ih =>
    rename_i id v ids values _
    cases v with
    | object fields => exact .cons (hid.sortFields hitems.1.2.1) (ih hitems.2)
    | _ => cases hid

mutual

theorem Value.WellFormed.sortFields {depth : ℕ} (v : Value) (h : v.WellFormed depth) :
    v.sortFields.WellFormed depth := by
  cases v with
  | object fields =>
    obtain ⟨hdepth, hnodup, hfields⟩ := h
    refine ⟨hdepth, nodup_sortByKey hnodup, ?_⟩
    rw [fieldsWellFormed_iff]
    intro f hf
    exact fieldsWellFormed_iff.mp (fieldsWellFormed_sortEach fields hfields) f
      ((perm_sortByKey _).mem_iff.mp hf)
  | list values =>
    obtain ⟨hlength, hstrings | ⟨⟨ids, hids, hrecords⟩, hitems⟩⟩ := h
    · rw [Value.sortFields, sortRecords_of_isString hstrings]
      exact ⟨hlength, .inl hstrings⟩
    · refine ⟨(length_sortRecords values).trans_le hlength, .inr ⟨⟨ids, hids, ?_⟩, ?_⟩⟩
      · exact hasId_sortRecords hrecords hitems
      · exact itemsWellFormed_sortRecords values hitems
  | _ => exact h

theorem fieldsWellFormed_sortEach {depth : ℕ} (fields : List Field)
    (h : FieldsWellFormed depth fields) : FieldsWellFormed depth (sortEach fields) := by
  cases fields with
  | nil => trivial
  | cons f fields =>
    obtain ⟨key, value⟩ := f
    obtain ⟨hkey, hvalue, hfields⟩ := h
    exact ⟨hkey, Value.WellFormed.sortFields value hvalue, fieldsWellFormed_sortEach fields hfields⟩

theorem itemsWellFormed_sortRecords {depth : ℕ} (values : List Value)
    (h : ItemsWellFormed depth values) : ItemsWellFormed depth (sortRecords values) := by
  cases values with
  | nil => trivial
  | cons v values =>
    have hvalues := itemsWellFormed_sortRecords values h.2
    cases v with
    | object fields => exact ⟨Value.WellFormed.sortFields (.object fields) h.1, hvalues⟩
    | _ => exact ⟨h.1, hvalues⟩

end

theorem wellFormed_sortFields {path : String} {object : Object}
    (h : validateObject path 1 object = .ok ()) : WellFormed (sortFields object) :=
  Value.WellFormed.sortFields (.object object) (wellFormed_of_validate _ h)

end Nscp.Service.Facts
