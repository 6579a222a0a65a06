import Nscp.Settings.Query

/-!
# What redaction covers

Stored values reach a client through one redaction function, whatever the request.  The
store finds an entry under any spelling of its name, the registry of sensitive keys only
under the registered one; and a registry that cannot answer counts as a no.  A request
therefore masks all it should exactly when each sensitive key it shows reads like a
credential or is shown under its registered spelling while the registry answers.
-/

namespace Nscp.Settings

open Response Inventory List

section Values

variable (reader : Reader)

def Node.isStored (n : Node) : Bool :=
  (reader.getString n.path n.key).isSome && !n.value.isEmpty

def Inventory.valueNode? : Inventory → Option Node
  | .value node _ => some node
  | _ => none

/-- The stored values a response shows. -/
def Response.shown : Response → List Node
  | .inventory entries _ => (entries.filterMap valueNode?).filter (·.isStored reader)
  | .query node nodes =>
    (if node.key.isEmpty then nodes else [node]).filter (·.isStored reader)
  | .diff entries =>
    (entries.flatMap fun e =>
      [⟨e.path, e.key, e.oldValue⟩, ⟨e.path, e.key, e.newValue⟩]).filter (!·.value.isEmpty)

def Reader.readings (keys : List Key) : List Node :=
  (keys.map fun k => ⟨k.1, k.2, (reader.getString k.1 k.2).getD []⟩).filter (!·.value.isEmpty)

def Reader.keysBelow : ℕ → Path → Bool → List Key
  | 0, _, _ => []
  | fuel + 1, basePath, recurse =>
    let path :=
      if 1 < basePath.length ∧ basePath.getLast? = some '/' then basePath.dropLast else basePath
    ((reader.getSections path).flatMap fun child =>
      if recurse then keysBelow fuel (joinPath path child) true else []) ++
    (reader.getKeys path).map (path, ·)

def QueryRequest.keys (q : QueryRequest) (fuel : ℕ) : List Key :=
  if !q.node.key.isEmpty then [(q.node.path, q.node.key)]
  else if q.includeKeys then reader.keysBelow fuel q.node.path q.recursive
  else []

variable (core : Core)

namespace InventoryRequest

variable (q : InventoryRequest)

def names (pluginId : Option ℕ) (path : Path) : List Name :=
  let known := (core.getRegKeys path q.fetchSamples).filter fun key =>
    pluginId.all (· ∈ ((core.getRegisteredKey path key).getD {}).plugins)
  known ++ if pluginId.isSome then [] else (reader.getKeys path).filter (· ∉ known)

def sections : List Path → List Path
  | [] => []
  | path :: paths =>
    path :: if q.fetchPaths && (core.getRegisteredPath path).isNone then [] else sections paths

def keys : List Key :=
  if !q.node.key.isEmpty || !q.fetchKeys then []
  else
    (q.sections core (if q.recursiveFetch then core.getRegSections q.node.path q.fetchSamples
      else [q.node.path])).flatMap fun path =>
        (q.names reader core (if q.plugin.isEmpty then none else core.findPlugin q.plugin)
          path).map (path, ·)

end InventoryRequest

/-- The stored values a request asks for. -/
def Request.reads (fuel : ℕ) : Request → List Node
  | .inventory q => reader.readings (q.keys reader core)
  | .query q => reader.readings (q.keys reader fuel)
  | .diff q =>
    ((reader.getChanges.filter fun c => pathMatches c.path q.node.path q.recursive).flatMap
      fun c => [⟨c.path, c.key, c.oldValue⟩, ⟨c.path, c.key, c.newValue⟩]).filter
        (!·.value.isEmpty)

def Request.redacts : Request → Bool
  | .inventory q => q.redactSensitive
  | .query q => q.redactSensitive
  | .diff _ => true

/-- A key whose value must not be shown: the store finds it where it finds a registered
sensitive key, or nobody can tell. -/
def Protected (path : Path) (key : Name) : Prop :=
  (∃ q ∈ core.sensitiveKeys, SameEntry (path, key) q) ∨ isSensitiveKey core path key = none

/-- A key the handlers recognise: by what its name reads like, or because the registry
answers and has it in this spelling. -/
def Recognised (path : Path) (key : Name) : Prop :=
  key ≠ [] ∧ (keyNameReadsAsSecret path key = true ∨ core.lockable path key = true ∧
    makeSensitiveKey path key ∈ core.sensitiveKeys.map fun q => makeSensitiveKey q.1 q.2)

end Values

variable {core : Core} {reader : Reader}

/-! ## One value -/

variable (path : Path) (key : Name) {value : Value}

theorem isSensitiveKey_eq_some_true_iff : isSensitiveKey core path key = some true ↔
      keyNameReadsAsSecret path key = true ∨ core.lockable path key = true ∧
        makeSensitiveKey path key ∈ core.sensitiveKeys.map fun q => makeSensitiveKey q.1 q.2 := by
  rw [isSensitiveKey, isRegisteredSensitiveKey]
  cases keyNameReadsAsSecret path key with
  | true => simp
  | false => cases core.lockable path key <;> simp

theorem redactValue_of_recognised {path : Path} {key : Name} (h : Recognised core path key)
    (hvalue : value ≠ []) : redactValue core path key value true = mask := by
  have hsensitive := (isSensitiveKey_eq_some_true_iff path key).mpr h.2
  rw [redactValue, if_neg, hsensitive]
  simp [hvalue, h.1]

theorem redactValue_of_not_recognised {path : Path} {key : Name}
    (h : ¬ Recognised core path key) (value : Value) :
    redactValue core path key value true = value := by
  rw [redactValue]
  split_ifs with hplain
  · rfl
  · have hkey : key ≠ [] := by
      rintro rfl
      exact hplain (by simp)
    cases hsensitive : isSensitiveKey core path key with
    | none => rfl
    | some b =>
      cases b with
      | false => rfl
      | true =>
        exact absurd ⟨hkey, (isSensitiveKey_eq_some_true_iff path key).mp hsensitive⟩ h

theorem redactValue_eq_nil_iff (value : Value) :
    redactValue core path key value true = [] ↔ value = [] := by
  by_cases hvalue : value = []
  · simp [redactValue, hvalue]
  · by_cases h : Recognised core path key
    · rw [redactValue_of_recognised h hvalue]
      exact iff_of_false (by decide) hvalue
    · rw [redactValue_of_not_recognised h]

theorem redactValue_eq_mask_iff (hvalue : value ≠ []) :
    redactValue core path key value true = mask ↔ value = mask ∨ Recognised core path key := by
  by_cases h : Recognised core path key
  · exact iff_of_true (redactValue_of_recognised h hvalue) (.inr h)
  · rw [redactValue_of_not_recognised h]
    exact (or_iff_left h).symm

variable (core) in
def Node.redacted (n : Node) : Node :=
  { n with value := redactValue core n.path n.key n.value true }

/-! ## Every request shows redacted readings -/

theorem redacted_isEmpty (n : Node) : (n.redacted core).value.isEmpty = n.value.isEmpty := by
  rw [Bool.eq_iff_iff, List.isEmpty_iff, List.isEmpty_iff]
  exact redactValue_eq_nil_iff n.path n.key n.value

variable (core reader) in
def shownNode (default : Value) (k : Key) : Node :=
  ⟨k.1, k.2, redactValue core k.1 k.2 ((reader.getString k.1 k.2).getD default) true⟩

theorem filter_shownNode (default : Value) (keys : List Key) :
    (keys.map (shownNode core reader default)).filter (·.isStored reader) =
      (reader.readings keys).map (·.redacted core) := by
  induction keys with
  | nil => rfl
  | cons k keys ih =>
    rw [Reader.readings, map_cons, map_cons, filter_cons, filter_cons, ih, ← Reader.readings]
    cases hk : reader.getString k.1 k.2 with
    | none => simp [Node.isStored, shownNode, hk]
    | some v =>
      have hempty : (shownNode core reader default k).value.isEmpty = v.isEmpty := by
        rw [shownNode, hk]
        exact redacted_isEmpty ⟨k.1, k.2, v⟩
      simp only [Node.isStored, hempty, Option.getD_some]
      simp only [shownNode, hk, Option.isSome_some, Bool.true_and, Option.getD_some]
      split_ifs <;> rfl

theorem recurseFind_keys (fuel : ℕ) (path : Path) (recurse : Bool) :
    recurseFind core reader true true fuel path recurse =
      (reader.keysBelow fuel path recurse).map (shownNode core reader []) := by
  induction fuel generalizing path recurse with
  | zero => rfl
  | succ fuel ih =>
    cases recurse <;> simp [recurseFind, Reader.keysBelow, map_flatMap, ih, shownNode]

theorem recurseFind_sections (fuel : ℕ) (path : Path) (recurse : Bool) :
    (recurseFind core reader false true fuel path recurse).filter (·.isStored reader) = [] := by
  have hempty : ∀ n ∈ recurseFind core reader false true fuel path recurse, n.value = [] := by
    induction fuel generalizing path recurse with
    | zero => exact forall_mem_nil _
    | succ fuel ih =>
      intro n hn
      simp only [recurseFind, Bool.not_false, if_true, Bool.false_eq_true, if_false, append_nil,
        mem_flatMap, mem_append, mem_singleton] at hn
      obtain ⟨child, -, rfl | hn⟩ := hn
      · rfl
      · cases recurse with
        | true => exact ih _ _ n hn
        | false => cases hn
  refine filter_eq_nil_iff.mpr fun n hn => ?_
  simp [Node.isStored, hempty n hn]

variable {q : InventoryRequest}

theorem filterMap_inventoryKeys (hq : q.redactSensitive = true) (pluginId : Option ℕ)
    (path : Path) : (inventoryKeys core reader q pluginId path).filterMap valueNode? =
      (q.names reader core pluginId path).map fun key => shownNode core reader [] (path, key) := by
  have hknown : ∀ keys : List Name, (keys.filterMap fun key =>
      if pluginId.all (· ∈ ((core.getRegisteredKey path key).getD {}).plugins) then
        some (key, (core.getRegisteredKey path key).getD {}) else none) =
      (keys.filter fun key => pluginId.all
        (· ∈ ((core.getRegisteredKey path key).getD {}).plugins)).map
          fun key => (key, (core.getRegisteredKey path key).getD {}) := by
    intro keys
    rw [← filterMap_eq_map, filterMap_filter]
    rfl
  simp only [inventoryKeys, hknown, hq, InventoryRequest.names]
  cases pluginId with
  | none => simp [filterMap_map, Function.comp_def, valueNode?, shownNode]
  | some id => simp [filterMap_map, Function.comp_def, valueNode?, shownNode]

theorem filterMap_inventoryPaths (hq : q.redactSensitive = true) (pluginId : Option ℕ)
    (withSubkey : Bool) (paths : List Path) :
    (inventoryPaths core reader q pluginId withSubkey paths).1.filterMap valueNode? =
      if q.fetchKeys then (q.sections core paths).flatMap fun path =>
        (q.names reader core pluginId path).map fun key => shownNode core reader [] (path, key)
      else [] := by
  induction paths with
  | nil => simp [inventoryPaths, InventoryRequest.sections]
  | cons path paths ih =>
    have hkeys : (if q.fetchKeys then inventoryKeys core reader q pluginId path
        else []).filterMap valueNode? = if q.fetchKeys then (q.names reader core pluginId path).map
          fun key => shownNode core reader [] (path, key) else [] := by
      split_ifs
      · exact filterMap_inventoryKeys hq pluginId path
      · rfl
    rw [inventoryPaths, InventoryRequest.sections]
    cases hfetch : q.fetchPaths with
    | false =>
      simp only [Bool.false_and, Bool.false_eq_true, if_false, filterMap_append, hkeys, ih]
      split_ifs <;> simp
    | true =>
      cases hpath : core.getRegisteredPath path with
      | none =>
        simp only [inventoryFolder, hpath, Option.map_none, if_true, hkeys, Option.isNone_none,
          Bool.and_self]
        split_ifs <;> simp
      | some desc =>
        simp only [inventoryFolder, hpath, Option.map_some, if_true, filterMap_append, hkeys,
          filterMap_cons, valueNode?, ih, Option.isNone_some, Bool.and_false, Bool.false_eq_true,
          if_false]
        split_ifs <;> simp

variable (core reader) in
theorem filterMap_parseInventory (hq : q.redactSensitive = true) :
    ∃ entries message, parseInventory core reader q = .inventory entries message ∧
      entries.filterMap valueNode? = (q.keys reader core).map (shownNode core reader []) := by
  simp only [parseInventory, InventoryRequest.keys]
  cases hkey : q.node.key.isEmpty with
  | false => exact ⟨_, _, rfl, rfl⟩
  | true =>
    generalize (if q.plugin.isEmpty then none else core.findPlugin q.plugin) = pluginId
    generalize (if q.recursiveFetch then core.getRegSections q.node.path q.fetchSamples
      else [q.node.path]) = paths
    have hkeys : ((inventoryPaths core reader q pluginId q.recursiveFetch paths).1.filterMap
        valueNode?) =
          (if (!true || !q.fetchKeys) = true then [] else (q.sections core paths).flatMap
          fun path => (q.names reader core pluginId path).map (path, ·)).map
            (shownNode core reader []) := by
      rw [filterMap_inventoryPaths hq]
      cases q.fetchKeys <;> simp [map_flatMap, Function.comp_def]
    rw [if_neg (by simp)]
    by_cases hmessage :
        (inventoryPaths core reader q pluginId q.recursiveFetch paths).2.isSome = true
    · rw [if_pos hmessage]
      exact ⟨_, _, rfl, hkeys⟩
    · rw [if_neg hmessage]
      refine ⟨_, _, rfl, ?_⟩
      rw [filterMap_append, hkeys]
      -- templates carry text of their own, never a stored value
      cases q.fetchTemplates <;> simp [filterMap_map, Function.comp_def, valueNode?]

theorem diffEntry_values (c : Change) :
    (diffEntry core c).oldValue = redactValue core c.path c.key c.oldValue true ∧
      (diffEntry core c).newValue = redactValue core c.path c.key c.newValue true := by
  have hvalue : ∀ v : Value, (if (if c.key.isEmpty then false
      else (isSensitiveKey core c.path c.key).getD false) && !v.isEmpty then mask else v) =
      redactValue core c.path c.key v true := by
    intro v
    rw [redactValue]
    cases hkey : c.key.isEmpty with
    | true => simp
    | false =>
      cases hv : v.isEmpty with
      | true => simp
      | false =>
        cases isSensitiveKey core c.path c.key with
        | none => rfl
        | some b => cases b <;> rfl
  exact ⟨hvalue c.oldValue, hvalue c.newValue⟩

theorem shown_eq_map_redacted (fuel : ℕ) {req : Request} (hreq : req.redacts = true) :
    (handle core reader fuel req).shown reader =
      (req.reads reader core fuel).map (·.redacted core) := by
  cases req with
  | inventory q =>
    obtain ⟨entries, message, heq, hkeys⟩ := filterMap_parseInventory core reader hreq
    rw [Request.reads, handle, heq, shown, hkeys, filter_shownNode]
  | query q =>
    replace hreq : q.redactSensitive = true := hreq
    rw [Request.reads, handle, parseQuery, hreq, QueryRequest.keys]
    cases hkey : q.node.key.isEmpty with
    | true =>
      simp only [Bool.not_true, Bool.false_eq_true, if_false, shown, hkey, if_true]
      cases q.includeKeys with
      | true => rw [recurseFind_keys, filter_shownNode, if_pos rfl]
      | false => rw [recurseFind_sections, if_neg (by decide)]; rfl
    | false =>
      simp only [Bool.not_false, if_true, shown, hkey, Bool.false_eq_true, if_false]
      exact filter_shownNode q.defaultValue [(q.node.path, q.node.key)]
  | diff q =>
    have hentry : ∀ c : Change, [(⟨c.path, c.key, (diffEntry core c).oldValue⟩ : Node),
          ⟨c.path, c.key, (diffEntry core c).newValue⟩] =
        [(⟨c.path, c.key, c.oldValue⟩ : Node), ⟨c.path, c.key, c.newValue⟩].map
          (·.redacted core) := fun c => by
      rw [(diffEntry_values c).1, (diffEntry_values c).2]
      rfl
    rw [handle, parseDiff, shown, Request.reads, flatMap_map]
    simp only [show ∀ c : Change, (diffEntry core c).path = c.path from fun c => rfl,
      show ∀ c : Change, (diffEntry core c).key = c.key from fun c => rfl, hentry]
    rw [← map_flatMap, filter_map]
    congr 1
    refine filter_congr fun n _ => ?_
    exact congrArg Bool.not (redacted_isEmpty n)

/-! ## Coverage -/

/-- A redacting request masks every protected value it shows if and only if each of them
is recognised (or is the mask already). -/
theorem shown_masked_iff (core : Core) (reader : Reader) (fuel : ℕ) (req : Request)
    (hreq : req.redacts = true) :
    (∀ n ∈ (handle core reader fuel req).shown reader, n.value ≠ [] →
      Protected core n.path n.key → n.value = mask) ↔
    ∀ n ∈ req.reads reader core fuel, n.value ≠ [] → Protected core n.path n.key →
      n.value = mask ∨ Recognised core n.path n.key := by
  rw [shown_eq_map_redacted fuel hreq, forall_mem_map]
  refine forall₂_congr fun n _ => ?_
  have hnil : (n.redacted core).value ≠ [] ↔ n.value ≠ [] :=
    not_congr (redactValue_eq_nil_iff n.path n.key n.value)
  rw [hnil]
  refine imp_congr_right fun hvalue => imp_congr_right fun _ => ?_
  exact redactValue_eq_mask_iff n.path n.key hvalue

def doorCore (lockable : Bool) : Core where
  registered := [("/settings/door".toList, "pin".toList)]
  lockable _ _ := lockable
  getRegSections _ _ := []
  getRegKeys _ _ := []
  getRegisteredKey _ _ := none
  getRegisteredPath _ := none
  getRegisteredTemplates := []
  findPlugin _ := none
  findPluginAlias _ := "Failed to find plugin".toList

def doorReader : Reader :=
  Reader.ofEntries [(("/settings/door".toList, "pin".toList), "1234".toList)] []

def doorQuery (key : Name) : Request :=
  .query ⟨⟨"/settings/door".toList, key, []⟩, false, false, [], true⟩

theorem shown_masked_door : (doorQuery "pin".toList).redacts = true ∧
    ∀ n ∈ (handle (doorCore true) doorReader 0 (doorQuery "pin".toList)).shown doorReader,
      n.value ≠ [] → Protected (doorCore true) n.path n.key → n.value = mask := by
  refine ⟨rfl, (shown_masked_iff _ _ _ _ rfl).mpr fun n hn _ _ => .inr ?_⟩
  have hreads : (doorQuery "pin".toList).reads doorReader (doorCore true) 0 =
      [⟨"/settings/door".toList, "pin".toList, "1234".toList⟩] := by decide +kernel
  rw [hreads] at hn
  rw [mem_singleton.mp hn]
  exact ⟨by decide, .inr ⟨rfl, by decide +kernel⟩⟩

/-- Another spelling of the key, or a registry that does not answer, shows the value. -/
theorem shown_unmasked_door :
    (handle (doorCore true) doorReader 0 (doorQuery "PIN".toList)).shown doorReader =
        [⟨"/settings/door".toList, "PIN".toList, "1234".toList⟩] ∧
      Protected (doorCore true) "/settings/door".toList "PIN".toList ∧
      (handle (doorCore false) doorReader 0 (doorQuery "pin".toList)).shown doorReader =
        [⟨"/settings/door".toList, "pin".toList, "1234".toList⟩] ∧
      Protected (doorCore false) "/settings/door".toList "pin".toList := by
  refine ⟨by decide +kernel, .inl ⟨("/settings/door".toList, "pin".toList), ?_, ?_⟩,
    by decide +kernel, .inr ?_⟩
  · exact mem_cons_of_mem _ mem_cons_self
  · exact ⟨rfl, rfl⟩
  · decide +kernel

end Nscp.Settings
