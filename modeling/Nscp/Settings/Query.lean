import Nscp.Settings.Store

/-!
# Settings requests

`settings_query_handler` answers what a client asks about the settings: the value of a
key, the values below a section, the inventory of registered and stored keys, and the
changes not yet saved.  Where redaction is on, the value of a sensitive key is replaced
by a mask.  A key is sensitive when its name reads like a credential or a module has
registered it; the registry may fail to answer.
-/

namespace Nscp.Settings

open Text (toLower)

/-! ## Sensitive keys -/

structure KeyDescription where
  type : List Char := []
  title : List Char := []
  description : List Char := []
  defaultValue : List Char := []
  advanced : Bool := false
  isSample : Bool := false
  plugins : List ℕ := []

structure PathDescription where
  title : List Char
  description : List Char
  advanced : Bool
  isSample : Bool
  isSubkey : Bool
  plugins : List ℕ

structure TplDescription where
  pluginId : ℕ
  path : Path
  title : List Char
  data : List Char

/-- What the handlers ask of the core: the registry and the plugin names.  `lockable`
says whether the registry can be locked to answer for a key. -/
structure Core where
  registered : List Key
  lockable : Path → Name → Bool
  getRegSections : Path → Bool → List Path
  getRegKeys : Path → Bool → List Name
  getRegisteredKey : Path → Name → Option KeyDescription
  getRegisteredPath : Path → Option PathDescription
  getRegisteredTemplates : List TplDescription
  findPlugin : List Char → Option ℕ
  findPluginAlias : ℕ → List Char

def Core.sensitiveKeys (core : Core) : List Key :=
  ("/settings/default".toList, "password".toList) :: core.registered

def makeSensitiveKey (path : Path) (key : Name) : List Char := path ++ "|||".toList ++ key

def neverSecret : List (List Char) := ["use credential manager".toList]

def needles : List (List Char) :=
  ["password".toList, "passwd".toList, "passphrase".toList, "token".toList, "secret".toList,
    "apikey".toList, "api key".toList, "api-key".toList, "credential".toList]

def keyNameReadsAsSecret (path : Path) (key : Name) : Bool :=
  let lowerKey := toLower key
  if lowerKey ∈ neverSecret then false
  else if needles.any fun needle => decide (needle <:+: lowerKey) then true
  else if lowerKey = "key".toList then decide ("/targets".toList <:+: toLower path)
  else false

/-- `none` is the exception of a registry that could not be locked. -/
def isRegisteredSensitiveKey (core : Core) (path : Path) (key : Name) : Option Bool :=
  if !core.lockable path key then none
  else some (makeSensitiveKey path key ∈ core.sensitiveKeys.map fun q => makeSensitiveKey q.1 q.2)

def isSensitiveKey (core : Core) (path : Path) (key : Name) : Option Bool :=
  if keyNameReadsAsSecret path key then some true else isRegisteredSensitiveKey core path key

def mask : Value := "***".toList

/-- A failure to decide leaves the value as it is. -/
def redactValue (core : Core) (path : Path) (key : Name) (value : Value) (redact : Bool) : Value :=
  if !redact || value.isEmpty || key.isEmpty then value
  else
    match isSensitiveKey core path key with
    | some true => mask
    | some false => value
    | none => value

/-! ## Stored values -/

def SameEntry (a b : Key) : Prop := toLower a.1 = toLower b.1 ∧ toLower a.2 = toLower b.2

instance (a b : Key) : Decidable (SameEntry a b) :=
  inferInstanceAs (Decidable (toLower a.1 = toLower b.1 ∧ toLower a.2 = toLower b.2))

inductive ChangeKind where
  | added
  | modified
  | removed
  | pathAdded
  | pathRemoved
  deriving DecidableEq

structure Change where
  path : Path
  key : Name
  kind : ChangeKind
  oldValue : Value
  newValue : Value

/-- What the handlers read from the settings.  Lookups ignore case. -/
structure Reader where
  getString : Path → Name → Option Value
  getSections : Path → List Path
  getKeys : Path → List Name
  getChanges : List Change
  ignoresCase : ∀ a b : Key, SameEntry a b → getString a.1 a.2 = getString b.1 b.2

def Reader.ofEntries (entries : List (Key × Value)) (changes : List Change) : Reader where
  getString path key := (entries.find? fun e => SameEntry e.1 (path, key)).map (·.2)
  getSections _ := []
  getKeys path := (entries.filter fun e => toLower e.1.1 = toLower path).map (·.1.2)
  getChanges := changes
  ignoresCase a b h := by
    have heq : ∀ e : Key × Value, decide (SameEntry e.1 (a.1, a.2)) =
        decide (SameEntry e.1 (b.1, b.2)) := fun e => by
      rw [decide_eq_decide, SameEntry, SameEntry, h.1, h.2]
    simp [heq]

/-! ## Requests and responses -/

structure Node where
  path : Path
  key : Name := []
  value : Value := []
  deriving DecidableEq

structure Info where
  type : List Char := []
  title : List Char := []
  description : List Char := []
  defaultValue : List Char := []
  advanced : Bool := false
  sample : Bool := false
  subkey : Bool := false
  isTemplate : Bool := false
  plugin : List (List Char) := []

/-- One inventory entry: the description of the key asked for, with the request's own
node; a stored value; a section; or a template. -/
inductive Inventory where
  | described (node : Node) (info : Info)
  | value (node : Node) (info : Info)
  | folder (node : Node) (info : Info)
  | template (node : Node) (info : Info)

structure DiffEntry where
  path : Path
  key : Name
  kind : ChangeKind
  isSensitive : Bool
  oldValue : Value
  newValue : Value

structure QueryRequest where
  node : Node
  recursive : Bool
  includeKeys : Bool
  defaultValue : Value
  redactSensitive : Bool

structure InventoryRequest where
  plugin : List Char
  node : Node
  recursiveFetch : Bool
  fetchKeys : Bool
  fetchPaths : Bool
  fetchSamples : Bool
  fetchTemplates : Bool
  redactSensitive : Bool

structure DiffRequest where
  node : Node
  recursive : Bool

inductive Request where
  | inventory (q : InventoryRequest)
  | query (q : QueryRequest)
  | diff (q : DiffRequest)

inductive Response where
  | inventory (entries : List Inventory) (message : Option (List Char))
  | query (node : Node) (nodes : List Node)
  | diff (entries : List DiffEntry)

/-! ## Handlers -/

section Handlers

variable (core : Core) (reader : Reader)

def joinPath (p1 p2 : Path) : Path :=
  if p1.getLast? = some '/' ∧ 1 < p2.length ∧ p2.head? = some '/' then p1 ++ p2.tail
  else if p1.getLast? = some '/' then p1 ++ p2
  else if 1 < p2.length ∧ p2.head? = some '/' then p1 ++ p2
  else p1 ++ '/' :: p2

/-- The recursion follows the sections the store lists; `fuel` bounds its depth. -/
def recurseFind (fetchKeys redact : Bool) : ℕ → Path → Bool → List Node
  | 0, _, _ => []
  | fuel + 1, basePath, recurse =>
    let path :=
      if 1 < basePath.length ∧ basePath.getLast? = some '/' then basePath.dropLast else basePath
    ((reader.getSections path).flatMap fun child =>
      let childPath := joinPath path child
      (if !fetchKeys then [⟨childPath, [], []⟩] else []) ++
        (if recurse then recurseFind fetchKeys redact fuel childPath true else [])) ++
    (if fetchKeys then
      (reader.getKeys path).map fun key =>
        ⟨path, key, redactValue core path key ((reader.getString path key).getD []) redact⟩
    else [])

def parseQuery (fuel : ℕ) (q : QueryRequest) : Response :=
  if !q.node.key.isEmpty then
    .query { q.node with
      value := redactValue core q.node.path q.node.key
        ((reader.getString q.node.path q.node.key).getD q.defaultValue) q.redactSensitive } []
  else
    .query q.node (recurseFind core reader q.includeKeys q.redactSensitive fuel q.node.path
      q.recursive)

def settingsAddPluginData (plugins : List ℕ) : List (List Char) :=
  (plugins.map core.findPluginAlias).filter fun name =>
    name.take 21 ≠ "Failed to find plugin".toList

def inventoryKeys (q : InventoryRequest) (pluginId : Option ℕ) (path : Path) : List Inventory :=
  let valueOf (key : Name) : Node :=
    ⟨path, key, redactValue core path key ((reader.getString path key).getD []) q.redactSensitive⟩
  let known := (core.getRegKeys path q.fetchSamples).filterMap fun key =>
    let desc := (core.getRegisteredKey path key).getD {}
    if pluginId.all (· ∈ desc.plugins) then some (key, desc) else none
  let registered := known.map fun (key, desc) =>
    Inventory.value (valueOf key)
      { type := desc.type, title := desc.title, description := desc.description
        advanced := desc.advanced, sample := desc.isSample, defaultValue := desc.defaultValue
        plugin := settingsAddPluginData core desc.plugins }
  let others :=
    if pluginId.isSome then []
    else
      ((reader.getKeys path).filter fun key => key ∉ known.map (·.1)).map fun key =>
        Inventory.value (valueOf key) { advanced := true }
  registered ++ others

def inventoryFolder (path : Path) (withSubkey : Bool) : Option Inventory :=
  (core.getRegisteredPath path).map fun desc =>
    .folder ⟨path, [], []⟩
      { type := "folder".toList, title := desc.title, description := desc.description
        advanced := desc.advanced, sample := desc.isSample
        subkey := withSubkey && desc.isSubkey
        plugin := settingsAddPluginData core desc.plugins }

def pathNotFound (path : Path) : List Char :=
  "Settings error: Path not found: ".toList ++ path

/-- The sections of an inventory, up to one that raises an exception. -/
def inventoryPaths (q : InventoryRequest) (pluginId : Option ℕ) (withSubkey : Bool) :
    List Path → List Inventory × Option (List Char)
  | [] => ([], none)
  | path :: paths =>
    let keys := if q.fetchKeys then inventoryKeys core reader q pluginId path else []
    let rest := inventoryPaths q pluginId withSubkey paths
    if q.fetchPaths then
      match inventoryFolder core path withSubkey with
      | none => (keys, some (pathNotFound path))
      | some folder => (keys ++ folder :: rest.1, rest.2)
    else (keys ++ rest.1, rest.2)

def parseInventory (q : InventoryRequest) : Response :=
  let pluginId := if q.plugin.isEmpty then none else core.findPlugin q.plugin
  if !q.node.key.isEmpty then
    let desc := (core.getRegisteredKey q.node.path q.node.key).getD {}
    .inventory [.described q.node
      { type := desc.type, title := desc.title, description := desc.description }] none
  else
    let paths :=
      if q.recursiveFetch then core.getRegSections q.node.path q.fetchSamples else [q.node.path]
    let (entries, message) := inventoryPaths core reader q pluginId q.recursiveFetch paths
    if message.isSome then .inventory entries message
    else
      let templates :=
        if q.fetchTemplates then
          core.getRegisteredTemplates.map fun desc =>
            Inventory.template ⟨desc.path, [], desc.data⟩
              { type := "template".toList, title := desc.title, isTemplate := true
                plugin := [core.findPluginAlias desc.pluginId] }
        else []
      .inventory (entries ++ templates) none

def pathMatches (path filter : Path) (recursive : Bool) : Bool :=
  if filter.isEmpty then true
  else if recursive then
    path = filter ||
      (decide (filter <+: path) && decide (filter.length < path.length) &&
        (path[filter.length]? = some '/' || filter.getLast? = some '/'))
  else path = filter

def diffEntry (c : Change) : DiffEntry :=
  let sensitive :=
    if c.key.isEmpty then false else (isSensitiveKey core c.path c.key).getD false
  { path := c.path, key := c.key, kind := c.kind, isSensitive := sensitive
    oldValue := if sensitive && !c.oldValue.isEmpty then mask else c.oldValue
    newValue := if sensitive && !c.newValue.isEmpty then mask else c.newValue }

def parseDiff (q : DiffRequest) : Response :=
  .diff ((reader.getChanges.filter fun c => pathMatches c.path q.node.path q.recursive).map
    (diffEntry core))

def handle (fuel : ℕ) : Request → Response
  | .inventory q => parseInventory core reader q
  | .query q => parseQuery core reader fuel q
  | .diff q => parseDiff core reader q

end Handlers

end Nscp.Settings
