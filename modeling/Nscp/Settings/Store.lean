import Nscp.Library.Table
import Nscp.Library.Text

/-!
# The settings store

`settings_interface_impl` puts five caches in front of a backend: the values read or
written so far with a flag for the unsaved ones, the names of the keys written, the
sections added, and the keys and sections removed but not yet removed from the
backend.  A backend keeps what it is told.  Child stores are left out, and with them
the branches that ask a child.
-/

namespace Nscp.Settings

abbrev Path := List Char
abbrev Name := List Char
abbrev Key := Path × Name
abbrev Value := List Char

structure Container where
  value : Value
  dirty : Bool
  deriving DecidableEq

/-! ## Backend -/

structure Backend where
  values : Table Key Value
  paths : List Path

namespace Backend

variable (b : Backend)

def getRealString (key : Key) : Option Value := b.values.lookup key

def hasRealKey (key : Key) : Bool := (b.getRealString key).isSome

def hasRealPath (path : Path) : Bool := path ∈ b.paths

def getRealKeys (path : Path) : List Name :=
  (b.values.keys.filter (·.1 = path)).map (·.2)

def setRealPath (path : Path) : Backend := { b with paths := b.paths.insert path }

/-- Only dirty values are written. -/
def setRealValue (key : Key) (c : Container) : Backend :=
  if !c.dirty then b
  else { values := b.values.insert key c.value, paths := b.paths.insert key.1 }

def removeRealValue (key : Key) : Backend := { b with values := b.values.erase key }

def removeRealPath (path : Path) : Backend where
  values := Table.filter (fun key _ => key.1 ≠ path) b.values
  paths := b.paths.filter (· ≠ path)

end Backend

/-! ## Store -/

structure Store where
  backend : Backend
  settingsCache : Table Key Container
  settingsDeleteCache : List Key
  pathCache : List Path
  settingsDeletePathCache : List Path
  keyCache : Table Path (List Name)

namespace Store

/-- A store that has just been loaded. -/
def ofBackend (backend : Backend) : Store := ⟨backend, ∅, [], [], [], ∅⟩

variable (s : Store)

section

variable (path : Path)

def getString (key : Name) : Option Value × Store :=
  if (path, key) ∈ s.settingsDeleteCache then (none, s)
  else if path ∈ s.settingsDeletePathCache then (none, s)
  else
    match s.settingsCache.lookup (path, key) with
    | some c => (some c.value, s)
    | none =>
      match s.backend.getRealString (path, key) with
      | none => (none, s)
      | some v =>
        (some v, { s with settingsCache := s.settingsCache.insert (path, key) ⟨v, false⟩ })

def addKeyUnsafe (key : Name) : Store :=
  match s.keyCache.lookup path with
  | none => { s with keyCache := s.keyCache.insert path [key] }
  | some names => { s with keyCache := s.keyCache.insert path (names.insert key) }

def setString (key : Name) (value : Value) : Store :=
  let s := { s with
    settingsDeleteCache := s.settingsDeleteCache.filter (· ≠ (path, key))
    settingsDeletePathCache := s.settingsDeletePathCache.filter (· ≠ path) }
  if ((s.settingsCache.lookup (path, key)).any fun c => c.value = value) then s
  else
    let current := s.backend.getRealString (path, key)
    let unchanged := current = some value ∨ current = none ∧ value = []
    let s := { s with
      settingsCache := s.settingsCache.insert (path, key) ⟨value, ¬ unchanged⟩
      pathCache := s.pathCache.insert path }
    if unchanged then s else s.addKeyUnsafe path key

def removeKey (key : Name) : Store :=
  { s with
    settingsCache := s.settingsCache.erase (path, key)
    keyCache :=
      match s.keyCache.lookup path with
      | none => s.keyCache
      | some names => s.keyCache.insert path (names.filter (· ≠ key))
    settingsDeleteCache := s.settingsDeleteCache.insert (path, key) }

def removePath : Store :=
  { s with
    pathCache := s.pathCache.filter (· ≠ path)
    keyCache := s.keyCache.erase path
    settingsDeletePathCache := s.settingsDeletePathCache.insert path }

def addPath : Store := { s with pathCache := s.pathCache.insert path }

/-- The names `add_key_unsafe` has noted for a section. -/
def cachedKeys : List Name := (s.keyCache.lookup path).getD []

/-- A section may be named with a slash at its end. -/
def sectionOf : Path :=
  if path.getLast? = some '/' then path.dropLast else path

def getKeys : List Name :=
  let path := sectionOf path
  if path ∈ s.settingsDeletePathCache then []
  else
    ((s.cachedKeys path ++ s.backend.getRealKeys path).toFinset.sort (· ≤ ·)).filter
      fun k => (path, k) ∉ s.settingsDeleteCache

def hasKey (key : Name) : Bool :=
  if (path, key) ∈ s.settingsDeleteCache then false
  else if path ∈ s.settingsDeletePathCache then false
  else if (s.settingsCache.lookup (path, key)).isSome then true
  else s.backend.hasRealKey (path, key)

end

/-- Hand the staged changes to the backend, then drop the markers it agrees with. -/
def save (reSaveAll : Bool) : Store :=
  let b := s.settingsDeleteCache.foldl Backend.removeRealValue s.backend
  let b := s.settingsDeletePathCache.foldl Backend.removeRealPath b
  let b := s.pathCache.foldl Backend.setRealPath b
  let cache : Table Key Container :=
    if reSaveAll then Table.mapValues (fun _ c => { c with dirty := true }) s.settingsCache
    else s.settingsCache
  let b := cache.entries.foldl (fun b e => b.setRealValue e.1 e.2) b
  let b := if reSaveAll then (cache.keys.map (·.1)).foldl Backend.setRealPath b else b
  { s with
    backend := b
    settingsCache :=
      Table.mapValues (fun key c => if b.hasRealKey key then { c with dirty := false } else c) cache
    settingsDeleteCache := s.settingsDeleteCache.filter (b.hasRealKey ·)
    settingsDeletePathCache := s.settingsDeletePathCache.filter (b.hasRealPath ·)
    pathCache := s.pathCache.filter (!b.hasRealPath ·) }

def load : Store := ofBackend s.backend

end Store

/-! ## Runs -/

inductive Op where
  | setString (path : Path) (key : Name) (value : Value)
  | removeKey (path : Path) (key : Name)
  | removePath (path : Path)
  | addPath (path : Path)
  | getString (path : Path) (key : Name)
  deriving DecidableEq

def Store.step (s : Store) : Op → Store
  | .setString path key value => s.setString path key value
  | .removeKey path key => s.removeKey path key
  | .removePath path => s.removePath path
  | .addPath path => s.addPath path
  | .getString path key => (s.getString path key).2

def Store.run (s : Store) (ops : List Op) : Store := ops.foldl Store.step s

/-- The store as its users see it. -/
abbrev Plain := Key → Option Value

def Plain.step (m : Plain) : Op → Plain
  | .setString path key value => Function.update m (path, key) (some value)
  | .removeKey path key => Function.update m (path, key) none
  | .removePath path => fun q => if q.1 = path then none else m q
  | .addPath _ => m
  | .getString _ _ => m

def Plain.run (m : Plain) (ops : List Op) : Plain := ops.foldl Plain.step m

/-- The reads of a store are those of a plain map. -/
structure Agrees (s : Store) (m : Plain) : Prop where
  getString : ∀ path key, (s.getString path key).1 = m (path, key)
  hasKey : ∀ path key, s.hasKey path key = (m (path, key)).isSome
  sorted : ∀ path, (s.getKeys path).Pairwise (· < ·)
  getKeys : ∀ path key, key ∈ s.getKeys path ↔ (m (Store.sectionOf path, key)).isSome = true

end Nscp.Settings
