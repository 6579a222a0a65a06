import Nscp.Library.Table
import Nscp.Service.Facts

/-!
# The fact repository

`fact_repository`: the fact sets of the host with their encodings, sizes and owners, and
the rounds that hold back what is hashed and uploaded.  Every public function runs under
one lock, so an interleaving of calls is a sequence of them.
-/

namespace Nscp.Service.Facts

/-- The libraries the repository rests on; a digest that fails is empty. -/
structure Codec where
  formatDouble : Float → String
  serialize : Object → List UInt8
  canHash : Bool
  digest : String → String

/-- `sha256_hex`, empty in a build without a digest. -/
def Codec.sha256Hex (codec : Codec) (bytes : String) : String :=
  if codec.canHash then codec.digest bytes else ""

structure Frozen where
  collected : String
  json : Option String
  revision : ℕ
  hash : String

structure Snapshot where
  json : String
  hash : String
  revision : ℕ
  collected : String
  deriving DecidableEq, Repr

def defaultMaxSize : ℕ := 1048576
def minMaxSize : ℕ := 2

structure Repository where
  sets : Table String Object
  encoded : Table String (List UInt8)
  size : ℕ
  owners : Table String ℕ
  declared : Table ℕ (List String)
  errors : Table String String
  gathered : Table String String
  collected : String
  hash : String
  hashDirty : Bool
  revision : ℕ
  rounds : ℕ
  frozen : Option Frozen
  maxSize : ℕ

inductive SetResult where
  | changed
  | unchanged
  | rejected (error : String)
  deriving DecidableEq, Repr

def inOrder {β : Type} (t : Table String β) : List (Sigma fun _ : String => β) :=
  t.entries.mergeSort fun a b => decide (a.1 ≤ b.1)

namespace Repository

def new : Repository where
  sets := ∅
  encoded := ∅
  size := 0
  owners := ∅
  declared := ∅
  errors := ∅
  gathered := ∅
  collected := ""
  hash := ""
  hashDirty := true
  revision := 0
  rounds := 0
  frozen := none
  maxSize := defaultMaxSize

def document (r : Repository) : Object :=
  (inOrder r.sets).map fun entry => .mk entry.1 (.object entry.2)

section

variable (codec : Codec) (r : Repository)

def json : String := toJson codec.formatDouble r.document

/-! ## Hashes and snapshots -/

def freezeLocked (setsChange : Bool) : Repository :=
  if r.rounds = 0 then r
  else
    let state := r.frozen.getD ⟨r.collected, none, 0, ""⟩
    if !setsChange || state.json.isSome then { r with frozen := some state }
    else
      { r with
        frozen := some
          { state with
            json := some (r.json codec)
            revision := r.revision
            hash := if r.hashDirty then state.hash else r.hash } }

def hashLocked (json : String) : Repository × String :=
  if !codec.canHash then (r, "")
  else if !r.hashDirty then (r, r.hash)
  else
    let digest := codec.sha256Hex json
    if digest = "" then (r, digest)
    else ({ r with hash := digest, hashDirty := false }, digest)

def buildSnapshotLocked : Repository × Snapshot :=
  let json := r.json codec
  let p := r.hashLocked codec json
  (p.1, ⟨json, p.2, r.revision, r.collected⟩)

def frozenHashLocked (state : Frozen) : Repository × String :=
  match state.json with
  | none =>
    if codec.canHash && r.hashDirty then r.hashLocked codec (r.json codec) else (r, r.hash)
  | some json =>
    if state.hash = "" ∧ codec.canHash = true then
      let hash := codec.sha256Hex json
      ({ r with frozen := some { state with hash := hash } }, hash)
    else (r, state.hash)

def frozenSnapshotLocked (state : Frozen) : Repository × Snapshot :=
  match state.json with
  | none =>
    let p := r.buildSnapshotLocked codec
    (p.1, { p.2 with collected := state.collected })
  | some json =>
    let p := r.frozenHashLocked codec state
    (p.1, ⟨json, p.2, state.revision, state.collected⟩)

def getHash : Repository × String :=
  match r.frozen with
  | some state => r.frozenHashLocked codec state
  | none =>
    if !codec.canHash || !r.hashDirty then (r, r.hash) else r.hashLocked codec (r.json codec)

def getSnapshot : Repository × Snapshot :=
  match r.frozen with
  | some state => r.frozenSnapshotLocked codec state
  | none => r.buildSnapshotLocked codec

def beginRound : Repository := { r with rounds := r.rounds + 1 }

def endRound : Repository :=
  if r.rounds = 0 then r
  else { r with rounds := r.rounds - 1, frozen := if r.rounds - 1 = 0 then none else r.frozen }

def markCollected (timestamp : String) : Repository :=
  if r.collected = timestamp then r
  else { r.freezeLocked codec false with collected := timestamp }

/-! ## Changes -/

def touch : Repository := { r with hashDirty := true, revision := r.revision + 1 }

def set (factSet : String) (pluginId : ℕ) (value : Object) : Repository × SetResult :=
  if !isValidKey factSet then
    (r, .rejected ("'" ++ clip factSet ++ "' is not a valid fact set name (snake_case, at most " ++
      toString maxKeyLength ++ " characters)"))
  else
    match validateObject factSet 1 value with
    | .error error => (r, .rejected error)
    | .ok () =>
      let candidate := sortFields value
      let encoded := codec.serialize candidate
      if (r.owners.lookup factSet).any fun owner => owner != pluginId then
        (r, .rejected ("fact set '" ++ factSet ++ "' is already produced by another module"))
      else if r.encoded.lookup factSet = some encoded then
        ({ r with owners := r.owners.insert factSet pluginId }, .unchanged)
      else
        let wouldBe :=
          r.size - ((r.encoded.lookup factSet).map List.length).getD 0 + encoded.length
        if wouldBe > r.maxSize then
          (r, .rejected ("fact set '" ++ factSet ++ "' would take the facts document past the " ++
            toString r.maxSize ++ " byte budget"))
        else
          let r := r.freezeLocked codec true
          ({ r with
              sets := r.sets.insert factSet candidate
              encoded := r.encoded.insert factSet encoded
              size := wouldBe
              owners := r.owners.insert factSet pluginId }.touch, .changed)

def eraseLocked (factSet : String) : Repository × Bool :=
  let r := { r with owners := r.owners.erase factSet }
  match r.encoded.lookup factSet with
  | none => (r, false)
  | some encoded =>
    let r := r.freezeLocked codec true
    ({ r with
        size := r.size - encoded.length
        encoded := r.encoded.erase factSet
        sets := r.sets.erase factSet
        gathered := r.gathered.erase factSet }, true)

def eraseEach (factSets : List String) : Repository × Bool :=
  factSets.foldl (fun p factSet =>
    let q := p.1.eraseLocked codec factSet
    (q.1, q.2 || p.2)) (r, false)

def eraseAll (factSets : List String) : Repository :=
  let p := r.eraseEach codec factSets
  if p.2 then p.1.touch else p.1

def remove (factSet : String) : Repository × SetResult :=
  let p := r.eraseLocked codec factSet
  if p.2 then (p.1.touch, .changed) else (p.1, .unchanged)

def mentions (ids : List String) (factSet : String) : Bool :=
  decide (factSet ∈ ids) ||
    ids.any fun id => (factSet ++ ".").toList.isPrefixOf id.toList &&
      decide ((factSet ++ ".").length < id.length)

def ownedBy (pluginId : ℕ) : List String :=
  (inOrder r.owners).filterMap fun entry => if entry.2 = pluginId then some entry.1 else none

def removeOwnedBy (pluginId : ℕ) : Repository :=
  eraseAll codec { r with declared := r.declared.erase pluginId } (r.ownedBy pluginId)

def retainOnly (pluginId : ℕ) (produced : List String) : Repository :=
  eraseAll codec { r with declared := r.declared.insert pluginId produced }
    ((r.ownedBy pluginId).filter fun factSet => !mentions produced factSet)

def markGathered (factSet timestamp : String) : Repository :=
  if (r.sets.lookup factSet).isNone then r
  else if timestamp = "" then { r with gathered := r.gathered.erase factSet }
  else { r with gathered := r.gathered.insert factSet timestamp }

def largest : List (Sigma fun _ : String => List UInt8) → Option String
  | [] => none
  | entry :: entries =>
    some (entries.foldl (fun best e => if best.2.length < e.2.length then e else best) entry).1

def shrink : (turns : ℕ) → Repository → List String → Repository × List String
  | 0, r, dropped => (r, dropped)
  | turns + 1, r, dropped =>
    if r.size ≤ r.maxSize then (r, dropped)
    else
      match largest (inOrder r.encoded) with
      | none => (r, dropped)
      | some name =>
        let p := r.eraseLocked codec name
        shrink turns
          { p.1 with
            errors := p.1.errors.insert name
              ("not kept: the facts document no longer fits the lowered max size of " ++
                toString p.1.maxSize ++ " bytes") }
          (dropped ++ [name])

def setMaxSize (maxSize : ℕ) : Repository × List String :=
  if maxSize < minMaxSize then (r, [])
  else
    let p := shrink codec r.encoded.entries.length { r with maxSize := maxSize } []
    (if p.2.isEmpty then p.1 else p.1.touch, p.2)

def setErrors (errors : Table String String) : Repository := { r with errors := errors }

end

/-! ## Calls -/

inductive Op where
  | set (factSet : String) (pluginId : ℕ) (value : Object)
  | remove (factSet : String)
  | removeOwnedBy (pluginId : ℕ)
  | retainOnly (pluginId : ℕ) (produced : List String)
  | markGathered (factSet timestamp : String)
  | setMaxSize (maxSize : ℕ)
  | setErrors (errors : Table String String)
  | markCollected (timestamp : String)
  | beginRound
  | endRound
  | getHash
  | getSnapshot

def step (codec : Codec) (r : Repository) : Op → Repository
  | .set factSet pluginId value => (r.set codec factSet pluginId value).1
  | .remove factSet => (r.remove codec factSet).1
  | .removeOwnedBy pluginId => r.removeOwnedBy codec pluginId
  | .retainOnly pluginId produced => r.retainOnly codec pluginId produced
  | .markGathered factSet timestamp => r.markGathered factSet timestamp
  | .setMaxSize maxSize => (r.setMaxSize codec maxSize).1
  | .setErrors errors => r.setErrors errors
  | .markCollected timestamp => r.markCollected codec timestamp
  | .beginRound => r.beginRound
  | .endRound => r.endRound
  | .getHash => (r.getHash codec).1
  | .getSnapshot => (r.getSnapshot codec).1

def run (codec : Codec) (ops : List Op) : Repository := ops.foldl (step codec) new

end Repository

end Nscp.Service.Facts
