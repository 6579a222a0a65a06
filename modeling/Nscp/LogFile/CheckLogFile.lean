import Nscp.LogFile.Bookmark
import Nscp.Library.Delimited
import Nscp.Library.OrderedMap

/-!
# Checks of log files with bookmarks

A check reads each of its files from the bookmark on, hands the complete records to the filter and
moves the bookmarks once every file has been read.  The positions are saved when the module is
unloaded and restored when it is loaded, also onto a module that is running.
-/

namespace Nscp.LogFile

open Delimited

/-! ## Reading a file -/

/-- What a check has read of a file: the position it found under the key, where it started, the
file at that moment, the records it handed to the filter, and whether it reached the end. -/
structure Read where
  key : List Char
  found : Position
  offset : ℕ
  content : List Char
  records : List (ℕ × List Char)
  exhausted : Bool
  deriving DecidableEq

def sizeLimit (maxBytes : ℕ) : ℕ :=
  if maxBytes = 0 then 2 ^ 64 - 1 else maxBytes

def completeRecordEnd (delim contents : List Char) : ℕ :=
  match rfind delim contents with
  | none => 0
  | some last => last + delim.length

/-- The records from an offset on, cut back to complete ones where the limit is reached; `none` is
the error that there is no complete one. -/
def readRecords (delim : List Char) (maxBytes offset : ℕ) (content : List Char) :
    Option (List (ℕ × List Char) × Bool) :=
  if sizeLimit maxBytes < (content.drop offset).length then
    if completeRecordEnd delim ((content.drop offset).take (sizeLimit maxBytes)) = 0 then none
    else some (records delim offset (((content.drop offset).take (sizeLimit maxBytes)).take
      (completeRecordEnd delim ((content.drop offset).take (sizeLimit maxBytes)))), false)
  else some (records delim offset (content.drop offset), true)

section Hash

variable (hash : List Char → ℕ)

section

variable (prev : Position) (content : List Char)

def readHead : List Char :=
  content.take (min (max content.length prev.fingerprintLen) maxFingerprintLen)

def headFingerprint : ℕ :=
  if prev.fingerprintLen ≤ (readHead prev content).length then
    hash ((readHead prev content).take prev.fingerprintLen)
  else 0

def resumeDecision : Resume :=
  computeResume prev content.length (headFingerprint hash prev content)
    (prev.fingerprintLen ≤ (readHead prev content).length)

def nextPosition (offset : ℕ) : Position :=
  ⟨true, offset, (readHead prev content).length, hash (readHead prev content)⟩

end

/-- A file may grow between the moment it is measured and the moment it is read. -/
def readFile (delim : List Char) (maxBytes : ℕ) (key : List Char) (prev : Position)
    (content growth : List Char) : Option (Read × Position) :=
  if (resumeDecision hash prev content).skip then
    some (⟨key, prev, (resumeDecision hash prev content).offset, content, [], true⟩,
      nextPosition hash prev content (resumeDecision hash prev content).offset)
  else
    match readRecords delim maxBytes (resumeDecision hash prev content).offset
        (content ++ growth) with
    | none => none
    | some (rs, exhausted) =>
      some (⟨key, prev, (resumeDecision hash prev content).offset, content ++ growth, rs,
          exhausted⟩,
        nextPosition hash prev content (endOf delim (resumeDecision hash prev content).offset rs))

/-! ## Checks -/

/-- A file of a check, with the bookmark it is read under, whether it can be opened and measured,
and what is written to it while it is read. -/
structure FileArg where
  name : List Char
  path : List Char
  opens : Bool := true
  sized : Bool := true
  growth : List Char := []

def makeKey (bookmark file : List Char) : List Char :=
  bookmark ++ '\x1f' :: file

def FileArg.key (f : FileArg) : List Char :=
  makeKey f.name f.path

structure Check where
  lineSplit : List Char
  maxBytes : ℕ
  files : List FileArg

structure State where
  files : List Char → List Char
  live : Store := {}
  persisted : List (List Char × List Char) := []
  persistedKeys : List (List Char) := []

namespace State

def position (s : State) (key : List Char) : Position :=
  parse ((s.live.value key).getD [])

def append (s : State) (path bytes : List Char) : State :=
  { s with files := Function.update s.files path (s.files path ++ bytes) }

def touch (s : State) (key : List Char) : State :=
  { s with live := s.live.touch key }

def put (s : State) (key value : List Char) : State :=
  { s with live := s.live.put key value }

end State

def checkFiles (delim : List Char) (maxBytes : ℕ) :
    List FileArg → State → State × List Read × Option (List (List Char × Position))
  | [], s => (s, [], some [])
  | f :: fs, s =>
    if !f.opens then (s, [], none)
    else if !f.sized then (s.touch f.key, [], none)
    else
      match readFile hash delim maxBytes f.key (s.position f.key) (s.files f.path) f.growth with
      | none => ((s.touch f.key).append f.path f.growth, [], none)
      | some (read, next) =>
        match checkFiles delim maxBytes fs ((s.touch f.key).append f.path f.growth) with
        | (s', reads, pending) => (s', read :: reads, pending.map ((f.key, next) :: ·))

def storePending (s : State) (pending : List (List Char × Position)) : State :=
  pending.foldl (fun s p => s.put p.1 (format p.2)) s

/-- A check without a line delimiter is refused. -/
def check (c : Check) (s : State) : State × List Read :=
  if c.lineSplit = [] then (s, [])
  else
    match checkFiles hash c.lineSplit c.maxBytes c.files s with
    | (s', reads, none) => (s', reads)
    | (s', reads, some pending) => (storePending s' pending, reads)

def checkFails (c : Check) (s : State) : Bool :=
  c.lineSplit = [] || (checkFiles hash c.lineSplit c.maxBytes c.files s).2.2.isNone

/-! ## Saving and restoring -/

/-- The live positions are written to the storage, and those that were forgotten are blanked. -/
def unloadModule (s : State) : State :=
  { files := s.files
    persisted :=
      (s.persistedKeys.filter fun key => (s.live.value key).isNone).foldl
        (fun m key => OrderedMap.insert key [] m)
        (s.live.entries.entries.foldl (fun m e => OrderedMap.insert e.1 e.2.value m) s.persisted) }

/-- The stored positions are put into the live table, on top of what is there. -/
def loadModule (s : State) : State :=
  (s.persisted.filter fun e => !e.2.isEmpty).foldl
    (fun s e => { s.put e.1 e.2 with persistedKeys := e.1 :: s.persistedKeys }) s

/-! ## Runs -/

inductive Action
  | append (path bytes : List Char)
  | check (c : Check)
  | unload
  | load

def step (s : State) : Action → State × List Read
  | .append path bytes => (s.append path bytes, [])
  | .check c => check hash c s
  | .unload => (unloadModule s, [])
  | .load => (loadModule s, [])

def run (s : State) : List Action → State × List Read
  | [] => (s, [])
  | a :: actions =>
    match step hash s a with
    | (s', reads) => ((run s' actions).1, reads ++ (run s' actions).2)

end Hash

def readsOf (key : List Char) (reads : List Read) : List Read :=
  reads.filter (·.key = key)

/-- The records that were handed to the filter. -/
def offered (reads : List Read) : List (ℕ × List Char) :=
  reads.flatMap Read.records

end Nscp.LogFile
