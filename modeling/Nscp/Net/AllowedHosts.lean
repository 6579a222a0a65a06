import Nscp.Library.BitPrefix
import Nscp.Library.Text

/-!
# The allowed-hosts list of the socket servers

`allowed_hosts_manager` keeps the configured source texts and the records they were
turned into: an address and a mask for each, in one list for either address family.
`refresh` rebuilds the records from the texts and `isAllowed` compares a peer with
them.  Reading numeric addresses and looking up names belong to the socket library,
so both are parameters here.
-/

namespace Nscp.Net

open BitPrefix

/-- `boost::asio::ip::address`. -/
inductive Address where
  | v4 (bytes : Bytes 4)
  | v6 (bytes : Bytes 16)
  deriving DecidableEq

def Address.width : Address → ℕ
  | .v4 _ => 32
  | .v6 _ => 128

def isV4Mapped (a : Bytes 16) : Bool :=
  a.toList.take 12 = [0, 0, 0, 0, 0, 0, 0, 0, 0, 0, 0xff, 0xff]

def unmapped (a : Bytes 16) : Bytes 4 :=
  Vector.ofFn fun i : Fin 4 => a.get ⟨12 + i, by omega⟩

/-- What the socket library reads from a text: a numeric address, or the endpoints a
name resolves to.  The error texts are the library's own. -/
structure Sockets where
  makeAddress : List Char → Except (List Char) Address
  resolve : List Char → Except (List Char) (List Address)

namespace AllowedHosts

structure HostRecord (w : ℕ) where
  host : List Char
  addr : Bytes w
  mask : Bytes w

structure Manager where
  entriesV4 : List (HostRecord 4) := []
  entriesV6 : List (HostRecord 16) := []
  sources : List (List Char) := []
  cached : Bool := true

/-! ## Masks -/

/-- `boost::lexical_cast<std::size_t>` on a text of digits; `none` is `bad_lexical_cast`. -/
def lexicalCast (digits : List Char) : Option ℕ :=
  let n := Nat.ofDigitChars 10 digits 0
  if n < 2 ^ 64 then some n else none

def extractMask (mask : List Char) (maskLength : ℕ) : Option ℕ :=
  let found : Option ℕ :=
    match mask.dropWhile fun c => !c.isDigit with
    | [] => some maskLength
    | c :: rest => lexicalCast ((c :: rest).takeWhile Char.isDigit)
  found.map (· % 2 ^ 32)

def maskOf (w bits : ℕ) : Bytes w :=
  Vector.ofFn fun i =>
    if (i : ℕ) < bits / 8 then 0xff
    else if (i : ℕ) = bits / 8 then UInt8.ofNat (0xff - 0xff >>> (bits % 8))
    else 0

def calculateMask (w : ℕ) (maskAsString : List Char) : Option (Bytes w) :=
  (extractMask maskAsString (8 * w)).map (maskOf w)

/-! ## The `*` range syntax -/

/-- The loop over the dotted parts: how many come before the first `*`, and whether
there is one. -/
def scanParts : List (List Char) → Bool → ℕ → Option (ℕ × Bool)
  | [], seenStar, significant => some (significant, seenStar)
  | part :: parts, seenStar, significant =>
    if part = ['*'] then scanParts parts true significant
    else if seenStar then none
    else if part.isEmpty ∨ 3 < part.length ∨ ¬ part.all Char.isDigit then none
    else if 255 < Nat.ofDigitChars 10 part 0 then none
    else scanParts parts seenStar (significant + 1)

def appendPart (result part : List Char) : List Char :=
  (if result.isEmpty then result else result ++ ['.']) ++ part

def expandWildcardV4 (addr : List Char) : Option (List Char × List Char) :=
  let parts := Text.getlines '.' addr
  if parts.isEmpty ∨ 4 < parts.length then none
  else
    match scanParts parts false 0 with
    | none => none
    | some (_, false) => none
    | some (significant, true) =>
      let octets := (parts.take significant).foldl appendPart []
      some ((List.replicate (4 - significant) ['0']).foldl appendPart octets,
        '/' :: Nat.toDigits 10 (significant * 8))

/-! ## Rebuilding the records -/

structure Lists where
  entriesV4 : List (HostRecord 4)
  entriesV6 : List (HostRecord 16)
  errors : List (List Char)

def addAddress (record : List Char) (a : Address) (mask : List Char) (l : Lists) : Option Lists :=
  match a with
  | .v4 bytes => (calculateMask 4 mask).map fun m =>
      { l with entriesV4 := l.entriesV4 ++ [⟨record, bytes, m⟩] }
  | .v6 bytes => (calculateMask 16 mask).map fun m =>
      { l with entriesV6 := l.entriesV6 ++ [⟨record, bytes, m⟩] }

def Lists.report (l : Lists) (message : List Char) : Lists :=
  { l with errors := l.errors ++ [message] }

def isWildcard (addr : List Char) : Bool := addr.contains '*'

def isNumeric (addr : List Char) : Bool :=
  (addr.head?.any Char.isDigit) || addr.contains ':'

/-- The branch for a numeric address.  An unreadable mask throws out of it. -/
def addNumeric (env : Sockets) (record addr mask : List Char) (l : Lists) : Option Lists :=
  match env.makeAddress addr with
  | .error message =>
    some (l.report ("Failed to parse address ".toList ++ record ++ ": ".toList ++ message))
  | .ok a => addAddress record a mask l

def addEndpoints (record : List Char) (mask : List Char) : List Address → Lists → Lists × Bool
  | [], l => (l, true)
  | a :: as, l =>
    match addAddress record a mask l with
    | none => (l, false)
    | some l => addEndpoints record mask as l

/-- The branch for a host name, where exceptions are caught and reported. -/
def addHost (env : Sockets) (record addr mask : List Char) (l : Lists) : Lists :=
  let failure (what : List Char) :=
    "Failed to parse host ".toList ++ record ++ ": ".toList ++ what
  match env.resolve addr with
  | .error message => l.report (failure message)
  | .ok endpoints =>
    match addEndpoints record mask endpoints l with
    | (l, true) => l
    | (l, false) => l.report (failure
        "bad lexical cast: source type value could not be interpreted as target".toList)

/-- One source text; `none` is an exception leaving `refresh`. -/
def readRecord (env : Sockets) (record : List Char) (l : Lists) : Option Lists :=
  let addr := record.takeWhile (· ≠ '/')
  let mask := record.dropWhile (· ≠ '/')
  if addr.isEmpty then some l
  else if isWildcard addr then
    if !mask.isEmpty then
      some (l.report ("Invalid address: ".toList ++ record ++
        " (a * range cannot also carry a /mask)".toList))
    else
      match expandWildcardV4 addr with
      | none => some (l.report ("Invalid address: ".toList ++ record ++
          (" (a * may only replace whole trailing octets of an IPv4 address, " ++
            "as in 192.168.1.*)").toList))
      | some (addr, mask) => addNumeric env record addr mask l
  else if isNumeric addr then addNumeric env record addr mask l
  else some (addHost env record addr mask l)

/-- The loop over the sources.  The flag says that it ran to its end. -/
def readRecords (env : Sockets) : List (List Char) → Lists → Lists × Bool
  | [], l => (l, true)
  | record :: records, l =>
    match readRecord env record l with
    | none => (l, false)
    | some l => readRecords env records l

/-- The manager and the errors after the call, and whether it returned. -/
def refresh (env : Sockets) (m : Manager) (errors : List (List Char)) :
    Manager × List (List Char) × Bool :=
  let (l, returned) := readRecords env m.sources ⟨[], [], errors⟩
  ({ m with entriesV4 := l.entriesV4, entriesV6 := l.entriesV6 }, l.errors, returned)

def trim (s : List Char) : List Char :=
  (s.dropWhile Text.isSpace).rdropWhile Text.isSpace

def setSource (m : Manager) (source : List Char) : Manager :=
  { m with sources := ((Text.getlines ',' source).map trim).filter (!·.isEmpty) }

/-! ## Admitting a peer -/

def matchHost {w : ℕ} (allowed mask remote : Bytes w) : Bool :=
  decide (∀ i : Fin w, allowed.get i &&& mask.get i = remote.get i &&& mask.get i)

def isAllowedV4 (entriesV4 : List (HostRecord 4)) (remote : Bytes 4) : Bool :=
  entriesV4.any fun r => matchHost r.addr r.mask remote

def isAllowedV6 (entriesV6 : List (HostRecord 16)) (remote : Bytes 16) : Bool :=
  entriesV6.any fun r => matchHost r.addr r.mask remote

def admits (entriesV4 : List (HostRecord 4)) (entriesV6 : List (HostRecord 16)) :
    Address → Bool
  | .v4 remote =>
    if entriesV4.isEmpty && entriesV6.isEmpty then false else isAllowedV4 entriesV4 remote
  | .v6 remote =>
    if entriesV4.isEmpty && entriesV6.isEmpty then false
    else if isV4Mapped remote then
      isAllowedV6 entriesV6 remote || isAllowedV4 entriesV4 (unmapped remote)
    else isAllowedV6 entriesV6 remote

/-- `is_allowed` with the manager and the errors it leaves; without the cache the
records are rebuilt first, and an answer of `none` is the exception of that. -/
def isAllowed (env : Sockets) (m : Manager) (peer : Address) (errors : List (List Char)) :
    Option Bool × Manager × List (List Char) :=
  if m.cached then (some (admits m.entriesV4 m.entriesV6 peer), m, errors)
  else
    match refresh env m errors with
    | (m, errors, true) => (some (admits m.entriesV4 m.entriesV6 peer), m, errors)
    | (m, errors, false) => (none, m, errors)

end AllowedHosts
end Nscp.Net
