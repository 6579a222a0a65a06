import Nscp.Library.FileTree
import Nscp.Library.Regex
import Nscp.Library.Text

/-!
# The policy for file arguments

Which files a caller may name.  In allowed mode the argument is resolved to a physical path, the
path is refused if it still holds a parent element or passes through a symbolic link, and it must
lie under a directory of the allow list or match one of its globs.  This is the POSIX side: there
the backslash is an ordinary character.
-/

namespace Nscp.Access

open FileTree

/-! ## The base policy -/

inductive Mode
  | any
  | allowed
  | predefined
  deriving DecidableEq

structure Policy where
  settingsPath : List Char
  mode : Mode := .any
  configError : List Char := []
  predefined : List Char → Option (List Char) := fun _ => none

/-! ## Texts of paths -/

def isRoot (s : List Char) : Bool :=
  s = ['/'] || s.length = 3 && s[1]? = some ':' && s[2]? = some '/'

/-- Trailing separators go, the text given from its end. -/
def trimReversed : List Char → List Char
  | [] => []
  | c :: s =>
    if 0 < s.length && c = '/' && !isRoot (c :: s).reverse then trimReversed s else c :: s

def trimTrailingSeparator (s : List Char) : List Char :=
  (trimReversed s.reverse).reverse

/-- A path with a root directory; in `//name/` the name belongs to the root. -/
def isAbsolute : List Char → Bool
  | '/' :: '/' :: c :: rest => c = '/' || '/' ∈ rest
  | ['/', '/'] => false
  | '/' :: _ => true
  | _ => false

def hasParentElement (path : List Char) : Bool :=
  ['.', '.'] ∈ path.splitOn '/'

def hasWildcard (s : List Char) : Bool :=
  '*' ∈ s || '?' ∈ s

/-- The leading parts of a path: up to each separator behind its first character, and all of it. -/
def prefixesFrom (done : List Char) : List Char → List (List Char)
  | [] => [done]
  | c :: rest =>
    if c = '/' ∧ done ≠ [] then done :: prefixesFrom (done ++ [c]) rest
    else prefixesFrom (done ++ [c]) rest

/-- Not looked at in the search for links: the root, and what would be a drive or a server. -/
def isRootName (p : List Char) : Bool :=
  p = [] || p = ['/'] || isRoot p || p.getLast? = some ':' ||
    2 < p.length && p[0]? = some '/' && p[1]? = some '/' && '/' ∉ p.drop 2

/-! ## The file system -/

inductive FileType
  | notFound
  | statusError
  | symlink
  | directory
  | regular
  deriving DecidableEq

def fileType (fs : System) : Except Errno (List Name) → FileType
  | .error .noEntry => .notFound
  | .error .notDirectory => .notFound
  | .error _ => .statusError
  | .ok loc =>
    match fs.root.nodeAt loc with
    | none => .statusError
    | some (.link _) => .symlink
    | some (.dir _ _) => .directory
    | some (.file _) => .regular

section

variable (fs : System) (path : List Char)

def symlinkStatus : FileType :=
  fileType fs (fs.locate false (cString path))

def status : FileType :=
  fileType fs (fs.locate true (cString path))

def openFile : Except Errno (List Name) :=
  fs.locate true (cString path)

end

/-- The search ends at the first part that does not exist. -/
def anySymlink (fs : System) : List (List Char) → Bool
  | [] => false
  | p :: ps =>
    if isRootName p then anySymlink fs ps
    else
      match symlinkStatus fs p with
      | .notFound => false
      | .statusError => true
      | .symlink => true
      | _ => anySymlink fs ps

def hasSymlinkElement (fs : System) (path : List Char) : Bool :=
  anySymlink fs (prefixesFrom [] path)

/-- How paths are resolved: with the file system, or by their text alone. -/
structure Resolver where
  weaklyCanonical : List Char → Except (List Char) (List Char)
  lexicallyNormal : List Char → List Char

def canonical (r : Resolver) (path : List Char) : List Char :=
  match r.weaklyCanonical path with
  | .ok resolved => trimTrailingSeparator resolved
  | .error _ => trimTrailingSeparator (r.lexicallyNormal path)

/-- The path the check would open, or why there is none. -/
def resolvePhysical (fs : System) (r : Resolver) (token : List Char) :
    Except (List Char) (List Char) :=
  if '\x00' ∈ token then .error "it contains a NUL character".toList
  else
    match r.weaklyCanonical token with
    | .error message => .error ("it could not be resolved (".toList ++ message ++ ")".toList)
    | .ok canonicalPath =>
      if trimTrailingSeparator canonicalPath = [] ∨
          isAbsolute (trimTrailingSeparator canonicalPath) = false then
        .error "it is not an absolute path".toList
      else if hasParentElement (trimTrailingSeparator canonicalPath) then
        .error "it could not be resolved to a path without a \x27..\x27 element".toList
      else if hasSymlinkElement fs (trimTrailingSeparator canonicalPath) then
        .error "it passes through a symbolic link the resolver did not follow".toList
      else .ok (trimTrailingSeparator canonicalPath)

/-! ## The allow list -/

def escaped : List Char :=
  ['.', '\\', '+', '^', '$', '(', ')', '[', ']', '\x7b', '\x7d', '|']

def globToRegex : List Char → List Char
  | [] => []
  | '*' :: '*' :: glob => ".*".toList ++ globToRegex glob
  | '*' :: glob => "[^/]*".toList ++ globToRegex glob
  | '?' :: glob => "[^/]".toList ++ globToRegex glob
  | c :: glob => (if c ∈ escaped then ['\\', c] else [c]) ++ globToRegex glob

/-- A directory, or a pattern that is the whole path. -/
inductive Entry
  | directory (text : List Char)
  | glob (text : List Char)

def lastSlash (text : List Char) (bound : ℕ) : Option ℕ :=
  ((List.range (min (bound + 1) text.length)).filter fun i => text[i]? = some '/').getLast?

/-- The directory in front of the first wildcard is resolved, the rest is a pattern. -/
def resolveGlobPrefix (r : Resolver) (item : List Char) : List Char :=
  let normalised := trimTrailingSeparator item
  let wild := normalised.findIdx fun c => c = '*' || c = '?'
  match lastSlash normalised wild with
  | none => normalised
  | some 0 => normalised
  | some slash =>
    if hasWildcard (normalised.take slash) then normalised
    else canonical r (normalised.take slash) ++ normalised.drop slash

/-- Only a file that is there now stands for itself alone. -/
def makeEntry (fs : System) (r : Resolver) (item : List Char) : Entry :=
  if hasWildcard item then .glob (resolveGlobPrefix r item)
  else if status fs item = .regular then .glob (canonical r item)
  else .directory (canonical r item)

def isUnder (dir file : List Char) : Bool :=
  if dir = [] then false
  else if file = dir then true
  else if file.length ≤ dir.length then false
  else if file.take dir.length ≠ dir then false
  else if dir.getLast? = some '/' then true
  else file[dir.length]? = some '/'

structure PathPolicy where
  base : Policy
  entries : List Entry := []

namespace PathPolicy

def setAllowList (fs : System) (r : Resolver) (p : PathPolicy) (value : List Char) : PathPolicy :=
  { p with
    entries := (((value.splitOn ',').map Text.trim).filter (· ≠ [])).map (makeEntry fs r) }

def matchesAllowList (p : PathPolicy) (resolved : List Char) : Bool :=
  p.entries.any fun
    | .directory text => isUnder text resolved
    | .glob text => Regex.regexMatch (globToRegex text) resolved

def resolve (fs : System) (r : Resolver) (p : PathPolicy) (token : List Char) :
    Except (List Char) (List Char) :=
  match p.base.predefined token with
  | some configured => .ok configured
  | none =>
    if p.base.configError ≠ [] then .error p.base.configError
    else
      match p.base.mode with
      | .any => .ok token
      | .allowed =>
        match resolvePhysical fs r token with
        | .error why =>
          .error ("Refusing file \x27".toList ++ token ++ "\x27: ".toList ++ why ++
            " (see [".toList ++ p.base.settingsPath ++ "] in the configuration)".toList)
        | .ok resolved =>
          if p.matchesAllowList resolved then .ok resolved
          else
            .error ("Refusing file \x27".toList ++ token ++
              "\x27: it is not in \x27allowed files\x27 (see [".toList ++
              p.base.settingsPath ++ "] in the configuration)".toList)
      | .predefined =>
        .error ("Refusing file \x27".toList ++ token ++
          "\x27: \x27file access\x27 is set to predefined, so only a configured file ".toList ++
          "name may be used (see [".toList ++ p.base.settingsPath ++
          "] in the configuration)".toList)

end PathPolicy

end Nscp.Access
