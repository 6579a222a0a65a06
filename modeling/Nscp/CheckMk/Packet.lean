import Nscp.Library.Text

/-!
# check_mk agent output

`check_mk::packet` is a list of sections, each with a title, optional decorations
and lines of items, and of blocks of sections that belong to other hosts.
`Packet.write` renders it and `Packet.read` reads rendered text, both as in
`net/check_mk/data.hpp`.  Characters stand for bytes.
-/

namespace Nscp.CheckMk

open Text

abbrev Line := List (List Char)

def charOf (code : Int32) : Char := Char.ofNat (code.toInt % 256).toNat

structure Section where
  title : List Char := []
  separator : Option Int32 := none
  cached : Option (Int64 × Int64) := none
  persistUntil : Option Int64 := none
  lines : List Line := []
  deriving DecidableEq

structure PiggybackBlock where
  host : List Char
  sectionList : List Section := []
  deriving DecidableEq

structure Packet where
  sectionList : List Section := []
  piggybacks : List PiggybackBlock := []
  deriving DecidableEq

def wrap (n : ℕ) (text : List Char) : List Char :=
  List.replicate n '<' ++ (text ++ List.replicate n '>')

/-! ## Writing -/

def Line.render (sep : Char) (l : Line) : List Char := [sep].intercalate l

namespace Section

def separatorChar (s : Section) : Char := (s.separator.map charOf).getD ' '

def sepName : List Char := ['s', 'e', 'p']
def cachedName : List Char := ['c', 'a', 'c', 'h', 'e', 'd']
def persistName : List Char := ['p', 'e', 'r', 's', 'i', 's', 't']

def option (name args : List Char) : List Char := name ++ ('(' :: (args ++ [')']))

def options (s : Section) : List (List Char) :=
  (s.separator.toList.map fun code => option sepName (decimal code.toInt)) ++
    ((s.cached.toList.map fun c =>
        option cachedName (decimal c.1.toInt ++ ',' :: decimal c.2.toInt)) ++
      s.persistUntil.toList.map fun epoch => option persistName (decimal epoch.toInt))

/-- The line `render_header` writes. -/
def header (s : Section) : List Char := wrap 3 (s.title ++ s.options.flatMap (':' :: ·))

def render (s : Section) : List Char :=
  s.header ++ '\n' :: s.lines.flatMap fun l => l.render s.separatorChar ++ ['\n']

def empty (s : Section) : Bool := s.title.isEmpty && s.lines.isEmpty

def push (s : Section) (data : List Char) : Section :=
  { s with lines := s.lines ++ [getlines ' ' data] }

end Section

def PiggybackBlock.render (b : PiggybackBlock) : List Char :=
  wrap 4 b.host ++ '\n' :: (b.sectionList.flatMap Section.render ++ (wrap 4 [] ++ ['\n']))

def Packet.write (p : Packet) : List Char :=
  p.sectionList.flatMap Section.render ++ p.piggybacks.flatMap PiggybackBlock.render

/-! ## Reading -/

def stoi (text : List Char) : Option Int32 :=
  (leadingInteger text).bind fun n =>
    if -2 ^ 31 ≤ n ∧ n < 2 ^ 31 then some (Int32.ofInt n) else none

def stoll (text : List Char) : Option Int64 :=
  (leadingInteger text).bind fun n =>
    if -2 ^ 63 ≤ n ∧ n < 2 ^ 63 then some (Int64.ofInt n) else none

namespace Section

/-- A decoration by its name; an unknown name or a malformed number is ignored. -/
def decorate (s : Section) (name args : List Char) : Section :=
  if name = sepName then
    match stoi args with
    | some code => { s with separator := some code }
    | none => s
  else if name = cachedName then
    if ',' ∈ args then
      let first := args.takeWhile (· ≠ ',')
      match stoll first, stoll (args.drop (first.length + 1)) with
      | some gen, some interval => { s with cached := some (gen, interval) }
      | _, _ => s
    else s
  else if name = persistName then
    match stoll args with
    | some epoch => { s with persistUntil := some epoch }
    | none => s
  else s

def applyOption (s : Section) (opt : List Char) : Section :=
  if '(' ∈ opt ∧ opt.getLast? = some ')' then
    let name := opt.takeWhile (· ≠ '(')
    s.decorate name (opt.drop (name.length + 1)).dropLast
  else s

end Section

def parseSectionHeader (inner : List Char) : Section :=
  match inner.splitOn ':' with
  | [] => {}
  | title :: opts => opts.foldl Section.applyOption { title := title }

def wrapped (n : ℕ) (chunk : List Char) : Bool :=
  2 * n ≤ chunk.length ∧ chunk.take n = List.replicate n '<' ∧
    chunk.drop (chunk.length - n) = List.replicate n '>'

def inside (n : ℕ) (chunk : List Char) : List Char := (chunk.drop n).take (chunk.length - 2 * n)

def isPb (chunk : List Char) : Bool := wrapped 4 chunk

def isSection (chunk : List Char) : Bool := !isPb chunk && wrapped 3 chunk

def stripCr (chunk : List Char) : List Char :=
  if chunk.getLast? = some '\r' then chunk.dropLast else chunk

def PiggybackBlock.addSection (b : PiggybackBlock) (s : Section) : PiggybackBlock :=
  { b with sectionList := b.sectionList ++ [s] }

def addToBlock (host : List Char) (s : Section) : List PiggybackBlock → List PiggybackBlock
  | [] => []
  | b :: blocks =>
    if b.host = host then b.addSection s :: blocks else b :: addToBlock host s blocks

def Packet.piggybackFor (p : Packet) (host : List Char) : Packet :=
  if p.piggybacks.any (·.host = host) then p
  else { p with piggybacks := p.piggybacks ++ [{ host := host }] }

/-- The variables of `read`; `active` is the host of the open block. -/
structure Reader where
  packet : Packet := {}
  current : Section := {}
  active : Option (List Char) := none
  deriving DecidableEq

namespace Reader

def add (r : Reader) (s : Section) : Reader :=
  match r.active with
  | none => { r with packet := { r.packet with sectionList := r.packet.sectionList ++ [s] } }
  | some host =>
    { r with packet := { r.packet with piggybacks := addToBlock host s r.packet.piggybacks } }

def flushSection (r : Reader) : Reader :=
  if r.current.empty then r else { r.add r.current with current := {} }

def openBlock (r : Reader) (host : List Char) : Reader :=
  if host.isEmpty then { r with active := none }
  else { r with active := some host, packet := r.packet.piggybackFor host }

def step (r : Reader) (line : List Char) : Reader :=
  let chunk := stripCr line
  if isPb chunk then r.flushSection.openBlock (inside 4 chunk)
  else if isSection chunk then
    { r.flushSection with current := parseSectionHeader (inside 3 chunk) }
  else { r with current := r.current.push chunk }

end Reader

/-- `read` on a packet that may already hold sections. -/
def Packet.read (p : Packet) (data : List Char) : Packet :=
  ((getlines '\n' data).foldl Reader.step { packet := p }).flushSection.packet

end Nscp.CheckMk
