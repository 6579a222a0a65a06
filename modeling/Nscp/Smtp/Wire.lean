import Nscp.Library.Hoare
import Nscp.Smtp.Message

/-!
# The connection of a submission

Reads fill a buffer up to a line end, so that bytes behind the line stay in it for the next reply.
The network is what its operations come to, one after the other: chunks that arrive or errors for
the reads, complete or broken writes.  Everything that crosses the connection is logged, with the
channel it was written on; the log is what is proved about.
-/

namespace Nscp.Smtp

open DotText Hoare

def maxReplyLineBytes : ℕ := 64 * 1024

def maxReplyLines : ℕ := 100

/-! ## What is logged -/

inductive Channel
  | clear
  | tls
  deriving DecidableEq

inductive Event
  /-- A write that was completed. -/
  | wrote (channel : Channel) (bytes : List Char)
  /-- The bytes that a failed write has put on the wire. -/
  | broke (channel : Channel) (bytes : List Char)
  /-- The TLS handshake is complete. -/
  | handshake
  /-- Bytes read from the connection into the buffer. -/
  | received (bytes : List Char)
  /-- A line taken out of the buffer, together with the LF behind it. -/
  | took (line : List Char)
  deriving DecidableEq

/-! ## The network -/

/-- An error of the connection; the deadline of the submission is one of them. -/
inductive Failure
  | timedOut
  | other (message : List Char)

inductive Arrival
  | bytes (chunk : List Char)
  | failed (failure : Failure)

inductive WriteOutcome
  | done
  | failed (sent : ℕ) (failure : Failure)

/-- What the operations of a submission come to.  When the arrivals or the outcomes of writes are
used up, the deadline has passed. -/
structure Network where
  loadVerifyFile : List Char → Option Failure := fun _ => none
  resolve : List Char → List Char → Option Failure := fun _ _ => none
  connect : Option Failure := none
  handshake : Option Failure := none
  arrivals : List Arrival := []
  writes : List WriteOutcome := []

structure Wire where
  channel : Channel := .clear
  buffer : List Char := []
  network : Network
  timeoutSeconds : ℤ
  log : List Event := []

abbrev Io := EStateM (List Char) Wire

def describe (timeoutSeconds : ℤ) : Failure → List Char
  | .timedOut => "timed out after ".toList ++ Text.decimal timeoutSeconds ++
      "s (the budget for the whole submission)".toList
  | .other message => message

/-! ## Replies in messages -/

/-- `scrub_reply` with what it has written so far. -/
def scrubLoop : List Char → List Char → List Char
  | out, [] => out
  | out, c :: rest =>
    if 500 ≤ out.length then out ++ "...".toList
    else if c = '\n' then scrubLoop (out ++ " / ".toList) rest
    else if c.toNat < 0x20 ∨ 0x7f ≤ c.toNat then scrubLoop (out ++ ['?']) rest
    else scrubLoop (out ++ [c]) rest

def scrubReply (reply : List Char) : List Char := scrubLoop [] reply

/-! ## Operations -/

def write (bytes : List Char) : Io Unit := fun w =>
  match w.network.writes with
  | .done :: rest =>
    .ok () { w with
      network := { w.network with writes := rest }
      log := w.log ++ [.wrote w.channel bytes] }
  | .failed sent failure :: rest =>
    .error ("write failed: ".toList ++ describe w.timeoutSeconds failure) { w with
      network := { w.network with writes := rest }
      log := w.log ++ [.broke w.channel (bytes.take sent)] }
  | [] =>
    .error ("write failed: ".toList ++ describe w.timeoutSeconds .timedOut) { w with
      log := w.log ++ [.broke w.channel []] }

/-- How a read up to a line end is over. -/
inductive Filled
  | line
  | tooLong
  | failed (failure : Failure)

structure Fill where
  result : Filled
  buffer : List Char
  arrivals : List Arrival
  received : List Event

/-- `async_read_until`: nothing is read while the buffer holds a line end, and never more than the
buffer has room for. -/
def fill (buffer : List Char) (arrivals : List Arrival) : Fill :=
  if crlf <:+: buffer then ⟨.line, buffer, arrivals, []⟩
  else if maxReplyLineBytes ≤ buffer.length then ⟨.tooLong, buffer, arrivals, []⟩
  else
    match arrivals with
    | [] => ⟨.failed .timedOut, buffer, [], []⟩
    | .failed failure :: rest => ⟨.failed failure, buffer, rest, []⟩
    | .bytes chunk :: rest =>
      if buffer.length + chunk.length ≤ maxReplyLineBytes then
        let next := fill (buffer ++ chunk) rest
        { next with received := .received chunk :: next.received }
      else
        let part := chunk.take (maxReplyLineBytes - buffer.length)
        let after : List Arrival :=
          .bytes (chunk.drop (maxReplyLineBytes - buffer.length)) :: rest
        ⟨if crlf <:+: buffer ++ part then .line else .tooLong, buffer ++ part, after,
          [.received part]⟩

/-- The line of `std::getline`: it ends at the first LF, wherever the CR LF is. -/
def firstLine (buffer : List Char) : List Char :=
  buffer.takeWhile (· ≠ '\n')

def stripCr (line : List Char) : List Char :=
  if line.getLast? = some '\r' then line.dropLast else line

def Wire.filled (w : Wire) : Wire :=
  { w with
    buffer := (fill w.buffer w.network.arrivals).buffer
    network := { w.network with arrivals := (fill w.buffer w.network.arrivals).arrivals }
    log := w.log ++ (fill w.buffer w.network.arrivals).received }

def Wire.lineTaken (w : Wire) : Wire :=
  { w with
    buffer := w.buffer.drop ((firstLine w.buffer).length + 1)
    log := w.log ++ [.took (firstLine w.buffer)] }

def readLine : Io (List Char) := fun w =>
  match (fill w.buffer w.network.arrivals).result with
  | .tooLong =>
    .error ("SMTP reply line exceeds ".toList ++ Nat.toDigits 10 maxReplyLineBytes ++
      " bytes; giving up".toList) w.filled
  | .failed failure =>
    .error ("read failed: ".toList ++ describe w.timeoutSeconds failure) w.filled
  | .line => .ok (stripCr (firstLine w.filled.buffer)) w.filled.lineTaken

def malformed (line : List Char) : List Char :=
  "malformed SMTP reply: \x27".toList ++ scrubReply line ++ ['\'']

def readReplyLines : ℕ → List Char → Io (List Char)
  | 0, _ =>
    throw ("SMTP reply exceeds ".toList ++ Nat.toDigits 10 maxReplyLines ++
      " lines; giving up".toList)
  | n + 1, out => do
      let line ← readLine
      let out := (if out = [] then [] else out ++ ['\n']) ++ line
      refuseIf (line.length < 4) (malformed line)
      if line.getD 3 ' ' = ' ' then return out
      refuseIf (line.getD 3 ' ' ≠ '-') (malformed line)
      readReplyLines n out

def readReply : Io (List Char) := readReplyLines maxReplyLines []

/-- The handshake is refused while bytes that came in clear are in the buffer. -/
def handshake (what : List Char) : Io Unit := fun w =>
  if w.buffer ≠ [] then
    .error (what ++ " aborted: server sent ".toList ++ Nat.toDigits 10 w.buffer.length ++
      " byte(s) of unexpected data before the handshake ".toList ++
      "(possible STARTTLS response injection)".toList) w
  else
    match w.network.handshake with
    | some failure => .error (what ++ " failed: ".toList ++ describe w.timeoutSeconds failure) w
    | none => .ok () { w with channel := .tls, log := w.log ++ [.handshake] }

end Nscp.Smtp
