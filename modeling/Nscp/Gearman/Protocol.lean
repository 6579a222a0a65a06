import Nscp.Library.BigEndian
import Nscp.Library.Framing

/-!
# Gearman packets

A packet is a header of twelve bytes (a magic, the type and the size of the body) and a body of
arguments with a NUL between them.  The decoder splits at as many NULs as the type has arguments
but one, so the last argument may hold NULs of its own.
-/

namespace Nscp.Gearman

open BigEndian Framing

inductive PacketType
  | canDo
  | cantDo
  | resetAbilities
  | preSleep
  | noop
  | submitJob
  | jobCreated
  | grabJob
  | noJob
  | jobAssign
  | workStatus
  | workComplete
  | workFail
  | getStatus
  | echoReq
  | echoRes
  | submitJobBg
  | error
  | statusRes
  | submitJobHigh
  | setClientId
  | canDoTimeout
  | allYours
  | workException
  | optionReq
  | optionRes
  | workData
  | workWarning
  | grabJobUniq
  | jobAssignUniq
  | submitJobHighBg
  | submitJobLow
  | submitJobLowBg
  deriving DecidableEq

namespace PacketType

def code : PacketType → ℕ
  | canDo => 1
  | cantDo => 2
  | resetAbilities => 3
  | preSleep => 4
  | noop => 6
  | submitJob => 7
  | jobCreated => 8
  | grabJob => 9
  | noJob => 10
  | jobAssign => 11
  | workStatus => 12
  | workComplete => 13
  | workFail => 14
  | getStatus => 15
  | echoReq => 16
  | echoRes => 17
  | submitJobBg => 18
  | error => 19
  | statusRes => 20
  | submitJobHigh => 21
  | setClientId => 22
  | canDoTimeout => 23
  | allYours => 24
  | workException => 25
  | optionReq => 26
  | optionRes => 27
  | workData => 28
  | workWarning => 29
  | grabJobUniq => 30
  | jobAssignUniq => 31
  | submitJobHighBg => 32
  | submitJobLow => 33
  | submitJobLowBg => 34

def name : PacketType → String
  | canDo => "CAN_DO"
  | cantDo => "CANT_DO"
  | resetAbilities => "RESET_ABILITIES"
  | preSleep => "PRE_SLEEP"
  | noop => "NOOP"
  | submitJob => "SUBMIT_JOB"
  | jobCreated => "JOB_CREATED"
  | grabJob => "GRAB_JOB"
  | noJob => "NO_JOB"
  | jobAssign => "JOB_ASSIGN"
  | workStatus => "WORK_STATUS"
  | workComplete => "WORK_COMPLETE"
  | workFail => "WORK_FAIL"
  | getStatus => "GET_STATUS"
  | echoReq => "ECHO_REQ"
  | echoRes => "ECHO_RES"
  | submitJobBg => "SUBMIT_JOB_BG"
  | error => "ERROR"
  | statusRes => "STATUS_RES"
  | submitJobHigh => "SUBMIT_JOB_HIGH"
  | setClientId => "SET_CLIENT_ID"
  | canDoTimeout => "CAN_DO_TIMEOUT"
  | allYours => "ALL_YOURS"
  | workException => "WORK_EXCEPTION"
  | optionReq => "OPTION_REQ"
  | optionRes => "OPTION_RES"
  | workData => "WORK_DATA"
  | workWarning => "WORK_WARNING"
  | grabJobUniq => "GRAB_JOB_UNIQ"
  | jobAssignUniq => "JOB_ASSIGN_UNIQ"
  | submitJobHighBg => "SUBMIT_JOB_HIGH_BG"
  | submitJobLow => "SUBMIT_JOB_LOW"
  | submitJobLowBg => "SUBMIT_JOB_LOW_BG"

def all : List PacketType :=
  [canDo, cantDo, resetAbilities, preSleep, noop, submitJob, jobCreated, grabJob, noJob, jobAssign,
    workStatus, workComplete, workFail, getStatus, echoReq, echoRes, submitJobBg, error, statusRes,
    submitJobHigh, setClientId, canDoTimeout, allYours, workException, optionReq, optionRes,
    workData, workWarning, grabJobUniq, jobAssignUniq, submitJobHighBg, submitJobLow,
    submitJobLowBg]

def argumentCount : PacketType → ℕ
  | resetAbilities | preSleep | noop | grabJob | noJob | allYours | grabJobUniq => 0
  | canDo | cantDo | jobCreated | workFail | getStatus | echoReq | echoRes | setClientId
  | optionReq | optionRes => 1
  | workComplete | error | canDoTimeout | workException | workData | workWarning => 2
  | submitJob | jobAssign | workStatus | submitJobBg | submitJobHigh | submitJobHighBg
  | submitJobLow | submitJobLowBg => 3
  | jobAssignUniq => 4
  | statusRes => 5

def startsWithJobHandle : PacketType → Bool
  | jobCreated | jobAssign | jobAssignUniq | workStatus | workComplete | workFail | workData
  | workWarning | workException | getStatus | statusRes => true
  | _ => false

end PacketType

/-- The type field may hold any number. -/
inductive Kind
  | known (type : PacketType)
  | unknown (code : ℕ)
  deriving DecidableEq

namespace Kind

def ofCode (code : ℕ) : Kind :=
  match PacketType.all.find? fun type => type.code = code with
  | some type => known type
  | none => unknown code

def toString : Kind → String
  | known type => type.name
  | unknown code => "UNKNOWN(" ++ Nat.repr code ++ ")"

end Kind

inductive Magic
  | request
  | response
  deriving DecidableEq

def Magic.bytes : Magic → List UInt8
  | .request => [0, 82, 69, 81]
  | .response => [0, 82, 69, 83]

structure Packet where
  magic : Magic
  kind : Kind
  args : List (List UInt8)
  deriving DecidableEq

def headerSize : ℕ := 12

def maxJobHandleSize : ℕ := 64

def maxPacketSize : ℕ := 16 * 1024 * 1024

def bodySize (args : List (List UInt8)) : ℕ :=
  (if args = [] then 0 else args.length - 1) + (args.map List.length).sum

def encodePacket (kind : Kind) (args : List (List UInt8)) (magic : Magic) :
    Except String (List UInt8) :=
  match kind with
  | .unknown _ => .error ("cannot encode unknown gearman packet type " ++ kind.toString)
  | .known type =>
    if args.length ≠ type.argumentCount then
      .error ("gearman packet " ++ kind.toString ++ " takes " ++ Nat.repr type.argumentCount ++
        " argument(s), got " ++ Nat.repr args.length)
    else if maxPacketSize < bodySize args then
      .error ("gearman packet " ++ kind.toString ++ " is larger than " ++
        Nat.repr maxPacketSize ++ " bytes")
    else
      .ok (magic.bytes ++ encode 4 type.code ++ encode 4 (bodySize args) ++ [0].intercalate args)

/-- The arguments of a body with a number of separators; the error is the argument that is
missing. -/
def splitArguments (i : ℕ) : ℕ → List UInt8 → Except ℕ (List (List UInt8))
  | 0, body => .ok [body]
  | n + 1, body =>
    if 0 ∈ body then
      match splitArguments (i + 1) n (body.drop (body.idxOf 0 + 1)) with
      | .ok args => .ok (body.take (body.idxOf 0) :: args)
      | .error e => .error e
    else .error (i + 1)

/-- An unknown type still has a length, so its body is handed over as it is. -/
def decodeArguments (kind : Kind) (body : List UInt8) : Except ℕ (List (List UInt8)) :=
  match kind with
  | .unknown _ => .ok (if body = [] then [] else [body])
  | .known type =>
    match type.argumentCount with
    | 0 => .ok []
    | n + 1 => splitArguments 0 n body

def handleTooLong (kind : Kind) (args : List (List UInt8)) : Bool :=
  match kind with
  | .unknown _ => false
  | .known type =>
    type.startsWithJobHandle && !args.isEmpty && maxJobHandleSize < (args.headD []).length

def decodeBody (magic : Magic) (kind : Kind) (body : List UInt8) : Decoded Packet String :=
  match decodeArguments kind body with
  | .error i => .malformed ("gearman packet " ++ kind.toString ++ " is missing argument " ++
      Nat.repr i)
  | .ok args =>
    if handleTooLong kind args then
      .malformed ("gearman packet " ++ kind.toString ++ " carries a " ++
        Nat.repr (args.headD []).length ++ " byte job handle, more than the " ++
        Nat.repr maxJobHandleSize ++ " byte limit")
    else .packet ⟨magic, kind, args⟩ (headerSize + body.length)

def readMagic (data : List UInt8) : Option Magic :=
  if data.take 4 = Magic.request.bytes then some .request
  else if data.take 4 = Magic.response.bytes then some .response
  else none

def decodePacket (data : List UInt8) : Decoded Packet String :=
  if data.length < headerSize then .incomplete
  else
    match readMagic data with
    | none => .malformed "not a gearman packet: bad magic"
    | some magic =>
      let kind := Kind.ofCode (decode ((data.drop 4).take 4))
      let size := decode ((data.drop 8).take 4)
      if maxPacketSize < size then
        .malformed ("gearman packet " ++ kind.toString ++ " claims " ++ Nat.repr size ++
          " bytes, more than the " ++ Nat.repr maxPacketSize ++ " byte limit")
      else if data.length - headerSize < size then .incomplete
      else decodeBody magic kind ((data.drop headerSize).take size)

end Nscp.Gearman
