import Nscp.Library.DotText
import Nscp.Library.Text

/-!
# What a mail submission puts on the wire

The checks and transformations between the configuration and the bytes of the session: addresses
and the EHLO name are refused if they could end a command, header values lose their line ends, the
body gets CR LF line ends with its leading dots doubled.  Texts are the sequences of their bytes.
-/

namespace Nscp.Smtp

open DotText

structure ConnectionConfig where
  server : List Char
  port : List Char := "587".toList
  security : List Char := "starttls".toList
  username : List Char := []
  password : List Char := []
  canonicalName : List Char := []
  caPath : List Char := []
  insecureSkipVerify : Bool := false
  timeoutSeconds : ℤ := 30

/-- One message; `sender` is its `from`, `recipient` its `to`. -/
structure Message where
  sender : List Char
  recipient : List Char
  subject : List Char := []
  body : List Char := []

/-! ## Checks -/

def isControl (c : Char) : Bool :=
  c.toNat < 0x20 ∨ c.toNat = 0x7f

def validateAddress (address what : List Char) : Except (List Char) Unit :=
  if address = [] then .error (what ++ " is empty".toList)
  else if address.any isControl then .error (what ++ " contains a control character".toList)
  else if '<' ∈ address ∨ '>' ∈ address then
    .error (what ++ " must not contain angle brackets".toList)
  else .ok ()

def sanitiseHeader (v : List Char) : List Char :=
  v.filter fun c => ¬(c = '\r' ∨ c = '\n' ∨ c = '\x00')

def isEhloChar (c : Char) : Bool :=
  c.isAlphanum ∨ c = '.' ∨ c = '-' ∨ c = '_' ∨ c = '[' ∨ c = ']' ∨ c = ':'

def validateEhloName (name : List Char) : Except (List Char) Unit :=
  if name = [] then .error "EHLO name is empty".toList
  else if ¬ name.all isEhloChar then
    .error ("EHLO name contains an illegal character; expected a host name or an ".toList ++
      "address literal".toList)
  else .ok ()

/-! ## The body -/

/-- The loop of `dot_stuff_and_crlf` over the rest of the body, with its line-start flag. -/
def dotStuffLoop : Bool → List Char → List Char
  | _, [] => []
  | atLineStart, c :: rest =>
    (if atLineStart ∧ c = '.' then ['.'] else []) ++ if c = '\r' then
        -- the CR of a CR LF is skipped, the LF writes the line end
        if rest.head? = some '\n' then dotStuffLoop atLineStart rest
        else crlf ++ dotStuffLoop true rest
      else if c = '\n' then crlf ++ dotStuffLoop true rest
      else c :: dotStuffLoop false rest

def dotStuffAndCrlf (body : List Char) : List Char :=
  if dotStuffLoop true body ≠ [] ∧ ¬ crlf <:+ dotStuffLoop true body then
    dotStuffLoop true body ++ crlf
  else dotStuffLoop true body

/-! ## Credentials -/

def b64Alphabet : List Char :=
  "ABCDEFGHIJKLMNOPQRSTUVWXYZabcdefghijklmnopqrstuvwxyz0123456789+/".toList

def b64Char (v : ℕ) : Char :=
  b64Alphabet.getD (v % 64) 'A'

def b64 : List Char → List Char
  | [] => []
  | [x] => [b64Char (x.toNat % 256 * 65536 / 262144), b64Char (x.toNat % 256 * 65536 / 4096),
      '=', '=']
  | [x, y] =>
    let v := x.toNat % 256 * 65536 + y.toNat % 256 * 256
    [b64Char (v / 262144), b64Char (v / 4096), b64Char (v / 64), '=']
  | x :: y :: z :: rest =>
    let v := x.toNat % 256 * 65536 + y.toNat % 256 * 256 + z.toNat % 256
    b64Char (v / 262144) :: b64Char (v / 4096) :: b64Char (v / 64) :: b64Char v :: b64 rest

/-- The initial response of AUTH PLAIN: both credentials behind a NUL. -/
def saslPlain (user pass : List Char) : List Char :=
  '\x00' :: user ++ '\x00' :: pass

/-! ## Headers -/

/-- What makes a message id unique: random bytes, or a clock and a counter. -/
inductive Unique
  | random (raw : List (Fin 256))
  | fallback (clock counter : ℕ)

def hexByte (b : Fin 256) : List Char :=
  [Nat.digitChar (b.val / 16), Nat.digitChar (b.val % 16)]

def Unique.text : Unique → List Char
  | .random raw => raw.flatMap hexByte
  | .fallback clock counter => Nat.toDigits 16 clock ++ '.' :: Nat.toDigits 16 counter

def domainOf (address : List Char) : List Char :=
  if '@' ∈ address then (address.reverse.takeWhile (· ≠ '@')).reverse else []

def safeDomain (sender ehloName : List Char) : List Char :=
  (if domainOf sender = [] then ehloName else domainOf sender).filter fun c =>
    c.isAlphanum ∨ c = '.' ∨ c = '-' ∨ c = '_'

def makeMessageId (unique : Unique) (sender ehloName : List Char) : List Char :=
  '<' :: unique.text ++ '@' ::
    (if safeDomain sender ehloName = [] then "localhost".toList else safeDomain sender ehloName) ++
    ['>']

structure Moment where
  dayOfWeek : Fin 7
  day : Fin 32
  month : Fin 12
  year : Fin 10000
  hours : Fin 24
  minutes : Fin 60
  seconds : Fin 60

/-- The random bytes and the time of a submission. -/
structure Stamp where
  unique : Unique
  now : Moment

def daysOfWeek : List (List Char) :=
  ["Sun", "Mon", "Tue", "Wed", "Thu", "Fri", "Sat"].map String.toList

def months : List (List Char) :=
  ["Jan", "Feb", "Mar", "Apr", "May", "Jun", "Jul", "Aug", "Sep", "Oct", "Nov", "Dec"].map
    String.toList

def padded (width n : ℕ) : List Char :=
  List.replicate (width - (Nat.toDigits 10 n).length) '0' ++ Nat.toDigits 10 n

def Moment.text (m : Moment) : List Char :=
  daysOfWeek.getD m.dayOfWeek [] ++ ", ".toList ++ padded 2 m.day ++ [' '] ++
    months.getD m.month [] ++ [' '] ++ padded 4 m.year ++ [' '] ++ padded 2 m.hours ++ [':'] ++
    padded 2 m.minutes ++ [':'] ++ padded 2 m.seconds ++ " +0000".toList

section

variable (cfg : ConnectionConfig)

def ConnectionConfig.ehloName : List Char :=
  if cfg.canonicalName = [] then "localhost".toList else cfg.canonicalName

def headers (msg : Message) (stamp : Stamp) : List Char :=
  "From: ".toList ++ msg.sender ++ crlf ++ ("To: ".toList ++ msg.recipient ++ crlf) ++
    (if sanitiseHeader msg.subject = [] then []
      else "Subject: ".toList ++ sanitiseHeader msg.subject ++ crlf) ++
    ("MIME-Version: 1.0".toList ++ crlf) ++
    ("Content-Type: text/plain; charset=utf-8".toList ++ crlf) ++
    ("Message-ID: ".toList ++ makeMessageId stamp.unique msg.sender cfg.ehloName ++ crlf) ++
    ("Date: ".toList ++ stamp.now.text ++ crlf) ++ crlf

/-- The data section as it is written, terminator included. -/
def dataSection (msg : Message) (stamp : Stamp) : List Char :=
  headers cfg msg stamp ++ dotStuffAndCrlf msg.body ++ '.' :: crlf

end

end Nscp.Smtp
