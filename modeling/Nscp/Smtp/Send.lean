import Nscp.Smtp.Wire

/-!
# The submission

`send` checks its arguments, connects, and leads the dialogue with the server up to the reply to
the end of the data.  Every reply decides whether it goes on.
-/

namespace Nscp.Smtp

open DotText Hoare

/-! ## Replies -/

def expectStatus (reply : List Char) (first : Char) (context : List Char) : Io Unit :=
  refuseIf (reply.length < 3 ∨ reply.head? ≠ some first)
    (context ++ " unexpected reply: ".toList ++ scrubReply reply)

def replyStartsWith (reply code : List Char) : Prop :=
  3 ≤ reply.length ∧ reply.take 3 = code

instance (reply code : List Char) : Decidable (replyStartsWith reply code) :=
  inferInstanceAs (Decidable (_ ∧ _))

def toUpper (text : List Char) : List Char := text.map Char.toUpper

def isBlank (c : Char) : Bool := c = ' ' ∨ c = '\t'

def capabilityOf (line : List Char) : List Char :=
  if line.length < 4 then []
  else toUpper (((line.drop 4).dropWhile isBlank).takeWhile fun c => !isBlank c)

def capabilityParams (line : List Char) : List (List Char) :=
  if line.length < 4 then []
  else ((((line.drop 4).splitOnP Text.isSpace).filter (· ≠ [])).drop 1).map toUpper

def hasCapability (reply keyword : List Char) : Prop :=
  ∃ line ∈ reply.splitOn '\n', capabilityOf line = toUpper keyword

instance (reply keyword : List Char) : Decidable (hasCapability reply keyword) :=
  inferInstanceAs (Decidable (∃ line ∈ reply.splitOn '\n', capabilityOf line = toUpper keyword))

def authMechanisms (reply : List Char) : List (List Char) :=
  match (reply.splitOn '\n').find? (capabilityOf · = "AUTH".toList) with
  | some line => capabilityParams line
  | none => []

/-! ## Security modes -/

inductive Security
  | none
  | starttls
  | tls
  deriving DecidableEq

def securityOf (text : List Char) : Option Security :=
  if Text.toLower text = "tls".toList ∨ Text.toLower text = "ssl".toList then some .tls
  else if Text.toLower text = "starttls".toList then some .starttls
  else if Text.toLower text = "none".toList then some .none
  else Option.none

/-! ## The dialogue -/

def ehloLine (name : List Char) : List Char := "EHLO ".toList ++ name ++ crlf

def heloLine (name : List Char) : List Char := "HELO ".toList ++ name ++ crlf

/-- The banner and the greeting, with HELO for a server that knows no EHLO. -/
def greet (name : List Char) : Io (List Char) := do
  let banner ← readReply
  expectStatus banner '2' "banner".toList
  write (ehloLine name)
  let reply ← readReply
  if reply.length < 3 ∨ reply.head? ≠ some '2' then do
    write (heloLine name)
    let reply ← readReply
    expectStatus reply '2' "HELO".toList
    return reply
  else return reply

def startTls (name caps : List Char) : Io (List Char) := do
  refuseIf (¬ hasCapability caps "STARTTLS".toList)
    "server did not advertise STARTTLS but security=starttls was requested".toList
  write ("STARTTLS".toList ++ crlf)
  let reply ← readReply
  refuseIf (¬ replyStartsWith reply "220".toList)
    ("STARTTLS unexpected reply: ".toList ++ scrubReply reply)
  handshake "TLS handshake (STARTTLS)".toList
  write (ehloLine name)
  let reply ← readReply
  expectStatus reply '2' "EHLO over TLS".toList
  return reply

def expectCode (reply code context : List Char) : Io Unit :=
  refuseIf (¬ replyStartsWith reply code) (context ++ scrubReply reply)

def authPlain (user pass : List Char) : Io Unit := do
  write ("AUTH PLAIN ".toList ++ b64 (saslPlain user pass) ++ crlf)
  let reply ← readReply
  expectCode reply "235".toList "AUTH PLAIN rejected: ".toList

def authLogin (user pass : List Char) : Io Unit := do
  write ("AUTH LOGIN".toList ++ crlf)
  let reply ← readReply
  expectCode reply "334".toList "AUTH LOGIN not accepted: ".toList
  write (b64 user ++ crlf)
  let reply ← readReply
  expectCode reply "334".toList "AUTH LOGIN username rejected: ".toList
  write (b64 pass ++ crlf)
  let reply ← readReply
  expectCode reply "235".toList "AUTH LOGIN password rejected: ".toList

def doAuth (user pass caps : List Char) : Io Unit := do
  refuseIf (authMechanisms caps = [])
    ("a username is configured but the server does not advertise AUTH: ".toList ++ scrubReply caps)
  refuseIf ("PLAIN".toList ∉ authMechanisms caps ∧ "LOGIN".toList ∉ authMechanisms caps)
    ("server advertises no AUTH mechanism we support (offered: ".toList ++
      scrubReply (", ".toList.intercalate (authMechanisms caps)) ++
      "; supported: PLAIN, LOGIN)".toList)
  if "PLAIN".toList ∈ authMechanisms caps then authPlain user pass else authLogin user pass

def login (cfg : ConnectionConfig) (security : Security) (caps : List Char) : Io Unit :=
  if cfg.username = [] then pure ()
  else do
    refuseIf (security = .none)
      ("refusing to send AUTH credentials in clear; set security=starttls or ".toList ++
        "security=tls".toList)
    doAuth cfg.username cfg.password caps

def mailFromLine (msg : Message) : List Char :=
  "MAIL FROM:<".toList ++ msg.sender ++ '>' :: crlf

def rcptToLine (msg : Message) : List Char :=
  "RCPT TO:<".toList ++ msg.recipient ++ '>' :: crlf

def envelope (msg : Message) : Io Unit := do
  write (mailFromLine msg)
  let reply ← readReply
  expectStatus reply '2' "MAIL FROM".toList
  write (rcptToLine msg)
  let reply ← readReply
  expectStatus reply '2' "RCPT TO".toList
  write ("DATA".toList ++ crlf)
  let reply ← readReply
  expectCode reply "354".toList "DATA rejected: ".toList

def transmit (bytes : List Char) : Io Unit := do
  write bytes
  let reply ← readReply
  expectStatus reply '2' "end of DATA".toList

def secureFirst (security : Security) : Io Unit :=
  if security = .tls then handshake "TLS handshake".toList else pure ()

def secureLater (security : Security) (name caps : List Char) : Io (List Char) :=
  if security = .starttls then startTls name caps else pure caps

section

variable (cfg : ConnectionConfig)

def converse (msg : Message) (stamp : Stamp) (security : Security) :
    Io Unit := do
  secureFirst security
  let caps ← greet cfg.ehloName
  let caps ← secureLater security cfg.ehloName caps
  login cfg security caps
  envelope msg
  transmit (dataSection cfg msg stamp)
  attempt do
    write ("QUIT".toList ++ crlf)
    readReply

def checkServer : Except (List Char) Unit :=
  if cfg.server = [] then .error "smtp server hostname not configured".toList else .ok ()

/-- A NUL would shift the boundary of the credentials in AUTH PLAIN. -/
def checkCredentials : Except (List Char) Unit :=
  if '\x00' ∈ cfg.username ∨ '\x00' ∈ cfg.password then
    .error "AUTH username/password must not contain NUL bytes".toList
  else .ok ()

def checkSecurity : Except (List Char) Security :=
  match securityOf cfg.security with
  | some security => .ok security
  | none =>
    .error ("invalid security mode \x27".toList ++ cfg.security ++
      "\x27 (expected none|starttls|tls, or ssl as an alias for tls)".toList)

/-- The checks of `send` before anything is put on the wire. -/
def validate (msg : Message) : Except (List Char) Security := do
  checkServer cfg
  validateAddress msg.sender "from".toList
  validateAddress msg.recipient "to".toList
  checkCredentials cfg
  validateEhloName cfg.ehloName
  checkSecurity cfg

def ConnectionConfig.loadsBundle : Prop :=
  cfg.insecureSkipVerify = false ∧ cfg.caPath ≠ [] ∧ cfg.caPath ≠ "none".toList

end

instance (cfg : ConnectionConfig) : Decidable cfg.loadsBundle :=
  inferInstanceAs (Decidable (_ ∧ _))

def openConnection (cfg : ConnectionConfig) (network : Network) : Except (List Char) Unit := do
  if cfg.loadsBundle ∧ (network.loadVerifyFile cfg.caPath).isSome then
    .error ("failed to load the configured CA bundle (see the agent log for the ".toList ++
      "reason)".toList)
  if let some failure := network.resolve cfg.server cfg.port then
    .error ("DNS resolve failed: ".toList ++ describe cfg.timeoutSeconds failure)
  if let some failure := network.connect then
    .error ("connect failed: ".toList ++ describe cfg.timeoutSeconds failure)

/-- What a submission ends with, and the connection behind it. -/
def send (cfg : ConnectionConfig) (msg : Message) (stamp : Stamp) (network : Network) :
    EStateM.Result (List Char) Wire Unit :=
  match validate cfg msg with
  | .error e => .error e { network, timeoutSeconds := cfg.timeoutSeconds }
  | .ok security =>
    match openConnection cfg network with
    | .error e => .error e { network, timeoutSeconds := cfg.timeoutSeconds }
    | .ok () =>
      converse cfg msg stamp security { network, timeoutSeconds := cfg.timeoutSeconds }

def finalWire : EStateM.Result (List Char) Wire Unit → Wire
  | .ok _ w => w
  | .error _ w => w

/-- Everything that crossed the connection of a submission. -/
def sessionLog (cfg : ConnectionConfig) (msg : Message) (stamp : Stamp) (network : Network) :
    List Event :=
  (finalWire (send cfg msg stamp network)).log

end Nscp.Smtp
