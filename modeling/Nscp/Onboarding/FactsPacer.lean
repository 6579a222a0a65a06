import Nscp.Library.Runs

/-!
# When the facts document is uploaded

The pacer is told what the server says it holds and how each upload went, and is asked
before every upload.  Documents are known by their hashes; the empty text is no document.
Time points are nanoseconds since the clock's epoch, which is also the default time point.
-/

namespace Nscp.Onboarding

/-- A number of seconds as a duration of the clock. -/
def seconds (n : ℕ) : ℕ :=
  n * 1000000000

def emptyFactsHash : String :=
  "44136fa355b3678a1146ad16f7e8649e94fb4fc21fe77e8310c060f61caaff8a"

structure Pacer where
  server : Option String := none
  /-- A document that is not offered again, until when at the latest, and what the server
  reported when it was refused. -/
  refusedHash : String := ""
  refusedUntil : ℕ := 0
  refusedServer : Option String := none
  holdUntil : ℕ := 0
  skipThisTurn : Bool := false
  skipNextTurn : Bool := false
  rejectedHash : String := ""
  rejections : ℕ := 0
  retryAt : ℕ := 0
  /-- The document last acknowledged, how often it was sent again because the server lost it,
  and when it may go again. -/
  acked : String := ""
  resends : ℕ := 0
  resendAt : ℕ := 0
  lossEpisode : ℕ := 0
  mismatchHash : String := ""
  mismatchDigest : String := ""
  confirmed : Bool := false
  unconfirmed : ℕ := 0
  deriving DecidableEq, Repr

structure Ack where
  resends : ℕ
  mismatch : Bool
  hashedDifferently : Bool
  confirmed : Bool
  lossEpisode : ℕ
  deriving DecidableEq, Repr

namespace Pacer

def unconfirmedVerdict : ℕ := 3

/-- The wait after `taken` earlier steps: a minute, doubling, capped at an hour. -/
def step (taken : ℕ) : ℕ :=
  seconds (min (60 <<< min taken 6) 3600)

section

variable (p : Pacer)

def start : Pacer :=
  { p with skipThisTurn := false, skipNextTurn := false }

def beginTurn : Pacer :=
  { p with skipThisTurn := p.skipNextTurn, skipNextTurn := false }

def troubleThisTurn : Pacer :=
  { p with skipThisTurn := true }

def quietNextTurn : Pacer :=
  { p with skipNextTurn := true }

def confirm (now : ℕ) : Pacer :=
  let p := { p with confirmed := true, unconfirmed := 0 }
  if p.resends = 0 ∨ p.resendAt ≤ now then { p with resends := 0, resendAt := 0 } else p

def clearRefusal : Pacer :=
  { p with refusedHash := "", refusedUntil := 0, refusedServer := none, unconfirmed := 0 }

def clearRejections : Pacer :=
  { p with rejectedHash := "", rejections := 0, retryAt := 0 }

def serverHolds (hash : String) (now : ℕ) : Pacer :=
  let p := { p with server := some hash }
  let p := if p.acked ≠ "" ∧ hash = p.acked then p.confirm now else p
  if p.refusedHash = "" then p
  else
    match p.refusedServer with
    -- The first answer after a refusal is what the server held when it refused.
    | none => { p with refusedServer := some hash }
    | some held => if hash ≠ held ∧ hash ≠ p.acked then p.clearRefusal else p

def serverSilent : Pacer :=
  { p with server := none }

def shouldUpload (current : String) (now : ℕ) : Bool :=
  if p.skipThisTurn then false
  else if p.server = none ∨ current = "" then false
  else if some current = p.server then false
  else if current = p.refusedHash ∧ now < p.refusedUntil then false
  else if now < p.holdUntil then false
  else if current = p.rejectedHash ∧ now < p.retryAt then false
  else if current = p.acked ∧ now < p.resendAt then false
  else true

def refused (hash : String) (now : ℕ) : Pacer :=
  { p with
    refusedHash := hash
    refusedUntil := now + seconds (24 * 3600)
    refusedServer := none
    unconfirmed := 0 }

/-- A rejection that the next poll would only repeat. -/
def rejected (hash : String) (now : ℕ) : Pacer :=
  let rejections := if hash ≠ p.rejectedHash then 0 else p.rejections
  { p with
    rejectedHash := hash
    retryAt := now + step rejections
    rejections := rejections + 1 }

/-- No upload of any document before `secs` seconds have passed. -/
def hold (now secs : ℕ) : Pacer :=
  { p with
    holdUntil := if secs = 0 then p.holdUntil else max p.holdUntil (now + seconds secs) }

/-! ## Acknowledgements -/

def release (hash : String) : Pacer :=
  if p.refusedHash ≠ "" ∧ hash = p.refusedHash then { p.clearRefusal with acked := "" } else p

def countAck (hash : String) (now : ℕ) : Pacer :=
  let p :=
    if hash = p.acked then
      if p.confirmed then
        -- Acknowledged, reported held, reported missing since: lost.
        { p with
          lossEpisode := if p.resends = 0 then p.lossEpisode + 1 else p.lossEpisode
          resends := p.resends + 1
          resendAt := now + step p.resends
          unconfirmed := 0 }
      else { p with resendAt := now + step p.unconfirmed }
    else { p with acked := hash, resends := 0, resendAt := now + step 0, unconfirmed := 0 }
  { p with confirmed := false, unconfirmed := p.unconfirmed + 1, server := some hash }

def readAnswer (heldBefore : Option String) (hash : String) (now : ℕ) :
    Option String → Pacer × Bool
  | none => (p, false)
  | some serverSays =>
    if serverSays = hash then
      let p := p.confirm now
      (if hash = p.mismatchHash then { p with mismatchHash := "", mismatchDigest := "" } else p,
        false)
    else if hash = p.mismatchHash ∧ serverSays = p.mismatchDigest then (p, true)
    else if serverSays = emptyFactsHash ∨ some serverSays = heldBefore then
      ({ p with server := some serverSays }, false)
    else (p, true)

def refuseMismatch (hash : String) (now : ℕ) (serverSays : Option String)
    (hashedDifferently : Bool) : Pacer :=
  let p := p.refused hash now
  let p := if serverSays.isSome then { p with refusedServer := serverSays } else p
  if hashedDifferently then
    { p with mismatchHash := hash, mismatchDigest := serverSays.getD "" }
  else p

/-- The server acknowledged the document `hash`; `serverSays` is the header that came with it. -/
def acknowledged (hash : String) (now : ℕ) (serverSays : Option String) :
    Pacer × Ack :=
  let counted := (p.clearRejections.release hash).countAck hash now
  let (q, hashedDifferently) := counted.readAnswer p.server hash now serverSays
  let mismatch := hashedDifferently || decide (unconfirmedVerdict ≤ q.unconfirmed)
  let q := if mismatch then q.refuseMismatch hash now serverSays hashedDifferently else q
  (q, ⟨q.resends, mismatch, hashedDifferently, decide (serverSays = some hash), q.lossEpisode⟩)

end

end Pacer

/-! ## Runs -/

/-- How an upload went: acknowledged with or without a readable header, refused as too large,
or rejected in any other way. -/
inductive Outcome
  | acknowledged (serverSays : Option String)
  | rejected
  | refused
  deriving DecidableEq, Repr

/-- An upload: when the pacer was asked for it, and when its outcome was reported. -/
structure Upload where
  hash : String
  asked : ℕ
  now : ℕ
  outcome : Outcome
  deriving DecidableEq, Repr

/-- What the fleet sync tells the pacer.  A document that could not be rendered is refused
without an upload; the quiet turn and the hold of a failed upload follow it as events of
their own, since the outcome touches neither. -/
inductive Event
  | start
  | beginTurn
  | troubleThisTurn
  | quietNextTurn
  | serverSilent
  | serverHolds (hash : String) (now : ℕ)
  | hold (now secs : ℕ)
  | refused (hash : String) (now : ℕ)
  | upload (u : Upload)
  deriving DecidableEq, Repr

structure Paced where
  pacer : Pacer := {}
  clock : ℕ := 0
  deriving DecidableEq, Repr

namespace Paced

def report (p : Pacer) (u : Upload) : Pacer :=
  match u.outcome with
  | .acknowledged serverSays => (p.acknowledged u.hash u.now serverSays).1
  | .rejected => p.rejected u.hash u.now
  | .refused => p.refused u.hash u.now

def next (s : Paced) : Event → Paced
  | .start => { s with pacer := s.pacer.start }
  | .beginTurn => { s with pacer := s.pacer.beginTurn }
  | .troubleThisTurn => { s with pacer := s.pacer.troubleThisTurn }
  | .quietNextTurn => { s with pacer := s.pacer.quietNextTurn }
  | .serverSilent => { s with pacer := s.pacer.serverSilent }
  | .serverHolds hash now => ⟨s.pacer.serverHolds hash now, now⟩
  | .hold now secs => ⟨s.pacer.hold now secs, now⟩
  | .refused hash now => ⟨s.pacer.refused hash now, now⟩
  | .upload u => ⟨report s.pacer u, u.now⟩

/-- Time does not go back, and a document is uploaded only when the pacer said so. -/
def allowed (s : Paced) : Event → Bool
  | .upload u =>
    decide (s.clock ≤ u.asked) && decide (u.asked ≤ u.now) && s.pacer.shouldUpload u.hash u.asked
  | e => decide (s.clock ≤ (s.next e).clock)

def run (s : Paced) (es : List Event) : Paced :=
  es.foldl next s

/-- The runs in which every upload follows `shouldUpload`. -/
def Legal (s : Paced) (es : List Event) : Prop :=
  Runs.Guarded next (fun s e => s.allowed e = true) s es

instance (s : Paced) (es : List Event) : Decidable (s.Legal es) :=
  inferInstanceAs (Decidable (Runs.Guarded next _ s es))

end Paced

end Nscp.Onboarding
