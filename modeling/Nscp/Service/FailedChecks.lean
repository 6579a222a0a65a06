import Nscp.Library.Runs
import Nscp.Library.Text

/-!
# The failed-check log

A bounded log of check results that are not OK.  `record` decides whether a result is kept under
one acquisition of the lock, copies it outside, and pushes it under a second one; configuring,
clearing and reading may come in between.  The capping and redaction of the message lines is a
parameter; arguments are modelled, since whether they are kept is an option.
-/

namespace Nscp.Service.FailedChecks

open Function

abbrev Text := List Char

/-! ## Options -/

structure Options where
  enabled : Bool
  maxEntries : ℕ
  recordArguments : Bool
  statuses : ℕ
deriving DecidableEq

def statusBit (code : ℤ) : ℕ :=
  if 0 ≤ code ∧ code < 32 then 1 <<< code.toNat else 0

def defaultStatuses : ℕ :=
  statusBit 1 ||| statusBit 2 ||| statusBit 3

def maxMaxEntries : ℕ := 10000

def defaultOptions : Options :=
  ⟨true, 50, false, defaultStatuses⟩

def Options.clamped (o : Options) : Options :=
  { o with
    maxEntries := min (max o.maxEntries 1) maxMaxEntries
    statuses := o.statuses &&& defaultStatuses }

def Options.hasStatus (o : Options) (code : ℤ) : Bool :=
  o.statuses &&& statusBit code ≠ 0

def Options.records (o : Options) (code : ℤ) : Bool :=
  o.enabled && o.hasStatus code

/-! ## Entries -/

structure Response (β : Type) where
  result : ℤ
  body : β
  arguments : List Text

structure Entry (β : Type) where
  index : ℕ
  timestamp : ℤ
  subject : Text
  depth : ℤ
  response : Response β

def clip (text : Text) (length : ℕ) : Text :=
  if text.length ≤ length then text
  else if length ≤ 3 then text.take length
  else text.take (length - 3) ++ "...".toList

def maxArguments : ℕ := 100

def maxArgumentLength : ℕ := 1024

def maxSubjectLength : ℕ := 256

def isSensitiveArgument (key : Text) : Bool :=
  let lower := (Text.toLower key).dropWhile (· = '-')
  "password".toList <:+: lower ∨ "token".toList <:+: lower

def redactArguments (redactNext : Bool) : List Text → List Text
  | [] => []
  | argument :: rest =>
    if redactNext then "***".toList :: redactArguments false rest
    else
      let key := argument.takeWhile (· ≠ '=')
      if '=' ∉ argument then argument :: redactArguments (isSensitiveArgument argument) rest
      else if isSensitiveArgument key then
        (key ++ "=***".toList) :: redactArguments false rest
      else argument :: redactArguments false rest

def keptArguments (arguments : List Text) : List Text :=
  redactArguments false ((arguments.take maxArguments).map (clip · maxArgumentLength))

def sanitize {β : Type} (trimBody : β → β) (response : Response β)
    (arguments : Option (List Text)) : Response β :=
  { response with
    body := trimBody response.body
    arguments := (arguments.map keptArguments).getD [] }

structure Call (β : Type) where
  response : Response β
  arguments : Option (List Text)
  subject : Text
  depth : ℤ
  now : ℤ

/-- The copy that is made outside the lock; its index is set when it is pushed. -/
def Call.copy {β : Type} (trimBody : β → β) (current : Options) (call : Call β) : Entry β :=
  { index := 0
    timestamp := call.now
    subject := clip call.subject maxSubjectLength
    depth := max call.depth 0
    response := sanitize trimBody call.response
      (if current.recordArguments then call.arguments else none) }

/-! ## The store -/

structure Store (β : Type) where
  entries : List (Entry β)
  options : Options
  nextIndex : ℕ
  dropped : ℕ

namespace Store

variable {β : Type}

def empty : Store β :=
  ⟨[], defaultOptions, 1, 0⟩

def trimEntries (maxEntries : ℕ) : List (Entry β) → ℕ → List (Entry β) × ℕ
  | [], dropped => ([], dropped)
  | e :: es, dropped =>
    if maxEntries < (e :: es).length then trimEntries maxEntries es (dropped + 1)
    else (e :: es, dropped)

section

variable (s : Store β)

def trimLocked : Store β :=
  let trimmed := trimEntries s.options.maxEntries s.entries s.dropped
  { s with entries := trimmed.1, dropped := trimmed.2 }

def configure (value : Options) : Store β :=
  if value.clamped.enabled = false then { s with options := value.clamped, entries := [] }
  else { s with options := value.clamped }.trimLocked

def push (item : Entry β) : Store β :=
  { s with
    entries := s.entries ++ [{ item with index := s.nextIndex }]
    nextIndex := s.nextIndex + 1 }.trimLocked

def clear : Store β :=
  { s with entries := [] }

def list (since limit : ℕ) : List (Entry β) :=
  let found := s.entries.reverse.takeWhile fun e => since < e.index
  if 0 < limit then found.take limit else found

end

end Store

/-! ## Threads and pollers -/

inductive Event (β : Type)
  | check (thread : ℕ) (call : Call β)
  | push (thread : ℕ)
  | configure (value : Options)
  | clear
  | poll (poller : ℕ)

/-- The store, the copies that threads hold between the two steps of `record`, and what each
poller has received; with it all entries ever stored and the number of those cleared. -/
structure Log (β : Type) where
  store : Store β
  held : ℕ → Option (Entry β)
  received : ℕ → List (Entry β)
  recorded : List (Entry β)
  cleared : ℕ

def highest {β : Type} (es : List (Entry β)) : ℕ :=
  es.foldr (fun e m => max e.index m) 0

namespace Log

variable {β : Type}

def empty : Log β :=
  ⟨Store.empty, fun _ => none, fun _ => [], [], 0⟩

def checkStep (trimBody : β → β) (s : Log β) (thread : ℕ) (call : Call β) : Log β :=
  match s.held thread with
  | some _ => s
  | none =>
    if s.store.options.records call.response.result then
      { s with
        held := update s.held thread (some (call.copy trimBody s.store.options)) }
    else s

def pushStep (s : Log β) (thread : ℕ) : Log β :=
  match s.held thread with
  | none => s
  | some item =>
    if s.store.options.enabled then
      { s with
        store := s.store.push item
        held := update s.held thread none
        recorded := s.recorded ++ [{ item with index := s.store.nextIndex }] }
    else { s with held := update s.held thread none }

def step (trimBody : β → β) (s : Log β) : Event β → Log β
  | .check thread call => s.checkStep trimBody thread call
  | .push thread => s.pushStep thread
  | .configure value =>
    { s with
      store := s.store.configure value
      cleared := s.cleared + if value.enabled then 0 else s.store.entries.length }
  | .clear =>
    { s with store := s.store.clear, cleared := s.cleared + s.store.entries.length }
  | .poll poller =>
    { s with
      received := update s.received poller
        (s.received poller ++ s.store.list (highest (s.received poller)) 0) }

def run (trimBody : β → β) (events : List (Event β)) : Log β :=
  events.foldl (step trimBody) empty

end Log

end Nscp.Service.FailedChecks
