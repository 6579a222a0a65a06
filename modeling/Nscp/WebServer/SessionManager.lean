import Nscp.Library.Text
import Nscp.Net.AuthRateLimiter
import Nscp.WebServer.TokenStore

/-!
# Who a request is from

A request authenticates with a user and a password, with the administrator's password alone, or
with a session token, and the token comes in one of three headers or in the query of a client that
may use it there.
-/

namespace Nscp.WebServer

open TokenStore
open Net (AuthRateLimiter)

/-! ## Grants -/

structure GrantStore where
  roles : Text → Option (List Text)
  users : Text → Option Text

namespace GrantStore

def getRole (g : GrantStore) (user : Text) : Text :=
  (g.users user).getD []

def fetchRole (g : GrantStore) (uid : Text) : List Text :=
  if (g.getRole uid).isEmpty then [] else (g.roles (g.getRole uid)).getD []

def validateGrants : List Text → List Text → Bool
  | grant, [] => grant.isEmpty
  | [], _ :: _ => false
  | g :: grant, n :: need =>
    if g = "*".toList then true else if n ≠ g then false else validateGrants grant need

def validate (g : GrantStore) (uid check : Text) : Bool :=
  (g.fetchRole uid).any fun rule =>
    validateGrants (Text.getlines '.' rule) (Text.getlines '.' check)

end GrantStore

/-! ## Requests and answers -/

/-- The headers that are read here; their names are compared without regard to case. -/
inductive HeaderName
  | authorization
  | password
  | token
  | xAuthToken
  | userAgent
  deriving DecidableEq

structure Request where
  remoteIp : Text
  header : HeaderName → Option Text
  queryVariable : Text → Option Text

namespace Request

def hasVariable (r : Request) (name : HeaderName) : Bool :=
  (r.header name).isSome

def readHeader (r : Request) (name : HeaderName) : Text :=
  (r.header name).getD []

def get (r : Request) (key : Text) : Text :=
  (r.queryVariable key).getD []

end Request

inductive Code
  | forbidden
  | serverError

/-- The answer's code, when one was set, and the context of the request. -/
structure Response where
  code : Option (Code × Text) := none
  token : Option Text := none
  uid : Option Text := none

def notAllowed : Text := "403 You're not allowed".toList

def Response.setCodeForbidden (response : Response) : Response :=
  { response with code := some (.forbidden, notAllowed) }

structure Answer where
  accepted : Bool
  response : Response
  matchedGrant : Option Text := none

/-! ## The session manager -/

structure SessionManager where
  tokens : TokenMap
  grants : GrantStore
  rateLimiter : AuthRateLimiter
  isAllowed : Text → Bool
  validateUser : Text → Text → Bool
  fingerprintForUser : Text → Text
  allowAnonymous : Bool
  legacyQueryAuthUserAgents : List Text

/-- The hash of tokens and the base64 decoder. -/
structure Codecs where
  keyFor : Text ↪ Text
  decodeKey : Text → Text

/-- What the generator and the table do when a token is issued. -/
structure Draw where
  token : Text
  layout : Layout

namespace SessionManager

variable (codecs : Codecs)

def clientAllowsLegacyQueryAuth (m : SessionManager) (userAgent : Text) : Bool :=
  !userAgent.isEmpty && m.legacyQueryAuthUserAgents.any fun pat =>
    !pat.isEmpty && decide (Text.toLower pat <:+: Text.toLower userAgent)

def hasAuthHeader (r : Request) : Bool :=
  r.hasVariable .authorization

def queryToken (r : Request) : Text :=
  if (r.get "TOKEN".toList).isEmpty then r.get "__TOKEN".toList else r.get "TOKEN".toList

section

variable (m : SessionManager)

def findToken (r : Request) : Text :=
  if !(r.readHeader .token).isEmpty then r.readHeader .token
  else if !(r.readHeader .xAuthToken).isEmpty then r.readHeader .xAuthToken
  else if (queryToken r).isEmpty then []
  else if m.clientAllowsLegacyQueryAuth (r.readHeader .userAgent) then queryToken r
  else []

def hasGrant (response : Response) (grant : Text) : Bool :=
  if (response.uid.getD []).isEmpty then
    m.allowAnonymous && m.grants.validate "anonymous".toList grant
  else m.grants.validate (response.uid.getD []) grant

def can (grants : List Text) (response : Response) : Answer :=
  match grants.find? (m.hasGrant response) with
  | some grant => ⟨true, response, some grant⟩
  | none => ⟨false, response.setCodeForbidden, none⟩

def reject : Answer × SessionManager :=
  (⟨false, Response.setCodeForbidden {}, none⟩, m)

def recordFailure (ip : Text) (now : Time) : SessionManager :=
  { m with rateLimiter := m.rateLimiter.recordFailureAt ip now }

end

def recordSuccess (m : SessionManager) (ip : Text) : SessionManager :=
  { m with rateLimiter := m.rateLimiter.recordSuccess ip }

/-- A route that issues no token keeps the user of the request alone. -/
def storeUserInResponse (m : SessionManager) (user : Text) (issue : Option Draw) (now : Time) :
    Option Response × SessionManager :=
  match issue with
  | none => (some { uid := some user }, m)
  | some draw =>
    let issued := generateFor codecs.keyFor m.tokens user (m.fingerprintForUser user)
      draw.token now draw.layout
    if issued.1.isEmpty then (none, { m with tokens := issued.2 })
    else (some { token := some issued.1, uid := some user }, { m with tokens := issued.2 })

def storeSessionInResponse (token user : Text) : Response :=
  { token := some token, uid := some user }

def passwordAccepted (m : SessionManager) (grants : List Text) (user : Text)
    (issue : Option Draw) (now : Time) : Answer × SessionManager :=
  match storeUserInResponse codecs m user issue now with
  | (none, m) =>
    (⟨false, { code := some (.serverError, "500 Failed to issue token".toList) }, none⟩, m)
  | (some response, m) => (m.can grants response, m)

def kMaxAuthHeaderBytes : ℕ := 8 * 1024

def split2 (text : Text) : Text × Text :=
  (text.takeWhile (· ≠ ':'), (text.dropWhile (· ≠ ':')).tail)

section

variable (m : SessionManager) (grants : List Text)

def basicAuth (ip credentials : Text)
    (issue : Option Draw) (now : Time) : Answer × SessionManager :=
  if m.validateUser (split2 (codecs.decodeKey credentials)).1
      (split2 (codecs.decodeKey credentials)).2 then
    passwordAccepted codecs (m.recordSuccess ip) grants (split2 (codecs.decodeKey credentials)).1
      issue now
  else reject (m.recordFailure ip now)

def bearerAuth (ip token : Text) (now : Time) :
    Answer × SessionManager :=
  match validate codecs.keyFor m.tokens token now with
  | (none, tokens) => reject ({ m with tokens := tokens }.recordFailure ip now)
  | (some user, tokens) =>
    (m.can grants (storeSessionInResponse token user), { m with tokens := tokens }.recordSuccess ip)

def processAuthHeader (r : Request)
    (issue : Option Draw) (now : Time) : Answer × SessionManager :=
  if m.rateLimiter.isBlocked r.remoteIp now then reject m
  else if (r.readHeader .authorization).length > kMaxAuthHeaderBytes then
    reject (m.recordFailure r.remoteIp now)
  else if "Basic ".toList <+: r.readHeader .authorization then
    basicAuth codecs m grants r.remoteIp ((r.readHeader .authorization).drop 6) issue now
  else if "Bearer ".toList <+: r.readHeader .authorization then
    bearerAuth codecs m grants r.remoteIp ((r.readHeader .authorization).drop 7) now
  else reject m

def processPasswordHeader (r : Request)
    (password : Text) (issue : Option Draw) (now : Time) : Answer × SessionManager :=
  if m.rateLimiter.isBlocked r.remoteIp now then reject m
  else if password.length > kMaxAuthHeaderBytes then reject (m.recordFailure r.remoteIp now)
  else if m.validateUser "admin".toList password then
    passwordAccepted codecs (m.recordSuccess r.remoteIp) grants "admin".toList issue now
  else reject (m.recordFailure r.remoteIp now)

def tokenAuth (token : Text) (now : Time) :
    Answer × SessionManager :=
  match validate codecs.keyFor m.tokens token now with
  | (none, tokens) => reject { m with tokens := tokens }
  | (some user, tokens) =>
    (m.can grants (storeSessionInResponse token user), { m with tokens := tokens })

/-- `issue` is the token a login route may hand out; other routes have none. -/
def isLoggedIn (r : Request) (issue : Option Draw)
    (now : Time) : Answer × SessionManager :=
  if !m.isAllowed r.remoteIp then reject m
  else if hasAuthHeader r then processAuthHeader codecs m grants r issue now
  else if !(r.readHeader .password).isEmpty then
    processPasswordHeader codecs m grants r (r.readHeader .password) issue now
  else if (m.findToken r).isEmpty then reject m
  else tokenAuth codecs m grants (m.findToken r) now

end

end SessionManager

/-! ## Ways to present a token -/

inductive Presentation
  | bearer
  | token
  | xAuthToken
  deriving DecidableEq

def Request.present (r : Request) (way : Presentation) (token : Text) : Request :=
  { r with
    header := fun name =>
      match name with
      | .authorization => if way = .bearer then some ("Bearer ".toList ++ token) else none
      | .password => none
      | .token => if way = .token then some token else none
      | .xAuthToken => if way = .xAuthToken then some token else none
      | .userAgent => r.header .userAgent
    queryVariable := fun key =>
      if key = "TOKEN".toList ∨ key = "__TOKEN".toList then none else r.queryVariable key }

/-- What a request comes to: whether it is let through, the user it is taken to be from, and the
rate limiter after it. -/
structure Outcome where
  accepted : Bool
  user : Option Text
  rateLimiter : AuthRateLimiter

namespace SessionManager

variable (codecs : Codecs)

def outcomeOf (result : Answer × SessionManager) : Outcome :=
  ⟨result.1.accepted, result.1.response.uid, result.2.rateLimiter⟩

section

variable (m : SessionManager) (grants : List Text) (issue : Option Draw) (now : Time)

def outcome
    (r : Request) : Outcome :=
  outcomeOf (m.isLoggedIn codecs grants r issue now)

/-- The three ways come to the same; a blocked address is nobody's, and a token that does not
validate is counted as a failure. -/
def Equivalent
    (r : Request) (token : Text) : Prop :=
  (∀ way way', m.outcome codecs grants issue now (r.present way token) =
    m.outcome codecs grants issue now (r.present way' token)) ∧
  (m.rateLimiter.isBlocked r.remoteIp now = true → ∀ way,
    (m.outcome codecs grants issue now (r.present way token)).accepted = false ∧
      (m.outcome codecs grants issue now (r.present way token)).user = none) ∧
  (m.rateLimiter.isBlocked r.remoteIp now = false →
    (validate codecs.keyFor m.tokens token now).1 = none → ∀ way,
    (m.outcome codecs grants issue now (r.present way token)).rateLimiter =
      m.rateLimiter.recordFailureAt r.remoteIp now)

end

section

variable (m : SessionManager) (token : Text) (now : Time)

/-- The user of a token in a header of its own, where an empty one counts as missing. -/
def headerUser : Option Text :=
  if token.isEmpty then none else (validate codecs.keyFor m.tokens token now).1

/-- The user of a bearer token, where a header can be too long. -/
def bearerUser : Option Text :=
  if ("Bearer ".toList ++ token).length > kMaxAuthHeaderBytes then none
  else (validate codecs.keyFor m.tokens token now).1

end

/-! ## The outcomes -/

section Outcomes

variable {codecs} {m : SessionManager} {grants : List Text} {issue : Option Draw} {now : Time}
  {r : Request} {token : Text}

/-- The outcome of a checked token, given what is done to the rate limiter when it fails and when
it is good. -/
def settle (m : SessionManager) (grants : List Text) (token : Text)
    (failed succeeded : AuthRateLimiter) : Option Text → Outcome
  | none => ⟨false, none, failed⟩
  | some user =>
    ⟨(m.can grants (storeSessionInResponse token user)).accepted, some user, succeeded⟩

theorem settle_inj {failed succeeded failed' succeeded' : AuthRateLimiter}
    {user user' : Option Text}
    (h : m.settle grants token failed succeeded user =
      m.settle grants token failed' succeeded' user') :
    user = user' ∧ (user = none → failed = failed') ∧ (user ≠ none → succeeded = succeeded') := by
  cases user with
  | none =>
    cases user' with
    | none =>
      obtain ⟨-, -, hfailed⟩ := Outcome.mk.inj h
      exact ⟨rfl, fun _ => hfailed, fun hne => absurd rfl hne⟩
    | some u' => exact nomatch (Outcome.mk.inj h).2.1
  | some u =>
    cases user' with
    | none => exact nomatch (Outcome.mk.inj h).2.1
    | some u' =>
      obtain ⟨-, huser, hsucceeded⟩ := Outcome.mk.inj h
      exact ⟨huser, fun hnone => (nomatch hnone), fun _ => hsucceeded⟩

section

variable (m : SessionManager) (grants : List Text)

theorem can_uid (response : Response) : (m.can grants response).response.uid = response.uid := by
  rw [can]
  split
  · rfl
  · rfl

theorem outcomeOf_bearerAuth (ip token : Text) (now : Time) :
    outcomeOf (bearerAuth codecs m grants ip token now) =
      m.settle grants token (m.rateLimiter.recordFailureAt ip now)
        (m.rateLimiter.recordSuccess ip)
        (validate codecs.keyFor m.tokens token now).1 := by
  rw [bearerAuth]
  split
  · next h =>
      rw [h]
      rfl
  · next h =>
      rw [h, outcomeOf, can_uid]
      rfl

theorem outcomeOf_tokenAuth (token : Text) (now : Time) :
    outcomeOf (tokenAuth codecs m grants token now) =
      m.settle grants token m.rateLimiter m.rateLimiter
        (validate codecs.keyFor m.tokens token now).1 := by
  rw [tokenAuth]
  split
  · next h =>
      rw [h]
      rfl
  · next h =>
      rw [h, outcomeOf, can_uid]
      rfl

end

theorem isLoggedIn_of_isAllowed (hallowed : m.isAllowed r.remoteIp = true) :
    m.isLoggedIn codecs grants r issue now =
      if hasAuthHeader r then processAuthHeader codecs m grants r issue now
      else if !(r.readHeader .password).isEmpty then
        processPasswordHeader codecs m grants r (r.readHeader .password) issue now
      else if (m.findToken r).isEmpty then reject m
      else tokenAuth codecs m grants (m.findToken r) now := by
  rw [isLoggedIn, if_neg]
  rw [hallowed]
  exact Bool.false_ne_true

theorem outcome_bearer (hallowed : m.isAllowed r.remoteIp = true) :
    m.outcome codecs grants issue now (r.present .bearer token) =
      if m.rateLimiter.isBlocked r.remoteIp now then ⟨false, none, m.rateLimiter⟩
      else m.settle grants token (m.rateLimiter.recordFailureAt r.remoteIp now)
        (m.rateLimiter.recordSuccess r.remoteIp) (m.bearerUser codecs token now) := by
  have hheader : (r.present .bearer token).readHeader .authorization =
      "Bearer ".toList ++ token := rfl
  have hip : (r.present .bearer token).remoteIp = r.remoteIp := rfl
  have hauth : hasAuthHeader (r.present .bearer token) = true := rfl
  have hscheme : ¬ "Basic ".toList <+: "Bearer ".toList ++ token := by
    rintro ⟨rest, h⟩
    exact absurd (List.cons.inj (List.cons.inj h).2).1 (by decide)
  have hdrop : ("Bearer ".toList ++ token).drop 7 = token := rfl
  rw [outcome, isLoggedIn_of_isAllowed (r := r.present .bearer token) hallowed, if_pos hauth,
    processAuthHeader, hheader, hip,
    bearerUser, if_neg hscheme, if_pos (List.prefix_append _ _), hdrop]
  split_ifs
  · rfl
  · rfl
  · exact outcomeOf_bearerAuth m grants r.remoteIp token now

theorem outcome_header {way : Presentation} (hway : way ≠ .bearer)
    (hallowed : m.isAllowed r.remoteIp = true) :
    m.outcome codecs grants issue now (r.present way token) =
      m.settle grants token m.rateLimiter m.rateLimiter (m.headerUser codecs token now) := by
  have hauth : hasAuthHeader (r.present way token) = false := by
    cases way with
    | bearer => exact absurd rfl hway
    | token => rfl
    | xAuthToken => rfl
  have hpassword : (!((r.present way token).readHeader .password).isEmpty) = false := rfl
  have hfind : m.findToken (r.present way token) = token := by
    cases way with
    | bearer => exact absurd rfl hway
    | token | xAuthToken =>
      cases token with
      | nil => rfl
      | cons c token => rfl
  rw [outcome, isLoggedIn_of_isAllowed (r := r.present way token) hallowed, hauth,
    if_neg Bool.false_ne_true, hpassword, if_neg Bool.false_ne_true, hfind, headerUser]
  split_ifs
  · rfl
  · exact outcomeOf_tokenAuth m grants token now

/-- The outcome of the bearer header says that a blocked address is nobody's and that a token that
does not validate is counted, so the other ways need only agree with it. -/
theorem equivalent_of_agree (hallowed : m.isAllowed r.remoteIp = true)
    (h : ∀ way ≠ .bearer, m.outcome codecs grants issue now (r.present way token) =
      m.outcome codecs grants issue now (r.present .bearer token)) :
    m.Equivalent codecs grants issue now r token := by
  have hall : ∀ way, m.outcome codecs grants issue now (r.present way token) =
      m.outcome codecs grants issue now (r.present .bearer token) := by
    intro way
    by_cases hway : way = .bearer
    · rw [hway]
    · exact h way hway
  refine ⟨fun way way' => (hall way).trans (hall way').symm, fun hblocked way => ?_,
    fun hfree hbad way => ?_⟩
  · rw [hall way, outcome_bearer hallowed, if_pos hblocked]
    exact ⟨rfl, rfl⟩
  · have hnobody : m.bearerUser codecs token now = none := by
      rw [bearerUser, hbad, ite_self]
    rw [hall way, outcome_bearer hallowed, hfree, if_neg Bool.false_ne_true, hnobody]
    rfl

end Outcomes

/-- The ways to present a token agree exactly when the rate limiter is out of play: a blocked
address presents a token that is no good in a header of its own, and another address a token that
is the same in both places and whose outcome would leave the limiter as it is. -/
theorem equivalent_iff (m : SessionManager) (grants : List Text) (issue : Option Draw) (now : Time)
    (r : Request) (token : Text) (hallowed : m.isAllowed r.remoteIp = true) :
    m.Equivalent codecs grants issue now r token ↔
      if m.rateLimiter.isBlocked r.remoteIp now then m.headerUser codecs token now = none
      else m.bearerUser codecs token now = m.headerUser codecs token now ∧
        (m.headerUser codecs token now = none →
          m.rateLimiter.recordFailureAt r.remoteIp now = m.rateLimiter) ∧
        (m.headerUser codecs token now ≠ none → m.rateLimiter.entries r.remoteIp = none) := by
  have htoken : Presentation.token ≠ .bearer := by decide
  constructor
  · intro h
    have hagree := h.1 .bearer .token
    rw [outcome_bearer hallowed, outcome_header htoken hallowed] at hagree
    split_ifs at hagree ⊢
    · have hnone : m.settle grants token m.rateLimiter m.rateLimiter none =
          m.settle grants token m.rateLimiter m.rateLimiter (m.headerUser codecs token now) :=
        hagree
      exact (settle_inj hnone).1.symm
    · obtain ⟨huser, hfailed, hsucceeded⟩ := settle_inj hagree
      rw [huser] at hfailed hsucceeded
      exact ⟨huser, hfailed, fun hne => AuthRateLimiter.recordSuccess_eq_self_iff.mp
        (hsucceeded hne)⟩
  · intro h
    refine equivalent_of_agree hallowed fun way hway => ?_
    rw [outcome_bearer hallowed, outcome_header hway hallowed]
    split_ifs at h ⊢
    · rw [h]
      rfl
    · obtain ⟨huser, hfailed, hsucceeded⟩ := h
      rw [huser]
      cases hheader : m.headerUser codecs token now with
      | none =>
        rw [settle, settle, hfailed hheader]
      | some user =>
        have hentry := hsucceeded (by rw [hheader]; exact Option.some_ne_none user)
        rw [settle, settle, AuthRateLimiter.recordSuccess_eq_self_iff.mpr hentry]

/-! ## A blocked address with a live session -/

def oneSession (entry : Option Net.LimiterEntry) : SessionManager where
  tokens := AList.insert "key".toList ⟨"operator".toList, 0, []⟩ ∅
  grants := ⟨fun _ => some ["*".toList], fun _ => some "full".toList⟩
  rateLimiter := ⟨fun _ => entry, 10, 60⟩
  isAllowed := fun _ => true
  validateUser := fun _ _ => false
  fingerprintForUser := fun _ => []
  allowAnonymous := false
  legacyQueryAuthUserAgents := []

def plainCodecs : Codecs := ⟨Function.Embedding.refl Text, id⟩

def plainRequest : Request := ⟨"192.0.2.1".toList, fun _ => none, fun _ => none⟩

/-- An address that has not failed may present a live token in any way. -/
theorem equivalent_of_unseen :
    (oneSession none).Equivalent plainCodecs ["query".toList] none 0 plainRequest "key".toList := by
  apply (equivalent_iff plainCodecs (oneSession none) ["query".toList] none 0 plainRequest
    "key".toList rfl).mpr
  have hfree : ¬ (oneSession none).rateLimiter.isBlocked plainRequest.remoteIp 0 = true := by decide
  have hlive : (oneSession none).headerUser plainCodecs "key".toList 0 =
      some "operator".toList := by decide
  rw [if_neg hfree, hlive]
  exact ⟨by decide, fun hnone => (nomatch hnone), fun _ => rfl⟩

/-- A blocked address is turned away with its token in the bearer header and let in with the same
token in the other one. -/
theorem blocked_authenticates : let m := oneSession (some { blockedUntil := 100 })
    m.rateLimiter.isBlocked plainRequest.remoteIp 0 = true ∧
      (m.outcome plainCodecs ["query".toList] none 0
        (plainRequest.present .bearer "key".toList)).accepted = false ∧
      (m.outcome plainCodecs ["query".toList] none 0
        (plainRequest.present .token "key".toList)).accepted = true ∧
      ¬ m.Equivalent plainCodecs ["query".toList] none 0 plainRequest "key".toList := by
  intro m
  have haccepted : (m.outcome plainCodecs ["query".toList] none 0
      (plainRequest.present .token "key".toList)).accepted = true := by decide
  refine ⟨by decide, by decide, haccepted, fun h => ?_⟩
  exact Bool.false_ne_true ((h.2.1 (by decide) .token).1.symm.trans haccepted)

end SessionManager

end Nscp.WebServer
