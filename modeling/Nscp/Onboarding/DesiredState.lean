import Nscp.Onboarding.Bundle
import Nscp.Onboarding.Ini

/-!
# The desired state the server sends

`parseDesiredState` checks every field it takes: the lengths and characters of tokens, ids,
digests and urls, and that nothing the signatures cover holds the separator of the signing
descriptor.
-/

namespace Nscp.Onboarding

open Except Fallible

structure DesiredState where
  tenantId : ℤ
  stateHash : Text
  nextPollInSeconds : ℕ
  mergedConfigJson : Text
  bundles : List BundleInfo

/-- The JSON library: its parser, the conversion of numbers, and what it reports for a value
that is no object. -/
structure JsonLibrary extends Format where
  parse : Text → Except String Json
  toNumber : Json → Except String ℤ
  notAnObject : String

/-! ## Fields -/

def maxHashLength : ℕ := 128

def maxIdLength : ℕ := 128

def maxUrlLength : ℕ := 1024

def maxSignatureLength : ℕ := 512

def defaultPollSeconds : ℕ := 60

def maxPollSeconds : ℕ := 86400

def tokenExtraChars : Text := "-._:=+/~".toList

def idExtraChars : Text := "-._".toList

def signatureExtraChars : Text := "+/=-_".toList

def isAllowedChar (extra : Text) (c : Char) : Bool :=
  c.isAlphanum || c ∈ extra

def badField (context key why : String) : String :=
  context ++ " " ++ key ++ " " ++ why

def requireString (object : Members) (key context : String) : Except String Text :=
  match object.ifContains key.toList with
  | some (.string (c :: cs)) => .ok (c :: cs)
  | _ => .error (context ++ " is missing " ++ key)

def optionalString (object : Members) (key : String) (fallback : Text) : Text :=
  match object.ifContains key.toList with
  | some (.string (c :: cs)) => c :: cs
  | _ => fallback

def tooLong (length max : ℕ) : String :=
  "is too long (" ++ toString length ++ " > " ++ toString max ++ ")"

def requireToken (object : Members) (key context : String) (extra : Text) (maxLength : ℕ) :
    Except String Text := do
  let value ← requireString object key context
  if maxLength < value.length then throw (badField context key (tooLong value.length maxLength))
  else if value.all (isAllowedChar extra) then return value
  else throw (badField context key "contains an illegal character")

def requireId (object : Members) (key context : String) : Except String Text := do
  let value ← requireToken object key context idExtraChars maxIdLength
  if ['.', '.'] <:+: value then throw (badField context key "must not contain '..'")
  else if value = ['.'] then throw (badField context key "must not be '.'")
  else return value

def isXDigit (c : Char) : Bool :=
  c.isDigit || ('a' ≤ c && c ≤ 'f') || ('A' ≤ c && c ≤ 'F')

def isSha256Hex (value : Text) : Bool :=
  value.length = 64 && value.all isXDigit

def requireSha256Hex (object : Members) (key context : String) : Except String Text := do
  let value ← requireString object key context
  if isSha256Hex value then return value
  else throw (badField context key "must be a 64 character SHA-256 hex digest")

def urlForbidden : Text := "\\\"<>^\x7b\x7d|\x60#".toList

def requireRelativeUrl (object : Members) (key context : String) : Except String Text := do
  let value ← requireString object key context
  if maxUrlLength < value.length then
    throw (badField context key (tooLong value.length maxUrlLength))
  else if value.head? ≠ some '/' then
    throw (badField context key "must be a server-relative path starting with '/'")
  else if value.all fun c => 0x20 < c.toNat && c.toNat < 0x7f && c ∉ urlForbidden then return value
  else throw (badField context key "contains an illegal character")

def requireSignedString (object : Members) (key context : String) (fallback : Text) :
    Except String Text :=
  let value := optionalString object key fallback
  if '\x00' ∈ value then .error (badField context key "contains a NUL character")
  else .ok value

def maxInt64 : ℤ := 2 ^ 63 - 1

def requireInt (object : Members) (key context : String) : Except String ℤ :=
  match object.ifContains key.toList with
  | none => .error (badField context key "is missing")
  | some (.int n) =>
    if n ≤ maxInt64 then .ok n else .error (badField context key "is not an integer")
  | some _ => .error (badField context key "is not an integer")

def optionalInt (L : JsonLibrary) (object : Members) (key : String) (fallback : ℤ) :
    Except String ℤ :=
  match object.ifContains key.toList with
  | some (.int n) => L.toNumber (.int n)
  | some (.double bits) => L.toNumber (.double bits)
  | _ => .ok fallback

def clampPollSeconds (seconds : ℤ) : ℕ :=
  if seconds ≤ 0 then defaultPollSeconds else min seconds.toNat maxPollSeconds

/-! ## The document -/

def parseObject (L : JsonLibrary) (body : Text) (context : String) : Except String Members :=
  match L.parse body with
  | .error what => .error ("Failed to parse " ++ context ++ ": " ++ what)
  | .ok (.object ms) => .ok ms
  | .ok _ => .error ("Failed to parse " ++ context ++ ": " ++ L.notAnObject)

def parseBundle (L : JsonLibrary) : Json → Except String BundleInfo
  | .object b => do
      let id ← requireId b "id" "Bundle"
      let sha256 ← requireSha256Hex b "sha256" "Bundle"
      let signature ← requireToken b "signature" "Bundle" signatureExtraChars maxSignatureLength
      let url ← requireRelativeUrl b "url" "Bundle"
      let name ← requireSignedString b "name" "Bundle" []
      let version ← requireSignedString b "version" "Bundle" []
      let priority ← optionalInt L b "priority" 0
      let format ← requireSignedString b "format" "Bundle" []
      return ⟨id, name, version, sha256, signature, url, priority, format⟩
  | _ => throw "Desired state bundle entry is not an object"

def hasBundles (root : Members) : Bool :=
  match root.ifContains "bundles".toList with
  | some (.array (_ :: _)) => true
  | _ => false

section

variable (L : JsonLibrary) (root : Members)

def parseMergedConfig : Except String Text :=
  match root.ifContains "merged_config_json".toList with
  | none => .ok "\x7b\x7d".toList
  | some .null => .ok "\x7b\x7d".toList
  | some (.object ms) => .ok (L.serialize (.object ms))
  | some _ => .error "Desired state merged_config_json is not an object"

def parseBundles : Except String (List BundleInfo) :=
  match root.ifContains "bundles".toList with
  | none => .ok []
  | some .null => .ok []
  | some (.array entries) => entries.mapM (parseBundle L)
  | some _ => .error "Desired state bundles is not an array"

/-- The tenant is needed only where there is a bundle to verify. -/
def parseTenantId : Except String ℤ :=
  if hasBundles root then requireInt root "tenant_id" "Desired state"
  else optionalInt L root "tenant_id" 0

end

/-- The bundles are put in the order of their priorities, ties in the order of the server. -/
def parseDesiredState (L : JsonLibrary) (body : Text) : Except String DesiredState := do
  let root ← parseObject L body "desired state"
  let tenantId ← parseTenantId L root
  let stateHash ← requireToken root "state_hash" "Desired state" tokenExtraChars maxHashLength
  let poll ← optionalInt L root "next_poll_in_seconds" defaultPollSeconds
  let merged ← parseMergedConfig L root
  let bundles ← parseBundles L root
  return ⟨tenantId, stateHash, clampPollSeconds poll, merged,
    bundles.insertionSort fun a b => a.priority ≤ b.priority⟩

/-! ## What is accepted can be signed -/

section Accepted

variable {L : JsonLibrary} {object : Members} {key context : String} {value : Text} {b : BundleInfo}

theorem isAllowedChar_of_requireToken {extra : Text} {maxLength : ℕ}
    (h : requireToken object key context extra maxLength = .ok value) :
    ∀ c ∈ value, isAllowedChar extra c = true := by
  obtain ⟨read, -, h⟩ := bind_eq_ok h
  split_ifs at h with hlength hchars
  obtain rfl : read = value := ok.inj h
  exact List.all_eq_true.mp hchars

theorem nul_not_mem_of_requireId (h : requireId object key context = .ok value) :
    '\x00' ∉ value := by
  obtain ⟨read, hread, h⟩ := bind_eq_ok h
  have hchars := isAllowedChar_of_requireToken hread
  split_ifs at h
  obtain rfl : read = value := ok.inj h
  intro hnul
  have hallowed := hchars _ hnul
  revert hallowed
  decide

theorem nul_not_mem_of_requireSha256Hex (h : requireSha256Hex object key context = .ok value) :
    '\x00' ∉ value := by
  obtain ⟨read, -, h⟩ := bind_eq_ok h
  split_ifs at h with hhex
  obtain rfl : read = value := ok.inj h
  intro hnul
  have hdigit := List.all_eq_true.mp (Bool.and_eq_true_iff.mp hhex).2 _ hnul
  revert hdigit
  decide

theorem nul_not_mem_of_requireSignedString {fallback : Text}
    (h : requireSignedString object key context fallback = .ok value) : '\x00' ∉ value := by
  rw [requireSignedString] at h
  split_ifs at h with hnul
  cases h
  exact hnul

theorem separable_of_parseBundle {entry : Json} (h : parseBundle L entry = .ok b) (tenantId : ℤ) :
    (describeBundle tenantId b).Separable := by
  cases entry with
  | object ms =>
    obtain ⟨id, hid, h⟩ := bind_eq_ok h
    obtain ⟨sha256, hsha, h⟩ := bind_eq_ok h
    obtain ⟨signature, -, h⟩ := bind_eq_ok h
    obtain ⟨url, -, h⟩ := bind_eq_ok h
    obtain ⟨name, hname, h⟩ := bind_eq_ok h
    obtain ⟨version, hversion, h⟩ := bind_eq_ok h
    obtain ⟨priority, -, h⟩ := bind_eq_ok h
    obtain ⟨format, hformat, h⟩ := bind_eq_ok h
    cases h
    intro field hfield
    simp only [describeBundle, List.mem_cons, List.not_mem_nil, or_false] at hfield
    rcases hfield with rfl | rfl | rfl | rfl | rfl
    · exact nul_not_mem_of_requireId hid
    · exact nul_not_mem_of_requireSignedString hname
    · exact nul_not_mem_of_requireSignedString hversion
    · exact nul_not_mem_of_requireSignedString hformat
    · exact nul_not_mem_of_requireSha256Hex hsha
  | _ => cases h

theorem separable_of_parseDesiredState {body : Text} {state : DesiredState}
    (h : parseDesiredState L body = .ok state) (hb : b ∈ state.bundles) :
    (describeBundle state.tenantId b).Separable := by
  obtain ⟨root, -, h⟩ := bind_eq_ok h
  obtain ⟨tenantId, -, h⟩ := bind_eq_ok h
  obtain ⟨stateHash, -, h⟩ := bind_eq_ok h
  obtain ⟨poll, -, h⟩ := bind_eq_ok h
  obtain ⟨merged, -, h⟩ := bind_eq_ok h
  obtain ⟨bundles, hbundles, h⟩ := bind_eq_ok h
  cases h
  have hb : b ∈ bundles := (List.mem_insertionSort _).mp hb
  rw [parseBundles] at hbundles
  split at hbundles
  · cases hbundles
    cases hb
  · cases hbundles
    cases hb
  · obtain ⟨entry, -, hentry⟩ := exists_of_mem_mapM hbundles hb
    exact separable_of_parseBundle hentry tenantId
  · cases hbundles

end Accepted

end Nscp.Onboarding
