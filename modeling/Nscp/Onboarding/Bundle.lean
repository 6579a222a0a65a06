import Nscp.Onboarding.Json

/-!
# Signed and sealed bundles

What the signature of a bundle covers, how the bytes of a bundle are verified, and how a sealed
envelope is opened with the keys of the host.  The digest, the signature scheme, the cipher and
the base64 decoder are parameters.  Strings are the sequences of their bytes.
-/

namespace Nscp.Onboarding

open List

structure BundleInfo where
  id : Text
  name : Text
  version : Text
  sha256 : Text
  signature : Text
  url : Text
  priority : ℤ
  format : Text
deriving DecidableEq

structure Crypto where
  sha256Raw : Text → Text
  /-- Public key, message and signature. -/
  verifyEd25519 : Text → Text → Text → Except String Unit
  b64DecodedSize : ℕ → ℕ
  b64Decode : Text → Text
  /-- Key, nonce, additional data, ciphertext and tag. -/
  aes256GcmOpen : Text → Text → Text → Text → Text → Option Text

/-! ## Signing descriptors -/

@[ext]
structure BundleDescriptor where
  tenantId : ℤ
  bundleId : Text
  name : Text
  version : Text
  format : Text
  sha256Hex : Text
deriving DecidableEq

def kBundleSigDomain : Text :=
  "nsclient-fleet/bundle-sig/v2".toList

namespace BundleDescriptor

def fields (d : BundleDescriptor) : List Text :=
  [Text.decimal d.tenantId, d.bundleId, d.name, d.version, d.format, d.sha256Hex]

def signingBytes (d : BundleDescriptor) : Text :=
  kBundleSigDomain ++ d.fields.flatMap ('\x00' :: ·)

end BundleDescriptor

def describeBundle (tenantId : ℤ) (bundle : BundleInfo) : BundleDescriptor :=
  ⟨tenantId, bundle.id, bundle.name, bundle.version, bundle.format, bundle.sha256⟩

def toHex (bytes : Text) : Text :=
  bytes.flatMap fun c => [Nat.digitChar (c.toNat / 16), Nat.digitChar (c.toNat % 16)]

def Crypto.sha256Hex (c : Crypto) (bytes : Text) : Text :=
  toHex (c.sha256Raw bytes)

def verifyBundle (c : Crypto) (pubPem bytes : Text) (d : BundleDescriptor) (signature : Text) :
    Except String Unit :=
  if c.sha256Hex bytes ≠ Text.toLower d.sha256Hex then
    .error ("checksum mismatch: expected " ++ String.ofList d.sha256Hex ++ " got " ++
      String.ofList (c.sha256Hex bytes))
  else c.verifyEd25519 pubPem d.signingBytes signature

/-! ## Sealed envelopes -/

def magic : Text := "NSEB1".toList

def magicLen : ℕ := 5

def fingerprintLen : ℕ := 8

def nonceLen : ℕ := 12

def tagLen : ℕ := 16

def headerLen : ℕ := magicLen + fingerprintLen + nonceLen

def bundleKeyBytes : ℕ := 32

def isEncryptedBundle (bytes : Text) : Bool :=
  bytes.take magicLen = magic

def encryptedBundleFingerprint (bytes : Text) : Text :=
  if isEncryptedBundle bytes = false ∨ bytes.length < headerLen + tagLen then []
  else toHex ((bytes.drop magicLen).take fingerprintLen)

def Crypto.rawFingerprint (c : Crypto) (rawKey : Text) : Text :=
  (c.sha256Raw rawKey).take fingerprintLen

def aadFor (name version : Text) : Text :=
  name ++ '\x00' :: version

inductive UnsealStatus
  | notEncrypted
  | corrupt
  | wrongKey
  | failed
deriving DecidableEq

def decryptBundle (c : Crypto) (rawKey name version blob : Text) :
    Except (UnsealStatus × String) Text :=
  if rawKey.length ≠ bundleKeyBytes then .error (.failed, "bundle key must be 32 bytes")
  else if isEncryptedBundle blob = false then .error (.notEncrypted, "not an encrypted bundle")
  else if blob.length < headerLen + tagLen then
    .error (.corrupt, "encrypted bundle is truncated")
  else if (blob.drop magicLen).take fingerprintLen ≠ c.rawFingerprint rawKey then
    .error (.wrongKey, "sealed with another key")
  else
    match c.aes256GcmOpen rawKey ((blob.drop (magicLen + fingerprintLen)).take nonceLen)
        (aadFor name version) ((blob.drop headerLen).take (blob.length - headerLen - tagLen))
        (blob.drop (blob.length - tagLen)) with
    | some plaintext => .ok plaintext
    | none => .error (.failed, "authentication failed: the bundle was tampered with, or is " ++
        "served under another name or version")

def parseBundleKey (c : Crypto) (keyB64 : Text) : Except String Text :=
  let trimmed := Text.trim keyB64
  let data := trimmed.rdropWhile (· = '=')
  if trimmed = [] then .error "bundle key is empty"
  else if data = [] ∨ 2 < trimmed.length - data.length then .error "bundle key is not base64"
  else if ∃ x ∈ data, ¬(x.isAlphanum ∨ x = '+' ∨ x = '/') then .error "bundle key is not base64"
  else if c.b64DecodedSize trimmed.length = 0 then .error "bundle key is not base64"
  else if (c.b64Decode trimmed).length ≠ bundleKeyBytes then
    .error "bundle key must decode to 32 bytes"
  else .ok (c.b64Decode trimmed)

def tryKeys (c : Crypto) (name version bytes : Text) (index : ℕ) : List Text → Except String Text
  | [] => .error ("no configured bundle key matches this bundle (sealed with key " ++
      String.ofList (encryptedBundleFingerprint bytes) ++ ")")
  | keyB64 :: keys =>
    match parseBundleKey c keyB64 with
    | .error error => .error ("bundle key " ++ toString (index + 1) ++
        " in the enrollment manifest is invalid: " ++ error)
    | .ok rawKey =>
      match decryptBundle c rawKey name version bytes with
      | .ok plaintext => .ok plaintext
      | .error (.wrongKey, _) => tryKeys c name version bytes (index + 1) keys
      | .error (_, error) => .error ("encrypted bundle could not be opened: " ++ error)

def openBundle (c : Crypto) (keys : List Text) (name version bytes : Text)
    (requireEncrypted : Bool) : Except String Text :=
  if isEncryptedBundle bytes = false then
    if requireEncrypted then
      .error "bundle is not encrypted but this host requires encrypted bundles"
    else .ok bytes
  else if encryptedBundleFingerprint bytes = [] then .error "encrypted bundle is truncated"
  else if keys = [] then
    .error ("bundle is encrypted (key " ++ String.ofList (encryptedBundleFingerprint bytes) ++
      ") but this host has no bundle key: add it with \x60nscp enroll --bundle-key\x60")
  else tryKeys c name version bytes 0 keys

/-! ## What is signed -/

/-- No field of the descriptor holds the separator. -/
def BundleDescriptor.Separable (d : BundleDescriptor) : Prop :=
  ∀ field ∈ [d.bundleId, d.name, d.version, d.format, d.sha256Hex], '\x00' ∉ field

theorem BundleDescriptor.Separable.fields {d : BundleDescriptor} (h : d.Separable) :
    ∀ field ∈ d.fields, '\x00' ∉ field :=
  forall_mem_cons.mpr ⟨Text.not_mem_decimal (by decide) _, h⟩

theorem signingBytes_injOn {d d' : BundleDescriptor} (h : d.Separable) (h' : d'.Separable)
    (heq : d.signingBytes = d'.signingBytes) : d = d' := by
  have hfields : d.fields = d'.fields :=
    Text.flatMap_cons_injOn h.fields h'.fields (append_cancel_left heq)
  simp only [BundleDescriptor.fields, cons.injEq, and_true] at hfields
  obtain ⟨htenant, hid, hname, hversion, hformat, hsha⟩ := hfields
  exact BundleDescriptor.ext (Text.decimal_injective htenant) hid hname hversion hformat hsha

/-! ## What is opened -/

section Opening

variable {c : Crypto} {keys : List Text} {name version bytes plaintext : Text}

def SealedWith (c : Crypto) (rawKey name version bytes plaintext : Text) : Prop :=
  ∃ nonce ciphertext tag, bytes = magic ++ c.rawFingerprint rawKey ++ nonce ++ ciphertext ++ tag ∧
      c.aes256GcmOpen rawKey nonce (aadFor name version) ciphertext tag = some plaintext

theorem eq_slices (i j k l : ℕ) (bytes : Text) :
    bytes = bytes.take i ++ (bytes.drop i).take j ++ (bytes.drop (i + j)).take k ++
      (bytes.drop (i + j + k)).take l ++ bytes.drop (i + j + k + l) := by
  have hcut : ∀ m n : ℕ, bytes.drop m = (bytes.drop m).take n ++ bytes.drop (m + n) := fun m n => by
    rw [← drop_drop, take_append_drop]
  calc bytes = bytes.take i ++ bytes.drop i := (take_append_drop i bytes).symm
    _ = _ := by
      rw [hcut i j, hcut (i + j) k, hcut (i + j + k) l]
      simp [← hcut]

theorem sealedWith_of_decryptBundle {rawKey : Text}
    (h : decryptBundle c rawKey name version bytes = .ok plaintext) :
    SealedWith c rawKey name version bytes plaintext := by
  rw [decryptBundle] at h
  split_ifs at h with hkey hmagic hlength hfingerprint
  have hmagic : bytes.take magicLen = magic :=
    of_decide_eq_true (Bool.eq_true_of_not_eq_false hmagic)
  have hslices :=
    eq_slices magicLen fingerprintLen nonceLen (bytes.length - headerLen - tagLen) bytes
  have hend : magicLen + fingerprintLen + nonceLen + (bytes.length - headerLen - tagLen) =
      bytes.length - tagLen := by
    have hheader : magicLen + fingerprintLen + nonceLen = headerLen := rfl
    omega
  rw [hend, hmagic, not_not.mp hfingerprint] at hslices
  refine ⟨_, _, _, hslices, ?_⟩
  split at h
  next heq =>
    rw [← Except.ok.inj h]
    exact heq
  next => cases h

theorem exists_key_of_tryKeys {index : ℕ}
    (h : tryKeys c name version bytes index keys = .ok plaintext) :
    ∃ keyB64 ∈ keys, ∃ rawKey, parseBundleKey c keyB64 = .ok rawKey ∧
      SealedWith c rawKey name version bytes plaintext := by
  induction keys generalizing index with
  | nil => cases h
  | cons keyB64 keys ih =>
    rw [tryKeys] at h
    split at h
    next => cases h
    next rawKey hkey =>
      split at h
      next opened hopened =>
        cases h
        exact ⟨keyB64, mem_cons_self, rawKey, hkey, sealedWith_of_decryptBundle hopened⟩
      next =>
        obtain ⟨keyB64', hmem, rest⟩ := ih h
        exact ⟨keyB64', mem_cons_of_mem _ hmem, rest⟩
      next => cases h

/-- An opened bundle is the plain bytes where the host allows that, or it was sealed with one of
the keys of the host under the name and version. -/
theorem openBundle_eq_ok {requireEncrypted : Bool}
    (h : openBundle c keys name version bytes requireEncrypted = .ok plaintext) :
    (isEncryptedBundle bytes = false ∧ requireEncrypted = false ∧ plaintext = bytes) ∨
      isEncryptedBundle bytes = true ∧ ∃ keyB64 ∈ keys, ∃ rawKey,
        parseBundleKey c keyB64 = .ok rawKey ∧
          SealedWith c rawKey name version bytes plaintext := by
  rw [openBundle] at h
  split_ifs at h with hplain hrequire htruncated hkeys
  · exact Or.inl ⟨hplain, Bool.eq_false_iff.mpr hrequire, (Except.ok.inj h).symm⟩
  · exact Or.inr ⟨Bool.eq_true_of_not_eq_false hplain, exists_key_of_tryKeys h⟩

end Opening

end Nscp.Onboarding
