import Nscp.Onboarding.DesiredState

/-!
# Staging a desired state

The part of `apply_state` before the swap: each bundle is taken from the cache or downloaded,
verified, opened, and its configuration and scripts are staged; the host override is merged
last and the result rendered.  The server may answer every download as it likes.  What has been
done before a failure stays: the cache keeps the bundles that were written to it.
-/

namespace Nscp.Onboarding

open Function

structure FileEntry where
  filename : Text
  uncompressedSize : ℕ

/-- A zip archive as its reader shows it; the metadata of an entry may be unreadable. -/
structure Archive where
  entries : List (Option FileEntry)
  extract : Text → Option Text

inductive Answer
  | failed (what : String)
  | response (status : ℕ) (payload : Text)

/-- The answer to the given number of a download and its url. -/
abbrev Server := ℕ → Text → Answer

/-- The libraries, the enrolled identity and the file system of a host. -/
structure Host where
  json : JsonLibrary
  crypto : Crypto
  bundleSigningPubPem : Text
  bundleKeys : List Text
  requireEncryptedBundles : Bool
  openArchive : Text → Option Archive
  /-- The error of writing a file next to those that are staged, if there is one. -/
  writeError : List (Text × Text) → Text → Option String

/-- Why a state is not applied, and whether the server has moved on meanwhile. -/
structure Refusal where
  error : String
  stale : Bool

structure Staging where
  merged : Json
  configs : List Text
  scripts : List (Text × Text)

/-- The cache directory, the unsealed archives, the number of downloads and the staging. -/
structure Work where
  cache : Text → Option Text
  unsealed : Text → Option Text
  downloads : ℕ
  staging : Staging

/-! ## Taking a bundle -/

def cacheName (b : BundleInfo) : Text :=
  b.id ++ '-' :: b.sha256.take 16 ++ ".zip".toList

def is2xx (status : ℕ) : Bool :=
  200 ≤ status && status < 300

def bundleError (b : BundleInfo) (text : String) : Refusal :=
  ⟨"Bundle " ++ String.ofList b.id ++ text, false⟩

def downloadError (b : BundleInfo) (why : String) : Refusal :=
  ⟨"Failed to download bundle " ++ String.ofList b.id ++ ": " ++ why, false⟩

def Host.verify (h : Host) (d : BundleDescriptor) (b : BundleInfo) (bytes : Text) :
    Except String Unit :=
  verifyBundle h.crypto h.bundleSigningPubPem bytes d b.signature

def fetchBundle (h : Host) (server : Server) (b : BundleInfo) (d : BundleDescriptor) (w : Work) :
    Except Refusal Text × Work :=
  match w.cache (cacheName b) with
  | some bytes => (.ok bytes, w)
  | none =>
    let w' := { w with downloads := w.downloads + 1 }
    match server w.downloads b.url with
    | .failed what => (.error (downloadError b what), w')
    | .response status payload =>
      if status = 403 then
        (.error { bundleError b " no longer in effective set" with stale := true }, w')
      else if is2xx status = false then (.error (downloadError b (toString status)), w')
      else
        match h.verify d b payload with
        | .error error => (.error (bundleError b (" failed verification: " ++ error)), w')
        | .ok () =>
          (.ok payload, { w' with cache := update w.cache (cacheName b) payload })

/-! ## Unpacking a bundle -/

def maxScriptBytes : ℕ := 16 * 1024 * 1024

def maxBundleScriptBytes : ℕ := 64 * 1024 * 1024

def isSafeEntry (name : Text) : Bool :=
  name ≠ [] ∧ name.head? ≠ some '/' ∧ name.head? ≠ some '\\' ∧ ¬['.', '.'] <:+: name ∧ ':' ∉ name

def entryName (entry : FileEntry) : Text :=
  entry.filename.map fun c => if c = '\\' then '/' else c

def isScript (name : Text) : Bool :=
  name.take 8 = "scripts/".toList ∧ name.getLast? ≠ some '/'

def stageScripts (h : Host) (b : BundleInfo) (archive : Archive) (stagedBytes : ℕ) (x : Staging) :
    List (Option FileEntry) → Except Refusal Unit × Staging
  | [] => (.ok (), x)
  | none :: es => stageScripts h b archive stagedBytes x es
  | some entry :: es =>
    let name := entryName entry
    let total := stagedBytes + entry.uncompressedSize
    if isSafeEntry name = false then
      (.error (bundleError b (" contains unsafe path: " ++ String.ofList entry.filename)), x)
    else if isScript name = false then stageScripts h b archive stagedBytes x es
    else if maxScriptBytes < entry.uncompressedSize ∨ maxBundleScriptBytes < total then
      (.error (bundleError b (" scripts exceed the size limit (16MB per file, 64MB per bundle)")),
        x)
    else
      match archive.extract entry.filename with
      | none =>
        (.error (bundleError b (": failed to extract " ++ String.ofList entry.filename)), x)
      | some content =>
        match h.writeError x.scripts name with
        | some what => (.error ⟨"Apply failed: " ++ what, false⟩, x)
        | none =>
          stageScripts h b archive total { x with scripts := x.scripts ++ [(name, content)] } es

def stageArchive (h : Host) (b : BundleInfo) (archive : Archive) (x : Staging) :
    Except Refusal Unit × Staging :=
  match archive.extract "config.json".toList with
  | none => stageScripts h b archive 0 x archive.entries
  | some config =>
    match h.json.parse config with
    | .error what => (.error (bundleError b (" config.json is invalid: " ++ what)), x)
    | .ok doc =>
      stageScripts h b archive 0
        { x with merged := x.merged.mergePatch doc, configs := x.configs ++ [config] }
        archive.entries

def archiveFile (b : BundleInfo) (bytes : Text) (w : Work) : Option Text :=
  if isEncryptedBundle bytes then w.unsealed b.id else w.cache (cacheName b)

def Work.unseal (w : Work) (b : BundleInfo) (bytes plaintext : Text) : Work :=
  if isEncryptedBundle bytes then
    { w with unsealed := update w.unsealed b.id plaintext }
  else w

def unpackBundle (h : Host) (b : BundleInfo) (d : BundleDescriptor) (bytes : Text) (w : Work) :
    Except Refusal Unit × Work :=
  match h.verify d b bytes with
  | .error error => (.error (bundleError b (" failed verification: " ++ error)), w)
  | .ok () =>
    match openBundle h.crypto h.bundleKeys b.name b.version bytes h.requireEncryptedBundles with
    | .error error => (.error (bundleError b (": " ++ error)), w)
    | .ok plaintext =>
      let w' := w.unseal b bytes plaintext
      match (archiveFile b bytes w').bind h.openArchive with
      | none => (.error (bundleError b " is not a readable zip archive"), w')
      | some archive =>
        let (result, staging) := stageArchive h b archive w'.staging
        (result, { w' with staging := staging })

/-! ## Applying a state -/

def stageBundle (h : Host) (server : Server) (tenantId : ℤ) (b : BundleInfo) (w : Work) :
    Except Refusal Unit × Work :=
  let d := describeBundle tenantId b
  match fetchBundle h server b d w with
  | (.error refusal, w') => (.error refusal, w')
  | (.ok bytes, w') => unpackBundle h b d bytes w'

def stageBundles (h : Host) (server : Server) (tenantId : ℤ) (w : Work) :
    List BundleInfo → Except Refusal Unit × Work
  | [] => (.ok (), w)
  | b :: bs =>
    match stageBundle h server tenantId b w with
    | (.error refusal, w') => (.error refusal, w')
    | (.ok (), w') => stageBundles h server tenantId w' bs

def startWork (cache : Text → Option Text) : Work :=
  ⟨cache, fun _ => none, 0, ⟨.object [], [], []⟩⟩

/-- The text of `fleet.ini` that is staged, and what was done on the way. -/
def applyState (h : Host) (server : Server) (state : DesiredState) (cache : Text → Option Text) :
    Except Refusal Text × Work :=
  let overrideText :=
    if state.mergedConfigJson = [] then "\x7b\x7d".toList else state.mergedConfigJson
  match h.json.parse overrideText with
  | .error what => (.error ⟨"Apply failed: " ++ what, false⟩, startWork cache)
  | .ok hostOverride =>
    match stageBundles h server state.tenantId (startWork cache) state.bundles with
    | (.error refusal, w) => (.error refusal, w)
    | (.ok (), w) =>
      match renderIni h.json.toFormat (w.staging.merged.mergePatch hostOverride) with
      | .error what => (.error ⟨"Apply failed: " ++ what, false⟩, w)
      | .ok fleetIni => (.ok fleetIni, w)

/-! ## How a bundle is taken and unpacked -/

section

variable (h : Host) (server : Server) (b : BundleInfo) (d : BundleDescriptor) (w : Work)
include h

theorem fetchBundle_cases :
    (∃ bytes, w.cache (cacheName b) = some bytes ∧ fetchBundle h server b d w = (.ok bytes, w)) ∨
    (w.cache (cacheName b) = none ∧
      (∀ status payload, server w.downloads b.url = .response status payload →
        is2xx status = true → h.verify d b payload ≠ .ok ()) ∧
      ∃ refusal, fetchBundle h server b d w =
        (.error refusal, { w with downloads := w.downloads + 1 })) ∨
    (w.cache (cacheName b) = none ∧ ∃ status payload,
      server w.downloads b.url = .response status payload ∧ h.verify d b payload = .ok () ∧
      fetchBundle h server b d w = (.ok payload, { w with
          downloads := w.downloads + 1
          cache := update w.cache (cacheName b) (some payload) })) := by
  rw [fetchBundle]
  cases hcache : w.cache (cacheName b) with
  | some bytes => exact .inl ⟨bytes, rfl, rfl⟩
  | none =>
    right
    cases hanswer : server w.downloads b.url with
    | failed what => exact .inl ⟨rfl, fun _ _ heq => (by cases heq), _, rfl⟩
    | response status payload =>
      by_cases hgone : status = 403
      · simp only [if_pos hgone]
        refine .inl ⟨trivial, ?_, _, rfl⟩
        rintro _ _ ⟨⟩ hstatus
        rw [hgone] at hstatus
        cases hstatus
      cases hstatus : is2xx status with
      | false =>
        simp only [if_neg hgone, hstatus, if_true]
        refine .inl ⟨trivial, ?_, _, rfl⟩
        rintro _ _ ⟨⟩ hok
        rw [hstatus] at hok
        cases hok
      | true =>
        simp only [if_neg hgone, hstatus, Bool.true_eq_false, if_false]
        cases hverify : h.verify d b payload with
        | error error =>
          refine .inl ⟨trivial, ?_, _, rfl⟩
          rintro _ _ ⟨⟩ - hok
          rw [hverify] at hok
          cases hok
        | ok _ => exact .inr ⟨trivial, status, payload, rfl, hverify, rfl⟩

theorem fetchBundle_spec : (fetchBundle h server b d w).2.staging = w.staging ∧
      ∀ bytes, (fetchBundle h server b d w).1 = .ok bytes →
        (fetchBundle h server b d w).2.cache = update w.cache (cacheName b) (some bytes) := by
  rcases fetchBundle_cases h server b d w with
    ⟨bytes, hcache, hfetch⟩ | ⟨-, -, refusal, hfetch⟩ | ⟨-, status, payload, -, -, hfetch⟩
  · rw [hfetch]
    refine ⟨rfl, fun bytes' heq => ?_⟩
    rw [← Except.ok.inj heq, ← hcache]
    exact (update_eq_self _ _).symm
  · rw [hfetch]
    exact ⟨rfl, fun bytes heq => (by cases heq)⟩
  · rw [hfetch]
    refine ⟨rfl, fun bytes heq => ?_⟩
    rw [← Except.ok.inj heq]

end

def unpackBytes (h : Host) (b : BundleInfo) (d : BundleDescriptor) (bytes : Text) (x : Staging) :
    Except Refusal Unit × Staging :=
  match h.verify d b bytes with
  | .error error => (.error (bundleError b (" failed verification: " ++ error)), x)
  | .ok () =>
    match openBundle h.crypto h.bundleKeys b.name b.version bytes h.requireEncryptedBundles with
    | .error error => (.error (bundleError b (": " ++ error)), x)
    | .ok plaintext =>
      match h.openArchive plaintext with
      | none => (.error (bundleError b " is not a readable zip archive"), x)
      | some archive => stageArchive h b archive x

section Unpacking

variable {h : Host} {b : BundleInfo} {w : Work} {bytes plaintext : Text}

theorem Work.unseal_fields (w : Work) (b : BundleInfo) (bytes plaintext : Text) :
    (w.unseal b bytes plaintext).staging = w.staging ∧
      (w.unseal b bytes plaintext).cache = w.cache := by
  rw [Work.unseal]
  split_ifs <;> exact ⟨rfl, rfl⟩

theorem archiveFile_unseal (hcache : w.cache (cacheName b) = some bytes)
    (hopened : isEncryptedBundle bytes = false → plaintext = bytes) :
    archiveFile b bytes (w.unseal b bytes plaintext) = some plaintext := by
  rw [archiveFile, Work.unseal]
  cases hsealed : isEncryptedBundle bytes with
  | true => exact update_self _ _ _
  | false =>
    rw [hopened hsealed]
    exact hcache

theorem unpackBundle_eq (d : BundleDescriptor) (hcache : w.cache (cacheName b) = some bytes) :
    (unpackBundle h b d bytes w).1 = (unpackBytes h b d bytes w.staging).1 ∧
      (unpackBundle h b d bytes w).2.staging = (unpackBytes h b d bytes w.staging).2 ∧
      (unpackBundle h b d bytes w).2.cache = w.cache := by
  rw [unpackBundle, unpackBytes]
  rcases h.verify d b bytes with _ | _
  · exact ⟨rfl, rfl, rfl⟩
  dsimp only
  cases hopen : openBundle h.crypto h.bundleKeys b.name b.version bytes
      h.requireEncryptedBundles with
  | error error => exact ⟨rfl, rfl, rfl⟩
  | ok plaintext =>
    have hfile : archiveFile b bytes (w.unseal b bytes plaintext) = some plaintext := by
      refine archiveFile_unseal hcache fun hplain => ?_
      rcases openBundle_eq_ok hopen with ⟨-, -, heq⟩ | ⟨hsealed, -⟩
      · exact heq
      · rw [hsealed] at hplain
        cases hplain
    obtain ⟨hstaging, hkept⟩ := w.unseal_fields b bytes plaintext
    dsimp only
    rw [hfile, Option.bind_some]
    rcases h.openArchive plaintext with _ | archive
    · exact ⟨rfl, hstaging, hkept⟩
    dsimp only
    rw [hstaging]
    exact ⟨rfl, rfl, hkept⟩

end Unpacking

end Nscp.Onboarding
