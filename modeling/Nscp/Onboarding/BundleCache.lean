import Nscp.Onboarding.Staging

/-!
# Applying with and without the cache

A file of the cache is used as it is found.  When it does not verify, the apply fails and the
file stays, so the cache can be seen exactly where it holds a damaged file for a bundle of the
state.
-/

namespace Nscp.Onboarding

open Function

/-- What an apply installs, if it succeeds: the configuration and the scripts. -/
def installed (run : Except Refusal Text × Work) : Option (Text × List (Text × Text)) :=
  match run.1 with
  | .ok fleetIni => some (fleetIni, run.2.staging.scripts)
  | .error _ => none

def noCache : Text → Option Text :=
  fun _ => none

/-- Every download of a bundle of the state gets bytes that are signed for it. -/
def ServesSigned (h : Host) (server : Server) (state : DesiredState) : Prop :=
  ∀ b ∈ state.bundles, ∀ n, ∃ status payload, server n b.url = .response status payload ∧
    is2xx status = true ∧ h.verify (describeBundle state.tenantId b) b payload = .ok ()

/-- The bytes that stand in the cache for a bundle of the state or are served for one. -/
def heldBytes (server : Server) (state : DesiredState) (cache : Text → Option Text) : Set Text :=
  {bytes | ∃ b ∈ state.bundles, cache (cacheName b) = some bytes ∨
    ∃ n status, server n b.url = .response status bytes}

/-- The file of the bundle is missing or verifies. -/
def IntactEntry (h : Host) (tenantId : ℤ) (cache : Text → Option Text) (b : BundleInfo) : Prop :=
  ∀ bytes, cache (cacheName b) = some bytes → h.verify (describeBundle tenantId b) b bytes = .ok ()

def Taken (h : Host) (server : Server) (tenantId : ℤ) (b : BundleInfo) (w : Work) (bytes : Text) :
    Prop :=
  w.cache (cacheName b) = some bytes ∨
    w.cache (cacheName b) = none ∧ (∃ n status, server n b.url = .response status bytes) ∧
      h.verify (describeBundle tenantId b) b bytes = .ok ()

section Runs

variable {h : Host} {server : Server} {state : DesiredState} {cache : Text → Option Text}
  {b : BundleInfo} {w w₁ w₂ w' : Work} {d : BundleDescriptor} {bs : List BundleInfo} {bytes : Text}
  {tenantId : ℤ}

theorem sha256Hex_of_verify (hverify : h.verify d b bytes = .ok ()) :
    h.crypto.sha256Hex bytes = Text.toLower d.sha256Hex := by
  rw [Host.verify, verifyBundle] at hverify
  split_ifs at hverify with hdigest
  exact not_not.mp hdigest

theorem exists_fetchBundle (hserves : ServesSigned h server state) (hb : b ∈ state.bundles)
    (w : Work) :
    ∃ bytes w', fetchBundle h server b (describeBundle state.tenantId b) w = (.ok bytes, w') ∧
      w'.staging = w.staging ∧
      w'.cache = update w.cache (cacheName b) (some bytes) ∧
      Taken h server state.tenantId b w bytes := by
  obtain ⟨hstaging, hcached⟩ := fetchBundle_spec h server b (describeBundle state.tenantId b) w
  rcases fetchBundle_cases h server b (describeBundle state.tenantId b) w with
    ⟨bytes, hcache, hfetch⟩ | ⟨-, hnone, -⟩ | ⟨hnone, status, payload, hanswer, hverify, hfetch⟩
  · rw [hfetch] at hstaging hcached
    exact ⟨bytes, w, hfetch, hstaging, hcached bytes rfl, .inl hcache⟩
  · obtain ⟨status, payload, hanswer, hstatus, hverify⟩ := hserves b hb w.downloads
    exact absurd hverify (hnone status payload hanswer hstatus)
  · rw [hfetch] at hstaging hcached
    exact ⟨payload, _, hfetch, hstaging, hcached payload rfl,
      .inr ⟨hnone, ⟨w.downloads, status, hanswer⟩, hverify⟩⟩

/-- The run with the cache and the run without it side by side: the same is staged, and the
files of the first are those it started with and those of the second. -/
structure SideBySide (cache : Text → Option Text) (w₁ w₂ : Work) : Prop where
  staging : w₁.staging = w₂.staging
  started : ∀ name bytes, cache name = some bytes → w₁.cache name = some bytes
  contains : ∀ name bytes, w₂.cache name = some bytes → w₁.cache name = some bytes
  covered : ∀ name bytes, w₁.cache name = some bytes →
    cache name = some bytes ∨ w₂.cache name = some bytes

theorem sideBySide_start (cache : Text → Option Text) :
    SideBySide cache (startWork cache) (startWork noCache) where
  staging := rfl
  started _ _ hcache := hcache
  contains _ _ hcache := by cases hcache
  covered _ _ hcache := .inl hcache

variable (hserves : ServesSigned h server state)
  (hdigest : Set.InjOn h.crypto.sha256Hex (heldBytes server state cache))

section

variable (hw : SideBySide cache w₁ w₂)
include hw

include hdigest in
theorem SideBySide.same_bytes
    (hb : b ∈ state.bundles) (hintact : IntactEntry h state.tenantId cache b)
    {bytes₁ bytes₂ : Text}
    (h₁ : Taken h server state.tenantId b w₁ bytes₁)
    (h₂ : Taken h server state.tenantId b w₂ bytes₂) : bytes₁ = bytes₂ := by
  rcases h₂ with hcached₂ | ⟨hnone₂, hserved₂, hverify₂⟩
  · have hcached := hw.contains _ _ hcached₂
    rcases h₁ with hcached₁ | ⟨hnone₁, -⟩
    · rw [hcached₁] at hcached
      exact Option.some.inj hcached
    · rw [hnone₁] at hcached
      cases hcached
  · -- The second run downloads; both byte sequences verify for the same digest.
    have hfirst : bytes₁ ∈ heldBytes server state cache ∧
        h.verify (describeBundle state.tenantId b) b bytes₁ = .ok () := by
      rcases h₁ with hcached₁ | ⟨-, hserved₁, hverify₁⟩
      · rcases hw.covered _ _ hcached₁ with hstart | hcached₂
        · exact ⟨⟨b, hb, .inl hstart⟩, hintact bytes₁ hstart⟩
        · rw [hnone₂] at hcached₂
          cases hcached₂
      · exact ⟨⟨b, hb, .inr hserved₁⟩, hverify₁⟩
    refine hdigest hfirst.1 ⟨b, hb, .inr hserved₂⟩ ?_
    rw [sha256Hex_of_verify hfirst.2, sha256Hex_of_verify hverify₂]

theorem SideBySide.update {name : Text} {w₁' w₂' : Work} (hstaging : w₁'.staging = w₂'.staging)
    (hcache₁ : w₁'.cache = update w₁.cache name (some bytes))
    (hcache₂ : w₂'.cache = update w₂.cache name (some bytes))
    (hstarted : ∀ bytes', cache name = some bytes' → bytes' = bytes) :
    SideBySide cache w₁' w₂' := by
  refine ⟨hstaging, fun name' bytes' hstart => ?_, fun name' bytes' hfile => ?_,
    fun name' bytes' hfile => ?_⟩
  · rw [hcache₁, update_apply]
    split_ifs with hname
    · subst hname
      rw [hstarted bytes' hstart]
    · exact hw.started _ _ hstart
  · rw [hcache₂, update_apply] at hfile
    rw [hcache₁, update_apply]
    split_ifs at hfile ⊢
    · exact hfile
    · exact hw.contains _ _ hfile
  · rw [hcache₁, update_apply] at hfile
    rw [hcache₂, update_apply]
    split_ifs at hfile ⊢
    · exact .inr hfile
    · exact hw.covered _ _ hfile

include hserves hdigest in
theorem SideBySide.stageBundle (hb : b ∈ state.bundles)
    (hintact : IntactEntry h state.tenantId cache b) :
    (stageBundle h server state.tenantId b w₁).1 = (stageBundle h server state.tenantId b w₂).1 ∧
      SideBySide cache (stageBundle h server state.tenantId b w₁).2
        (stageBundle h server state.tenantId b w₂).2 := by
  obtain ⟨bytes, w₁', hfetch₁, hstaging₁, hcache₁, htaken₁⟩ := exists_fetchBundle hserves hb w₁
  obtain ⟨bytes₂, w₂', hfetch₂, hstaging₂, hcache₂, htaken₂⟩ := exists_fetchBundle hserves hb w₂
  obtain rfl := hw.same_bytes hdigest hb hintact htaken₁ htaken₂
  have hsame : w₁'.staging = w₂'.staging := hstaging₁.trans (hw.staging.trans hstaging₂.symm)
  have hfile₁ : w₁'.cache (cacheName b) = some bytes := by rw [hcache₁, update_self]
  have hfile₂ : w₂'.cache (cacheName b) = some bytes := by rw [hcache₂, update_self]
  obtain ⟨hresult₁, hunpacked₁, hkept₁⟩ :=
    unpackBundle_eq (h := h) (describeBundle state.tenantId b) hfile₁
  obtain ⟨hresult₂, hunpacked₂, hkept₂⟩ :=
    unpackBundle_eq (h := h) (describeBundle state.tenantId b) hfile₂
  rw [Onboarding.stageBundle, Onboarding.stageBundle, hfetch₁, hfetch₂]
  dsimp only
  refine ⟨by rw [hresult₁, hresult₂, hsame], hw.update ?_ (hkept₁.trans hcache₁)
    (hkept₂.trans hcache₂) fun bytes' hstart => ?_⟩
  · rw [hunpacked₁, hunpacked₂, hsame]
  · have hfile := hw.started _ _ hstart
    rcases htaken₁ with hcached | ⟨hnone, -⟩
    · exact Option.some.inj (hfile.symm.trans hcached)
    · rw [hnone] at hfile
      cases hfile

end

include hserves hdigest in
theorem SideBySide.stageBundles (hbs : ∀ b ∈ bs, b ∈ state.bundles)
    (hintact : ∀ b ∈ bs, IntactEntry h state.tenantId cache b)
    (hw : SideBySide cache w₁ w₂) : (stageBundles h server state.tenantId w₁ bs).1 =
        (stageBundles h server state.tenantId w₂ bs).1 ∧
      SideBySide cache (stageBundles h server state.tenantId w₁ bs).2
        (stageBundles h server state.tenantId w₂ bs).2 := by
  induction bs generalizing w₁ w₂ with
  | nil => exact ⟨rfl, hw⟩
  | cons b bs ih =>
    obtain ⟨hb, hrest⟩ := List.forall_mem_cons.mp hbs
    obtain ⟨hfirst, hintactRest⟩ := List.forall_mem_cons.mp hintact
    obtain ⟨hresult, hnext⟩ := hw.stageBundle hserves hdigest hb hfirst
    rw [Onboarding.stageBundles, Onboarding.stageBundles]
    cases hstep₁ : Onboarding.stageBundle h server state.tenantId b w₁ with
    | mk result₁ w₁' =>
      cases hstep₂ : Onboarding.stageBundle h server state.tenantId b w₂ with
      | mk result₂ w₂' =>
        rw [hstep₁, hstep₂] at hresult hnext
        obtain rfl : result₁ = result₂ := hresult
        cases result₁ with
        | error refusal => exact ⟨rfl, hnext⟩
        | ok _ => exact ih hrest hintactRest hnext

theorem verify_of_unpackBytes {x : Staging} (hok : (unpackBytes h b d bytes x).1 = .ok ()) :
    h.verify d b bytes = .ok () := by
  rw [unpackBytes] at hok
  cases hverify : h.verify d b bytes with
  | error error =>
    rw [hverify] at hok
    cases hok
  | ok _ => rfl

section

variable (hstarted : ∀ name bytes, cache name = some bytes → w.cache name = some bytes)
include hstarted

theorem intactEntry_of_stageBundle (hstep : stageBundle h server tenantId b w = (.ok (), w')) :
    IntactEntry h tenantId cache b ∧
      ∀ name bytes, cache name = some bytes → w'.cache name = some bytes := by
  obtain ⟨-, hcached⟩ := fetchBundle_spec h server b (describeBundle tenantId b) w
  have hcases := fetchBundle_cases h server b (describeBundle tenantId b) w
  rw [stageBundle] at hstep
  cases hfetch : fetchBundle h server b (describeBundle tenantId b) w with
  | mk result w₁ =>
    rw [hfetch] at hstep hcached hcases
    rcases result with _ | bytes
    · cases hstep
    have hcache : w₁.cache = update w.cache (cacheName b) (some bytes) :=
      hcached bytes rfl
    have hfile : w₁.cache (cacheName b) = some bytes := by rw [hcache, update_self]
    have htaken : ∀ bytes', cache (cacheName b) = some bytes' → bytes' = bytes := by
      intro bytes' hstart
      have hheld := hstarted _ _ hstart
      rcases hcases with ⟨found, hfound, heq⟩ | ⟨hnone, -⟩ | ⟨hnone, -⟩
      · rw [hheld] at hfound
        rw [Option.some.inj hfound]
        exact (Except.ok.inj (congrArg Prod.fst heq)).symm
      all_goals
        rw [hheld] at hnone
        cases hnone
    obtain ⟨hresult, -, hkept⟩ := unpackBundle_eq (h := h) (describeBundle tenantId b) hfile
    dsimp only at hstep
    rw [hstep] at hresult hkept
    refine ⟨fun bytes' hstart => ?_, fun name bytes' hstart => ?_⟩
    · rw [htaken bytes' hstart]
      exact verify_of_unpackBytes hresult.symm
    · rw [hkept, hcache, update_apply]
      split_ifs with hname
      · subst hname
        rw [htaken bytes' hstart]
      · exact hstarted _ _ hstart

theorem intactEntry_of_stageBundles (hrun : stageBundles h server tenantId w bs = (.ok (), w')) :
    ∀ b ∈ bs, IntactEntry h tenantId cache b := by
  induction bs generalizing w with
  | nil => exact List.forall_mem_nil _
  | cons b bs ih =>
    rw [stageBundles] at hrun
    cases hstep : stageBundle h server tenantId b w with
    | mk result w₁ =>
      rw [hstep] at hrun
      rcases result with _ | _
      · cases hrun
      obtain ⟨hintact, hnext⟩ := intactEntry_of_stageBundle hstarted hstep
      exact List.forall_mem_cons.mpr ⟨hintact, ih hnext hrun⟩

end

/-! ## Whole applies -/

theorem intactEntry_of_installed (hsome : (installed (applyState h server state cache)).isSome) :
    ∀ b ∈ state.bundles, IntactEntry h state.tenantId cache b := by
  rw [applyState] at hsome
  split at hsome
  · cases hsome
  split at hsome
  · cases hsome
  next w hrun => exact intactEntry_of_stageBundles (fun _ _ hstart => hstart) hrun

include hserves hdigest in
theorem installed_eq_of_intact
    (hintact : ∀ b ∈ state.bundles, IntactEntry h state.tenantId cache b) :
    installed (applyState h server state cache) =
      installed (applyState h server state noCache) := by
  obtain ⟨hresult, hside⟩ := (sideBySide_start cache).stageBundles hserves hdigest
    (fun b hb => hb) hintact
  rw [applyState, applyState]
  split
  · rfl
  cases hrun₁ : stageBundles h server state.tenantId (startWork cache) state.bundles with
  | mk result₁ w₁ =>
    cases hrun₂ : stageBundles h server state.tenantId (startWork noCache) state.bundles with
    | mk result₂ w₂ =>
      rw [hrun₁, hrun₂] at hresult hside
      obtain rfl : result₁ = result₂ := hresult
      have hstaging : w₁.staging = w₂.staging := hside.staging
      rcases result₁ with _ | _
      · rfl
      dsimp only
      rw [hstaging]
      split
      · rfl
      · exact congrArg (fun x : Staging => some (_, x.scripts)) hstaging

/-- The cache is transparent if and only if a state that an empty cache applies finds no damaged
file for one of its bundles. -/
theorem cacheTransparent_iff (hserves : ServesSigned h server state)
    (hdigest : Set.InjOn h.crypto.sha256Hex (heldBytes server state cache)) :
    installed (applyState h server state cache) = installed (applyState h server state noCache) ↔
      ((installed (applyState h server state noCache)).isSome →
        ∀ b ∈ state.bundles, IntactEntry h state.tenantId cache b) := by
  constructor
  · intro heq hsome
    rw [← heq] at hsome
    exact intactEntry_of_installed hsome
  · intro hintact
    cases hempty : installed (applyState h server state noCache) with
    | some result =>
      rw [← hempty]
      exact installed_eq_of_intact hserves hdigest (hintact (by rw [hempty]; rfl))
    | none =>
      rcases hcached : installed (applyState h server state cache) with _ | result
      · rfl
      have hall := intactEntry_of_installed (by rw [hcached]; rfl)
      have heq := installed_eq_of_intact hserves hdigest hall
      rw [hcached, hempty] at heq
      cases heq

end Runs

/-! ## A truncated file -/

/-- A host whose digest fills the text up to 32 bytes, and that takes every signature and every
archive. -/
def trustingHost : Host where
  json :=
    { xtosNonSci := fun _ => []
      serialize := fun _ => []
      parse := fun _ => .ok (.object [])
      toNumber := fun _ => .ok 0
      notAnObject := "" }
  crypto :=
    { sha256Raw := fun bytes => bytes ++ List.replicate (32 - bytes.length) '\x00'
      verifyEd25519 := fun _ _ _ => .ok ()
      b64DecodedSize := id
      b64Decode := id
      aes256GcmOpen := fun _ _ _ _ _ => none }
  bundleSigningPubPem := []
  bundleKeys := []
  requireEncryptedBundles := false
  openArchive := fun _ => some ⟨[], fun _ => none⟩
  writeError := fun _ _ => none

def archiveDigest : Text :=
  "7a".toList ++ List.replicate 62 '0'

def oneBundle : DesiredState :=
  ⟨1, [], 60, [], [⟨"b".toList, [], [], archiveDigest, [], "/b".toList, 0, []⟩]⟩

def servesArchive : Server :=
  fun _ _ => .response 200 ['z']

/-- The write of the archive was cut off before its first byte. -/
def truncatedCache : Text → Option Text :=
  fun name => if name = "b-7a00000000000000.zip".toList then some [] else none

/-- The truncated file fails the apply and is still there afterwards; without it the state is
applied. -/
theorem truncatedCache_fails :
    installed (applyState trustingHost servesArchive oneBundle truncatedCache) = none ∧
      (applyState trustingHost servesArchive oneBundle truncatedCache).2.cache = truncatedCache ∧
      (installed (applyState trustingHost servesArchive oneBundle noCache)).isSome = true :=
  ⟨rfl, rfl, rfl⟩

theorem cacheTransparent_iff_truncated :
    ServesSigned trustingHost servesArchive oneBundle ∧ Set.InjOn trustingHost.crypto.sha256Hex
        (heldBytes servesArchive oneBundle truncatedCache) ∧
      (installed (applyState trustingHost servesArchive oneBundle truncatedCache) =
          installed (applyState trustingHost servesArchive oneBundle noCache) ↔
        ((installed (applyState trustingHost servesArchive oneBundle noCache)).isSome →
          ∀ b ∈ oneBundle.bundles,
            IntactEntry trustingHost oneBundle.tenantId truncatedCache b)) := by
  have hserves : ServesSigned trustingHost servesArchive oneBundle := by
    intro b hb n
    obtain rfl := List.mem_singleton.mp hb
    exact ⟨200, ['z'], rfl, rfl, rfl⟩
  have hheld : ∀ bytes ∈ heldBytes servesArchive oneBundle truncatedCache,
      bytes = [] ∨ bytes = ['z'] := by
    rintro bytes ⟨b, hb, hcached | ⟨n, status, hserved⟩⟩
    · obtain rfl := List.mem_singleton.mp hb
      exact .inl (Option.some.inj hcached).symm
    · cases hserved
      exact .inr rfl
  have hdigest : Set.InjOn trustingHost.crypto.sha256Hex
      (heldBytes servesArchive oneBundle truncatedCache) := by
    intro x hx y hy heq
    rcases hheld x hx with rfl | rfl <;> rcases hheld y hy with rfl | rfl
    · rfl
    · cases heq
    · cases heq
    · rfl
  exact ⟨hserves, hdigest, cacheTransparent_iff hserves hdigest⟩

end Nscp.Onboarding
