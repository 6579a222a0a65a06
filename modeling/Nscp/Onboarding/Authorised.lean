import Nscp.Onboarding.Staging

/-!
# Where staged content comes from

Whatever the server answers and whatever is in the cache, a configuration is merged and a script
staged only from an archive whose bytes carry a signature for one of the bundles of the state.
-/

namespace Nscp.Onboarding

open List

section

variable (h : Host) (tenantId : ℤ) (bundles : List BundleInfo)

/-- The archive is that of a bundle of the state: its bytes are signed for the bundle, and they
are the archive itself where the host allows that, or seal it with a key of the host under the
name and version of the bundle. -/
def Authorised (archive : Archive) : Prop :=
  ∃ b ∈ bundles, ∃ bytes plaintext,
    verifyBundle h.crypto h.bundleSigningPubPem bytes (describeBundle tenantId b) b.signature =
      .ok () ∧
    ((h.requireEncryptedBundles = false ∧ isEncryptedBundle bytes = false ∧ plaintext = bytes) ∨
      ∃ keyB64 ∈ h.bundleKeys, ∃ rawKey, parseBundleKey h.crypto keyB64 = .ok rawKey ∧
        SealedWith h.crypto rawKey b.name b.version bytes plaintext) ∧
    h.openArchive plaintext = some archive

def AuthorisedConfig (config : Text) :
    Prop :=
  ∃ archive, Authorised h tenantId bundles archive ∧
    archive.extract "config.json".toList = some config

def AuthorisedScript
    (script : Text × Text) : Prop :=
  ∃ archive, Authorised h tenantId bundles archive ∧ ∃ entry, some entry ∈ archive.entries ∧
    script.1 = entryName entry ∧ archive.extract entry.filename = some script.2

end

/-- The configuration is what the recorded texts merge to, in their order. -/
def MergedFrom (h : Host) (x : Staging) : Prop :=
  ∃ docs, List.Forall₂ (fun config doc => h.json.parse config = .ok doc) x.configs docs ∧
    x.merged = docs.foldl Json.mergePatch (.object [])

/-- Everything staged is authorised. -/
structure Provenance (h : Host) (tenantId : ℤ) (bundles : List BundleInfo) (x : Staging) :
    Prop where
  configs : ∀ config ∈ x.configs, AuthorisedConfig h tenantId bundles config
  scripts : ∀ script ∈ x.scripts, AuthorisedScript h tenantId bundles script
  merged : MergedFrom h x

section Steps

variable {h : Host} {b : BundleInfo} {w : Work} {archive : Archive}

theorem stageScripts_spec (h : Host) (b : BundleInfo) (stagedBytes : ℕ) {P : Text × Text → Prop}
    {x : Staging} {es : List (Option FileEntry)} (hx : ∀ script ∈ x.scripts, P script)
    (hentries : ∀ entry content, some entry ∈ es →
      archive.extract entry.filename = some content → P (entryName entry, content)) :
    (∀ script ∈ (stageScripts h b archive stagedBytes x es).2.scripts, P script) ∧
      (stageScripts h b archive stagedBytes x es).2.configs = x.configs ∧
      (stageScripts h b archive stagedBytes x es).2.merged = x.merged := by
  induction es generalizing x stagedBytes with
  | nil => exact ⟨hx, rfl, rfl⟩
  | cons e es ih =>
    have hrest : ∀ entry content, some entry ∈ es →
        archive.extract entry.filename = some content → P (entryName entry, content) :=
      fun entry content hentry => hentries entry content (mem_cons_of_mem _ hentry)
    rcases e with _ | entry
    · exact ih _ hx hrest
    rw [stageScripts]
    split_ifs
    · exact ⟨hx, rfl, rfl⟩
    · exact ih _ hx hrest
    · exact ⟨hx, rfl, rfl⟩
    rcases hcontent : archive.extract entry.filename with _ | content
    · exact ⟨hx, rfl, rfl⟩
    cases h.writeError x.scripts (entryName entry) with
    | some what => exact ⟨hx, rfl, rfl⟩
    | none =>
      refine ih _ (x := { x with scripts := x.scripts ++ [(entryName entry, content)] })
        (forall_mem_append.mpr ⟨hx, ?_⟩) hrest
      exact forall_mem_singleton.mpr
        (hentries entry content mem_cons_self hcontent)

variable {tenantId : ℤ} {bundles bs : List BundleInfo} {x : Staging}

theorem Provenance.stageArchive (hx : Provenance h tenantId bundles x)
    (harchive : Authorised h tenantId bundles archive) (b : BundleInfo) :
    Provenance h tenantId bundles (stageArchive h b archive x).2 := by
  have hscripts : ∀ x' : Staging, Provenance h tenantId bundles x' →
      Provenance h tenantId bundles (stageScripts h b archive 0 x' archive.entries).2 := by
    intro x' hx'
    obtain ⟨hnew, hconfigs, hmerged⟩ :=
      stageScripts_spec h b 0 hx'.scripts fun entry content hentry hcontent =>
        ⟨archive, harchive, entry, hentry, rfl, hcontent⟩
    obtain ⟨docs, hparse, hfold⟩ := hx'.merged
    exact ⟨hconfigs ▸ hx'.configs, hnew, docs, hconfigs ▸ hparse, hmerged.trans hfold⟩
  rw [Onboarding.stageArchive]
  rcases hconfig : archive.extract "config.json".toList with _ | config
  · exact hscripts x hx
  dsimp only
  rcases hdoc : h.json.parse config with _ | doc
  · exact hx
  apply hscripts
  obtain ⟨docs, hparse, hfold⟩ := hx.merged
  refine ⟨forall_mem_append.mpr ⟨hx.configs, ?_⟩, hx.scripts, docs ++ [doc], ?_, ?_⟩
  · exact forall_mem_singleton.mpr ⟨archive, harchive, hconfig⟩
  · exact rel_append hparse (List.Forall₂.cons hdoc List.Forall₂.nil)
  · rw [foldl_append, ← hfold]
    rfl

theorem Provenance.unpackBytes (hx : Provenance h tenantId bundles x) (hb : b ∈ bundles)
    (bytes : Text) :
    Provenance h tenantId bundles (unpackBytes h b (describeBundle tenantId b) bytes x).2 := by
  rw [Onboarding.unpackBytes]
  rcases hverify : h.verify (describeBundle tenantId b) b bytes with _ | _
  · exact hx
  dsimp only
  cases hopen : openBundle h.crypto h.bundleKeys b.name b.version bytes
      h.requireEncryptedBundles with
  | error error => exact hx
  | ok plaintext =>
    dsimp only
    rcases harchive : h.openArchive plaintext with _ | archive
    · exact hx
    refine hx.stageArchive ⟨b, hb, bytes, plaintext, hverify, ?_, harchive⟩ b
    rcases openBundle_eq_ok hopen with ⟨hplain, hallowed, heq⟩ | ⟨-, hkey⟩
    · exact Or.inl ⟨hallowed, hplain, heq⟩
    · exact Or.inr hkey

theorem Provenance.stageBundle (hw : Provenance h tenantId bundles w.staging) (server : Server)
    (hb : b ∈ bundles) :
    Provenance h tenantId bundles (stageBundle h server tenantId b w).2.staging := by
  obtain ⟨hstaging, hcached⟩ := fetchBundle_spec h server b (describeBundle tenantId b) w
  rw [Onboarding.stageBundle]
  cases hfetch : fetchBundle h server b (describeBundle tenantId b) w with
  | mk result w' =>
    rw [hfetch] at hstaging hcached
    rw [← hstaging] at hw
    rcases result with _ | bytes
    · exact hw
    have hfile : w'.cache (cacheName b) = some bytes := by
      have hcache : w'.cache = _ := hcached bytes rfl
      rw [hcache, Function.update_self]
    obtain ⟨-, heq, -⟩ := unpackBundle_eq (h := h) (describeBundle tenantId b) hfile
    dsimp only
    rw [heq]
    exact hw.unpackBytes hb bytes

theorem Provenance.stageBundles (server : Server) (hbs : ∀ b ∈ bs, b ∈ bundles)
    (hw : Provenance h tenantId bundles w.staging) :
    Provenance h tenantId bundles (stageBundles h server tenantId w bs).2.staging := by
  induction bs generalizing w with
  | nil => exact hw
  | cons b bs ih =>
    obtain ⟨hb, hrest⟩ := forall_mem_cons.mp hbs
    have hnext := hw.stageBundle server hb
    rw [Onboarding.stageBundles]
    cases hstep : Onboarding.stageBundle h server tenantId b w with
    | mk result w' =>
      rw [hstep] at hnext
      cases result with
      | error refusal => exact hnext
      | ok _ => exact ih hrest hnext

theorem provenance_applyState (h : Host) (server : Server) (state : DesiredState)
    (cache : Text → Option Text) :
    Provenance h state.tenantId state.bundles (applyState h server state cache).2.staging := by
  have hstart : Provenance h state.tenantId state.bundles (startWork cache).staging :=
    ⟨forall_mem_nil _, forall_mem_nil _, [], List.Forall₂.nil, rfl⟩
  have hbundles := hstart.stageBundles server fun b hb => hb
  rw [applyState]
  split
  · exact hstart
  split
  next hrun =>
    rw [hrun] at hbundles
    exact hbundles
  next hrun =>
    rw [hrun] at hbundles
    split <;> exact hbundles

/-- Only authorised content is staged, and the signed text of a bundle of an accepted state
determines the bundle. -/
theorem applyState_authorised (h : Host) (server : Server) (state : DesiredState)
    (cache : Text → Option Text) :
    Provenance h state.tenantId state.bundles (applyState h server state cache).2.staging ∧
      ∀ (body body' : Text) (s s' : DesiredState), parseDesiredState h.json body = .ok s →
        parseDesiredState h.json body' = .ok s' → ∀ b ∈ s.bundles, ∀ b' ∈ s'.bundles,
          describeBundle s.tenantId b ≠ describeBundle s'.tenantId b' →
            (describeBundle s.tenantId b).signingBytes ≠
              (describeBundle s'.tenantId b').signingBytes := by
  refine ⟨provenance_applyState h server state cache, ?_⟩
  intro body body' s s' hs hs' b hb b' hb' hne heq
  refine hne (signingBytes_injOn ?_ ?_ heq)
  · exact separable_of_parseDesiredState hs hb
  · exact separable_of_parseDesiredState hs' hb'

end Steps

end Nscp.Onboarding
