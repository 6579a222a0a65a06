import Nscp.Library.Runs
import Nscp.Settings.Caches

/-!
# When the settings store is a plain map

Setting a key takes back the staged removal of its whole section, and removing a section
leaves its values in the cache, from where saving writes the unsaved ones to the backend
again.  The steps for which neither matters are exactly the steps after which reads,
before and after saving and loading, are those of a plain map.
-/

namespace Nscp.Settings

open Function

namespace Store

variable {s : Store}

/-! ## Agreement with a plain map -/

/-- The caches agree with a plain map, now and once saved. -/
structure Refined (s : Store) (reSaveAll : Bool) (m : Plain) : Prop where
  visible : m = s.visible
  listed : ∀ path key, ¬ s.Removed (path, key) →
    (s.settingsCache.lookup (path, key)).isSome = true →
    s.backend.getRealString (path, key) = none → key ∈ s.cachedKeys path
  gone : ∀ path ∈ s.settingsDeletePathCache, ∀ key c,
    s.settingsCache.lookup (path, key) = some c → c.dirty = false ∧ reSaveAll = false
  kept : reSaveAll = false → ∀ q c, ¬ s.Removed q → s.settingsCache.lookup q = some c →
    c.dirty = false → s.backend.getRealString q ≠ none

variable (path : Path)

theorem sectionOf_append_slash : sectionOf (path ++ ['/']) = path := by
  simp [sectionOf]

theorem agrees_iff (hs : s.Coherent) (m : Plain) :
    Agrees s m ↔ m = s.visible ∧ ∀ path key, ¬ s.Removed (path, key) →
      (s.settingsCache.lookup (path, key)).isSome = true →
      s.backend.getRealString (path, key) = none → key ∈ s.cachedKeys path := by
  have hvisible : ∀ path key, (s.visible (path, key)).isSome = true ↔
      ¬ s.Removed (path, key) ∧ ((s.settingsCache.lookup (path, key)).isSome = true ∨
        (s.backend.getRealString (path, key)).isSome = true) := by
    intro path key
    by_cases hremoved : s.Removed (path, key)
    · simp [visible_of_removed hremoved, hremoved]
    · simp [visible_of_not_removed hremoved, hremoved, stored, Option.isSome_or]
  constructor
  · intro h
    have hm : m = s.visible := by
      funext q
      rw [← h.getString q.1 q.2, getString_fst]
    refine ⟨hm, fun path key hremoved hcached hbackend => ?_⟩
    have hkeys := h.getKeys (path ++ ['/']) key
    rw [sectionOf_append_slash, hm, hvisible, mem_getKeys, sectionOf_append_slash] at hkeys
    have hname := (hkeys.mpr ⟨hremoved, .inl hcached⟩).2
    rw [hbackend] at hname
    exact hname.resolve_right (by simp)
  · rintro ⟨rfl, hlisted⟩
    refine ⟨s.getString_fst, s.hasKey_eq, s.getKeys_sorted, fun path key => ?_⟩
    rw [mem_getKeys, hvisible]
    refine and_congr_right fun hremoved => ⟨fun h => h.imp_left (hs.named _ key), fun h => ?_⟩
    cases hbackend : s.backend.getRealString (sectionOf path, key) with
    | some v => exact .inr rfl
    | none =>
      rw [hbackend] at h
      exact .inl (hlisted _ key hremoved (h.resolve_right (by simp)) hbackend)

theorem visible_ofBackend (b : Backend) : (ofBackend b).visible = b.getRealString := by
  funext q
  rw [visible_of_not_removed (by rintro (h | h) <;> cases h)]
  rfl

theorem agrees_ofBackend (b : Backend) (m : Plain) :
    Agrees (ofBackend b) m ↔ m = b.getRealString := by
  rw [agrees_iff (coherent_ofBackend b), visible_ofBackend]
  exact and_iff_left fun path key _ hcached => by cases hcached

/-- Saving keeps what is visible when no removed section has a value to write and every
value left unwritten is in the backend. -/
theorem visible_eq_saved_iff (hs : s.Coherent) (reSaveAll : Bool) :
    s.visible = (s.save reSaveAll).backend.getRealString ↔
      (∀ path ∈ s.settingsDeletePathCache, ∀ key c,
        s.settingsCache.lookup (path, key) = some c → c.dirty = false ∧ reSaveAll = false) ∧
      (reSaveAll = false → ∀ q c, ¬ s.Removed q → s.settingsCache.lookup q = some c →
        c.dirty = false → s.backend.getRealString q ≠ none) := by
  constructor
  · intro h
    refine ⟨fun path hpath key c hc => ?_, fun hsave q c hremoved hc hclean hbackend => ?_⟩
    · have hq := congrFun h (path, key)
      rw [visible_of_removed (.inr hpath), getRealString_save, hc] at hq
      by_contra hwritten
      have hvalue : written reSaveAll c = some c.value := by
        rw [written, if_pos]
        cases hd : c.dirty <;> cases reSaveAll <;> simp_all
      simp [hvalue] at hq
    · have hq := congrFun h q
      rw [visible_of_not_removed hremoved, getRealString_save, stored, hc, if_neg hremoved,
        hbackend] at hq
      simp [written, hclean, hsave] at hq
  · rintro ⟨hgone, hkept⟩
    funext q
    rw [getRealString_save]
    by_cases hremoved : s.Removed q
    · rw [visible_of_removed hremoved, if_pos hremoved, Option.or_none]
      rcases hremoved with hkey | hpath
      · rw [hs.deleted q hkey]
        rfl
      · rcases hc : s.settingsCache.lookup q with _ | c
        · rfl
        obtain ⟨hclean, hsave⟩ := hgone q.1 hpath q.2 c hc
        simp [written, hclean, hsave]
    · rw [visible_of_not_removed hremoved, if_neg hremoved, stored]
      rcases hc : s.settingsCache.lookup q with _ | c
      · rfl
      by_cases hwritten : (c.dirty || reSaveAll) = true
      · simp [written, hwritten]
      · rw [Bool.or_eq_true, not_or, Bool.not_eq_true, Bool.not_eq_true] at hwritten
        have hbackend := hkept hwritten.2 q c hremoved hc hwritten.1
        have hdirty := hs.dirty q c hc
        rw [hwritten.1, eq_comm, Bool.not_eq_false', decide_eq_true_eq] at hdirty
        have hvalue := hdirty.resolve_right fun h => hbackend h.1
        simp [written, hwritten, hvalue]

theorem refined_iff (hs : s.Coherent) (reSaveAll : Bool) (m : Plain) :
    (Agrees s m ∧ Agrees (s.save reSaveAll).load m) ↔ s.Refined reSaveAll m := by
  rw [agrees_iff hs, load, agrees_ofBackend]
  constructor
  · rintro ⟨⟨rfl, hlisted⟩, hsaved⟩
    obtain ⟨hgone, hkept⟩ := (visible_eq_saved_iff hs reSaveAll).mp hsaved
    exact ⟨rfl, hlisted, hgone, hkept⟩
  · rintro ⟨rfl, hlisted, hgone, hkept⟩
    exact ⟨⟨rfl, hlisted⟩, (visible_eq_saved_iff hs reSaveAll).mpr ⟨hgone, hkept⟩⟩

/-! ## Steps that keep the store a plain map -/

/-- Setting a key must not be a silent default, and must not bring back other keys of a
removed section; removing a section must leave nothing in the cache that saving would
write. -/
def Safe (reSaveAll : Bool) (s : Store) : Op → Prop
  | .setString path key value =>
    (value ≠ [] ∨ s.backend.getRealString (path, key) ≠ none ∨
      reSaveAll = true ∧ key ∈ s.cachedKeys path) ∧
    (path ∈ s.settingsDeletePathCache → ∀ k ≠ key, (path, k) ∉ s.settingsDeleteCache →
      s.stored (path, k) = none)
  | .removePath path => ∀ key c, s.settingsCache.lookup (path, key) = some c →
      c.dirty = false ∧ reSaveAll = false
  | _ => True

variable {reSaveAll : Bool} {m : Plain}

theorem Refined.getString (h : s.Refined reSaveAll m) (path : Path) (key : Name) :
    (s.getString path key).2.Refined reSaveAll m := by
  rcases getString_snd s path key with heq | ⟨v, hremoved, hcached, hbackend, heq⟩
  · rw [heq]
    exact h
  · rw [heq]
    refine ⟨?_, fun p k hk hc hb => ?_, fun p hp k c hc => ?_, fun hsave q c hq hc hclean => ?_⟩
    · rw [h.visible]
      funext q
      refine visible_congr Iff.rfl fun _ => ?_
      rw [stored, stored]
      simp only [Table.lookup_insert_eq_if]
      split
      · rename_i hq
        rw [hq, hcached, hbackend]
        rfl
      · rfl
    · rw [Table.lookup_insert_eq_if] at hc
      split at hc
      · rename_i heq
        rw [heq, hbackend] at hb
        cases hb
      · exact h.listed p k hk hc hb
    · rw [Table.lookup_insert_eq_if, if_neg] at hc
      · exact h.gone p hp k c hc
      · rintro heq
        cases heq
        exact hremoved (.inr hp)
    · rw [Table.lookup_insert_eq_if] at hc
      split at hc
      · rename_i heq
        rw [heq, hbackend]
        simp
      · exact h.kept hsave q c hq hc hclean

theorem removed_removeKey (key : Name) (q : Key) :
    (s.removeKey path key).Removed q ↔ q = (path, key) ∨ s.Removed q := by
  rw [Removed, Store.removeKey, List.mem_insert_iff, or_assoc, Removed]

theorem Refined.removeKey (h : s.Refined reSaveAll m) (path : Path) (key : Name) :
    (s.removeKey path key).Refined reSaveAll (m.step (.removeKey path key)) := by
  have hlookup : ∀ q, (s.removeKey path key).settingsCache.lookup q =
      if q = (path, key) then none else s.settingsCache.lookup q := fun q => by
    rw [Store.removeKey, Table.lookup_erase_eq_if]
  refine ⟨?_, fun p k hk hc hb => ?_, fun p hp k c hc => ?_, fun hsave q c hq hc hclean => ?_⟩
  · rw [Plain.step, h.visible]
    funext q
    by_cases hq : q = (path, key)
    · rw [hq, update_self, visible_of_removed ((removed_removeKey path key _).mpr (.inl rfl))]
    · rw [update_of_ne hq]
      refine visible_congr ((removed_removeKey path key q).trans (or_iff_right hq)).symm fun _ => ?_
      rw [stored, stored, hlookup, if_neg hq]
      rfl
  · rw [removed_removeKey, not_or] at hk
    rw [hlookup, if_neg hk.1] at hc
    exact (mem_cachedKeys_removeKey s path p key k).mpr ⟨h.listed p k hk.2 hc hb, hk.1⟩
  · rw [hlookup] at hc
    split at hc
    · cases hc
    · exact h.gone p hp k c hc
  · rw [removed_removeKey, not_or] at hq
    rw [hlookup, if_neg hq.1] at hc
    exact h.kept hsave q c hq.2 hc hclean

theorem removed_removePath (q : Key) :
    (s.removePath path).Removed q ↔ q.1 = path ∨ s.Removed q := by
  rw [Removed, Store.removePath, List.mem_insert_iff, or_left_comm, Removed]

theorem refined_removePath_iff (h : s.Refined reSaveAll m) (path : Path) :
    (s.removePath path).Refined reSaveAll (m.step (.removePath path)) ↔
      s.Safe reSaveAll (.removePath path) := by
  constructor
  · intro h' key c hc
    exact h'.gone path (List.mem_insert_iff.mpr (.inl rfl)) key c hc
  · intro hsafe
    refine ⟨?_, fun p k hk hc hb => ?_, fun p hp k c hc => ?_, fun hsave q c hq hc hclean => ?_⟩
    · rw [Plain.step, h.visible]
      funext q
      by_cases hq : q.1 = path
      · rw [if_pos hq, visible_of_removed ((removed_removePath path q).mpr (.inl hq))]
      · rw [if_neg hq]
        exact visible_congr ((removed_removePath path q).trans (or_iff_right hq)).symm fun _ => rfl
    · rw [removed_removePath, not_or] at hk
      rw [cachedKeys_removePath, if_neg hk.1]
      exact h.listed p k hk.2 hc hb
    · rw [Store.removePath, List.mem_insert_iff] at hp
      rcases hp with rfl | hp
      · exact hsafe k c hc
      · exact h.gone p hp k c hc
    · rw [removed_removePath, not_or] at hq
      exact h.kept hsave q c hq.2 hc hclean

theorem removed_setString (key : Name) (value : Value) (q : Key) :
    (s.setString path key value).Removed q ↔
      q ∈ s.settingsDeleteCache ∧ q ≠ (path, key) ∨
        q.1 ∈ s.settingsDeletePathCache ∧ q.1 ≠ path := by
  rw [Removed, mem_settingsDeleteCache_setString, mem_settingsDeletePathCache_setString]

variable {q : Key} {value : Value} {path : Path} {key : Name}

theorem removed_setString_of_ne (hq : q ≠ (path, key))
    (hpath : q.1 = path → path ∉ s.settingsDeletePathCache) :
    (s.setString path key value).Removed q ↔ s.Removed q := by
  rw [removed_setString, Removed]
  constructor
  · rintro (⟨h, -⟩ | ⟨h, -⟩)
    · exact .inl h
    · exact .inr h
  · rintro (h | h)
    · exact .inl ⟨h, hq⟩
    · exact .inr ⟨h, fun heq => hpath heq (heq ▸ h)⟩

theorem stored_setString_of_ne (hs : s.Coherent) (hq : q ≠ (path, key)) :
    (s.setString path key value).stored q = s.stored q := by
  rw [stored, stored, lookup_setString path key value hs, if_neg hq, setString_backend]

/-- The value set is visible, and the other keys are as before, exactly when none comes
back with its section. -/
theorem visible_setString_iff (hs : s.Coherent) (path : Path) (key : Name) (value : Value) :
    Plain.step s.visible (.setString path key value) = (s.setString path key value).visible ↔
      (path ∈ s.settingsDeletePathCache → ∀ k ≠ key, (path, k) ∉ s.settingsDeleteCache →
        s.stored (path, k) = none) := by
  rw [Plain.step]
  constructor
  · intro h hpath k hk hdeleted
    have hq : (path, k) ≠ (path, key) := fun heq => hk (congrArg Prod.snd heq)
    have hshown := congrFun h (path, k)
    have hremoved : ¬ (s.setString path key value).Removed (path, k) := by
      simp [removed_setString, hdeleted]
    rw [update_of_ne hq, visible_of_removed (.inr hpath),
      visible_of_not_removed hremoved, stored_setString_of_ne hs hq] at hshown
    exact hshown.symm
  · intro hsafe
    funext q
    by_cases hq : q = (path, key)
    · have hremoved : ¬ (s.setString path key value).Removed q := by simp [removed_setString, hq]
      rw [visible_of_not_removed hremoved, stored, lookup_setString path key value hs,
        if_pos hq, hq,
        update_self]
      rfl
    · rw [update_of_ne hq]
      by_cases hback : q.1 = path ∧ path ∈ s.settingsDeletePathCache
      · obtain ⟨hpath, hstaged⟩ := hback
        subst hpath
        have hk : q.2 ≠ key := fun heq => hq (Prod.ext rfl heq)
        rw [visible_of_removed (.inr hstaged)]
        by_cases hdeleted : q ∈ s.settingsDeleteCache
        · rw [visible_of_removed ((removed_setString _ key value q).mpr (.inl ⟨hdeleted, hq⟩))]
        · have hremoved : ¬ (s.setString q.1 key value).Removed q := by
            simp [removed_setString, hdeleted]
          rw [visible_of_not_removed hremoved, stored_setString_of_ne hs hq]
          exact (hsafe hstaged q.2 hk hdeleted).symm
      · have hpath : q.1 = path → path ∉ s.settingsDeletePathCache := fun h h' => hback ⟨h, h'⟩
        exact visible_congr (removed_setString_of_ne hq hpath).symm
          fun _ => (stored_setString_of_ne hs hq).symm

theorem lookup_eq_none_of_stored (h : s.stored q = none) : s.settingsCache.lookup q = none := by
  rw [stored, Option.or_eq_none_iff, Option.map_eq_none_iff] at h
  exact h.1

theorem of_lookup_setString (hs : s.Coherent)
    (hback : path ∈ s.settingsDeletePathCache → ∀ k ≠ key, (path, k) ∉ s.settingsDeleteCache →
      s.stored (path, k) = none)
    (hq : q ≠ (path, key)) (hremoved : ¬ (s.setString path key value).Removed q)
    (hcached : (s.settingsCache.lookup q).isSome = true) : ¬ s.Removed q := by
  rwa [removed_setString_of_ne hq] at hremoved
  intro hpath hstaged
  subst hpath
  have hk : q.2 ≠ key := fun heq => hq (Prod.ext rfl heq)
  have hdeleted : q ∉ s.settingsDeleteCache := fun h => by
    rw [hs.deleted q h] at hcached
    cases hcached
  rw [lookup_eq_none_of_stored (hback hstaged q.2 hk hdeleted)] at hcached
  cases hcached

/-- Both directions: outside the safe settings a later read or save tells the store from the
map. -/
theorem refined_setString_iff (hs : s.Coherent) (h : s.Refined reSaveAll m) (path : Path)
    (key : Name) (value : Value) :
    (s.setString path key value).Refined reSaveAll (m.step (.setString path key value)) ↔
      s.Safe reSaveAll (.setString path key value) := by
  have hlookup := lookup_setString path key value hs
  have hfresh : ¬ (s.setString path key value).Removed (path, key) := by simp [removed_setString]
  have hchanged : value ≠ [] → ¬ Unchanged none value := by simp [Unchanged]
  rw [Safe]
  constructor
  · intro h'
    refine ⟨?_, (visible_setString_iff hs path key value).mp (h.visible ▸ h'.visible)⟩
    by_contra hdefault
    simp only [not_or, not_not, not_and] at hdefault
    obtain ⟨rfl, hbackend, hnamed⟩ := hdefault
    have hcached := hlookup (path, key)
    rw [if_pos rfl, hbackend] at hcached
    -- the empty default is cached as clean, so only saving everything would write it
    cases hsave : reSaveAll with
    | false =>
      refine h'.kept hsave _ _ hfresh hcached ?_ ?_
      · simp [Unchanged]
      · rw [setString_backend, hbackend]
    | true =>
      have hname := h'.listed path key hfresh (by rw [hcached]; rfl)
        (by rw [setString_backend, hbackend])
      rw [mem_cachedKeys_setString, hbackend] at hname
      exact (hname.resolve_left (hnamed hsave)).2.2 (.inr ⟨rfl, rfl⟩)
  · rintro ⟨hdefault, hback⟩
    refine ⟨?_, fun p k hk hc hb => ?_, fun p hp k c hc => ?_, fun hsave q c hq hc hclean => ?_⟩
    · rw [h.visible]
      exact (visible_setString_iff hs path key value).mpr hback
    · rw [setString_backend] at hb
      rw [mem_cachedKeys_setString]
      by_cases hq : (p, k) = (path, key)
      · cases hq
        by_cases hname : key ∈ s.cachedKeys path
        · exact .inl hname
        · rcases hdefault with hvalue | hbackend | hname'
          · refine .inr ⟨⟨rfl, rfl⟩, ?_, ?_⟩
            · rintro ⟨c, hsame, rfl⟩
              have hdirty := hs.dirty _ c hsame
              rw [hb, decide_eq_false (hchanged hvalue), Bool.not_false] at hdirty
              refine hname (h.listed path key ?_ (by rw [hsame]; rfl) hb)
              rintro (hdeleted | hstaged)
              · rw [hs.deleted _ hdeleted] at hsame
                cases hsame
              · rw [(h.gone path hstaged key c hsame).1] at hdirty
                cases hdirty
            · exact hb ▸ hchanged hvalue
          · exact absurd hb hbackend
          · exact absurd hname'.2 hname
      · rw [hlookup, if_neg hq] at hc
        exact .inl (h.listed p k (of_lookup_setString hs hback hq hk hc) hc hb)
    · rw [mem_settingsDeletePathCache_setString] at hp
      rw [hlookup, if_neg fun heq => hp.2 (congrArg Prod.fst heq)] at hc
      exact h.gone p hp.1 k c hc
    · rw [setString_backend]
      by_cases heq : q = (path, key)
      · rw [hlookup, if_pos heq] at hc
        cases hc
        rw [heq]
        intro hbackend
        rw [hbackend] at hdefault hclean
        simp only [hsave, Unchanged] at hdefault hclean
        simp_all
      · rw [hlookup, if_neg heq] at hc
        exact h.kept hsave q c
          (of_lookup_setString hs hback heq hq (by rw [hc]; rfl)) hc hclean

theorem refined_step_iff (hs : s.Coherent) (h : s.Refined reSaveAll m) (op : Op) :
    (s.step op).Refined reSaveAll (m.step op) ↔ s.Safe reSaveAll op := by
  cases op with
  | setString path key value => exact refined_setString_iff hs h path key value
  | removeKey path key => exact iff_of_true (h.removeKey path key) trivial
  | removePath path => exact refined_removePath_iff h path
  | addPath path =>
    exact iff_of_true ⟨h.visible, h.listed, h.gone, h.kept⟩ trivial
  | getString path key => exact iff_of_true (h.getString path key) trivial

theorem refined_ofBackend (reSaveAll : Bool) (b : Backend) :
    (ofBackend b).Refined reSaveAll b.getRealString where
  visible := (visible_ofBackend b).symm
  listed _ _ _ h := by cases h
  gone _ h := by cases h
  kept _ _ _ _ h := by cases h

/-! ## Runs -/

theorem refined_run_iff (hs : s.Coherent) (h : s.Refined reSaveAll m) (ops : List Op) :
    (∀ l, l <+: ops → (s.run l).Refined reSaveAll (m.run l)) ↔
      ∀ l op, l ++ [op] <+: ops → (s.run l).Safe reSaveAll op := by
  have hrun := Runs.forall_prefix_iff
    (f := fun (x : Store × Plain) op => (x.1.step op, x.2.step op))
    (I := fun x => x.1.Coherent) (P := fun x => x.1.Refined reSaveAll x.2)
    (Q := fun x op => x.1.Safe reSaveAll op) (fun x op hx => hx.step op)
    (fun x op hx hP => refined_step_iff hx hP op) (s := (s, m)) hs h ops
  simp only [Runs.foldl_prod Store.step Plain.step] at hrun
  exact hrun

/-- Over any run from any backend, the reads after each operation, at once and after saving
and loading, are those of a plain map if and only if every operation is safe where it is
done. -/
theorem agrees_run_iff (reSaveAll : Bool) (b : Backend) (ops : List Op) :
    (∀ l, l <+: ops → Agrees ((ofBackend b).run l) (Plain.run b.getRealString l) ∧
        Agrees (((ofBackend b).run l).save reSaveAll).load (Plain.run b.getRealString l)) ↔
    ∀ l op, l ++ [op] <+: ops → ((ofBackend b).run l).Safe reSaveAll op := by
  rw [← refined_run_iff (coherent_ofBackend b) (refined_ofBackend reSaveAll b) ops]
  exact forall_congr' fun l => imp_congr_right fun _ =>
    refined_iff ((coherent_ofBackend b).run l) reSaveAll _

/-- Setting one key of a removed section brings back another, and saving writes back the
unsaved value of a section that was removed. -/
theorem agrees_run_removed :
    let stored : Backend :=
      ⟨(∅ : Table Key Value).insert ("/a".toList, "y".toList) "2".toList, ["/a".toList]⟩
    let set := Op.setString "/a".toList "x".toList "1".toList
    let remove := Op.removePath "/a".toList
    (((ofBackend stored).run [remove, set]).getString "/a".toList "y".toList).1 = some "2".toList ∧
      Plain.run stored.getRealString [remove, set] ("/a".toList, "y".toList) = none ∧
      ((((ofBackend stored).run [set, remove]).save false).load.getString
        "/a".toList "x".toList).1 = some "1".toList ∧
      Plain.run stored.getRealString [set, remove] ("/a".toList, "x".toList) = none := by
  decide +kernel

end Store
end Nscp.Settings
