import Nscp.Service.FactInvariants

/-!
# Rounds publish at once

While a round is open, what is hashed and uploaded is the document as the first of the
open rounds found it.  The repository freezes that state lazily: the collection time at
the first change, the document at the first change of a set.
-/

namespace Nscp.Service.Facts.Repository

variable {codec : Codec} {r s : Repository} {g : Snapshot} {state : Frozen}

/-- What a reader is to see of a document that is not held back. -/
def live (codec : Codec) (r : Repository) : Snapshot :=
  ⟨r.json codec, codec.sha256Hex (r.json codec), r.revision, r.collected⟩

inductive Held (codec : Codec) (g : Snapshot) (r : Repository) : Prop where
  | untouched (hfrozen : r.frozen = none) (hlive : live codec r = g)
  | stamped (state : Frozen) (hfrozen : r.frozen = some state) (hjson : state.json = none)
      (hhash : state.hash = "") (hcollected : state.collected = g.collected)
      (hlive : live codec r = { g with collected := r.collected })
  | frozen (state : Frozen) (hfrozen : r.frozen = some state) (hjson : state.json = some g.json)
      (hrevision : state.revision = g.revision) (hcollected : state.collected = g.collected)
      (hhash : state.hash = "" ∨ state.hash = g.hash) (hdigest : g.hash = codec.sha256Hex g.json)

structure Good (codec : Codec) (g : Snapshot) (r : Repository) : Prop where
  cache : r.hashDirty = false → r.hash = codec.sha256Hex (r.json codec)
  noHash : codec.canHash = false → r.hash = ""
  idle : r.rounds = 0 → r.frozen = none
  held : r.rounds ≠ 0 → Held codec g r

/-! ## Reading -/

theorem sha256Hex_of_not_canHash (h : codec.canHash = false) (bytes : String) :
    codec.sha256Hex bytes = "" := by
  rw [Codec.sha256Hex, h]
  rfl

section

variable (hr : Good codec g r)
include hr

theorem hashLocked_snd :
    (r.hashLocked codec (r.json codec)).2 = codec.sha256Hex (r.json codec) := by
  simp only [hashLocked]
  cases hcan : codec.canHash with
  | false => exact (sha256Hex_of_not_canHash hcan _).symm
  | true =>
    cases hdirty : r.hashDirty with
    | false => exact hr.cache hdirty
    | true =>
      simp only [Bool.not_true, Bool.false_eq_true, if_false]
      split <;> rfl

theorem buildSnapshotLocked_snd : (r.buildSnapshotLocked codec).2 = live codec r := by
  simp only [buildSnapshotLocked]
  rw [hashLocked_snd hr, live]

theorem cachedHash_eq :
    (if codec.canHash && r.hashDirty then r.hashLocked codec (r.json codec) else (r, r.hash)).2 =
      codec.sha256Hex (r.json codec) := by
  split
  next => exact hashLocked_snd hr
  next hclean =>
    cases hcan : codec.canHash with
    | false => exact (hr.noHash hcan).trans (sha256Hex_of_not_canHash hcan _).symm
    | true => exact hr.cache (by simpa [hcan] using hclean)

theorem getSnapshot_of_idle (h : r.rounds = 0) : (r.getSnapshot codec).2 = live codec r := by
  rw [getSnapshot, hr.idle h]
  exact buildSnapshotLocked_snd hr

theorem getHash_of_unfrozen (h : r.frozen = none) :
    (r.getHash codec).2 = codec.sha256Hex (r.json codec) := by
  have hcached := cachedHash_eq hr
  rw [getHash, h]
  cases hcan : codec.canHash <;> cases hdirty : r.hashDirty <;>
    simpa [hcan, hdirty] using hcached

theorem getHash_of_idle (h : r.rounds = 0) : (r.getHash codec).2 = (live codec r).hash :=
  getHash_of_unfrozen hr (hr.idle h)

end

theorem frozenHashLocked_snd (hjson : state.json = some g.json)
    (hhash : state.hash = "" ∨ state.hash = g.hash) (hdigest : g.hash = codec.sha256Hex g.json) :
    (r.frozenHashLocked codec state).2 = g.hash := by
  simp only [frozenHashLocked, hjson]
  split
  next => exact hdigest.symm
  next hknown =>
    obtain hempty | hsame := hhash
    · have hcan : codec.canHash = false := by simpa [hempty] using hknown
      rw [hdigest, sha256Hex_of_not_canHash hcan]
      exact hempty
    · exact hsame

theorem getSnapshot_of_held (hr : Good codec g r) (h : Held codec g r) :
    (r.getSnapshot codec).2 = g := by
  rw [getSnapshot]
  cases h with
  | untouched hfrozen hlive =>
    rw [hfrozen, ← hlive]
    exact buildSnapshotLocked_snd hr
  | stamped state hfrozen hjson _ hcollected hlive =>
    rw [hfrozen]
    simp only [frozenSnapshotLocked, hjson]
    rw [buildSnapshotLocked_snd hr, hlive, hcollected]
  | frozen state hfrozen hjson hrevision hcollected hhash hdigest =>
    rw [hfrozen]
    simp only [frozenSnapshotLocked, hjson]
    rw [frozenHashLocked_snd hjson hhash hdigest, hrevision, hcollected]

theorem getHash_of_held (hr : Good codec g r) (h : Held codec g r) :
    (r.getHash codec).2 = g.hash := by
  cases h with
  | untouched hfrozen hlive =>
    rw [← hlive]
    exact getHash_of_unfrozen hr hfrozen
  | stamped state hfrozen hjson _ hcollected hlive =>
    rw [getHash, hfrozen]
    simp only [frozenHashLocked, hjson]
    rw [cachedHash_eq hr]
    exact congrArg Snapshot.hash hlive
  | frozen state hfrozen hjson hrevision hcollected hhash hdigest =>
    rw [getHash, hfrozen]
    exact frozenHashLocked_snd hjson hhash hdigest

/-! ## Calls that leave the document alone -/

theorem Held.congr (h : Held codec g r) (hfrozen : s.frozen = r.frozen)
    (hlive : live codec s = live codec r) : Held codec g s := by
  have hcollected : s.collected = r.collected := congrArg Snapshot.collected hlive
  cases h with
  | untouched hnone hg => exact .untouched (hfrozen.trans hnone) (hlive.trans hg)
  | stamped state hsome hjson hhash hstate hg =>
    refine .stamped state (hfrozen.trans hsome) hjson hhash hstate ?_
    rw [hlive, hg, hcollected]
  | frozen state hsome hjson hrevision hstate hhash hdigest =>
    exact .frozen state (hfrozen.trans hsome) hjson hrevision hstate hhash hdigest

section

variable (hr : Good codec g r)
include hr

theorem Good.congr (hlive : live codec s = live codec r) (hhash : s.hash = r.hash)
    (hdirty : s.hashDirty = r.hashDirty) (hrounds : s.rounds = r.rounds)
    (hfrozen : s.frozen = r.frozen) : Good codec g s where
  cache h := by
    have hjson : s.json codec = r.json codec := congrArg Snapshot.json hlive
    rw [hhash, hjson]
    exact hr.cache (hdirty ▸ h)
  noHash h := hhash.trans (hr.noHash h)
  idle h := hfrozen.trans (hr.idle (hrounds ▸ h))
  held h := (hr.held (hrounds ▸ h)).congr hfrozen hlive

theorem good_hashLocked : Good codec g (r.hashLocked codec (r.json codec)).1 := by
  simp only [hashLocked]
  split
  next => exact hr
  next hcan =>
    split
    next => exact hr
    next =>
      split
      next => exact hr
      next =>
        exact ⟨fun _ => rfl, fun hno => absurd hno (by simpa using hcan), hr.idle,
          fun h => (hr.held h).congr rfl rfl⟩

theorem good_frozenHashLocked (hstate : r.frozen = some state) :
    Good codec g (r.frozenHashLocked codec state).1 := by
  rw [frozenHashLocked]
  split
  next =>
    split
    next => exact good_hashLocked hr
    next => exact hr
  next json hjson =>
    split
    next =>
      refine ⟨hr.cache, hr.noHash, fun h => ?_, fun h => ?_⟩
      · have hnone := hr.idle h
        rw [hstate] at hnone
        cases hnone
      · cases hr.held h with
        | untouched hfrozen _ => exact absurd (hstate.symm.trans hfrozen) (by simp)
        | stamped state' hfrozen hnone _ _ _ =>
          cases hstate.symm.trans hfrozen
          exact absurd (hjson.symm.trans hnone) (by simp)
        | frozen state' hfrozen hsome hrevision hcollected _ hdigest =>
          cases hstate.symm.trans hfrozen
          cases hjson.symm.trans hsome
          exact .frozen _ rfl hjson hrevision hcollected (.inr hdigest.symm) hdigest
    next => exact hr

theorem good_getHash : Good codec g (r.getHash codec).1 := by
  rw [getHash]
  split
  next state hstate => exact good_frozenHashLocked hr hstate
  next =>
    split
    next => exact hr
    next => exact good_hashLocked hr

theorem good_getSnapshot : Good codec g (r.getSnapshot codec).1 := by
  rw [getSnapshot]
  split
  next state hstate =>
    rw [frozenSnapshotLocked]
    split
    next => exact good_hashLocked hr
    next => exact good_frozenHashLocked hr hstate
  next => exact good_hashLocked hr

theorem good_beginRound (h : r.rounds = 0 → live codec r = g) : Good codec g r.beginRound where
  cache := hr.cache
  noHash := hr.noHash
  idle hzero := absurd hzero (Nat.succ_ne_zero _)
  held _ := by
    by_cases hrounds : r.rounds = 0
    · exact .untouched (hr.idle hrounds) (h hrounds)
    · exact (hr.held hrounds).congr rfl rfl

theorem good_endRound : Good codec g r.endRound := by
  rw [endRound]
  split
  next => exact hr
  next hrounds =>
    refine ⟨hr.cache, hr.noHash, fun h => if_pos h, fun h => ?_⟩
    exact (hr.held hrounds).congr (if_neg h) rfl

end

/-! ## Freezing -/

/-- A repository whose open rounds do not read the live document any more. -/
structure Detached (codec : Codec) (g : Snapshot) (r : Repository) : Prop where
  noHash : codec.canHash = false → r.hash = ""
  idle : r.rounds = 0 → r.frozen = none
  held : r.rounds ≠ 0 → ∃ state, r.frozen = some state ∧ state.json = some g.json ∧
    state.revision = g.revision ∧ state.collected = g.collected ∧
      (state.hash = "" ∨ state.hash = g.hash) ∧ g.hash = codec.sha256Hex g.json

theorem Detached.congr (h : Detached codec g r) (hhash : s.hash = r.hash)
    (hrounds : s.rounds = r.rounds) (hfrozen : s.frozen = r.frozen) : Detached codec g s where
  noHash hno := hhash.trans (h.noHash hno)
  idle hzero := hfrozen.trans (h.idle (hrounds ▸ hzero))
  held hopen := by
    rw [hfrozen]
    exact h.held (hrounds ▸ hopen)

theorem Detached.touch (h : Detached codec g r) : Good codec g r.touch where
  cache hdirty := by cases hdirty
  noHash := h.noHash
  idle := h.idle
  held hopen := by
    obtain ⟨state, hfrozen, hjson, hrevision, hcollected, hhash, hdigest⟩ := h.held hopen
    exact .frozen state hfrozen hjson hrevision hcollected hhash hdigest

theorem detached_freezeLocked (hr : Good codec g r) :
    Detached codec g (r.freezeLocked codec true) := by
  rw [freezeLocked]
  split
  next hrounds => exact ⟨hr.noHash, hr.idle, fun h => absurd hrounds h⟩
  next hrounds =>
    have hlive : ∀ state : Frozen, state.json = none → state.collected = g.collected →
        live codec r = { g with collected := r.collected } → state.hash = "" →
        Detached codec g { r with
          frozen := some
            { state with
              json := some (r.json codec)
              revision := r.revision
              hash := if r.hashDirty then state.hash else r.hash } } := by
      intro state hjson hcollected hg hhash
      have hjson' : r.json codec = g.json := congrArg Snapshot.json hg
      have hdigest : g.hash = codec.sha256Hex g.json := by
        rw [← hjson']
        exact (congrArg Snapshot.hash hg).symm
      refine ⟨hr.noHash, fun h => absurd h hrounds, fun _ => ⟨_, rfl, congrArg some hjson',
        congrArg Snapshot.revision hg, hcollected, ?_, hdigest⟩⟩
      cases hdirty : r.hashDirty with
      | true => exact .inl hhash
      | false => exact .inr ((hr.cache hdirty).trans (by rw [hdigest, hjson']))
    cases hr.held hrounds with
    | untouched hfrozen hg =>
      rw [hfrozen]
      refine hlive ⟨r.collected, none, 0, ""⟩ rfl (congrArg Snapshot.collected hg) ?_ rfl
      rw [← hg]
      rfl
    | stamped state hfrozen hjson hhash hcollected hg =>
      rw [hfrozen, Option.getD_some]
      dsimp only
      rw [hjson]
      exact hlive state hjson hcollected hg hhash
    | frozen state hfrozen hjson hrevision hcollected hhash hdigest =>
      rw [hfrozen, Option.getD_some]
      dsimp only
      rw [hjson]
      exact ⟨hr.noHash, fun h => absurd h hrounds, fun _ =>
        ⟨state, rfl, hjson, hrevision, hcollected, hhash, hdigest⟩⟩

theorem Detached.freezeLocked (h : Detached codec g r) :
    Detached codec g (r.freezeLocked codec true) := by
  rw [Repository.freezeLocked]
  split
  next => exact h
  next hrounds =>
    obtain ⟨state, hfrozen, hjson, hrest⟩ := h.held hrounds
    rw [hfrozen, Option.getD_some]
    dsimp only
    rw [hjson]
    exact ⟨h.noHash, fun hzero => absurd hzero hrounds, fun _ => ⟨state, rfl, hjson, hrest⟩⟩

theorem good_markCollected (hr : Good codec g r) (timestamp : String) :
    Good codec g (r.markCollected codec timestamp) := by
  rw [markCollected]
  split
  next => exact hr
  next =>
    rw [Repository.freezeLocked]
    split
    next hrounds => exact ⟨hr.cache, hr.noHash, hr.idle, fun h => absurd hrounds h⟩
    next hrounds =>
      refine ⟨hr.cache, hr.noHash, fun h => absurd h hrounds, fun _ => ?_⟩
      cases hr.held hrounds with
      | untouched hfrozen hg =>
        refine .stamped ⟨r.collected, none, 0, ""⟩ ?_ rfl rfl (congrArg Snapshot.collected hg) ?_
        · rw [hfrozen]
          rfl
        · rw [← hg]
          rfl
      | stamped state hfrozen hjson hhash hcollected hg =>
        refine .stamped state ?_ hjson hhash hcollected ?_
        · rw [hfrozen]
          rfl
        · exact congrArg (fun v : Snapshot => { v with collected := timestamp }) hg
      | frozen state hfrozen hjson hrevision hcollected hhash hdigest =>
        refine .frozen state ?_ hjson hrevision hcollected hhash hdigest
        rw [hfrozen]
        rfl

/-! ## Changes -/

theorem Detached.eraseLocked (h : Detached codec g r) (name : String) :
    Detached codec g (r.eraseLocked codec name).1 := by
  simp only [Repository.eraseLocked]
  split
  next => exact h.congr rfl rfl rfl
  next =>
    have howners : Detached codec g { r with owners := r.owners.erase name } := h.congr rfl rfl rfl
    exact howners.freezeLocked.congr rfl rfl rfl

theorem good_eraseLocked (hr : Good codec g r) (name : String) :
    ((r.eraseLocked codec name).2 = false → Good codec g (r.eraseLocked codec name).1) ∧
      ((r.eraseLocked codec name).2 = true → Detached codec g (r.eraseLocked codec name).1) := by
  have howners : Good codec g { r with owners := r.owners.erase name } :=
    hr.congr rfl rfl rfl rfl rfl
  simp only [Repository.eraseLocked]
  split
  next => exact ⟨fun _ => howners, fun h => by cases h⟩
  next => exact ⟨fun h => (by cases h), fun _ => (detached_freezeLocked howners).congr rfl rfl rfl⟩

def Erasing (codec : Codec) (g : Snapshot) (p : Repository × Bool) : Prop :=
  (p.2 = false → Good codec g p.1) ∧ (p.2 = true → Detached codec g p.1)

theorem Erasing.eraseLocked {p : Repository × Bool} (h : Erasing codec g p) (name : String) :
    Erasing codec g
      ((p.1.eraseLocked codec name).1, (p.1.eraseLocked codec name).2 || p.2) := by
  refine ⟨fun hflag => ?_, fun hflag => ?_⟩
  · obtain ⟨hstep, hbefore⟩ := Bool.or_eq_false_iff.mp hflag
    exact (good_eraseLocked (h.1 hbefore) name).1 hstep
  · cases hbefore : p.2 with
    | false =>
      rw [hbefore, Bool.or_false] at hflag
      exact (good_eraseLocked (h.1 hbefore) name).2 hflag
    | true => exact (h.2 hbefore).eraseLocked name

theorem good_eraseAll (hr : Good codec g r) (names : List String) :
    Good codec g (r.eraseAll codec names) := by
  have hloop : Erasing codec g (r.eraseEach codec names) :=
    Runs.foldl_invariant (fun p name hp => hp.eraseLocked name)
      ⟨fun _ => hr, fun h => by cases h⟩ names
  simp only [eraseAll]
  split
  next hflag => exact (hloop.2 hflag).touch
  next hflag => exact hloop.1 (by simpa using hflag)

theorem good_set (hr : Good codec g r) (name : String) (pluginId : ℕ) (value : Object) :
    Good codec g (r.set codec name pluginId value).1 := by
  have hcase := setCase_set codec r name pluginId value
  generalize (r.set codec name pluginId value).1 = r' at hcase ⊢
  generalize (r.set codec name pluginId value).2 = result at hcase
  cases hcase with
  | rejected error => exact hr
  | unchanged howner hsame => exact hr.congr rfl rfl rfl rfl rfl
  | changed hkey hvalue howner hnew hbudget =>
    have hdetached := detached_freezeLocked hr
    refine Detached.touch ?_
    exact hdetached.congr rfl rfl rfl

theorem erasing_shrink (turns : ℕ) (dropped : List String)
    (h : Erasing codec g (r, !dropped.isEmpty)) :
    Erasing codec g
      ((shrink codec turns r dropped).1, !(shrink codec turns r dropped).2.isEmpty) := by
  induction turns generalizing r dropped with
  | zero => exact h
  | succ turns ih =>
    rw [shrink]
    split
    next => exact h
    next =>
      split
      next => exact h
      next name hname =>
        obtain ⟨bytes, hmem⟩ := mem_of_largest hname
        have hstep := h.eraseLocked name
        have hstored := (eraseLocked_of_some codec (mem_inOrder.mp hmem)).1
        rw [hstored] at hstep
        refine ih (dropped ++ [name]) ⟨fun hflag => ?_, fun _ => ?_⟩
        · simp at hflag
        · exact (hstep.2 rfl).congr rfl rfl rfl

theorem good_setMaxSize (hr : Good codec g r) (maxSize : ℕ) :
    Good codec g (r.setMaxSize codec maxSize).1 := by
  simp only [setMaxSize]
  split
  next => exact hr
  next =>
    have hmaxSize : Good codec g { r with maxSize := maxSize } := hr.congr rfl rfl rfl rfl rfl
    have hloop := erasing_shrink r.encoded.entries.length []
      (⟨fun _ => hmaxSize, fun h => by cases h⟩ :
        Erasing codec g ({ r with maxSize := maxSize }, !([] : List String).isEmpty))
    generalize shrink codec r.encoded.entries.length { r with maxSize := maxSize } [] = p at *
    split
    next hempty => exact hloop.1 (by rw [hempty]; rfl)
    next hempty => exact (hloop.2 (by simpa using hempty)).touch

/-! ## Runs -/

theorem Good.step (hr : Good codec g r) (op : Op)
    (hfirst : op = .beginRound → r.rounds = 0 → live codec r = g) :
    Good codec g (r.step codec op) := by
  cases op with
  | set name pluginId value => exact good_set hr name pluginId value
  | remove name =>
    change Good codec g (r.remove codec name).1
    rw [remove_fst]
    exact good_eraseAll hr [name]
  | removeOwnedBy pluginId | retainOnly pluginId produced =>
    apply good_eraseAll
    exact hr.congr rfl rfl rfl rfl rfl
  | markGathered name timestamp =>
    change Good codec g (r.markGathered name timestamp)
    rw [markGathered]
    split_ifs
    · exact hr
    all_goals exact hr.congr rfl rfl rfl rfl rfl
  | setMaxSize maxSize => exact good_setMaxSize hr maxSize
  | setErrors errors => exact hr.congr rfl rfl rfl rfl rfl
  | markCollected timestamp => exact good_markCollected hr timestamp
  | beginRound => exact good_beginRound hr (hfirst rfl)
  | endRound => exact good_endRound hr
  | getHash => exact good_getHash hr
  | getSnapshot => exact good_getSnapshot hr

theorem Good.of_idle (hr : Good codec g r) (h : r.rounds = 0) (g' : Snapshot) : Good codec g' r :=
  ⟨hr.cache, hr.noHash, hr.idle, fun hopen => absurd h hopen⟩

theorem run_append (codec : Codec) (ops ops' : List Op) :
    run codec (ops ++ ops') = ops'.foldl (step codec) (run codec ops) := List.foldl_append

theorem exists_good_run (codec : Codec) (ops : List Op) : ∃ g, Good codec g (run codec ops) := by
  induction ops using List.reverseRecOn with
  | nil =>
    exact ⟨live codec new, fun h => (by cases h), fun _ => rfl, fun _ => rfl, fun h => absurd rfl h⟩
  | append_singleton ops op ih =>
    obtain ⟨g, hg⟩ := ih
    rw [run_append]
    by_cases hrounds : (run codec ops).rounds = 0
    · exact ⟨live codec (run codec ops), (hg.of_idle hrounds _).step op fun _ _ => rfl⟩
    · exact ⟨g, hg.step op fun _ hzero => absurd hzero hrounds⟩

theorem good_foldl {ops : List Op} (hr : Good codec g r) (hopen : ∀ l, l <+: ops →
    (l.foldl (step codec) r).rounds ≠ 0) : Good codec g (ops.foldl (step codec) r) := by
  induction ops generalizing r with
  | nil => exact hr
  | cons op ops ih =>
    have hnow : r.rounds ≠ 0 := hopen [] List.nil_prefix
    refine ih (hr.step op fun _ hzero => absurd hzero hnow) fun l hl => ?_
    exact hopen (op :: l) (List.cons_prefix_cons.mpr ⟨rfl, hl⟩)

/-! ## Counting the open rounds -/

/-- The rounds the calls leave open; an end that no begin is left for changes nothing. -/
def openRounds (ops : List Op) : ℕ :=
  ops.foldl (fun count op =>
    match op with
    | .beginRound => count + 1
    | .endRound => count - 1
    | _ => count) 0

@[simp] theorem rounds_touch : r.touch.rounds = r.rounds := rfl

@[simp] theorem rounds_freezeLocked (setsChange : Bool) :
    (r.freezeLocked codec setsChange).rounds = r.rounds := by
  simp only [freezeLocked, apply_ite rounds, ite_self]

@[simp] theorem rounds_hashLocked (json : String) :
    (r.hashLocked codec json).1.rounds = r.rounds := by
  simp only [hashLocked]
  split_ifs <;> rfl

@[simp] theorem rounds_frozenHashLocked :
    (r.frozenHashLocked codec state).1.rounds = r.rounds := by
  rw [frozenHashLocked]
  split <;> split <;> simp

@[simp] theorem rounds_getHash : (r.getHash codec).1.rounds = r.rounds := by
  rw [getHash]
  split
  next => simp
  next => split <;> simp

@[simp] theorem rounds_getSnapshot : (r.getSnapshot codec).1.rounds = r.rounds := by
  rw [getSnapshot]
  split
  next =>
    rw [frozenSnapshotLocked]
    split <;> simp [buildSnapshotLocked]
  next => simp [buildSnapshotLocked]

@[simp] theorem rounds_eraseLocked (name : String) :
    (r.eraseLocked codec name).1.rounds = r.rounds := by
  simp only [eraseLocked]
  split <;> simp

theorem rounds_eraseAll (names : List String) : (r.eraseAll codec names).rounds = r.rounds := by
  have hloop : (r.eraseEach codec names).1.rounds = r.rounds :=
    Runs.foldl_invariant (I := fun p : Repository × Bool => p.1.rounds = r.rounds)
      (fun p name hp => Eq.trans (by simp) hp) rfl names
  simp only [eraseAll]
  split <;> simp [hloop]

theorem rounds_set (name : String) (pluginId : ℕ) (value : Object) :
    (r.set codec name pluginId value).1.rounds = r.rounds := by
  have hcase := setCase_set codec r name pluginId value
  generalize (r.set codec name pluginId value).1 = r' at hcase ⊢
  generalize (r.set codec name pluginId value).2 = result at hcase
  cases hcase <;> simp

theorem rounds_shrink (turns : ℕ) (dropped : List String) :
    (shrink codec turns r dropped).1.rounds = r.rounds := by
  induction turns generalizing r dropped with
  | zero => rfl
  | succ turns ih =>
    rw [shrink]
    split
    next => rfl
    next => split <;> simp [ih]

theorem rounds_setMaxSize (maxSize : ℕ) :
    (r.setMaxSize codec maxSize).1.rounds = r.rounds := by
  simp only [setMaxSize]
  split
  next => rfl
  next => split <;> simp [rounds_shrink]

theorem rounds_run (codec : Codec) (ops : List Op) :
    (run codec ops).rounds = openRounds ops := by
  induction ops using List.reverseRecOn with
  | nil => rfl
  | append_singleton ops op ih =>
    rw [run_append, openRounds, List.foldl_append, ← openRounds, ← ih]
    simp only [List.foldl_cons, List.foldl_nil, step]
    cases op with
    | set name pluginId value => exact rounds_set name pluginId value
    | remove name => exact (congrArg rounds (remove_fst ..)).trans (rounds_eraseAll [name])
    | removeOwnedBy pluginId | retainOnly pluginId produced => exact rounds_eraseAll _
    | markGathered name timestamp =>
      simp only [markGathered]
      split_ifs <;> rfl
    | setMaxSize maxSize => exact rounds_setMaxSize maxSize
    | markCollected timestamp =>
      simp only [markCollected]
      split <;> simp
    | endRound =>
      simp only [endRound]
      split
      next hzero => exact hzero.trans (congrArg (· - 1) hzero).symm
      next => rfl
    | beginRound | setErrors errors => rfl
    | getHash => exact rounds_getHash
    | getSnapshot => exact rounds_getSnapshot

/-- With no round open the readers describe the live document, and as long as rounds are open
the document, its hash, its revision and its time as the first of them found it. -/
theorem getSnapshot_run (codec : Codec) (ops : List Op) : (openRounds ops = 0 →
      ((run codec ops).getSnapshot codec).2 = live codec (run codec ops) ∧
        ((run codec ops).getHash codec).2 = (live codec (run codec ops)).hash) ∧
    ∀ before during, ops = before ++ .beginRound :: during → openRounds before = 0 →
      (∀ l, l <+: during → openRounds (before ++ .beginRound :: l) ≠ 0) →
        ((run codec ops).getSnapshot codec).2 = live codec (run codec before) ∧
          ((run codec ops).getHash codec).2 = (live codec (run codec before)).hash := by
  refine ⟨fun hrounds => ?_, fun before during hops hidle hopen => ?_⟩
  · obtain ⟨g, hg⟩ := exists_good_run codec ops
    rw [← rounds_run codec] at hrounds
    exact ⟨getSnapshot_of_idle hg hrounds, getHash_of_idle hg hrounds⟩
  · obtain ⟨g, hg⟩ := exists_good_run codec before
    simp only [← rounds_run codec] at hidle hopen
    have hbegin := good_beginRound (hg.of_idle hidle (live codec (run codec before))) fun _ => rfl
    have hrun : ∀ l, run codec (before ++ .beginRound :: l) =
        l.foldl (step codec) (run codec before).beginRound := fun l => run_append codec before _
    have hgood := good_foldl hbegin fun l hl => hrun l ▸ hopen l hl
    rw [← hrun, ← hops] at hgood
    have hheld := hgood.held (hops ▸ hopen during (List.prefix_refl during))
    exact ⟨getSnapshot_of_held hgood hheld, getHash_of_held hgood hheld⟩

/-- A set stored and a time stamped in nested rounds stay hidden when the inner one ends. -/
theorem getSnapshot_run_nested :
    let codec : Codec := ⟨fun _ => "0", fun _ => [123, 125], true, fun json => "#" ++ json⟩
    let during : List Op := [.beginRound, .set "os" 1 [], .markCollected "12:00", .endRound]
    let r := run codec (.beginRound :: during)
    openRounds (.beginRound :: during) = 1 ∧ r.collected = "12:00" ∧ r.revision = 1 ∧
      (r.getSnapshot codec).2 = live codec new := by
  intro codec during r
  refine ⟨rfl, by decide +kernel, by decide +kernel, ?_⟩
  have hopen : ∀ l ∈ during.inits, openRounds (.beginRound :: l) ≠ 0 := by decide
  exact ((getSnapshot_run codec _).2 [] during rfl rfl fun l hl =>
    hopen l ((List.mem_inits l during).mpr hl)).1

end Nscp.Service.Facts.Repository
