import Mathlib

/-!
# Swapping a fleet state in

What `apply_state` does to the managed directory once everything is staged: `fleet.ini` is
renamed into place, the scripts tree is moved aside, the staged files are promoted one by one,
and the hash of the state is recorded last.  Every step may be the last one before the process
stops, and the renames and the writes may report an error.
-/

namespace Nscp.Onboarding.Fleet

open Option Finset

/-- The regular files of a scripts tree: relative paths with their contents. -/
abbrev Tree := Finset (String × String)

inductive AppliedState
  | missing
  | corrupt
  | saved (stateHash : String)
  deriving DecidableEq

/-- The part of the managed directory that outlives an apply. -/
@[ext]
structure Managed where
  fleetIni : Option String
  scripts : Option Tree
  scriptsOld : Option Tree
  appliedState : AppliedState
  deriving DecidableEq

/-- A managed directory and the hash that the sync holds as the applied one. -/
structure Sync where
  managed : Managed
  currentHash : String
  deriving DecidableEq

/-- What an apply is about to swap in. -/
structure Staged where
  fleetIni : String
  files : Tree
  stateHash : String
  deriving DecidableEq

open Staged

/-- The tree that promoting the staged files makes: none without a staged file. -/
def Staged.scripts (new : Staged) : Option Tree :=
  if new.files = ∅ then none else some new.files

/-! ## Starting -/

def loadAppliedState : AppliedState → String
  | .missing => ""
  | .corrupt => ""
  | .saved stateHash => stateHash

/-- A surviving `scripts.old` is put back and the applied hash dropped. -/
def recoverInterruptedApply (x : Sync) : Sync :=
  match x.managed.scriptsOld with
  | none => x
  | some old => ⟨{ x.managed with scripts := some old, scriptsOld := none }, ""⟩

def start (managed : Managed) : Sync :=
  recoverInterruptedApply ⟨managed, loadAppliedState managed.appliedState⟩

/-! ## The steps of an apply -/

/-- Where `apply_state` is; while it promotes, with the files that are still staged. -/
inductive Stage
  | preparing
  | renamed
  | cleared
  | promoting (left : Tree)
  | rollingBack
  | restoring
  | promoted
  | swapped
  | saving
  | writing
  | applied
  | failed
  deriving DecidableEq

structure Point where
  managed : Managed
  currentHash : String
  stage : Stage
  deriving DecidableEq

/-- Up to the first rename only the cache and the staging directory are touched.  Files are
removed and promoted one at a time, in the order of the directory. -/
inductive Step (new : Staged) : Point → Point → Prop
  | refuse (m h) : Step new ⟨m, h, .preparing⟩ ⟨m, h, .failed⟩
  | renameIni (m h) : Step new ⟨m, h, .preparing⟩
      ⟨{ m with fleetIni := some new.fleetIni }, h, .renamed⟩
  | removeFromOld (m h old rest) (hold : m.scriptsOld = some old) (hrest : rest ⊆ old) :
      Step new ⟨m, h, .renamed⟩ ⟨{ m with scriptsOld := some rest }, h, .renamed⟩
  | removeOld (m h) : Step new ⟨m, h, .renamed⟩ ⟨{ m with scriptsOld := none }, h, .cleared⟩
  | moveAside (m h live) (hlive : m.scripts = some live) : Step new ⟨m, h, .cleared⟩
      ⟨{ m with scripts := none, scriptsOld := some live }, h, .promoting new.files⟩
  | failAside (m h live) (hlive : m.scripts = some live) :
      Step new ⟨m, h, .cleared⟩ ⟨m, h, .failed⟩
  | nothingAside (m h) (hlive : m.scripts = none) :
      Step new ⟨m, h, .cleared⟩ ⟨m, h, .promoting new.files⟩
  | createScripts (m h left) (hleft : left ≠ ∅) : Step new ⟨m, h, .promoting left⟩
      ⟨{ m with scripts := some (m.scripts.getD ∅) }, h, .promoting left⟩
  | promoteFile (m h left live file) (hlive : m.scripts = some live) (hfile : file ∈ left) :
      Step new ⟨m, h, .promoting left⟩
        ⟨{ m with scripts := some (insert file live) }, h, .promoting (left.erase file)⟩
  | failPromote (m h left) (hleft : left ≠ ∅) :
      Step new ⟨m, h, .promoting left⟩ ⟨m, h, .rollingBack⟩
  | finishPromote (m h) : Step new ⟨m, h, .promoting ∅⟩ ⟨m, h, .promoted⟩
  -- The handler of a failed promote.
  | removeFromScripts (m h live rest) (hlive : m.scripts = some live) (hrest : rest ⊆ live) :
      Step new ⟨m, h, .rollingBack⟩ ⟨{ m with scripts := some rest }, h, .rollingBack⟩
  | removeScripts (m h) :
      Step new ⟨m, h, .rollingBack⟩ ⟨{ m with scripts := none }, h, .restoring⟩
  | restore (m h old) (hold : m.scriptsOld = some old) : Step new ⟨m, h, .restoring⟩
      ⟨{ m with scripts := some old, scriptsOld := none }, h, .failed⟩
  | failRestore (m h old) (hold : m.scriptsOld = some old) :
      Step new ⟨m, h, .restoring⟩ ⟨m, h, .failed⟩
  | nothingToRestore (m h) (hold : m.scriptsOld = none) :
      Step new ⟨m, h, .restoring⟩ ⟨m, h, .failed⟩
  | dropFromOld (m h old rest) (hold : m.scriptsOld = some old) (hrest : rest ⊆ old) :
      Step new ⟨m, h, .promoted⟩ ⟨{ m with scriptsOld := some rest }, h, .promoted⟩
  | dropOld (m h) : Step new ⟨m, h, .promoted⟩ ⟨{ m with scriptsOld := none }, h, .swapped⟩
  | remember (m h) : Step new ⟨m, h, .swapped⟩ ⟨m, new.stateHash, .saving⟩
  -- `write_file` truncates the file before it writes.
  | failOpen (m h) : Step new ⟨m, h, .saving⟩ ⟨m, h, .failed⟩
  | truncate (m h) : Step new ⟨m, h, .saving⟩ ⟨{ m with appliedState := .corrupt }, h, .writing⟩
  | failWrite (m h) : Step new ⟨m, h, .writing⟩ ⟨m, h, .failed⟩
  | save (m h) : Step new ⟨m, h, .writing⟩ ⟨{ m with appliedState := .saved h }, h, .applied⟩

/-- The points that an apply of `new` over `prev` can come to. -/
def Reaches (prev : Sync) (new : Staged) : Point → Prop :=
  Relation.ReflTransGen (Step new) ⟨prev.managed, prev.currentHash, .preparing⟩

/-- How an apply that comes to a point can end: it has failed there, or the process stops and
starts again. -/
def Ends (s : Point) (x : Sync) : Prop :=
  (s.stage = .failed ∧ x = ⟨s.managed, s.currentHash⟩) ∨ x = start s.managed

/-- The live configuration is the one from before, or the recorded hash is empty or that of
the state on disk. -/
def Consistent (prev : Sync) (new : Staged) (x : Sync) : Prop :=
  (x.managed.fleetIni = prev.managed.fleetIni ∧ x.managed.scripts = prev.managed.scripts) ∨
    x.currentHash = "" ∨
    (x.currentHash = new.stateHash ∧ x.managed.fleetIni = some new.fleetIni ∧
      x.managed.scripts = new.scripts)

def AllOrNothing (prev : Sync) (new : Staged) : Prop :=
  ∀ s x, Reaches prev new s → Ends s x → Consistent prev new x

/-! ## The points of an apply -/

section Points

variable {prev : Sync} {new : Staged} {s s' : Point} {x : Sync} {m : Managed}

/-- What the managed directory looks like at each point. -/
def Known (prev : Sync) (new : Staged) (s : Point) : Prop :=
  match s.stage with
  | .preparing => s.managed = prev.managed ∧ s.currentHash = prev.currentHash
  | .renamed => ∃ old, s.managed =
      ⟨some new.fleetIni, prev.managed.scripts, old, prev.managed.appliedState⟩ ∧
      s.currentHash = prev.currentHash
  | .cleared => s.managed =
      ⟨some new.fleetIni, prev.managed.scripts, none, prev.managed.appliedState⟩ ∧
      s.currentHash = prev.currentHash
  | .promoting left => left ⊆ new.files ∧ ∃ live, s.managed =
      ⟨some new.fleetIni, live, prev.managed.scripts, prev.managed.appliedState⟩ ∧
      s.currentHash = prev.currentHash ∧
      (live = none ∧ left = new.files ∨ live = some (new.files \ left) ∧ new.files ≠ ∅)
  | .rollingBack => new.files ≠ ∅ ∧ ∃ live, s.managed =
      ⟨some new.fleetIni, live, prev.managed.scripts, prev.managed.appliedState⟩ ∧
      s.currentHash = prev.currentHash
  | .restoring => new.files ≠ ∅ ∧ s.managed =
      ⟨some new.fleetIni, none, prev.managed.scripts, prev.managed.appliedState⟩ ∧
      s.currentHash = prev.currentHash
  | .promoted => ∃ old, s.managed =
      ⟨some new.fleetIni, new.scripts, old, prev.managed.appliedState⟩ ∧
      s.currentHash = prev.currentHash
  | .swapped => s.managed = ⟨some new.fleetIni, new.scripts, none, prev.managed.appliedState⟩ ∧
      s.currentHash = prev.currentHash
  | .saving => s.managed = ⟨some new.fleetIni, new.scripts, none, prev.managed.appliedState⟩ ∧
      s.currentHash = new.stateHash
  | .writing => s.managed = ⟨some new.fleetIni, new.scripts, none, .corrupt⟩ ∧
      s.currentHash = new.stateHash
  | .applied => s.managed = ⟨some new.fleetIni, new.scripts, none, .saved new.stateHash⟩ ∧
      s.currentHash = new.stateHash
  | .failed =>
    (s.managed = prev.managed ∧ s.currentHash = prev.currentHash) ∨
    ((prev.managed.scripts ≠ none ∨ new.files ≠ ∅) ∧ s.managed =
      ⟨some new.fleetIni, prev.managed.scripts, none, prev.managed.appliedState⟩ ∧
      s.currentHash = prev.currentHash) ∨
    (prev.managed.scripts ≠ none ∧ new.files ≠ ∅ ∧ s.managed =
      ⟨some new.fleetIni, none, prev.managed.scripts, prev.managed.appliedState⟩ ∧
      s.currentHash = prev.currentHash) ∨
    (s.managed.fleetIni = some new.fleetIni ∧ s.managed.scripts = new.scripts ∧
      s.managed.scriptsOld = none ∧ s.currentHash = new.stateHash ∧
      (s.managed.appliedState = prev.managed.appliedState ∨ s.managed.appliedState = .corrupt))

/-- A step takes the directory from what is known at one point to what is known at the next. -/
theorem known_step (h : Known prev new s) (hstep : Step new s s') : Known prev new s' := by
  cases hstep with
  | refuse m c => exact .inl h
  | renameIni m c =>
    obtain ⟨rfl, rfl⟩ := h
    exact ⟨_, rfl, rfl⟩
  | removeFromOld m c old rest hold hrest | dropFromOld m c old rest hold hrest =>
    obtain ⟨old', rfl, rfl⟩ := h
    exact ⟨_, rfl, rfl⟩
  | removeOld m c | dropOld m c =>
    obtain ⟨old, rfl, rfl⟩ := h
    exact ⟨rfl, rfl⟩
  | moveAside m c live hlive =>
    obtain ⟨rfl, rfl⟩ := h
    refine ⟨subset_rfl, none, ?_, rfl, .inl ⟨rfl, rfl⟩⟩
    rw [← hlive]
  | failAside m c live hlive =>
    obtain ⟨rfl, rfl⟩ := h
    have hsome : prev.managed.scripts ≠ none := hlive ▸ some_ne_none live
    exact .inr (.inl ⟨.inl hsome, rfl, rfl⟩)
  | nothingAside m c hlive =>
    obtain ⟨rfl, rfl⟩ := h
    refine ⟨subset_rfl, none, ?_, rfl, .inl ⟨rfl, rfl⟩⟩
    exact Managed.ext rfl hlive hlive.symm rfl
  | createScripts m c left hleft =>
    obtain ⟨hsub, live, rfl, rfl, ⟨rfl, rfl⟩ | ⟨rfl, hfiles⟩⟩ := h
    · refine ⟨hsub, _, rfl, rfl, .inr ⟨?_, hleft⟩⟩
      rw [getD_none, Finset.sdiff_self]
    · exact ⟨hsub, _, rfl, rfl, .inr ⟨rfl, hfiles⟩⟩
  | promoteFile m c left live file hlive hfile =>
    obtain ⟨hsub, live', rfl, rfl, ⟨rfl, rfl⟩ | ⟨rfl, hfiles⟩⟩ := h
    · cases hlive
    · cases hlive
      refine ⟨(Finset.erase_subset file left).trans hsub, _, rfl, rfl, .inr ⟨?_, hfiles⟩⟩
      rw [Finset.sdiff_erase (hsub hfile)]
  | failPromote m c left hleft =>
    obtain ⟨hsub, live, rfl, rfl, -⟩ := h
    exact ⟨fun he => hleft (Finset.subset_empty.mp (he ▸ hsub)), live, rfl, rfl⟩
  | finishPromote m c =>
    obtain ⟨hsub, live, rfl, rfl, ⟨rfl, hfiles⟩ | ⟨rfl, hfiles⟩⟩ := h
    · refine ⟨prev.managed.scripts, ?_, rfl⟩
      rw [scripts, if_pos hfiles.symm]
    · refine ⟨prev.managed.scripts, ?_, rfl⟩
      rw [scripts, if_neg hfiles, Finset.sdiff_empty]
  | removeFromScripts m c live rest hlive hrest =>
    obtain ⟨hfiles, live', rfl, rfl⟩ := h
    exact ⟨hfiles, _, rfl, rfl⟩
  | removeScripts m c =>
    obtain ⟨hfiles, live', rfl, rfl⟩ := h
    exact ⟨hfiles, rfl, rfl⟩
  | restore m c old hold =>
    obtain ⟨hfiles, rfl, rfl⟩ := h
    refine .inr (.inl ⟨.inr hfiles, ?_, rfl⟩)
    exact congrArg (fun live => Managed.mk _ live none _) hold.symm
  | failRestore m c old hold =>
    obtain ⟨hfiles, rfl, rfl⟩ := h
    have hsome : prev.managed.scripts ≠ none :=
      (show prev.managed.scripts = some old from hold) ▸ some_ne_none old
    exact .inr (.inr (.inl ⟨hsome, hfiles, rfl, rfl⟩))
  | nothingToRestore m c hold =>
    obtain ⟨hfiles, rfl, rfl⟩ := h
    refine .inr (.inl ⟨.inr hfiles, ?_, rfl⟩)
    exact Managed.ext rfl hold.symm hold rfl
  | remember m c | truncate m c | save m c =>
    obtain ⟨rfl, rfl⟩ := h
    exact ⟨rfl, rfl⟩
  | failOpen m c =>
    obtain ⟨rfl, rfl⟩ := h
    exact .inr (.inr (.inr ⟨rfl, rfl, rfl, rfl, .inl rfl⟩))
  | failWrite m c =>
    obtain ⟨rfl, rfl⟩ := h
    exact .inr (.inr (.inr ⟨rfl, rfl, rfl, rfl, .inr rfl⟩))

theorem known_of_reaches (h : Reaches prev new s) : Known prev new s := by
  induction h with
  | refl => exact ⟨rfl, rfl⟩
  | tail _ hstep ih => exact known_step ih hstep

/-! ## When an apply is all or nothing -/

def recorded (prev : Sync) : String :=
  loadAppliedState prev.managed.appliedState

/-- The states for which no point of an apply leaves a mixture under a recorded hash.  Since
`fleet.ini` goes first and the record last, a state other than the recorded one is covered
only where nothing is recorded, or where what is replaced by then is the same as before. -/
structure Covered (prev : Sync) (new : Staged) : Prop where
  renamed : recorded prev = "" ∨ prev.managed.fleetIni = some new.fleetIni ∨
    (recorded prev = new.stateHash ∧ prev.managed.scripts = new.scripts)
  swapped : recorded prev = "" ∨ recorded prev = new.stateHash ∨
    (prev.managed.fleetIni = some new.fleetIni ∧ prev.managed.scripts = new.scripts)
  refused : prev.managed.scripts ≠ none ∨ new.files ≠ ∅ →
    prev.currentHash = "" ∨ prev.managed.fleetIni = some new.fleetIni ∨
      (prev.currentHash = new.stateHash ∧ prev.managed.scripts = new.scripts)
  displaced : prev.managed.scripts ≠ none → new.files ≠ ∅ → prev.currentHash = ""
  partly : prev.managed.scripts = none → new.files ≠ ∅ → recorded prev = ""

theorem start_of_none (h : m.scriptsOld = none) :
    start m = ⟨m, loadAppliedState m.appliedState⟩ := by
  rw [start, recoverInterruptedApply, h]

theorem consistent_start_of_old (h : m.scriptsOld ≠ none) : Consistent prev new (start m) := by
  obtain ⟨old, hold⟩ := ne_none_iff_exists'.mp h
  rw [start, recoverInterruptedApply, hold]
  exact .inr (.inl rfl)

variable {old live : Option Tree} {c : String} {record : AppliedState}

theorem consistent_mixed_iff :
    Consistent prev new ⟨⟨some new.fleetIni, prev.managed.scripts, old, record⟩, c⟩ ↔
      c = "" ∨ prev.managed.fleetIni = some new.fleetIni ∨
        (c = new.stateHash ∧ prev.managed.scripts = new.scripts) := by
  rw [Consistent, eq_comm (a := some new.fleetIni)]
  tauto

theorem consistent_new_iff :
    Consistent prev new ⟨⟨some new.fleetIni, new.scripts, old, record⟩, c⟩ ↔
      c = "" ∨ c = new.stateHash ∨
        (prev.managed.fleetIni = some new.fleetIni ∧ prev.managed.scripts = new.scripts) := by
  rw [Consistent, eq_comm (a := some new.fleetIni), eq_comm (a := new.scripts)]
  tauto

theorem consistent_partly_iff (hprev : live ≠ prev.managed.scripts) (hnew : live ≠ new.scripts) :
    Consistent prev new ⟨⟨some new.fleetIni, live, old, record⟩, c⟩ ↔ c = "" := by
  rw [Consistent]
  tauto

/-! ### Every end of a covered apply -/

/-- A restart at any point of an apply finds what was live before it, the new state under its
hash, or no recorded hash. -/
theorem Covered.consistent_start (hc : Covered prev new) (h : Known prev new s) :
    Consistent prev new (start s.managed) := by
  by_cases hold : s.managed.scriptsOld = none
  swap
  · exact consistent_start_of_old hold
  rw [start_of_none hold]
  obtain ⟨m, c, stage⟩ := s
  cases stage with
  | preparing =>
    obtain ⟨rfl, rfl⟩ := h
    exact .inl ⟨rfl, rfl⟩
  | renamed =>
    obtain ⟨old, rfl, rfl⟩ := h
    exact consistent_mixed_iff.mpr hc.renamed
  | cleared =>
    obtain ⟨rfl, rfl⟩ := h
    exact consistent_mixed_iff.mpr hc.renamed
  | promoting left =>
    obtain ⟨-, live, rfl, rfl, ⟨rfl, rfl⟩ | ⟨rfl, hfiles⟩⟩ := h
    · have hmixed : Consistent prev new ⟨⟨some new.fleetIni, prev.managed.scripts, none,
          prev.managed.appliedState⟩, recorded prev⟩ := consistent_mixed_iff.mpr hc.renamed
      rwa [show prev.managed.scripts = none from hold] at hmixed ⊢
    · exact .inr (.inl (hc.partly hold hfiles))
  | rollingBack =>
    obtain ⟨hfiles, live, rfl, rfl⟩ := h
    exact .inr (.inl (hc.partly hold hfiles))
  | restoring =>
    obtain ⟨hfiles, rfl, rfl⟩ := h
    exact .inr (.inl (hc.partly hold hfiles))
  | promoted =>
    obtain ⟨old, rfl, rfl⟩ := h
    exact consistent_new_iff.mpr hc.swapped
  | swapped | saving =>
    obtain ⟨rfl, rfl⟩ := h
    exact consistent_new_iff.mpr hc.swapped
  | writing =>
    obtain ⟨rfl, rfl⟩ := h
    exact .inr (.inl rfl)
  | applied =>
    obtain ⟨rfl, rfl⟩ := h
    exact .inr (.inr ⟨rfl, rfl, rfl⟩)
  | failed =>
    obtain ⟨rfl, rfl⟩ | ⟨-, rfl, rfl⟩ | ⟨hscripts, -, rfl, rfl⟩ |
      ⟨hini, hscripts, -, -, hrecord | hrecord⟩ := h
    · exact .inl ⟨rfl, rfl⟩
    · exact consistent_mixed_iff.mpr hc.renamed
    · exact absurd hold hscripts
    · obtain ⟨ini, live, old, record⟩ := m
      obtain rfl : ini = some new.fleetIni := hini
      obtain rfl : live = new.scripts := hscripts
      obtain rfl : record = prev.managed.appliedState := hrecord
      exact consistent_new_iff.mpr hc.swapped
    · refine .inr (.inl ?_)
      change loadAppliedState m.appliedState = ""
      rw [show m.appliedState = .corrupt from hrecord]
      rfl

theorem Covered.consistent_failed (hc : Covered prev new) (h : Known prev new s)
    (hstage : s.stage = .failed) : Consistent prev new ⟨s.managed, s.currentHash⟩ := by
  obtain ⟨m, c, stage⟩ := s
  obtain rfl : stage = .failed := hstage
  obtain ⟨rfl, rfl⟩ | ⟨hcause, rfl, rfl⟩ | ⟨hscripts, hfiles, rfl, rfl⟩ |
    ⟨hini, hscripts, -, rfl, -⟩ := h
  · exact .inl ⟨rfl, rfl⟩
  · exact consistent_mixed_iff.mpr (hc.refused hcause)
  · exact .inr (.inl (hc.displaced hscripts hfiles))
  · exact .inr (.inr ⟨rfl, hini, hscripts⟩)

/-! ### The points that an apply comes to -/

theorem reaches_cleared (prev : Sync) (new : Staged) :
    Reaches prev new ⟨⟨some new.fleetIni, prev.managed.scripts, none,
      prev.managed.appliedState⟩, prev.currentHash, .cleared⟩ :=
  .tail (.tail .refl (.renameIni _ _)) (.removeOld _ _)

theorem reaches_promoting (prev : Sync) (new : Staged) :
    Reaches prev new ⟨⟨some new.fleetIni, none, prev.managed.scripts,
      prev.managed.appliedState⟩, prev.currentHash, .promoting new.files⟩ := by
  have hcleared := reaches_cleared prev new
  cases hscripts : prev.managed.scripts with
  | none =>
    rw [hscripts] at hcleared
    exact hcleared.tail (.nothingAside _ _ rfl)
  | some live =>
    rw [hscripts] at hcleared
    exact hcleared.tail (.moveAside _ _ live rfl)

theorem reaches_restoring (prev : Sync) (hfiles : new.files ≠ ∅) :
    Reaches prev new ⟨⟨some new.fleetIni, none, prev.managed.scripts,
      prev.managed.appliedState⟩, prev.currentHash, .restoring⟩ :=
  .tail (.tail (reaches_promoting prev new) (.failPromote _ _ _ hfiles)) (.removeScripts _ _)

theorem reaches_promoted_files {ini : Option String} (live left : Tree)
    (h : Reaches prev new ⟨⟨ini, some live, old, record⟩, c, .promoting left⟩) :
    Reaches prev new ⟨⟨ini, some (live ∪ left), old, record⟩, c, .promoting ∅⟩ := by
  induction left using Finset.induction_on generalizing live with
  | empty => rwa [union_empty]
  | insert file left hfile ih =>
    have hstep : Reaches prev new
        ⟨⟨ini, some (insert file live), old, record⟩, c, .promoting left⟩ := by
      have hnext := h.tail (.promoteFile _ _ _ live file rfl (mem_insert_self file left))
      rwa [erase_insert hfile] at hnext
    have hall := ih (insert file live) hstep
    rwa [insert_union, ← union_insert] at hall

theorem reaches_swapped (prev : Sync) (new : Staged) :
    Reaches prev new ⟨⟨some new.fleetIni, new.scripts, none, prev.managed.appliedState⟩,
      prev.currentHash, .swapped⟩ := by
  have hpromoting := reaches_promoting prev new
  have hpromoted : Reaches prev new ⟨⟨some new.fleetIni, new.scripts, prev.managed.scripts,
      prev.managed.appliedState⟩, prev.currentHash, .promoted⟩ := by
    by_cases hfiles : new.files = ∅
    · rw [scripts, if_pos hfiles]
      rw [hfiles] at hpromoting
      exact hpromoting.tail (.finishPromote _ _)
    · rw [scripts, if_neg hfiles]
      have hcreated := hpromoting.tail (.createScripts _ _ _ hfiles)
      have hall := reaches_promoted_files ∅ new.files hcreated
      rw [empty_union] at hall
      exact hall.tail (.finishPromote _ _)
  exact hpromoted.tail (.dropOld _ _)

theorem reaches_applied (prev : Sync) (new : Staged) :
    Reaches prev new ⟨⟨some new.fleetIni, new.scripts, none, .saved new.stateHash⟩,
      new.stateHash, .applied⟩ :=
  .tail (.tail (.tail (reaches_swapped prev new) (.remember _ _)) (.truncate _ _)) (.save _ _)

/-! ### The two sides -/

theorem Covered.of_allOrNothing (h : AllOrNothing prev new) : Covered prev new := by
  have hcleared := reaches_cleared prev new
  refine ⟨?_, ?_, ?_, ?_, ?_⟩
  · exact consistent_mixed_iff.mp (h _ _ hcleared (.inr rfl))
  · exact consistent_new_iff.mp (h _ _ (reaches_swapped prev new) (.inr rfl))
  · intro hcause
    have hfailed : Reaches prev new ⟨⟨some new.fleetIni, prev.managed.scripts, none,
        prev.managed.appliedState⟩, prev.currentHash, .failed⟩ := by
      cases hscripts : prev.managed.scripts with
      | some live =>
        rw [hscripts] at hcleared
        exact hcleared.tail (.failAside _ _ live rfl)
      | none =>
        have hfiles := hcause.resolve_left (not_not.mpr hscripts)
        have hrestoring := reaches_restoring prev hfiles
        rw [hscripts] at hrestoring
        exact hrestoring.tail (.nothingToRestore _ _ rfl)
    exact consistent_mixed_iff.mp (h _ _ hfailed (.inl ⟨rfl, rfl⟩))
  · intro hscripts hfiles
    obtain ⟨live, hlive⟩ := ne_none_iff_exists'.mp hscripts
    have hfailed := (reaches_restoring prev hfiles).tail (.failRestore _ _ live hlive)
    refine (consistent_partly_iff hscripts.symm ?_).mp (h _ _ hfailed (.inl ⟨rfl, rfl⟩))
    rw [scripts, if_neg hfiles]
    exact (some_ne_none _).symm
  · intro hscripts hfiles
    have hcreated := (reaches_promoting prev new).tail (.createScripts _ _ _ hfiles)
    have hend := h _ _ hcreated (.inr rfl)
    rw [start_of_none hscripts] at hend
    refine (consistent_partly_iff ?_ ?_).mp hend
    · rw [hscripts]
      exact some_ne_none _
    · rw [scripts, if_neg hfiles]
      exact fun he => hfiles (some.inj he).symm

/-- An apply is all or nothing over exactly the states that it covers. -/
theorem allOrNothing_iff (prev : Sync) (new : Staged) :
    AllOrNothing prev new ↔ Covered prev new := by
  refine ⟨Covered.of_allOrNothing, fun hc s x hs hend => ?_⟩
  have hknown := known_of_reaches hs
  obtain ⟨hstage, rfl⟩ | rfl := hend
  · exact hc.consistent_failed hknown hstage
  · exact hc.consistent_start hknown

/-- The process stops between the rename of `fleet.ini` and the move of the scripts: the next
start finds no `scripts.old` and keeps the hash of the old state over the new `fleet.ini`. -/
theorem stop_after_renameIni :
    Reaches ⟨⟨some "old", some {("a", "1")}, none, .saved "h0"⟩, "h0"⟩ ⟨"new", {("b", "2")}, "h1"⟩
      ⟨⟨some "new", some {("a", "1")}, none, .saved "h0"⟩, "h0", .renamed⟩ ∧
    ¬ Consistent ⟨⟨some "old", some {("a", "1")}, none, .saved "h0"⟩, "h0"⟩
      ⟨"new", {("b", "2")}, "h1"⟩
      (start ⟨some "new", some {("a", "1")}, none, .saved "h0"⟩) := by
  refine ⟨.tail .refl (.renameIni _ _), ?_⟩
  rw [start_of_none rfl, consistent_mixed_iff]
  decide

end Points

end Nscp.Onboarding.Fleet
