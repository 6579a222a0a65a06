import Nscp.Library.Runs
import Nscp.Library.Table
import Nscp.Library.Text

/-!
# The command registry

`commands` keeps four tables: the plugins by their id, the commands and the aliases by
their lower case name, and one table of descriptions that commands and aliases share.  A
name resolves to its command and, failing that, to its alias.  The tables agree after an
operation exactly when no alias is put over another plugin's command and no command is
taken away from over an alias that stays.
-/

namespace Nscp.Service

open AList Option Table

/-- A loaded plugin, as far as the service asks it. -/
structure Plugin where
  id : ℕ
  getAlias : List Char
  getModule : List Char
  getName : List Char
  hasCommandHandler : Bool
  deriving DecidableEq

/-- `pluginId` is not set in the answer for a name without description. -/
structure CommandInfo where
  description : List Char := []
  pluginId : Option ℕ := none
  name : List Char := []
  experimental : Bool := false
  deriving DecidableEq

structure Commands where
  plugins : Table ℕ Plugin := ∅
  descriptions : Table (List Char) CommandInfo := ∅
  commands : Table (List Char) Plugin := ∅
  aliases : Table (List Char) Plugin := ∅

namespace Commands

def makeKey (key : List Char) : List Char := Text.toLower key

def addPlugin (s : Commands) (plugin : Plugin) : Commands :=
  if plugin.hasCommandHandler then { s with plugins := s.plugins.insert plugin.id plugin } else s

/-- The descriptions after a pass over the commands or aliases of a plugin that goes: a
description that another plugin has taken over stays. -/
def dropDescriptions (id : ℕ) (owned : Table (List Char) Plugin)
    (descriptions : Table (List Char) CommandInfo) : Table (List Char) CommandInfo :=
  owned.entries.foldl (fun t e =>
    if decide (e.2.id = id) &&
        (t.lookup e.1).any (fun info => decide (info.pluginId = some id)) then
      t.erase e.1
    else t) descriptions

section

variable (s : Commands)

def removePlugin (id : ℕ) : Commands where
  plugins := s.plugins.erase id
  descriptions := dropDescriptions id s.aliases (dropDescriptions id s.commands s.descriptions)
  commands := filter (fun _ p => decide (p.id ≠ id)) s.commands
  aliases := filter (fun _ p => decide (p.id ≠ id)) s.aliases

def allPluginIds : List Char :=
  (s.plugins.keys.toFinset.sort (· ≤ ·)).flatMap fun id =>
    match s.plugins.lookup id with
    | some plugin => Text.decimal id ++ '(' :: plugin.getModule ++ "), ".toList
    | none => []

def notFound (id : ℕ) : List Char :=
  "Failed to find plugin: ".toList ++ Text.decimal id ++ " \x7b".toList ++ s.allPluginIds ++
    "\x7d".toList

/-- `command_exception` is the error.  A command of another plugin is taken over. -/
def registerCommand (id : ℕ) (cmd desc : List Char) (experimental : Bool) :
    Except (List Char) Commands :=
  match s.plugins.lookup id with
  | none => .error (s.notFound id)
  | some plugin => .ok { s with
      descriptions := s.descriptions.insert (makeKey cmd) ⟨desc, some id, cmd, experimental⟩
      commands := s.commands.insert (makeKey cmd) plugin }

def unregisterCommand (id : ℕ) (cmd : List Char) : Except (List Char) Commands :=
  if (s.plugins.lookup id).isNone then .error (s.notFound id)
  else if (s.commands.lookup (makeKey cmd)).any (fun p => decide (p.id = id)) then
    .ok { s with
      commands := s.commands.erase (makeKey cmd)
      descriptions :=
        if (s.descriptions.lookup (makeKey cmd)).any (fun info => decide (info.pluginId = some id))
        then s.descriptions.erase (makeKey cmd) else s.descriptions }
  else .ok s

def registerAlias (id : ℕ) (cmd desc : List Char) (experimental : Bool) :
    Except (List Char) Commands :=
  match s.plugins.lookup id with
  | none => .error (s.notFound id)
  | some plugin => .ok { s with
      descriptions := s.descriptions.insert (makeKey cmd) ⟨desc, some id, cmd, experimental⟩
      aliases := s.aliases.insert (makeKey cmd) plugin }

def describe (command : List Char) : CommandInfo :=
  match s.descriptions.lookup (makeKey command) with
  | none => { description := "Command not found: ".toList ++ command }
  | some info => info

def listAll : List (List Char) := s.descriptions.keys.toFinset.sort (· ≤ ·)

def get (command : List Char) : Option Plugin :=
  (s.commands.lookup (makeKey command)).or (s.aliases.lookup (makeKey command))

end

/-! ## Runs -/

inductive Op where
  | addPlugin (plugin : Plugin)
  | registerCommand (id : ℕ) (cmd desc : List Char) (experimental : Bool)
  | registerAlias (id : ℕ) (cmd desc : List Char) (experimental : Bool)
  | unregisterCommand (id : ℕ) (cmd : List Char)
  | removePlugin (id : ℕ)

/-- An operation that throws leaves the registry as it was. -/
def step (s : Commands) : Op → Commands
  | .addPlugin plugin => s.addPlugin plugin
  | .registerCommand id cmd desc experimental =>
    (s.registerCommand id cmd desc experimental).toOption.getD s
  | .registerAlias id cmd desc experimental =>
    (s.registerAlias id cmd desc experimental).toOption.getD s
  | .unregisterCommand id cmd => (s.unregisterCommand id cmd).toOption.getD s
  | .removePlugin id => s.removePlugin id

def run (ops : List Op) : Commands := ops.foldl step {}

/-- What is listed resolves and what resolves is listed, under the id of the plugin it
resolves to, and that plugin is there. -/
structure Consistent (s : Commands) : Prop where
  listed : ∀ name, makeKey name ∈ s.listAll ↔ (s.get name).isSome = true
  described : ∀ name p, s.get name = some p → (s.describe name).pluginId = some p.id
  present : ∀ name p, makeKey name ∈ s.listAll → s.get name = some p → p.id ∈ s.plugins

/-- An alias may cover a command of its own plugin only, and a command that goes must not
leave an alias behind. -/
def Safe (s : Commands) : Op → Prop
  | .registerAlias id cmd _ _ => id ∈ s.plugins →
      ∀ p, s.commands.lookup (makeKey cmd) = some p → p.id = id
  | .unregisterCommand id cmd => id ∈ s.plugins →
      ∀ p, s.commands.lookup (makeKey cmd) = some p → p.id = id →
        s.aliases.lookup (makeKey cmd) = none
  | .removePlugin id => ∀ name p a, s.commands.lookup (makeKey name) = some p → p.id = id →
      s.aliases.lookup (makeKey name) = some a → a.id = id
  | _ => True

/-! ## What a step does -/

variable {s s' : Commands} (id : ℕ) (cmd desc : List Char) (experimental : Bool) {key k : List Char}

theorem mem_plugins_iff {id : ℕ} : id ∈ s.plugins ↔ ∃ p, s.plugins.lookup id = some p := by
  rw [← lookup_isSome, isSome_iff_exists]

theorem step_registerCommand :
    (id ∉ s.plugins ∧ s.step (.registerCommand id cmd desc experimental) = s) ∨
      ∃ p, s.plugins.lookup id = some p ∧
        s.step (.registerCommand id cmd desc experimental) = { s with
          descriptions := s.descriptions.insert (makeKey cmd) ⟨desc, some id, cmd, experimental⟩
          commands := s.commands.insert (makeKey cmd) p } := by
  rw [step, registerCommand]
  cases hp : s.plugins.lookup id with
  | none => exact .inl ⟨lookup_eq_none.mp hp, rfl⟩
  | some p => exact .inr ⟨p, rfl, rfl⟩

theorem step_registerAlias :
    (id ∉ s.plugins ∧ s.step (.registerAlias id cmd desc experimental) = s) ∨
      ∃ p, s.plugins.lookup id = some p ∧
        s.step (.registerAlias id cmd desc experimental) = { s with
          descriptions := s.descriptions.insert (makeKey cmd) ⟨desc, some id, cmd, experimental⟩
          aliases := s.aliases.insert (makeKey cmd) p } := by
  rw [step, registerAlias]
  cases hp : s.plugins.lookup id with
  | none => exact .inl ⟨lookup_eq_none.mp hp, rfl⟩
  | some p => exact .inr ⟨p, rfl, rfl⟩

/-- Unregistering does nothing, for a plugin that is not there or does not own the command,
or takes the command and the description as long as it is the plugin's own. -/
theorem step_unregisterCommand (cmd : List Char) :
    ((id ∈ s.plugins → ∀ p, s.commands.lookup (makeKey cmd) = some p → p.id ≠ id) ∧
        s.step (.unregisterCommand id cmd) = s) ∨
      id ∈ s.plugins ∧ ∃ p, s.commands.lookup (makeKey cmd) = some p ∧ p.id = id ∧
        s.step (.unregisterCommand id cmd) = { s with
          commands := s.commands.erase (makeKey cmd)
          descriptions :=
            if (s.descriptions.lookup (makeKey cmd)).any
              (fun info => decide (info.pluginId = some id))
            then s.descriptions.erase (makeKey cmd) else s.descriptions } := by
  rw [step, unregisterCommand]
  cases hplugin : s.plugins.lookup id with
  | none =>
    exact .inl ⟨fun h => absurd h (lookup_eq_none.mp hplugin), rfl⟩
  | some q =>
    have hmem := mem_plugins_iff.mpr ⟨q, hplugin⟩
    rcases hp : s.commands.lookup (makeKey cmd) with _ | p
    · exact .inl ⟨fun _ p h => (by cases h), rfl⟩
    by_cases hid : p.id = id
    · refine .inr ⟨hmem, p, rfl, hid, ?_⟩
      simp [hid, Except.toOption]
    · refine .inl ⟨fun _ p' h => ?_, ?_⟩
      · cases h
        exact hid
      · simp [hid, Except.toOption]

theorem lookup_dropDescriptions (owned : Table (List Char) Plugin)
    (descriptions : Table (List Char) CommandInfo) (key : List Char) :
    (dropDescriptions id owned descriptions).lookup key =
      if (owned.lookup key).any (fun p => decide (p.id = id)) then
        (descriptions.lookup key).filter (fun info => !decide (info.pluginId = some id))
      else descriptions.lookup key :=
  lookup_foldl_erase_if (fun p : Plugin => decide (p.id = id))
    (fun info : CommandInfo => decide (info.pluginId = some id)) owned.nodupKeys descriptions key

/-! ## Plugins of registered names -/

structure Known (s : Commands) : Prop where
  own : ∀ id p, s.plugins.lookup id = some p → p.id = id
  commands : ∀ key p, s.commands.lookup key = some p → p.id ∈ s.plugins
  aliases : ∀ key p, s.aliases.lookup key = some p → p.id ∈ s.plugins

theorem known_empty : Known {} where
  own _ _ h := by cases h
  commands _ _ h := by cases h
  aliases _ _ h := by cases h

theorem Known.mem_of_lookup_insert (h : s.Known) {id : ℕ} {p : Plugin}
    (hp : s.plugins.lookup id = some p) {t : Table (List Char) Plugin}
    (ht : ∀ key q, t.lookup key = some q → q.id ∈ s.plugins) {q : Plugin}
    (hq : (t.insert k p).lookup key = some q) : q.id ∈ s.plugins := by
  rw [lookup_insert_eq_if] at hq
  split at hq
  next =>
    cases hq
    rw [h.own id p hp]
    exact mem_plugins_iff.mpr ⟨p, hp⟩
  next => exact ht key q hq

/-- An operation registers names for a plugin that is kept, and a plugin goes with its names. -/
theorem Known.step (h : s.Known) (op : Op) : (s.step op).Known := by
  cases op with
  | addPlugin plugin =>
    rw [Commands.step, addPlugin]
    split
    next =>
      refine ⟨fun id p hp => ?_, fun key p hp => ?_, fun key p hp => ?_⟩
      · rw [lookup_insert_eq_if] at hp
        split at hp
        next heq =>
          cases hp
          exact heq.symm
        next => exact h.own id p hp
      · exact (mem_insert _).mpr (.inr (h.commands key p hp))
      · exact (mem_insert _).mpr (.inr (h.aliases key p hp))
    next => exact h
  | registerCommand id cmd desc experimental =>
    rcases step_registerCommand (s := s) id cmd desc experimental with ⟨-, heq⟩ | ⟨p, hp, heq⟩
    · rwa [heq]
    · rw [heq]
      exact ⟨h.own, fun key q hq => h.mem_of_lookup_insert hp h.commands hq, h.aliases⟩
  | registerAlias id cmd desc experimental =>
    rcases step_registerAlias (s := s) id cmd desc experimental with ⟨-, heq⟩ | ⟨p, hp, heq⟩
    · rwa [heq]
    · rw [heq]
      exact ⟨h.own, h.commands, fun key q hq => h.mem_of_lookup_insert hp h.aliases hq⟩
  | unregisterCommand id cmd =>
    rcases step_unregisterCommand (s := s) id cmd with ⟨-, heq⟩ | ⟨-, p, -, -, heq⟩
    · rwa [heq]
    · rw [heq]
      refine ⟨h.own, fun key q hq => ?_, h.aliases⟩
      rw [lookup_erase_eq_if] at hq
      split at hq
      next => cases hq
      next => exact h.commands key q hq
  | removePlugin id =>
    have hkept : ∀ {t : Table (List Char) Plugin},
        (∀ key q, t.lookup key = some q → q.id ∈ s.plugins) → ∀ key q,
        (filter (fun _ p => decide (p.id ≠ id)) t).lookup key = some q →
          q.id ∈ s.plugins.erase id := by
      intro t ht key q hq
      rw [lookup_filter, filter_eq_some_iff, decide_eq_true_iff] at hq
      exact mem_erase.mpr ⟨hq.2, ht key q hq.1⟩
    refine ⟨fun i p hp => ?_, hkept h.commands, hkept h.aliases⟩
    rw [Commands.step, removePlugin, lookup_erase_eq_if] at hp
    split at hp
    next => cases hp
    next => exact h.own i p hp

/-! ## Consistency at one key -/

/-- The description of a key is that of the plugin the key resolves to. -/
def AgreesAt (s : Commands) (key : List Char) : Prop :=
  (s.descriptions.lookup key).map (·.pluginId) =
    ((s.commands.lookup key).or (s.aliases.lookup key)).map fun p => some p.id

theorem mem_listAll : key ∈ s.listAll ↔ (s.descriptions.lookup key).isSome = true := by
  rw [listAll, Finset.mem_sort, List.mem_toFinset, lookup_isSome]
  exact mem_keys.symm

theorem consistent_iff (hs : s.Known) : s.Consistent ↔ ∀ name, s.AgreesAt (makeKey name) := by
  constructor
  · intro h name
    have hlisted := h.listed name
    have hdescribed := h.described name
    rw [mem_listAll] at hlisted
    rw [describe] at hdescribed
    rw [AgreesAt]
    change _ = Option.map _ (s.get name)
    cases hdesc : s.descriptions.lookup (makeKey name) with
    | none =>
      cases hget : s.get name with
      | none => rfl
      | some p => simp [hdesc, hget] at hlisted
    | some info =>
      rcases hget : s.get name with _ | p
      · simp [hdesc, hget] at hlisted
      simp only [hdesc] at hdescribed
      rw [map_some, map_some, hdescribed p hget]
  · intro h
    refine ⟨fun name => ?_, fun name p hp => ?_, fun name p _ hp => ?_⟩
    · have := congrArg isSome (h name)
      rw [isSome_map, isSome_map] at this
      rw [mem_listAll, this]
      rfl
    · have hname : _ = Option.map _ (s.get name) := h name
      rw [hp, map_some, map_eq_some_iff] at hname
      obtain ⟨info, hinfo, hid⟩ := hname
      rw [describe, hinfo]
      exact hid
    · rcases or_eq_some_iff.mp hp with hp | ⟨-, hp⟩
      · exact hs.commands _ p hp
      · exact hs.aliases _ p hp

theorem forall_agreesAt_iff (cmd : List Char) (h : ∀ name, s.AgreesAt (makeKey name))
    (hother : ∀ key ≠ makeKey cmd, s'.AgreesAt key ↔ s.AgreesAt key) :
    (∀ name, s'.AgreesAt (makeKey name)) ↔ s'.AgreesAt (makeKey cmd) := by
  refine ⟨fun h' => h' cmd, fun h' name => ?_⟩
  by_cases hname : makeKey name = makeKey cmd
  · rwa [hname]
  · exact (hother _ hname).mpr (h name)

section

variable (hs : s.Known) (h : ∀ name, s.AgreesAt (makeKey name)) (id : ℕ) (cmd desc : List Char)
  (experimental : Bool)
include hs h

theorem agreesAt_registerCommand (name : List Char) :
    (s.step (.registerCommand id cmd desc experimental)).AgreesAt (makeKey name) := by
  rcases step_registerCommand (s := s) id cmd desc experimental with ⟨-, heq⟩ | ⟨p, hp, heq⟩
  · rw [heq]
    exact h name
  · rw [heq]
    revert name
    refine (forall_agreesAt_iff cmd h fun key hkey => ?_).mpr ?_
    · simp [AgreesAt, lookup_insert_eq_if, if_neg hkey]
    · simp [AgreesAt, hs.own id p hp]

theorem agreesAt_registerAlias_iff :
    (∀ name, (s.step (.registerAlias id cmd desc experimental)).AgreesAt (makeKey name)) ↔
      s.Safe (.registerAlias id cmd desc experimental) := by
  rw [Safe]
  rcases step_registerAlias (s := s) id cmd desc experimental with ⟨hid, heq⟩ | ⟨p, hp, heq⟩
  · rw [heq]
    exact iff_of_true h fun hmem => absurd hmem hid
  · rw [heq, forall_agreesAt_iff cmd h fun key hkey => by
      simp only [AgreesAt, lookup_insert_eq_if, if_neg hkey]]
    rw [imp_iff_right (mem_plugins_iff.mpr ⟨p, hp⟩)]
    simp only [AgreesAt, lookup_insert, map_some]
    cases hcommand : s.commands.lookup (makeKey cmd) with
    | none => simp [hs.own id p hp]
    | some q => simp [eq_comm]

end

theorem agreesAt_unregisterCommand_iff (h : ∀ name, s.AgreesAt (makeKey name)) (id : ℕ)
    (cmd : List Char) :
    (∀ name, (s.step (.unregisterCommand id cmd)).AgreesAt (makeKey name)) ↔
      s.Safe (.unregisterCommand id cmd) := by
  rw [Safe]
  rcases step_unregisterCommand (s := s) id cmd with ⟨hid, heq⟩ | ⟨hmem, p, hp, hid, heq⟩
  · rw [heq]
    exact iff_of_true h fun hmem p hp hown => absurd hown (hid hmem p hp)
  · -- the description is the command's, so it goes with the command
    have hdesc := h cmd
    rw [AgreesAt, hp, some_or, map_some, hid, map_eq_some_iff] at hdesc
    obtain ⟨info, hinfo, hown⟩ := hdesc
    have hany : (s.descriptions.lookup (makeKey cmd)).any
        (fun info => decide (info.pluginId = some id)) = true := by
      rw [hinfo, any_some, hown, decide_eq_true rfl]
    rw [heq, if_pos hany, forall_agreesAt_iff cmd h fun key hkey => by
      simp only [AgreesAt, lookup_erase_eq_if, if_neg hkey]]
    rw [imp_iff_right hmem]
    simp only [AgreesAt, lookup_erase, hp, some.injEq, forall_eq', hid]
    simp [eq_comm]

theorem agreesAt_removePlugin_iff (h : s.AgreesAt key) (id : ℕ) :
    (s.step (.removePlugin id)).AgreesAt key ↔ ∀ p a, s.commands.lookup key = some p → p.id = id →
        s.aliases.lookup key = some a → a.id = id := by
  rw [AgreesAt] at h
  simp only [AgreesAt, step, removePlugin, lookup_dropDescriptions, lookup_filter]
  cases hp : s.commands.lookup key with
  | none =>
    rcases ha : s.aliases.lookup key with _ | a
    · simpa [hp, ha] using h
    simp only [hp, ha, Option.none_or, Option.map_some, Option.map_eq_some_iff] at h
    obtain ⟨info, hinfo, hown⟩ := h
    by_cases haid : a.id = id
    all_goals simp [hinfo, hown, haid, Option.filter]
  | some p =>
    simp only [hp, Option.some_or, Option.map_some, Option.map_eq_some_iff] at h
    obtain ⟨info, hinfo, hown⟩ := h
    by_cases hpid : p.id = id
    all_goals
      cases ha : s.aliases.lookup key with
      | none => simp [hinfo, hown, hpid, Option.filter]
      | some a => by_cases haid : a.id = id <;> simp [hinfo, hown, hpid, haid, Option.filter]

/-! ## Consistency over runs -/

theorem consistent_step_iff (hs : s.Known) (h : s.Consistent) (op : Op) :
    (s.step op).Consistent ↔ s.Safe op := by
  rw [consistent_iff (hs.step op)]
  rw [consistent_iff hs] at h
  cases op with
  | addPlugin plugin =>
    refine iff_of_true (fun name => ?_) trivial
    rw [step, addPlugin]
    split
    next => exact h name
    next => exact h name
  | registerCommand id cmd desc experimental =>
    exact iff_of_true (agreesAt_registerCommand hs h id cmd desc experimental) trivial
  | registerAlias id cmd desc experimental =>
    exact agreesAt_registerAlias_iff hs h id cmd desc experimental
  | unregisterCommand id cmd => exact agreesAt_unregisterCommand_iff h id cmd
  | removePlugin id => exact forall_congr' fun name => agreesAt_removePlugin_iff (h name) id

theorem consistent_empty : Consistent {} :=
  (consistent_iff known_empty).mpr fun _ => rfl

/-- The registry is consistent after every operation of a run if and only if every
operation is safe where it is done. -/
theorem consistent_run_iff (ops : List Op) :
    (∀ l, l <+: ops → (run l).Consistent) ↔ ∀ l op, l ++ [op] <+: ops → (run l).Safe op :=
  Runs.forall_prefix_iff (f := step) (I := Known) (P := Consistent) (Q := Safe)
    (fun _ op hs => hs.step op) (fun _ op hs h => consistent_step_iff hs h op)
    known_empty consistent_empty ops

/-- An alias of one plugin over the command of another is described as the alias and
resolves to the command; a command taken away from over an alias leaves a name that
resolves and is not listed. -/
theorem consistent_run_overlap :
    let a : Plugin := ⟨1, [], "A".toList, "A".toList, true⟩
    let b : Plugin := ⟨2, [], "B".toList, "B".toList, true⟩
    let x := "x".toList
    let taken := run [.addPlugin a, .addPlugin b, .registerCommand 1 x [] false,
      .registerAlias 2 x [] false]
    let left := run [.addPlugin a, .registerAlias 1 x [] false, .registerCommand 1 x [] false,
      .unregisterCommand 1 x]
    taken.get x = some a ∧ (taken.describe x).pluginId = some 2 ∧
      left.get x = some a ∧ left.listAll = [] := by
  decide +kernel

end Commands
end Nscp.Service
