import Mathlib.Data.List.Sublists
import Nscp.Filter.SimpleExpression

/-!
# Path overrides

A path token is answered from the command line, from `boot.ini` or from the built-in
defaults, in that order, and the answer may contain tokens itself.  `validateOverrides` drops
the overrides that do not come to a path with a root.  It judges them one after the other,
each against what is left at that moment.
-/

namespace Nscp.Service

open List
open SimpleExpression (Entry)

abbrev PathText := List Char

/-- The overrides of one source, in the order of their keys. -/
abbrev PathMap := List (PathText × PathText)

/-- The answers of the installation and its file system. -/
structure Installation where
  basePath : PathText
  tempPath : PathText
  /-- `default_for`; an empty answer is none. -/
  defaultFor : PathText → PathText
  namesARoot : PathText → Bool
  holdsNrpeDhParams : PathText → Bool

structure PathManager where
  cliOverrides : PathMap
  overrides : PathMap
  deriving DecidableEq

namespace PathManager

variable (env : Installation)

def getPathForKey (key : PathText) (nrpeDh : Except PathText PathText) :
    Except PathText PathText :=
  if key = "base-path".toList ∨ key = "exe-path".toList then .ok env.basePath
  else if key = "temp".toList then .ok env.tempPath
  else if key = "nrpe-dh".toList then nrpeDh
  else if env.defaultFor key ≠ [] then .ok (env.defaultFor key)
  else .error ("Unknown path token $\x7b".toList ++ key ++
    ("\x7d: no such path is configured. Check the spelling, or define it in the [paths] " ++
      "section of boot.ini.").toList)

def resolveFolder (m : PathManager) (key : PathText) (nrpeDh : Except PathText PathText) :
    Except PathText PathText :=
  match m.cliOverrides.lookup key with
  | some value => .ok value
  | none =>
    match m.overrides.lookup key with
    | some value => .ok value
    | none => getPathForKey env key nrpeDh

def resolveNrpeDh (m : PathManager) (expand : PathText → Except PathText PathText) :
    Except PathText PathText := do
  let modern ← expand (← resolveFolder env m "modern-nrpe-dh".toList (.ok []))
  if env.holdsNrpeDhParams modern then return modern
  expand (← resolveFolder env m "legacy-nrpe-dh".toList (.ok []))

def expandPathImpl (m : PathManager) : ℕ → PathText → Except PathText PathText
  | 0, _ => .ok []
  | levels + 1, file =>
    if file.isEmpty ∨ file = "none".toList then .ok file
    else
      (SimpleExpression.parse file).foldlM (fun ret e =>
        if !e.isVariable then .ok (ret ++ e.name)
        else do
          let folder ← resolveFolder env m e.name (resolveNrpeDh env m
            (match levels with
              | 0 => fun _ => .ok []
              | fewer + 1 => expandPathImpl m fewer))
          return ret ++ (← expandPathImpl m levels folder)) []

def expandPath (m : PathManager) (file : PathText) : Except PathText PathText :=
  expandPathImpl env m 33 file

def usable (m : PathManager) (value : PathText) : Bool :=
  match expandPath env m value with
  | .ok resolved => !resolved.isEmpty && env.namesARoot resolved
  | .error _ => false

end PathManager

def dropUnusable (usable : PathMap → PathText → Bool) (kept : PathMap) : PathMap → PathMap
  | [] => kept
  | e :: rest =>
    if usable (kept ++ e :: rest) e.2 then dropUnusable usable (kept ++ [e]) rest
    else dropUnusable usable kept rest

namespace PathManager

variable (env : Installation)

def validateOverrides (m : PathManager) : PathManager :=
  let cli := dropUnusable (fun map => usable env ⟨map, m.overrides⟩) [] m.cliOverrides
  ⟨cli, dropUnusable (fun map => usable env ⟨cli, map⟩) [] m.overrides⟩

end PathManager

/-! ## One pass -/

section Pass

variable {judge : PathMap → PathText → Bool} {kept rest : PathMap}

/-- What holds between what has passed and what is still to be judged, step by step. -/
theorem dropUnusable_invariant (judge : PathMap → PathText → Bool) (kept rest : PathMap)
    {P : PathMap → PathMap → Prop} (h : P kept rest)
    (hpass : ∀ kept e rest, P kept (e :: rest) → judge (kept ++ e :: rest) e.2 = true →
      P (kept ++ [e]) rest)
    (hdrop : ∀ kept e rest, P kept (e :: rest) → judge (kept ++ e :: rest) e.2 = false →
      P kept rest) : P (dropUnusable judge kept rest) [] := by
  induction rest generalizing kept with
  | nil => exact h
  | cons e rest ih =>
    rw [dropUnusable]
    split_ifs with he
    · exact ih _ (hpass kept e rest h he)
    · exact ih _ (hdrop kept e rest h (by simpa using he))

theorem dropUnusable_eq_self (h : ∀ e ∈ rest, judge (kept ++ rest) e.2 = true) :
    dropUnusable judge kept rest = kept ++ rest := by
  induction rest generalizing kept with
  | nil => simp [dropUnusable]
  | cons e rest ih =>
    obtain ⟨he, hrest⟩ := forall_mem_cons.mp h
    rw [dropUnusable, if_pos he, ih (by simpa using hrest)]
    simp

end Pass

/-! ## Both passes -/

namespace PathManager

variable {env : Installation} {m : PathManager}

/-- The overrides in the order in which they are judged. -/
def entries (m : PathManager) : PathMap := m.cliOverrides ++ m.overrides

def without (m : PathManager) (i : ℕ) : PathManager :=
  if i < m.cliOverrides.length then ⟨m.cliOverrides.eraseIdx i, m.overrides⟩
  else ⟨m.cliOverrides, m.overrides.eraseIdx (i - m.cliOverrides.length)⟩

/-- Among any of the overrides, those before the first unusable one are usable without it too. -/
def Independent (env : Installation) (m : PathManager) : Prop :=
  ∀ cli ∈ m.cliOverrides.sublists, ∀ boot ∈ m.overrides.sublists,
    let m' : PathManager := ⟨cli, boot⟩
    let usables := m'.entries.takeWhile (m'.usable env ·.2)
    ∀ e ∈ usables, (m'.without usables.length).usable env e.2 = true

/-- A pass over a map that stands behind `front` keeps what it has passed usable, and `front`. -/
theorem Independent.usable_dropUnusable (h : Independent env m) (place : PathMap → PathManager)
    (front back map : PathMap) (hentries : ∀ map, (place map).entries = front ++ map ++ back)
    (hwithin : ∀ map', map'.Sublist map → (place map').cliOverrides.Sublist m.cliOverrides ∧
      (place map').overrides.Sublist m.overrides)
    (hwithout : ∀ kept u rest, (place (kept ++ u :: rest)).without (front ++ kept).length =
      place (kept ++ rest))
    (hfront : ∀ e ∈ front, (place map).usable env e.2 = true) :
    let kept := dropUnusable (fun map => usable env (place map)) [] map
    kept.Sublist map ∧ ∀ e ∈ front ++ kept, (place kept).usable env e.2 = true := by
  have hpass := dropUnusable_invariant (fun map => usable env (place map)) [] map
    (P := fun kept rest => (kept ++ rest).Sublist map ∧
      ∀ e ∈ front ++ kept, (place (kept ++ rest)).usable env e.2 = true)
    ⟨.refl _, by simpa using hfront⟩ ?_ ?_
  · simpa using hpass
  · rintro kept e rest ⟨hsub, hkept⟩ he
    rw [append_assoc, singleton_append]
    refine ⟨hsub, fun e' he' => ?_⟩
    rw [← append_assoc, mem_append, mem_singleton] at he'
    rcases he' with he' | rfl
    · exact hkept e' he'
    · exact he
  · rintro kept e rest ⟨hsub, hkept⟩ he
    refine ⟨((sublist_cons_self e rest).append_left kept).trans hsub, ?_⟩
    have husables : (place (kept ++ e :: rest)).entries.takeWhile
        ((place (kept ++ e :: rest)).usable env ·.2) = front ++ kept := by
      rw [hentries, ← append_assoc, append_assoc _ _ back, takeWhile_append_of_pos hkept,
        cons_append, takeWhile_cons_of_neg (by simp [he]), append_nil]
    have hdrop := h _ (mem_sublists.mpr (hwithin _ hsub).1) _ (mem_sublists.mpr (hwithin _ hsub).2)
    simp only [husables, hwithout] at hdrop
    exact hdrop

theorem usable_of_mem_validateOverrides (h : Independent env m) :
    ∀ e ∈ (m.validateOverrides env).entries, (m.validateOverrides env).usable env e.2 = true := by
  obtain ⟨hsub, hcli⟩ := h.usable_dropUnusable (fun map => ⟨map, m.overrides⟩) [] m.overrides
    m.cliOverrides (fun map => rfl) (fun map hmap => ⟨hmap, .refl _⟩)
    (fun kept u rest => by simp [without, eraseIdx_append_of_length_le]) (forall_mem_nil _)
  rw [validateOverrides]
  generalize dropUnusable _ [] m.cliOverrides = cli at hsub hcli ⊢
  exact (h.usable_dropUnusable (fun map => ⟨cli, map⟩) cli [] m.overrides
    (fun map => by simp [entries]) (fun map hmap => ⟨hsub, hmap⟩)
    (fun kept u rest => by simp [without, eraseIdx_append_of_length_le])
    (by simpa using hcli)).2

theorem validateOverrides_eq_self (h : ∀ e ∈ m.entries, m.usable env e.2 = true) :
    m.validateOverrides env = m := by
  have hcli : dropUnusable (fun map => usable env ⟨map, m.overrides⟩) [] m.cliOverrides =
      m.cliOverrides :=
    dropUnusable_eq_self fun e he => h e (mem_append_left _ he)
  have hboot : dropUnusable (fun map => usable env ⟨m.cliOverrides, map⟩) [] m.overrides =
      m.overrides :=
    dropUnusable_eq_self fun e he => h e (mem_append_right _ he)
  rw [validateOverrides, hcli, hboot]

def bareInstallation : Installation where
  basePath := "/opt".toList
  tempPath := "/tmp".toList
  defaultFor key := if key = ['c'] then "/c".toList else []
  namesARoot path := path.head? = some '/'
  holdsNrpeDhParams _ := false

end PathManager

end Nscp.Service
