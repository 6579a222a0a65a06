import Mathlib

/-!
# File trees and path walks

A tree of files, directories and symbolic links, and the walk by which a POSIX system finds what a
path names: element by element from a directory, a link being replaced by its target.  A path none
of whose leading parts is a link is found where its elements say.
-/

namespace FileTree

open List

abbrev Name := List Char

inductive Node
  | file (id : ℕ)
  | link (target : List Char)
  | dir (searchable : Bool) (entries : List (Name × Node))

/-- The node at a place, links not being followed. -/
def Node.nodeAt : Node → List Name → Option Node
  | node, [] => some node
  | .dir _ entries, name :: names =>
    match entries.lookup name with
    | none => none
    | some node => node.nodeAt names
  | _, _ :: _ => none

inductive Errno
  | noEntry
  | notDirectory
  | loop
  | accessDenied
  deriving DecidableEq

inductive Entered
  | place (loc : List Name)
  | link (target : List Char)
  | failed (e : Errno)

/-- One element from a place.  An empty element, as between two slashes or behind the last one,
asks for a directory. -/
def enter (root : Node) (loc : List Name) (element : Name) : Entered :=
  match root.nodeAt loc with
  | some (.dir searchable _) =>
    if element = [] then .place loc
    else if !searchable then .failed .accessDenied
    else if element = ['.'] then .place loc
    else if element = ['.', '.'] then .place loc.dropLast
    else
      match root.nodeAt (loc ++ [element]) with
      | none => .failed .noEntry
      | some (.link target) => .link target
      | some _ => .place (loc ++ [element])
  | _ => .failed .notDirectory

/-- The walk with a rule for links.  A link in the last place may be what is asked for. -/
def walkWith (root : Node) (onLink : List Name → List Char → List Name → Except Errno (List Name))
    (followLast : Bool) : List Name → List Name → Except Errno (List Name)
  | loc, [] => .ok loc
  | loc, element :: rest =>
    match enter root loc element with
    | .place loc' => walkWith root onLink followLast loc' rest
    | .failed e => .error e
    | .link target =>
      if rest = [] && !followLast then .ok (loc ++ [element]) else onLink loc target rest

def walk (root : Node) (followLast : Bool) : ℕ → List Name → List Name → Except Errno (List Name)
  | 0 => walkWith root (fun _ _ _ => .error .loop) followLast
  | links + 1 =>
    walkWith root (fun loc target rest =>
      if target = [] then .error .noEntry
      else walk root followLast links (if target.head? = some '/' then [] else loc)
        (target.splitOn '/' ++ rest)) followLast

structure System where
  root : Node
  cwd : List Name

def maxLinks : ℕ := 40

def System.locate (s : System) (followLast : Bool) (path : List Char) :
    Except Errno (List Name) :=
  if path = [] then .error .noEntry
  else walk s.root followLast maxLinks (if path.head? = some '/' then [] else s.cwd)
    (path.splitOn '/')

def cString (path : List Char) : List Char :=
  path.takeWhile (· ≠ '\x00')

def elements (path : List Char) : List Name :=
  (path.splitOn '/').filter fun element => element ≠ [] ∧ element ≠ ['.']

/-! ## One element -/

section Lemmas

variable {root : Node} {loc loc' path xs ys : List Name} {element : Name} {target : List Char}

theorem nodeAt_of_enter_link (h : enter root loc element = .link target) :
    root.nodeAt (loc ++ [element]) = some (.link target) := by
  rw [enter] at h
  split at h
  · split_ifs at h
    split at h
    · cases h
    · next t hnode =>
        cases h
        exact hnode
    · cases h
  · cases h

theorem place_of_enter (h : enter root loc element = .place loc') (hne : element ≠ ['.', '.']) :
    loc' = loc ++ [element].filter fun element => element ≠ [] ∧ element ≠ ['.'] := by
  rw [enter] at h
  split at h
  · split_ifs at h with hnil hsearch hdot
    · cases h
      simp [hnil]
    · cases h
      simp [hdot]
    · split at h
      · cases h
      · cases h
      · cases h
        simp [hnil, hdot]
  · cases h

/-! ## Walks -/

variable {onLink onLink' : List Name → List Char → List Name → Except Errno (List Name)}
  {followLast : Bool} {e : Errno}

/-- A walk that fails does so with more elements behind. -/
theorem walkWith_append_of_error
    (hlink : ∀ loc target rest, onLink loc target rest = .error e →
      onLink loc target (rest ++ ys) = .error e)
    (h : walkWith root onLink followLast loc xs = .error e) :
    walkWith root onLink followLast loc (xs ++ ys) = .error e := by
  induction xs generalizing loc with
  | nil => cases h
  | cons x xs ih =>
    rw [walkWith] at h
    rw [cons_append, walkWith]
    split at h
    · exact ih h
    · exact h
    · split_ifs at h with hlast
      have hlast' : ¬ ((xs ++ ys = [] && !followLast) = true) := by
        simp only [Bool.and_eq_true, decide_eq_true_eq, append_eq_nil_iff] at hlast ⊢
        exact fun hboth => hlast ⟨hboth.1.1, hboth.2⟩
      rw [if_neg hlast']
      exact hlink _ _ _ h

theorem walk_append_of_error {links : ℕ} (h : walk root followLast links loc xs = .error e) :
    walk root followLast links loc (xs ++ ys) = .error e := by
  induction links generalizing loc xs with
  | zero => exact walkWith_append_of_error (fun _ _ _ h => h) h
  | succ links ih =>
    rw [walk] at h ⊢
    apply walkWith_append_of_error _ h
    intro loc target rest hrest
    by_cases hnil : target = []
    · rw [if_pos hnil] at hrest ⊢
      exact hrest
    · rw [if_neg hnil] at hrest ⊢
      rw [← append_assoc]
      exact ih hrest

theorem exists_walk_eq (root : Node) (followLast : Bool) (links : ℕ) :
    ∃ onLink, ∀ loc path,
      walk root followLast links loc path = walkWith root onLink followLast loc path := by
  cases links with
  | zero | succ links => exact ⟨_, fun _ _ => rfl⟩

/-- No leading part of the walk ends at a link. -/
def LinkFree (root : Node) (onLink : List Name → List Char → List Name → Except Errno (List Name))
    (loc path : List Name) : Prop :=
  ∀ xs, xs ≠ [] → xs <+: path → ∀ loc' target,
    walkWith root onLink false loc xs = .ok loc' → root.nodeAt loc' ≠ some (.link target)

theorem LinkFree.tail {x : Name} (h : LinkFree root onLink loc (x :: xs))
    (hx : enter root loc x = .place loc') : LinkFree root onLink loc' xs := by
  intro ys hys hlead loc'' target hwalk
  apply h (x :: ys) (cons_ne_nil x ys) (cons_prefix_cons.mpr ⟨rfl, hlead⟩)
  rw [walkWith, hx]
  exact hwalk

/-- Then the rule for links does not matter. -/
theorem LinkFree.walkWith_eq (h : LinkFree root onLink loc path) :
    walkWith root onLink' followLast loc path =
        walkWith root (fun _ _ _ => .error .loop) true loc path ∧
      walkWith root onLink' followLast loc path ≠ .error .loop := by
  induction path generalizing loc with
  | nil => exact ⟨rfl, (nomatch ·)⟩
  | cons x xs ih =>
    rw [walkWith, walkWith]
    cases hx : enter root loc x with
    | place loc' => exact ih (h.tail hx)
    | failed e =>
      refine ⟨rfl, ?_⟩
      rw [enter] at hx
      grind
    | link target =>
      -- the first element alone ends at the link
      have hfirst : walkWith root onLink false loc [x] = .ok (loc ++ [x]) := by
        rw [walkWith, hx]
        rfl
      exact absurd (nodeAt_of_enter_link hx)
        (h [x] (cons_ne_nil x []) (cons_prefix_cons.mpr ⟨rfl, nil_prefix⟩)
          _ target hfirst)

/-- Without links a walk ends where the names of the path say. -/
theorem eq_of_walkWith_ok (hparent : ['.', '.'] ∉ path)
    (h : walkWith root (fun _ _ _ => .error .loop) true loc path = .ok loc') :
    loc' = loc ++ path.filter fun element => element ≠ [] ∧ element ≠ ['.'] := by
  induction path generalizing loc with
  | nil =>
    cases h
    exact (append_nil _).symm
  | cons x xs ih =>
    obtain ⟨hx, hxs⟩ := not_or.mp (mt mem_cons.mpr hparent)
    rw [walkWith] at h
    split at h
    · next mid hmid =>
        rw [ih hxs h, place_of_enter hmid (Ne.symm hx), append_assoc, ← filter_append,
          singleton_append]
    · cases h
    · simp at h

end Lemmas

end FileTree
