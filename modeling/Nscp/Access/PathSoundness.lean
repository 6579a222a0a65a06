import Nscp.Access.PathGlob

/-!
# What is matched is what is opened

A path accepted in allowed mode is absolute, has no parent element, and is one the allow list
names.  The search for links passes over parts that look like a drive or a server, names which a
POSIX system gives no meaning; if none of those is a link, opening the path reaches the node at it.
-/

namespace Nscp.Access

open List FileTree

/-! ## Leading parts -/

def IsPart (p path : List Char) : Prop :=
  p = path ∨ ∃ rest, path = p ++ '/' :: rest

section Parts

variable {done rest p path mid : List Char}

theorem mem_prefixesFrom (hne : done ++ mid ≠ []) (hmid : IsPart mid rest) :
    done ++ mid ∈ prefixesFrom done rest := by
  induction rest generalizing done mid with
  | nil =>
    rcases hmid with rfl | ⟨tail, htail⟩
    · rw [prefixesFrom, append_nil]
      exact mem_singleton_self done
    · exact absurd htail.symm (by simp)
  | cons c rest ih =>
    cases mid with
    | nil =>
      -- the part ends here, at a separator
      rw [append_nil] at hne ⊢
      have hc : c = '/' := by
        rcases hmid with h | ⟨tail, htail⟩
        · cases h
        · exact (List.cons.inj htail).1
      rw [prefixesFrom, if_pos ⟨hc, hne⟩]
      exact mem_cons_self
    | cons d mid =>
      have hstep : d = c ∧ IsPart mid rest := by
        rcases hmid with h | ⟨tail, htail⟩
        · cases h
          exact ⟨rfl, .inl rfl⟩
        · cases htail
          exact ⟨rfl, .inr ⟨tail, rfl⟩⟩
      obtain ⟨rfl, htail⟩ := hstep
      have hne' : done ++ [d] ++ mid ≠ [] := by simp
      have hin := ih hne' htail
      rw [← append_cons] at hin
      rw [prefixesFrom]
      split_ifs
      · exact mem_cons_of_mem done hin
      · exact hin

theorem isPrefix_of_mem_prefixesFrom (h : p ∈ prefixesFrom done rest) : done <+: p := by
  induction rest generalizing done with
  | nil =>
    obtain rfl := mem_singleton.mp h
    exact prefix_rfl
  | cons c rest ih =>
    have hrest : p ∈ prefixesFrom (done ++ [c]) rest → done <+: p :=
      fun h => (prefix_append done [c]).trans (ih h)
    rw [prefixesFrom] at h
    split_ifs at h
    · rcases mem_cons.mp h with rfl | h
      · exact prefix_rfl
      · exact hrest h
    · exact hrest h

theorem pairwise_prefixesFrom (done rest : List Char) :
    (prefixesFrom done rest).Pairwise fun p q => ∃ tail, q = p ++ '/' :: tail := by
  induction rest generalizing done with
  | nil => exact pairwise_singleton _ done
  | cons c rest ih =>
    rw [prefixesFrom]
    split_ifs with hc
    · refine pairwise_cons.mpr ⟨fun q hq => ?_, ih _⟩
      obtain ⟨tail, rfl⟩ := isPrefix_of_mem_prefixesFrom hq
      refine ⟨tail, ?_⟩
      rw [hc.1, append_assoc, singleton_append]
    · exact ih _

theorem isPart_of_mem_prefixesFrom (h : p ∈ prefixesFrom done rest) :
    IsPart p (done ++ rest) := by
  induction rest generalizing done with
  | nil =>
    obtain rfl := mem_singleton.mp h
    exact .inl (append_nil p).symm
  | cons c rest ih =>
    have hrest : p ∈ prefixesFrom (done ++ [c]) rest → IsPart p (done ++ c :: rest) := by
      intro h
      rw [append_cons]
      exact ih h
    rw [prefixesFrom] at h
    split_ifs at h with hc
    · rcases mem_cons.mp h with rfl | h
      · exact .inr ⟨rest, by rw [hc.1]⟩
      · exact hrest h
    · exact hrest h

theorem exists_isPart {xs : List Name} (hne : xs ≠ []) (hxs : xs <+: path.splitOn '/') :
    ∃ p, IsPart p path ∧ p.splitOn '/' = xs := by
  obtain ⟨ys, hys⟩ := hxs
  have hslash : ∀ x ∈ xs ++ ys, '/' ∉ x := fun x hx => Text.not_mem_of_mem_splitOn (hys ▸ hx)
  have hsplit : (['/'].intercalate xs).splitOn '/' = xs := by
    apply splitOn_intercalate _ _ hne
    exact fun x hx => hslash x (mem_append_left ys hx)
  refine ⟨['/'].intercalate xs, ?_, hsplit⟩
  by_cases hnil : ys = []
  · apply Or.inl
    apply Text.splitOn_injective '/'
    rw [hsplit, ← hys, hnil, append_nil]
  · refine .inr ⟨['/'].intercalate ys, ?_⟩
    apply Text.splitOn_injective '/'
    rw [splitOn_append_cons_self, hsplit, splitOn_intercalate _ _ hnil, hys]
    exact fun x hx => hslash x (mem_append_right xs hx)

theorem IsPart.subset (h : IsPart p path) : p ⊆ path := by
  rcases h with rfl | ⟨tail, rfl⟩
  · exact List.Subset.refl _
  · exact subset_append_left _ _

end Parts

variable {path : List Char}

theorem cString_of_not_mem (h : '\x00' ∉ path) : cString path = path := by
  apply takeWhile_eq_self_iff.mpr
  intro c hc
  rw [decide_eq_true_eq]
  rintro rfl
  exact h hc

/-! ## The search for links -/

section Links

variable {fs : System} {p q path : List Char}

theorem locate_eq (fs : System) (followLast : Bool) (hp : p ≠ []) :
    fs.locate followLast p = walk fs.root followLast maxLinks
      (if p.head? = some '/' then [] else fs.cwd) (p.splitOn '/') := by
  rw [System.locate, if_neg hp]

theorem symlinkStatus_of_notFound (hnul : '\x00' ∉ p ++ '/' :: q) (hp : p ≠ [])
    (h : symlinkStatus fs p = .notFound) : symlinkStatus fs (p ++ '/' :: q) ≠ .symlink := by
  have hnul' : '\x00' ∉ p := fun hmem => hnul (mem_append_left _ hmem)
  have hhead : (p ++ '/' :: q).head? = p.head? := head?_append_of_ne_nil _ hp
  rw [symlinkStatus, cString_of_not_mem hnul', locate_eq fs false hp] at h
  rw [symlinkStatus, cString_of_not_mem hnul, locate_eq fs false (by simp [hp]), hhead,
    splitOn_append_cons_self]
  cases hwalk : walk fs.root false maxLinks (if p.head? = some '/' then [] else fs.cwd)
      (p.splitOn '/') with
  | error e =>
    rw [walk_append_of_error hwalk]
    cases e <;> exact (nomatch ·)
  | ok loc =>
    rw [hwalk, fileType] at h
    split at h <;> cases h

theorem not_symlink_of_anySymlink {ps : List (List Char)}
    (hpairs : ps.Pairwise fun p q => ∃ tail, q = p ++ '/' :: tail)
    (hnul : ∀ p ∈ ps, '\x00' ∉ p)
    (hskipped : ∀ p ∈ ps, isRootName p = true → symlinkStatus fs p ≠ .symlink)
    (h : anySymlink fs ps = false) : ∀ p ∈ ps, symlinkStatus fs p ≠ .symlink := by
  induction ps with
  | nil => exact fun _ hp => (nomatch hp)
  | cons p ps ih =>
    obtain ⟨hext, hpairs⟩ := pairwise_cons.mp hpairs
    obtain ⟨-, hnul⟩ := forall_mem_cons.mp hnul
    obtain ⟨hfirst, hskipped⟩ := forall_mem_cons.mp hskipped
    rw [anySymlink] at h
    split_ifs at h with hroot
    · exact forall_mem_cons.mpr ⟨hfirst hroot, ih hpairs hnul hskipped h⟩
    · have hne : p ≠ [] := by
        rintro rfl
        exact hroot rfl
      split at h
      · next hnone =>
          refine forall_mem_cons.mpr ⟨?_, fun q hq => ?_⟩
          · rw [hnone]
            exact (nomatch ·)
          · obtain ⟨tail, rfl⟩ := hext q hq
            exact symlinkStatus_of_notFound (hnul _ hq) hne hnone
      · cases h
      · cases h
      · next hlink =>
          exact forall_mem_cons.mpr ⟨hlink, ih hpairs hnul hskipped h⟩

theorem not_symlink_of_isPart (hnul : '\x00' ∉ path)
    (hskipped : ∀ p, IsPart p path → isRootName p = true → symlinkStatus fs p ≠ .symlink)
    (h : hasSymlinkElement fs path = false) (hp : IsPart p path) :
    symlinkStatus fs p ≠ .symlink := by
  by_cases hne : p = []
  · exact hskipped p hp (by rw [hne]; rfl)
  · apply not_symlink_of_anySymlink (pairwise_prefixesFrom [] path) _ _ h
    · have hmem : [] ++ p ∈ prefixesFrom [] path := mem_prefixesFrom hne hp
      exact hmem
    · intro q hq hmem
      exact hnul ((isPart_of_mem_prefixesFrom hq).subset hmem)
    · intro q hq
      exact hskipped q (isPart_of_mem_prefixesFrom hq)

theorem linkFree_of_not_symlink {onLink : List Name → List Char → List Name →
      Except Errno (List Name)}
    (honLink : ∀ loc xs, walk fs.root false maxLinks loc xs = walkWith fs.root onLink false loc xs)
    (hnul : '\x00' ∉ path) (habs : path.head? = some '/')
    (h : ∀ p, IsPart p path → symlinkStatus fs p ≠ .symlink) :
    LinkFree fs.root onLink [] (path.splitOn '/') := by
  intro xs hne hxs loc target hwalk hlink
  obtain ⟨p, hp, rfl⟩ := exists_isPart hne hxs
  by_cases hnil : p = []
  · -- nothing but the root
    subst hnil
    change walkWith fs.root onLink false [] [[]] = .ok loc at hwalk
    rw [walkWith, enter] at hwalk
    cases hroot : fs.root with
    | dir searchable entries =>
      rw [hroot] at hwalk hlink
      cases hwalk
      cases hlink
    | file id | link target =>
      rw [hroot] at hwalk
      cases hwalk
  · have hhead : p.head? = some '/' := by
      rcases hp with rfl | ⟨tail, rfl⟩
      · exact habs
      · rwa [head?_append_of_ne_nil _ hnil] at habs
    apply h p hp
    rw [symlinkStatus, cString_of_not_mem fun hmem => hnul (hp.subset hmem),
      locate_eq fs false hnil, if_pos hhead, honLink, hwalk, fileType, hlink]

theorem openFile_eq (hnul : '\x00' ∉ path) (habs : path.head? = some '/')
    (h : ∀ p, IsPart p path → symlinkStatus fs p ≠ .symlink) :
    openFile fs path = walk fs.root true 0 [] (path.splitOn '/') ∧
      openFile fs path ≠ .error .loop := by
  obtain ⟨onLink, honLink⟩ := exists_walk_eq fs.root false maxLinks
  obtain ⟨onLink', honLink'⟩ := exists_walk_eq fs.root true maxLinks
  have hne : path ≠ [] := by
    rintro rfl
    cases habs
  rw [openFile, cString_of_not_mem hnul, locate_eq fs true hne, if_pos habs, honLink']
  exact (linkFree_of_not_symlink honLink hnul habs h).walkWith_eq

end Links

/-! ## The allow list -/

def Below (dir path : List Char) : Prop :=
  dir.head? = some '/' ∧ elements dir <+: elements path

theorem elements_append_cons (p q : List Char) :
    elements (p ++ '/' :: q) = elements p ++ elements q := by
  rw [elements, splitOn_append_cons_self, filter_append, elements, elements]

theorem below_of_isUnder {dir file : List Char} (habs : file.head? = some '/')
    (h : isUnder dir file = true) : Below dir file := by
  rw [isUnder] at h
  split_ifs at h with hnil hsame hlen htake hlast
  · subst hsame
    exact ⟨habs, prefix_rfl⟩
  · obtain ⟨rest, rfl⟩ := prefix_iff_eq_take.mpr (not_not.mp htake).symm
    refine ⟨(head?_append_of_ne_nil dir hnil).symm.trans habs, ?_⟩
    obtain ⟨init, rfl⟩ := getLast?_eq_some_iff.mp hlast
    have hroot : elements (init ++ ['/']) = elements init ++ [] := elements_append_cons init []
    rw [hroot, append_assoc, singleton_append, elements_append_cons, append_nil]
    exact prefix_append _ _
  · obtain ⟨rest, rfl⟩ := prefix_iff_eq_take.mpr (not_not.mp htake).symm
    refine ⟨(head?_append_of_ne_nil dir hnil).symm.trans habs, ?_⟩
    rw [getElem?_append_right le_rfl, Nat.sub_self, decide_eq_true_eq] at h
    obtain ⟨tail, rfl⟩ : ∃ tail, rest = '/' :: tail := by
      cases rest with
      | nil => cases h
      | cons c rest => exact ⟨rest, by rw [Option.some.inj h]⟩
    rw [elements_append_cons]
    exact prefix_append _ _

def Entry.Allows (path : List Char) : Entry → Prop
  | .directory text => Below text path
  | .glob text => GlobMatches text path

theorem allows_of_matchesAllowList {policy : PathPolicy} (habs : path.head? = some '/')
    (h : policy.matchesAllowList path = true) : ∃ e ∈ policy.entries, e.Allows path := by
  obtain ⟨e, he, hmatch⟩ := any_eq_true.mp h
  refine ⟨e, he, ?_⟩
  cases e with
  | directory text => exact below_of_isUnder habs hmatch
  | glob text => exact (regexMatch_globToRegex text path).mp hmatch

/-! ## The contract of the policy -/

/-- The policy accepts the path in allowed mode, not as a predefined name. -/
def Accepts (fs : System) (r : Resolver) (policy : PathPolicy) (token v : List Char) : Prop :=
  policy.base.mode = .allowed ∧ policy.base.predefined token = none ∧
    policy.resolve fs r token = .ok v

/-- What is matched is what is opened. -/
structure Sound (fs : System) (policy : PathPolicy) (v : List Char) : Prop where
  absolute : v.head? = some '/'
  noParent : ['.', '.'] ∉ v.splitOn '/'
  noLink : ∀ p, IsPart p v → symlinkStatus fs p ≠ .symlink
  text : cString v = v
  followsNone : openFile fs v = walk fs.root true 0 [] (v.splitOn '/') ∧
    openFile fs v ≠ .error .loop
  reached : ∀ loc, openFile fs v = .ok loc → loc = elements v
  allowed : ∃ e ∈ policy.entries, e.Allows v

theorem head_of_isAbsolute (h : isAbsolute path = true) : path.head? = some '/' := by
  unfold isAbsolute at h
  split at h
  · rfl
  · cases h
  · rfl
  · cases h

section Accepted

variable {fs : System} {r : Resolver} {policy : PathPolicy} {token v : List Char}

theorem of_accepts (h : Accepts fs r policy token v) :
    v.head? = some '/' ∧ ['.', '.'] ∉ v.splitOn '/' ∧ hasSymlinkElement fs v = false ∧
      policy.matchesAllowList v = true := by
  obtain ⟨hmode, hnone, hresolve⟩ := h
  rw [PathPolicy.resolve, hnone] at hresolve
  dsimp only at hresolve
  split_ifs at hresolve
  rw [hmode] at hresolve
  dsimp only at hresolve
  cases hphys : resolvePhysical fs r token with
  | error why =>
    rw [hphys] at hresolve
    cases hresolve
  | ok resolved =>
    rw [hphys] at hresolve
    dsimp only at hresolve
    split_ifs at hresolve with hmatch
    cases hresolve
    rw [resolvePhysical] at hphys
    split_ifs at hphys
    split at hphys
    · cases hphys
    · split_ifs at hphys with habs hparent hlinks
      cases hphys
      obtain ⟨-, habs⟩ := not_or.mp habs
      refine ⟨head_of_isAbsolute (Bool.not_eq_false _ ▸ habs), ?_, ?_, hmatch⟩
      · rw [hasParentElement, decide_eq_true_eq] at hparent
        exact hparent
      · exact Bool.not_eq_true _ ▸ hlinks

theorem sound_of_accepts (h : Accepts fs r policy token v) (hnul : '\x00' ∉ v)
    (hskipped : ∀ p, IsPart p v → isRootName p = true → symlinkStatus fs p ≠ .symlink) :
    Sound fs policy v := by
  obtain ⟨habs, hparent, hlinks, hmatch⟩ := of_accepts h
  have hnone : ∀ p, IsPart p v → symlinkStatus fs p ≠ .symlink :=
    fun p hp => not_symlink_of_isPart hnul hskipped hlinks hp
  obtain ⟨hopen, hloop⟩ := openFile_eq hnul habs hnone
  refine ⟨habs, hparent, hnone, cString_of_not_mem hnul, ⟨hopen, hloop⟩, fun loc hloc => ?_,
    allows_of_matchesAllowList habs hmatch⟩
  rw [hopen] at hloc
  exact eq_of_walkWith_ok hparent hloc

/-- The path names what the system is given, and no part that the search passes over is a link. -/
def Examined (fs : System) (v : List Char) : Prop :=
  '\x00' ∉ v ∧ ∀ p, IsPart p v → isRootName p = true → symlinkStatus fs p ≠ .symlink

/-- What the policy accepts is what is opened, for exactly the requests whose accepted path has no
link where the search does not look. -/
theorem sound_iff_examined (fs : System) (r : Resolver) (policy : PathPolicy)
    (token : List Char) :
    (∀ v, Accepts fs r policy token v → Sound fs policy v) ↔
      ∀ v, Accepts fs r policy token v → Examined fs v := by
  constructor
  · intro h v hv
    have hsound := h v hv
    refine ⟨fun hmem => ?_, fun p hp _ => hsound.noLink p hp⟩
    have hstop := takeWhile_eq_self_iff.mp hsound.text '\x00' hmem
    exact absurd hstop (by decide)
  · intro h v hv
    obtain ⟨hnul, hskipped⟩ := h v hv
    exact sound_of_accepts hv hnul hskipped

end Accepted

/-- A directory `l` that holds a link named `o:` to a directory outside of it. -/
def linkedSystem : System where
  root := .dir true [(['l'], .dir true [(['o', ':'], .link ['/', 'e'])]),
    (['e'], .dir true [(['s'], .file 0)])]
  cwd := []

/-- The missing `n` and the parent element behind it cancel by text alone. -/
def textualResolver : Resolver where
  weaklyCanonical path :=
    if path = "/l/n/../o:/s".toList then .ok "/l/o:/s".toList else .ok path
  lexicallyNormal path := path

def directoryPolicy : PathPolicy :=
  PathPolicy.setAllowList linkedSystem textualResolver
    ⟨{ settingsPath := "/settings/logfile".toList, mode := .allowed }, []⟩
    "/l".toList

/-- A link whose name ends in a colon is passed over as if it were a drive, and the file outside the
allowed directory is opened. -/
theorem colonLink_accepted :
    Accepts linkedSystem textualResolver directoryPolicy "/l/n/../o:/s".toList
        "/l/o:/s".toList ∧
      openFile linkedSystem "/l/o:/s".toList = .ok [['e'], ['s']] ∧
      ¬ Sound linkedSystem directoryPolicy "/l/o:/s".toList := by
  refine ⟨⟨rfl, rfl, by decide +kernel⟩, by decide +kernel, fun h => ?_⟩
  exact h.noLink "/l/o:".toList (.inr ⟨['s'], rfl⟩) (by decide +kernel)

end Nscp.Access
