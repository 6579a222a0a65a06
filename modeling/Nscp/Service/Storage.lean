import Nscp.Library.OrderedMap
import Nscp.Library.Text

/-!
# The plugin storage

Plugins put entries under a context and a key.  The store keeps them in one map under the dotted
text of plugin, context and key, and finds those of a context by a prefix of that text; `save`
writes them to a file that the next start loads.
-/

namespace Nscp.Service.Storage

open OrderedMap List

abbrev Text := List Char

structure Entry (β : Type) where
  context : Text
  key : Text
  value : β

structure Item (β : Type) where
  owner : Text
  entry : Entry β

def mkKey (pluginName context key : Text) : Text :=
  pluginName ++ '.' :: context ++ '.' :: key

def Item.flatKey {β : Type} (item : Item β) : Text :=
  mkKey item.owner item.entry.context item.entry.key

/-- The map and the blocks of the file; a file that is missing has none. -/
structure Manager (β : Type) where
  storage : List (Text × Item β)
  hasChanged : Bool
  file : List (Item β)

namespace Manager

variable {β : Type}

def empty : Manager β :=
  ⟨[], false, []⟩

section

variable (m : Manager β)

def put (pluginName : Text) (entry : Entry β) : Manager β :=
  { m with
    storage :=
      insert (mkKey pluginName entry.context entry.key) ⟨pluginName, entry⟩ m.storage
    hasChanged := true }

def get (pluginName context : Text) : List (Entry β) :=
  (m.storage.filter fun v => mkKey pluginName context [] <+: v.1).map fun v => v.2.entry

def save : Manager β :=
  if m.hasChanged then { m with file := m.storage.map Prod.snd } else m

def load : Manager β :=
  { m with
    storage := m.file.foldl (fun s item => insert item.flatKey item s) m.storage
    hasChanged := false }

def restart : Manager β :=
  load { m with storage := [], hasChanged := false }

end

end Manager

open Nscp.Service.Storage.Manager

inductive Op (β : Type)
  | put (pluginName : Text) (entry : Entry β)
  | save
  | restart

def Manager.step {β : Type} (m : Manager β) : Op β → Manager β
  | .put pluginName entry => m.put pluginName entry
  | .save => m.save
  | .restart => m.restart

def Manager.run {β : Type} (ops : List (Op β)) : Manager β :=
  ops.foldl step empty

/-! ## The map the storage stands for -/

abbrev Contents (β : Type) := Text → Text → Text → Option β

structure Spec (β : Type) where
  live : Contents β
  saved : Contents β

namespace Spec

variable {β : Type}

def step (s : Spec β) : Op β → Spec β
  | .put pluginName entry =>
    { s with
      live := fun p c k =>
        if p = pluginName ∧ c = entry.context ∧ k = entry.key then some entry.value
        else s.live p c k }
  | .save => { s with saved := s.live }
  | .restart => { s with live := s.saved }

def run (ops : List (Op β)) : Spec β :=
  ops.foldl step ⟨fun _ _ _ => none, fun _ _ _ => none⟩

end Spec

/-- What a plugin gets for a context is one entry for each of its keys there, with the value
last put, and nothing else. -/
def Exact {β : Type} (m : Manager β) (contents : Contents β) (pluginName context : Text) : Prop :=
  ((m.get pluginName context).map Entry.key).Nodup ∧ ∀ e, e ∈ m.get pluginName context ↔
      e.context = context ∧ contents pluginName context e.key = some e.value

/-! ## Dotted keys -/

section Dots

variable {p c k p' c' k' : Text}

def DotFree (pluginName context key : Text) : Prop :=
  '.' ∉ pluginName ∧ '.' ∉ context ∧ '.' ∉ key

theorem mkKey_eq (p c k : Text) : mkKey p c k = p ++ '.' :: (c ++ '.' :: k) := by
  rw [mkKey, append_assoc, cons_append]

theorem prefix_iff {f : Text} : mkKey p c [] <+: f ↔ ∃ k, f = mkKey p c k := by
  have hcut : ∀ k, mkKey p c [] ++ k = mkKey p c k := fun k => by
    rw [mkKey, mkKey, append_assoc, singleton_append]
  constructor
  all_goals
    rintro ⟨k, rfl⟩
    exact ⟨k, hcut k⟩

theorem count_mkKey (p c k : Text) :
    (mkKey p c k).count '.' = p.count '.' + c.count '.' + k.count '.' + 2 := by
  rw [mkKey_eq, count_append, count_cons_self, count_append, count_cons_self]
  omega

theorem dotFree_iff : DotFree p c k ↔ (mkKey p c k).count '.' = 2 := by
  rw [count_mkKey, DotFree, ← count_eq_zero, ← count_eq_zero, ← count_eq_zero]
  omega

theorem field_inj {a b a' b' : Text} (ha : '.' ∉ a) (ha' : '.' ∉ a')
    (h : a ++ '.' :: b = a' ++ '.' :: b') : a = a' ∧ b = b' := by
  have hfield := congrArg (List.takeWhile (· ≠ '.')) h
  rw [Text.takeWhile_append_cons ha, Text.takeWhile_append_cons ha'] at hfield
  subst hfield
  exact ⟨rfl, tail_eq_of_cons_eq (append_cancel_left h)⟩

theorem mkKey_inj (hfree : DotFree p c k) (h : mkKey p c k = mkKey p' c' k') :
    p = p' ∧ c = c' ∧ k = k' := by
  have hfree' : DotFree p' c' k' := by
    rw [dotFree_iff] at hfree ⊢
    rw [← h, hfree]
  rw [mkKey_eq, mkKey_eq] at h
  obtain ⟨hp, h⟩ := field_inj hfree.1 hfree'.1 h
  exact ⟨hp, field_inj hfree.2.1 hfree'.2.1 h⟩

theorem two_readings (h : ¬ DotFree p c k) :
    ∃ u v w z, mkKey p c k = mkKey u v (w ++ '.' :: z) ∧
      mkKey p c k = mkKey u (v ++ '.' :: w) z := by
  have hshift : ∀ u v w z, mkKey u v (w ++ '.' :: z) = mkKey u (v ++ '.' :: w) z := by
    intro u v w z
    rw [mkKey_eq, mkKey_eq, append_assoc, cons_append]
  have hdot : '.' ∈ p ∨ '.' ∈ c ∨ '.' ∈ k := by
    by_contra hnone
    exact h ⟨fun hp => hnone (Or.inl hp), fun hc => hnone (Or.inr (Or.inl hc)),
      fun hk => hnone (Or.inr (Or.inr hk))⟩
  rcases hdot with hp | hc | hk
  · obtain ⟨a, b, rfl⟩ := append_of_mem hp
    have hread : mkKey (a ++ '.' :: b) c k = mkKey a b (c ++ '.' :: k) := by
      rw [mkKey_eq, mkKey_eq, append_assoc, cons_append]
    exact ⟨a, b, c, k, hread, hread.trans (hshift a b c k)⟩
  · obtain ⟨a, b, rfl⟩ := append_of_mem hc
    exact ⟨p, a, b, k, (hshift p a b k).symm, rfl⟩
  · obtain ⟨a, b, rfl⟩ := append_of_mem hk
    exact ⟨p, c, a, b, rfl, hshift p c a b⟩

end Dots

/-! ## The flat map holds one item for each dotted text -/

section Represents

variable {β : Type} {storage : List (Text × Item β)} {contents : Contents β}

/-- Every item stands under its own dotted text with the value last put, and every dotted text
that was put has an item, though perhaps one of another plugin or context. -/
structure Represents (storage : List (Text × Item β)) (contents : Contents β) : Prop where
  ascending : OrderedMap.Ascending storage
  own : ∀ {f item}, (f, item) ∈ storage → f = item.flatKey ∧
    contents item.owner item.entry.context item.entry.key = some item.entry.value
  held : ∀ {p c k v}, contents p c k = some v → ∃ item, (mkKey p c k, item) ∈ storage

theorem represents_nil : Represents ([] : List (Text × Item β)) fun _ _ _ => none where
  ascending := List.Pairwise.nil
  own := fun h => absurd h not_mem_nil
  held := fun h => nomatch h

theorem Represents.put (h : Represents storage contents) (pluginName : Text) (entry : Entry β) :
    Represents
      (insert (mkKey pluginName entry.context entry.key) ⟨pluginName, entry⟩ storage)
      (fun p c k => if p = pluginName ∧ c = entry.context ∧ k = entry.key then some entry.value
        else contents p c k) := by
  refine ⟨ascending_insert h.ascending _ _, ?_, ?_⟩
  · intro f item hmem
    have hlook := lookup_of_mem (ascending_insert h.ascending _ _) hmem
    rw [lookup_insert] at hlook
    split_ifs at hlook with hf
    · cases hlook
      exact ⟨hf, if_pos ⟨rfl, rfl, rfl⟩⟩
    · obtain ⟨hflat, hvalue⟩ := h.own (mem_of_lookup hlook)
      refine ⟨hflat, ?_⟩
      rw [if_neg ?_, hvalue]
      rintro ⟨hp, hc, hk⟩
      exact hf (by rw [hflat, Item.flatKey, hp, hc, hk])
  · intro p c k v hv
    have hsome : ∃ item, OrderedMap.lookup (mkKey p c k) (OrderedMap.insert
        (mkKey pluginName entry.context entry.key) ⟨pluginName, entry⟩ storage) = some item := by
      rw [lookup_insert]
      by_cases hkey : mkKey p c k = mkKey pluginName entry.context entry.key
      · exact ⟨_, if_pos hkey⟩
      · rw [if_neg hkey]
        rw [if_neg ?_] at hv
        · obtain ⟨item, hitem⟩ := h.held hv
          exact ⟨item, lookup_of_mem h.ascending hitem⟩
        · rintro ⟨rfl, rfl, rfl⟩
          exact hkey rfl
    obtain ⟨item, hitem⟩ := hsome
    exact ⟨item, mem_of_lookup hitem⟩

theorem Represents.load (h : Represents storage contents) :
    (storage.map Prod.snd).foldl (fun s item => insert item.flatKey item s) [] = storage := by
  rw [foldl_map]
  have hkeys : storage.foldl (fun s e => insert e.2.flatKey e.2 s) [] =
      storage.foldl (fun s e => insert e.1 e.2 s) [] :=
    foldl_ext _ _ _ fun s e he => by rw [← (h.own he).1]
  exact hkeys.trans (foldl_insert_of_ascending (m := []) h.ascending)

end Represents

structure Invariant {β : Type} (m : Manager β) (s : Spec β) : Prop where
  storage : Represents m.storage s.live
  file : ∃ saved, m.file = saved.map Prod.snd ∧ Represents saved s.saved
  unchanged : m.hasChanged = false → s.saved = s.live

section Runs

variable {β : Type}

theorem Invariant.step {m : Manager β} {s : Spec β} (h : Invariant m s) (op : Op β) :
    Invariant (m.step op) (s.step op) := by
  cases op with
  | put pluginName entry => exact ⟨h.storage.put pluginName entry, h.file, fun hch => nomatch hch⟩
  | save =>
    cases hch : m.hasChanged with
    | true =>
      have hsave : m.save = { m with file := m.storage.map Prod.snd } := if_pos hch
      rw [Manager.step, hsave]
      exact ⟨h.storage, ⟨m.storage, rfl, h.storage⟩, fun _ => rfl⟩
    | false =>
      have hsave : m.save = m := if_neg (by rw [hch]; exact Bool.false_ne_true)
      have hspec : s.step .save = s := congrArg (Spec.mk s.live) (h.unchanged hch).symm
      rw [Manager.step, hsave, hspec]
      exact h
  | restart =>
    obtain ⟨saved, hfile, hsaved⟩ := h.file
    have hload : m.restart.storage = saved := by
      rw [← hsaved.load, ← hfile]
      rfl
    exact ⟨hload ▸ hsaved, ⟨saved, hfile, hsaved⟩, fun _ => rfl⟩

theorem invariant_run (ops : List (Op β)) : Invariant (run ops) (Spec.run ops) := by
  induction ops using List.reverseRecOn with
  | nil => exact ⟨represents_nil, ⟨[], rfl, represents_nil⟩, fun _ => rfl⟩
  | append_singleton ops op ih =>
    rw [run, Spec.run, foldl_append, foldl_append]
    exact ih.step op

end Runs

/-! ## The storage is a map of plugins, contexts and keys exactly without dots -/

section Exactness

variable {β : Type} {m : Manager β} {contents : Contents β}

theorem mem_get {e : Entry β} {p c : Text} :
    e ∈ m.get p c ↔ ∃ item k, (mkKey p c k, item) ∈ m.storage ∧ item.entry = e := by
  rw [Manager.get, mem_map]
  constructor
  · rintro ⟨⟨f, item⟩, hmem, rfl⟩
    obtain ⟨hmem, hpre⟩ := mem_filter.mp hmem
    obtain ⟨k, rfl⟩ := prefix_iff.mp (of_decide_eq_true hpre)
    exact ⟨item, k, hmem, rfl⟩
  · rintro ⟨item, k, hmem, rfl⟩
    refine ⟨(mkKey p c k, item), mem_filter.mpr ⟨hmem, ?_⟩, rfl⟩
    exact decide_eq_true (prefix_iff.mpr ⟨k, rfl⟩)

section

variable (h : Represents m.storage contents)
  (hfree : ∀ p c k, (contents p c k).isSome → DotFree p c k)
include h hfree

theorem Represents.belongs {p c k : Text} {item : Item β} (hmem : (mkKey p c k, item) ∈ m.storage) :
    item.owner = p ∧ item.entry.context = c ∧ item.entry.key = k := by
  obtain ⟨hflat, hvalue⟩ := h.own hmem
  exact mkKey_inj (hfree _ _ _ (Option.isSome_of_eq_some hvalue)) hflat.symm

theorem Represents.exact (p c : Text) : Exact m contents p c := by
  refine ⟨?_, fun e => ?_⟩
  · rw [Manager.get, map_map, List.Nodup, pairwise_map]
    refine (List.Pairwise.filter _ h.ascending).imp_of_mem fun {x y} hx hy hlt heq => ?_
    obtain ⟨hx, hprex⟩ := mem_filter.mp hx
    obtain ⟨hy, hprey⟩ := mem_filter.mp hy
    obtain ⟨k, hk⟩ := prefix_iff.mp (of_decide_eq_true hprex)
    obtain ⟨k', hk'⟩ := prefix_iff.mp (of_decide_eq_true hprey)
    have hkx : x.2.entry.key = k := (h.belongs hfree (p := p) (c := c) (hk ▸ hx)).2.2
    have hky : y.2.entry.key = k' := (h.belongs hfree (p := p) (c := c) (hk' ▸ hy)).2.2
    refine hlt.ne ?_
    rw [hk, hk', ← hkx, ← hky]
    exact congrArg (mkKey p c) heq
  · rw [mem_get]
    constructor
    · rintro ⟨item, k, hmem, rfl⟩
      obtain ⟨hp, hc, -⟩ := h.belongs hfree hmem
      refine ⟨hc, ?_⟩
      rw [← (h.own hmem).2, hp, hc]
    · rintro ⟨hc, hvalue⟩
      obtain ⟨item, hmem⟩ := h.held hvalue
      obtain ⟨hp', hc', hk'⟩ := h.belongs hfree hmem
      refine ⟨item, e.key, hmem, ?_⟩
      have hv := (h.own hmem).2
      rw [hp', hc', hk', hvalue] at hv
      cases hitem : item.entry with
      | mk context key value =>
        rw [hitem] at hc' hk' hv
        cases e with
        | mk context' key' value' =>
          cases hv
          exact Entry.mk.injEq .. ▸ ⟨hc'.trans hc.symm, hk', rfl⟩

end

theorem Represents.dotFree (h : Represents m.storage contents)
    (hexact : ∀ p c, Exact m contents p c) {p c k : Text} (hlive : (contents p c k).isSome) :
    DotFree p c k := by
  by_contra hdot
  obtain ⟨value, hvalue⟩ := Option.isSome_iff_exists.mp hlive
  obtain ⟨item, hmem⟩ := h.held hvalue
  obtain ⟨u, v, w, z, hshort, hlong⟩ := two_readings hdot
  have hv : item.entry.context = v :=
    (((hexact u v).2 item.entry).mp (mem_get.mpr ⟨item, _, hshort ▸ hmem, rfl⟩)).1
  have hvw : item.entry.context = v ++ '.' :: w :=
    (((hexact u (v ++ '.' :: w)).2 item.entry).mp (mem_get.mpr ⟨item, _, hlong ▸ hmem, rfl⟩)).1
  have hlen := congrArg List.length (hv.symm.trans hvw)
  rw [length_append, length_cons] at hlen
  omega

end Exactness

/-- After any operations, every plugin gets exactly its own entries of every context when and
only when no plugin name, context or key that holds a value has a dot. -/
theorem exact_iff {β : Type} (ops : List (Op β)) :
    (∀ p c, Exact (run ops) (Spec.run ops).live p c) ↔
      ∀ p c k, ((Spec.run ops).live p c k).isSome → '.' ∉ p ∧ '.' ∉ c ∧ '.' ∉ k := by
  have hrep := (invariant_run ops).storage
  constructor
  · intro hexact p c k hlive
    exact hrep.dotFree hexact hlive
  · intro hfree p c
    exact hrep.exact hfree p c

/-- A plugin that put an entry under a dotted context also gets it for the part before the
dot. -/
theorem dottedContext_leaks :
    let ops : List (Op ℕ) := [.put "a".toList ⟨"b.c".toList, "d".toList, 1⟩]
    ¬ Exact (run ops) (Spec.run ops).live "a".toList "b".toList := by
  intro ops hexact
  have hmem : (⟨"b.c".toList, "d".toList, 1⟩ : Entry ℕ) ∈ (run ops).get "a".toList "b".toList :=
    mem_get.mpr ⟨⟨"a".toList, "b.c".toList, "d".toList, 1⟩, "c.d".toList,
      mem_singleton.mpr rfl, rfl⟩
  have hcontext : "b.c".toList = "b".toList := ((hexact.2 _).mp hmem).1
  exact absurd hcontext (by decide)

end Nscp.Service.Storage
