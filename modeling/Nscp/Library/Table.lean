import Mathlib

/-!
# Finite tables

Finite maps as association lists without repeated keys, with the bulk operations a
loop over a `std::map` performs: dropping entries, rewriting values and writing the
entries of one table into another.  Each operation is described by what a lookup finds
afterwards.
-/

abbrev Table (α β : Type) := AList fun _ : α => β

namespace Table

open AList List

variable {α β γ : Type} [DecidableEq α]

variable (t : Table α β) {entries : List (Sigma fun _ : α => β)}

theorem lookup_insert_eq_if (a k : α) (b : β) :
    (t.insert a b).lookup k = if k = a then some b else t.lookup k := by
  by_cases h : k = a
  · rw [if_pos h, h, lookup_insert]
  · rw [if_neg h, lookup_insert_ne h]

theorem lookup_erase_eq_if (a k : α) :
    (t.erase a).lookup k = if k = a then none else t.lookup k := by
  by_cases h : k = a
  · rw [if_pos h, h, lookup_erase]
  · rw [if_neg h, lookup_erase_ne h]

theorem mem_entries_lookup {t : Table α β} {k : α} {b : β} :
    (⟨k, b⟩ : Sigma fun _ : α => β) ∈ t.entries ↔ t.lookup k = some b :=
  mem_lookup_iff.symm

omit [DecidableEq α] in
theorem length_entries : t.entries.length = t.keys.length :=
  (length_map Sigma.fst).symm

theorem length_erase_add_one {t : Table α β} {e : Sigma fun _ : α => β} (he : e ∈ t.entries) :
    (t.erase e.1).entries.length + 1 = t.entries.length := by
  have hkey : e.1 ∈ t.keys := mem_map_of_mem he
  have hpos := length_pos_of_mem hkey
  rw [length_entries, length_entries, keys_erase, length_erase_of_mem hkey]
  omega

theorem length_erase_le (a : α) : (t.erase a).entries.length ≤ t.entries.length :=
  List.Sublist.length_le (kerase_sublist a t.entries)

theorem length_insert_le (a : α) (b : β) :
    (t.insert a b).entries.length ≤ t.entries.length + 1 := by
  rw [entries_insert, length_cons]
  exact Nat.succ_le_succ (length_erase_le t a)


def filter (p : α → β → Bool) (t : Table α β) : Table α β :=
  ⟨t.entries.filter fun e => p e.1 e.2, List.NodupKeys.sublist filter_sublist t.nodupKeys⟩

theorem lookup_filter (p : α → β → Bool) (t : Table α β) (k : α) :
    (filter p t).lookup k = (t.lookup k).filter (p k) := by
  ext b
  rw [← mem_entries_lookup, Option.filter_eq_some_iff, filter, mem_filter, mem_entries_lookup]

def mapValues (f : α → β → γ) (t : Table α β) : Table α γ :=
  ⟨t.entries.map fun e => ⟨e.1, f e.1 e.2⟩, by
    have hkeys : (t.entries.map fun e => (⟨e.1, f e.1 e.2⟩ : Sigma fun _ : α => γ)).keys =
        t.entries.keys := by
      simp [List.keys, Function.comp_def]
    rw [List.NodupKeys, hkeys]
    exact t.nodupKeys⟩

theorem lookup_mapValues (f : α → β → γ) (t : Table α β) (k : α) :
    (mapValues f t).lookup k = (t.lookup k).map (f k) := by
  ext c
  rw [← mem_entries_lookup, Option.map_eq_some_iff, mapValues]
  constructor
  · intro h
    obtain ⟨⟨a, b⟩, hb, heq⟩ := mem_map.mp h
    cases heq
    exact ⟨b, mem_entries_lookup.mp hb, rfl⟩
  · rintro ⟨b, hb, rfl⟩
    exact mem_map.mpr ⟨⟨k, b⟩, mem_entries_lookup.mpr hb, rfl⟩

theorem lookup_foldl_erase (keys : List α) (t : Table α β) (k : α) :
    (keys.foldl (fun t a => t.erase a) t).lookup k = if k ∈ keys then none else t.lookup k := by
  induction keys generalizing t with
  | nil => simp
  | cons a keys ih =>
    rw [foldl_cons, ih, lookup_erase_eq_if]
    by_cases hk : k ∈ keys
    · simp [hk]
    · simp [hk, mem_cons]

/-- Writing entries one after another: what is written for a key replaces what was
there. -/
theorem lookup_foldl_insert (f : β → Option γ) (hentries : entries.NodupKeys) (t : Table α γ)
    (k : α) : (entries.foldl (fun t e => ((f e.2).map (t.insert e.1)).getD t) t).lookup k =
      ((entries.dlookup k).bind f).or (t.lookup k) := by
  induction entries generalizing t with
  | nil => simp
  | cons e entries ih =>
    obtain ⟨a, b⟩ := e
    rw [nodupKeys_cons] at hentries
    rw [foldl_cons, ih hentries.2]
    by_cases hk : k = a
    · subst hk
      have hnone : entries.dlookup k = none := dlookup_eq_none.mpr hentries.1
      rw [hnone, dlookup_cons_eq]
      cases hb : f b with
      | none => simp [hb]
      | some c => simp [hb]
    · rw [dlookup_cons_ne _ _ hk]
      cases f b with
      | none => rfl
      | some c => simp [lookup_insert_ne hk]

/-- A pass over one table that erases keys from another: the keys with a `p` entry in the
first lose a `q` entry in the second. -/
theorem lookup_foldl_erase_if (p : β → Bool) (q : γ → Bool) (hentries : entries.NodupKeys)
    (t : Table α γ) (k : α) : (entries.foldl
        (fun t e => if p e.2 && (t.lookup e.1).any q then t.erase e.1 else t) t).lookup k =
      if (entries.dlookup k).any p then (t.lookup k).filter (!q ·) else t.lookup k := by
  induction entries generalizing t with
  | nil => rfl
  | cons e entries ih =>
    obtain ⟨a, b⟩ := e
    rw [nodupKeys_cons] at hentries
    rw [foldl_cons, ih hentries.2]
    by_cases hk : k = a
    · subst hk
      have hnone : entries.dlookup k = none := dlookup_eq_none.mpr hentries.1
      rw [hnone, dlookup_cons_eq]
      cases hb : p b with
      | false => simp [hb]
      | true =>
        cases hlookup : t.lookup k with
        | none => simp [hb, hlookup]
        | some c => cases hc : q c <;> simp [hb, hlookup, hc, Option.filter]
    · have hother : ∀ c : Bool, (if c then t.erase a else t).lookup k = t.lookup k := fun c => by
        cases c with
        | false => rfl
        | true => rw [if_pos rfl, lookup_erase_ne hk]
      rw [dlookup_cons_ne _ _ hk, hother]

/-! ## Weights -/

def total (w : β → ℕ) (t : Table α β) : ℕ := (t.entries.map fun e => w e.2).sum

theorem total_erase (w : β → ℕ) (t : Table α β) (a : α) :
    total w (t.erase a) + ((t.lookup a).map w).getD 0 = total w t := by
  change ((t.entries.kerase a).map fun e => w e.2).sum + ((t.entries.dlookup a).map w).getD 0 = _
  rw [total]
  generalize t.entries = entries
  induction entries with
  | nil => rfl
  | cons e entries ih =>
    obtain ⟨k, b⟩ := e
    by_cases h : a = k
    · subst h
      have hkerase : List.kerase a (⟨a, b⟩ :: entries) = entries := kerase_cons_eq rfl
      rw [hkerase, dlookup_cons_eq, map_cons, sum_cons]
      exact Nat.add_comm _ _
    · rw [kerase_cons_ne h, dlookup_cons_ne _ _ h, map_cons, sum_cons,
        map_cons, sum_cons, ← ih, Nat.add_assoc]

theorem total_insert (w : β → ℕ) (t : Table α β) (a : α) (b : β) :
    total w (t.insert a b) = w b + total w (t.erase a) := by
  rw [total, entries_insert, map_cons, sum_cons]
  rfl

end Table
