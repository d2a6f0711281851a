import Mathlib.Data.List.AList
import Mathlib.Tactic

/-!
# Sums and fibres of association lists

A table that keeps one entry for each key, and a weight for each entry.  Adding a new key adds its
weight to the total, and erasing a key takes its weight away; the number of keys is the case in
which every entry weighs one.

A table whose keys are pairs is a relation.  Its fibre over a first component is the finite set of
second components that go with it.
-/

namespace Assoc

variable {α : Type} {β : α → Type}

/-- The total weight of the entries. -/
def weigh (weight : Sigma β → Nat) (table : AList β) : Nat :=
  (table.entries.map weight).sum

variable [DecidableEq α] {weight : Sigma β → Nat} {table : AList β} {a : α} {b : β a}

theorem weigh_insert (h : a ∉ table) :
    weigh weight (table.insert a b) = weight ⟨a, b⟩ + weigh weight table := by
  rw [weigh, AList.entries_insert_of_notMem h, List.map_cons, List.sum_cons, weigh]

/-- An entry's weight is part of the total, and the rest is what the table weighs without it. -/
theorem weigh_erase (h : table.lookup a = some b) :
    weigh weight table = weight ⟨a, b⟩ + weigh weight (table.erase a) := by
  have hmem : (⟨a, b⟩ : Sigma β) ∈ table.entries := AList.mem_lookup_iff.mp h
  obtain ⟨other, before, after, -, hentries, herase⟩ :=
    List.exists_of_kerase (List.mem_keys_of_mem hmem)
  -- the entry found under the key is the one `kerase` drops, since keys are unique
  have hother : other = b := by
    have hlookup : table.lookup a = some other := by
      rw [← Option.mem_def, AList.mem_lookup_iff, hentries]
      simp
    exact Option.some.inj (hlookup.symm.trans h)
  have herased : (table.erase a).entries = before ++ after := herase
  simp only [weigh, herased]
  rw [hentries, hother]
  simp only [List.map_append, List.map_cons, List.sum_append, List.sum_cons]
  omega

section Lookup

variable {ρ : Type} (table : AList fun _ : α => ρ) (a key : α)

/-- What is found under a key after another was set. -/
theorem lookup_insert_eq (b : ρ) :
    (table.insert a b).lookup key = if key = a then some b else table.lookup key := by
  split
  · rename_i h
    rw [h, AList.lookup_insert]
  · rename_i h
    exact AList.lookup_insert_ne h

theorem lookup_erase_eq :
    (table.erase a).lookup key = if key = a then none else table.lookup key := by
  split
  · rename_i h
    rw [h, AList.lookup_erase]
  · rename_i h
    exact AList.lookup_erase_ne h

variable {P : α → ρ → Prop} (h : ∀ key value, table.lookup key = some value → P key value)

include h

/-- What every entry satisfies stays so when one is set to a value that satisfies it. -/
theorem forall_lookup_insert {b : ρ} (hb : P a b) (value : ρ)
    (hvalue : (table.insert a b).lookup key = some value) : P key value := by
  rw [lookup_insert_eq] at hvalue
  split at hvalue
  · rename_i hsame
    cases hvalue
    exact hsame ▸ hb
  · exact h key value hvalue

theorem forall_lookup_erase (value : ρ) (hvalue : (table.erase a).lookup key = some value) :
    P key value := by
  rw [lookup_erase_eq] at hvalue
  split at hvalue
  · cases hvalue
  · exact h key value hvalue

end Lookup

theorem mem_entries_insert {entry : Sigma β} :
    entry ∈ (table.insert a b).entries ↔ entry = ⟨a, b⟩ ∨ (entry ∈ table.entries ∧ entry.1 ≠ a) := by
  obtain ⟨key, value⟩ := entry
  rw [← AList.mem_lookup_iff, ← AList.mem_lookup_iff]
  by_cases h : key = a
  · subst h
    simp [eq_comm]
  · rw [AList.lookup_insert_ne h]
    simp [h]

theorem mem_entries_erase {entry : Sigma β} :
    entry ∈ (table.erase a).entries ↔ entry ∈ table.entries ∧ entry.1 ≠ a := by
  obtain ⟨key, value⟩ := entry
  rw [← AList.mem_lookup_iff, ← AList.mem_lookup_iff]
  by_cases h : key = a
  · subst h
    simp
  · rw [AList.lookup_erase_ne h]
    simp [h]

/-! ### Part of a table -/

/-- The entries whose keys pass a test. -/
def filterKeys {α : Type} {β : α → Type} (p : α → Bool) (table : AList β) : AList β where
  entries := table.entries.filter fun entry => p entry.1
  nodupKeys := table.nodupKeys.sublist List.filter_sublist

omit [DecidableEq α] in
theorem mem_filterKeys {p : α → Bool} : a ∈ filterKeys p table ↔ p a = true ∧ a ∈ table := by
  have hkeys : ∀ other : AList β, a ∈ other ↔ ∃ entry ∈ other.entries, entry.1 = a := by
    intro other
    exact List.mem_map
  rw [hkeys, hkeys]
  constructor
  · rintro ⟨entry, hentry, rfl⟩
    obtain ⟨hentry, hp⟩ := List.mem_filter.mp hentry
    exact ⟨hp, entry, hentry, rfl⟩
  · rintro ⟨hp, entry, hentry, rfl⟩
    exact ⟨entry, List.mem_filter.mpr ⟨hentry, hp⟩, rfl⟩

theorem lookup_filterKeys {p : α → Bool} (a : α) :
    (filterKeys p table).lookup a = if p a = true then table.lookup a else none := by
  apply Option.ext
  intro b
  rw [← Option.mem_def, AList.mem_lookup_iff, filterKeys, List.mem_filter, ← AList.mem_lookup_iff]
  by_cases h : p a = true
  · simp [h]
  · simp [h]

/-- The entries that pass a test. -/
def retain {α : Type} {β : α → Type} (p : Sigma β → Bool) (table : AList β) : AList β where
  entries := table.entries.filter p
  nodupKeys := table.nodupKeys.sublist List.filter_sublist

theorem lookup_retain {p : Sigma β → Bool} (a : α) :
    (retain p table).lookup a = (table.lookup a).filter fun b => p ⟨a, b⟩ := by
  apply Option.ext
  intro b
  rw [← Option.mem_def, AList.mem_lookup_iff, retain, List.mem_filter, ← AList.mem_lookup_iff,
    Option.filter_eq_some_iff]
  rfl

/-! ### Tables through a function -/

/-- Tables with the same contents, one seen through a function of the other's values. -/
theorem entries_perm_map {γ γ' : Type} {table : AList fun _ : α => γ}
    {table' : AList fun _ : α => γ'} {f : γ → γ'}
    (h : ∀ a, table'.lookup a = (table.lookup a).map f) :
    table'.entries.Perm (table.entries.map fun entry => ⟨entry.1, f entry.2⟩) := by
  have hnodup : (table.entries.map fun entry =>
      (⟨entry.1, f entry.2⟩ : Sigma fun _ : α => γ')).NodupKeys := by
    have hkeys : (table.entries.map fun entry => (⟨entry.1, f entry.2⟩ : Sigma fun _ : α => γ')).keys
        = table.entries.keys := by
      simp [List.keys]
    rw [List.NodupKeys, hkeys]
    exact table.nodupKeys
  apply List.lookup_ext table'.nodupKeys hnodup
  intro a c
  have hlookup : c ∈ table'.entries.dlookup a ↔ table'.lookup a = some c := Iff.rfl
  rw [hlookup, h, List.mem_dlookup_iff hnodup, Option.map_eq_some_iff, List.mem_map]
  constructor
  · rintro ⟨b, hb, rfl⟩
    exact ⟨⟨a, b⟩, AList.mem_lookup_iff.mp hb, rfl⟩
  · rintro ⟨⟨a', b⟩, hmem, heq⟩
    obtain ⟨rfl, hc⟩ := Sigma.mk.inj heq
    exact ⟨b, AList.mem_lookup_iff.mpr hmem, eq_of_heq hc⟩

/-! ### Tables keyed by pairs -/

section Fibre

variable {ι κ γ : Type} [DecidableEq ι] [DecidableEq κ]

/-- The second components that go with a first one. -/
def fibre (pairs : AList fun _ : ι × κ => γ) (i : ι) : Finset κ :=
  ((pairs.keys.filter fun key => key.1 == i).map Prod.snd).toFinset

variable {pairs : AList fun _ : ι × κ => γ} {i : ι} {k : κ}

theorem mem_fibre : k ∈ fibre pairs i ↔ (i, k) ∈ pairs := by
  simp only [fibre, List.mem_toFinset, List.mem_map, List.mem_filter, AList.mem_keys, beq_iff_eq]
  constructor
  · rintro ⟨⟨i', k'⟩, ⟨hkey, rfl⟩, rfl⟩
    exact hkey
  · intro hkey
    exact ⟨(i, k), ⟨hkey, rfl⟩, rfl⟩

theorem card_fibre (pairs : AList fun _ : ι × κ => γ) (i : ι) :
    (fibre pairs i).card = (pairs.keys.filter fun key => key.1 == i).length := by
  have hinj : ∀ x ∈ pairs.keys.filter (fun key => key.1 == i),
      ∀ y ∈ pairs.keys.filter (fun key => key.1 == i), x.2 = y.2 → x = y := by
    intro x hx y hy hsnd
    have hfst : x.1 = i ∧ y.1 = i := by
      constructor
      · simpa using (List.mem_filter.mp hx).2
      · simpa using (List.mem_filter.mp hy).2
    exact Prod.ext (hfst.1.trans hfst.2.symm) hsnd
  have hnodup : ((pairs.keys.filter fun key => key.1 == i).map Prod.snd).Nodup :=
    List.Nodup.map_on hinj (pairs.keys_nodup.filter _)
  rw [fibre, List.toFinset_card_of_nodup hnodup, List.length_map]

/-- A new pair joins one fibre. -/
theorem fibre_insert (c : γ) :
    fibre (pairs.insert (i, k) c) = Function.update (fibre pairs) i (insert k (fibre pairs i)) := by
  funext other
  apply Finset.ext
  intro k'
  rw [mem_fibre, AList.mem_insert]
  by_cases hother : other = i
  · subst hother
    simp [mem_fibre]
  · simp [hother, mem_fibre]

/-- A pair leaves one fibre. -/
theorem fibre_erase :
    fibre (pairs.erase (i, k)) = Function.update (fibre pairs) i ((fibre pairs i).erase k) := by
  funext other
  apply Finset.ext
  intro k'
  rw [mem_fibre, AList.mem_erase]
  by_cases hother : other = i
  · subst hother
    simp [mem_fibre]
  · simp [hother, mem_fibre]

/-- Tables that hold the same pairs, those of one fibre apart. -/
theorem fibre_eq_update_empty {pairs' : AList fun _ : ι × κ => γ}
    (h : ∀ key, key ∈ pairs' ↔ key.1 ≠ i ∧ key ∈ pairs) :
    fibre pairs' = Function.update (fibre pairs) i ∅ := by
  funext other
  apply Finset.ext
  intro k'
  rw [mem_fibre, h]
  by_cases hother : other = i
  · subst hother
    simp
  · simp [hother, mem_fibre]

end Fibre

end Assoc
