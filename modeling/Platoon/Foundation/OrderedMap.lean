import Mathlib.Order.Defs.LinearOrder
import Mathlib.Order.Lattice
import Mathlib.Data.List.Basic
import Mathlib.Tactic.Common

/-!
# Ordered maps

A map from linearly ordered keys, kept as its list of entries in the order of
the keys.  Every operation is described by what `get?` returns afterwards.
-/

namespace Platoon.Foundation

/-- The entries of a map in the order of their keys. -/
structure OrderedMap (κ α : Type) [LinearOrder κ] where
  entries : List (κ × α)
  sorted : entries.Pairwise fun left right => left.1 < right.1

namespace OrderedMap

variable {κ α : Type} [LinearOrder κ]

def empty : OrderedMap κ α := ⟨[], List.Pairwise.nil⟩

/-- Look a key up in a list of entries. -/
def lookup (key : κ) : List (κ × α) → Option α
  | [] => none
  | (other, value) :: rest => if other = key then some value else lookup key rest

def get? (map : OrderedMap κ α) (key : κ) : Option α := lookup key map.entries

/-- Put an entry in its place, replacing the value of an equal key. -/
def insertEntry (key : κ) (value : α) : List (κ × α) → List (κ × α)
  | [] => [(key, value)]
  | (other, old) :: rest =>
      if key < other then (key, value) :: (other, old) :: rest
      else if key = other then (key, value) :: rest
      else (other, old) :: insertEntry key value rest

section Entries

variable {key other : κ} {value : α} {entries : List (κ × α)}

theorem lookup_eq_some (hsorted : entries.Pairwise fun left right => left.1 < right.1) :
    lookup key entries = some value ↔ (key, value) ∈ entries := by
  induction entries with
  | nil => simp [lookup]
  | cons entry rest ih =>
      obtain ⟨first, stored⟩ := entry
      obtain ⟨hfirst, hrest⟩ := List.pairwise_cons.mp hsorted
      rw [lookup]
      split
      · rename_i heq
        subst heq
        constructor
        · intro hvalue
          rw [Option.some.injEq] at hvalue
          simp [hvalue]
        · intro hmem
          rcases List.mem_cons.mp hmem with heq | hlater
          · rw [(Prod.mk.inj heq).2]
          · exact absurd (hfirst _ hlater) (lt_irrefl first)
      · rename_i hne
        rw [ih hrest, List.mem_cons, Prod.mk.injEq]
        simp [Ne.symm hne]

theorem lookup_insertEntry :
    lookup other (insertEntry key value entries) =
      if other = key then some value else lookup other entries := by
  induction entries with
  | nil =>
      simp only [insertEntry, lookup]
      exact if_congr eq_comm rfl rfl
  | cons entry rest ih =>
      obtain ⟨first, stored⟩ := entry
      rw [insertEntry]
      split
      · rw [lookup]
        exact if_congr eq_comm rfl rfl
      · split
        · rename_i heq
          subst heq
          rw [lookup, lookup]
          by_cases hother : key = other
          · simp [hother]
          · simp [hother, Ne.symm hother]
        · rename_i hne
          rw [lookup, ih, lookup]
          by_cases hother : first = other
          · subst hother
            simp [Ne.symm hne]
          · simp [hother]

theorem mem_insertEntry {entry : κ × α} (hmem : entry ∈ insertEntry key value entries) :
    entry = (key, value) ∨ entry ∈ entries := by
  induction entries with
  | nil => simpa [insertEntry] using hmem
  | cons first rest ih =>
      rw [insertEntry] at hmem
      split at hmem
      · simpa using hmem
      · split at hmem
        · rcases List.mem_cons.mp hmem with heq | hrest
          · exact .inl heq
          · exact .inr (List.mem_cons_of_mem _ hrest)
        · rcases List.mem_cons.mp hmem with heq | hrest
          · exact .inr (heq ▸ List.mem_cons_self)
          · exact (ih hrest).imp id (List.mem_cons_of_mem _)

theorem sorted_insertEntry (hsorted : entries.Pairwise fun left right => left.1 < right.1) :
    (insertEntry key value entries).Pairwise fun left right => left.1 < right.1 := by
  induction entries with
  | nil => simp [insertEntry]
  | cons first rest ih =>
      obtain ⟨hfirst, hrest⟩ := List.pairwise_cons.mp hsorted
      rw [insertEntry]
      split
      · rename_i hlt
        refine List.pairwise_cons.mpr ⟨fun entry hentry => ?_, hsorted⟩
        rcases List.mem_cons.mp hentry with rfl | hlater
        · exact hlt
        · exact lt_trans hlt (hfirst entry hlater)
      · rename_i hnlt
        split
        · rename_i heq
          exact List.pairwise_cons.mpr ⟨heq ▸ hfirst, hrest⟩
        · rename_i hne
          refine List.pairwise_cons.mpr ⟨fun entry hentry => ?_, ih hrest⟩
          rcases mem_insertEntry hentry with rfl | hlater
          · exact lt_of_le_of_ne (not_lt.mp hnlt) (Ne.symm hne)
          · exact hfirst entry hlater

end Entries

def insert (map : OrderedMap κ α) (key : κ) (value : α) : OrderedMap κ α :=
  ⟨insertEntry key value map.entries, sorted_insertEntry map.sorted⟩

/-- The entries whose keys satisfy a condition. -/
def filterKeys (map : OrderedMap κ α) (keep : κ → Bool) : OrderedMap κ α :=
  ⟨map.entries.filter fun entry => keep entry.1, map.sorted.filter _⟩

def erase (map : OrderedMap κ α) (key : κ) : OrderedMap κ α :=
  map.filterKeys fun other => decide (other ≠ key)

/-- The entries before `key`, and those from `key` on. -/
def splitOff (map : OrderedMap κ α) (key : κ) : OrderedMap κ α × OrderedMap κ α :=
  (map.filterKeys fun other => decide (other < key),
    map.filterKeys fun other => decide (key ≤ other))

def values (map : OrderedMap κ α) : List α := map.entries.map Prod.snd

/-- The least key. -/
def first? (map : OrderedMap κ α) : Option κ := map.entries.head?.map Prod.fst

section Get

variable (map : OrderedMap κ α) (key other : κ) (value : α)

@[simp] theorem get?_empty : (empty : OrderedMap κ α).get? key = none := rfl

theorem get?_eq_some : map.get? key = some value ↔ (key, value) ∈ map.entries :=
  lookup_eq_some map.sorted

theorem get?_insert :
    (map.insert key value).get? other = if other = key then some value else map.get? other :=
  lookup_insertEntry

theorem get?_filterKeys (keep : κ → Bool) :
    (map.filterKeys keep).get? key = if keep key then map.get? key else none := by
  ext value
  rw [get?_eq_some, filterKeys, List.mem_filter]
  split
  · rename_i hkeep
    rw [get?_eq_some]
    simp [hkeep]
  · rename_i hdrop
    simp [hdrop]

theorem get?_erase : (map.erase key).get? other = if other = key then none else map.get? other := by
  rw [erase, get?_filterKeys]
  by_cases heq : other = key <;> simp [heq]

theorem get?_splitOff_from :
    (map.splitOff key).2.get? other = if key ≤ other then map.get? other else none := by
  simp [splitOff, get?_filterKeys]

/-- The least key is at most every key. -/
theorem first?_le {first : κ} (hfirst : map.first? = some first) {entry : κ × α}
    (hentry : entry ∈ map.entries) : first ≤ entry.1 := by
  obtain ⟨least, hleast, rfl⟩ := Option.map_eq_some_iff.mp hfirst
  obtain ⟨rest, hrest⟩ := List.head?_eq_some_iff.mp hleast
  have hsorted := map.sorted
  rw [hrest] at hentry hsorted
  rcases List.mem_cons.mp hentry with rfl | hlater
  · exact le_refl _
  · exact le_of_lt ((List.pairwise_cons.mp hsorted).1 entry hlater)

/-- Splitting at or below the least key takes nothing off. -/
theorem splitOff_of_le_first? {first : κ} (hfirst : map.first? = some first)
    (hle : key ≤ first) : (map.splitOff key).1 = empty ∧ (map.splitOff key).2 = map := by
  have hall : ∀ entry ∈ map.entries, key ≤ entry.1 :=
    fun entry hentry => le_trans hle (map.first?_le hfirst hentry)
  constructor
  · simp only [splitOff, filterKeys, empty, OrderedMap.mk.injEq, List.filter_eq_nil_iff]
    intro entry hentry
    simpa using hall entry hentry
  · obtain ⟨entries, sorted⟩ := map
    simp only [splitOff, filterKeys, OrderedMap.mk.injEq, List.filter_eq_self]
    intro entry hentry
    simpa using hall entry hentry

end Get

end OrderedMap

end Platoon.Foundation
