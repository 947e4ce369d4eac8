import Mathlib.Data.List.Basic
import Mathlib.Data.List.Nodup
import Mathlib.Data.List.Range
import Mathlib.Tactic.Common

/-!
# Slabs

A slab stores values under small integer keys of its own choice and reuses the
keys of removed values.  `Slab` states what a client may rely on: the next key
is vacant, an insertion occupies exactly that key, and a removal frees exactly
the removed one.  Which vacant key is chosen is left open.  `FreeSlab` is one
implementation, which reuses the most recently freed key first.
-/

namespace Platoon.Foundation

/-- A keyed store that picks a vacant key for each inserted value. -/
class Slab (S : Type → Type) where
  empty : {α : Type} → S α
  get? : {α : Type} → S α → Nat → Option α
  vacantKey : {α : Type} → S α → Nat
  insert : {α : Type} → S α → α → S α
  set : {α : Type} → S α → Nat → α → S α
  remove : {α : Type} → S α → Nat → S α
  len : {α : Type} → S α → Nat
  get?_empty : ∀ {α : Type} (key : Nat), get? (empty : S α) key = none
  get?_vacantKey : ∀ {α : Type} (slab : S α), get? slab (vacantKey slab) = none
  get?_insert : ∀ {α : Type} (slab : S α) (value : α) (key : Nat),
    get? (insert slab value) key =
      if key = vacantKey slab then some value else get? slab key
  get?_set : ∀ {α : Type} (slab : S α) (target : Nat) (value : α) (key : Nat),
    (get? slab target).isSome →
    get? (set slab target value) key = if key = target then some value else get? slab key
  get?_remove : ∀ {α : Type} (slab : S α) (target key : Nat),
    (get? slab target).isSome →
    get? (remove slab target) key = if key = target then none else get? slab key
  len_eq : ∀ {α : Type} (slab : S α) (keys : List Nat), keys.Nodup →
    (∀ key, key ∈ keys ↔ (get? slab key).isSome) → len slab = keys.length

namespace Slab

variable {S : Type → Type} [Slab S] {α : Type}

/-- Overwriting an occupied key with an image of its value. -/
theorem get?_set_map {slab : S α} {target : Nat} {value : α} (f : α → α)
    (hget : get? slab target = some value) (key : Nat) :
    get? (set slab target (f value)) key =
      (get? slab key).map fun stored => if target = key then f stored else stored := by
  rw [get?_set _ _ _ _ (by simp [hget])]
  by_cases heq : key = target
  · subst heq
    simp [hget]
  · have hne : target ≠ key := fun h => heq h.symm
    simp [heq, hne]

/-- A slab without values. -/
def isEmpty (slab : S α) : Bool := len slab == 0

attribute [simp] get?_empty get?_vacantKey get?_insert

theorem isEmpty_iff_of_keys {slab : S α} {keys : List Nat} (hnodup : keys.Nodup)
    (hkeys : ∀ key, key ∈ keys ↔ (get? slab key).isSome) :
    isEmpty slab = true ↔ keys = [] := by
  rw [isEmpty, beq_iff_eq, len_eq slab keys hnodup hkeys, List.length_eq_zero_iff]

end Slab

/-- A vector of slots with a stack of freed indices; every stacked index is in
range, vacant, and stacked once. -/
structure FreeSlab (α : Type) where
  slots : List (Option α)
  free : List Nat
  free_nodup : free.Nodup
  free_vacant : ∀ key ∈ free, slots[key]? = some none

namespace FreeSlab

variable {α : Type}

/-- The value stored under a key. -/
def get? (slab : FreeSlab α) (key : Nat) : Option α := slab.slots[key]?.join

/-- The most recently freed key, or the first key never used. -/
def vacantKey (slab : FreeSlab α) : Nat := slab.free.headD slab.slots.length

theorem get?_eq_some {slab : FreeSlab α} {key : Nat} {value : α} :
    slab.get? key = some value ↔ slab.slots[key]? = some (some value) := by
  simp [get?, Option.join_eq_some_iff]

theorem get?_of_mem_free {slab : FreeSlab α} {key : Nat} (hfree : key ∈ slab.free) :
    slab.get? key = none := by
  simp [get?, slab.free_vacant key hfree]

/-- Fill the vacant key. -/
def insert (slab : FreeSlab α) (value : α) : FreeSlab α :=
  match hfree : slab.free with
  | [] =>
      { slots := slab.slots ++ [some value]
        free := []
        free_nodup := List.nodup_nil
        free_vacant := by simp }
  | key :: rest =>
      { slots := slab.slots.set key (some value)
        free := rest
        free_nodup := by
          have hnodup := slab.free_nodup
          rw [hfree] at hnodup
          exact hnodup.of_cons
        free_vacant := by
          intro other hother
          have hnodup := slab.free_nodup
          rw [hfree] at hnodup
          have hne : key ≠ other := by
            rintro rfl
            exact (List.nodup_cons.mp hnodup).1 hother
          rw [List.getElem?_set_ne hne]
          exact slab.free_vacant other (by simp [hfree, hother]) }

/-- Overwrite the value of an occupied key. -/
def set (slab : FreeSlab α) (key : Nat) (value : α) : FreeSlab α :=
  if hkey : key ∈ slab.free then slab
  else
    { slots := slab.slots.set key (some value)
      free := slab.free
      free_nodup := slab.free_nodup
      free_vacant := by
        intro other hother
        have hne : key ≠ other := fun heq => hkey (heq ▸ hother)
        rw [List.getElem?_set_ne hne]
        exact slab.free_vacant other hother }

/-- Vacate an occupied key and stack it for reuse. -/
def remove (slab : FreeSlab α) (key : Nat) : FreeSlab α :=
  if hkey : key ∈ slab.free ∨ slab.slots.length ≤ key then slab
  else
    { slots := slab.slots.set key none
      free := key :: slab.free
      free_nodup := List.nodup_cons.mpr ⟨fun hmem => hkey (.inl hmem), slab.free_nodup⟩
      free_vacant := by
        intro other hother
        by_cases heq : key = other
        · subst heq
          have hlt : key < slab.slots.length := by omega
          simp [hlt]
        · rw [List.getElem?_set_ne heq]
          have hmem : other ∈ slab.free := by
            rcases List.mem_cons.mp hother with rfl | hmem
            · exact absurd rfl heq
            · exact hmem
          exact slab.free_vacant other hmem }

/-- The number of stored values. -/
def len (slab : FreeSlab α) : Nat := slab.slots.countP Option.isSome

theorem get?_vacantKey (slab : FreeSlab α) : slab.get? slab.vacantKey = none := by
  cases hfree : slab.free with
  | nil => simp [vacantKey, hfree, get?]
  | cons key rest =>
      have hmem : key ∈ slab.free := by simp [hfree]
      simpa [vacantKey, hfree] using get?_of_mem_free hmem

theorem get?_insert (slab : FreeSlab α) (value : α) (key : Nat) :
    (slab.insert value).get? key =
      if key = slab.vacantKey then some value else slab.get? key := by
  unfold insert
  split
  · rename_i hfree
    simp only [get?, vacantKey, hfree, List.headD_nil]
    rcases Nat.lt_trichotomy key slab.slots.length with hlt | heq | hgt
    · simp [List.getElem?_append_left hlt, Nat.ne_of_lt hlt]
    · subst heq
      simp
    · rw [List.getElem?_eq_none (by simp; omega), List.getElem?_eq_none (by omega),
        if_neg (by omega)]
  · rename_i first rest hfree
    have hvacant := slab.free_vacant first (by simp [hfree])
    have hlt : first < slab.slots.length := by
      by_contra hge
      rw [List.getElem?_eq_none (by omega)] at hvacant
      cases hvacant
    simp only [get?, vacantKey, hfree, List.headD_cons]
    by_cases heq : key = first
    · subst heq
      simp [hlt]
    · rw [List.getElem?_set_ne (fun h => heq h.symm), if_neg heq]

theorem get?_set (slab : FreeSlab α) (target : Nat) (value : α) (key : Nat)
    (hsome : (slab.get? target).isSome) :
    (slab.set target value).get? key =
      if key = target then some value else slab.get? key := by
  obtain ⟨old, hold⟩ := Option.isSome_iff_exists.mp hsome
  have hnot : target ∉ slab.free := by
    intro hmem
    simp [get?_of_mem_free hmem] at hold
  have hlt : target < slab.slots.length := by
    rw [get?_eq_some] at hold
    exact (List.getElem?_eq_some_iff.mp hold).1
  simp only [set, hnot, ↓reduceDIte, get?]
  by_cases heq : key = target
  · subst heq
    simp [hlt]
  · rw [List.getElem?_set_ne (fun h => heq h.symm), if_neg heq]

theorem get?_remove (slab : FreeSlab α) (target key : Nat)
    (hsome : (slab.get? target).isSome) :
    (slab.remove target).get? key =
      if key = target then none else slab.get? key := by
  obtain ⟨old, hold⟩ := Option.isSome_iff_exists.mp hsome
  have hlt : target < slab.slots.length := by
    rw [get?_eq_some] at hold
    exact (List.getElem?_eq_some_iff.mp hold).1
  have hnot : ¬ (target ∈ slab.free ∨ slab.slots.length ≤ target) := by
    rintro (hmem | hle)
    · simp [get?_of_mem_free hmem] at hold
    · omega
  simp only [remove, hnot, ↓reduceDIte, get?]
  by_cases heq : key = target
  · subst heq
    simp [hlt]
  · rw [List.getElem?_set_ne (fun h => heq h.symm), if_neg heq]

/-- Counting the occupied slots from a starting index. -/
theorem countP_isSome_eq (slots : List (Option α)) :
    slots.countP Option.isSome =
      ((List.range slots.length).filter fun key => (slots[key]?.join).isSome).length := by
  induction slots using List.reverseRecOn with
  | nil => rfl
  | append_singleton slots slot ih =>
      have hsame : (List.range slots.length).filter
            (fun key => ((slots ++ [slot])[key]?.join).isSome) =
          (List.range slots.length).filter fun key => (slots[key]?.join).isSome := by
        apply List.filter_congr
        intro key hkey
        rw [List.getElem?_append_left (List.mem_range.mp hkey)]
      rw [List.countP_append, ih, List.length_append, List.length_singleton,
        List.range_succ, List.filter_append, List.length_append, hsame]
      cases slot <;> simp

theorem len_eq (slab : FreeSlab α) (keys : List Nat) (hnodup : keys.Nodup)
    (hkeys : ∀ key, key ∈ keys ↔ (slab.get? key).isSome) :
    slab.len = keys.length := by
  rw [len, countP_isSome_eq]
  have hperm : ((List.range slab.slots.length).filter
      fun key => (slab.slots[key]?.join).isSome).Perm keys := by
    rw [List.perm_ext_iff_of_nodup (List.nodup_range.filter _) hnodup]
    intro key
    rw [hkeys, List.mem_filter, List.mem_range]
    constructor
    · exact fun h => h.2
    · intro h
      refine ⟨?_, h⟩
      by_contra hge
      rw [get?, List.getElem?_eq_none (by omega)] at h
      cases h
  exact hperm.length_eq

end FreeSlab

instance : Slab FreeSlab where
  empty := ⟨[], [], List.nodup_nil, by simp⟩
  get? := FreeSlab.get?
  vacantKey := FreeSlab.vacantKey
  insert := FreeSlab.insert
  set := FreeSlab.set
  remove := FreeSlab.remove
  len := FreeSlab.len
  get?_empty key := by simp [FreeSlab.get?]
  get?_vacantKey := FreeSlab.get?_vacantKey
  get?_insert := FreeSlab.get?_insert
  get?_set := FreeSlab.get?_set
  get?_remove := FreeSlab.get?_remove
  len_eq := FreeSlab.len_eq

end Platoon.Foundation
