import Mathlib.Data.List.Basic
import Mathlib.Algebra.BigOperators.Group.List.Basic
import Mathlib.Algebra.GroupWithZero.Nat
import Mathlib.Tactic.Common

/-!
# The longest prefix within a budget

A list of requests with costs is served from the front for as long as the
budget lasts.  `splitFitting` computes the served part and the remainder, and
`IsLongestFitting` says what the split means without its recursion.
-/

namespace Platoon.Foundation

variable {α β : Type}

/-- The summed cost of a list. -/
def totalCost (cost : α → Nat) (items : List α) : Nat := (items.map cost).sum

@[simp]
theorem totalCost_nil (cost : α → Nat) : totalCost cost [] = 0 := rfl

@[simp]
theorem totalCost_cons (cost : α → Nat) (item : α) (rest : List α) :
    totalCost cost (item :: rest) = cost item + totalCost cost rest := rfl

@[simp]
theorem totalCost_append (cost : α → Nat) (front back : List α) :
    totalCost cost (front ++ back) = totalCost cost front + totalCost cost back := by
  simp [totalCost]

theorem totalCost_map {cost : α → Nat} {cost' : β → Nat} {f : α → β}
    (hcost : ∀ item, cost' (f item) = cost item) (items : List α) :
    totalCost cost' (items.map f) = totalCost cost items := by
  induction items with
  | nil => rfl
  | cons item rest ih => simp [hcost, ih]

theorem totalCost_le_of_sublist {cost : α → Nat} {small large : List α}
    (hsub : small.Sublist large) : totalCost cost small ≤ totalCost cost large := by
  induction hsub with
  | slnil => exact Nat.le_refl 0
  | cons item _ ih =>
      rw [totalCost_cons]
      exact Nat.le_trans ih (Nat.le_add_left _ _)
  | cons_cons item _ ih =>
      rw [totalCost_cons, totalCost_cons]
      exact Nat.add_le_add_left ih _

/-- A single item costs at most as much as the list it is in. -/
theorem cost_le_totalCost {cost : α → Nat} {item : α} {items : List α}
    (hmem : item ∈ items) : cost item ≤ totalCost cost items := by
  have hle : totalCost cost [item] ≤ totalCost cost items :=
    totalCost_le_of_sublist (List.singleton_sublist.mpr hmem)
  simpa using hle

/-- `front` fits in `budget`, and no longer prefix of `front ++ back` does. -/
structure IsLongestFitting (cost : α → Nat) (budget : Nat) (front back : List α) : Prop where
  fits : totalCost cost front ≤ budget
  exceeds : ∀ item, back.head? = some item → budget < totalCost cost front + cost item

/-- Every prefix within the budget is contained in the longest one. -/
theorem IsLongestFitting.prefix_of_fits {cost : α → Nat} {budget : Nat}
    {front back small : List α} (hlongest : IsLongestFitting cost budget front back)
    (hsmall : small <+: front ++ back) (hfits : totalCost cost small ≤ budget) :
    small <+: front := by
  rcases List.prefix_or_prefix_of_prefix hsmall (List.prefix_append front back) with
    hinside | hlarge
  · exact hinside
  · obtain ⟨extra, rfl⟩ := hlarge
    cases extra with
    | nil => simp
    | cons item rest =>
        have hback : item :: rest <+: back := (List.prefix_append_right_inj front).mp hsmall
        obtain ⟨tail, htail⟩ := hback
        have hexceeds := hlongest.exceeds item (by rw [← htail]; rfl)
        rw [totalCost_append, totalCost_cons] at hfits
        omega

/-- Serve a list from the front within a budget. -/
def splitFitting (cost : α → Nat) : Nat → List α → List α × List α
  | _, [] => ([], [])
  | budget, item :: rest =>
      if cost item ≤ budget then
        let served := splitFitting cost (budget - cost item) rest
        (item :: served.1, served.2)
      else ([], item :: rest)

theorem splitFitting_append (cost : α → Nat) (budget : Nat) (items : List α) :
    (splitFitting cost budget items).1 ++ (splitFitting cost budget items).2 = items := by
  induction items generalizing budget with
  | nil => rfl
  | cons item rest ih =>
      unfold splitFitting
      split
      · simp [ih]
      · rfl

theorem splitFitting_isLongest (cost : α → Nat) (budget : Nat) (items : List α) :
    IsLongestFitting cost budget (splitFitting cost budget items).1
      (splitFitting cost budget items).2 := by
  induction items generalizing budget with
  | nil => exact ⟨Nat.zero_le _, by simp [splitFitting]⟩
  | cons item rest ih =>
      unfold splitFitting
      split
      · rename_i hle
        have hserved := ih (budget - cost item)
        refine ⟨?_, ?_⟩
        · have hfits := hserved.fits
          rw [totalCost_cons]
          omega
        · intro next hnext
          have hexceeds := hserved.exceeds next hnext
          rw [totalCost_cons]
          omega
      · rename_i hgt
        refine ⟨Nat.zero_le _, ?_⟩
        intro next hnext
        cases hnext
        simpa using hgt

/-- Renaming the items of a list does not change how it is served. -/
theorem splitFitting_map {cost : α → Nat} {cost' : β → Nat} {f : α → β}
    (hcost : ∀ item, cost' (f item) = cost item) (budget : Nat) (items : List α) :
    splitFitting cost' budget (items.map f) =
      ((splitFitting cost budget items).1.map f, (splitFitting cost budget items).2.map f) := by
  induction items generalizing budget with
  | nil => rfl
  | cons item rest ih =>
      simp only [List.map_cons, splitFitting, hcost]
      split
      · simp [ih]
      · simp

end Platoon.Foundation
