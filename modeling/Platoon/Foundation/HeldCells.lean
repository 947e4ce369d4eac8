import Mathlib.Data.List.Basic
import Mathlib.Tactic.Common

/-!
# Calls that hold cells

A call keeps a cell borrowed until everything that it has to drop is dropped.
Dropping an item may begin another call above it, or leave further items in its
place.  An item whose destructor needs a cell that is held when it is dropped
clashes with the holder, and stays there: no call below it can end.
-/

namespace Platoon.Foundation

/-- A call that holds `cell` while it drops the items of `todo`, and then does the `rest`. -/
structure Holding (κ ι ρ : Type) where
  cell : κ
  todo : List ι
  rest : ρ
  deriving DecidableEq, Repr

namespace Holding

variable {κ ι ρ : Type}

/-- The cells that the calls hold, innermost first. -/
def cells (calls : List (Holding κ ι ρ)) : List κ := calls.map Holding.cell

/-- The cell that the destructor of the item needs is one of these. -/
def Blocked (needs : ι → Option κ) (held : List κ) (item : ι) : Prop :=
  ∃ cell ∈ held, needs item = some cell

instance [DecidableEq κ] (needs : ι → Option κ) (held : List κ) (item : ι) :
    Decidable (Blocked needs held item) :=
  inferInstanceAs (Decidable (∃ cell ∈ held, needs item = some cell))

/-- A call has an item to drop that needs the cell of the call or of one below it. -/
def Clash (needs : ι → Option κ) : List (Holding κ ι ρ) → Prop
  | [] => False
  | call :: calls =>
      (∃ item ∈ call.todo, Blocked needs (cells (call :: calls)) item) ∨ Clash needs calls

section Clashes

variable {needs : ι → Option κ} {call : Holding κ ι ρ} {calls : List (Holding κ ι ρ)}

@[simp]
theorem cells_nil : cells ([] : List (Holding κ ι ρ)) = [] := rfl

@[simp]
theorem cells_cons : cells (call :: calls) = call.cell :: cells calls := rfl

theorem not_blocked_of_none {held : List κ} {item : ι} (hneeds : needs item = none) :
    ¬ Blocked needs held item := by
  rintro ⟨cell, -, hcell⟩
  rw [hneeds] at hcell
  cases hcell

/-- A call whose items need no cell adds no clash, so it may begin or end. -/
theorem clash_cons_iff (hfree : ∀ item ∈ call.todo, needs item = none) :
    Clash needs (call :: calls) ↔ Clash needs calls := by
  rw [Clash, or_iff_right]
  rintro ⟨item, hmem, hblocked⟩
  exact not_blocked_of_none (hfree item hmem) hblocked

/-- Items in front of those that a call has to drop. -/
theorem clash_append_iff (items : List ι) :
    Clash needs ({ call with todo := items ++ call.todo } :: calls) ↔
      (∃ item ∈ items, Blocked needs (cells (call :: calls)) item) ∨
        Clash needs (call :: calls) := by
  simp only [Clash, cells_cons, List.mem_append, or_and_right, exists_or, or_assoc]

/-- The item that a call drops next, and the others. -/
theorem clash_todo_iff {item : ι} {todo : List ι} (htodo : call.todo = item :: todo) :
    Clash needs (call :: calls) ↔
      Blocked needs (cells (call :: calls)) item ∨
        Clash needs ({ call with todo } :: calls) := by
  simp only [Clash, cells_cons, htodo, List.mem_cons, exists_eq_or_imp, or_assoc]

end Clashes
end Holding

end Platoon.Foundation
