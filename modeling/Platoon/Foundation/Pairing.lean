import Mathlib.Logic.Function.Basic

/-!
# Partial functions inverse to each other

Two tables that index each other: what one of them holds under a name, the other
one holds under that value.
-/

namespace Platoon.Foundation

/-- The two partial functions are inverse to each other. -/
def Paired {α β : Type} (forth : α → Option β) (back : β → Option α) : Prop :=
  ∀ left right, forth left = some right ↔ back right = some left

namespace Paired

variable {α β : Type} {forth : α → Option β} {back : β → Option α} {left : α} {right : β}

theorem empty : Paired (fun _ : α => (none : Option β)) (fun _ => none) := by
  simp [Paired]

theorem symm (hpaired : Paired forth back) : Paired back forth :=
  fun right left => (hpaired left right).symm

/-- Nothing is held under two names. -/
theorem injective (hpaired : Paired forth back) {other : α} (hleft : forth left = some right)
    (hother : forth other = some right) : left = other := by
  rw [hpaired] at hleft hother
  exact Option.some.inj (hleft.symm.trans hother)

variable [DecidableEq α] [DecidableEq β]

/-- A new name for a new value. -/
theorem insert (hpaired : Paired forth back) (hleft : forth left = none)
    (hright : back right = none) :
    Paired (Function.update forth left (some right)) (Function.update back right (some left)) := by
  intro name value
  simp only [Function.update_apply]
  by_cases hname : name = left
  · subst hname
    by_cases hvalue : value = right
    · simp [hvalue]
    · have hother : back value ≠ some name := by
        rw [ne_eq, ← hpaired, hleft]
        simp
      simp [hvalue, Ne.symm hvalue, hother]
  · by_cases hvalue : value = right
    · subst hvalue
      have hother : forth name ≠ some value := by
        rw [ne_eq, hpaired, hright]
        simp
      simp [hname, Ne.symm hname, hother]
    · simp [hname, hvalue, hpaired name value]

/-- A name and its value are forgotten. -/
theorem erase (hpaired : Paired forth back) (hheld : forth left = some right) :
    Paired (Function.update forth left none) (Function.update back right none) := by
  intro name value
  simp only [Function.update_apply]
  by_cases hname : name = left
  · subst hname
    by_cases hvalue : value = right
    · simp [hvalue]
    · have hother : back value ≠ some name := by
        rw [ne_eq, ← hpaired, hheld, Option.some.injEq]
        exact Ne.symm hvalue
      simp [hvalue, hother]
  · by_cases hvalue : value = right
    · subst hvalue
      have hother : forth name ≠ some value := fun hsame =>
        hname (hpaired.injective hsame hheld)
      simp [hname, hother]
    · simp [hname, hvalue, hpaired name value]

end Paired

end Platoon.Foundation
