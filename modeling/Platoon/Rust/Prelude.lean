import Platoon.Foundation.Slab
import Mathlib.Algebra.GroupWithZero.Nat
import Mathlib.Tactic.Common

/-!
# The parts of the language the sources rely on

Panics, `usize` arithmetic in both build profiles, `Poll`, and wakers.  A
build profile fixes the width of `usize` and whether overflow is checked; all
models that add or subtract counters take the profile as a parameter.
-/

namespace Platoon.Rust

/-- The panics the modelled code can raise.  `outOfFuel` is no panic of the
source: it marks a loop cut off by the fuel of its model. -/
inductive Panic where
  | invalidKey
  | assertionFailed
  | arithmeticOverflow
  | unwrapNone
  | alreadyBorrowed
  | alreadyMutablyBorrowed
  | polledAfterCompletion
  | resumedAfterCompletion
  | parkFailed
  | outOfFuel
  deriving DecidableEq, Repr

/-- `std::task::Poll`. -/
inductive Poll (α : Type) where
  | ready (value : α)
  | pending
  deriving DecidableEq, Repr

section Fallible

variable {α β : Type}

@[simp]
theorem ok_bind (value : α) (rest : α → Except Panic β) :
    (Except.ok value >>= rest) = rest value := rfl

@[simp]
theorem error_bind (reason : Panic) (rest : α → Except Panic β) :
    ((Except.error reason : Except Panic α) >>= rest) = .error reason := rfl

@[simp]
theorem pure_eq_ok (value : α) : (pure value : Except Panic α) = .ok value := rfl

/-- A sequence that succeeds has a first part that succeeds. -/
theorem ok_of_bind {result : Except Panic α} {rest : α → β} {last : β}
    (hok : (result >>= fun value => .ok (rest value)) = Except.ok last) :
    ∃ value, result = .ok value ∧ rest value = last := by
  cases result with
  | error reason => cases hok
  | ok value => exact ⟨value, rfl, by simpa using hok⟩

end Fallible

/-- The width of `usize` and the treatment of overflow in a build. -/
structure Profile where
  bits : Nat
  bits_pos : 0 < bits
  overflowChecks : Bool

namespace Profile

/-- `usize::MAX`. -/
def usizeMax (profile : Profile) : Nat := 2 ^ profile.bits - 1

/-- `isize::MAX`. -/
def isizeMax (profile : Profile) : Nat := 2 ^ (profile.bits - 1) - 1

/-- `left + right` on `usize`. -/
def add (profile : Profile) (left right : Nat) : Except Panic Nat :=
  if left + right ≤ profile.usizeMax then .ok (left + right)
  else if profile.overflowChecks then .error .arithmeticOverflow
  else .ok ((left + right) % 2 ^ profile.bits)

/-- `left - right` on `usize`. -/
def sub (profile : Profile) (left right : Nat) : Except Panic Nat :=
  if right ≤ left then .ok (left - right)
  else if profile.overflowChecks then .error .arithmeticOverflow
  else .ok ((left + 2 ^ profile.bits - right) % 2 ^ profile.bits)

/-- The same target built with overflow checks. -/
def checked (profile : Profile) : Profile := { profile with overflowChecks := true }

/-- A 64-bit release build. -/
def release : Profile where
  bits := 64
  bits_pos := by decide
  overflowChecks := false

@[simp]
theorem usizeMax_checked (profile : Profile) :
    profile.checked.usizeMax = profile.usizeMax := rfl

theorem one_le_usizeMax (profile : Profile) : 1 ≤ profile.usizeMax := by
  have hpow : 2 ^ 1 ≤ 2 ^ profile.bits :=
    Nat.pow_le_pow_right (by decide) profile.bits_pos
  unfold usizeMax
  omega

theorem isizeMax_lt_usizeMax (profile : Profile) : profile.isizeMax < profile.usizeMax := by
  have hpos := profile.bits_pos
  have hlt : 2 ^ (profile.bits - 1) < 2 ^ profile.bits :=
    Nat.pow_lt_pow_right (by decide) (by omega)
  have hone : 1 ≤ 2 ^ (profile.bits - 1) := Nat.one_le_two_pow
  unfold isizeMax usizeMax
  omega

theorem add_of_le {profile : Profile} {left right : Nat}
    (hfits : left + right ≤ profile.usizeMax) :
    profile.add left right = .ok (left + right) := by
  simp [add, hfits]

theorem error_of_add {profile : Profile} {left right : Nat} {reason : Panic}
    (herror : profile.add left right = .error reason) : reason = .arithmeticOverflow := by
  unfold add at herror
  split at herror
  · cases herror
  · split at herror <;> cases herror
    rfl

theorem sub_of_le {profile : Profile} {left right : Nat} (hle : right ≤ left) :
    profile.sub left right = .ok (left - right) := by
  simp [sub, hle]

end Profile

/-! ## `RefCell` -/

namespace RefCell

/-- `RefCell::borrow`.  The flag is the number of `Ref`s, or `-1` for a `RefMut`. -/
def borrow (profile : Profile) (flag : Int) : Except Panic Int :=
  if 0 ≤ flag ∧ flag < profile.isizeMax then .ok (flag + 1)
  else .error .alreadyMutablyBorrowed

/-- `RefCell::borrow_mut`. -/
def borrowMut (flag : Int) : Except Panic Int :=
  if flag = 0 then .ok (-1) else .error .alreadyBorrowed

theorem borrowMut_eq_ok {flag borrowed : Int} :
    borrowMut flag = .ok borrowed ↔ flag = 0 ∧ borrowed = -1 := by
  unfold borrowMut
  split
  · rename_i hfree
    simp [hfree, eq_comm]
  · rename_i hheld
    simp [hheld]

/-- `Ref::drop`. -/
def dropRef (flag : Int) : Int := flag - 1

/-- `RefMut::drop`. -/
def dropRefMut (flag : Int) : Int := flag + 1

end RefCell

/-! ## Wakers -/

/-- What the sources use of `std::task::Waker`: the best-effort test
`will_wake`, which is sound for waking the same task. -/
class Wakes (W : Type) where
  willWake : W → W → Bool
  Equivalent : W → W → Prop
  equivalence : Equivalence Equivalent
  of_willWake : ∀ {left right : W}, willWake left right = true → Equivalent left right

namespace Wakes

variable {W : Type} [Wakes W]

theorem Equivalent.refl (waker : W) : Equivalent waker waker :=
  equivalence.refl waker

theorem Equivalent.symm {left right : W} (h : Equivalent left right) :
    Equivalent right left :=
  equivalence.symm h

/-- The rule by which a stored waker is refreshed: it is kept when it already
wakes the polling task. -/
def refresh (stored polling : W) : W :=
  if willWake stored polling then stored else polling

theorem refresh_equivalent (stored polling : W) :
    Equivalent (refresh stored polling) polling := by
  unfold refresh
  split
  · exact of_willWake ‹_›
  · exact Equivalent.refl polling

/-- Wakers that are compared by identity. -/
abbrev byIdentity (W : Type) [DecidableEq W] : Wakes W where
  willWake left right := decide (left = right)
  Equivalent left right := left = right
  equivalence := ⟨fun _ => rfl, Eq.symm, Eq.trans⟩
  of_willWake h := of_decide_eq_true h

instance : Wakes Nat := byIdentity Nat

/-- Only one waker wakes each task. -/
def Exact (W : Type) [Wakes W] : Prop := ∀ left right : W, Equivalent left right → left = right

omit [Wakes W] in
theorem exact_byIdentity [DecidableEq W] : @Exact W (byIdentity W) := fun _ _ heq => heq

end Wakes

section SlabAccess

open Platoon.Foundation

variable {S : Type → Type} [Slab S] {α : Type}

/-- `slab[key]`. -/
def index (slab : S α) (key : Nat) : Except Panic α :=
  match Slab.get? slab key with
  | some value => .ok value
  | none => .error .invalidKey

theorem index_of_get? {slab : S α} {key : Nat} {value : α}
    (hget : Slab.get? slab key = some value) : index slab key = .ok value := by
  simp [index, hget]

end SlabAccess

end Platoon.Rust
