import Platoon.Foundation.Transition
import Platoon.Runtime.Clock
import Mathlib.Logic.Function.Basic

/-!
# `Sleep` and `Interval`

A `Sleep` keeps its deadline and the id of its alarm beside the alarm in the
clock.  The last section assembles any number of sleeps on one clock into a
system whose clock readings never decrease.
-/

namespace Platoon.Time

open Platoon.Foundation Platoon.Rust Platoon.Runtime

structure Sleep (W : Type) where
  deadline : Nat
  alarm : Option (Nat × W)

variable {W : Type}

def sleepUntil (deadline : Nat) : Sleep W where
  deadline := deadline
  alarm := none

namespace Sleep

def reset (clock : Clock W) (sleep : Sleep W) (deadline : Nat) :
    Except Panic (Clock W × Sleep W) :=
  match sleep.alarm with
  | some (id, _) => do
      let clock ← clock.resetAlarm id sleep.deadline deadline
      .ok (clock, { sleep with deadline })
  | none => .ok (clock, { sleep with deadline })

/-- `Sleep::poll` at the instant `now`. -/
def poll [Wakes W] (profile : Profile) (clock : Clock W) (sleep : Sleep W) (now : Nat)
    (waker : W) : Except Panic (Clock W × Sleep W × Poll Nat) :=
  if sleep.deadline ≤ now then
    .ok (clock, sleep, .ready sleep.deadline)
  else
    match sleep.alarm with
    | some (id, stored) =>
        if Wakes.willWake stored waker then
          .ok (clock, sleep, .pending)
        else do
          let clock ← clock.replaceAlarmWaker id sleep.deadline waker
          .ok (clock, { sleep with alarm := some (id, waker) }, .pending)
    | none => do
        let (clock, id) ← clock.insertAlarm profile sleep.deadline waker
        .ok (clock, { sleep with alarm := some (id, waker) }, .pending)

def drop (clock : Clock W) (sleep : Sleep W) : Clock W :=
  match sleep.alarm with
  | some (id, _) => clock.removeAlarm id sleep.deadline
  | none => clock

end Sleep

structure Interval (W : Type) where
  sleep : Sleep W
  interval : Nat

def intervalAt (start interval : Nat) : Interval W where
  interval := interval
  sleep := sleepUntil start

/-- One poll of `Interval::tick`; `now` and `later` are its two clock readings. -/
def Interval.tick [Wakes W] (profile : Profile) (clock : Clock W) (interval : Interval W)
    (now later : Nat) (waker : W) :
    Except Panic (Clock W × Interval W × Poll (Option Nat)) := do
  let (clock, sleep, poll) ← interval.sleep.poll profile clock now waker
  match poll with
  | .pending => .ok (clock, { interval with sleep }, .pending)
  | .ready _ => do
      let (clock, sleep) ← sleep.reset clock (later + interval.interval)
      .ok (clock, { interval with sleep }, .ready (some sleep.deadline))

/-! ## Sleeps on one clock -/

/-- What the owners of sleeps and the executor do.  Sleeps are named by the caller. -/
inductive Op (W : Type) where
  | sleepUntil (sleep deadline : Nat)
  | poll (sleep now : Nat) (waker : W)
  | reset (sleep deadline : Nat)
  | drop (sleep : Nat)
  | park (now : Nat)
  | parkTimeout (now duration : Nat)
  deriving DecidableEq, Repr

/-- The result of a poll, or the wakers handed out by a park. -/
structure Output (W : Type) where
  polled : Option (Poll Nat) := none
  handed : List W := []
  deriving DecidableEq, Repr

/-- The sleeps alive on one clock, and the latest reading of the clock. -/
structure State (W : Type) where
  clock : Clock W
  sleeps : Nat → Option (Sleep W)
  now : Nat

namespace State

def new : State W where
  clock := .new
  sleeps := fun _ => none
  now := 0

def set (state : State W) (sleep : Nat) (value : Option (Sleep W)) : State W :=
  { state with sleeps := Function.update state.sleeps sleep value }

section Set

variable (state : State W) (sleep : Nat) (value : Option (Sleep W))

@[simp] theorem set_clock : (state.set sleep value).clock = state.clock := rfl
@[simp] theorem set_now : (state.set sleep value).now = state.now := rfl

@[simp]
theorem set_same : (state.set sleep value).sleeps sleep = value := by
  simp [set]

theorem set_ne {other : Nat} (hne : other ≠ sleep) :
    (state.set sleep value).sleeps other = state.sleeps other := by
  simp [set, hne]

theorem set_eq_self (hvalue : state.sleeps sleep = value) : state.set sleep value = state := by
  rw [set, ← hvalue, Function.update_eq_self]

end Set

def step [Wakes W] (profile : Profile) (state : State W) :
    Op W → Outcome Panic (State W) (Output W)
  | .sleepUntil name deadline =>
      .when (state.sleeps name).isNone
        (.next (state.set name (some (Time.sleepUntil deadline))) {})
  | .poll name now waker =>
      match state.sleeps name with
      | none => .disabled
      | some sleep =>
          .when (decide (state.now ≤ now)) <| .ofExcept do
            let (clock, sleep, poll) ← sleep.poll profile state.clock now waker
            .ok ({ state with clock, now }.set name (some sleep), { polled := some poll })
  | .reset name deadline =>
      match state.sleeps name with
      | none => .disabled
      | some sleep => .ofExcept do
          let (clock, sleep) ← sleep.reset state.clock deadline
          .ok ({ state with clock }.set name (some sleep), {})
  | .drop name =>
      match state.sleeps name with
      | none => .disabled
      | some sleep => .next ({ state with clock := sleep.drop state.clock }.set name none) {}
  | .park now =>
      .when (decide (state.now ≤ now)) <|
        let (clock, handed, _) := state.clock.park now
        .next { state with clock, now } { handed }
  | .parkTimeout now duration =>
      .when (decide (state.now ≤ now)) <|
        let (clock, handed, _) := state.clock.parkTimeout now duration
        .next { state with clock, now } { handed }

end State

/-- Any number of sleeps on one clock. -/
def system [Wakes W] (profile : Profile) : System Panic (State W) (Op W) (Output W) where
  step := State.step profile

end Platoon.Time
