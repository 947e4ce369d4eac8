import Platoon.Foundation.OrderedMap
import Platoon.Rust.Prelude
import Mathlib.Data.Prod.Lex

/-!
# The clock

The alarms of a `Clock`, ordered by deadline and id.  Instants and durations
are counted in nanoseconds.  Parking hands out the wakers of the expired alarms
and says how the parker below is called: `some duration` for `park_timeout`,
`none` for `park`.
-/

namespace Platoon.Runtime

open Platoon.Foundation Platoon.Rust

/-- `(Instant, usize)`, ordered lexicographically. -/
abbrev AlarmKey := Nat ×ₗ Nat

/-- The key of an alarm. -/
def alarmKey (deadline id : Nat) : AlarmKey := toLex (deadline, id)

structure Clock (W : Type) where
  nextAlarm : Nat
  alarms : OrderedMap AlarmKey W

namespace Clock

variable {W : Type}

def new : Clock W where
  nextAlarm := 0
  alarms := .empty

def insertAlarm (profile : Profile) (clock : Clock W) (deadline : Nat) (waker : W) :
    Except Panic (Clock W × Nat) := do
  let id := clock.nextAlarm
  let alarms := clock.alarms.insert (alarmKey deadline id) waker
  let nextAlarm ← profile.add clock.nextAlarm 1
  .ok ({ nextAlarm, alarms }, id)

def removeAlarm (clock : Clock W) (id deadline : Nat) : Clock W :=
  { clock with alarms := clock.alarms.erase (alarmKey deadline id) }

def resetAlarm (clock : Clock W) (id old new : Nat) : Except Panic (Clock W) :=
  match clock.alarms.get? (alarmKey old id) with
  | none => .error .unwrapNone
  | some waker =>
      .ok { clock with
        alarms := (clock.alarms.erase (alarmKey old id)).insert (alarmKey new id) waker }

def replaceAlarmWaker (clock : Clock W) (id deadline : Nat) (waker : W) :
    Except Panic (Clock W) :=
  match clock.alarms.get? (alarmKey deadline id) with
  | none => .error .unwrapNone
  | some _ => .ok { clock with alarms := clock.alarms.insert (alarmKey deadline id) waker }

/-- `Duration::from_millis(d.as_millis() as u64)`. -/
def wholeMillis (duration : Nat) : Nat := duration / 10 ^ 6 % 2 ^ 64 * 10 ^ 6

/-- `extend_with_expired` at the instant `now`: the remaining clock, the wakers
of the expired alarms, and the time to wait for the next one. -/
def extendWithExpired (clock : Clock W) (now : Nat) : Clock W × List W × Option Nat :=
  let (ready, later) := clock.alarms.splitOff (alarmKey (now + 1) 0)
  let clock := { clock with alarms := later }
  match ready.values with
  | [] => (clock, [], later.first?.map fun key => wholeMillis ((ofLex key).1 - now))
  | wakers => (clock, wakers, some 0)

/-- `Clock::park`. -/
def park (clock : Clock W) (now : Nat) : Clock W × List W × Option Nat :=
  clock.extendWithExpired now

/-- `Clock::park_timeout`. -/
def parkTimeout (clock : Clock W) (now duration : Nat) : Clock W × List W × Option Nat :=
  let (clock, wakers, next) := clock.extendWithExpired now
  match next with
  | some next => (clock, wakers, some (min duration next))
  | none => (clock, wakers, some duration)

/-! ## What the operations do to the map -/

section Get

variable (clock : Clock W) (now deadline id : Nat)

theorem alarmKey_inj {deadline' id' : Nat} :
    alarmKey deadline id = alarmKey deadline' id' ↔ deadline = deadline' ∧ id = id' := by
  simp [alarmKey]

/-- The boundary that parking splits at separates the expired alarms. -/
theorem boundary_le : alarmKey (now + 1) 0 ≤ alarmKey deadline id ↔ now < deadline := by
  rw [alarmKey, alarmKey, Prod.Lex.toLex_le_toLex]
  omega

theorem extendWithExpired_nextAlarm :
    (clock.extendWithExpired now).1.nextAlarm = clock.nextAlarm := by
  unfold extendWithExpired
  cases hready : (clock.alarms.splitOff (alarmKey (now + 1) 0)).1.values <;> simp [hready]

/-- Parking removes exactly the alarms whose deadline has come. -/
theorem get?_extendWithExpired :
    (clock.extendWithExpired now).1.alarms.get? (alarmKey deadline id) =
      if now < deadline then clock.alarms.get? (alarmKey deadline id) else none := by
  have hlater := clock.alarms.get?_splitOff_from (alarmKey (now + 1) 0) (alarmKey deadline id)
  simp only [boundary_le] at hlater
  unfold extendWithExpired
  cases hready : (clock.alarms.splitOff (alarmKey (now + 1) 0)).1.values <;>
    simpa [hready] using hlater

@[simp]
theorem parkTimeout_clock (duration : Nat) :
    (clock.parkTimeout now duration).1 = (clock.extendWithExpired now).1 := by
  rcases hresult : clock.extendWithExpired now with ⟨rest, wakers, next⟩
  simp only [parkTimeout, hresult]
  cases next <;> rfl

end Get

end Clock

end Platoon.Runtime
