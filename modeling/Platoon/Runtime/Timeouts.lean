import Platoon.Runtime.Alarms
import Platoon.Runtime.EpollReactor
import Mathlib.Algebra.Ring.Int.Defs

/-!
# How long the thread may sleep

The time to the earliest alarm passes through `Clock::park`, the reactor and the
poller before it reaches `epoll_wait` as a 32-bit count of milliseconds.  The last
section is about sleeping long enough: a park whose wait has passed should not be
followed by another one for the same alarm.
-/

namespace Platoon.Runtime

open Platoon.Foundation Platoon.Rust Platoon.Sys

namespace Clock

variable {W : Type}

/-- With no alarm expired, parking hands out nobody and waits for the earliest one. -/
theorem park_of_first (clock : Clock W) {now deadline id : Nat}
    (hfirst : clock.alarms.first? = some (alarmKey deadline id)) (hpending : now < deadline) :
    clock.park now = (clock, [], some (wholeMillis (deadline - now))) := by
  obtain ⟨hready, hlater⟩ := clock.alarms.splitOff_of_le_first? (alarmKey (now + 1) 0) hfirst
    ((boundary_le now deadline id).mpr hpending)
  have hnobody : (clock.alarms.splitOff (alarmKey (now + 1) 0)).1.values = [] := by
    rw [hready]
    rfl
  unfold park extendWithExpired
  simp only [hnobody, hlater, hfirst, Option.map_some]
  rfl

end Clock

/-- The cast to `c_int` keeps the low 32 bits with their sign. -/
theorem timeout_some (duration : Nat) :
    Epoll.timeout (some duration) =
      if duration / 10 ^ 6 % 2 ^ 32 < 2 ^ 31 then ((duration / 10 ^ 6 % 2 ^ 32 : Nat) : Int)
      else ((duration / 10 ^ 6 % 2 ^ 32 : Nat) : Int) - 2 ^ 32 := by
  rw [Epoll.timeout, BitVec.toInt_eq_toNat_cond, BitVec.toNat_ofNat]
  generalize duration / 10 ^ 6 % 2 ^ 32 = low
  split <;> split <;> omega

/-- What `Clock::park` drops is no part of the low 32 bits. -/
theorem timeout_wholeMillis (duration : Nat) :
    Epoll.timeout (some (Clock.wholeMillis duration)) = Epoll.timeout (some duration) := by
  have hbits : Clock.wholeMillis duration / 10 ^ 6 % 2 ^ 32 = duration / 10 ^ 6 % 2 ^ 32 := by
    rw [Clock.wholeMillis, Nat.mul_div_cancel _ (by decide)]
    exact Nat.mod_mod_of_dvd _ (Nat.pow_dvd_pow 2 (by decide))
  rw [timeout_some, timeout_some, hbits]

/-- The argument of `epoll_wait` neither blocks for ever nor passes the time that is left. -/
def InTime (timeout : Int) (left : Nat) : Prop :=
  0 ≤ timeout ∧ timeout ≤ ((left + (10 ^ 6 - 1)) / 10 ^ 6 : Nat)

/-- Less than `2 ^ 31` milliseconds are waited for as they are, and no longer than was asked. -/
theorem inTime_of_near {asked left : Nat} (hle : asked ≤ left) (hnear : left < 2 ^ 31 * 10 ^ 6) :
    InTime (Epoll.timeout (some asked)) left := by
  have hmillis : asked / 10 ^ 6 % 2 ^ 32 = asked / 10 ^ 6 := Nat.mod_eq_of_lt (by omega)
  rw [timeout_some, hmillis, if_pos (by omega)]
  have hround : asked / 10 ^ 6 ≤ (left + (10 ^ 6 - 1)) / 10 ^ 6 :=
    Nat.div_le_div_right (hle.trans (Nat.le_add_right _ _))
  exact ⟨Int.natCast_nonneg _, Int.ofNat_le.mpr hround⟩

variable {S : Type → Type} [Slab S] {W : Type}

/-- With an alarm pending, the timeout that reaches `epoll_wait` is in time exactly when
the low 32 bits of the milliseconds left are those of a nonnegative `c_int`. -/
theorem timeout_in_time_iff {clock : Clock W} {now deadline id : Nat}
    (hfirst : clock.alarms.first? = some (alarmKey deadline id)) (hpending : now < deadline)
    {reactor last : Reactor Epoll S W} {answer : Except Errno (List (Nat × BitVec 32))}
    {faults : Faults} {output : Reactor.Output Epoll W}
    (hstep : Reactor.system.step reactor { op := .poll (clock.park now).2.2 answer, faults } =
      .next last output) :
    ∃ timeout result, output.answer = .waited timeout result ∧
      (InTime timeout (deadline - now) ↔ (deadline - now) / 10 ^ 6 % 2 ^ 32 < 2 ^ 31) := by
  rw [clock.park_of_first hfirst hpending] at hstep
  simp only [Reactor.system, Reactor.step] at hstep
  cases hpoll : Poller.poll reactor.poller answer with
  | none => simp [hpoll] at hstep
  | some waited =>
      simp only [hpoll, Outcome.next.injEq] at hstep
      refine ⟨Epoll.timeout (some (Clock.wholeMillis (deadline - now))), _,
        by rw [← hstep.2]; rfl, ?_⟩
      rw [timeout_wholeMillis, timeout_some, InTime]
      have hlow := Nat.mod_le ((deadline - now) / 10 ^ 6) (2 ^ 32)
      have hwidth := Nat.mod_lt ((deadline - now) / 10 ^ 6) (Nat.two_pow_pos 32)
      have hround : (deadline - now) / 10 ^ 6 ≤ (deadline - now + (10 ^ 6 - 1)) / 10 ^ 6 :=
        Nat.div_le_div_right (Nat.le_add_right _ _)
      generalize (deadline - now + (10 ^ 6 - 1)) / 10 ^ 6 = most at hround ⊢
      generalize (deadline - now) / 10 ^ 6 % 2 ^ 32 = low at hlow hwidth ⊢
      split
      · rename_i hsmall
        exact ⟨fun _ => hsmall, fun _ => ⟨by omega, by omega⟩⟩
      · rename_i hlarge
        exact ⟨fun hin => absurd hin.1 (by omega), fun hsmall => absurd hsmall hlarge⟩

/-- A single alarm, `distance` away from a clock that reads zero. -/
def singleAlarm (distance : Nat) : Clock Nat where
  nextAlarm := 1
  alarms := OrderedMap.empty.insert (alarmKey distance 0) 7

theorem timeout_in_time_singleAlarm :
    ∃ timeout result output,
      Reactor.Output.answer (P := Epoll) (W := Nat) output = .waited timeout result ∧
        InTime timeout (1500000 - 0) := by
  have hstep : Reactor.system.step (Reactor.new : Reactor Epoll FreeSlab Nat)
      { op := .poll ((singleAlarm 1500000).park 0).2.2 (.ok []) } =
        .next Reactor.new { answer := .waited (1 : Int) (.ok ()) } := rfl
  have hfirst : (singleAlarm 1500000).alarms.first? = some (alarmKey 1500000 0) := rfl
  obtain ⟨timeout, result, hanswer, hiff⟩ := timeout_in_time_iff hfirst (by decide) hstep
  exact ⟨timeout, result, _, hanswer, hiff.mpr (by decide)⟩

/-- With the only alarm 25 days away, `epoll_wait` is told to block for ever. -/
theorem distant_alarm_blocks :
    ∃ output, Reactor.system.step (Reactor.new : Reactor Epoll FreeSlab Nat)
        { op := .poll ((singleAlarm (2 ^ 31 * 10 ^ 6)).park 0).2.2 (.ok []) } =
          .next Reactor.new output ∧
      output.answer = .waited (-2 ^ 31 : Int) (.ok ()) ∧
      ¬ InTime (-2 ^ 31) (2 ^ 31 * 10 ^ 6 - 0) :=
  ⟨{ answer := .waited (-2 ^ 31 : Int) (.ok ()) }, rfl, rfl, fun hin => absurd hin.1 (by decide)⟩

/-! ## Sleeping long enough -/

/-- A duration rounded up to a whole millisecond. -/
def roundUp (duration : Nat) : Nat := (duration + (10 ^ 6 - 1)) / 10 ^ 6 * 10 ^ 6

/-- A park that reads `now` finds the alarm expired: it hands out its waker and forgets it. -/
def FindsExpired (clock : Clock W) (now deadline id : Nat) : Prop :=
  ∀ waker, clock.alarms.get? (alarmKey deadline id) = some waker →
    waker ∈ (clock.park now).2.1 ∧ (clock.park now).1.alarms.get? (alarmKey deadline id) = none

/-- The park at `now` waits for the earliest alarm without spinning.  Its wait is the time
left rounded up to a whole millisecond, which `epoll_wait` is told in full; when that has
passed, the next park, on any clock that still has the alarm, finds it expired. -/
structure SleepsThrough (reactor : Reactor Epoll S W) (clock : Clock W)
    (now deadline id waits : Nat) : Prop where
  parked : (clock.park now).2.2 = some waits
  rounded : waits = roundUp (deadline - now)
  positive : 0 < waits
  enough : deadline - now ≤ waits
  timesOut : deadline - now < 2 ^ 31 * 10 ^ 6 → ∃ timeout : Int,
    Reactor.system.step reactor { op := .poll (some waits) (.ok []) } =
        .next reactor { answer := .waited timeout (.ok ()) } ∧
      0 < timeout ∧ (deadline - now : Nat) ≤ timeout * 10 ^ 6 ∧
      ∀ (after : Clock W) (later : Nat), (now + timeout * 10 ^ 6 : Int) ≤ later →
        FindsExpired after later deadline id

/-- A park finds exactly the alarms expired whose deadline has come. -/
theorem findsExpired_of_le (clock : Clock W) {now deadline : Nat} (id : Nat)
    (hcome : deadline ≤ now) : FindsExpired clock now deadline id := by
  intro waker hentry
  constructor
  · rw [Clock.park, Alarms.handed_ready]
    exact List.mem_map_of_mem (Alarms.mem_ready.mpr ⟨hentry, hcome⟩)
  · rw [Clock.park, Clock.get?_extendWithExpired, if_neg (Nat.not_lt.mpr hcome)]

/-- Truncating to whole milliseconds never lengthens a wait. -/
theorem wholeMillis_le (duration : Nat) : Clock.wholeMillis duration ≤ duration :=
  calc Clock.wholeMillis duration
      ≤ duration / 10 ^ 6 * 10 ^ 6 := Nat.mul_le_mul_right _ (Nat.mod_le _ _)
    _ ≤ duration := Nat.div_mul_le_self duration (10 ^ 6)

/-- A wait is kept in full exactly when it is a whole number of milliseconds that fits
into 64 bits. -/
theorem le_wholeMillis_iff (duration : Nat) :
    duration ≤ Clock.wholeMillis duration ↔
      10 ^ 6 ∣ duration ∧ duration / 10 ^ 6 < 2 ^ 64 := by
  constructor
  · intro hle
    have hsame : duration / 10 ^ 6 % 2 ^ 64 * 10 ^ 6 = duration :=
      Nat.le_antisymm (wholeMillis_le duration) hle
    refine ⟨⟨duration / 10 ^ 6 % 2 ^ 64, by rw [Nat.mul_comm, hsame]⟩, ?_⟩
    rw [← hsame, Nat.mul_div_cancel _ (by decide)]
    exact Nat.mod_lt _ (Nat.two_pow_pos 64)
  · rintro ⟨hwhole, hfits⟩
    rw [Clock.wholeMillis, Nat.mod_eq_of_lt hfits, Nat.div_mul_cancel hwhole]

/-- A whole number of milliseconds stays as it is when it is rounded up. -/
theorem roundUp_of_dvd {duration : Nat} (hwhole : 10 ^ 6 ∣ duration) :
    roundUp duration = duration := by
  obtain ⟨millis, rfl⟩ := hwhole
  rw [roundUp, Nat.mul_add_div (by decide), Nat.div_eq_of_lt (by decide), Nat.add_zero,
    Nat.mul_comm]

/-- With no alarm expired, the park waits for the earliest one without spinning exactly
when the time left is a whole number of milliseconds that fits into 64 bits. -/
theorem sleeps_through_iff (reactor : Reactor Epoll S W) {clock : Clock W} {now deadline id : Nat}
    (hfirst : clock.alarms.first? = some (alarmKey deadline id)) (hpending : now < deadline) :
    (∃ waits, SleepsThrough reactor clock now deadline id waits) ↔
      10 ^ 6 ∣ deadline - now ∧ (deadline - now) / 10 ^ 6 < 2 ^ 64 := by
  have hparked := congrArg (fun result => result.2.2) (clock.park_of_first hfirst hpending)
  rw [← le_wholeMillis_iff]
  constructor
  · rintro ⟨waits, hsleeps⟩
    have hwaits := Option.some.inj (hsleeps.parked.symm.trans hparked)
    rw [← hwaits]
    exact hsleeps.enough
  · intro henough
    have hleft : 0 < deadline - now := Nat.sub_pos_of_lt hpending
    obtain ⟨hwhole, -⟩ := (le_wholeMillis_iff _).mp henough
    have hsame : Clock.wholeMillis (deadline - now) = deadline - now :=
      Nat.le_antisymm (wholeMillis_le _) henough
    refine ⟨Clock.wholeMillis (deadline - now), hparked, ?_, ?_, henough, ?_⟩
    · rw [hsame, roundUp_of_dvd hwhole]
    · rw [hsame]
      exact hleft
    · intro hnear
      obtain ⟨millis, hmillis⟩ := hwhole
      have hlow : (deadline - now) / 10 ^ 6 % 2 ^ 32 = millis := by
        rw [hmillis, Nat.mul_div_cancel_left _ (by decide)]
        exact Nat.mod_eq_of_lt (by omega)
      have htimeout : Epoll.timeout (some (Clock.wholeMillis (deadline - now))) = millis := by
        rw [timeout_wholeMillis, timeout_some, hlow, if_pos (by omega)]
      refine ⟨millis, ?_, by omega, by omega, fun after later hlater => ?_⟩
      · rw [← htimeout]
        rfl
      · exact findsExpired_of_le after id (by omega)

/-- In the last millisecond before the earliest deadline a park hands out nobody and does
not wait. -/
theorem park_spins {clock : Clock W} {now deadline id : Nat}
    (hfirst : clock.alarms.first? = some (alarmKey deadline id)) (hpending : now < deadline)
    (hlast : deadline - now < 10 ^ 6) : clock.park now = (clock, [], some 0) := by
  rw [clock.park_of_first hfirst hpending, Clock.wholeMillis, Nat.div_eq_of_lt hlast,
    Nat.zero_mod, Nat.zero_mul]

theorem sleeps_through_singleAlarm :
    ∃ waits, SleepsThrough (Reactor.new : Reactor Epoll FreeSlab Nat) (singleAlarm 2000000) 0
      2000000 0 waits :=
  (sleeps_through_iff _ rfl (by decide)).mpr (by decide)

/-- With half a millisecond left beyond the first one, the park waits for one millisecond;
the park after it finds nobody and does not wait at all. -/
theorem half_millisecond_spins :
    Reactor.system.step (Reactor.new : Reactor Epoll FreeSlab Nat)
        { op := .poll ((singleAlarm 1500000).park 0).2.2 (.ok []) } =
          .next Reactor.new { answer := .waited (1 : Int) (.ok ()) } ∧
      ((singleAlarm 1500000).park 0).1.park 1000000 = (singleAlarm 1500000, [], some 0) ∧
      ¬ ∃ waits, SleepsThrough (Reactor.new : Reactor Epoll FreeSlab Nat) (singleAlarm 1500000) 0
        1500000 0 waits := by
  refine ⟨rfl, park_spins (by rfl) (by decide) (by decide), ?_⟩
  rintro ⟨waits, hsleeps⟩
  have hparked : (some 1000000 : Option Nat) = some waits := hsleeps.parked
  have henough := hsleeps.enough
  rw [← Option.some.inj hparked] at henough
  exact absurd henough (by decide)

end Platoon.Runtime
