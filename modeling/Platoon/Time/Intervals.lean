import Platoon.Runtime.Alarms
import Platoon.Time.Sleep
import Mathlib.Data.List.Chain

/-!
# Ticks of an interval

One `Interval` on a clock that others use as well.  A tick that returns leaves a
record of its clock readings and of what it returned.  These records form a
schedule whose due instants follow from the readings alone.
-/

namespace Platoon.Time

open Platoon.Foundation Platoon.Rust Platoon.Runtime

variable {W : Type}

namespace Sleep

variable [Wakes W] {profile : Profile} {clock last : Clock W} {sleep sleep' : Sleep W}
  {now deadline : Nat} {waker : W} {poll : Poll Nat}

/-- A poll leaves the deadline, and is ready exactly when it has come. -/
theorem poll_spec (hpoll : sleep.poll profile clock now waker = .ok (last, sleep', poll)) :
    sleep'.deadline = sleep.deadline ∧
      ((sleep.deadline ≤ now ∧ poll = .ready sleep.deadline) ∨
        (now < sleep.deadline ∧ poll = .pending)) := by
  unfold Sleep.poll at hpoll
  split at hpoll
  · rename_i hcome
    cases hpoll
    exact ⟨rfl, .inl ⟨hcome, rfl⟩⟩
  · rename_i hpending
    have hlt := Nat.lt_of_not_le hpending
    split at hpoll
    · split at hpoll
      · cases hpoll
        exact ⟨rfl, .inr ⟨hlt, rfl⟩⟩
      · obtain ⟨clock', -, heq⟩ := ok_of_bind hpoll
        cases heq
        exact ⟨rfl, .inr ⟨hlt, rfl⟩⟩
    · obtain ⟨⟨clock', id⟩, -, heq⟩ := ok_of_bind hpoll
      cases heq
      exact ⟨rfl, .inr ⟨hlt, rfl⟩⟩

omit [Wakes W] in
theorem reset_deadline (hreset : sleep.reset clock deadline = .ok (last, sleep')) :
    sleep'.deadline = deadline := by
  unfold Sleep.reset at hreset
  split at hreset
  · obtain ⟨clock', -, heq⟩ := ok_of_bind hreset
    cases heq
    rfl
  · cases hreset
    rfl

end Sleep

/-- What one poll of a tick does: it is pending before the deadline of the sleep; else it
moves the deadline to a period after its second reading and returns that instant. -/
theorem Interval.tick_spec [Wakes W] {profile : Profile} {clock last : Clock W}
    {interval interval' : Interval W} {now later : Nat} {waker : W} {poll : Poll (Option Nat)}
    (htick : interval.tick profile clock now later waker = .ok (last, interval', poll)) :
    interval'.interval = interval.interval ∧
      ((poll = .pending ∧ interval'.sleep.deadline = interval.sleep.deadline) ∨
        (interval.sleep.deadline ≤ now ∧ poll = .ready (some (later + interval.interval)) ∧
          interval'.sleep.deadline = later + interval.interval)) := by
  unfold Interval.tick at htick
  cases hpoll : interval.sleep.poll profile clock now waker with
  | error reason => simp [hpoll] at htick
  | ok result =>
      obtain ⟨clock', sleep, polled⟩ := result
      obtain ⟨hdeadline, hready | hpending⟩ := Sleep.poll_spec hpoll
      · obtain ⟨hcome, rfl⟩ := hready
        simp only [hpoll, ok_bind] at htick
        obtain ⟨⟨clock'', sleep'⟩, hreset, heq⟩ := ok_of_bind htick
        have hmoved := Sleep.reset_deadline hreset
        cases heq
        exact ⟨rfl, .inr ⟨hcome, by rw [hmoved], hmoved⟩⟩
      · obtain ⟨-, rfl⟩ := hpending
        simp only [hpoll, ok_bind] at htick
        cases htick
        exact ⟨rfl, .inl ⟨rfl, hdeadline⟩⟩

/-! ## Schedules -/

/-- A tick that returned: the deadline its sleep had, the reading that found it due, the
reading from which the sleep was armed again, and the instant that was returned. -/
structure Tick where
  due : Nat
  completed : Nat
  rearmed : Nat
  returned : Nat
  deriving DecidableEq, Repr

/-- When the tick after these is due. -/
def nextDue (start period : Nat) (ticks : List Tick) : Nat :=
  match ticks.getLast? with
  | none => start
  | some tick => tick.rearmed + period

/-- The ticks of an interval in order: each is due a period after the one before it was
armed again, and returns when the next one is due. -/
inductive Scheduled (start period : Nat) : List Tick → Prop where
  | nil : Scheduled start period []
  | snoc {ticks : List Tick} {tick : Tick} (hticks : Scheduled start period ticks)
      (hdue : tick.due = nextDue start period ticks) (hcome : tick.due ≤ tick.completed)
      (hread : tick.completed ≤ tick.rearmed) (hreturned : tick.returned = tick.rearmed + period) :
      Scheduled start period (ticks ++ [tick])

@[simp]
theorem nextDue_nil (start period : Nat) : nextDue start period [] = start := rfl

@[simp]
theorem nextDue_snoc (start period : Nat) (ticks : List Tick) (tick : Tick) :
    nextDue start period (ticks ++ [tick]) = tick.rearmed + period := by
  simp [nextDue]

/-- Ticks as they ought to be: each completes in its turn and returns its own due instant,
which is then past; these instants begin with the start and are a period apart. -/
structure Lawful (start period : Nat) (ticks : List Tick) : Prop where
  inTime : ∀ turn tick, ticks[turn]? = some tick → start + turn * period ≤ tick.completed
  due : ∀ tick ∈ ticks, tick.returned = tick.due
  past : ∀ tick ∈ ticks, tick.returned ≤ tick.rearmed
  spaced : ticks.IsChain fun tick next => tick.returned + period ≤ next.returned
  first : ∀ tick, ticks.head? = some tick → tick.returned = start

namespace Scheduled

variable {start period : Nat} {ticks : List Tick}

theorem of_mem (hticks : Scheduled start period ticks) {tick : Tick} (hmem : tick ∈ ticks) :
    tick.due ≤ tick.completed ∧ tick.completed ≤ tick.rearmed ∧
      tick.returned = tick.rearmed + period := by
  induction hticks with
  | nil => cases hmem
  | snoc hticks hdue hcome hread hreturned ih =>
      rcases List.mem_append.mp hmem with hearlier | hlast
      · exact ih hearlier
      · rw [List.mem_singleton.mp hlast]
        exact ⟨hcome, hread, hreturned⟩

/-- No tick is due before its turn. -/
theorem nextDue_le (hticks : Scheduled start period ticks) :
    start + ticks.length * period ≤ nextDue start period ticks := by
  induction hticks with
  | nil => simp
  | @snoc ticks tick hticks hdue hcome hread hreturned ih =>
      have hturn : start + ticks.length * period ≤ tick.rearmed :=
        ih.trans (hdue ▸ hcome.trans hread)
      rw [nextDue_snoc, List.length_append, List.length_singleton, Nat.succ_mul, ← Nat.add_assoc]
      exact Nat.add_le_add_right hturn period

/-- Every tick completes in its turn. -/
theorem inTime (hticks : Scheduled start period ticks) {turn : Nat} {tick : Tick}
    (htick : ticks[turn]? = some tick) : start + turn * period ≤ tick.completed := by
  induction hticks with
  | nil => cases htick
  | @snoc ticks last hticks hdue hcome hread hreturned ih =>
      rw [List.getElem?_append] at htick
      split at htick
      · exact ih htick
      · rename_i hturn
        rw [List.getElem?_singleton] at htick
        split at htick
        · rename_i hzero
          cases htick
          have hlength : turn = ticks.length := by omega
          rw [hlength]
          exact hticks.nextDue_le.trans (hdue ▸ hcome)
        · cases htick

/-- The returned instants are at least a period apart. -/
theorem spaced (hticks : Scheduled start period ticks) :
    ticks.IsChain fun tick next => tick.returned + period ≤ next.returned := by
  induction hticks with
  | nil => exact .nil
  | @snoc ticks next hticks hdue hcome hread hreturned ih =>
      refine ih.append (.singleton next) fun tick htick next' hnext => ?_
      obtain rfl : next = next' := by simpa using hnext
      rw [Option.mem_def] at htick
      have hlast := (hticks.of_mem (List.mem_of_getLast? htick)).2.2
      have hafter : next.due = tick.rearmed + period := by rw [hdue, nextDue, htick]
      omega

/-- The first tick is due at the start. -/
theorem first_due (hticks : Scheduled start period ticks) {tick : Tick}
    (hfirst : ticks.head? = some tick) : tick.due = start := by
  induction hticks with
  | nil => cases hfirst
  | @snoc ticks last hticks hdue hcome hread hreturned ih =>
      cases ticks with
      | nil =>
          obtain rfl : last = tick := by simpa using hfirst
          exact hdue
      | cons other rest => exact ih hfirst

/-- A schedule is as it ought to be exactly when its period is zero and each tick is armed
again at the very instant it was due. -/
theorem lawful_iff (hticks : Scheduled start period ticks) :
    Lawful start period ticks ↔ ∀ tick ∈ ticks, period = 0 ∧ tick.rearmed = tick.due := by
  constructor
  · intro hlawful tick hmem
    obtain ⟨hcome, hread, hreturned⟩ := hticks.of_mem hmem
    have hdue := hlawful.due tick hmem
    omega
  · intro hexact
    have hdue : ∀ tick ∈ ticks, tick.returned = tick.due := by
      intro tick hmem
      obtain ⟨hzero, hsame⟩ := hexact tick hmem
      rw [(hticks.of_mem hmem).2.2, hzero, hsame, Nat.add_zero]
    refine ⟨fun turn tick => hticks.inTime, hdue, fun tick hmem => ?_, hticks.spaced,
      fun tick hfirst => ?_⟩
    · rw [hdue tick hmem, (hexact tick hmem).2]
    · rw [hdue tick (List.mem_of_head? hfirst), hticks.first_due hfirst]

end Scheduled

/-! ## One interval on a shared clock -/

namespace Ticking

/-- A poll of a tick with its two readings of the clock, or what others do on the clock. -/
inductive Op (W : Type) where
  | tick (now later : Nat) (waker : W)
  | others (op : Alarms.Op W)
  deriving DecidableEq, Repr

inductive Output (W : Type) where
  | ticked (poll : Poll (Option Nat))
  | others (output : Alarms.Output W)
  deriving DecidableEq, Repr

/-- An interval, its clock, and the latest reading of the clock. -/
structure State (W : Type) where
  clock : Clock W
  interval : Interval W
  now : Nat

/-- `interval_at` on a clock that may be in use. -/
def State.new (clock : Clock W) (now start period : Nat) : State W where
  clock := clock
  interval := intervalAt start period
  now := now

def step [Wakes W] (profile : Profile) (state : State W) :
    Op W → Outcome Panic (State W) (Output W)
  | .tick now later waker =>
      .when (decide (state.now ≤ now ∧ now ≤ later)) <| .ofExcept do
        let (clock, interval, poll) ← state.interval.tick profile state.clock now later waker
        -- a pending poll does not read the clock again
        let now := if poll = .pending then now else later
        .ok ({ clock, interval, now }, .ticked poll)
  | .others op =>
      .when (op.reading.all fun now => decide (state.now ≤ now)) <|
        ((Alarms.system profile).step state.clock op).andThen fun clock output =>
          .next { state with clock, now := op.reading.getD state.now } (.others output)

def system [Wakes W] (profile : Profile) : System Panic (State W) (Op W) (Output W) where
  step := step profile

/-- The record that a step leaves when it returns from a tick. -/
def returned (state : State W) : Op W → Output W → List Tick
  | .tick now later _, .ticked (.ready (some instant)) =>
      [{ due := state.interval.sleep.deadline, completed := now, rearmed := later,
         returned := instant }]
  | _, _ => []

section Runs

variable [Wakes W] {profile : Profile} {clock : Clock W} {now start period : Nat}
  {trace : List (Op W × Output W)} {state last : State W} {ticks : List Tick}
  {op : Op W} {output : Output W}

/-- A step leaves the interval as it is, or returns from a tick that was due. -/
theorem step_cases (hstep : (system profile).step state op = .next last output) :
    last.interval.interval = state.interval.interval ∧
      ((returned state op output = [] ∧
          last.interval.sleep.deadline = state.interval.sleep.deadline) ∨
        ∃ tick : Tick, returned state op output = [tick] ∧
          tick.due = state.interval.sleep.deadline ∧ tick.due ≤ tick.completed ∧
          tick.completed ≤ tick.rearmed ∧
          tick.returned = tick.rearmed + state.interval.interval ∧
          last.interval.sleep.deadline = tick.returned) := by
  cases op with
  | tick now later waker =>
      simp only [system, step, Outcome.when_eq_next, decide_eq_true_eq,
        Outcome.ofExcept_eq_next] at hstep
      obtain ⟨⟨-, hread⟩, hok⟩ := hstep
      obtain ⟨⟨clock, interval, poll⟩, htick, heq⟩ := ok_of_bind hok
      obtain ⟨hperiod, hpending | hready⟩ := Interval.tick_spec htick
      · obtain ⟨rfl, hdeadline⟩ := hpending
        cases heq
        exact ⟨hperiod, .inl ⟨rfl, hdeadline⟩⟩
      · obtain ⟨hcome, rfl, hdeadline⟩ := hready
        cases heq
        exact ⟨hperiod, .inr ⟨_, rfl, rfl, hcome, hread, rfl, hdeadline⟩⟩
  | others op =>
      simp only [system, step, Outcome.when_eq_next, Outcome.andThen_eq_next] at hstep
      obtain ⟨-, clock, inner, -, hnext⟩ := hstep
      cases hnext
      exact ⟨rfl, .inl ⟨rfl, rfl⟩⟩

/-- The ticks of a run form a schedule, and the sleep waits for the next one. -/
theorem run_scheduled
    (hrun : ((system profile).logged returned).Run (State.new clock now start period, []) trace
      (state, ticks)) :
    state.interval.interval = period ∧ Scheduled start period ticks ∧
      state.interval.sleep.deadline = nextDue start period ticks := by
  refine hrun.logged_invariant (fun _ state ticks => state.interval.interval = period ∧
    Scheduled start period ticks ∧
    state.interval.sleep.deadline = nextDue start period ticks) ⟨rfl, .nil, rfl⟩ ?_
  rintro trace middle last op output ticks - ⟨hperiod, hticks, hdeadline⟩ hstep
  obtain ⟨hsame, hnone | ⟨tick, hone, hdue, hcome, hread, hreturned, hnext⟩⟩ :=
    step_cases hstep
  · rw [hnone.1, List.append_nil, hnone.2]
    exact ⟨hsame.trans hperiod, hticks, hdeadline⟩
  · rw [hperiod] at hreturned
    rw [hone, nextDue_snoc, hnext]
    exact ⟨hsame.trans hperiod,
      hticks.snoc (hdue.trans hdeadline) hcome hread hreturned, hreturned⟩

/-- Over every run of polls and of other operations on the clock: each tick completes in
its turn, and the returned instants are a period apart; but the ticks return their own due
instants, the first of them the start, exactly when the period is zero and each tick is
armed again at the very instant it was due. -/
theorem ticks_lawful_iff
    (hrun : ((system profile).logged returned).Run (State.new clock now start period, []) trace
      (state, ticks)) :
    (∀ turn tick, ticks[turn]? = some tick → start + turn * period ≤ tick.completed) ∧
      (ticks.IsChain fun tick next => tick.returned + period ≤ next.returned) ∧
      (Lawful start period ticks ↔ ∀ tick ∈ ticks, period = 0 ∧ tick.rearmed = tick.due) := by
  obtain ⟨-, hticks, -⟩ := run_scheduled hrun
  exact ⟨fun turn tick => hticks.inTime, hticks.spaced, hticks.lawful_iff⟩

end Runs

/-- An interval without a period that starts at 3 and is polled before. -/
theorem ticks_lawful_noPeriod :
    Lawful 3 0 [⟨3, 3, 3, 3⟩, ⟨3, 3, 3, 3⟩] := by
  have hcheck : (((system Profile.release).logged returned).exec
      ((State.new .new 0 3 0 : State Nat), [])
      [.tick 1 1 7, .others (.park 2), .tick 3 3 7, .tick 3 3 7]).any
        (fun result => decide (result.2.2 = [⟨3, 3, 3, 3⟩, ⟨3, 3, 3, 3⟩])) = true := by decide
  obtain ⟨trace, ⟨state, ticks⟩, hrun, hpass⟩ := System.exec_check hcheck
  obtain rfl := of_decide_eq_true hpass
  exact (ticks_lawful_iff hrun).2.2.mpr (by decide)

/-- An interval of 10 that starts at once: the first tick returns the instant 10 at the
instant 0, and the second, polled late, returns 22 at 12. -/
theorem future_returned :
    ∃ trace state,
      ((system Profile.release).logged returned).Run ((State.new .new 0 0 10 : State Nat), [])
          trace (state, [⟨0, 0, 0, 10⟩, ⟨10, 12, 12, 22⟩]) ∧
        ¬ Lawful 0 10 [⟨0, 0, 0, 10⟩, ⟨10, 12, 12, 22⟩] := by
  have hcheck : (((system Profile.release).logged returned).exec
      ((State.new .new 0 0 10 : State Nat), [])
      [.tick 0 0 7, .tick 5 5 7, .others (.park 5), .tick 12 12 7]).any
        (fun result => decide (result.2.2 = [⟨0, 0, 0, 10⟩, ⟨10, 12, 12, 22⟩])) = true := by
    decide
  obtain ⟨trace, ⟨state, ticks⟩, hrun, hpass⟩ := System.exec_check hcheck
  obtain rfl := of_decide_eq_true hpass
  refine ⟨trace, state, hrun, fun hlawful => ?_⟩
  exact absurd (hlawful.first _ rfl) (by decide)

end Ticking

end Platoon.Time
