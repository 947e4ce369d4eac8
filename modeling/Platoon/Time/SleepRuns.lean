import Platoon.Time.Timers

/-!
# Runs of sleeps on one clock

Polling, dropping and parking never fail on an alarm.  Resetting fails exactly
for a sleep whose alarm has fired: the clock forgot the alarm, the sleep did not.
-/

namespace Platoon.Time

open Platoon.Foundation Platoon.Rust Platoon.Runtime

variable {W : Type} [Wakes W] {profile : Profile}

/-- The clock holds exactly one alarm for the sleep, under its deadline and id,
with a waker for the task of `polling`. -/
def Registered (clock : Clock W) (sleep : Sleep W) (polling : W) : Prop :=
  ∃ id stored, sleep.alarm = some (id, stored) ∧
    clock.alarms.get? (alarmKey sleep.deadline id) = some stored ∧
    Wakes.Equivalent stored polling ∧
    ∀ deadline, (clock.alarms.get? (alarmKey deadline id)).isSome → deadline = sleep.deadline

namespace Matches

variable {state last : State W} {timers : Timers} {name now : Nat} {sleep : Sleep W}

/-- The only alarm of an armed sleep is that of its deadline. -/
theorem registered (hmatches : Matches state timers) {deadline id : Nat} {stored polling : W}
    (hsleep : state.sleeps name = some ⟨deadline, some (id, stored)⟩)
    (hentry : state.clock.alarms.get? (alarmKey deadline id) = some stored)
    (hequivalent : Wakes.Equivalent stored polling) :
    Registered state.clock ⟨deadline, some (id, stored)⟩ polling := by
  refine ⟨id, stored, rfl, hentry, hequivalent, fun deadline' hsome => ?_⟩
  obtain ⟨waker, hget⟩ := Option.isSome_iff_exists.mp hsome
  exact (hmatches.entry_unique hsleep hget).1

/-- A poll never fails on the alarm; it registers the sleep when it is pending. -/
theorem poll (hmatches : Matches state timers) (hsleep : state.sleeps name = some sleep)
    (hnow : state.now ≤ now) (waker : W)
    (hroom : (timers.step (.poll name now waker)).registered ≤ profile.usizeMax) :
    ∃ clock sleep' result,
      sleep.poll profile state.clock now waker = .ok (clock, sleep', result) ∧
        Matches (State.set { state with clock, now } name (some sleep'))
          (timers.step (.poll name now waker)) ∧
        (result = .pending → Registered clock sleep' waker) := by
  have hagrees := hmatches.agrees name
  have hread := hmatches.reading hnow
  have hsleep' : ({ state with now } : State W).sleeps name = some sleep := hsleep
  rw [hsleep] at hagrees
  obtain ⟨deadline, alarm⟩ := sleep
  by_cases hcome : deadline ≤ now
  · have hstep : timers.step (.poll name now waker) = timers := by
      simp only [Timers.step]
      split
      · rename_i deadline' htimer
        rw [htimer] at hagrees
        cases hagrees
        rw [if_neg (Nat.not_lt.mpr hcome)]
      · rfl
    simp only [Sleep.poll, hcome, ↓reduceIte, hstep]
    refine ⟨_, _, _, rfl, ?_, by simp⟩
    exact (State.set_eq_self _ _ _ hsleep').symm ▸ hread
  · simp only [Sleep.poll, hcome, ↓reduceIte]
    generalize htimer : timers.timer name = timer at hagrees
    cases hagrees with
    | unregistered =>
        have hlt : now < deadline := Nat.lt_of_not_le hcome
        simp only [Timers.step, htimer, if_pos hlt] at hroom ⊢
        have hfits : state.clock.nextAlarm + 1 ≤ profile.usizeMax := by
          rw [hmatches.nextAlarm]
          exact hroom
        have hregister := hread.register waker hsleep'
        simp only [Clock.insertAlarm, Profile.add_of_le hfits, ok_bind]
        refine ⟨_, _, _, rfl, hregister, fun _ => ?_⟩
        exact hregister.registered (State.set_same _ _ _)
          (by simp [OrderedMap.get?_insert]) (Wakes.Equivalent.refl waker)
    | @armed deadline id stored hentry =>
        have hstep : timers.step (.poll name now waker) = timers := by
          simp [Timers.step, htimer]
        have hset : timers.set name (some ⟨deadline, .armed⟩) = timers := by
          rw [Timers.set, ← htimer, Function.update_eq_self]
        rw [hstep]
        by_cases hwill : Wakes.willWake stored waker = true
        · simp only [hwill, ↓reduceIte]
          refine ⟨_, _, _, rfl, (State.set_eq_self _ _ _ hsleep').symm ▸ hread, fun _ => ?_⟩
          exact hmatches.registered hsleep hentry (Wakes.of_willWake hwill)
        · simp only [hwill, Bool.false_eq_true, ↓reduceIte, Clock.replaceAlarmWaker, hentry,
            ok_bind]
          let replaced : Clock W := { state.clock with
            alarms := state.clock.alarms.insert (alarmKey deadline id) waker }
          have hmove : Matches
              (State.set { state with clock := replaced, now } name
                (some ⟨deadline, some (id, waker)⟩))
              (timers.set name (some ⟨deadline, .armed⟩)) := by
            refine hread.move hsleep' rfl fun deadline' other => ?_
            rw [OrderedMap.get?_insert]
            simp only [Clock.alarmKey_inj]
            split <;> rfl
          rw [hset] at hmove
          refine ⟨_, _, _, rfl, hmove, fun _ => ?_⟩
          exact hmove.registered (State.set_same _ _ _)
            (by simp [replaced, OrderedMap.get?_insert]) (Wakes.Equivalent.refl waker)
    | fired hentry hpast => exact absurd (hpast.trans hnow) hcome

omit [Wakes W] in
/-- A reset fails exactly when the alarm of the sleep has fired. -/
theorem reset (hmatches : Matches state timers) (hsleep : state.sleeps name = some sleep)
    (deadline : Nat) :
    (sleep.reset state.clock deadline = .error .unwrapNone ∧
        ∃ due, timers.timer name = some ⟨due, .fired⟩) ∨
      ((∀ due, timers.timer name ≠ some ⟨due, .fired⟩) ∧ ∃ clock sleep',
        sleep.reset state.clock deadline = .ok (clock, sleep') ∧
          Matches (State.set { state with clock } name (some sleep'))
            (timers.step (.reset name deadline : Op W))) := by
  have hagrees := hmatches.agrees name
  rw [hsleep] at hagrees
  obtain ⟨old, alarm⟩ := sleep
  generalize htimer : timers.timer name = timer at hagrees
  cases hagrees with
  | unregistered =>
      refine .inr ⟨by simp, ?_⟩
      simp only [Sleep.reset, Timers.step, htimer, Option.map_some]
      exact ⟨_, _, rfl, hmatches.setUnregistered (by simp [hsleep])⟩
  | @armed deadline' id stored hentry =>
      refine .inr ⟨by simp, ?_⟩
      simp only [Sleep.reset, Clock.resetAlarm, hentry, ok_bind, Timers.step, htimer,
        Option.map_some]
      refine ⟨_, _, rfl, hmatches.move hsleep rfl fun deadline' other => ?_⟩
      simp only [OrderedMap.get?_insert, OrderedMap.get?_erase, Clock.alarmKey_inj]
  | fired hentry hcome =>
      refine .inl ⟨?_, _, rfl⟩
      simp [Sleep.reset, Clock.resetAlarm, hentry]

/-- A step, with room for the alarm it may register, keeps the agreement. -/
theorem step (hmatches : Matches state timers) {op : Op W} {output : Output W}
    (hroom : (timers.step op).registered ≤ profile.usizeMax)
    (hstep : (Time.system profile).step state op = .next last output) :
    Matches last (timers.step op) := by
  cases op with
  | sleepUntil name deadline =>
      simp only [Time.system, State.step, Outcome.when_eq_next, Option.isNone_iff_eq_none,
        Outcome.next.injEq] at hstep
      obtain ⟨hfree, rfl, -⟩ := hstep
      exact hmatches.setUnregistered (by simp [hfree])
  | poll name now waker =>
      simp only [Time.system, State.step] at hstep
      split at hstep
      · cases hstep
      · rename_i sleep hsleep
        simp only [Outcome.when_eq_next, decide_eq_true_eq, Outcome.ofExcept_eq_next] at hstep
        obtain ⟨clock, sleep', result, hpoll, hnext, -⟩ :=
          hmatches.poll hsleep hstep.1 waker hroom
        rw [hpoll, ok_bind] at hstep
        cases hstep.2
        exact hnext
  | reset name deadline =>
      simp only [Time.system, State.step] at hstep
      split at hstep
      · cases hstep
      · rename_i sleep hsleep
        rw [Outcome.ofExcept_eq_next] at hstep
        rcases hmatches.reset hsleep deadline with
          ⟨hpanic, -⟩ | ⟨-, clock, sleep', hreset, hnext⟩
        · simp [hpanic] at hstep
        · rw [hreset, ok_bind] at hstep
          cases hstep
          exact hnext
  | drop name =>
      simp only [Time.system, State.step] at hstep
      split at hstep
      · cases hstep
      · rename_i sleep hsleep
        cases hstep
        exact hmatches.drop hsleep
  | park now =>
      simp only [Time.system, State.step, Outcome.when_eq_next, decide_eq_true_eq,
        Outcome.next.injEq] at hstep
      obtain ⟨hnow, rfl, -⟩ := hstep
      exact hmatches.park hnow
  | parkTimeout now duration =>
      simp only [Time.system, State.step, Outcome.when_eq_next, decide_eq_true_eq,
        Outcome.next.injEq] at hstep
      obtain ⟨hnow, rfl, -⟩ := hstep
      rw [Clock.parkTimeout_clock]
      exact hmatches.park hnow

/-- A step fails on an alarm exactly when it resets a sleep whose alarm has fired. -/
theorem unwrap_iff (hmatches : Matches state timers) (op : Op W)
    (hroom : (timers.step op).registered ≤ profile.usizeMax) :
    (Time.system profile).step state op = .panic .unwrapNone ↔
      ∃ name deadline due, op = .reset name deadline ∧
        timers.timer name = some ⟨due, .fired⟩ := by
  cases op with
  | sleepUntil name deadline => simp [Time.system, State.step]
  | poll name now waker =>
      simp only [Time.system, State.step, reduceCtorEq, false_and, exists_const, iff_false]
      split
      · simp
      · rename_i sleep hsleep
        rw [Outcome.when_eq_panic, decide_eq_true_eq]
        rintro ⟨hnow, hpanic⟩
        obtain ⟨clock, sleep', result, hpoll, -⟩ := hmatches.poll hsleep hnow waker hroom
        simp [hpoll] at hpanic
  | reset name deadline =>
      simp only [Time.system, State.step, Op.reset.injEq]
      constructor
      · intro hpanic
        split at hpanic
        · cases hpanic
        · rename_i sleep hsleep
          rcases hmatches.reset hsleep deadline with
            ⟨-, due, hfired⟩ | ⟨-, clock, sleep', hreset, -⟩
          · exact ⟨name, deadline, due, ⟨rfl, rfl⟩, hfired⟩
          · simp [hreset] at hpanic
      · rintro ⟨name, deadline, due, ⟨rfl, rfl⟩, hfired⟩
        have hagrees := hmatches.agrees name
        rw [hfired] at hagrees
        split
        · rename_i hnone
          rw [hnone] at hagrees
          cases hagrees
        · rename_i sleep hsleep
          rcases hmatches.reset hsleep deadline with ⟨hpanic, -⟩ | ⟨hnot, -⟩
          · simp [hpanic]
          · exact absurd hfired (hnot due)
  | drop name =>
      simp only [Time.system, State.step, reduceCtorEq, false_and, exists_const, iff_false]
      split <;> simp
  | park now => simp [Time.system, State.step]
  | parkTimeout now duration => simp [Time.system, State.step]

end Matches

/-- The sleeps of a run agree with the timers of its trace. -/
theorem run_matches {trace : List (Op W × Output W)} {state : State W}
    (hrun : (Time.system profile).Run State.new trace state)
    (hroom : (Timers.after trace).registered ≤ profile.usizeMax) :
    Matches state (Timers.after trace) := by
  refine hrun.invariant (fun trace state =>
    (Timers.after trace).registered ≤ profile.usizeMax → Matches state (Timers.after trace))
    (fun _ => Matches.new) ?_ hroom
  intro trace middle last op output _ ih hstep hroom
  rw [Timers.after_snoc] at hroom ⊢
  have hgrow := Timers.registered_le_step (Timers.after trace) op
  exact (ih (hgrow.trans hroom)).step hroom hstep

/-- Over every run on a clock that does not run out of ids: a step fails on an alarm
exactly when it resets a sleep whose alarm has fired, and a pending poll leaves the
sleep registered once, under its deadline, for the task that polled it. -/
theorem alarms_follow_sleeps {trace : List (Op W × Output W)} {state : State W}
    (hrun : (Time.system profile).Run State.new trace state)
    (hroom : (Timers.after trace).registered < profile.usizeMax) :
    (∀ op, (Time.system profile).step state op = .panic .unwrapNone ↔
        ∃ name deadline due, op = .reset name deadline ∧
          (Timers.after trace).timer name = some ⟨due, .fired⟩) ∧
      ∀ name now waker last output,
        (Time.system profile).step state (.poll name now waker) = .next last output →
        output.polled = some .pending →
        ∃ sleep, last.sleeps name = some sleep ∧ Registered last.clock sleep waker := by
  have hmatches := run_matches hrun hroom.le
  have hstepRoom := fun op : Op W =>
    (Timers.step_registered_le (Timers.after trace) op).trans hroom
  refine ⟨fun op => hmatches.unwrap_iff op (hstepRoom op), ?_⟩
  intro name now waker last output hstep hpending
  simp only [Time.system, State.step] at hstep
  split at hstep
  · cases hstep
  · rename_i sleep hsleep
    simp only [Outcome.when_eq_next, decide_eq_true_eq, Outcome.ofExcept_eq_next] at hstep
    obtain ⟨clock, sleep', result, hpoll, -, hregistered⟩ :=
      hmatches.poll hsleep hstep.1 waker (hstepRoom _)
    rw [hpoll, ok_bind] at hstep
    cases hstep.2
    exact ⟨sleep', State.set_same _ _ _, hregistered (by simpa using hpending)⟩

/-- `interval_at(0, 1)` up to the second tick: the first returns at once and resets
the sleep, the second waits for the alarm that the park at instant 1 hands out. -/
def secondTick : List (Op Nat) :=
  [.sleepUntil 0 0, .poll 0 0 7, .reset 0 1, .poll 0 0 7, .park 1, .poll 0 1 7]

theorem secondTick_run :
    ∃ trace state, (Time.system Profile.release).Run (State.new : State Nat) trace state ∧
      (Timers.after trace).registered = 1 ∧
      (Timers.after trace).timer 0 = some ⟨1, .fired⟩ ∧
      state.sleeps 0 = some ⟨1, some (0, 7)⟩ ∧ state.clock.alarms.entries = [] := by
  have hcheck : ((Time.system Profile.release).exec (State.new : State Nat) secondTick).any
      (fun result => decide ((Timers.after result.1).registered = 1) &&
        decide ((Timers.after result.1).timer 0 = some ⟨1, .fired⟩) &&
        decide ((result.2.sleeps 0).map (fun sleep => (sleep.deadline, sleep.alarm)) =
          some (1, some (0, 7))) &&
        decide (result.2.clock.alarms.entries.map Prod.snd = [])) = true := by decide
  obtain ⟨trace, state, hrun, hpass⟩ := System.exec_check hcheck
  simp only [Bool.and_eq_true, decide_eq_true_eq, List.map_eq_nil_iff] at hpass
  obtain ⟨⟨⟨hregistered, htimer⟩, hsleep⟩, hentries⟩ := hpass
  obtain ⟨⟨deadline, alarm⟩, hname, hpair⟩ := Option.map_eq_some_iff.mp hsleep
  obtain ⟨rfl, rfl⟩ := Prod.mk.inj hpair
  exact ⟨trace, state, hrun, hregistered, htimer, hname, hentries⟩

/-- The second tick of an interval panics on the alarm that has fired. -/
theorem second_tick_panics :
    ∃ trace state, (Time.system Profile.release).Run (State.new : State Nat) trace state ∧
      (Time.system Profile.release).step state (.reset 0 2) = .panic .unwrapNone ∧
      Interval.tick Profile.release state.clock ⟨⟨1, some (0, 7)⟩, 1⟩ 1 1 7 =
        .error .unwrapNone := by
  obtain ⟨trace, state, hrun, -, -, hsleep, hentries⟩ := secondTick_run
  have hnone : state.clock.alarms.get? (alarmKey 1 0) = none := by
    rw [OrderedMap.get?, hentries]
    rfl
  refine ⟨trace, state, hrun, ?_, ?_⟩
  · simp [Time.system, State.step, hsleep, Sleep.reset, Clock.resetAlarm, hnone]
  · simp [Interval.tick, Sleep.poll, Sleep.reset, Clock.resetAlarm, hnone]

theorem alarms_follow_sleeps_secondTick :
    ∃ state : State Nat, state.sleeps 0 = some ⟨1, some (0, 7)⟩ ∧
      (Time.system Profile.release).step state (.reset 0 2) = .panic .unwrapNone ∧
      (Time.system Profile.release).step state (.poll 0 1 8) ≠ .panic .unwrapNone := by
  obtain ⟨trace, state, hrun, hregistered, htimer, hsleep, -⟩ := secondTick_run
  have hiff := (alarms_follow_sleeps hrun (by rw [hregistered]; decide)).1
  refine ⟨state, hsleep, (hiff _).mpr ⟨0, 2, 1, rfl, htimer⟩, fun hpanic => ?_⟩
  obtain ⟨name, deadline, due, heq, -⟩ := (hiff _).mp hpanic
  cases heq

end Platoon.Time
