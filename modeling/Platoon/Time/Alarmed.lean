import Platoon.Runtime.Timeouts
import Platoon.Time.SleepRuns

/-!
# The alarm of a sleep

A sleep whose poll was pending has an alarm with the waker of that poll.  Whatever
happens to the other sleeps, the alarm stays until a park hands its waker out;
resetting the sleep moves it.
-/

namespace Platoon.Time

open Platoon.Foundation Platoon.Rust Platoon.Runtime

variable {W : Type}

/-- The clock holds the alarm of the sleep, with this waker. -/
def Alarmed (state : State W) (name deadline : Nat) (waker : W) : Prop :=
  ∃ id, state.sleeps name = some ⟨deadline, some (id, waker)⟩ ∧
    state.clock.alarms.get? (alarmKey deadline id) = some waker

/-- The operation ends the wait of a sleep, or starts another one. -/
def Op.renews (name : Nat) : Op W → Bool
  | .poll other _ _ | .drop other => other == name
  | _ => false

section Steps

variable {state last : State W} {timers : Timers} {name deadline : Nat} {waker : W}

theorem parkTimeout_handed (clock : Clock W) (now duration : Nat) :
    (clock.parkTimeout now duration).2.1 = (clock.extendWithExpired now).2.1 := by
  rcases hresult : clock.extendWithExpired now with ⟨rest, wakers, next⟩
  simp only [Clock.parkTimeout, hresult]
  cases next <;> rfl

/-- With an alarm pending, a park waits no longer than until its deadline. -/
theorem timeout_le_of_pending {clock : Clock W} {now id : Nat}
    (hentry : clock.alarms.get? (alarmKey deadline id) = some waker) (hpending : now < deadline) :
    ∃ timeout, (clock.extendWithExpired now).2.2 = some timeout ∧ timeout ≤ deadline - now := by
  have hlater : ((clock.alarms.splitOff (alarmKey (now + 1) 0)).2).get? (alarmKey deadline id) =
      some waker := by
    rw [OrderedMap.get?_splitOff_from, if_pos ((Clock.boundary_le now deadline id).mpr hpending),
      hentry]
  unfold Clock.extendWithExpired
  cases hready : (clock.alarms.splitOff (alarmKey (now + 1) 0)).1.values with
  | cons first rest => exact ⟨0, by simp [hready], Nat.zero_le _⟩
  | nil =>
      cases hfirst : (clock.alarms.splitOff (alarmKey (now + 1) 0)).2.first? with
      | none =>
          have hempty : (clock.alarms.splitOff (alarmKey (now + 1) 0)).2.entries = [] := by
            simpa [OrderedMap.first?] using hfirst
          rw [OrderedMap.get?_eq_some, hempty] at hlater
          cases hlater
      | some key =>
          have hle := OrderedMap.first?_le _ hfirst ((OrderedMap.get?_eq_some _ _ _).mp hlater)
          have hdue : (ofLex key).1 ≤ deadline := by
            rcases Prod.Lex.le_iff.mp hle with hlt | ⟨heq, -⟩
            · exact hlt.le
            · exact heq.le
          refine ⟨Clock.wholeMillis ((ofLex key).1 - now), by simp [hready, hfirst], ?_⟩
          calc Clock.wholeMillis ((ofLex key).1 - now)
              ≤ (ofLex key).1 - now := wholeMillis_le _
            _ ≤ deadline - now := Nat.sub_le_sub_right hdue now

/-- A park at `now` keeps an alarm of a later deadline and hands out the others. -/
theorem Alarmed.park (halarmed : Alarmed state name deadline waker) (now : Nat) :
    Alarmed { state with clock := (state.clock.extendWithExpired now).1, now } name deadline
        waker ∨
      (deadline ≤ now ∧ waker ∈ (state.clock.extendWithExpired now).2.1) := by
  obtain ⟨id, hsleep, hentry⟩ := halarmed
  by_cases hcome : deadline ≤ now
  · exact .inr ⟨hcome, (findsExpired_of_le state.clock id hcome waker hentry).1⟩
  · refine .inl ⟨id, hsleep, ?_⟩
    rw [Clock.get?_extendWithExpired, if_pos (Nat.lt_of_not_le hcome), hentry]

variable [Wakes W] {profile : Profile} {op : Op W} {output : Output W}

omit [Wakes W] in
/-- An alarmed sleep is one whose timer is armed. -/
theorem Matches.armed_of_alarmed (hmatches : Matches state timers)
    (halarmed : Alarmed state name deadline waker) :
    timers.timer name = some ⟨deadline, .armed⟩ := by
  obtain ⟨id, hsleep, hentry⟩ := halarmed
  have hagrees := hmatches.agrees name
  rw [hsleep] at hagrees
  generalize htimer : timers.timer name = timer at hagrees
  cases hagrees with
  | armed => rfl
  | fired hnone => simp [hnone] at hentry

omit [Wakes W] in
/-- A sleep that an operation does not touch keeps its alarm. -/
theorem Alarmed.of_same (halarmed : Alarmed state name deadline waker) {timers' : Timers}
    (hmatches : Matches last timers') (hsleep : last.sleeps name = state.sleeps name)
    (htimer : timers'.timer name = some ⟨deadline, .armed⟩) :
    Alarmed last name deadline waker := by
  obtain ⟨id, hbefore, -⟩ := halarmed
  have hagrees := hmatches.agrees name
  rw [hsleep, hbefore, htimer] at hagrees
  cases hagrees with
  | armed hentry => exact ⟨id, hsleep.trans hbefore, hentry⟩

/-- A step keeps the alarm of a sleep, under its deadline or the one it is reset to, or
hands its waker out. -/
theorem Matches.alarmed_step (hmatches : Matches state timers)
    (halarmed : Alarmed state name deadline waker) (hkeep : op.renews name = false)
    (hroom : (timers.step op).registered ≤ profile.usizeMax)
    (hstep : (Time.system profile).step state op = .next last output) :
    (∃ deadline', Alarmed last name deadline' waker) ∨ waker ∈ output.handed := by
  have hlast := hmatches.step hroom hstep
  have harmed := hmatches.armed_of_alarmed halarmed
  cases op with
  | sleepUntil other due =>
      simp only [Time.system, State.step, Outcome.when_eq_next, Option.isNone_iff_eq_none,
        Outcome.next.injEq] at hstep
      obtain ⟨hfree, rfl, -⟩ := hstep
      have hne : name ≠ other := by
        rintro rfl
        obtain ⟨id, hsleep, -⟩ := halarmed
        simp [hfree] at hsleep
      refine .inl ⟨deadline, halarmed.of_same hlast (State.set_ne _ _ _ hne) ?_⟩
      simpa [Timers.step, Timers.set_ne _ _ _ hne] using harmed
  | poll other now polling =>
      have hne : name ≠ other := by
        rintro rfl
        simp [Op.renews] at hkeep
      simp only [Time.system, State.step] at hstep
      split at hstep
      · cases hstep
      · simp only [Outcome.when_eq_next, Outcome.ofExcept_eq_next] at hstep
        obtain ⟨⟨clock, sleep, result⟩, -, heq⟩ := ok_of_bind hstep.2
        cases heq
        refine .inl ⟨deadline, halarmed.of_same hlast (State.set_ne _ _ _ hne) ?_⟩
        simp only [Timers.step]
        split
        · split
          · simpa [Timers.set, hne] using harmed
          · exact harmed
        · exact harmed
  | reset other due =>
      simp only [Time.system, State.step] at hstep
      split at hstep
      · cases hstep
      · rename_i sleep hsleep
        rw [Outcome.ofExcept_eq_next] at hstep
        obtain ⟨⟨clock, after⟩, hreset, heq⟩ := ok_of_bind hstep
        cases heq
        by_cases heq : name = other
        · subst heq
          obtain ⟨id, hbefore, hentry⟩ := halarmed
          rw [hbefore, Option.some.injEq] at hsleep
          subst hsleep
          simp only [Sleep.reset, Clock.resetAlarm, hentry, ok_bind] at hreset
          cases hreset
          exact .inl ⟨due, id, State.set_same _ _ _, by simp [OrderedMap.get?_insert]⟩
        · refine .inl ⟨deadline, halarmed.of_same hlast (State.set_ne _ _ _ heq) ?_⟩
          simpa [Timers.step, Timers.set_ne _ _ _ heq] using harmed
  | drop other =>
      have hne : name ≠ other := by
        rintro rfl
        simp [Op.renews] at hkeep
      simp only [Time.system, State.step] at hstep
      split at hstep
      · cases hstep
      · cases hstep
        refine .inl ⟨deadline, halarmed.of_same hlast (State.set_ne _ _ _ hne) ?_⟩
        simpa [Timers.step, Timers.set_ne _ _ _ hne] using harmed
  | park now =>
      simp only [Time.system, State.step, Outcome.when_eq_next, Outcome.next.injEq] at hstep
      obtain ⟨-, rfl, rfl⟩ := hstep
      rcases halarmed.park now with hkept | ⟨-, hmem⟩
      · exact .inl ⟨deadline, hkept⟩
      · exact .inr hmem
  | parkTimeout now duration =>
      simp only [Time.system, State.step, Outcome.when_eq_next, Outcome.next.injEq] at hstep
      obtain ⟨-, rfl, rfl⟩ := hstep
      rw [Clock.parkTimeout_clock, parkTimeout_handed]
      rcases halarmed.park now with hkept | ⟨-, hmem⟩
      · exact .inl ⟨deadline, hkept⟩
      · exact .inr hmem

/-- A pending poll leaves an alarm with the waker of the polling task. -/
theorem Matches.alarmed_of_pending (hmatches : Matches state timers) {now : Nat}
    (hexact : Wakes.Exact W)
    (hroom : (timers.step (.poll name now waker)).registered ≤ profile.usizeMax)
    (hstep : (Time.system profile).step state (.poll name now waker) = .next last output)
    (hpending : output.polled = some .pending) :
    ∃ deadline, Alarmed last name deadline waker := by
  simp only [Time.system, State.step] at hstep
  split at hstep
  · cases hstep
  · rename_i sleep hsleep
    simp only [Outcome.when_eq_next, decide_eq_true_eq, Outcome.ofExcept_eq_next] at hstep
    obtain ⟨clock, after, result, hpoll, -, hregistered⟩ :=
      hmatches.poll hsleep hstep.1 waker hroom
    rw [hpoll, ok_bind] at hstep
    cases hstep.2
    obtain ⟨id, stored, halarm, hentry, hequivalent, -⟩ :=
      hregistered (by simpa using hpending)
    obtain rfl := hexact _ _ hequivalent
    obtain ⟨deadline, alarm⟩ := after
    cases halarm
    exact ⟨deadline, id, State.set_same _ _ _, hentry⟩

end Steps

end Platoon.Time
