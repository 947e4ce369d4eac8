import Platoon.Runtime.AssemblyRuns
import Platoon.Runtime.Owed
import Platoon.Time.Alarmed

/-!
# No task is forgotten

A task that waits for a sleep or for a descriptor left its waker with the clock or
the reactor.  It stays there until the parked loop takes it, is owed by that loop
until it is invoked, and the task is scheduled from then on.  So whatever waits
when the runtime parks is known to the clock or to the kernel.
-/

namespace Platoon.Runtime.Assembly

open Platoon.Foundation Platoon.Rust Platoon.Sys

variable {V : Type} {S : Type → Type}

/-- All that the executor showed in a trace. -/
def history (trace : List (Op V × Output V)) : List (Observation V) :=
  Executor.history (trace.flatMap executorEvents)

/-- The step invoked the waker. -/
def Invoked (waker : Waker) (event : Op V × Output V) : Prop := .invoked waker ∈ history [event]

/-- The step polls or drops the sleep. -/
def Renews (name : Nat) (event : Op V × Output V) : Prop :=
  ∃ inner ∈ timeEvents event, inner.1.renews name = true

/-- The step removes the source. -/
def Removes (key : Nat) (event : Op V × Output V) : Prop :=
  ∃ inner ∈ reactorEvents event, inner.1.op = .removeSource key

/-- How many alarms were registered. -/
def registered (trace : List (Op V × Output V)) : Nat :=
  (Time.Timers.after (trace.flatMap timeEvents)).registered

section Traces

variable {before after trace : List (Op V × Output V)} {event : Op V × Output V}

@[simp]
theorem history_append : history (before ++ after) = history before ++ history after := by
  simp [history, Executor.history]

theorem mem_history {observed : Observation V} :
    observed ∈ history trace ↔ ∃ event ∈ trace, observed ∈ history [event] := by
  simp only [history, Executor.history, List.mem_flatMap, List.mem_singleton]
  constructor
  · rintro ⟨inner, ⟨event, hmem, hinner⟩, hobserved⟩
    exact ⟨event, hmem, inner, ⟨event, rfl, hinner⟩, hobserved⟩
  · rintro ⟨event, hmem, inner, ⟨_, rfl, hinner⟩, hobserved⟩
    exact ⟨inner, ⟨_, hmem, hinner⟩, hobserved⟩

/-- The count of alarms never decreases. -/
theorem registered_le (hbegin : before <+: trace) : registered before ≤ registered trace := by
  obtain ⟨after, rfl⟩ := hbegin
  rw [registered, registered, List.flatMap_append]
  generalize after.flatMap timeEvents = more
  induction more using List.reverseRecOn with
  | nil => simp
  | append_singleton more event ih =>
      obtain ⟨op, output⟩ := event
      rw [← List.append_assoc, Time.Timers.after_snoc]
      exact ih.trans (Time.Timers.registered_le_step _ op)

end Traces

section Steps

variable [Slab S] [Wakes Waker] {profile : Profile} {runtime last : Assembly V S} {op : Op V}
  {output : Output V} {waker : Waker}

/-- A waker that a loop owes stays owed until it is invoked. -/
theorem owed_step (howed : runtime.executor.Owed waker)
    (hstep : (system profile).step runtime op = .next last output) :
    last.executor.Owed waker ∨ Invoked waker (op, output) := by
  cases step_transition hstep with
  | executor hloop hinner =>
      rcases Executor.owed_step howed hinner with hkept | hinvoked
      · exact .inl hkept
      · exact .inr (by simpa [Invoked, history, Executor.history, executorEvents] using hinvoked)
  | time huser hclients hinner => exact .inl howed
  | @reactor call reactor output huser hclients hinner =>
      rcases (Executor.wakeAll_run huser output.woken).kept_or_answered
          (fun executor => executor.Owed waker) (fun event => .invoked waker ∈ event.2) howed
          (fun _ _ hkept hnext => Executor.owed_step hkept hnext) with hkept | hinvoked
      · exact .inl hkept
      · refine .inr ?_
        obtain ⟨event, hmem, hinvoked⟩ := hinvoked
        rw [Invoked, history, Executor.history, List.mem_flatMap]
        exact ⟨event, by simpa [executorEvents] using hmem, hinvoked⟩
  | @park now answer faults duration timeout clock expired taken reactor executor hcall hnow
      hclock hreactor hexecutor =>
      have hreturns : runtime.executor.step (.parkReturns (some (expired ++ taken))) =
          .next executor [] := hexecutor
      rcases Executor.owed_step howed hreturns with hkept | hinvoked
      · exact .inl hkept
      · cases hinvoked

omit [Slab S] [Wakes Waker] in
/-- Every park takes the expired alarms out of the clock. -/
theorem parkFor_eq {clock rest : Clock Waker} {now : Nat} {duration timeout : Option Nat}
    {expired : List Waker} (hclock : clock.parkFor now duration = (rest, expired, timeout)) :
    rest = (clock.extendWithExpired now).1 ∧ expired = (clock.extendWithExpired now).2.1 := by
  cases duration with
  | none =>
      rw [Clock.parkFor, Clock.park] at hclock
      simp [hclock]
  | some duration =>
      rw [Clock.parkFor] at hclock
      rw [← Clock.parkTimeout_clock clock now duration,
        ← Time.parkTimeout_handed clock now duration, hclock]
      exact ⟨rfl, rfl⟩

omit [Slab S] in
/-- Only a park hands wakers out. -/
theorem handed_of_clients {time next : Time.State Waker} {op : Time.Op Waker}
    {output : Time.Output Waker} (hclients : ofClients op = true)
    (hstep : (Time.system profile).step time op = .next next output) : output.handed = [] := by
  cases op with
  | sleepUntil name deadline =>
      simp only [Time.system, Time.State.step, Outcome.when_eq_next] at hstep
      cases hstep.2
      rfl
  | poll name now waker =>
      simp only [Time.system, Time.State.step] at hstep
      split at hstep
      · cases hstep
      · simp only [Outcome.when_eq_next, Outcome.ofExcept_eq_next] at hstep
        obtain ⟨result, -, heq⟩ := ok_of_bind hstep.2
        cases heq
        rfl
  | reset name deadline =>
      simp only [Time.system, Time.State.step] at hstep
      split at hstep
      · cases hstep
      · rw [Outcome.ofExcept_eq_next] at hstep
        obtain ⟨result, -, heq⟩ := ok_of_bind hstep
        cases heq
        rfl
  | drop name =>
      simp only [Time.system, Time.State.step] at hstep
      split at hstep
      · cases hstep
      · cases hstep
        rfl
  | park now => cases hclients
  | parkTimeout now duration => cases hclients

/-- The alarm of a sleep stays in the clock until the parked loop owes its waker. -/
theorem alarmed_step {timers : Time.Timers} {name : Nat}
    (hmatches : Time.Matches runtime.time timers)
    (halarmed : ∃ deadline, Time.Alarmed runtime.time name deadline waker)
    (hkeep : ¬ Renews name (op, output))
    (hroom : (((timeEvents (op, output)).map Prod.fst).foldl Time.Timers.step timers).registered ≤
      profile.usizeMax)
    (hstep : (system profile).step runtime op = .next last output) :
    (∃ deadline, Time.Alarmed last.time name deadline waker) ∨ last.executor.Owed waker := by
  obtain ⟨deadline, halarmed⟩ := halarmed
  cases step_transition hstep with
  | executor hloop hinner => exact .inl ⟨deadline, halarmed⟩
  | @time op time output huser hclients hinner =>
      have hsame : op.renews name = false := by
        by_contra hrenews
        exact hkeep ⟨(op, output), by simp [timeEvents], by simpa using hrenews⟩
      rcases hmatches.alarmed_step halarmed hsame hroom hinner with hkept | hmem
      · exact .inl hkept
      · rw [handed_of_clients hclients hinner] at hmem
        cases hmem
  | reactor huser hclients hinner => exact .inl ⟨deadline, halarmed⟩
  | @park now answer faults duration timeout clock expired taken reactor executor hcall hnow
      hclock hreactor hexecutor =>
      obtain ⟨rfl, rfl⟩ := parkFor_eq hclock
      rcases halarmed.park now with hkept | ⟨-, hmem⟩
      · exact .inl ⟨deadline, hkept⟩
      · exact .inr (Executor.owed_of_parked (List.mem_append_left taken hmem) hexecutor)

/-- The waker of a source stays with it until it is invoked or the parked loop owes it. -/
theorem waiting_step {key : Nat} {direction : Direction}
    (hwaiting : runtime.reactor.Waiting key direction waker)
    (hkeep : ¬ Removes key (op, output))
    (hstep : (system profile).step runtime op = .next last output) :
    last.reactor.Waiting key direction waker ∨ last.executor.Owed waker ∨
      Invoked waker (op, output) := by
  cases step_transition hstep with
  | executor hloop hinner => exact .inl hwaiting
  | time huser hclients hinner => exact .inl hwaiting
  | @reactor call reactor output huser hclients hinner =>
      have hremoves : call.op ≠ .removeSource key := fun heq =>
        hkeep ⟨(call, output), by simp [reactorEvents], heq⟩
      rcases Reactor.waiting_step hwaiting hinner hremoves with hkept | hmem
      · exact .inl hkept
      · have hnone : output.handed = [] := by
          have htransition := Reactor.step_transition hinner
          generalize call.op = op at htransition hclients
          cases htransition with
          | insertSource => rfl
          | removeSource => rfl
          | pollReady => rfl
          | poll => cases hclients
        rw [Reactor.Output.released, hnone, List.append_nil] at hmem
        refine .inr (.inr ?_)
        simp [Invoked, history, Executor.history, executorEvents, hmem]
  | @park now answer faults duration timeout clock expired taken reactor executor hcall hnow
      hclock hreactor hexecutor =>
      have hpolled : runtime.reactor.step { op := .poll timeout answer, faults } = .next reactor
          { handed := taken, answer := .waited (Poller.timeout timeout) (.ok ()) } := hreactor
      rcases Reactor.waiting_step hwaiting hpolled (by simp) with hkept | hmem
      · exact .inl hkept
      · have htaken : waker ∈ taken := by simpa [Reactor.Output.released] using hmem
        exact .inr (.inl
          (Executor.owed_of_parked (List.mem_append_right expired htaken) hexecutor))

end Steps

section Runs

variable [Slab S] [Wakes Waker] {profile : Profile} {runtime : Assembly V S}
  {before after trace : List (Op V × Output V)} {waker : Waker}

theorem run_matches (hrun : (system profile).Run (new : Assembly V S) trace runtime)
    (hroom : registered trace ≤ profile.usizeMax) :
    Time.Matches runtime.time (Time.Timers.after (trace.flatMap timeEvents)) :=
  Time.run_matches (projects_time.run hrun) hroom

/-- The alarm of a sleep that was polled pending: over every run, it is in the clock until
the parked loop owes its waker, and the waker is owed until it is invoked. -/
theorem timer_wakes (hexact : Wakes.Exact Waker)
    (hrun : (system profile).Run (new : Assembly V S) trace runtime)
    (hroom : registered trace ≤ profile.usizeMax) {name now : Nat}
    {output : Time.Output Waker}
    (htrace : trace = before ++ (.time (.poll name now waker), .time output) :: after)
    (hpending : output.polled = some .pending) (hkeep : ∀ event ∈ after, ¬ Renews name event) :
    (∃ deadline, Time.Alarmed runtime.time name deadline waker) ∨ runtime.executor.Owed waker ∨
      ∃ event ∈ after, Invoked waker event := by
  subst htrace
  obtain ⟨start, hbefore, hrest⟩ := hrun.split
  obtain ⟨middle, hpoll, hafter⟩ := hrest.first_step
  have hpolled := hbefore.snoc hpoll
  have hroomPolled : registered (before ++ [(.time (.poll name now waker), .time output)]) ≤
      profile.usizeMax := (registered_le ⟨after, by simp⟩).trans hroom
  have hfirst : ∃ deadline, Time.Alarmed middle.time name deadline waker := by
    have hmatches := run_matches hbefore ((registered_le (List.prefix_append _ _)).trans hroom)
    cases step_transition hpoll with
    | time huser hclients hinner =>
        refine hmatches.alarmed_of_pending hexact ?_ hinner hpending
        rw [registered, List.flatMap_append] at hroomPolled
        simpa [timeEvents] using hroomPolled
  rw [← or_assoc]
  refine hafter.kept_or_answered (fun runtime =>
    (∃ deadline, Time.Alarmed runtime.time name deadline waker) ∨ runtime.executor.Owed waker)
    (Invoked waker) (.inl hfirst) ?_
  intro front rest state next op inner hsplit hfront hkept hstep
  rcases hkept with halarmed | howed
  · have hreached := hpolled.trans hfront
    have hroomFront : registered (before ++ [(.time (.poll name now waker), .time output)] ++
        front ++ [(op, inner)]) ≤ profile.usizeMax :=
      (registered_le ⟨rest, by simp [hsplit]⟩).trans hroom
    have hmatches := run_matches hreached
      ((registered_le (List.prefix_append _ _)).trans hroomFront)
    left
    refine alarmed_step hmatches halarmed (hkeep (op, inner) (by simp [hsplit])) ?_ hstep
    rw [registered, List.flatMap_append] at hroomFront
    simpa [Time.Timers.after] using hroomFront
  · rcases owed_step howed hstep with hstill | hinvoked
    · exact .inl (.inr hstill)
    · exact .inr hinvoked

/-- The waker of a pending `poll_ready`: over every run, with any faults of `epoll_ctl`, it
is stored with its source until it is displaced and invoked or the parked loop owes it, and
it is owed until it is invoked. -/
theorem readiness_wakes
    (hrun : (system profile).Run (new : Assembly V S) trace runtime) {key : Nat}
    {direction : Direction} {faults : Faults} {output : Reactor.Output Epoll Waker}
    (htrace : trace = before ++
      (.reactor { op := .pollReady key direction waker, faults }, .reactor output) :: after)
    (hpending : output.answer = .polled .pending)
    (hkeep : ∀ event ∈ after, ¬ Removes key event) :
    runtime.reactor.Waiting key direction waker ∨ runtime.executor.Owed waker ∨
      ∃ event ∈ after, Invoked waker event := by
  subst htrace
  obtain ⟨start, hbefore, hrest⟩ := hrun.split
  obtain ⟨middle, hpoll, hafter⟩ := hrest.first_step
  have hfirst : middle.reactor.Waiting key direction waker := by
    cases step_transition hpoll with
    | @reactor call reactor output huser hclients hinner =>
        have htransition : Reactor.Transition faults start.reactor
            (.pollReady key direction waker) reactor output := Reactor.step_transition hinner
        cases htransition with
        | pollReady hready =>
            cases hpending
            exact Reactor.waiting_of_pending hready
  rw [← or_assoc]
  refine hafter.kept_or_answered (fun runtime =>
    runtime.reactor.Waiting key direction waker ∨ runtime.executor.Owed waker)
    (Invoked waker) (.inl hfirst) ?_
  intro front rest state next op inner hsplit hfront hkept hstep
  rcases hkept with hwaiting | howed
  · rw [or_assoc]
    exact waiting_step hwaiting (hkeep (op, inner) (by simp [hsplit])) hstep
  · rcases owed_step howed hstep with hstill | hinvoked
    · exact .inl (.inr hstill)
    · exact .inr hinvoked

/-- When the innermost loop is about to call `park`, the waker of what is asleep was not invoked,
and only outer loops may owe it. -/
theorem quiet_of_parks (hrun : (system profile).Run (new : Assembly V S) trace runtime)
    {frames : List (Frame V)} (hparks : runtime.executor.stack = .blockOn .park :: frames)
    (htrace : trace = before ++ after)
    (hasleep : runtime.executor.Asleep (history trace) (history after) waker)
    (hnobody : ¬ Executor.OwedIn frames waker) :
    ¬ (runtime.executor.Owed waker ∨ ∃ event ∈ after, Invoked waker event) := by
  rintro (howed | hinvoked)
  · rw [Executor.Owed, hparks] at howed
    rcases howed.cons_cases with ⟨wakers, heq, -⟩ | hframes
    · cases heq
    · exact hnobody hframes
  · subst htrace
    obtain ⟨middle, hbefore, hafter⟩ := hrun.split
    refine Executor.not_invoked_of_parks (projects_executor.run hbefore)
      (projects_executor.run hafter) hparks ?_ (mem_history.mpr hinvoked)
    rw [← List.flatMap_append]
    exact hasleep

/-- A park now wakes the waiter, or asks the reactor to wait no longer than until its deadline.
The `c_int` that reaches `epoll_wait` then neither blocks for ever nor passes the deadline, as
long as less than `2 ^ 31` milliseconds are left. -/
def ParksUntil (profile : Profile) (runtime : Assembly V S) (deadline : Nat) (waker : Waker) :
    Prop :=
  ∀ now answer faults last parked,
    (system profile).step runtime (.park now answer faults) = .next last (.parked parked) →
    (deadline ≤ now ∧ last.executor.Owed waker) ∨
      (now < deadline ∧ ∃ timeout, parked.timeout = some timeout ∧ timeout ≤ deadline - now ∧
        (deadline - now < 2 ^ 31 * 10 ^ 6 →
          InTime (Epoll.timeout parked.timeout) (deadline - now)))

theorem parksUntil_of_alarmed {frames : List (Frame V)}
    (hparks : runtime.executor.stack = .blockOn .park :: frames) {name deadline : Nat}
    (halarmed : Time.Alarmed runtime.time name deadline waker) :
    ParksUntil profile runtime deadline waker := by
  intro now answer faults last parked hstep
  cases step_transition hstep with
  | @park _ _ _ duration timeout clock expired taken reactor executor hcall hnow hclock hreactor
      hexecutor =>
      obtain rfl : none = duration := by simpa [Executor.parkCall, hparks] using hcall
      obtain ⟨id, hsleep, hentry⟩ := halarmed
      by_cases hcome : deadline ≤ now
      · have hmem : waker ∈ expired := by
          rw [(parkFor_eq hclock).2]
          exact (findsExpired_of_le _ id hcome waker hentry).1
        exact .inl ⟨hcome, Executor.owed_of_parked (List.mem_append_left taken hmem) hexecutor⟩
      · have hpending := Nat.lt_of_not_le hcome
        obtain ⟨wait, hwait, hle⟩ := Time.timeout_le_of_pending hentry hpending
        rw [Clock.parkFor, Clock.park] at hclock
        have hasked : timeout = some wait := by rw [← hwait, hclock]
        refine .inr ⟨hpending, wait, hasked, hle, fun hnear => ?_⟩
        rw [hasked]
        exact inTime_of_near hle hnear

/-- Nothing that waits is forgotten by a runtime that parks: over every run, when a loop is
about to call `park`, a task that is asleep since it left its waker with a sleep or a source
is known to the clock, whose park ends in time, or to the reactor, which is armed for it when
no `epoll_ctl` call failed.  Exempt are the wakers that outer loops still owe. -/
theorem parked_waiters_known
    (hexact : Wakes.Exact Waker)
    (hrun : (system profile).Run (new : Assembly V S) trace runtime)
    (hroom : registered trace ≤ profile.usizeMax) {frames : List (Frame V)}
    (hparks : runtime.executor.stack = .blockOn .park :: frames) {event : Op V × Output V}
    (htrace : trace = before ++ event :: after)
    (hasleep : runtime.executor.Asleep (history trace) (history after) waker)
    (hnobody : ¬ Executor.OwedIn frames waker) :
    (∀ name now output, event = (.time (.poll name now waker), .time output) →
      output.polled = some .pending → (∀ later ∈ after, ¬ Renews name later) →
      ∃ deadline, Time.Alarmed runtime.time name deadline waker ∧
        ParksUntil profile runtime deadline waker) ∧
    ∀ key direction faults output,
      event = (.reactor { op := .pollReady key direction waker, faults }, .reactor output) →
      output.answer = .polled .pending → (∀ later ∈ after, ¬ Removes key later) →
      runtime.reactor.Waiting key direction waker ∧
        ((∀ call ∈ trace.flatMap reactorEvents, call.1.faults = []) →
          runtime.reactor.Armed key direction) := by
  have hsplit : trace = (before ++ [event]) ++ after := by simp [htrace]
  have hquiet := quiet_of_parks hrun hparks hsplit hasleep hnobody
  constructor
  · rintro name now output rfl hpending hkeep
    rcases timer_wakes hexact hrun hroom htrace hpending hkeep with ⟨deadline, halarmed⟩ | hleft
    · exact ⟨deadline, halarmed, parksUntil_of_alarmed hparks halarmed⟩
    · exact absurd hleft hquiet
  · rintro key direction faults output rfl hpending hkeep
    rcases readiness_wakes hrun htrace hpending hkeep with hwaiting | hleft
    · refine ⟨hwaiting, fun hfaultless => ?_⟩
      have hreactor : Reactor.faultless.Run Reactor.new (trace.flatMap reactorEvents)
          runtime.reactor :=
        (projects_reactor.run hrun).restrict_of_labels fun call hmem =>
          List.isEmpty_iff.mpr (hfaultless call hmem)
      exact Reactor.armed_of_waiting (Reactor.run_agrees hreactor) hwaiting
    · exact absurd hleft hquiet

end Runs

section Examples

instance : Wakes Waker := Wakes.byIdentity Waker

/-- A task waits for a sleep and for a source, and the loop has nothing else to do. -/
def oneWaiter : List (Op Nat) :=
  [.executor (.spawn 0), .executor .blockOn, .executor .advance, .executor (.ret .pending),
    .executor .advance, .time (.sleepUntil 0 5000000), .reactor { op := .insertSource 5 },
    .time (.poll 0 0 (.task 0)), .reactor { op := .pollReady 0 .read (.task 0) },
    .executor (.ret .pending), .executor .advance, .executor .advance]

/-- Its trace up to the two polls, the polls, and the way to the park. -/
def beforeWait : List (Op Nat × Output Nat) :=
  [(.executor (.spawn 0), .executor [.spawned 0]), (.executor .blockOn, .executor []),
    (.executor .advance, .executor [.mainPolled]), (.executor (.ret .pending), .executor []),
    (.executor .advance, .executor [.polled 0]), (.time (.sleepUntil 0 5000000), .time {}),
    (.reactor { op := .insertSource 5 }, .reactor { answer := .inserted (.ok 0) })]

def timerWait : Op Nat × Output Nat :=
  (.time (.poll 0 0 (.task 0)), .time { polled := some .pending })

def sourceWait : Op Nat × Output Nat :=
  (.reactor { op := .pollReady 0 .read (.task 0) }, .reactor { answer := .polled .pending })

def afterWait : List (Op Nat × Output Nat) :=
  [(.executor (.ret .pending), .executor []), (.executor .advance, .executor []),
    (.executor .advance, .executor [])]

theorem oneWaiter_run :
    ∃ runtime, (system Profile.release).Run (new : Assembly Nat FreeSlab)
        (beforeWait ++ timerWait :: sourceWait :: afterWait) runtime ∧
      runtime.executor.stack = [.blockOn .park] ∧
      runtime.executor.Wakeable (history (beforeWait ++ timerWait :: sourceWait :: afterWait))
        (.task 0) := by
  have hexec : (system Profile.release).exec (new : Assembly Nat FreeSlab) oneWaiter =
      some (beforeWait ++ timerWait :: sourceWait :: afterWait, _) := rfl
  exact ⟨_, System.exec_run hexec, rfl, rfl, by decide,
    by simp [history, Executor.history, executorEvents, beforeWait, timerWait, sourceWait,
      afterWait]⟩

theorem timer_wakes_oneWaiter :
    ∃ runtime : Assembly Nat FreeSlab, runtime.executor.stack = [.blockOn .park] ∧
      ((∃ deadline, Time.Alarmed runtime.time 0 deadline (.task 0)) ∨
        runtime.executor.Owed (.task 0) ∨
        ∃ event ∈ sourceWait :: afterWait, Invoked (.task 0) event) := by
  obtain ⟨runtime, hrun, hstack, -⟩ := oneWaiter_run
  refine ⟨runtime, hstack, timer_wakes Wakes.exact_byIdentity hrun (by decide) rfl rfl ?_⟩
  simp [Renews, timeEvents, sourceWait, afterWait]

theorem readiness_wakes_oneWaiter :
    ∃ runtime : Assembly Nat FreeSlab, runtime.executor.stack = [.blockOn .park] ∧
      (runtime.reactor.Waiting 0 .read (.task 0) ∨ runtime.executor.Owed (.task 0) ∨
        ∃ event ∈ afterWait, Invoked (.task 0) event) := by
  obtain ⟨runtime, hrun, hstack, -⟩ := oneWaiter_run
  rw [List.append_cons] at hrun
  refine ⟨runtime, hstack, readiness_wakes hrun rfl rfl ?_⟩
  simp [Removes, reactorEvents, afterWait]

theorem parked_waiters_known_oneWaiter :
    ∃ runtime : Assembly Nat FreeSlab, runtime.executor.stack = [.blockOn .park] ∧
      ∃ deadline, Time.Alarmed runtime.time 0 deadline (.task 0) ∧
        ParksUntil Profile.release runtime deadline (.task 0) := by
  obtain ⟨runtime, hrun, hstack, hwakeable⟩ := oneWaiter_run
  refine ⟨runtime, hstack, ?_⟩
  have hasleep : runtime.executor.Asleep
      (history (beforeWait ++ timerWait :: sourceWait :: afterWait))
      (history (sourceWait :: afterWait)) (.task 0) :=
    { wakeable := hwakeable
      unpolled := by
        simp [Executor.pollOf, history, Executor.history, executorEvents, sourceWait, afterWait]
      flag := by simp }
  have hknown := parked_waiters_known Wakes.exact_byIdentity hrun (by decide) hstack rfl hasleep
    (by simp [Executor.OwedIn])
  refine hknown.1 0 0 _ rfl rfl ?_
  simp [Renews, timeEvents, sourceWait, afterWait]

end Examples

end Platoon.Runtime.Assembly
