import Platoon.Runtime.Assembly
import Platoon.Runtime.ExecutorRuns
import Platoon.Runtime.ReactorRuns
import Platoon.Time.SleepRuns

/-!
# Runs of the assembled runtime

A run of the runtime is one of its executor, one of its sleeps on their clock and
one of its reactor.  A waker that one of them hands out is owed to its task by the
loop that parked, until the loop invokes it.
-/

namespace Platoon.Runtime

open Platoon.Foundation Platoon.Rust Platoon.Sys

/-! ## The vector of wakers -/

namespace Reactor

variable {P : Type} [Poller P] {S : Type → Type} [Slab S] {W : Type}

theorem takeIf_append (source : Source W) (carried : Bool) (direction : Direction)
    (front wakers : List W) :
    source.takeIf carried direction (front ++ wakers) =
      ((source.takeIf carried direction wakers).1,
        front ++ (source.takeIf carried direction wakers).2) := by
  cases carried <;> simp [Source.takeIf, Interest.take]

theorem handleEvent_append (faults : Poller.Faults P) (reactor : Reactor P S W) (e : Event)
    (front wakers : List W) :
    reactor.handleEvent faults e (front ++ wakers) =
      ((reactor.handleEvent faults e wakers).1,
        front ++ (reactor.handleEvent faults e wakers).2.1,
        (reactor.handleEvent faults e wakers).2.2) := by
  simp only [handleEvent, takeIf_append]
  cases Slab.get? reactor.sources e.key with
  | none => rfl
  | some source =>
      simp only
      split <;> rfl

theorem handleEvents_append (faults : Poller.Faults P) (reactor : Reactor P S W)
    (events : List Event) (front wakers : List W) :
    reactor.handleEvents faults (front ++ wakers) events =
      ((reactor.handleEvents faults wakers events).1,
        front ++ (reactor.handleEvents faults wakers events).2.1,
        (reactor.handleEvents faults wakers events).2.2) := by
  induction events generalizing reactor wakers with
  | nil => rfl
  | cons e events ih =>
      simp only [handleEvents, handleEvent_append]
      rcases reactor.handleEvent faults e wakers with ⟨middle, handed, result⟩
      cases result with
      | error errno => rfl
      | ok done => exact ih middle handed

/-- The reactor adds the wakers of its events to those that it is given. -/
theorem poll_append (faults : Poller.Faults P) (reactor : Reactor P S W)
    (waited : Except Errno (List (Poller.SysEvent P))) (front : List W) :
    reactor.poll faults waited front =
      ((reactor.poll faults waited []).1, front ++ (reactor.poll faults waited []).2.1,
        (reactor.poll faults waited []).2.2) := by
  cases waited with
  | ok events =>
      have happend := handleEvents_append faults reactor (events.map Poller.fromSys) front []
      rwa [List.append_nil] at happend
  | error errno => cases errno <;> simp [poll]

end Reactor

/-! ## Wakes by the clients -/

namespace Executor

variable {V : Type}

theorem wakeAll_userRuns (executor : Executor V) (wakers : List Waker) :
    (executor.wakeAll wakers).userRuns = executor.userRuns := by
  induction wakers generalizing executor with
  | nil => rfl
  | cons waker wakers ih =>
      rw [Executor.wakeAll, List.foldl_cons, ← Executor.wakeAll, ih]
      simp [Executor.userRuns]

/-- Code of the clients may wake one waker after the other. -/
theorem wakeAll_run {executor : Executor V} (huser : executor.userRuns = true)
    (wakers : List Waker) :
    Executor.system.Run executor (wakers.map fun waker => (.wake waker, [.invoked waker]))
      (executor.wakeAll wakers) := by
  induction wakers generalizing executor with
  | nil => exact .refl
  | cons waker wakers ih =>
      have hfirst : Executor.system.step executor (.wake waker) =
          .next (executor.wake waker) [.invoked waker] := by
        simp [Executor.system, Executor.step, huser]
      have hstays : (executor.wake waker).userRuns = true := by
        rw [← huser]
        exact wakeAll_userRuns executor [waker]
      exact (System.Run.single hfirst).trans (ih hstays)

end Executor

/-! ## The steps -/

namespace Assembly

variable {V : Type} {S : Type → Type} [Slab S] [Wakes Waker] {profile : Profile}

/-- The successful steps, by the part that takes them. -/
inductive Transition (profile : Profile) (runtime : Assembly V S) :
    Op V → Assembly V S → Output V → Prop where
  | executor {op : Executor.Op V} {executor : Executor V} {events : List (Observation V)}
      (hloop : op.parks = false)
      (hstep : Executor.system.step runtime.executor op = .next executor events) :
      Transition profile runtime (.executor op) { runtime with executor } (.executor events)
  | time {op : Time.Op Waker} {time : Time.State Waker} {output : Time.Output Waker}
      (huser : runtime.executor.userRuns = true) (hclients : ofClients op = true)
      (hstep : (Time.system profile).step runtime.time op = .next time output) :
      Transition profile runtime (.time op) { runtime with time } (.time output)
  | reactor {call : Reactor.Call Epoll Waker} {reactor : Reactor Epoll S Waker}
      {output : Reactor.Output Epoll Waker}
      (huser : runtime.executor.userRuns = true) (hclients : call.op.parks = false)
      (hstep : Reactor.system.step runtime.reactor call = .next reactor output) :
      Transition profile runtime (.reactor call)
        { runtime with reactor, executor := runtime.executor.wakeAll output.woken }
        (.reactor output)
  | park {now : Nat} {answer : Except Errno (List (Nat × BitVec 32))} {faults : Faults}
      {duration timeout : Option Nat} {clock : Clock Waker} {expired taken : List Waker}
      {reactor : Reactor Epoll S Waker} {executor : Executor V}
      (hcall : runtime.executor.parkCall = some duration) (hnow : runtime.time.now ≤ now)
      (hclock : runtime.time.clock.parkFor now duration = (clock, expired, timeout))
      (hreactor : Reactor.system.step runtime.reactor { op := .poll timeout answer, faults } =
        .next reactor
          { handed := taken, answer := .waited (Poller.timeout timeout) (.ok ()) })
      (hexecutor : Executor.system.step runtime.executor
        (.parkReturns (some (expired ++ taken))) = .next executor []) :
      Transition profile runtime (.park now answer faults)
        { executor, time := { runtime.time with clock, now }, reactor }
        (.parked { duration, expired, timeout, taken })

theorem step_transition {runtime last : Assembly V S} {op : Op V} {output : Output V}
    (hstep : (system profile).step runtime op = .next last output) :
    Transition profile runtime op last output := by
  cases op with
  | executor op =>
      simp only [system, step, Outcome.when_eq_next, Outcome.andThen_eq_next,
        Bool.not_eq_true'] at hstep
      obtain ⟨hloop, executor, events, hstep, hnext⟩ := hstep
      cases hnext
      exact .executor hloop hstep
  | time op =>
      simp only [system, step, Outcome.when_eq_next, Outcome.andThen_eq_next,
        Bool.and_eq_true] at hstep
      obtain ⟨⟨huser, hclients⟩, time, output, hstep, hnext⟩ := hstep
      cases hnext
      exact .time huser hclients hstep
  | reactor call =>
      simp only [system, step, Outcome.when_eq_next, Outcome.andThen_eq_next, Bool.and_eq_true,
        Bool.not_eq_true'] at hstep
      obtain ⟨⟨huser, hclients⟩, reactor, output, hstep, hnext⟩ := hstep
      cases hnext
      exact .reactor huser hclients hstep
  | park now answer faults =>
      simp only [system, step, park] at hstep
      split at hstep
      · cases hstep
      · rename_i duration hcall
        rw [Outcome.when_eq_next, decide_eq_true_eq] at hstep
        obtain ⟨hnow, hstep⟩ := hstep
        rcases hclock : runtime.time.clock.parkFor now duration with ⟨clock, expired, timeout⟩
        simp only [hclock] at hstep
        split at hstep
        · cases hstep
        · rename_i poller waited hanswer
          rw [Reactor.poll_append] at hstep
          rcases hpoll : Reactor.poll faults { runtime.reactor with poller } waited [] with
            ⟨reactor, taken, result⟩
          simp only [hpoll] at hstep
          cases result with
          | error errno => simp [Outcome.andThen_eq_next] at hstep
          | ok done =>
              simp only [Outcome.andThen_eq_next, List.drop_left] at hstep
              obtain ⟨executor, events, hreturns, hnext⟩ := hstep
              cases hnext
              have hsilent : events = [] := by
                simp only [Executor.parkReturns] at hreturns
                split at hreturns <;> cases hreturns <;> rfl
              subst hsilent
              refine .park hcall hnow hclock ?_ hreturns
              simp [Reactor.system, Reactor.step, hanswer, hpoll]

/-! ## The parts -/

/-- A run of the runtime is one of its executor. -/
theorem projects_executor :
    System.Projects (system (V := V) (S := S) profile) Executor.system Assembly.executor
      executorEvents := by
  intro runtime last op output hstep
  cases step_transition hstep with
  | executor hloop hinner => exact .single hinner
  | time huser hclients hinner => exact .refl
  | reactor huser hclients hinner => exact Executor.wakeAll_run huser _
  | park hcall hnow hclock hreactor hexecutor => exact .single hexecutor

/-- A run of the runtime is one of the sleeps on its clock. -/
theorem projects_time :
    System.Projects (system (V := V) (S := S) profile) (Time.system profile) Assembly.time
      timeEvents := by
  intro runtime last op output hstep
  cases step_transition hstep with
  | executor hloop hinner => exact .refl
  | time huser hclients hinner => exact .single hinner
  | reactor huser hclients hinner => exact .refl
  | @park now answer faults duration timeout clock expired taken reactor executor hcall hnow
      hclock hreactor hexecutor =>
      cases duration with
      | none =>
          refine .single ?_
          rw [Clock.parkFor] at hclock
          simp [Time.system, Time.State.step, hnow, hclock]
      | some duration =>
          refine .single ?_
          rw [Clock.parkFor] at hclock
          simp [Time.system, Time.State.step, hnow, hclock]

/-- A run of the runtime is one of its reactor. -/
theorem projects_reactor :
    System.Projects (system (V := V) (S := S) profile) Reactor.system Assembly.reactor
      reactorEvents := by
  intro runtime last op output hstep
  cases step_transition hstep with
  | executor hloop hinner => exact .refl
  | time huser hclients hinner => exact .refl
  | reactor huser hclients hinner => exact .single hinner
  | park hcall hnow hclock hreactor hexecutor => exact .single hreactor

end Assembly

end Platoon.Runtime
