import Platoon.Runtime.ReactorRuns
import Platoon.Runtime.ExecutorRuns

/-!
# Polling a source again

`poll_ready` wakes the waker it replaces, also when it is the one that polls.
A task that is polled for another reason thereby queues itself.
-/

namespace Platoon.Runtime

open Platoon.Foundation Platoon.Rust Platoon.Sys

namespace Reactor

section Repolling

variable {S : Type → Type} [Slab S] {W : Type} {reactor : Reactor Epoll S W} {call : Call Epoll W}

/-- The call is pending, releases no waker and leaves the kernel's table as it is. -/
def Quiet (reactor : Reactor Epoll S W) (call : Call Epoll W) : Prop :=
  ∃ last output, system.step reactor call = .next last output ∧
    output.answer = .polled .pending ∧ output.released = [] ∧ last.poller = reactor.poller

/-- A call that invokes a waker is not quiet. -/
theorem not_quiet {last : Reactor Epoll S W} {output : Output Epoll W}
    (hstep : system.step reactor call = .next last output) (hreleased : output.released ≠ []) :
    ¬ Quiet reactor call := by
  rintro ⟨last', output', hstep', -, hquiet, -⟩
  rw [hstep] at hstep'
  cases hstep'
  exact hreleased hquiet

/-- A poll of a direction that is not woken displaces the stored waker and wakes it. -/
theorem pollReady_displaces {faults : Faults} {key : Nat} {direction : Direction}
    {source : Source W} {stored : W} (waker : W)
    (hget : Slab.get? reactor.sources key = some source)
    (hpoller : (source.interest direction).poller = some stored)
    (hwoke : (source.interest direction).woke = false) :
    ∃ last, system.step reactor { op := .pollReady key direction waker, faults } =
        .next last { woken := [stored], handed := [], answer := .polled .pending } ∧
      last.poller = reactor.poller := by
  refine ⟨{ reactor with sources := Slab.set reactor.sources key (source.setInterest direction
    { source.interest direction with poller := some waker }) }, ?_, rfl⟩
  simp [system, step, pollReady_epoll, hget, hpoller, hwoke, Outcome.ofExcept]

end Repolling

end Reactor

namespace Executor

variable {V : Type} {executor : Executor V} {trace : List (Op V × List (Observation V))}
  {task : Nat} {frames : List (Frame V)}

/-- A task that is woken in its own poll is queued when the poll ends. -/
theorem queued_of_selfWake (hrun : system.Run new trace executor)
    (hstack : executor.stack = .poll task :: frames) :
    ∃ last, system.Run executor
        [(.wake (.task task), [.invoked (.task task)]), (.ret .pending, [])] last ∧
      task ∈ last.queue := by
  have hwake : system.step executor (.wake (.task task)) =
      .next (executor.wake (.task task)) [.invoked (.task task)] := by
    simp [system, step, userRuns, hstack, Frame.userRuns, Outcome.when]
  have hwoken : (executor.wake (.task task)).stack = .poll task :: frames := by
    rw [stack_wake, hstack]
  have hqueued : task ∈ (executor.wake (.task task)).queue := by
    rcases queue_of_yield hrun hstack with ⟨-, hback⟩ | ⟨hmem, hsame⟩
    · simp [hback]
    · rwa [hsame]
  obtain ⟨repr, htask⟩ := task_of_poll (run_tracks (hrun.snoc hwake)) hwoken
  have hret : system.step (executor.wake (.task task)) (.ret .pending) =
      .next (release { executor.wake (.task task) with stack := frames } task repr) [] := by
    simp only [system, step, ret, hwoken, htask]
  exact ⟨_, (System.Run.single hwake).snoc hret, hqueued⟩

end Executor

section Claims

variable {S : Type → Type} [Slab S] {W V : Type} [Wakes W]

/-- Over every run of the reactor: a direction that is polled again with a waker of the task
that waits for it, and is not woken, wakes that task and leaves the kernel alone.  Over every
run of the executor: a task that is woken in its poll is queued after it. -/
theorem polling_again_wakes :
    (∀ {trace : List (Reactor.Call Epoll W × Reactor.Output Epoll W)}
      {reactor : Reactor Epoll S W} {key : Nat} {direction : Direction} {source : Source W}
      {stored : W} (waker : W) (faults : Faults),
      Reactor.system.Run Reactor.new trace reactor →
      Slab.get? reactor.sources key = some source →
      (source.interest direction).poller = some stored →
      Wakes.willWake stored waker = true → (source.interest direction).woke = false →
      ¬ reactor.Quiet { op := .pollReady key direction waker, faults } ∧
        ∃ last, Reactor.system.step reactor { op := .pollReady key direction waker, faults } =
            .next last { woken := [stored], handed := [], answer := .polled .pending } ∧
          last.poller = reactor.poller) ∧
    ∀ {trace : List (Executor.Op V × List (Observation V))} {executor : Executor V} {task : Nat}
      {frames : List (Frame V)},
      Executor.system.Run Executor.new trace executor → executor.stack = .poll task :: frames →
      ∃ last, Executor.system.Run executor
          [(.wake (.task task), [.invoked (.task task)]), (.ret .pending, [])] last ∧
        task ∈ last.queue := by
  constructor
  · intro trace reactor key direction source stored waker faults _ hget hpoller _ hwoke
    obtain ⟨last, hstep, hkernel⟩ := Reactor.pollReady_displaces waker hget hpoller hwoke
    constructor
    · apply Reactor.not_quiet hstep
      simp [Reactor.Output.released]
    · exact ⟨last, hstep, hkernel⟩
  · intro trace executor task frames hrun hstack
    exact Executor.queued_of_selfWake hrun hstack

end Claims

/-- A task that waits for a descriptor and is polled for another reason. -/
theorem polledAgain_run :
    ∃ trace reactor, Reactor.system.Run (Reactor.new : Reactor Epoll FreeSlab Nat) trace reactor ∧
      Slab.get? reactor.sources 0 = some ⟨5, ⟨some 7, false⟩, ⟨none, false⟩⟩ := by
  have hcheck : (Reactor.system.exec (Reactor.new : Reactor Epoll FreeSlab Nat)
      [{ op := .insertSource 5 }, { op := .pollReady 0 .read 7 }]).any
      (fun result => decide (Slab.get? result.2.sources 0 =
        some ⟨5, ⟨some 7, false⟩, ⟨none, false⟩⟩)) = true := by decide
  obtain ⟨trace, reactor, hrun, hpass⟩ := System.exec_check hcheck
  exact ⟨trace, reactor, hrun, of_decide_eq_true hpass⟩

theorem polling_again_not_quiet :
    ¬ ∀ {trace : List (Reactor.Call Epoll Nat × Reactor.Output Epoll Nat)}
      {reactor : Reactor Epoll FreeSlab Nat} {key : Nat} {direction : Direction}
      {source : Source Nat} {stored waker : Nat},
      Reactor.system.Run Reactor.new trace reactor →
      Slab.get? reactor.sources key = some source →
      (source.interest direction).poller = some stored →
      Wakes.willWake stored waker = true → (source.interest direction).woke = false →
      reactor.Quiet { op := .pollReady key direction waker } := by
  intro hall
  obtain ⟨trace, reactor, hrun, hget⟩ := polledAgain_run
  have hquiet : reactor.Quiet { op := .pollReady 0 .read 7 } :=
    hall hrun hget rfl (by decide) rfl
  obtain ⟨last, hstep, -⟩ := Reactor.pollReady_displaces 7 hget
    (show (Source.interest _ .read).poller = some 7 from rfl) rfl
  exact Reactor.not_quiet hstep (by simp [Reactor.Output.released]) hquiet

/-- The task is woken, and an executor queues a task that is. -/
theorem polling_again_wakes_reader :
    (∃ trace reactor last,
      Reactor.system.Run (Reactor.new : Reactor Epoll FreeSlab Nat) trace reactor ∧
      Reactor.system.step reactor { op := .pollReady 0 .read 7 } =
        .next last { woken := [7], handed := [], answer := .polled .pending }) ∧
    ∃ trace executor last, Executor.system.Run (Executor.new : Executor Nat) trace executor ∧
      Executor.system.Run executor
          [(.wake (.task 0), [.invoked (.task 0)]), (.ret .pending, [])] last ∧
        0 ∈ last.queue := by
  constructor
  · obtain ⟨trace, reactor, hrun, hget⟩ := polledAgain_run
    have hreactor := (polling_again_wakes (V := Nat)).1 7 [] hrun hget
      (show (Source.interest _ .read).poller = some 7 from rfl) (by decide) rfl
    obtain ⟨-, last, hstep, -⟩ := hreactor
    exact ⟨trace, reactor, last, hrun, hstep⟩
  · have hcheck : (Executor.system.exec (Executor.new : Executor Nat)
        [.spawn 0, .blockOn, .advance, .ret .pending, .advance]).any
        (fun result => decide (result.2.stack = [.poll 0, .blockOn (.ran 60)])) = true := by decide
    obtain ⟨trace, executor, hrun, hpass⟩ := System.exec_check hcheck
    obtain ⟨last, hlast, hqueued⟩ := (polling_again_wakes (S := FreeSlab) (W := Nat)).2 hrun
      (of_decide_eq_true hpass)
    exact ⟨trace, executor, last, hrun, hlast, hqueued⟩

end Platoon.Runtime
