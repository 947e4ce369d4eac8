import Platoon.Runtime.TaskTracking

/-!
# Runs of the executor

Whatever the tasks do, a woken task is queued, once, until a poll of it begins,
and no poll begins after its end.
-/

namespace Platoon.Runtime.Executor

open Platoon.Foundation Platoon.Rust

variable {V : Type}

/-- All observations of a trace in their order. -/
def history (trace : List (Op V × List (Observation V))) : List (Observation V) :=
  trace.flatMap Prod.snd

section Tasks

variable {executor last : Executor V} {trace : List (Op V × List (Observation V))}

@[simp]
theorem history_snoc (op : Op V) (events : List (Observation V)) :
    history (trace ++ [(op, events)]) = history trace ++ events := by
  simp [history]

theorem run_tracks (hrun : system.Run (new : Executor V) trace executor) :
    Tracks (history trace) executor := by
  refine hrun.invariant (fun trace executor => Tracks (history trace) executor) Tracks.new ?_
  intro trace middle last op events _ htracks hstep
  rw [history_snoc]
  exact htracks.step hstep

/-- A step that polls a task observes nothing else, and the task has not ended. -/
theorem live_of_polled_step {events observed : List (Observation V)} {op : Op V} {task : Nat}
    (htracks : Tracks observed executor) (hstep : executor.step op = .next last events)
    (hpolled : .polled task ∈ events) :
    events = [.polled task] ∧ (Life.after task observed).ended = false := by
  cases step_move hstep with
  | @run polls popped queue repr frames hstack hqueue htask hborrow hpayload =>
      have hsame : task = popped := by simpa using hpolled
      subst hsame
      obtain ⟨-, hended⟩ := (htracks.spawned htask).2.free_of_borrow hborrow
      constructor
      · rfl
      · by_contra hnot
        exact hended (by simpa using hnot) hpayload
  | loop hstack hgoto => cases hgoto <;> simp at hpolled
  | complete hstack htask =>
      simp only [complete] at hpolled
      split at hpolled <;> simp at hpolled
  | _ => simp at hpolled

/-- A poll begins only for a task that has not ended. -/
theorem live_of_polled (hrun : system.Run (new : Executor V) trace executor) {task : Nat}
    {before rest : List (Observation V)}
    (hhistory : history trace = before ++ .polled task :: rest) :
    (Life.after task before).ended = false := by
  refine hrun.invariant (fun trace _ => ∀ before rest,
    history trace = before ++ .polled task :: rest → (Life.after task before).ended = false)
    (by simp [history]) ?_ before rest hhistory
  intro trace middle last op events hprefix ih hstep before rest hhistory
  rw [history_snoc, List.append_eq_append_iff] at hhistory
  have hnew : ∀ inner, events = inner ++ .polled task :: rest →
      before = history trace ++ inner → (Life.after task before).ended = false := by
    intro inner hevents hbefore
    have hpolled : .polled task ∈ events := by simp [hevents]
    obtain ⟨halone, hlive⟩ := live_of_polled_step (run_tracks hprefix) hstep hpolled
    have hnil : inner = [] := by
      rw [hevents] at halone
      cases inner with
      | nil => rfl
      | cons event inner => simp at halone
    rw [hbefore, hnil, List.append_nil]
    exact hlive
  rcases hhistory with ⟨inner, hbefore, hevents⟩ | ⟨inner, hbefore, hinner⟩
  · exact hnew inner hevents hbefore
  · cases inner with
    | nil =>
        rw [List.append_nil] at hbefore
        exact hnew [] hinner.symm (by simp [hbefore])
    | cons event inner =>
        cases hinner
        exact ih before inner hbefore

/-- No task is queued twice. -/
theorem queue_nodup {observed : List (Observation V)} (htracks : Tracks observed executor) :
    executor.queue.Nodup := by
  rw [List.nodup_iff_count_le_one]
  intro task
  cases htask : executor.tasks task with
  | none => exact (htracks.unspawned htask).2.1.le.trans (Nat.zero_le 1)
  | some repr => exact (htracks.spawned htask).1.once

/-- A task that is polled exists. -/
theorem task_of_poll {task : Nat} {frames : List (Frame V)} {observed : List (Observation V)}
    (htracks : Tracks observed executor) (hstack : executor.stack = .poll task :: frames) :
    ∃ repr, executor.tasks task = some repr := by
  rw [← Option.isSome_iff_exists]
  by_contra hnone
  have htask : executor.tasks task = none := by simpa using hnone
  have hframes := (htracks.unspawned htask).2.2
  rw [hstack, List.filter_cons_of_pos (by simp [Frame.on])] at hframes
  cases hframes

/-- Where a task is when it yields: it goes to the back, unless it is queued already. -/
theorem queue_of_yield {task : Nat} {frames : List (Frame V)}
    (hrun : system.Run (new : Executor V) trace executor)
    (hstack : executor.stack = .poll task :: frames) :
    (task ∉ executor.queue ∧ (executor.wake (.task task)).queue = executor.queue ++ [task]) ∨
      (task ∈ executor.queue ∧ executor.wake (.task task) = executor) := by
  have htracks := run_tracks hrun
  obtain ⟨repr, htask⟩ := task_of_poll htracks hstack
  obtain ⟨hplaced, hused⟩ := htracks.spawned htask
  cases hstate : repr.state with
  | idle =>
      left
      have hcount := hplaced.idle hstate
      exact ⟨List.count_eq_zero.mp hcount, by simp [wake, htask, hstate]⟩
  | scheduled =>
      right
      have hcount := hplaced.scheduled hstate
      exact ⟨List.count_pos_iff.mp (by omega), by simp [wake, htask, hstate]⟩
  | done =>
      have hended := hplaced.done hstate
      rw [hstack, List.filter_cons_of_pos (by simp [Frame.on])] at hused
      generalize frames.filter (Frame.on task) = used at hused
      cases hused with
      | poll hborrow hpayload hlive =>
          rw [hended] at hlive
          cases hlive

/-- Over every run: a task is queued at most once; a task that was woken since its latest
poll began, and has neither finished nor been cancelled, is queued; and no task is polled
after it finished or was cancelled. -/
theorem woken_tasks_queued (hrun : system.Run (new : Executor V) trace executor) :
    executor.queue.Nodup ∧
      (∀ task before rest, history trace = before ++ .invoked (.task task) :: rest →
        .polled task ∉ rest → (executor.tasks task).isSome = true →
        .finished task ∉ history trace →
        (∀ output, .cancelled task output ∉ history trace) → task ∈ executor.queue) ∧
      ∀ task before rest, history trace = before ++ .polled task :: rest →
        .finished task ∉ before ∧ ∀ output, .cancelled task output ∉ before := by
  have htracks := run_tracks hrun
  refine ⟨queue_nodup htracks, ?_, ?_⟩
  · intro task before rest hhistory hrest hsome hfinished hcancelled
    obtain ⟨repr, htask⟩ := Option.isSome_iff_exists.mp hsome
    have hplaced := (htracks.spawned htask).1
    have hdue : (Life.after task (history trace)).due = true := by
      rw [hhistory]
      exact Life.due_after hrest
    have hlive : (Life.after task (history trace)).ended = false := by
      by_contra hended
      rcases Life.ended_after.mp (by simpa using hended) with hmem | ⟨output, hmem⟩
      · exact hfinished hmem
      · exact hcancelled output hmem
    have hcount := hplaced.scheduled (hplaced.due hdue hlive)
    exact List.count_pos_iff.mp (by omega)
  · intro task before rest hhistory
    have hlive := live_of_polled hrun hhistory
    have hnot : ¬ (Life.after task before).ended = true := by simp [hlive]
    rw [Life.ended_after] at hnot
    exact ⟨fun hmem => hnot (.inl hmem), fun output hmem => hnot (.inr ⟨output, hmem⟩)⟩

end Tasks

/-- A task that wakes itself in its first poll. -/
def selfWake : List (Op Nat) :=
  [.spawn 0, .blockOn, .advance, .ret .pending, .advance, .wake (.task 0)]

theorem woken_tasks_queued_selfWake :
    ∃ trace executor, system.Run (new : Executor Nat) trace executor ∧
      executor.stack = [.poll 0, .blockOn (.ran 60)] ∧ 0 ∈ executor.queue := by
  have hcheck : (system.exec (new : Executor Nat) selfWake).any (fun result =>
      decide (history result.1 = [.spawned 0, .mainPolled, .polled 0, .invoked (.task 0)]) &&
        (result.2.tasks 0).isSome &&
        decide (result.2.stack = [.poll 0, .blockOn (.ran 60)])) = true := by decide
  obtain ⟨trace, executor, hrun, hpass⟩ := System.exec_check hcheck
  simp only [Bool.and_eq_true, decide_eq_true_eq] at hpass
  obtain ⟨⟨hhistory, hsome⟩, hstack⟩ := hpass
  obtain ⟨-, hqueued, -⟩ := woken_tasks_queued hrun
  refine ⟨trace, executor, hrun, hstack, ?_⟩
  exact hqueued 0 [.spawned 0, .mainPolled, .polled 0] [] (by simpa using hhistory)
    (by simp) hsome (by simp [hhistory]) (by simp [hhistory])

end Platoon.Runtime.Executor
