import Platoon.Runtime.ExecutorRuns

/-!
# Completion

A task that returned `Ready` is done from the end of the destructor of its
future, and its wakers do nothing any more.  This lasts until the task is
popped: `run` makes every task idle, also one that is done.
-/

namespace Platoon.Runtime.Executor

open Platoon.Foundation Platoon.Rust

variable {V : Type}

/-- The state cell of a task. -/
def taskState (executor : Executor V) (task : Nat) : Option TaskState :=
  (executor.tasks task).map TaskRepr.state

/-- A task that is popped is not done. -/
def runsLive (executor : Executor V) : Op V → Bool
  | .advance =>
      match executor.stack, executor.queue with
      | .blockOn (.tick (_ + 1)) :: _, task :: _ =>
          decide (executor.taskState task ≠ some .done)
      | _, _ => true
  | _ => true

/-- Done, or in the destructor of the future that returned `Ready`. -/
def Completed (executor : Executor V) (task : Nat) : Prop :=
  executor.taskState task = some .done ∨ ∃ value, .complete task value ∈ executor.stack

/-- Tasks whose futures returned `Ready` and were dropped are done, and waking them queues
nothing. -/
def CompletionTerminal (observed : List (Observation V)) (executor : Executor V) : Prop :=
  ∀ task, .finished task ∈ observed → (∀ value, .complete task value ∉ executor.stack) →
    executor.taskState task = some .done ∧
      (executor.wake (.task task)).queue = executor.queue

section States

variable {executor last : Executor V} {task other : Nat} {repr : TaskRepr V}

theorem taskState_eq (htask : executor.tasks task = some repr) :
    executor.taskState task = some repr.state := by
  simp [taskState, htask]

theorem taskState_set (repr : TaskRepr V) :
    (executor.set task repr).taskState other =
      if other = task then some repr.state else executor.taskState other := by
  by_cases heq : other = task
  · simp [taskState, set, heq]
  · simp [taskState, set, heq]

/-- A write that keeps the state cell. -/
theorem taskState_keep (htask : executor.tasks task = some repr) {repr' : TaskRepr V}
    (hstate : repr'.state = repr.state) (other : Nat) :
    (executor.set task repr').taskState other = executor.taskState other := by
  rw [taskState_set]
  split
  · rename_i heq
    rw [heq, taskState_eq htask, hstate]
  · rfl

/-- Waking a task makes no other task done, and leaves a done task as it is. -/
theorem done_wake (waker : Waker) (other : Nat) :
    (executor.wake waker).taskState other = some .done ↔
      executor.taskState other = some .done := by
  cases waker with
  | main => rfl
  | foreign name => rfl
  | task task =>
      cases htask : executor.tasks task with
      | none => simp [wake, htask]
      | some repr =>
          cases hstate : repr.state with
          | idle =>
              simp only [wake, htask, hstate]
              change (executor.set task _).taskState other = _ ↔ _
              rw [taskState_set]
              split
              · rename_i heq
                rw [heq, taskState_eq htask, hstate]
                simp
              · rfl
          | scheduled => simp [wake, htask, hstate]
          | done => simp [wake, htask, hstate]

/-- The queue takes no entry for a task that is done. -/
theorem queue_wake_done (hdone : executor.taskState task = some .done) :
    (executor.wake (.task task)).queue = executor.queue := by
  simp only [taskState, Option.map_eq_some_iff] at hdone
  obtain ⟨repr, htask, hstate⟩ := hdone
  simp [wake, htask, hstate]

end States

section Steps

variable {executor last : Executor V} {trace : List (Op V × List (Observation V))}

/-- A frame that is no `complete` is not seen. -/
theorem completeFrame_cons {frame : Frame V} {frames : List (Frame V)} {task : Nat}
    (hframe : ∀ value, frame ≠ .complete task value) :
    (∃ value, .complete task value ∈ frame :: frames) ↔
      ∃ value, .complete task value ∈ frames := by
  constructor
  · rintro ⟨value, hmem⟩
    rcases List.mem_cons.mp hmem with heq | htail
    · exact absurd heq.symm (hframe value)
    · exact ⟨value, htail⟩
  · rintro ⟨value, hmem⟩
    exact ⟨value, List.mem_cons_of_mem _ hmem⟩

/-- A step that neither finishes a task nor changes what is done. -/
theorem completed_silent {task : Nat} {events : List (Observation V)}
    (hstate : last.taskState task = some .done ↔ executor.taskState task = some .done)
    (hframes : (∃ value, .complete task value ∈ last.stack) ↔
      ∃ value, .complete task value ∈ executor.stack)
    (hevents : .finished task ∉ events) :
    Completed last task ↔ Completed executor task ∨ .finished task ∈ events := by
  simp only [Completed, hstate, hframes, hevents, or_false]

/-- A step that writes the other cells of one task. -/
theorem completed_write {task other : Nat} {repr repr' : TaskRepr V} {stack : List (Frame V)}
    {events : List (Observation V)} (htask : executor.tasks task = some repr)
    (hstate : repr'.state = repr.state)
    (hframes : (∃ value, .complete other value ∈ stack) ↔
      ∃ value, .complete other value ∈ executor.stack)
    (hevents : .finished other ∉ events) :
    Completed { executor.set task repr' with stack } other ↔
      Completed executor other ∨ .finished other ∈ events := by
  have hkeep := taskState_keep htask hstate other
  exact completed_silent (Eq.congr_left hkeep) hframes hevents

/-- A task that is made idle was not done. -/
theorem idle_iff {popped task : Nat} {repr : TaskRepr V}
    (hlive : executor.taskState popped ≠ some .done) (hidle : repr.state = .idle) :
    (executor.set popped repr).taskState task = some .done ↔
      executor.taskState task = some .done := by
  rw [taskState_set, hidle]
  split
  · rename_i heq
    rw [heq]
    simp [hlive]
  · rfl

/-- The end of the destructor of a future that returned `Ready`. -/
theorem done_complete {task : Nat} (repr : TaskRepr V) (value : V) (other : Nat) :
    (executor.complete task repr value).1.taskState other = some .done ↔
      other = task ∨ executor.taskState other = some .done := by
  have hset : ∀ done : TaskRepr V, done.state = .done →
      ((executor.set task done).taskState other = some .done ↔
        other = task ∨ executor.taskState other = some .done) := by
    intro done hdone
    rw [taskState_set, hdone]
    by_cases heq : other = task <;> simp [heq]
  unfold complete
  split
  · rw [done_wake]
    exact hset _ rfl
  · exact hset _ rfl

/-- While no done task is popped, exactly the tasks whose futures returned are completed. -/
theorem completed_step {op : Op V} {events : List (Observation V)}
    (hlive : runsLive executor op = true) (hstep : executor.step op = .next last events)
    (task : Nat) :
    Completed last task ↔ Completed executor task ∨ .finished task ∈ events := by
  cases step_move hstep with
  | loop hstack hgoto =>
      apply completed_silent (by rfl)
      · rw [hstack, completeFrame_cons (by simp), completeFrame_cons (by simp)]
      · cases hgoto <;> simp
  | run hstack hqueue htask hborrow hpayload =>
      simp only [runsLive, hstack, hqueue, decide_eq_true_eq] at hlive
      apply completed_silent
      · exact idle_iff hlive rfl
      · rw [hstack, completeFrame_cons (by simp), completeFrame_cons (by simp),
          completeFrame_cons (by simp)]
      · simp
  | skip hstack hqueue htask hborrow hpayload =>
      simp only [runsLive, hstack, hqueue, decide_eq_true_eq] at hlive
      apply completed_silent
      · exact idle_iff hlive rfl
      · rw [hstack, completeFrame_cons (by simp), completeFrame_cons (by simp)]
      · simp
  | handed hstack =>
      apply completed_silent
      · exact done_wake _ _
      · rw [stack_wake, hstack, completeFrame_cons (by simp), completeFrame_cons (by simp)]
      · simp
  | leave hstack =>
      apply completed_silent (by rfl)
      · rw [hstack, completeFrame_cons (by simp)]
      · simp
  | @finish finished repr value frames hstack htask =>
      have hstate : ∀ stack, ({ executor with stack } : Executor V).taskState task =
          executor.taskState task := fun _ => rfl
      simp only [Completed, hstate, hstack, List.mem_cons, List.not_mem_nil, or_false,
        Frame.complete.injEq, Observation.finished.injEq, reduceCtorEq, false_or, exists_or,
        exists_and_left, exists_eq]
      tauto
  | @complete finished repr value frames hstack htask =>
      have hevents : .finished task ∉
          ({ executor with stack := frames }.complete finished repr value).2 := by
        unfold complete
        split <;> simp
      simp only [Completed, done_complete, stack_complete, hstack, hevents, or_false,
        List.mem_cons, Frame.complete.injEq, exists_or, exists_and_left]
      have hstate : ({ executor with stack := frames } : Executor V).taskState task =
          executor.taskState task := rfl
      rw [hstate]
      simp
      tauto
  | pending hstack htask =>
      apply completed_write htask (by rfl)
      · rw [hstack, completeFrame_cons (by simp)]
      · simp
  | endCancel hstack htask =>
      apply completed_write htask (by rfl)
      · rw [hstack, completeFrame_cons (by simp)]
      · simp
  | store hstack htask =>
      apply completed_write htask (by rfl)
      · rw [hstack, completeFrame_cons (by simp), completeFrame_cons (by simp)]
      · simp
  | endJoin hstack htask =>
      apply completed_write htask (by rfl)
      · rw [hstack, completeFrame_cons (by simp)]
      · simp
  | blockOn huser =>
      apply completed_silent (by rfl)
      · rw [completeFrame_cons (by simp)]
      · simp
  | @spawn spawned huser htask =>
      apply completed_silent
      · change (executor.set spawned _).taskState task = _ ↔ _
        rw [taskState_set]
        split
        · rename_i heq
          simp [heq, taskState, htask]
        · rfl
      · rfl
      · simp
  | wake huser =>
      apply completed_silent
      · exact done_wake _ _
      · rw [stack_wake]
      · simp
  | joinReady huser htask hhandle hborrow hpayload =>
      exact completed_write htask (by rfl) (by rfl) (by simp)
  | joinPending huser htask hhandle hborrow hpayload =>
      apply completed_write htask (by rfl)
      · rw [completeFrame_cons (by simp)]
      · simp
  | cancelFuture huser htask hhandle hborrow hpayload =>
      apply completed_write htask (by rfl)
      · rw [completeFrame_cons (by simp)]
      · simp
  | cancelDone huser htask hhandle hborrow hpayload =>
      exact completed_write htask (by rfl) (by rfl) (by simp)
  | dropHandle huser htask hhandle =>
      exact completed_write htask (by rfl) (by rfl) (by simp)

/-- While no done task is popped, the completed tasks are those whose futures returned. -/
theorem completed_iff_finished
    (hrun : (system.restrict runsLive).Run (new : Executor V) trace executor) (task : Nat) :
    Completed executor task ↔ .finished task ∈ history trace := by
  refine hrun.invariant
    (fun trace executor => Completed executor task ↔ .finished task ∈ history trace)
    (by simp [Completed, taskState, new, history]) ?_
  intro trace middle last op events _ ih hstep
  obtain ⟨hlive, hstep⟩ := System.restrict_step.mp hstep
  rw [completed_step hlive hstep, ih, history_snoc, List.mem_append]

/-- No frame is in the destructor of a task that is being popped. -/
theorem not_complete_of_popped {observed : List (Observation V)} {task : Nat}
    {repr : TaskRepr V} (htracks : Tracks observed executor)
    (htask : executor.tasks task = some repr) (hborrow : repr.borrow = 0) (value : V) :
    .complete task value ∉ executor.stack := by
  intro hmem
  obtain ⟨hnone, -⟩ := (htracks.spawned htask).2.free_of_borrow hborrow
  have hused : Frame.complete task value ∈ executor.stack.filter (Frame.on task) := by
    simp [hmem, Frame.on]
  rw [hnone] at hused
  cases hused

/-- Popping a done task makes it idle. -/
theorem idle_of_popped_done {observed : List (Observation V)} {op : Op V}
    {events : List (Observation V)} (htracks : Tracks observed executor)
    (hstep : executor.step op = .next last events) (hdead : runsLive executor op = false) :
    ∃ task, executor.taskState task = some .done ∧ last.taskState task = some .idle ∧
      ∀ value, .complete task value ∉ last.stack := by
  cases step_move hstep with
  | @run polls task queue repr frames hstack hqueue htask hborrow hpayload =>
      have hnone := not_complete_of_popped htracks htask hborrow
      simp only [runsLive, hstack, hqueue, decide_eq_false_iff_not, not_not] at hdead
      refine ⟨task, hdead, by simp [taskState, set], fun value hmem => ?_⟩
      exact hnone value (by simpa [hstack] using hmem)
  | @skip polls task queue repr frames hstack hqueue htask hborrow hpayload =>
      have hnone := not_complete_of_popped htracks htask hborrow
      simp only [runsLive, hstack, hqueue, decide_eq_false_iff_not, not_not] at hdead
      refine ⟨task, hdead, by simp [taskState, set], fun value hmem => ?_⟩
      exact hnone value (by simpa [hstack] using hmem)
  | loop hstack hgoto =>
      cases hgoto with
      | park hqueue => simp [runsLive, hstack, hqueue] at hdead
      | _ => simp [runsLive, hstack] at hdead
  | handed hstack => simp [runsLive, hstack] at hdead
  | leave hstack => simp [runsLive, hstack] at hdead
  | complete hstack htask => simp [runsLive, hstack] at hdead
  | endCancel hstack htask => simp [runsLive, hstack] at hdead
  | store hstack htask => simp [runsLive, hstack] at hdead
  | endJoin hstack htask => simp [runsLive, hstack] at hdead
  | _ => simp [runsLive] at hdead

/-- Over every run: completion is terminal wherever the run passes, exactly if the run pops
no task that is done. -/
theorem done_for_ever (hrun : system.Run (new : Executor V) trace executor) :
    system.Always new trace (fun before middle => CompletionTerminal (history before) middle) ↔
      (system.restrict runsLive).Run new trace executor := by
  apply hrun.always_iff_restrict
  · intro task hmem
    simp [history] at hmem
  · intro trace middle last op events hguarded hstep
    constructor
    · intro hterminal
      by_contra hdead
      have htracks := run_tracks hguarded.of_restrict
      obtain ⟨task, hdone, hidle, hnone⟩ :=
        idle_of_popped_done htracks hstep (by simpa using hdead)
      have hfinished := (completed_iff_finished hguarded task).mp (.inl hdone)
      have hlast := (hterminal task (by simp [hfinished]) hnone).1
      rw [hidle] at hlast
      cases hlast
    · intro hlive task hfinished hnone
      have hlast : (system.restrict runsLive).Run new (trace ++ [(op, events)]) last :=
        .snoc hguarded (System.restrict_step.mpr ⟨hlive, hstep⟩)
      rcases (completed_iff_finished hlast task).mpr hfinished with hdone | ⟨value, hmem⟩
      · exact ⟨hdone, queue_wake_done hdone⟩
      · exact absurd hmem (hnone value)

end Steps

/-- A task that wakes itself in the poll that returns `Ready`. -/
def wokenAtCompletion : List (Op Nat) :=
  [.spawn 0, .blockOn, .advance, .ret .pending, .advance, .wake (.task 0), .ret (.ready 5),
    .advance]

/-- The entry left in the queue makes the task idle again, and its wakers queue it. -/
theorem wokenAtCompletion_resets :
    ¬ ∀ trace executor, system.Run (new : Executor Nat) trace executor →
      CompletionTerminal (history trace) executor := by
  intro hall
  have hcheck : (system.exec (new : Executor Nat) (wokenAtCompletion ++ [.advance, .advance])).any
      (fun result => decide (.finished 0 ∈ history result.1) &&
        decide (result.2.stack = [.blockOn (.ran 59)]) &&
        decide (result.2.taskState 0 = some .idle)) = true := by decide
  obtain ⟨trace, executor, hrun, hpass⟩ := System.exec_check hcheck
  simp only [Bool.and_eq_true, decide_eq_true_eq] at hpass
  obtain ⟨⟨hfinished, hstack⟩, hidle⟩ := hpass
  have hdone := (hall trace executor hrun 0 hfinished (by simp [hstack])).1
  rw [hidle] at hdone
  cases hdone

/-- Until that entry is popped, the task is done. -/
theorem done_for_ever_wokenAtCompletion :
    ∃ trace executor, system.Run (new : Executor Nat) trace executor ∧ 0 ∈ executor.queue ∧
      system.Always new trace
        (fun before middle => CompletionTerminal (history before) middle) := by
  have hcheck : ((system.restrict runsLive).exec (new : Executor Nat) wokenAtCompletion).any
      (fun result => decide (0 ∈ result.2.queue)) = true := by decide
  obtain ⟨trace, executor, hguarded, hqueued⟩ := System.exec_check hcheck
  have hrun := hguarded.of_restrict
  exact ⟨trace, executor, hrun, of_decide_eq_true hqueued, (done_for_ever hrun).mpr hguarded⟩

end Platoon.Runtime.Executor
