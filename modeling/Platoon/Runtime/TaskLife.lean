import Platoon.Runtime.Executor

/-!
# The life of a task

`Life` is what an observer knows about a task: whether it was woken since its
latest poll began, and whether it finished or was cancelled.  `Agrees` says
where the executor keeps such a task: its state cell, its place in the queue,
its payload, and the frame that uses it.
-/

namespace Platoon.Runtime

open Platoon.Foundation Platoon.Rust

variable {V : Type}

/-- `due`: woken since the latest poll began.  `ended`: finished or cancelled. -/
structure Life where
  due : Bool := false
  ended : Bool := false
  deriving DecidableEq, Repr

namespace Life

def next (task : Nat) (life : Life) : Observation V → Life
  | .invoked (.task other) => if other = task then { life with due := true } else life
  | .polled other => if other = task then { life with due := false } else life
  | .finished other => if other = task then { life with ended := true } else life
  | .cancelled other _ => if other = task then { life with ended := true } else life
  | _ => life

/-- The life of a task after a history of events. -/
def after (task : Nat) (history : List (Observation V)) : Life := history.foldl (next task) {}

@[simp]
theorem after_nil (task : Nat) : after task ([] : List (Observation V)) = {} := rfl

@[simp]
theorem after_snoc (task : Nat) (history : List (Observation V)) (event : Observation V) :
    after task (history ++ [event]) = (after task history).next task event := by
  simp [after]

/-- A task that was woken is due until a poll of it begins. -/
theorem due_after {task : Nat} {before rest : List (Observation V)}
    (hrest : .polled task ∉ rest) :
    (after task (before ++ .invoked (.task task) :: rest)).due = true := by
  induction rest using List.reverseRecOn with
  | nil => simp [next]
  | append_singleton rest event ih =>
      have hdue := ih fun hmem => hrest (List.mem_append_left _ hmem)
      rw [← List.cons_append, ← List.append_assoc, after_snoc]
      cases event with
      | polled other =>
          have hne : other ≠ task := by
            rintro rfl
            exact hrest (by simp)
          simpa [next, hne] using hdue
      | invoked waker =>
          cases waker with
          | main => exact hdue
          | task other =>
              simp only [next]
              split <;> simp [hdue]
          | foreign name => exact hdue
      | finished other =>
          simp only [next]
          split <;> exact hdue
      | cancelled other output =>
          simp only [next]
          split <;> exact hdue
      | spawned other => exact hdue
      | mainPolled => exact hdue
      | joined other waker result => exact hdue
      | returned value => exact hdue

/-- A task has ended when its future returned or its handle cancelled it. -/
theorem ended_after {task : Nat} {history : List (Observation V)} :
    (after task history).ended = true ↔
      .finished task ∈ history ∨ ∃ output, .cancelled task output ∈ history := by
  induction history using List.reverseRecOn with
  | nil => simp
  | append_singleton history event ih =>
      rw [after_snoc]
      cases event with
      | finished other =>
          by_cases heq : other = task
          · simp [next, heq]
          · have hne : task ≠ other := fun h => heq h.symm
            simp [next, heq, hne, ih]
      | cancelled other output =>
          by_cases heq : other = task
          · simp only [next, heq, ↓reduceIte, List.mem_append, List.mem_singleton, true_iff]
            exact .inr ⟨output, .inr rfl⟩
          · have hne : task ≠ other := fun h => heq h.symm
            simp [next, heq, hne, ih]
      | invoked waker =>
          cases waker with
          | main => simp [next, ih]
          | task other =>
              by_cases heq : other = task <;> simp [next, heq, ih]
          | foreign name => simp [next, ih]
      | polled other =>
          by_cases heq : other = task <;> simp [next, heq, ih]
      | spawned other => simp [next, ih]
      | mainPolled => simp [next, ih]
      | joined other waker result => simp [next, ih]
      | returned value => simp [next, ih]

end Life

/-- Whether the frame uses the payload of the task. -/
def Frame.on (task : Nat) : Frame V → Bool
  | .blockOn _ => false
  | .poll other => other == task
  | .complete other _ => other == task
  | .cancel other => other == task
  | .join other _ => other == task

/-- All that an executor holds for one task. -/
structure View (V : Type) where
  repr : Option (TaskRepr V)
  queued : Nat
  frames : List (Frame V)

def Executor.view (executor : Executor V) (task : Nat) : View V where
  repr := executor.tasks task
  queued := executor.queue.count task
  frames := executor.stack.filter (Frame.on task)

/-- The state cell, the queue and the payload of a task with the given life. -/
structure Placed (life : Life) (repr : TaskRepr V) (queued : Nat) : Prop where
  once : queued ≤ 1
  scheduled : repr.state = .scheduled → queued = 1
  idle : repr.state = .idle → queued = 0
  done : repr.state = .done → life.ended = true
  due : life.due = true → life.ended = false → repr.state = .scheduled
  live : life.ended = false → repr.payload = .future

/-- Once a task has ended, only its state cell and the queue matter. -/
theorem Placed.of_ended {life : Life} {repr repr' : TaskRepr V} {queued : Nat}
    (hplaced : Placed life repr queued) (hstate : repr'.state = repr.state) (due : Bool) :
    Placed { due, ended := true } repr' queued where
  once := hplaced.once
  scheduled h := hplaced.scheduled (hstate.symm.trans h)
  idle h := hplaced.idle (hstate.symm.trans h)
  done _ := rfl
  due _ h := by cases h
  live h := by cases h

/-- The frames that use the payload of a task; it is borrowed by at most one. -/
inductive Used (task : Nat) (life : Life) (repr : TaskRepr V) : List (Frame V) → Prop where
  | free (hborrow : repr.borrow = 0)
      (hended : life.ended = true → repr.payload ≠ .future) : Used task life repr []
  | poll (hborrow : repr.borrow = -1) (hpayload : repr.payload = .future)
      (hlive : life.ended = false) : Used task life repr [.poll task]
  | complete (value : V) (hborrow : repr.borrow = -1) (hended : life.ended = true) :
      Used task life repr [.complete task value]
  | cancel (hborrow : repr.borrow = -1) (hpayload : repr.payload = .taken)
      (hended : life.ended = true) : Used task life repr [.cancel task]
  | join (waker : Option Waker) (hborrow : repr.borrow = -1) (hpayload : repr.payload = .future)
      (hlive : life.ended = false) : Used task life repr [.join task waker]

/-- Only the borrow, the payload and the end of the task matter to its frames. -/
theorem Used.of_eq {task : Nat} {life life' : Life} {repr repr' : TaskRepr V}
    {frames : List (Frame V)} (hused : Used task life repr frames)
    (hended : life'.ended = life.ended) (hborrow : repr'.borrow = repr.borrow)
    (hpayload : repr'.payload = repr.payload) : Used task life' repr' frames := by
  cases hused with
  | free hfree hdone => exact .free (hborrow.trans hfree) (by rwa [hended, hpayload])
  | poll hbusy hfuture hlive =>
      exact .poll (hborrow.trans hbusy) (hpayload.trans hfuture) (hended.trans hlive)
  | complete value hbusy hdone =>
      exact .complete value (hborrow.trans hbusy) (hended.trans hdone)
  | cancel hbusy htaken hdone =>
      exact .cancel (hborrow.trans hbusy) (hpayload.trans htaken) (hended.trans hdone)
  | join waker hbusy hfuture hlive =>
      exact .join waker (hborrow.trans hbusy) (hpayload.trans hfuture) (hended.trans hlive)

/-- A payload that is not borrowed is used by no frame. -/
theorem Used.free_of_borrow {task : Nat} {life : Life} {repr : TaskRepr V}
    {frames : List (Frame V)} (hused : Used task life repr frames) (hfree : repr.borrow = 0) :
    frames = [] ∧ (life.ended = true → repr.payload ≠ .future) := by
  cases hused with
  | free _ hended => exact ⟨rfl, hended⟩
  | poll hbusy => rw [hfree] at hbusy; cases hbusy
  | complete value hbusy => rw [hfree] at hbusy; cases hbusy
  | cancel hbusy => rw [hfree] at hbusy; cases hbusy
  | join waker hbusy => rw [hfree] at hbusy; cases hbusy

/-- What the executor holds for a task with the given life. -/
inductive Consistent (task : Nat) (life : Life) : View V → Prop where
  | unspawned (hlive : life.ended = false) : Consistent task life ⟨none, 0, []⟩
  | spawned {repr : TaskRepr V} {queued : Nat} {frames : List (Frame V)}
      (hplaced : Placed life repr queued) (hused : Used task life repr frames) :
      Consistent task life ⟨some repr, queued, frames⟩

/-- The executor is consistent with the history, task by task. -/
def Tracks (history : List (Observation V)) (executor : Executor V) : Prop :=
  ∀ task, Consistent task (Life.after task history) (executor.view task)

namespace Tracks

variable {history : List (Observation V)} {executor last : Executor V} {task : Nat}
  {repr : TaskRepr V}

theorem new : Tracks [] (Executor.new : Executor V) := fun _ => .unspawned rfl

theorem unspawned (htracks : Tracks history executor) (htask : executor.tasks task = none) :
    (Life.after task history).ended = false ∧ executor.queue.count task = 0 ∧
      executor.stack.filter (Frame.on task) = [] := by
  have hconsistent := htracks task
  rw [Executor.view, htask] at hconsistent
  generalize executor.queue.count task = queued at hconsistent ⊢
  generalize executor.stack.filter (Frame.on task) = frames at hconsistent ⊢
  cases hconsistent with
  | unspawned hlive => exact ⟨hlive, rfl, rfl⟩

theorem spawned (htracks : Tracks history executor) (htask : executor.tasks task = some repr) :
    Placed (Life.after task history) repr (executor.queue.count task) ∧
      Used task (Life.after task history) repr (executor.stack.filter (Frame.on task)) := by
  have hconsistent := htracks task
  rw [Executor.view, htask] at hconsistent
  generalize executor.queue.count task = queued at hconsistent ⊢
  generalize executor.stack.filter (Frame.on task) = frames at hconsistent ⊢
  cases hconsistent with
  | spawned hplaced hused => exact ⟨hplaced, hused⟩

/-- A step that concerns no task. -/
theorem unchanged (htracks : Tracks history executor) {events : List (Observation V)}
    (hview : ∀ task, last.view task = executor.view task)
    (hlife : ∀ task, Life.after task (history ++ events) = Life.after task history) :
    Tracks (history ++ events) last := by
  intro task
  rw [hview, hlife]
  exact htracks task

/-- A step that concerns one task. -/
theorem changed (htracks : Tracks history executor) (task : Nat) {events : List (Observation V)}
    (hview : ∀ other, other ≠ task → last.view other = executor.view other)
    (hlife : ∀ other, other ≠ task →
      Life.after other (history ++ events) = Life.after other history)
    (htask : last.tasks task = some repr)
    (hplaced : Placed (Life.after task (history ++ events)) repr (last.queue.count task))
    (hused : Used task (Life.after task (history ++ events)) repr
      (last.stack.filter (Frame.on task))) :
    Tracks (history ++ events) last := by
  intro other
  by_cases heq : other = task
  · subst heq
    rw [Executor.view, htask]
    exact .spawned hplaced hused
  · rw [hview other heq, hlife other heq]
    exact htracks other

end Tracks

end Platoon.Runtime
