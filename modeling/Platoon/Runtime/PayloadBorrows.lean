import Platoon.Runtime.ExecutorRuns

/-!
# Borrows of the payload

The payload of a task stays borrowed while its future is polled, while its
finished future is dropped in place, while the future that `cancel` took is
dropped, and while a poll of its handle clones the waker and drops the awaiter
that it replaces.  All of these run code of the clients.  A step that borrows the
payload again from there panics, and only such a step does.
-/

namespace Platoon.Runtime

open Platoon.Foundation Platoon.Rust

variable {V : Type}

namespace Executor

/-- Whether code runs that has the payload of the task borrowed: the poll of its future, the
destructor of a future that finished or was cancelled, or a poll of its handle that clones the
waker or drops the awaiter that it replaces. -/
def inUse (executor : Executor V) (task : Nat) : Bool := executor.stack.any (Frame.on task)

/-- The task that the loop is about to pop and run. -/
def upNext (executor : Executor V) : Option Nat :=
  match executor.stack with
  | .blockOn (.tick (_ + 1)) :: _ => executor.queue.head?
  | _ => none

/-- The task whose payload a step borrows: the one that is popped to be run, or the one whose
handle is polled or cancelled. -/
def borrows (executor : Executor V) : Op V → Option Nat
  | .advance => executor.upNext
  | .pollOutput task _ | .cancel task =>
      if executor.userRuns && executor.joinable task then some task else none
  | _ => none

section InUse

variable {executor : Executor V} {history : List (Observation V)} {task : Nat} {repr : TaskRepr V}

theorem inUse_eq_false :
    executor.inUse task = false ↔ executor.stack.filter (Frame.on task) = [] := by
  simp [inUse, List.filter_eq_nil_iff]

/-- The borrow flag says whether the payload is in use. -/
theorem borrow_ne_zero_iff (htracks : Tracks history executor)
    (htask : executor.tasks task = some repr) :
    repr.borrow ≠ 0 ↔ executor.inUse task = true := by
  obtain ⟨-, hused⟩ := htracks.spawned htask
  rw [← Bool.not_eq_false, inUse_eq_false, not_iff_not]
  generalize executor.stack.filter (Frame.on task) = frames at hused
  cases hused with
  | free hborrow => simp [hborrow]
  | poll hborrow => simp [hborrow]
  | complete value hborrow => simp [hborrow]
  | cancel hborrow => simp [hborrow]
  | join waker hborrow => simp [hborrow]

/-- A task that does not exist is used by nobody. -/
theorem not_inUse_of_none (htracks : Tracks history executor)
    (htask : executor.tasks task = none) : executor.inUse task = false :=
  inUse_eq_false.mpr (htracks.unspawned htask).2.2

end InUse

/-! ## The three calls of `borrow_mut` -/

section Calls

variable {executor : Executor V} {task : Nat} {repr : TaskRepr V}

/-- Code that cannot fail once it has borrowed fails exactly if the borrow does. -/
theorem borrowMut_error {α : Type} {flag : Int} {rest : Int → Except Panic α} {reason : Panic}
    (htotal : ∀ borrow, ∃ value, rest borrow = .ok value) :
    (RefCell.borrowMut flag >>= rest) = .error reason ↔
      reason = .alreadyBorrowed ∧ flag ≠ 0 := by
  unfold RefCell.borrowMut
  by_cases hfree : flag = 0
  · obtain ⟨value, hvalue⟩ := htotal (-1)
    simp [hfree, hvalue]
  · simp [hfree, eq_comm]

theorem run_error {reason : Panic} :
    executor.run task repr = .error reason ↔ reason = .alreadyBorrowed ∧ repr.borrow ≠ 0 := by
  refine borrowMut_error fun borrow => ?_
  cases repr.payload with
  | future => exact ⟨_, rfl⟩
  | output value => exact ⟨_, rfl⟩
  | taken => exact ⟨_, rfl⟩

theorem cancel_error {reason : Panic} :
    executor.cancel task repr = .error reason ↔
      reason = .alreadyBorrowed ∧ repr.borrow ≠ 0 := by
  refine borrowMut_error fun borrow => ?_
  cases repr.payload with
  | future => exact ⟨_, rfl⟩
  | output value => exact ⟨_, rfl⟩
  | taken => exact ⟨_, rfl⟩

/-- Polling a handle panics also when the output was taken before. -/
theorem pollOutput_error {waker : Waker} :
    executor.pollOutput task repr waker = .error .alreadyBorrowed ↔ repr.borrow ≠ 0 := by
  unfold pollOutput RefCell.borrowMut
  by_cases hfree : repr.borrow = 0
  · simp only [hfree, ↓reduceIte, ok_bind]
    cases repr.payload <;> simp
  · simp [hfree]

end Calls

/-! ## Steps and runs -/

section Steps

variable {executor : Executor V} {history : List (Observation V)}

/-- Using the handle of a task panics on a borrowed payload exactly if the call does. -/
theorem withHandle_panic {task : Nat} {reason : Panic}
    {call : TaskRepr V → Outcome Panic (Executor V) (List (Observation V))} :
    executor.withHandle task call = .panic reason ↔
      ∃ repr, executor.tasks task = some repr ∧ repr.handle = true ∧
        call repr = .panic reason := by
  unfold withHandle
  cases htask : executor.tasks task with
  | none => simp
  | some repr => simp

theorem joinable_iff {task : Nat} :
    executor.joinable task = true ↔
      ∃ repr, executor.tasks task = some repr ∧ repr.handle = true := by
  simp [joinable, Option.any_eq_true]

/-- The loop panics only where it runs a popped task. -/
theorem advance_panic {reason : Panic} (hpanic : executor.advance = .panic reason) :
    ∃ polls frames task queue repr, executor.stack = .blockOn (.tick (polls + 1)) :: frames ∧
      executor.queue = task :: queue ∧ executor.tasks task = some repr ∧
      run { executor with queue, stack := .blockOn (.ran polls) :: frames } task repr =
        .error reason := by
  unfold advance at hpanic
  split at hpanic
  case h_3 polls frames hstack =>
      split at hpanic
      · cases hpanic
      · rename_i task queue hqueue
        split at hpanic
        · cases hpanic
        · rename_i repr htask
          exact ⟨polls, frames, task, queue, repr, hstack, hqueue, htask,
            Outcome.ofExcept_eq_panic.mp hpanic⟩
  case h_1 => split at hpanic <;> cases hpanic
  case h_4 => split at hpanic <;> cases hpanic
  case h_8 => split at hpanic <;> cases hpanic
  case h_9 => split at hpanic <;> cases hpanic
  case h_10 => split at hpanic <;> cases hpanic
  case h_11 => split at hpanic <;> cases hpanic
  all_goals cases hpanic

theorem upNext_eq_some {task : Nat} :
    executor.upNext = some task ↔
      ∃ polls frames queue, executor.stack = .blockOn (.tick (polls + 1)) :: frames ∧
        executor.queue = task :: queue := by
  unfold upNext
  split
  · rename_i polls frames hstack
    simp [hstack, List.head?_eq_some_iff]
  · rename_i hother
    constructor
    · intro hnone
      cases hnone
    · rintro ⟨polls, frames, queue, hstack, -⟩
      exact absurd hstack (hother polls frames)

theorem borrows_handle {op : Op V} {task other : Nat}
    (hop : op = .cancel task ∨ ∃ waker, op = .pollOutput task waker) :
    executor.borrows op = some other ↔
      executor.userRuns = true ∧ executor.joinable task = true ∧ other = task := by
  have hborrows : executor.borrows op =
      if executor.userRuns && executor.joinable task then some task else none := by
    rcases hop with rfl | ⟨waker, rfl⟩ <;> rfl
  rw [hborrows]
  by_cases husable : executor.userRuns = true ∧ executor.joinable task = true
  · simp [husable.1, husable.2, eq_comm]
  · rw [if_neg (by simpa using husable)]
    constructor
    · intro hnone
      cases hnone
    · rintro ⟨huser, hjoinable, -⟩
      exact absurd ⟨huser, hjoinable⟩ husable

theorem loop_panic (htracks : Tracks history executor) :
    executor.advance = .panic .alreadyBorrowed ↔
      ∃ task, executor.borrows .advance = some task ∧ executor.inUse task = true := by
  constructor
  · intro hpanic
    obtain ⟨polls, frames, task, queue, repr, hstack, hqueue, htask, hrun⟩ :=
      advance_panic hpanic
    exact ⟨task, upNext_eq_some.mpr ⟨polls, frames, queue, hstack, hqueue⟩,
      (borrow_ne_zero_iff htracks htask).mp (run_error.mp hrun).2⟩
  · rintro ⟨task, hborrows, huse⟩
    obtain ⟨polls, frames, queue, hstack, hqueue⟩ := upNext_eq_some.mp hborrows
    cases htask : executor.tasks task with
    | none =>
        rw [not_inUse_of_none htracks htask] at huse
        cases huse
    | some repr =>
        have hborrow := (borrow_ne_zero_iff htracks htask).mpr huse
        simp only [advance, hstack, hqueue, htask, Outcome.ofExcept_eq_panic]
        exact run_error.mpr ⟨rfl, hborrow⟩

/-- Using a handle panics on a borrowed payload exactly if the payload is in use. -/
theorem handle_panic (htracks : Tracks history executor) {op : Op V} {task : Nat}
    (hop : op = .cancel task ∨ ∃ waker, op = .pollOutput task waker) :
    executor.step op = .panic .alreadyBorrowed ↔
      ∃ other, executor.borrows op = some other ∧ executor.inUse other = true := by
  have hpanic : executor.step op = .panic .alreadyBorrowed ↔
      executor.userRuns = true ∧ ∃ repr, executor.tasks task = some repr ∧
        repr.handle = true ∧ repr.borrow ≠ 0 := by
    rcases hop with rfl | ⟨waker, rfl⟩
    · simp [step, withHandle_panic, cancel_error]
    · simp only [step, Outcome.when_eq_panic, withHandle_panic, Outcome.ofExcept_eq_panic,
        pollOutput_error]
  rw [hpanic]
  constructor
  · rintro ⟨huser, repr, htask, hhandle, hborrow⟩
    have hjoinable := joinable_iff.mpr ⟨repr, htask, hhandle⟩
    exact ⟨task, (borrows_handle hop).mpr ⟨huser, hjoinable, rfl⟩,
      (borrow_ne_zero_iff htracks htask).mp hborrow⟩
  · rintro ⟨other, hborrows, huse⟩
    obtain ⟨huser, hjoinable, rfl⟩ := (borrows_handle hop).mp hborrows
    obtain ⟨repr, htask, hhandle⟩ := joinable_iff.mp hjoinable
    exact ⟨huser, repr, htask, hhandle, (borrow_ne_zero_iff htracks htask).mpr huse⟩

/-- A step panics on a borrowed payload exactly if it borrows a payload that is in use. -/
theorem step_panic (htracks : Tracks history executor) (op : Op V) :
    executor.step op = .panic .alreadyBorrowed ↔
      ∃ task, executor.borrows op = some task ∧ executor.inUse task = true := by
  cases op with
  | advance => exact loop_panic htracks
  | pollOutput task waker => exact handle_panic htracks (.inr ⟨waker, rfl⟩)
  | cancel task => exact handle_panic htracks (.inl rfl)
  | parkReturns result =>
      simp only [borrows, step, parkReturns]
      split <;> cases result <;> simp
  | ret result =>
      simp only [borrows, step, ret]
      split
      · cases result <;> simp
      · cases result <;> split <;> simp
      · simp
  | blockOn => simp [borrows, step]
  | spawn task => simp [borrows, step]
  | wake waker => simp [borrows, step]
  | dropHandle task => simp [borrows, step, withHandle_panic]

/-- In every run a step does not panic on a borrowed payload exactly if no payload that it
borrows is in use: by a poll of its task, by the destructor of the future that finished or was
cancelled, or by a poll of its handle that clones the waker or drops the awaiter that it
replaces.  To cancel a task from inside its own poll is such a panic. -/
theorem payload_borrowed_once {trace : List (Op V × List (Observation V))}
    (hrun : system.Run (new : Executor V) trace executor) :
    (∀ op, system.step executor op ≠ .panic .alreadyBorrowed ↔
      ∀ task, executor.borrows op = some task → executor.inUse task = false) ∧
    ∀ task, .poll task ∈ executor.stack → executor.userRuns = true →
      executor.joinable task = true →
      system.step executor (.cancel task) = .panic .alreadyBorrowed := by
  have htracks := run_tracks hrun
  constructor
  · intro op
    rw [ne_eq, system, step_panic htracks op]
    simp
  · intro task hpolled huser hjoinable
    have hborrows : executor.borrows (.cancel task) = some task :=
      (borrows_handle (.inl rfl)).mpr ⟨huser, hjoinable, rfl⟩
    have huse : executor.inUse task = true :=
      List.any_eq_true.mpr ⟨.poll task, hpolled, by simp [Frame.on]⟩
    exact (step_panic htracks (.cancel task)).mpr ⟨task, hborrows, huse⟩

end Steps

/-- A task that is being polled for the first time, while a second one is queued. -/
def firstPoll : List (Op Nat) := [.spawn 0, .spawn 1, .blockOn, .advance, .ret .pending, .advance]

theorem payload_borrowed_once_otherTask :
    ∃ trace executor, system.Run (new : Executor Nat) trace executor ∧
      executor.stack = [.poll 0, .blockOn (.ran 60)] ∧
      system.step executor (.cancel 1) ≠ .panic .alreadyBorrowed := by
  have hcheck : (system.exec (new : Executor Nat) firstPoll).any (fun result =>
      decide (result.2.stack = [.poll 0, .blockOn (.ran 60)])) = true := by decide
  obtain ⟨trace, executor, hrun, hpass⟩ := System.exec_check hcheck
  have hstack : executor.stack = [.poll 0, .blockOn (.ran 60)] := by simpa using hpass
  refine ⟨trace, executor, hrun, hstack, ?_⟩
  apply ((payload_borrowed_once hrun).1 (.cancel 1)).mpr
  intro task hborrows
  obtain ⟨-, -, rfl⟩ := (borrows_handle (.inl rfl)).mp hborrows
  simp [inUse, hstack, Frame.on]

/-- A task whose body has its own `JoinHandle` can neither cancel nor poll it. -/
theorem own_handle_panics :
    ∃ trace executor, system.Run (new : Executor Nat) trace executor ∧
      executor.stack = [.poll 0, .blockOn (.ran 60)] ∧
      system.step executor (.cancel 0) = .panic .alreadyBorrowed ∧
      system.step executor (.pollOutput 0 (.task 0)) = .panic .alreadyBorrowed := by
  have hcheck : (system.exec (new : Executor Nat) firstPoll).any (fun result =>
      decide (result.2.stack = [.poll 0, .blockOn (.ran 60)] ∧
        (system.step result.2 (.cancel 0)).reason? = some .alreadyBorrowed ∧
        (system.step result.2 (.pollOutput 0 (.task 0))).reason? = some .alreadyBorrowed)) =
      true := by decide
  obtain ⟨trace, executor, hrun, hpass⟩ := System.exec_check hcheck
  obtain ⟨hstack, hcancel, hpoll⟩ := of_decide_eq_true hpass
  exact ⟨trace, executor, hrun, hstack, Outcome.reason?_eq_some.mp hcancel,
    Outcome.reason?_eq_some.mp hpoll⟩

/-- The destructor of a replaced awaiter enters a loop, which pops the task of the handle. -/
example :
    (system.exec (new : Executor Nat)
      [.spawn 0, .blockOn, .advance, .pollOutput 0 (.foreign 1), .advance, .advance,
        .pollOutput 0 .main, .advance, .blockOn, .advance, .ret .pending]).any (fun result =>
      decide (result.2.stack = [.blockOn (.tick 61), .join 0 none, .blockOn .pollMain] ∧
        (system.step result.2 .advance).reason? = some .alreadyBorrowed)) = true := by decide

end Executor

end Platoon.Runtime
