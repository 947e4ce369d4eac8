import Platoon.Foundation.Transition
import Platoon.Rust.Prelude
import Mathlib.Logic.Function.Basic

/-!
# The executor

One `Executor` with its tasks and everything that calls into it on its thread.
A state holds the call stack, innermost frame first: the loop of each
`block_on`, and the places where it runs code of its clients.  That code is not
modelled: wherever it runs, it may take any step that the executor offers it.
It also runs where the executor drops references and clones or wakes foreign
wakers, since destructors and wakers are code of the clients too.
-/

namespace Platoon.Runtime

open Platoon.Foundation Platoon.Rust

/-- A waker made from the `Shared` of the executor, from a task, or elsewhere. -/
inductive Waker where
  | main
  | task (task : Nat)
  | foreign (name : Nat)
  deriving DecidableEq, Repr

/-- The `State` of a task. -/
inductive TaskState where
  | scheduled
  | idle
  | done
  deriving DecidableEq, Repr

inductive Payload (V : Type) where
  | future
  | output (value : V)
  | taken
  deriving DecidableEq, Repr

/-- A `TaskRepr`, with the borrow flag of its payload and whether its `JoinHandle` is
still owned. -/
structure TaskRepr (V : Type) where
  awaiter : Option Waker
  state : TaskState
  payload : Payload V
  borrow : Int
  handle : Bool
  deriving DecidableEq, Repr

/-- Where the loop of a `block_on` stands. -/
inductive Pc where
  /-- At the head of the loop. -/
  | top
  /-- In the poll of the main future. -/
  | pollMain
  /-- In the destructor of the main future, which returned `Ready`. -/
  | leave
  /-- About to pop a task, with so many polls left in this tick. -/
  | tick (polls : Nat)
  /-- After `task.raw.run()`, or in it. -/
  | ran (polls : Nat)
  | park
  | parkTimeout
  /-- Waking what the parker handed out. -/
  | waking (wakers : List Waker)
  deriving DecidableEq, Repr

inductive Frame (V : Type) where
  | blockOn (pc : Pc)
  /-- In the poll of a task. -/
  | poll (task : Nat)
  /-- In the destructor of the future of a task that returned `Ready`. -/
  | complete (task : Nat) (value : V)
  /-- In the destructor of the future that `cancel` took. -/
  | cancel (task : Nat)
  /-- In `poll_output` of a task that has not finished: in the clone of the caller's waker, or
  once it is stored in the destructor of the awaiter that it replaced. -/
  | join (task : Nat) (waker : Option Waker)
  deriving DecidableEq, Repr

/-- Whether code of the clients can run when the frame is the innermost one. -/
def Frame.userRuns {V : Type} : Frame V → Bool
  | .blockOn .top | .blockOn (.tick _) | .blockOn .park | .blockOn .parkTimeout => false
  | _ => true

structure Executor (V : Type) where
  queue : List Nat
  woke : Bool
  tasks : Nat → Option (TaskRepr V)
  stack : List (Frame V)

/-- What an observer sees of the steps. -/
inductive Observation (V : Type) where
  | spawned (task : Nat)
  | invoked (waker : Waker)
  | mainPolled
  | polled (task : Nat)
  | finished (task : Nat)
  /-- A `JoinHandle` was polled: it took the output, or the waker was stored. -/
  | joined (task : Nat) (waker : Waker) (result : Poll V)
  | cancelled (task : Nat) (output : Option V)
  | returned (value : V)
  deriving DecidableEq, Repr

/-- `POLLS_PER_TICK`. -/
def POLLS_PER_TICK : Nat := 61

namespace Executor

/-- Steps of the loop itself (`advance`, `parkReturns`) and of the code it runs. -/
inductive Op (V : Type) where
  | advance
  /-- The parker returns an error, or wakers. -/
  | parkReturns (result : Option (List Waker))
  /-- The innermost poll returns. -/
  | ret (result : Poll V)
  | blockOn
  | spawn (task : Nat)
  | wake (waker : Waker)
  | pollOutput (task : Nat) (waker : Waker)
  | cancel (task : Nat)
  | dropHandle (task : Nat)
  deriving DecidableEq, Repr

variable {V : Type}

def new : Executor V where
  queue := []
  woke := false
  tasks := fun _ => none
  stack := []

def set (executor : Executor V) (task : Nat) (repr : TaskRepr V) : Executor V :=
  { executor with tasks := Function.update executor.tasks task (some repr) }

/-- Whether code of the clients can run. -/
def userRuns (executor : Executor V) : Bool :=
  match executor.stack with
  | [] => true
  | frame :: _ => frame.userRuns

def spawn (executor : Executor V) (task : Nat) : Executor V :=
  { executor.set task
      { awaiter := none, state := .scheduled, payload := .future, borrow := 0, handle := true } with
    queue := executor.queue ++ [task] }

/-- `RcWake::wake` of `Shared` and of `TaskRepr`. -/
def wake (executor : Executor V) : Waker → Executor V
  | .main => { executor with woke := true }
  | .task task =>
      match executor.tasks task with
      | none => executor
      | some repr =>
          match repr.state with
          | .idle =>
              { executor.set task { repr with state := .scheduled } with
                queue := executor.queue ++ [task] }
          | .scheduled | .done => executor
  | .foreign _ => executor

/-- `TaskRepr::run` up to the poll of the future, if there is one. -/
def run (executor : Executor V) (task : Nat) (repr : TaskRepr V) :
    Except Panic (Executor V × List (Observation V)) := do
  let repr := { repr with state := .idle }
  let borrow ← RefCell.borrowMut repr.borrow
  match repr.payload with
  | .future =>
      .ok ({ executor.set task { repr with borrow } with
        stack := .poll task :: executor.stack }, [.polled task])
  | _ => .ok (executor.set task repr, [])

/-- `TaskRepr::run` after the destructor of the future, which returned `value`. -/
def complete (executor : Executor V) (task : Nat) (repr : TaskRepr V) (value : V) :
    Executor V × List (Observation V) :=
  let executor := executor.set task
    { repr with
      awaiter := none
      state := .done
      payload := .output value
      borrow := RefCell.dropRefMut repr.borrow }
  match repr.awaiter with
  | some waker => (executor.wake waker, [.invoked waker])
  | none => (executor, [])

/-- `TaskRepr::poll_output` up to the clone of the waker, if it is stored. -/
def pollOutput (executor : Executor V) (task : Nat) (repr : TaskRepr V) (waker : Waker) :
    Except Panic (Executor V × List (Observation V)) := do
  let borrow ← RefCell.borrowMut repr.borrow
  match repr.payload with
  | .output value =>
      .ok (executor.set task { repr with payload := .taken },
        [.joined task waker (.ready value)])
  | .taken => .error .polledAfterCompletion
  | .future =>
      .ok ({ executor.set task { repr with borrow } with
        stack := .join task (some waker) :: executor.stack }, [])

/-- `TaskRepr::cancel` up to the destructor of the future, if it takes one. -/
def cancel (executor : Executor V) (task : Nat) (repr : TaskRepr V) :
    Except Panic (Executor V × List (Observation V)) := do
  let repr := { repr with handle := false }
  let borrow ← RefCell.borrowMut repr.borrow
  match repr.payload with
  | .output value =>
      .ok (executor.set task { repr with payload := .taken }, [.cancelled task (some value)])
  | .taken => .ok (executor.set task repr, [.cancelled task none])
  | .future =>
      .ok ({ executor.set task { repr with payload := .taken, borrow } with
        stack := .cancel task :: executor.stack }, [.cancelled task none])

/-- Release the borrow of a payload. -/
def release (executor : Executor V) (task : Nat) (repr : TaskRepr V) : Executor V :=
  executor.set task { repr with borrow := RefCell.dropRefMut repr.borrow }

/-- Go on in the innermost frame. -/
def advance (executor : Executor V) : Outcome Panic (Executor V) (List (Observation V)) :=
  match executor.stack with
  | .blockOn .top :: frames =>
      if executor.woke then
        .next { executor with woke := false, stack := .blockOn .pollMain :: frames }
          [.mainPolled]
      else .next { executor with stack := .blockOn (.tick POLLS_PER_TICK) :: frames } []
  | .blockOn (.tick 0) :: frames =>
      .next { executor with stack := .blockOn .parkTimeout :: frames } []
  | .blockOn (.tick (polls + 1)) :: frames =>
      match executor.queue with
      | [] => .next { executor with stack := .blockOn .park :: frames } []
      | task :: queue =>
          match executor.tasks task with
          | none => .disabled
          | some repr =>
              .ofExcept (run { executor with queue, stack := .blockOn (.ran polls) :: frames }
                task repr)
  | .blockOn (.ran polls) :: frames =>
      -- polling this task woke up the main future
      if executor.woke then .next { executor with stack := .blockOn .top :: frames } []
      else .next { executor with stack := .blockOn (.tick polls) :: frames } []
  | .blockOn (.waking (waker :: wakers)) :: frames =>
      .next (wake { executor with stack := .blockOn (.waking wakers) :: frames } waker)
        [.invoked waker]
  | .blockOn (.waking []) :: frames =>
      .next { executor with stack := .blockOn .top :: frames } []
  | .blockOn .leave :: frames => .next { executor with stack := frames } []
  | .complete task value :: frames =>
      match executor.tasks task with
      | none => .disabled
      | some repr =>
          let (executor, events) := complete { executor with stack := frames } task repr value
          .next executor events
  | .cancel task :: frames =>
      match executor.tasks task with
      | none => .disabled
      | some repr => .next (release { executor with stack := frames } task repr) []
  | .join task (some waker) :: frames =>
      match executor.tasks task with
      | none => .disabled
      | some repr =>
          .next { executor.set task { repr with awaiter := some waker } with
            stack := .join task none :: frames } [.joined task waker .pending]
  | .join task none :: frames =>
      match executor.tasks task with
      | none => .disabled
      | some repr => .next (release { executor with stack := frames } task repr) []
  | _ => .disabled

/-- `park` or `park_timeout` returns. -/
def parkReturns (executor : Executor V) (result : Option (List Waker)) :
    Outcome Panic (Executor V) (List (Observation V)) :=
  match executor.stack with
  | .blockOn .park :: frames | .blockOn .parkTimeout :: frames =>
      match result with
      | none => .panic .parkFailed
      | some wakers =>
          .next { executor with stack := .blockOn (.waking wakers) :: frames } []
  | _ => .disabled

/-- The poll of the main future or of a task returns. -/
def ret (executor : Executor V) (result : Poll V) :
    Outcome Panic (Executor V) (List (Observation V)) :=
  match executor.stack with
  | .blockOn .pollMain :: frames =>
      match result with
      | .ready value =>
          .next { executor with stack := .blockOn .leave :: frames } [.returned value]
      | .pending =>
          .next { executor with stack := .blockOn (.tick POLLS_PER_TICK) :: frames } []
  | .poll task :: frames =>
      match executor.tasks task with
      | none => .disabled
      | some repr =>
          match result with
          | .ready value =>
              .next { executor with stack := .complete task value :: frames } [.finished task]
          | .pending => .next (release { executor with stack := frames } task repr) []
  | _ => .disabled

/-- Whether the `JoinHandle` of the task is still owned. -/
def joinable (executor : Executor V) (task : Nat) : Bool :=
  (executor.tasks task).any TaskRepr.handle

/-- Use the `JoinHandle` of a task. -/
def withHandle (executor : Executor V) (task : Nat)
    (use : TaskRepr V → Outcome Panic (Executor V) (List (Observation V))) :
    Outcome Panic (Executor V) (List (Observation V)) :=
  match executor.tasks task with
  | none => .disabled
  | some repr => .when repr.handle (use repr)

def step (executor : Executor V) : Op V → Outcome Panic (Executor V) (List (Observation V))
  | .advance => executor.advance
  | .parkReturns result => executor.parkReturns result
  | .ret result => executor.ret result
  | .blockOn =>
      -- the main future is polled on the first iteration
      .when executor.userRuns <|
        .next { executor with woke := true, stack := .blockOn .top :: executor.stack } []
  | .spawn task =>
      .when (executor.userRuns && (executor.tasks task).isNone) <|
        .next (executor.spawn task) [.spawned task]
  | .wake waker =>
      .when executor.userRuns <| .next (executor.wake waker) [.invoked waker]
  | .pollOutput task waker =>
      .when executor.userRuns <| executor.withHandle task fun repr =>
        .ofExcept (executor.pollOutput task repr waker)
  | .cancel task =>
      .when executor.userRuns <| executor.withHandle task fun repr =>
        .ofExcept (executor.cancel task repr)
  | .dropHandle task =>
      .when executor.userRuns <| executor.withHandle task fun repr =>
        .next (executor.set task { repr with handle := false }) []

/-- One executor with all code on its thread. -/
def system : System Panic (Executor V) (Op V) (List (Observation V)) where
  step := Executor.step

end Executor

end Platoon.Runtime
