import Platoon.Runtime.PayloadBorrows

/-!
# Panics that unwind through the executor

The code of the clients may panic wherever it runs, and it may catch what
unwinds out of a call or out of a nested `block_on`.  The executor panics itself
where a payload is in use, where a handle is polled after completion, and where
its parker fails.  A state here is what such a panic leaves behind: the borrows
that were released on the way, and the frames that remain.
-/

namespace Platoon.Runtime

open Platoon.Foundation Platoon.Rust

variable {V : Type}

namespace Unwinding

/-- Steps of an executor whose clients may panic. -/
inductive Op (V : Type) where
  | step (op : Executor.Op V)
  /-- The code that runs panics, and nothing in the innermost frame catches it. -/
  | unwind
  deriving DecidableEq, Repr

/-- What an observer sees of these steps. -/
inductive Report (V : Type) where
  | seen (event : Observation V)
  /-- A loop popped a task whose payload was in use. -/
  | overran (task : Nat)
  /-- The destructor of a future panicked after the future had returned. -/
  | destructorPanicked (task : Nat)
  /-- A loop that panicked dropped wakers that its parker had handed out. -/
  | dropped (wakers : List Waker)
  deriving DecidableEq, Repr

/-- A call that panics itself unwinds to the code that made it. -/
def panicked (executor : Executor V) :
    Executor.Op V → Outcome Panic (Executor V) (List (Report V))
  | .advance =>
      match executor.stack, executor.queue with
      | .blockOn (.tick (_ + 1)) :: frames, task :: queue =>
          match executor.tasks task with
          | none => .disabled
          | some repr =>
              -- `run` had set the state before it failed to borrow the payload
              .next { executor.set task { repr with state := .idle } with
                queue, stack := .blockOn .leave :: frames } [.overran task]
      | _, _ => .disabled
  | .parkReturns _ =>
      match executor.stack with
      | .blockOn .park :: frames | .blockOn .parkTimeout :: frames =>
          .next { executor with stack := .blockOn .leave :: frames } []
      | _ => .disabled
  | .pollOutput _ _ => .next executor []
  | .cancel task =>
      match executor.tasks task with
      | none => .disabled
      | some repr => .next (executor.set task { repr with handle := false }) []
  | _ => .disabled

/-- A panic leaves the innermost frame.  Out of a poll or a destructor in `run` it goes on
through the loop that called `run`; where a loop ends, its main future is dropped. -/
def unwind (debug : Bool) (executor : Executor V) :
    Outcome Panic (Executor V) (List (Report V)) :=
  match executor.stack with
  | .poll task :: .blockOn (.ran _) :: frames =>
      match executor.tasks task with
      | none => .disabled
      | some repr =>
          .next (Executor.release { executor with stack := .blockOn .leave :: frames } task repr)
            []
  | .complete task value :: .blockOn (.ran _) :: frames =>
      match executor.tasks task with
      | none => .disabled
      | some repr =>
          -- the assignment to the payload takes place although the old value panics
          .next { executor.set task
              { repr with payload := .output value, borrow := RefCell.dropRefMut repr.borrow } with
            stack := .blockOn .leave :: frames } [.destructorPanicked task]
  | .cancel task :: frames | .join task _ :: frames =>
      match executor.tasks task with
      | none => .disabled
      | some repr => .next (Executor.release { executor with stack := frames } task repr) []
  | .blockOn (.waking wakers) :: frames =>
      -- `util::wake` catches the panics of wakers in builds without debug assertions
      if debug then
        .next { executor with stack := .blockOn .leave :: frames } [.dropped wakers]
      else .next executor []
  | .blockOn .leave :: frames => .next { executor with stack := frames } []
  | .blockOn .pollMain :: frames | .blockOn (.ran _) :: frames
  | .blockOn .park :: frames | .blockOn .parkTimeout :: frames =>
      .next { executor with stack := .blockOn .leave :: frames } []
  | _ => .disabled

def step (debug : Bool) (executor : Executor V) :
    Op V → Outcome Panic (Executor V) (List (Report V))
  | .step op =>
      match executor.step op with
      | .disabled => .disabled
      | .panic _ => panicked executor op
      | .next last events => .next last (events.map .seen)
  | .unwind => unwind debug executor

/-- One executor with all code on its thread, where every panic can be caught. -/
def system (debug : Bool) : System Panic (Executor V) (Op V) (List (Report V)) where
  step := step debug

/-- All reports of a trace in their order. -/
def reports (trace : List (Op V × List (Report V))) : List (Report V) :=
  trace.flatMap Prod.snd

/-! ## What a step can do -/

/-- The steps of an executor whose clients may panic. -/
inductive Move (debug : Bool) (executor : Executor V) :
    Op V → Executor V → List (Report V) → Prop where
  | step {op : Executor.Op V} {last : Executor V} {events : List (Observation V)}
      (hstep : executor.step op = .next last events) :
      Move debug executor (.step op) last (events.map .seen)
  | overran {polls task : Nat} {queue : List Nat} {repr : TaskRepr V} {frames : List (Frame V)}
      (hstack : executor.stack = .blockOn (.tick (polls + 1)) :: frames)
      (hqueue : executor.queue = task :: queue) (htask : executor.tasks task = some repr)
      (hborrow : repr.borrow ≠ 0) :
      Move debug executor (.step .advance)
        { executor.set task { repr with state := .idle } with
          queue, stack := .blockOn .leave :: frames } [.overran task]
  | refused {task : Nat} {repr : TaskRepr V} (htask : executor.tasks task = some repr) :
      Move debug executor (.step (.cancel task)) (executor.set task { repr with handle := false })
        []
  | caught {op : Op V} : Move debug executor op executor []
  | loop {op : Op V} {pc : Pc} {frames : List (Frame V)}
      (hstack : executor.stack = .blockOn pc :: frames) (hpc : ∀ wakers, pc ≠ .waking wakers) :
      Move debug executor op { executor with stack := .blockOn .leave :: frames } []
  | dropped {wakers : List Waker} {frames : List (Frame V)} (hdebug : debug = true)
      (hstack : executor.stack = .blockOn (.waking wakers) :: frames) :
      Move debug executor .unwind { executor with stack := .blockOn .leave :: frames }
        [.dropped wakers]
  | leave {frames : List (Frame V)} (hstack : executor.stack = .blockOn .leave :: frames) :
      Move debug executor .unwind { executor with stack := frames } []
  | poll {task polls : Nat} {repr : TaskRepr V} {frames : List (Frame V)}
      (hstack : executor.stack = .poll task :: .blockOn (.ran polls) :: frames)
      (htask : executor.tasks task = some repr) :
      Move debug executor .unwind
        (Executor.release { executor with stack := .blockOn .leave :: frames } task repr) []
  | complete {task polls : Nat} {value : V} {repr : TaskRepr V} {frames : List (Frame V)}
      (hstack : executor.stack = .complete task value :: .blockOn (.ran polls) :: frames)
      (htask : executor.tasks task = some repr) :
      Move debug executor .unwind
        { executor.set task
            { repr with payload := .output value, borrow := RefCell.dropRefMut repr.borrow } with
          stack := .blockOn .leave :: frames } [.destructorPanicked task]
  | cancel {task : Nat} {repr : TaskRepr V} {frames : List (Frame V)}
      (hstack : executor.stack = .cancel task :: frames)
      (htask : executor.tasks task = some repr) :
      Move debug executor .unwind
        (Executor.release { executor with stack := frames } task repr) []
  | join {task : Nat} {waker : Option Waker} {repr : TaskRepr V} {frames : List (Frame V)}
      (hstack : executor.stack = .join task waker :: frames)
      (htask : executor.tasks task = some repr) :
      Move debug executor .unwind
        (Executor.release { executor with stack := frames } task repr) []

section Moves

variable {debug : Bool} {executor last : Executor V} {events : List (Report V)}

theorem panicked_move {op : Executor.Op V} {reason : Panic}
    (hpanic : executor.step op = .panic reason)
    (hstep : panicked executor op = .next last events) :
    Move debug executor (.step op) last events := by
  cases op with
  | advance =>
      obtain ⟨polls, frames, task, queue, repr, hstack, hqueue, htask, hrun⟩ :=
        Executor.advance_panic hpanic
      simp only [panicked, hstack, hqueue, htask] at hstep
      cases hstep
      exact .overran hstack hqueue htask (Executor.run_error.mp hrun).2
  | parkReturns result =>
      simp only [panicked] at hstep
      split at hstep
      · rename_i hstack
        cases hstep
        exact .loop hstack (by simp)
      · rename_i hstack
        cases hstep
        exact .loop hstack (by simp)
      · cases hstep
  | pollOutput task waker =>
      cases hstep
      exact .caught
  | cancel task =>
      simp only [panicked] at hstep
      split at hstep
      · cases hstep
      · rename_i htask
        cases hstep
        exact .refused htask
  | _ => cases hstep

theorem unwind_move (hstep : unwind debug executor = .next last events) :
    Move debug executor .unwind last events := by
  unfold unwind at hstep
  split at hstep
  case h_1 hstack =>
      split at hstep
      · cases hstep
      · rename_i htask
        cases hstep
        exact .poll hstack htask
  case h_2 hstack =>
      split at hstep
      · cases hstep
      · rename_i htask
        cases hstep
        exact .complete hstack htask
  case h_3 hstack =>
      split at hstep
      · cases hstep
      · rename_i htask
        cases hstep
        exact .cancel hstack htask
  case h_4 hstack =>
      split at hstep
      · cases hstep
      · rename_i htask
        cases hstep
        exact .join hstack htask
  case h_5 hstack =>
      split at hstep
      · rename_i hdebug
        cases hstep
        exact .dropped hdebug hstack
      · cases hstep
        exact .caught
  case h_6 hstack =>
      cases hstep
      exact .leave hstack
  case h_11 => cases hstep
  all_goals
    rename_i hstack
    cases hstep
    exact .loop hstack (by simp)

/-- Every step is one of the list. -/
theorem step_move {op : Op V} (hstep : (system debug).step executor op = .next last events) :
    Move debug executor op last events := by
  cases op with
  | step op =>
      simp only [system, step] at hstep
      split at hstep
      · cases hstep
      · rename_i hpanic
        exact panicked_move hpanic hstep
      · rename_i hnext
        cases hstep
        exact .step hnext
  | unwind => exact unwind_move hstep

end Moves

end Unwinding

end Platoon.Runtime
