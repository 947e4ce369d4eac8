import Platoon.Runtime.ExecutorSteps

/-!
# The loops on the stack

Each `block_on` that is running has one frame.  A step either turns the
innermost loop, or takes place in a frame above it and leaves all loops where
they are.
-/

namespace Platoon.Runtime.Executor

open Platoon.Foundation Platoon.Rust

variable {V : Type}

/-- The loops that are running, innermost first. -/
def loops (stack : List (Frame V)) : List Pc :=
  stack.filterMap fun
    | .blockOn pc => some pc
    | _ => none

/-- The task that a step pops. -/
def popped (executor : Executor V) (op : Op V) (_ : List (Observation V)) : List Nat :=
  match op, executor.stack, executor.queue with
  | .advance, .blockOn (.tick (_ + 1)) :: _, task :: _ => [task]
  | _, _, _ => []

@[simp]
theorem loops_blockOn (pc : Pc) (frames : List (Frame V)) :
    loops (.blockOn pc :: frames) = pc :: loops frames := rfl

@[simp]
theorem loops_poll (task : Nat) (frames : List (Frame V)) :
    loops (.poll task :: frames) = loops frames := rfl

@[simp]
theorem loops_complete (task : Nat) (value : V) (frames : List (Frame V)) :
    loops (.complete task value :: frames) = loops frames := rfl

@[simp]
theorem loops_cancel (task : Nat) (frames : List (Frame V)) :
    loops (.cancel task :: frames) = loops frames := rfl

@[simp]
theorem loops_join (task : Nat) (waker : Option Waker) (frames : List (Frame V)) :
    loops (.join task waker :: frames) = loops frames := rfl

@[simp]
theorem loops_append (above below : List (Frame V)) :
    loops (above ++ below) = loops above ++ loops below := by
  simp [loops]

/-- A turn of the innermost loop, by where it stands and where it goes on. -/
inductive Turn (executor : Executor V) (frames : List (Frame V)) :
    Pc → Op V → Executor V → List (Observation V) → Prop where
  | goto {op : Op V} {pc pc' : Pc} {woke : Bool} {events : List (Observation V)}
      (hgoto : Goto executor op pc pc' woke events) :
      Turn executor frames pc op { executor with woke, stack := .blockOn pc' :: frames } events
  | run {turns task : Nat} {queue : List Nat} {repr : TaskRepr V}
      (hqueue : executor.queue = task :: queue) (hpayload : repr.payload = .future) :
      Turn executor frames (.tick (turns + 1)) .advance
        { executor.set task { repr with state := .idle, borrow := -1 } with
          queue, stack := .poll task :: .blockOn (.ran turns) :: frames } [.polled task]
  | skip {turns task : Nat} {queue : List Nat} {repr : TaskRepr V}
      (hqueue : executor.queue = task :: queue) (hpayload : repr.payload ≠ .future) :
      Turn executor frames (.tick (turns + 1)) .advance
        { executor.set task { repr with state := .idle } with
          queue, stack := .blockOn (.ran turns) :: frames } []
  | handed {waker : Waker} {wakers : List Waker} :
      Turn executor frames (.waking (waker :: wakers)) .advance
        ({ executor with stack := .blockOn (.waking wakers) :: frames }.wake waker)
        [.invoked waker]
  | leave : Turn executor frames .leave .advance { executor with stack := frames } []

section Steps

variable {executor last : Executor V} {op : Op V} {events : List (Observation V)}
  {above frames : List (Frame V)} {pc : Pc}

/-- The frames above the innermost loop change among themselves. -/
theorem above_of_cons {frame : Frame V} {rest : List (Frame V)} (new : List (Frame V))
    (hstack : executor.stack = above ++ .blockOn pc :: frames) (habove : loops above = [])
    (hcons : executor.stack = frame :: rest) (hframe : ∀ pc', frame ≠ .blockOn pc')
    (hlast : last.stack = new ++ rest) (hnew : loops new = []) :
    ∃ above', last.stack = above' ++ .blockOn pc :: frames ∧ loops above' = [] := by
  rw [hstack] at hcons
  cases above with
  | nil => exact absurd (List.cons.inj hcons).1.symm (hframe pc)
  | cons other above =>
      obtain ⟨rfl, rfl⟩ := List.cons.inj hcons
      have hrest : loops above = [] := by
        cases other with
        | blockOn pc' => exact absurd rfl (hframe pc')
        | _ => exact habove
      refine ⟨new ++ above, by simp [hlast], ?_⟩
      rw [loops_append, hnew, hrest]
      rfl

/-- A frame of a loop is the innermost one only if it is the innermost loop. -/
theorem above_of_loop {pc' : Pc} {rest : List (Frame V)}
    (hstack : executor.stack = above ++ .blockOn pc :: frames) (habove : loops above = [])
    (hcons : executor.stack = .blockOn pc' :: rest) :
    above = [] ∧ pc' = pc ∧ rest = frames := by
  rw [hstack] at hcons
  cases above with
  | nil =>
      obtain ⟨hpc, rfl⟩ := List.cons.inj hcons
      cases hpc
      exact ⟨rfl, rfl, rfl⟩
  | cons other above =>
      obtain ⟨rfl, -⟩ := List.cons.inj hcons
      cases habove

/-- A step other than `block_on` takes place above the innermost loop, or turns it. -/
theorem step_turn (hstack : executor.stack = above ++ .blockOn pc :: frames)
    (habove : loops above = []) (hop : op ≠ .blockOn)
    (hstep : executor.step op = .next last events) :
    ((∃ above', last.stack = above' ++ .blockOn pc :: frames ∧ loops above' = []) ∧
        popped executor op events = []) ∨
      (above = [] ∧ Turn executor frames pc op last events) := by
  cases step_move hstep with
  | loop hcons hgoto =>
      obtain ⟨rfl, rfl, rfl⟩ := above_of_loop hstack habove hcons
      exact .inr ⟨rfl, .goto hgoto⟩
  | run hcons hqueue htask hborrow hpayload =>
      obtain ⟨rfl, rfl, rfl⟩ := above_of_loop hstack habove hcons
      exact .inr ⟨rfl, .run hqueue hpayload⟩
  | skip hcons hqueue htask hborrow hpayload =>
      obtain ⟨rfl, rfl, rfl⟩ := above_of_loop hstack habove hcons
      exact .inr ⟨rfl, .skip hqueue hpayload⟩
  | handed hcons =>
      obtain ⟨rfl, rfl, rfl⟩ := above_of_loop hstack habove hcons
      exact .inr ⟨rfl, .handed⟩
  | leave hcons =>
      obtain ⟨rfl, rfl, rfl⟩ := above_of_loop hstack habove hcons
      exact .inr ⟨rfl, .leave⟩
  | @finish task repr value rest hcons htask =>
      left
      exact ⟨above_of_cons [.complete task value] hstack habove hcons (by simp) rfl rfl,
        by simp [popped]⟩
  | complete hcons htask =>
      left
      exact ⟨above_of_cons [] hstack habove hcons (by simp) (stack_complete _ _ _) rfl,
        by simp [popped, hcons]⟩
  | pending hcons htask =>
      left
      exact ⟨above_of_cons [] hstack habove hcons (by simp) rfl rfl, by simp [popped]⟩
  | endCancel hcons htask =>
      left
      exact ⟨above_of_cons [] hstack habove hcons (by simp) rfl rfl, by simp [popped, hcons]⟩
  | @store task repr waker rest hcons htask =>
      left
      exact ⟨above_of_cons [.join task none] hstack habove hcons (by simp) rfl rfl,
        by simp [popped, hcons]⟩
  | endJoin hcons htask =>
      left
      exact ⟨above_of_cons [] hstack habove hcons (by simp) rfl rfl, by simp [popped, hcons]⟩
  | blockOn huser => exact absurd rfl hop
  | wake huser =>
      left
      exact ⟨⟨above, (stack_wake _).trans hstack, habove⟩, by simp [popped]⟩
  | @joinPending task repr waker huser htask hhandle hborrow hpayload =>
      left
      refine ⟨⟨.join task (some waker) :: above, ?_, habove⟩, by simp [popped]⟩
      exact congrArg (Frame.join task (some waker) :: ·) hstack
  | @cancelFuture task repr huser htask hhandle hborrow hpayload =>
      left
      refine ⟨⟨.cancel task :: above, ?_, habove⟩, by simp [popped]⟩
      exact congrArg (Frame.cancel task :: ·) hstack
  | _ =>
      left
      exact ⟨⟨above, hstack, habove⟩, by simp [popped]⟩

end Steps

end Platoon.Runtime.Executor
