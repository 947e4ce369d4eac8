import Platoon.Foundation.Composition
import Platoon.Runtime.ExecutorSteps
import Platoon.Runtime.EpollReactor
import Platoon.Time.Sleep

/-!
# The assembled runtime

A `Runtime` is an executor that parks on a clock that parks on a reactor.  Its
clients own sleeps on the clock and sources in the reactor; they use them
wherever the executor runs their code, and nowhere else.  The loop of the
innermost `block_on` reaches the clock and the reactor only by parking.
-/

namespace Platoon.Runtime

open Platoon.Foundation Platoon.Rust Platoon.Sys

/-- `Clock::park`, or `Clock::park_timeout` with a duration. -/
def Clock.parkFor {W : Type} (clock : Clock W) (now : Nat) :
    Option Nat → Clock W × List W × Option Nat
  | none => clock.park now
  | some duration => clock.parkTimeout now duration

/-- The operations that the runtime keeps to itself. -/
def Executor.Op.parks {V : Type} : Executor.Op V → Bool
  | .parkReturns _ => true
  | _ => false

def Reactor.Op.parks {W : Type} : Reactor.Op Epoll W → Bool
  | .poll _ _ => true
  | _ => false

/-- How the innermost loop calls the parker, if it does: `park` has no duration. -/
def Executor.parkCall {V : Type} (executor : Executor V) : Option (Option Nat) :=
  match executor.stack with
  | .blockOn .park :: _ => some none
  | .blockOn .parkTimeout :: _ => some (some 0)
  | _ => none

/-- Wake one after the other. -/
def Executor.wakeAll {V : Type} (executor : Executor V) (wakers : List Waker) : Executor V :=
  wakers.foldl Executor.wake executor

/-- A `Runtime`, with the sleeps of its clients beside the clock. -/
structure Assembly (V : Type) (S : Type → Type) where
  executor : Executor V
  time : Time.State Waker
  reactor : Reactor Epoll S Waker

namespace Assembly

/-- What the clients and the loop do.  A park comes with its reading of the clock and with
what the kernel does. -/
inductive Op (V : Type) where
  | executor (op : Executor.Op V)
  | time (op : Time.Op Waker)
  | reactor (call : Reactor.Call Epoll Waker)
  | park (now : Nat) (answer : Except Errno (List (Nat × BitVec 32))) (faults : Faults)

/-- A park called with `duration`: the wakers of the expired alarms, the timeout passed to
the reactor, and the wakers that its events took. -/
structure Parked where
  duration : Option Nat
  expired : List Waker
  timeout : Option Nat
  taken : List Waker

/-- What a step returned or showed. -/
inductive Output (V : Type) where
  | executor (events : List (Observation V))
  | time (output : Time.Output Waker)
  | reactor (output : Reactor.Output Epoll Waker)
  | parked (parked : Parked)

/-- The operations on sleeps that are left to the clients. -/
def ofClients : Time.Op Waker → Bool
  | .park _ | .parkTimeout _ _ => false
  | _ => true

variable {V : Type} {S : Type → Type} [Slab S] [Wakes Waker]

def new : Assembly V S where
  executor := .new
  time := .new
  reactor := .new

/-- The loop calls the parker: the clock takes the expired alarms, then the reactor waits. -/
def park (runtime : Assembly V S) (now : Nat) (answer : Except Errno (List (Nat × BitVec 32)))
    (faults : Faults) : Outcome Panic (Assembly V S) (Output V) :=
  match runtime.executor.parkCall with
  | none => .disabled
  | some duration =>
      .when (decide (runtime.time.now ≤ now)) <|
        let (clock, expired, timeout) := runtime.time.clock.parkFor now duration
        match Poller.poll runtime.reactor.poller answer with
        | none => .disabled
        | some (poller, waited) =>
            match Reactor.poll faults { runtime.reactor with poller } waited expired with
            | (_, _, .error _) =>
                (runtime.executor.parkReturns none).andThen fun _ _ => .disabled
            | (reactor, wakers, .ok ()) =>
                (runtime.executor.parkReturns (some wakers)).andThen fun executor _ =>
                  .next { executor, time := { runtime.time with clock, now }, reactor }
                    (.parked { duration, expired, timeout, taken := wakers.drop expired.length })

def step (profile : Profile) (runtime : Assembly V S) :
    Op V → Outcome Panic (Assembly V S) (Output V)
  | .executor op =>
      .when (!op.parks) <|
        (Executor.system.step runtime.executor op).andThen fun executor events =>
          .next { runtime with executor } (.executor events)
  | .time op =>
      .when (runtime.executor.userRuns && ofClients op) <|
        ((Time.system profile).step runtime.time op).andThen fun time output =>
          .next { runtime with time } (.time output)
  | .reactor call =>
      .when (runtime.executor.userRuns && !call.op.parks) <|
        (Reactor.system.step runtime.reactor call).andThen fun reactor output =>
          -- `poll_ready` wakes the waker that it displaces
          .next { runtime with reactor, executor := runtime.executor.wakeAll output.woken }
            (.reactor output)
  | .park now answer faults => runtime.park now answer faults

/-- One runtime with all code on its thread. -/
def system (profile : Profile) : System Panic (Assembly V S) (Op V) (Output V) where
  step := step profile

/-! ## The parts -/

/-- The step of the executor, or the wakes that took place in one of the reactor. -/
def executorEvents : Op V × Output V → List (Executor.Op V × List (Observation V))
  | (.executor op, .executor events) => [(op, events)]
  | (.reactor _, .reactor output) => output.woken.map fun waker => (.wake waker, [.invoked waker])
  | (.park _ _ _, .parked parked) =>
      [(.parkReturns (some (parked.expired ++ parked.taken)), [])]
  | _ => []

def timeEvents : Op V × Output V → List (Time.Op Waker × Time.Output Waker)
  | (.time op, .time output) => [(op, output)]
  | (.park now _ _, .parked parked) =>
      match parked.duration with
      | none => [(.park now, { handed := parked.expired })]
      | some duration => [(.parkTimeout now duration, { handed := parked.expired })]
  | _ => []

def reactorEvents : Op V × Output V → List (Reactor.Call Epoll Waker × Reactor.Output Epoll Waker)
  | (.reactor call, .reactor output) => [(call, output)]
  | (.park _ answer faults, .parked parked) =>
      [({ op := .poll parked.timeout answer, faults },
        { handed := parked.taken, answer := .waited (Poller.timeout parked.timeout) (.ok ()) })]
  | _ => []

end Assembly

end Platoon.Runtime
