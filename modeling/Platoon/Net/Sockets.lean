import Platoon.Net.Async
import Platoon.Runtime.Registrations

/-!
# The sockets of a process

An `Async` owns a socket of std and its source in the reactor.  Sockets come from
std or from the kernel, are registered, used, and given back or dropped; each call of
`epoll_ctl` on the way may fail.  A descriptor has no duplicates, so that the kernel
forgets it when it is closed.
-/

namespace Platoon.Net

open Platoon.Foundation Platoon.Rust Platoon.Sys Platoon.Runtime

/-- An `Async` with its `sys`. -/
structure Socket extends Async where
  sys : Option Nat

/-- A reactor, the descriptors that are open, and who owns them: clients, as plain sockets of
std or as named `Async`s. -/
structure Sockets (S : Type → Type) (W : Type) where
  reactor : Reactor Epoll S W
  opened : Nat → Bool
  plain : List Nat
  asyncs : Nat → Option Socket

namespace Sockets

/-- What clients, std and the kernel do. -/
inductive Op (W : Type) where
  /-- Std makes a socket. -/
  | socket (fd : Nat)
  | dropPlain (fd : Nat)
  | fromStd (name fd : Nat)
  /-- `bind`, `accept`, `poll_accept` or the start of `connect` on a socket of the kernel,
  with the result of its setup. -/
  | make (name fd : Nat) (prepared : Except Errno Unit)
  | intoStd (name : Nat)
  | drop (name : Nat)
  | pollReady (name : Nat) (direction : Direction) (waker : W)
  | poll (timeout : Option Nat) (answer : Except Errno (List (Nat × BitVec 32)))

/-- An operation with the descriptors whose `epoll_ctl` calls fail while it runs. -/
structure Call (W : Type) where
  op : Op W
  faults : Faults := []

/-- What an operation returned. -/
inductive Answer where
  | unit
  | made (result : Except Errno Unit)
  | std (result : Except Errno Nat)
  | reactor (answer : Reactor.Answer Epoll)

/-- The wakers that an operation invoked or handed out, and what it returned. -/
structure Output (W : Type) where
  woken : List W := []
  handed : List W := []
  answer : Answer

variable {S : Type → Type} [Slab S] {W : Type}

def new : Sockets S W where
  reactor := .new
  opened := fun _ => false
  plain := []
  asyncs := fun _ => none

/-- Drop a socket of std. -/
def close (sockets : Sockets S W) (fd : Nat) : Sockets S W :=
  { sockets with
    reactor := sockets.reactor.close fd
    opened := Function.update sockets.opened fd false }

/-- Write the `Async` of a name. -/
def own (sockets : Sockets S W) (name : Nat) (socket : Option Socket) : Sockets S W :=
  { sockets with asyncs := Function.update sockets.asyncs name socket }

/-- `Async::new`. -/
def asyncNew (faults : Faults) (sockets : Sockets S W) (fd : Nat) :
    Sockets S W × Except Errno Socket :=
  match sockets.reactor.insertSource faults fd with
  | (reactor, .error errno) =>
      -- `sys` is dropped
      ({ sockets with reactor }.close fd, .error errno)
  | (reactor, .ok id) => ({ sockets with reactor }, .ok { id, sys := some fd })

/-- `Async::drop`, then the drop of `sys`. -/
def asyncDrop (faults : Faults) (sockets : Sockets S W) (socket : Socket) :
    Except Panic (Sockets S W) :=
  match socket.sys with
  | none => .ok sockets
  | some fd => do
      let (reactor, _) ← sockets.reactor.removeSource faults socket.id
      .ok ({ sockets with reactor }.close fd)

/-- `Async::into_sys`. -/
def intoSys (faults : Faults) (sockets : Sockets S W) (socket : Socket) :
    Except Panic (Sockets S W × Except Errno Nat) :=
  match socket.sys with
  | none => .error .unwrapNone
  | some fd => do
      let (reactor, result) ← sockets.reactor.removeSource faults socket.id
      -- `self` is dropped without its `sys`
      let sockets ← { sockets with reactor }.asyncDrop faults { socket with sys := none }
      match result with
      | .error errno => .ok (sockets.close fd, .error errno)
      | .ok () => .ok (sockets, .ok fd)

/-- Register a socket of the kernel once it is set up: non-blocking, or connecting. -/
def register (faults : Faults) (sockets : Sockets S W) (fd : Nat)
    (prepared : Except Errno Unit) : Sockets S W × Except Errno Socket :=
  match prepared with
  | .error errno => (sockets.close fd, .error errno)
  | .ok () => sockets.asyncNew faults fd

/-- Hand an `Async` to the client, if there is one. -/
def adopt (name : Nat) : Sockets S W × Except Errno Socket → Sockets S W × Output W
  | (sockets, .ok socket) => (sockets.own name (some socket), { answer := .made (.ok ()) })
  | (sockets, .error errno) => (sockets, { answer := .made (.error errno) })

/-- Hand a plain socket to the client, if there is one. -/
def giveBack : Sockets S W × Except Errno Nat → Sockets S W × Output W
  | (sockets, .ok fd) =>
      ({ sockets with plain := fd :: sockets.plain }, { answer := .std (.ok fd) })
  | (sockets, .error errno) => (sockets, { answer := .std (.error errno) })

/-- One step of the reactor. -/
def react (sockets : Sockets S W) (call : Reactor.Call Epoll W) :
    Outcome Panic (Sockets S W) (Output W) :=
  (Reactor.system.step sockets.reactor call).andThen fun reactor output =>
    .next { sockets with reactor }
      { woken := output.woken, handed := output.handed, answer := .reactor output.answer }

def step (sockets : Sockets S W) (call : Call W) :
    Outcome Panic (Sockets S W) (Output W) :=
  match call.op with
  | .socket fd =>
      .when (!sockets.opened fd) <|
        .next { sockets with
          opened := Function.update sockets.opened fd true, plain := fd :: sockets.plain }
          { answer := .unit }
  | .dropPlain fd =>
      .when (decide (fd ∈ sockets.plain)) <|
        .next { sockets.close fd with plain := sockets.plain.erase fd } { answer := .unit }
  | .fromStd name fd =>
      .when ((sockets.asyncs name).isNone && decide (fd ∈ sockets.plain)) <|
        let taken := { sockets with plain := sockets.plain.erase fd }
        let (sockets, output) := adopt name (taken.asyncNew call.faults fd)
        .next sockets output
  | .make name fd prepared =>
      .when ((sockets.asyncs name).isNone && !sockets.opened fd) <|
        let made := { sockets with opened := Function.update sockets.opened fd true }
        let (sockets, output) := adopt name (made.register call.faults fd prepared)
        .next sockets output
  | .intoStd name =>
      match sockets.asyncs name with
      | none => .disabled
      | some socket => .ofExcept do
          let result ← (sockets.own name none).intoSys call.faults socket
          .ok (giveBack result)
  | .drop name =>
      match sockets.asyncs name with
      | none => .disabled
      | some socket => .ofExcept do
          let sockets ← (sockets.own name none).asyncDrop call.faults socket
          .ok (sockets, { answer := .unit })
  | .pollReady name direction waker =>
      match sockets.asyncs name with
      | none => .disabled
      | some socket =>
          sockets.react { op := .pollReady socket.id direction waker, faults := call.faults }
  | .poll timeout answer => sockets.react { op := .poll timeout answer, faults := call.faults }

/-- One reactor with all sockets of the process. -/
def system : System Panic (Sockets S W) (Call W) (Output W) where
  step := step

/-- The error that an operation returned. -/
def Answer.failure : Answer → Option Errno
  | .made (.error errno) | .std (.error errno) => some errno
  | .reactor answer => answer.failure
  | _ => none

/-- The setup of the socket, a call of `epoll_ctl` or `epoll_wait` fails with the error. -/
def Call.Fails (call : Call W) (errno : Errno) : Prop :=
  (∃ fd, call.faults.lookup fd = some errno) ∨ (∃ name fd, call.op = .make name fd (.error errno)) ∨
    ∃ timeout, call.op = .poll timeout (.error errno)

end Sockets

end Platoon.Net
