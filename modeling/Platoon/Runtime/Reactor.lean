import Platoon.Foundation.Transition
import Platoon.Sys.Poller

/-!
# The reactor

The `Shared` of a `Reactor`: the poller of the platform and the slab of the sources.
Every operation takes the system calls that fail while it runs.
-/

namespace Platoon.Runtime

open Platoon.Foundation Platoon.Rust Platoon.Sys

inductive Direction where
  | read
  | write
  deriving DecidableEq, Repr

structure Interest (W : Type) where
  poller : Option W := none
  woke : Bool := false
  deriving DecidableEq, Repr

namespace Interest

variable {W : Type}

def hasPoller (interest : Interest W) : Bool := interest.poller.isSome

def take (interest : Interest W) (wakers : List W) : Interest W × List W :=
  ({ poller := none, woke := true }, wakers ++ interest.poller.toList)

end Interest

structure Source (W : Type) where
  raw : Nat
  reader : Interest W
  writer : Interest W
  deriving DecidableEq, Repr

namespace Source

variable {W : Type}

def interest (source : Source W) : Direction → Interest W
  | .read => source.reader
  | .write => source.writer

/-- Write through the reference that `interest` returns. -/
def setInterest (source : Source W) (direction : Direction) (interest : Interest W) :
    Source W :=
  match direction with
  | .read => { source with reader := interest }
  | .write => { source with writer := interest }

/-- Take the waker of a direction when the event carries it. -/
def takeIf (source : Source W) (carried : Bool) (direction : Direction) (wakers : List W) :
    Source W × List W :=
  if carried then
    let (interest, wakers) := (source.interest direction).take wakers
    (source.setInterest direction interest, wakers)
  else (source, wakers)

/-- The event that `update_interest` registers. -/
def event (source : Source W) (key : Nat) : Event where
  key := key
  readable := source.reader.hasPoller
  writable := source.writer.hasPoller

@[simp]
theorem raw_setInterest (source : Source W) (direction : Direction) (interest : Interest W) :
    (source.setInterest direction interest).raw = source.raw := by
  cases direction <;> rfl

@[simp]
theorem interest_setInterest (source : Source W) (direction other : Direction)
    (interest : Interest W) :
    (source.setInterest direction interest).interest other =
      if other = direction then interest else source.interest other := by
  cases direction <;> cases other <;> rfl

@[simp]
theorem raw_takeIf (source : Source W) (carried : Bool) (direction : Direction)
    (wakers : List W) : (source.takeIf carried direction wakers).1.raw = source.raw := by
  unfold takeIf
  split
  · exact source.raw_setInterest direction _
  · rfl

end Source

/-- The `Shared` of a reactor with the kernel's side of its poller. -/
structure Reactor (P : Type) (S : Type → Type) (W : Type) where
  poller : P
  sources : S (Source W)

namespace Reactor

variable {P : Type} [Poller P] {S : Type → Type} [Slab S] {W : Type}

def new : Reactor P S W where
  poller := Poller.new
  sources := Slab.empty

def insertSource (faults : Poller.Faults P) (reactor : Reactor P S W) (raw : Nat) :
    Reactor P S W × Except Errno Nat :=
  let key := Slab.vacantKey reactor.sources
  match Poller.add faults reactor.poller raw { key, readable := false, writable := false } with
  | (poller, .error errno) => ({ reactor with poller }, .error errno)
  | (poller, .ok ()) =>
      ({ poller, sources := Slab.insert reactor.sources { raw, reader := {}, writer := {} } },
        .ok key)

def removeSource (faults : Poller.Faults P) (reactor : Reactor P S W) (key : Nat) :
    Except Panic (Reactor P S W × Except Errno Unit) := do
  let source ← index reactor.sources key
  let sources := Slab.remove reactor.sources key
  let (poller, result) := Poller.delete faults reactor.poller source.raw
  .ok ({ poller, sources }, result)

def updateInterest (faults : Poller.Faults P) (poller : P) (key : Nat) (source : Source W) :
    P × Except Errno Unit :=
  Poller.update faults poller source.raw (source.event key)

/-- `poll_ready` with the wakers it wakes. -/
def pollReady (faults : Poller.Faults P) (reactor : Reactor P S W) (key : Nat)
    (direction : Direction) (waker : W) :
    Except Panic (Reactor P S W × List W × Poll (Except Errno Unit)) :=
  match Slab.get? reactor.sources key with
  | none => .error .unwrapNone
  | some source =>
      let interest := source.interest direction
      if interest.woke then
        let source := source.setInterest direction { interest with woke := false }
        let sources := Slab.set reactor.sources key source
        .ok ({ reactor with sources }, [], .ready (.ok ()))
      else
        let source := source.setInterest direction { interest with poller := some waker }
        let sources := Slab.set reactor.sources key source
        match interest.poller with
        | some replaced => .ok ({ reactor with sources }, [replaced], .pending)
        | none =>
            match updateInterest faults reactor.poller key source with
            | (poller, .error errno) => .ok ({ poller, sources }, [], .ready (.error errno))
            | (poller, .ok ()) => .ok ({ poller, sources }, [], .pending)

/-- The body of the loop over the events in `poll`. -/
def handleEvent (faults : Poller.Faults P) (reactor : Reactor P S W) (e : Event)
    (wakers : List W) : Reactor P S W × List W × Except Errno Unit :=
  match Slab.get? reactor.sources e.key with
  | none => (reactor, wakers, .ok ())
  | some source =>
      let (source, wakers) := source.takeIf e.readable .read wakers
      let (source, wakers) := source.takeIf e.writable .write wakers
      let sources := Slab.set reactor.sources e.key source
      if source.reader.hasPoller || source.writer.hasPoller then
        let (poller, result) := updateInterest faults reactor.poller e.key source
        ({ poller, sources }, wakers, result)
      else ({ reactor with sources }, wakers, .ok ())

/-- The loop over the events in `poll`; an error leaves the rest unhandled. -/
def handleEvents (faults : Poller.Faults P) (reactor : Reactor P S W) (wakers : List W) :
    List Event → Reactor P S W × List W × Except Errno Unit
  | [] => (reactor, wakers, .ok ())
  | e :: events =>
      match reactor.handleEvent faults e wakers with
      | (reactor, wakers, .error errno) => (reactor, wakers, .error errno)
      | (reactor, wakers, .ok ()) => reactor.handleEvents faults wakers events

/-- `poll` after the poller returned. -/
def poll (faults : Poller.Faults P) (reactor : Reactor P S W)
    (waited : Except Errno (List (Poller.SysEvent P))) (wakers : List W) :
    Reactor P S W × List W × Except Errno Unit :=
  match waited with
  | .ok events => reactor.handleEvents faults wakers (events.map Poller.fromSys)
  | .error .EINTR => (reactor, wakers, .ok ())
  | .error errno => (reactor, wakers, .error errno)

/-! ## The system -/

/-- What clients and the kernel can do.  A poll comes with the answer of the kernel. -/
inductive Op (P : Type) [Poller P] (W : Type) where
  | insertSource (raw : Nat)
  | removeSource (key : Nat)
  | pollReady (key : Nat) (direction : Direction) (waker : W)
  | poll (timeout : Option Nat) (answer : Except Errno (List (Poller.Ready P)))

/-- An operation with the system calls that fail while it runs. -/
structure Call (P : Type) [Poller P] (W : Type) where
  op : Op P W
  faults : Poller.Faults P := Poller.faultless

/-- What an operation returned. -/
inductive Answer (P : Type) [Poller P] where
  | inserted (result : Except Errno Nat)
  | removed (result : Except Errno Unit)
  | polled (result : Poll (Except Errno Unit))
  | waited (timeout : Poller.Timeout P) (result : Except Errno Unit)

/-- The error that an operation returned. -/
def Answer.failure : Answer P → Option Errno
  | .inserted (.error errno) | .removed (.error errno) | .polled (.ready (.error errno))
  | .waited _ (.error errno) => some errno
  | _ => none

/-- The wakers that an operation invoked or handed out, and what it returned. -/
structure Output (P : Type) [Poller P] (W : Type) where
  woken : List W := []
  handed : List W := []
  answer : Answer P

/-- The wakers that got their wake. -/
def Output.released (output : Output P W) : List W := output.woken ++ output.handed

def step (reactor : Reactor P S W) (call : Call P W) :
    Outcome Panic (Reactor P S W) (Output P W) :=
  match call.op with
  | .insertSource raw =>
      let (reactor, result) := reactor.insertSource call.faults raw
      .next reactor { answer := .inserted result }
  | .removeSource key => .ofExcept do
      let (reactor, result) ← reactor.removeSource call.faults key
      .ok (reactor, { answer := .removed result })
  | .pollReady key direction waker => .ofExcept do
      let (reactor, woken, result) ← reactor.pollReady call.faults key direction waker
      .ok (reactor, { woken, answer := .polled result })
  | .poll timeout answer =>
      match Poller.poll reactor.poller answer with
      | none => .disabled
      | some (poller, waited) =>
          let (reactor, handed, result) :=
            Reactor.poll call.faults { reactor with poller } waited []
          .next reactor { handed, answer := .waited (Poller.timeout timeout) result }

/-- One reactor with its clients and the kernel. -/
def system : System Panic (Reactor P S W) (Call P W) (Output P W) where
  step := Reactor.step

/-- The successful steps, by the operation that took place. -/
inductive Transition (faults : Poller.Faults P) (reactor : Reactor P S W) :
    Op P W → Reactor P S W → Output P W → Prop where
  | insertSource {raw : Nat} {last : Reactor P S W} {result : Except Errno Nat}
      (hinsert : reactor.insertSource faults raw = (last, result)) :
      Transition faults reactor (.insertSource raw) last { answer := .inserted result }
  | removeSource {key : Nat} {last : Reactor P S W} {result : Except Errno Unit}
      (hremove : reactor.removeSource faults key = .ok (last, result)) :
      Transition faults reactor (.removeSource key) last { answer := .removed result }
  | pollReady {key : Nat} {direction : Direction} {waker : W} {last : Reactor P S W}
      {woken : List W} {result : Poll (Except Errno Unit)}
      (hpoll : reactor.pollReady faults key direction waker = .ok (last, woken, result)) :
      Transition faults reactor (.pollReady key direction waker) last
        { woken, answer := .polled result }
  | poll {timeout : Option Nat} {answer : Except Errno (List (Poller.Ready P))} {poller : P}
      {waited : Except Errno (List (Poller.SysEvent P))} {last : Reactor P S W} {handed : List W}
      {result : Except Errno Unit}
      (hanswer : Poller.poll reactor.poller answer = some (poller, waited))
      (hpoll : Reactor.poll faults { reactor with poller } waited [] = (last, handed, result)) :
      Transition faults reactor (.poll timeout answer) last
        { handed, answer := .waited (Poller.timeout timeout) result }

theorem step_transition {reactor last : Reactor P S W} {call : Call P W} {output : Output P W}
    (hstep : system.step reactor call = .next last output) :
    Transition call.faults reactor call.op last output := by
  obtain ⟨op, faults⟩ := call
  cases op with
  | insertSource raw =>
      cases hstep
      exact .insertSource rfl
  | removeSource key =>
      simp only [system, step, Outcome.ofExcept_eq_next] at hstep
      obtain ⟨⟨next, result⟩, hremove, heq⟩ := ok_of_bind hstep
      cases heq
      exact .removeSource hremove
  | pollReady key direction waker =>
      simp only [system, step, Outcome.ofExcept_eq_next] at hstep
      obtain ⟨⟨next, woken, result⟩, hpoll, heq⟩ := ok_of_bind hstep
      cases heq
      exact .pollReady hpoll
  | poll timeout answer =>
      simp only [system, step] at hstep
      split at hstep
      · cases hstep
      · rename_i poller waited hanswer
        cases hstep
        exact .poll hanswer rfl

end Reactor

end Platoon.Runtime
