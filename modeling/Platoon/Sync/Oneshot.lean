import Platoon.Foundation.Transition
import Platoon.Rust.Prelude

/-!
# The oneshot channel

The `Shared` of a channel and the operations of its two halves.  `send` takes
the `Sender` by value, so the destructor of the `Sender` is part of it.
Wakers only schedule their tasks: what a task does then is a later operation.
-/

namespace Platoon.Sync.Oneshot

open Platoon.Foundation Platoon.Rust

/-- The error of a receiver whose channel has been closed. -/
structure Closed where
  deriving DecidableEq, Repr

structure Shared (T W : Type) where
  complete : Bool := false
  message : Option T := none
  sender : Option W := none
  receiver : Option W := none
  deriving DecidableEq, Repr

variable {T W : Type}

namespace Sender

/-- `Sender::drop`, with the waker it wakes. -/
def drop (shared : Shared T W) : Shared T W × List W :=
  ({ shared with complete := true, receiver := none, sender := none }, shared.receiver.toList)

/-- `Sender::send` up to the drop of the `Sender`. -/
def send (shared : Shared T W) (message : T) : Shared T W × Except T Unit :=
  if shared.complete then (shared, .error message)
  else ({ shared with message := some message }, .ok ())

def pollClosed (shared : Shared T W) (waker : W) : Shared T W × Poll Unit :=
  if shared.complete then (shared, .ready ())
  else ({ shared with sender := some waker }, .pending)

def isClosed (shared : Shared T W) : Bool := shared.complete

end Sender

namespace Receiver

/-- `Receiver::close`, with the waker it wakes. -/
def close (shared : Shared T W) : Shared T W × List W :=
  ({ shared with complete := true, sender := none }, shared.sender.toList)

def tryRecv (shared : Shared T W) : Shared T W × Except Closed (Option T) :=
  if shared.complete then
    match shared.message with
    | some message => ({ shared with message := none }, .ok (some message))
    | none => (shared, .error ⟨⟩)
  else (shared, .ok none)

def poll (shared : Shared T W) (waker : W) : Shared T W × Poll (Except Closed T) :=
  if shared.complete then
    match shared.message with
    | some message => ({ shared with message := none }, .ready (.ok message))
    | none => (shared, .ready (.error ⟨⟩))
  else ({ shared with receiver := some waker }, .pending)

/-- `Receiver::drop`, with the waker it wakes. -/
def drop (shared : Shared T W) : Shared T W × List W :=
  ({ shared with complete := true, receiver := none, sender := none }, shared.sender.toList)

end Receiver

/-- A channel with the halves that are still owned. -/
structure Channel (T W : Type) where
  shared : Shared T W := {}
  hasSender : Bool := true
  hasReceiver : Bool := true
  deriving DecidableEq, Repr

inductive Op (T W : Type) where
  | send (message : T)
  | dropSender
  | pollClosed (waker : W)
  | isClosed
  | poll (waker : W)
  | tryRecv
  | close
  | dropReceiver
  deriving DecidableEq, Repr

/-- What an operation returned. -/
inductive Answer (T : Type) where
  | unit
  | sent (result : Except T Unit)
  | pollClosed (result : Poll Unit)
  | isClosed (closed : Bool)
  | polled (result : Poll (Except Closed T))
  | tried (result : Except Closed (Option T))

/-- The wakers that an operation woke, and what it returned. -/
structure Output (T W : Type) where
  woken : List W := []
  answer : Answer T

namespace Op

/-- Whether the operation consumes the `Sender`. -/
def endsSender : Op T W → Bool
  | .send _ | .dropSender => true
  | _ => false

/-- Whether the operation closes the receiver. -/
def endsReceiver : Op T W → Bool
  | .close | .dropReceiver => true
  | _ => false

def dropsReceiver : Op T W → Bool
  | .dropReceiver => true
  | _ => false

/-- Whether the operation may return the message. -/
def receives : Op T W → Bool
  | .poll _ | .tryRecv => true
  | _ => false

end Op

namespace Channel

/-- `channel`. -/
def new : Channel T W := {}

def step (channel : Channel T W) : Op T W → Outcome Panic (Channel T W) (Output T W)
  | .send message =>
      .when channel.hasSender <|
        let (shared, result) := Sender.send channel.shared message
        let (shared, woken) := Sender.drop shared
        .next { channel with shared, hasSender := false } { woken, answer := .sent result }
  | .dropSender =>
      .when channel.hasSender <|
        let (shared, woken) := Sender.drop channel.shared
        .next { channel with shared, hasSender := false } { woken, answer := .unit }
  | .pollClosed waker =>
      .when channel.hasSender <|
        let (shared, result) := Sender.pollClosed channel.shared waker
        .next { channel with shared } { answer := .pollClosed result }
  | .isClosed =>
      .when channel.hasSender <|
        .next channel { answer := .isClosed (Sender.isClosed channel.shared) }
  | .poll waker =>
      .when channel.hasReceiver <|
        let (shared, result) := Receiver.poll channel.shared waker
        .next { channel with shared } { answer := .polled result }
  | .tryRecv =>
      .when channel.hasReceiver <|
        let (shared, result) := Receiver.tryRecv channel.shared
        .next { channel with shared } { answer := .tried result }
  | .close =>
      .when channel.hasReceiver <|
        let (shared, woken) := Receiver.close channel.shared
        .next { channel with shared } { woken, answer := .unit }
  | .dropReceiver =>
      .when channel.hasReceiver <|
        let (shared, woken) := Receiver.drop channel.shared
        .next { channel with shared, hasReceiver := false } { woken, answer := .unit }

/-- The two halves of one channel, used in any order. -/
def system : System Panic (Channel T W) (Op T W) (Output T W) where
  step := Channel.step

end Channel

end Platoon.Sync.Oneshot
