import Platoon.Foundation.RefCount
import Platoon.Runtime.Executor

/-!
# Who holds whom

The reference-counted allocations of one runtime, beside its executor: the
`Shared` of the reactor, of the clock and of the executor, the tasks, and what
clients allocate.  Every step of the executor says what it does with references.
The clock and the reactor store the wakers that clients give them.
-/

namespace Platoon.Runtime

open Platoon.Foundation Platoon.Rust

/-- What an `Rc` points to. -/
inductive Node where
  | reactor
  | clock
  | executor
  | task (task : Nat)
  /-- An allocation of a client, such as the `Shared` of a channel or a foreign waker. -/
  | client (name : Nat)
  deriving DecidableEq, Repr

/-- Where a reference is. -/
inductive Place where
  /-- `executor` of a task, or `parker`. -/
  | field
  | queue
  | alarm
  | source
  | awaiter
  /-- In a payload, in an allocation of a client, or in a value that a client has. -/
  | client
  /-- A local of the executor's functions. -/
  | frame
  /-- A waker that is about to be woken. -/
  | waking
  deriving DecidableEq, Repr

/-- What a waker is a reference to. -/
def Waker.node : Waker → Node
  | .main => .executor
  | .task index => .task index
  | .foreign name => .client name

structure Ownership (V : Type) where
  executor : Executor V
  heap : Heap Node Place

namespace Ownership

/-- Steps of the executor, of the parker and of the clients. -/
inductive Op (V : Type) where
  | run (op : Executor.Op V)
  /-- `park` or `park_timeout` takes wakers out of the alarms and the sources. -/
  | park (alarms sources : List Waker)
  | clone (node : Node)
  | alloc (name : Nat)
  | move (ref : Ref Node Place) (holder : Option Node) (place : Place)
  /-- A value of a client is dropped, or what a dropped allocation held. -/
  | discard (place : Place) (node : Node)
  deriving DecidableEq, Repr

variable {V : Type}

/-- `Runtime::new`. -/
def new : Ownership V where
  executor := .new
  heap :=
    { refs :=
        [⟨none, .client, .reactor⟩, ⟨none, .client, .clock⟩, ⟨none, .client, .executor⟩,
          ⟨some .clock, .field, .reactor⟩, ⟨some .executor, .field, .clock⟩]
      strong := fun
        | .reactor => 2
        | .clock => 2
        | .executor => 1
        | _ => 0 }

/-- Whether clients decide what is stored there: they give the clock and the reactor wakers. -/
def clients : Option Node → Place → Node → Bool
  | none, .client, _ | some (.task _), .client, _ | some (.client _), .client, _ => true
  | some .clock, .alarm, node | some .reactor, .source, node => node ≠ .reactor && node ≠ .clock
  | _, _, _ => false

/-- Whether clients have a reference to the node, or a function of the executor lends one. -/
def reaches (heap : Heap Node Place) (node : Node) : Bool :=
  heap.refs.any fun ref =>
    ref.target = node && (ref.place = .client || ref.place = .frame || ref.place = .waking)

/-- Whether clients have the references that a step borrows. -/
def allowed (heap : Heap Node Place) : Executor.Op V → Bool
  | .blockOn | .spawn _ => reaches heap .executor
  | .wake waker => reaches heap waker.node
  | .pollOutput task waker => reaches heap (.task task) && reaches heap waker.node
  | .parkReturns (some _) => false
  | _ => true

/-- `RcWake::wake`: what is pushed on the queue. -/
def wakeRefs (executor : Executor V) : Waker → List (Heap.Op Node Place)
  | .task task =>
      match executor.tasks task with
      | some { state := .idle, .. } => [.clone ⟨some .executor, .queue, .task task⟩]
      | _ => []
  | _ => []

/-- `util::wake` of a waker that has been taken. -/
def takenRefs (executor : Executor V) (waker : Waker) : List (Heap.Op Node Place) :=
  wakeRefs executor waker ++ [.discard ⟨none, .waking, waker.node⟩]

/-- The end of `TaskRepr::run`, with its waker and the task itself. -/
def runEnds (task : Nat) : List (Heap.Op Node Place) :=
  [.discard ⟨none, .frame, .task task⟩, .discard ⟨none, .frame, .task task⟩]

/-- `Executor::spawn`. -/
def spawnRefs (task : Nat) : List (Heap.Op Node Place) :=
  [.clone ⟨none, .frame, .executor⟩, .alloc ⟨none, .client, .task task⟩,
    .move ⟨none, .frame, .executor⟩ (some (.task task)) .field,
    .clone ⟨some .executor, .queue, .task task⟩]

/-- A popped task, up to the poll of its future. -/
def runRefs (task : Nat) (repr : TaskRepr V) : List (Heap.Op Node Place) :=
  [.move ⟨some .executor, .queue, .task task⟩ none .frame, .clone ⟨none, .frame, .task task⟩] ++
    match repr.payload with
    | .future => []
    | _ => runEnds task

/-- `TaskRepr::run` after the destructor of the future. -/
def completeRefs (executor : Executor V) (task : Nat) (repr : TaskRepr V) :
    List (Heap.Op Node Place) :=
  let executor := executor.set task { repr with state := .done }
  match repr.awaiter with
  | some waker =>
      .move ⟨some (.task task), .awaiter, waker.node⟩ none .waking ::
        takenRefs executor waker ++ runEnds task
  | none => runEnds task

/-- `TaskRepr::poll_output` up to the clone of the waker, if it is stored.  The count of the task
stands for the handle, which cannot be dropped before the call returns. -/
def pollOutputRefs (task : Nat) (repr : TaskRepr V) (waker : Waker) :
    List (Heap.Op Node Place) :=
  match repr.payload with
  | .output _ => [.empty (.task task) .client]
  | .taken => []
  | .future => [.clone ⟨none, .frame, .task task⟩, .clone ⟨none, .frame, waker.node⟩]

/-- `awaiter.set` in `TaskRepr::poll_output`. -/
def storeRefs (task : Nat) (repr : TaskRepr V) (waker : Waker) : List (Heap.Op Node Place) :=
  .move ⟨none, .frame, waker.node⟩ (some (.task task)) .awaiter ::
    match repr.awaiter with
    | some old => [.discard ⟨some (.task task), .awaiter, old.node⟩]
    | none => []

/-- `TaskRepr::cancel` up to the destructor of the future, if it takes one. -/
def cancelRefs (task : Nat) (repr : TaskRepr V) : List (Heap.Op Node Place) :=
  .move ⟨none, .client, .task task⟩ none .frame ::
    match repr.payload with
    | .output _ => [.empty (.task task) .client, .discard ⟨none, .frame, .task task⟩]
    | .taken => [.discard ⟨none, .frame, .task task⟩]
    | .future => [.empty (.task task) .client]

def advanceRefs (executor : Executor V) : List (Heap.Op Node Place) :=
  match executor.stack with
  | .blockOn (.tick (_ + 1)) :: _ =>
      match executor.queue with
      | [] => []
      | task :: _ =>
          match executor.tasks task with
          | none => []
          | some repr => runRefs task repr
  | .blockOn (.waking (waker :: _)) :: _ => takenRefs executor waker
  | .blockOn .leave :: _ => [.discard ⟨none, .frame, .executor⟩]
  | .complete task _ :: _ =>
      match executor.tasks task with
      | none => []
      | some repr => completeRefs executor task repr
  | .cancel task :: _ => [.discard ⟨none, .frame, .task task⟩]
  | .join task (some waker) :: _ =>
      (executor.tasks task).elim [] fun repr => storeRefs task repr waker
  | .join task none :: _ => [.discard ⟨none, .frame, .task task⟩]
  | _ => []

/-- The poll of a task returns: its future is dropped where it is, or waits. -/
def retRefs (executor : Executor V) (result : Poll V) : List (Heap.Op Node Place) :=
  match executor.stack, result with
  | .poll task :: _, .ready _ => [.empty (.task task) .client]
  | .poll task :: _, .pending => runEnds task
  | _, _ => []

/-- What a step of the executor does with references. -/
def stepRefs (executor : Executor V) : Executor.Op V → List (Heap.Op Node Place)
  | .advance => advanceRefs executor
  | .parkReturns _ => []
  | .ret result => retRefs executor result
  | .blockOn => [.clone ⟨none, .frame, .executor⟩]
  | .spawn task => spawnRefs task
  | .wake waker => wakeRefs executor waker
  | .pollOutput task waker =>
      (executor.tasks task).elim [] fun repr => pollOutputRefs task repr waker
  | .cancel task => (executor.tasks task).elim [] fun repr => cancelRefs task repr
  | .dropHandle task => [.discard ⟨none, .client, .task task⟩]

/-- What the parker does with references: the clock hands out its wakers first. -/
def parkRefs (alarms sources : List Waker) : List (Heap.Op Node Place) :=
  (alarms.map fun waker => .move ⟨some .clock, .alarm, waker.node⟩ none .waking) ++
    sources.map fun waker => .move ⟨some .reactor, .source, waker.node⟩ none .waking

/-- Use references, and go on with the executor. -/
def useRefs (ownership : Ownership V) (refs : List (Heap.Op Node Place)) (executor : Executor V)
    (events : List (Observation V)) : Outcome Panic (Ownership V) (List (Observation V)) :=
  match ownership.heap.exec refs with
  | none => .disabled
  | some heap => .next { executor, heap } events

/-- Clients use references of theirs. -/
def clientRefs (ownership : Ownership V) (op : Heap.Op Node Place) :
    Outcome Panic (Ownership V) (List (Observation V)) :=
  .when ownership.executor.userRuns <| ownership.useRefs [op] ownership.executor []

def step (ownership : Ownership V) :
    Op V → Outcome Panic (Ownership V) (List (Observation V))
  | .run op =>
      .when (allowed ownership.heap op) <| (ownership.executor.step op).andThen <|
        ownership.useRefs (stepRefs ownership.executor op)
  | .park alarms sources =>
      (ownership.executor.step (.parkReturns (some (alarms ++ sources)))).andThen <|
        ownership.useRefs (parkRefs alarms sources)
  | .clone node =>
      .when (reaches ownership.heap node) <| ownership.clientRefs (.clone ⟨none, .client, node⟩)
  | .alloc name => ownership.clientRefs (.alloc ⟨none, .client, .client name⟩)
  | .move ref holder place =>
      .when (clients ref.holder ref.place ref.target && clients holder place ref.target) <|
        ownership.clientRefs (.move ref holder place)
  | .discard place node =>
      .when (place ≠ .frame && place ≠ .waking) <|
        ownership.clientRefs (.discard ⟨none, place, node⟩)

/-- One runtime with everything that refers to its allocations. -/
def system : System Panic (Ownership V) (Op V) (List (Observation V)) where
  step := Ownership.step

/-- The payload of a task is still its future. -/
def Unfinished (ownership : Ownership V) (task : Nat) : Prop :=
  ∃ repr, ownership.executor.tasks task = some repr ∧ repr.payload = .future

instance [DecidableEq V] (ownership : Ownership V) (task : Nat) :
    Decidable (ownership.Unfinished task) :=
  decidable_of_iff
    ((ownership.executor.tasks task).any fun repr => repr.payload = .future)
    (by simp [Unfinished, Option.any_eq_true])

/-- The allocation of a task is gone, with what was left in its payload. -/
def Dropped (ownership : Ownership V) (task : Nat) : Prop :=
  ownership.heap.strong (.task task) = 0

instance (ownership : Ownership V) (task : Nat) : Decidable (ownership.Dropped task) :=
  inferInstanceAs (Decidable (ownership.heap.strong (.task task) = 0))

end Ownership

end Platoon.Runtime
