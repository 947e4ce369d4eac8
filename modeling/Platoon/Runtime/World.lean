import Platoon.Foundation.HeldCells
import Platoon.Runtime.Executor
import Platoon.Runtime.EpollReactor
import Platoon.Sync.Semaphore
import Platoon.Time.Sleep

/-!
# Drops under a borrow

The tasks and other allocations of a thread with what they own, next to the
semaphores, clocks and reactors that store wakers of them.  A call of one of
these holds its `RefCell` while it drops the wakers that it removes or replaces;
a waker may be the last reference to a task, and then what the task owns is
dropped in its place.  Each drop is a step of its own.
-/

namespace Platoon.Runtime

open Platoon.Foundation Platoon.Rust Platoon.Sync Platoon.Time

/-- The `RefCell` in a `Semaphore`, and those that the `Clock` and the `Reactor` of a runtime
share. -/
inductive Cell where
  | semaphore (name : Nat)
  | clock (runtime : Nat)
  | reactor (runtime : Nat)
  deriving DecidableEq, Repr

instance {W : Type} [DecidableEq W] : DecidableEq (Sleep W) := fun left right =>
  decidable_of_iff (left.deadline = right.deadline ∧ left.alarm = right.alarm) <| by
    cases left
    cases right
    simp

/-- What can be owned and dropped. -/
inductive Item where
  /-- A waker, a `JoinHandle` or another `Rc`. -/
  | rc (node : Nat)
  | permit (semaphore permits : Nat)
  /-- The future inside `Semaphore::acquire`. -/
  | acquire (semaphore : Nat) (acquire : Acquire)
  | sleep (runtime : Nat) (sleep : Sleep Nat)
  /-- The registered source of a `TcpStream` or `TcpListener`. -/
  | async (runtime key : Nat)
  deriving DecidableEq

/-- A task with the cell `state`, or another allocation, which no waker is made of and whose
state is never read. -/
structure Alloc where
  strong : Nat
  state : TaskState
  contents : List Item

/-- A panic of the code, or one of `borrow_mut` on a cell that is held. -/
inductive Crash where
  | panicked (reason : Panic)
  | reentered (cell : Cell)
  deriving DecidableEq, Repr

/-- The allocations, the queue of the executor, and what the cells hold. -/
structure Store (S : Type → Type) where
  allocs : Nat → Option Alloc
  queue : List Nat
  semaphores : Nat → Inner S Nat
  clocks : Nat → Clock Nat
  reactors : Nat → Reactor Sys.Epoll S Nat

/-- What a call did before it drops wakers: the wakers that it drops while it holds its cell,
those that it wakes after that, and what its caller owns when it returns. -/
structure Effect (S : Type → Type) where
  store : Store S
  released : List Nat := []
  woken : List Nat := []
  given : List Item := []

variable {S : Type → Type}

namespace Store

def setAlloc (store : Store S) (node : Nat) (alloc : Option Alloc) : Store S :=
  { store with allocs := Function.update store.allocs node alloc }

def setSemaphore (store : Store S) (name : Nat) (inner : Inner S Nat) : Store S :=
  { store with semaphores := Function.update store.semaphores name inner }

def setClock (store : Store S) (runtime : Nat) (clock : Clock Nat) : Store S :=
  { store with clocks := Function.update store.clocks runtime clock }

def setReactor (store : Store S) (runtime : Nat) (reactor : Reactor Sys.Epoll S Nat) : Store S :=
  { store with reactors := Function.update store.reactors runtime reactor }

/-- `Rc::clone`, of a waker or of another reference. -/
def retain (store : Store S) (node : Nat) : Store S :=
  match store.allocs node with
  | none => store
  | some alloc => store.setAlloc node (some { alloc with strong := alloc.strong + 1 })

/-- `RcWake::wake` on a clone of the waker: an idle task is scheduled and queued. -/
def wakeByRef (store : Store S) (node : Nat) : Store S :=
  match store.allocs node with
  | some { strong, state := .idle, contents } =>
      { store.setAlloc node (some { strong := strong + 1, state := .scheduled, contents }) with
        queue := store.queue ++ [node] }
  | _ => store

/-- The tasks of an executor are in the store with their states, and so is its queue. -/
structure Mirrors {V : Type} (store : Store S) (executor : Executor V) : Prop where
  queue : store.queue = executor.queue
  tasks : ∀ task repr, executor.tasks task = some repr →
    ∃ alloc, store.allocs task = some alloc ∧ alloc.state = repr.state

/-- Waking a task does to its state and to the queue what it does in the model of the whole
executor. -/
theorem Mirrors.wake {V : Type} {store : Store S} {executor : Executor V}
    (hmirrors : store.Mirrors executor) {task : Nat} {repr : TaskRepr V}
    (htask : executor.tasks task = some repr) :
    (store.wakeByRef task).Mirrors (executor.wake (.task task)) := by
  obtain ⟨alloc, halloc, hsame⟩ := hmirrors.tasks task repr htask
  obtain ⟨strong, state, contents⟩ := alloc
  subst hsame
  cases hstate : repr.state with
  | idle =>
      simp only [wakeByRef, halloc, Executor.wake, htask, hstate]
      refine ⟨by rw [hmirrors.queue], ?_⟩
      intro other repr' hother
      by_cases heq : other = task
      · subst heq
        simp only [Executor.set, Function.update_self, Option.some.injEq] at hother
        exact ⟨⟨strong + 1, .scheduled, contents⟩, by simp [setAlloc], by rw [← hother]⟩
      · simp only [Executor.set, Function.update_of_ne heq] at hother
        simp only [setAlloc, Function.update_of_ne heq]
        exact hmirrors.tasks other repr' hother
  | scheduled =>
      simp only [wakeByRef, halloc, Executor.wake, htask, hstate]
      exact hmirrors
  | done =>
      simp only [wakeByRef, halloc, Executor.wake, htask, hstate]
      exact hmirrors

/-! ## What the operations of a semaphore do with wakers -/

variable [Slab S]

/-- The waker stored for a waiter. -/
def waiting (store : Store S) (semaphore key : Nat) : Option Nat :=
  (Slab.get? (store.semaphores semaphore).waiters key).bind Waiter.waker

/-- `Semaphore::try_acquire`. -/
def tryAcquire (profile : Profile) (store : Store S) (semaphore permits : Nat) :
    Except Panic (Effect S) := do
  let (inner, acquired) ← (store.semaphores semaphore).tryAcquire profile permits
  .ok
    { store := store.setSemaphore semaphore inner
      given := if acquired then [.permit semaphore permits] else [] }

/-- `Semaphore::add_permits` of some permits; `Permit::drop` calls it. -/
def addPermits (profile : Profile) (store : Store S) (semaphore permits : Nat) :
    Except Panic (Effect S) := do
  let (inner, woken) ← Semaphore.addPermits profile (store.semaphores semaphore) permits
  .ok { store := store.setSemaphore semaphore inner, woken }

/-- `Acquire::drop` of one that waits at `key`: `remove` drops the waiter with its waker. -/
def dropAcquire (profile : Profile) (store : Store S) (semaphore : Nat) (acquire : Acquire)
    (key : Nat) : Except Panic (Effect S) := do
  let (inner, woken) ← acquire.drop profile (store.semaphores semaphore)
  .ok
    { store := store.setSemaphore semaphore inner
      released := (store.waiting semaphore key).toList
      woken }

/-- `Acquire::poll`.  A waiter that was woken is removed with its waker, and one that was not
has its waker replaced, unless that wakes the same task. -/
def pollAcquire (profile : Profile) (store : Store S) (semaphore : Nat) (acquire : Acquire)
    (waker : Nat) : Except Panic (Effect S) := do
  let (inner, next, poll, woken) ← acquire.poll profile (store.semaphores semaphore) waker
  let stored := match acquire.state with
    | .waiting key => store.waiting semaphore key
    | _ => none
  match poll with
  | .ready permits =>
      .ok
        { store := store.setSemaphore semaphore inner
          released := stored.toList
          woken
          given := [.acquire semaphore next, .permit semaphore permits] }
  | .pending =>
      if stored.any fun stored => Wakes.willWake stored waker then
        .ok
          { store := store.setSemaphore semaphore inner
            woken
            given := [.acquire semaphore next] }
      else
        .ok
          { store := (store.retain waker).setSemaphore semaphore inner
            released := stored.toList
            woken
            given := [.acquire semaphore next] }

/-! ## What the operations of a clock do with wakers -/

/-- `Sleep::drop` with an alarm: `remove_alarm` drops the waker in the clock. -/
def dropSleep (store : Store S) (runtime : Nat) (sleep : Sleep Nat) (id : Nat) : Effect S where
  store := store.setClock runtime (sleep.drop (store.clocks runtime))
  released := ((store.clocks runtime).alarms.get? (alarmKey sleep.deadline id)).toList

/-- `Sleep::poll` up to and with `insert_alarm` or `replace_alarm_waker`.  The clock and the
sleep get a clone of the waker each; the old one of the sleep is dropped afterwards. -/
def pollSleep (profile : Profile) (store : Store S) (runtime : Nat) (sleep : Sleep Nat)
    (now waker : Nat) : Except Panic (Effect S) := do
  let (clock, next, _) ← sleep.poll profile (store.clocks runtime) now waker
  let store := ((store.retain waker).retain waker).setClock runtime clock
  match sleep.alarm with
  | none => .ok { store, given := [.sleep runtime next] }
  | some (id, own) =>
      .ok
        { store
          released := ((store.clocks runtime).alarms.get? (alarmKey sleep.deadline id)).toList
          given := [.sleep runtime next, .rc own] }

/-- `Sleep::reset` with an alarm. -/
def resetSleep (store : Store S) (runtime : Nat) (sleep : Sleep Nat) (deadline : Nat) :
    Except Panic (Effect S) := do
  let (clock, next) ← sleep.reset (store.clocks runtime) deadline
  .ok { store := store.setClock runtime clock, given := [.sleep runtime next] }

/-! ## What the operations of a reactor do with wakers -/

/-- `Reactor::insert_source`. -/
def insertSource (faults : Sys.Faults) (store : Store S) (runtime raw : Nat) : Effect S :=
  let (reactor, result) := (store.reactors runtime).insertSource faults raw
  { store := store.setReactor runtime reactor
    given := match result with
      | .ok key => [.async runtime key]
      | .error _ => [] }

/-- The wakers that a source stores. -/
def polling (store : Store S) (runtime key : Nat) : List Nat :=
  (Slab.get? (store.reactors runtime).sources key).elim [] fun source =>
    source.reader.poller.toList ++ source.writer.poller.toList

/-- `Async::drop`: `remove_source` drops the source with its wakers. -/
def dropAsync (faults : Sys.Faults) (store : Store S) (runtime key : Nat) :
    Except Panic (Effect S) := do
  let (reactor, _) ← (store.reactors runtime).removeSource faults key
  .ok { store := store.setReactor runtime reactor, released := store.polling runtime key }

/-- `Reactor::poll_ready`: `util::wake` wakes the waker that was displaced, and drops it. -/
def pollReady (faults : Sys.Faults) (store : Store S) (runtime key : Nat)
    (direction : Direction) (waker : Nat) : Except Panic (Effect S) := do
  let (reactor, displaced, poll) ← (store.reactors runtime).pollReady faults key direction waker
  let store := store.setReactor runtime reactor
  match poll with
  | .ready (.ok ()) => .ok { store }
  | _ =>
      .ok
        { store := displaced.foldl wakeByRef (store.retain waker)
          released := displaced }

end Store

/-- One thread: what its code owns, and the calls that hold a cell, innermost first, each with
the wakers that it wakes at its end. -/
structure World (S : Type → Type) where
  store : Store S
  owned : List Item
  calls : List (Holding Cell Item (List Nat))

namespace World

variable [Slab S]

/-- What clients, the executor and the parker do while no cell is held, and the next step of
the innermost call. -/
inductive Op where
  /-- `Rc::new`. -/
  | alloc (node : Nat)
  | spawn (node : Nat)
  /-- The executor pops a task and runs it. -/
  | run
  /-- The task returned `Ready`. -/
  | finish (node : Nat)
  | clone (node : Nat)
  | wakeByRef (node : Nat)
  /-- Move an item into an allocation. -/
  | put (node : Nat) (item : Item)
  /-- Move an item out of an allocation. -/
  | take (node : Nat) (item : Item)
  | drop (item : Item) (faults : Sys.Faults)
  /-- `mem::forget`, and `Permit::forget`. -/
  | forget (item : Item)
  | tryAcquire (semaphore permits : Nat)
  | addPermits (semaphore permits : Nat)
  | acquire (semaphore permits : Nat)
  | pollAcquire (semaphore : Nat) (acquire : Acquire) (waker : Nat)
  | sleepUntil (runtime deadline : Nat)
  | pollSleep (runtime : Nat) (sleep : Sleep Nat) (now waker : Nat)
  | resetSleep (runtime : Nat) (sleep : Sleep Nat) (deadline : Nat)
  | insertSource (runtime raw : Nat) (faults : Sys.Faults)
  | pollReady (runtime key : Nat) (direction : Direction) (waker : Nat) (faults : Sys.Faults)
  /-- The clock and then the reactor hand out wakers, which are woken and dropped later. -/
  | park (runtime now : Nat) (answer : Except Sys.Errno (List (Nat × BitVec 32)))
      (faults : Sys.Faults)
  | advance (faults : Sys.Faults)

/-- Semaphores with these permits, and nothing else. -/
def new (permits : Nat → Nat) : World S where
  store :=
    { allocs := fun _ => none
      queue := []
      semaphores := fun name => Semaphore.new (permits name)
      clocks := fun _ => .new
      reactors := fun _ => .new }
  owned := []
  calls := []

/-- Items that are dropped next: by the innermost call, or by the code that runs. -/
def discard (world : World S) (items : List Item) : World S :=
  match world.calls with
  | [] => { world with owned := items ++ world.owned }
  | call :: calls =>
      { world with calls := { call with todo := items ++ call.todo } :: calls }

/-- `Rc::drop`: with the last reference the contents are dropped. -/
def release (world : World S) (node : Nat) : World S :=
  match world.store.allocs node with
  | none => world
  | some alloc =>
      if alloc.strong ≤ 1 then
        { world with store := world.store.setAlloc node none }.discard alloc.contents
      else
        { world with
          store := world.store.setAlloc node (some { alloc with strong := alloc.strong - 1 }) }

/-- Borrow a cell for a call, which has an effect and then has wakers to drop. -/
def within (world : World S) (cell : Cell) (effect : Except Panic (Effect S)) :
    Except Crash (World S) :=
  if cell ∈ Holding.cells world.calls then .error (.reentered cell)
  else
    match effect with
    | .error reason => .error (.panicked reason)
    | .ok effect =>
        .ok
          { store := effect.store
            owned := effect.given ++ world.owned
            calls := ⟨cell, effect.released.map .rc, effect.woken⟩ :: world.calls }

/-- Drop an item that nothing owns any more. -/
def dropItem (profile : Profile) (faults : Sys.Faults) (world : World S) :
    Item → Except Crash (World S)
  | .rc node => .ok (world.release node)
  | .permit semaphore permits =>
      -- `add_permits` returns before it borrows
      if permits = 0 then .ok world
      else
        world.within (.semaphore semaphore) (world.store.addPermits profile semaphore permits)
  | .acquire semaphore acquire =>
      match acquire.state with
      | .waiting key =>
          world.within (.semaphore semaphore)
            (world.store.dropAcquire profile semaphore acquire key)
      | _ => .ok world
  | .sleep runtime sleep =>
      match sleep.alarm with
      | some (id, own) =>
          -- the fields of a `Sleep` are dropped after `Sleep::drop`
          (world.discard [.rc own]).within (.clock runtime)
            (.ok (world.store.dropSleep runtime sleep id))
      | none => .ok world
  | .async runtime key =>
      world.within (.reactor runtime) (world.store.dropAsync faults runtime key)

/-- The end of an operation. -/
def ends (result : Except Crash (World S)) : Outcome Crash (World S) Unit :=
  match result with
  | .error crash => .panic crash
  | .ok world => .next world ()

/-- The innermost call drops what comes next, or wakes what it has to wake and returns. -/
def advance (profile : Profile) (faults : Sys.Faults) (world : World S) :
    Outcome Crash (World S) Unit :=
  match world.calls with
  | [] => .disabled
  | call :: calls =>
      match call.todo with
      | [] =>
          .next { world with store := call.rest.foldl Store.wakeByRef world.store, calls } ()
      | item :: todo =>
          ends <| { world with calls := { call with todo } :: calls }.dropItem profile faults item

def give (world : World S) (items : List Item) : World S :=
  { world with owned := items ++ world.owned }

def without (world : World S) (item : Item) : World S :=
  { world with owned := world.owned.erase item }

/-- Code outside of all calls, with items that it owns. -/
def outside (world : World S) (items : List Item) (outcome : Outcome Crash (World S) Unit) :
    Outcome Crash (World S) Unit :=
  .when (world.calls.isEmpty && items.all fun item => item ∈ world.owned) outcome

/-- Write to an allocation. -/
def update (world : World S) (node : Nat) (write : Alloc → Alloc) : World S :=
  { world with store := world.store.setAlloc node ((world.store.allocs node).map write) }

/-- The contents of an allocation. -/
def contents (world : World S) (node : Nat) : List Item :=
  (world.store.allocs node).elim [] Alloc.contents

/-- A new allocation and the first reference to it. -/
def create (world : World S) (node strong : Nat) (state : TaskState) : World S :=
  { world with store := world.store.setAlloc node (some { strong, state, contents := [] }) }.give
    [.rc node]

/-- `Executor::spawn`. -/
def spawn (world : World S) (node : Nat) : World S :=
  let world := world.create node 2 .scheduled
  { world with store := { world.store with queue := world.store.queue ++ [node] } }

/-- `park`: what the clock hands out, and then the reactor. -/
def park (world : World S) (runtime now : Nat)
    (answer : Except Sys.Errno (List (Nat × BitVec 32))) (faults : Sys.Faults) :
    Outcome Crash (World S) Unit :=
  let (clock, expired, _) := (world.store.clocks runtime).park now
  match Reactor.step (world.store.reactors runtime) { op := .poll none answer, faults } with
  | .next reactor output =>
      let store := (world.store.setClock runtime clock).setReactor runtime reactor
      .next ({ world with store }.give ((expired ++ output.handed).map .rc)) ()
  | _ => .disabled

def step (profile : Profile) (world : World S) : Op → Outcome Crash (World S) Unit
  | .alloc node =>
      world.outside [] <| .when (world.store.allocs node).isNone <|
        .next (world.create node 1 .done) ()
  | .spawn node =>
      world.outside [] <| .when (world.store.allocs node).isNone <| .next (world.spawn node) ()
  | .run =>
      world.outside [] <|
        match world.store.queue with
        | [] => .disabled
        | node :: queue =>
            let world := { world with store := { world.store with queue } }.give [.rc node]
            .next (world.update node fun alloc => { alloc with state := .idle }) ()
  | .finish node =>
      world.outside [.rc node] <|
        .next (world.update node fun alloc => { alloc with state := .done }) ()
  | .clone node =>
      world.outside [.rc node] <|
        .next ({ world with store := world.store.retain node }.give [.rc node]) ()
  | .wakeByRef node =>
      world.outside [.rc node] <| .next { world with store := world.store.wakeByRef node } ()
  | .put node item =>
      world.outside [item] <| .when (.rc node ∈ (world.without item).owned) <|
        .next ((world.without item).update node fun alloc =>
          { alloc with contents := item :: alloc.contents }) ()
  | .take node item =>
      world.outside [.rc node] <| .when (item ∈ world.contents node) <|
        .next ((world.update node fun alloc =>
          { alloc with contents := alloc.contents.erase item }).give [item]) ()
  | .drop item faults =>
      world.outside [item] <| ends <| (world.without item).dropItem profile faults item
  | .forget item => world.outside [item] <| .next (world.without item) ()
  | .tryAcquire semaphore permits =>
      world.outside [] <| ends <|
        world.within (.semaphore semaphore) (world.store.tryAcquire profile semaphore permits)
  | .addPermits semaphore permits =>
      world.outside [] <| ends <|
        if permits = 0 then .ok world
        else world.within (.semaphore semaphore) (world.store.addPermits profile semaphore permits)
  | .acquire semaphore permits =>
      world.outside [] <| .next (world.give [.acquire semaphore { state := .idle, permits }]) ()
  | .pollAcquire semaphore acquire waker =>
      world.outside [.acquire semaphore acquire, .rc waker] <| ends <|
        (world.without (.acquire semaphore acquire)).within (.semaphore semaphore)
          (world.store.pollAcquire profile semaphore acquire waker)
  | .sleepUntil runtime deadline =>
      world.outside [] <| .next (world.give [.sleep runtime (Time.sleepUntil deadline)]) ()
  | .pollSleep runtime sleep now waker =>
      world.outside [.sleep runtime sleep, .rc waker] <|
        -- the clock is used only to store another waker
        if sleep.deadline ≤ now ∨
            sleep.alarm.any (fun alarm => Wakes.willWake alarm.2 waker) = true then
          .next world ()
        else
          ends <| (world.without (.sleep runtime sleep)).within (.clock runtime)
            (world.store.pollSleep profile runtime sleep now waker)
  | .resetSleep runtime sleep deadline =>
      world.outside [.sleep runtime sleep] <|
        if sleep.alarm.isNone then
          .next ((world.without (.sleep runtime sleep)).give
            [.sleep runtime { sleep with deadline }]) ()
        else
          ends <| (world.without (.sleep runtime sleep)).within (.clock runtime)
            (world.store.resetSleep runtime sleep deadline)
  | .insertSource runtime raw faults =>
      world.outside [] <| ends <|
        world.within (.reactor runtime) (.ok (world.store.insertSource faults runtime raw))
  | .pollReady runtime key direction waker faults =>
      world.outside [.async runtime key, .rc waker] <| ends <|
        world.within (.reactor runtime)
          (world.store.pollReady faults runtime key direction waker)
  | .park runtime now answer faults => world.outside [] <| world.park runtime now answer faults
  | .advance faults => world.advance profile faults

/-- One thread with its executor, semaphores, clocks and reactors. -/
def system (profile : Profile) : System Crash (World S) Op Unit where
  step := World.step profile

end World

end Platoon.Runtime
