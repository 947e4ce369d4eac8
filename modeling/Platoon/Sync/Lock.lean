import Platoon.Sync.Semaphore

/-!
# `Mutex` and `RwLock`

Both locks keep their value in a `RefCell` behind a semaphore.  A method of a
lock is a mode: the permits it acquires and the borrow that it then takes.  A
guard is known by its mode.
-/

namespace Platoon.Sync

open Platoon.Foundation Platoon.Rust

/-- How a guard borrows the value. -/
inductive Access where
  | shared
  | exclusive
  deriving DecidableEq, Repr

/-- What a method acquires from the semaphore and how it then borrows. -/
structure Mode where
  permits : Nat
  access : Access
  deriving DecidableEq, Repr

/-- A lock: the permits of its semaphore, its `async` methods and its `try_` methods. -/
structure Lock where
  permits : Nat
  methods : List Mode
  tries : List Mode

namespace Mutex

def lock : Mode := { permits := 1, access := .exclusive }
def tryLock : Mode := { permits := 1, access := .exclusive }

end Mutex

/-- `Mutex::new`. -/
def Mutex : Lock where
  permits := 1
  methods := [Mutex.lock]
  tries := [Mutex.tryLock]

namespace RwLock

/-- `RwLock::PERMITS`. -/
def PERMITS (profile : Profile) : Nat := profile.usizeMax

def read : Mode := { permits := 1, access := .shared }
def tryRead : Mode := { permits := 1, access := .shared }
def write (profile : Profile) : Mode := { permits := PERMITS profile, access := .exclusive }
def tryWrite (profile : Profile) : Mode := { permits := PERMITS profile, access := .exclusive }

end RwLock

/-- `RwLock::new`. -/
def RwLock (profile : Profile) : Lock where
  permits := RwLock.PERMITS profile
  methods := [RwLock.read, RwLock.write profile]
  tries := [RwLock.tryRead, RwLock.tryWrite profile]

namespace Lock

/-- Take the borrow of a guard. -/
def borrow (profile : Profile) (value : Int) : Access → Except Panic Int
  | .shared => RefCell.borrow profile value
  | .exclusive => RefCell.borrowMut value

/-- Drop the `Ref` or `RefMut` of a guard. -/
def unborrow (value : Int) : Access → Int
  | .shared => RefCell.dropRef value
  | .exclusive => RefCell.dropRefMut value

/-- What clients can do with one lock.  A request is the future of an `async` method. -/
inductive Op (W : Type) where
  | request (future : Nat) (mode : Mode)
  | poll (future : Nat) (waker : W)
  | dropFuture (future : Nat)
  | tryLock (mode : Mode)
  | dropGuard (mode : Mode)
  | leakGuard (mode : Mode)
  deriving DecidableEq, Repr

/-- The wakers invoked by an operation and the guard it handed out, if any. -/
structure Output (W : Type) where
  woken : List W := []
  granted : Option Mode := none
  deriving DecidableEq, Repr

/-- A lock with its requests and the guards that were not dropped: still owned
(`guards`) or leaked with `mem::forget`.  Of the value only its borrow flag is kept. -/
structure State (S : Type → Type) (W : Type) where
  semaphore : Semaphore.State S W
  value : Int
  requests : Nat → Option Mode
  guards : List Mode
  leaked : List Mode

variable {S : Type → Type} [Slab S] {W : Type}

namespace State

def new (lock : Lock) : State S W where
  semaphore := Semaphore.State.new lock.permits
  value := 0
  requests := fun _ => none
  guards := []
  leaked := []

/-- The guards that still borrow the value. -/
def alive (state : State S W) : List Mode := state.guards ++ state.leaked

/-- Build the guard once the semaphore handed out its permit. -/
def finish (profile : Profile) (state : State S W) (mode : Mode)
    (semaphore : Semaphore.State S W) (output : Semaphore.Output W) :
    Outcome Panic (State S W) (Output W) :=
  match output.obtained with
  | none => .next { state with semaphore } { woken := output.woken }
  | some _ => .ofExcept do
      let value ← borrow profile state.value mode.access
      .ok ({ state with semaphore, value, guards := mode :: state.guards },
        { woken := output.woken, granted := some mode })

def step [Wakes W] (profile : Profile) (lock : Lock) (state : State S W) :
    Op W → Outcome Panic (State S W) (Output W)
  | .request future mode =>
      .when (decide (mode ∈ lock.methods)) <|
        (state.semaphore.step profile (.acquire future mode.permits)).andThen
          fun semaphore output =>
            .next { state with
              semaphore, requests := Function.update state.requests future (some mode) }
              { woken := output.woken }
  | .poll future waker =>
      match state.requests future with
      | none => .disabled
      | some mode =>
          (state.semaphore.step profile (.poll future waker)).andThen
            (state.finish profile mode)
  | .dropFuture future =>
      (state.semaphore.step profile (.drop future)).andThen fun semaphore output =>
        .next { state with semaphore } { woken := output.woken }
  | .tryLock mode =>
      .when (decide (mode ∈ lock.tries)) <|
        (state.semaphore.step profile (.tryAcquire mode.permits)).andThen
          (state.finish profile mode)
  | .dropGuard mode =>
      -- the fields of a guard are dropped in order: first the borrow, then the permit
      .when (decide (mode ∈ state.guards)) <|
        let state := { state with
          value := unborrow state.value mode.access, guards := state.guards.erase mode }
        (state.semaphore.step profile (.dropPermit mode.permits)).andThen
          fun semaphore output => .next { state with semaphore } { woken := output.woken }
  | .leakGuard mode =>
      .when (decide (mode ∈ state.guards)) <|
        (state.semaphore.step profile (.leak mode.permits)).andThen fun semaphore output =>
          .next { state with
            semaphore, guards := state.guards.erase mode, leaked := mode :: state.leaked }
            { woken := output.woken }

end State

/-- One lock with all its clients. -/
def system [Wakes W] (profile : Profile) (lock : Lock) :
    System Panic (State S W) (Op W) (Output W) where
  step := State.step profile lock

end Lock

end Platoon.Sync
