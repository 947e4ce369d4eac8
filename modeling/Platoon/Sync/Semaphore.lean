import Platoon.Foundation.Transition
import Platoon.Rust.Prelude
import Mathlib.Logic.Function.Basic
import Mathlib.Data.List.Infix

/-!
# The semaphore

`Inner` and its methods, the future returned by `Semaphore::acquire`, and the
operations on `Permit` values.  Invoked wakers are returned in the order of
the calls to `wake_by_ref`.  The last section assembles them into a system in
which any number of clients call any operation in any order.
-/

namespace Platoon.Sync

open Platoon.Foundation Platoon.Rust

structure Waiter (W : Type) where
  waker : Option W
  next : Option Nat
  prev : Option Nat
  required : Nat
  woke : Bool

inductive AcquireState where
  | idle
  | waiting (key : Nat)
  | done
  deriving DecidableEq, Repr

/-- The semaphore's state; `head` is the youngest waiter, `tail` the oldest. -/
structure Inner (S : Type → Type) (W : Type) where
  permits : Nat
  waiters : S (Waiter W)
  head : Option Nat
  tail : Option Nat

variable {S : Type → Type} [Slab S] {W : Type}

namespace Inner

def add (inner : Inner S W) (waker : W) (required : Nat) :
    Except Panic (Inner S W × Nat) := do
  let key := Slab.vacantKey inner.waiters
  let waiters := Slab.insert inner.waiters
    { waker := some waker, required, woke := false, next := inner.head, prev := none }
  -- `self.head.replace(key)` hands out the previous head
  let waiters ← match inner.head with
    | none => .ok waiters
    | some head => do
        let waiter ← index waiters head
        .ok (Slab.set waiters head { waiter with prev := some key })
  let tail := if inner.tail.isNone then some key else inner.tail
  return ({ inner with waiters, head := some key, tail }, key)

/-- The first `match` of `remove`: the younger neighbour, or `head`, takes over `next`. -/
def linkNext (inner : Inner S W) (prev next : Option Nat) : Except Panic (Inner S W) :=
  match prev with
  | none => .ok { inner with head := next }
  | some prev => do
      let other ← index inner.waiters prev
      .ok { inner with waiters := Slab.set inner.waiters prev { other with next } }

/-- The second `match` of `remove`: the older neighbour, or `tail`, takes over `prev`. -/
def linkPrev (inner : Inner S W) (next prev : Option Nat) : Except Panic (Inner S W) :=
  match next with
  | none => .ok { inner with tail := prev }
  | some next => do
      let other ← index inner.waiters next
      .ok { inner with waiters := Slab.set inner.waiters next { other with prev } }

def remove (inner : Inner S W) (key : Nat) : Except Panic (Inner S W) := do
  let waiter ← index inner.waiters key
  let inner := { inner with waiters := Slab.remove inner.waiters key }
  let inner ← inner.linkNext waiter.prev waiter.next
  inner.linkPrev waiter.next waiter.prev

/-- The `while let` loop of `wake`, cut off after `fuel` rounds. -/
def wakeLoop (profile : Profile) :
    Nat → S (Waiter W) → Nat → Option Nat → Except Panic (S (Waiter W) × List W)
  | _, waiters, _, none => .ok (waiters, [])
  | 0, _, _, some _ => .error .outOfFuel
  | fuel + 1, waiters, permits, some key => do
      let waiter ← index waiters key
      if permits < waiter.required then
        .ok (waiters, [])
      else do
        let permits ← profile.sub permits waiter.required
        if waiter.woke then
          wakeLoop profile fuel waiters permits waiter.prev
        else do
          let waiters := Slab.set waiters key { waiter with woke := true }
          let (waiters, woken) ← wakeLoop profile fuel waiters permits waiter.prev
          .ok (waiters, waiter.waker.toList ++ woken)

/-- `wake`; a round per stored waiter is enough fuel when the list is acyclic. -/
def wake (profile : Profile) (inner : Inner S W) : Except Panic (Inner S W × List W) := do
  let (waiters, woken) ← wakeLoop profile (Slab.len inner.waiters) inner.waiters
    inner.permits inner.tail
  return ({ inner with waiters }, woken)

def tryAcquire (profile : Profile) (inner : Inner S W) (required : Nat) :
    Except Panic (Inner S W × Bool) :=
  if inner.permits ≥ required ∧ (Slab.isEmpty inner.waiters ∨ required = 0) then do
    let permits ← profile.sub inner.permits required
    .ok ({ inner with permits }, true)
  else
    .ok (inner, false)

/-- `poll_acquire`, with the new acquire state and the wakers it invoked. -/
def pollAcquire [Wakes W] (profile : Profile) (inner : Inner S W) (permits : Nat)
    (state : AcquireState) (waker : W) :
    Except Panic (Inner S W × AcquireState × Poll Unit × List W) :=
  match state with
  | .idle => do
      let (inner, acquired) ← inner.tryAcquire profile permits
      if acquired then
        .ok (inner, .idle, .ready (), [])
      else do
        let (inner, key) ← inner.add waker permits
        .ok (inner, .waiting key, .pending, [])
  | .waiting key => do
      let waiter ← index inner.waiters key
      if waiter.woke then
        if inner.permits ≥ waiter.required then do
          let left ← profile.sub inner.permits waiter.required
          let inner ← { inner with permits := left }.remove key
          let (inner, woken) ← inner.wake profile
          .ok (inner, .done, .ready (), woken)
        else
          .error .assertionFailed
      else
        match waiter.waker with
        | some stored =>
            if Wakes.willWake stored waker then
              .ok (inner, .waiting key, .pending, [])
            else
              .ok ({ inner with
                waiters := Slab.set inner.waiters key { waiter with waker := some waker } },
                .waiting key, .pending, [])
        | none =>
            .ok ({ inner with
              waiters := Slab.set inner.waiters key { waiter with waker := some waker } },
              .waiting key, .pending, [])
  | .done => .error .polledAfterCompletion

end Inner

namespace Semaphore

def new (permits : Nat) : Inner S W where
  permits := permits
  head := none
  tail := none
  waiters := Slab.empty

def addPermits (profile : Profile) (inner : Inner S W) (permits : Nat) :
    Except Panic (Inner S W × List W) :=
  if permits = 0 then
    .ok (inner, [])
  else do
    let permits ← profile.add inner.permits permits
    { inner with permits }.wake profile

end Semaphore

/-- The future inside `Semaphore::acquire`. -/
structure Acquire where
  state : AcquireState
  permits : Nat
  deriving DecidableEq, Repr

namespace Acquire

/-- `Acquire::poll`; a ready poll hands out a `Permit` of `permits`. -/
def poll [Wakes W] (profile : Profile) (inner : Inner S W) (acquire : Acquire) (waker : W) :
    Except Panic (Inner S W × Acquire × Poll Nat × List W) := do
  let (inner, state, poll, woken) ←
    inner.pollAcquire profile acquire.permits acquire.state waker
  match poll with
  | .ready () => .ok (inner, { acquire with state }, .ready acquire.permits, woken)
  | .pending => .ok (inner, { acquire with state }, .pending, woken)

/-- `Acquire::drop`. -/
def drop (profile : Profile) (inner : Inner S W) (acquire : Acquire) :
    Except Panic (Inner S W × List W) :=
  match acquire.state with
  | .waiting key => do
      let inner ← inner.remove key
      inner.wake profile
  | _ => .ok (inner, [])

end Acquire

/-- A permit given out; the model of its semaphore is passed separately. -/
structure Permit where
  permits : Nat

namespace Permit

/-- `Permit::drop`. -/
def drop (profile : Profile) (inner : Inner S W) (permit : Permit) :
    Except Panic (Inner S W × List W) :=
  Semaphore.addPermits profile inner permit.permits

/-- `Permit::forget`: zero the permit, which is then dropped. -/
def forget (profile : Profile) (inner : Inner S W) (permit : Permit) :
    Except Panic (Inner S W × List W) :=
  { permit with permits := 0 }.drop profile inner

end Permit

namespace Semaphore

/-- A value of the `async fn acquire`.  It runs its `Acquire` until that is
ready; it cannot be resumed after it returned, and is gone once dropped. -/
inductive AcquireFuture where
  | running (acquire : Acquire)
  | returned
  | dropped
  deriving DecidableEq, Repr

/-- What clients can do with one semaphore.  Futures are named by the caller;
permits are named by their amount, which is all that tells them apart. -/
inductive Op (W : Type) where
  | acquire (future permits : Nat)
  | poll (future : Nat) (waker : W)
  | drop (future : Nat)
  | tryAcquire (permits : Nat)
  | addPermits (permits : Nat)
  | dropPermit (permits : Nat)
  | forget (permits : Nat)
  | leak (permits : Nat)
  deriving DecidableEq, Repr

/-- What a client observes of one operation: the wakers invoked by it, and the
amount of the `Permit` it was handed, if any. -/
structure Output (W : Type) where
  woken : List W := []
  obtained : Option Nat := none
  deriving DecidableEq, Repr

/-- One semaphore, the futures made for it, and the permits given out and not
dropped: still owned (`held`) or leaked with `mem::forget`. -/
structure State (S : Type → Type) (W : Type) where
  inner : Inner S W
  futures : Nat → Option AcquireFuture
  held : List Nat
  leaked : List Nat

namespace State

def new (permits : Nat) : State S W where
  inner := Semaphore.new permits
  futures := fun _ => none
  held := []
  leaked := []

def setFuture (state : State S W) (future : Nat) (value : AcquireFuture) : State S W :=
  { state with futures := Function.update state.futures future (some value) }

section SetFuture

omit [Slab S]

variable (state : State S W) (future : Nat) (value : AcquireFuture)

@[simp]
theorem setFuture_same : (state.setFuture future value).futures future = some value := by
  simp [setFuture]

theorem setFuture_ne {other : Nat} (hne : other ≠ future) :
    (state.setFuture future value).futures other = state.futures other := by
  simp [setFuture, hne]

theorem setFuture_eq_self (hvalue : state.futures future = some value) :
    state.setFuture future value = state := by
  rw [setFuture, ← hvalue, Function.update_eq_self]

end SetFuture

/-- Resume a future that has not returned. -/
def poll [Wakes W] (profile : Profile) (state : State S W) (future : Nat)
    (acquire : Acquire) (waker : W) : Except Panic (State S W × Output W) := do
  let (inner, acquire, poll, woken) ← acquire.poll profile state.inner waker
  let state := { state with inner }
  match poll with
  | .ready permits =>
      .ok ({ state.setFuture future .returned with held := permits :: state.held },
        { woken, obtained := some permits })
  | .pending => .ok (state.setFuture future (.running acquire), { woken })

def step [Wakes W] (profile : Profile) (state : State S W) :
    Op W → Outcome Panic (State S W) (Output W)
  | .acquire future permits =>
      .when ((state.futures future).isNone && decide (permits ≤ profile.usizeMax))
        (.next (state.setFuture future (.running { state := .idle, permits })) {})
  | .poll future waker =>
      match state.futures future with
      | some (.running acquire) => .ofExcept (state.poll profile future acquire waker)
      | some .returned => .panic .resumedAfterCompletion
      | _ => .disabled
  | .drop future =>
      match state.futures future with
      | some (.running acquire) => .ofExcept do
          let (inner, woken) ← acquire.drop profile state.inner
          .ok ({ state with inner }.setFuture future .dropped, { woken })
      | some .returned => .next (state.setFuture future .dropped) {}
      | _ => .disabled
  | .tryAcquire permits =>
      .when (decide (permits ≤ profile.usizeMax)) <| .ofExcept do
        let (inner, acquired) ← state.inner.tryAcquire profile permits
        if acquired then
          .ok ({ state with inner, held := permits :: state.held },
            { obtained := some permits })
        else
          .ok ({ state with inner }, {})
  | .addPermits permits =>
      .when (decide (permits ≤ profile.usizeMax)) <| .ofExcept do
        let (inner, woken) ← addPermits profile state.inner permits
        .ok ({ state with inner }, { woken })
  | .dropPermit permits =>
      .when (decide (permits ∈ state.held)) <| .ofExcept do
        let (inner, woken) ← Permit.drop profile state.inner ⟨permits⟩
        .ok ({ state with inner, held := state.held.erase permits }, { woken })
  | .forget permits =>
      .when (decide (permits ∈ state.held)) <| .ofExcept do
        let (inner, woken) ← Permit.forget profile state.inner ⟨permits⟩
        .ok ({ state with inner, held := state.held.erase permits }, { woken })
  | .leak permits =>
      .when (decide (permits ∈ state.held))
        (.next { state with
          held := state.held.erase permits, leaked := permits :: state.leaked } {})

end State

/-- One semaphore with all its clients. -/
def system [Wakes W] (profile : Profile) : System Panic (State S W) (Op W) (Output W) where
  step := State.step profile

/-! ## What a poll hands out -/

section Amounts

variable [Wakes W] {profile : Profile}

/-- A future keeps its amount, which is what a ready poll hands out. -/
theorem poll_permits {inner inner' : Inner S W} {acquire acquire' : Acquire} {waker : W}
    {poll : Poll Nat} {woken : List W}
    (hpoll : acquire.poll profile inner waker = .ok (inner', acquire', poll, woken)) :
    acquire'.permits = acquire.permits ∧ ∀ permits, poll = .ready permits →
      permits = acquire.permits := by
  unfold Acquire.poll at hpoll
  cases hresult : inner.pollAcquire profile acquire.permits acquire.state waker with
  | error reason => simp [hresult] at hpoll
  | ok result =>
      obtain ⟨inner₁, state, poll₁, woken₁⟩ := result
      rw [hresult, ok_bind] at hpoll
      cases poll₁ <;> cases hpoll <;> simp

variable {state last : State S W} {op : Op W} {output : Output W}

/-- A resumed future keeps its amount and obtains no other. -/
theorem poll_keeps_amount {future : Nat} {acquire : Acquire} {waker : W}
    (hpoll : state.poll profile future acquire waker = .ok (last, output)) :
    (∃ value, last.futures = Function.update state.futures future (some value) ∧
        ∀ running, value = .running running → running.permits = acquire.permits) ∧
      ∀ permits, output.obtained = some permits → permits = acquire.permits := by
  unfold State.poll at hpoll
  cases hresult : acquire.poll profile state.inner waker with
  | error reason => simp [hresult] at hpoll
  | ok result =>
      obtain ⟨inner, acquire', poll, woken⟩ := result
      obtain ⟨hkeeps, hready⟩ := poll_permits hresult
      rw [hresult, ok_bind] at hpoll
      cases poll with
      | ready permits =>
          cases hpoll
          exact ⟨⟨_, rfl, by simp⟩, by simpa using hready⟩
      | pending =>
          cases hpoll
          exact ⟨⟨_, rfl, by simpa using hkeeps⟩, by simp⟩

/-- What a step does to the futures, and what it may hand out. -/
theorem step_amounts (hstep : state.step profile op = .next last output) :
    (∀ future acquire, last.futures future = some (.running acquire) →
        op = .acquire future acquire.permits ∨
          ∃ before, state.futures future = some (.running before) ∧
            before.permits = acquire.permits) ∧
      ∀ permits, output.obtained = some permits → op = .tryAcquire permits ∨
        ∃ future waker acquire, op = .poll future waker ∧
          state.futures future = some (.running acquire) ∧ acquire.permits = permits := by
  have hsame : state.futures = last.futures → ∀ future acquire,
      last.futures future = some (.running acquire) → ∃ before,
        state.futures future = some (.running before) ∧ before.permits = acquire.permits :=
    fun heq future acquire hrunning => ⟨acquire, heq ▸ hrunning, rfl⟩
  have hchanged : ∀ changed value,
      last.futures = Function.update state.futures changed (some value) →
      ∀ future acquire, last.futures future = some (.running acquire) →
        (future = changed ∧ value = .running acquire) ∨
          ∃ before, state.futures future = some (.running before) ∧
            before.permits = acquire.permits := by
    intro changed value hfutures future acquire hrunning
    rw [hfutures] at hrunning
    by_cases heq : future = changed
    · subst heq
      exact .inl ⟨rfl, by simpa using hrunning⟩
    · rw [Function.update_of_ne heq] at hrunning
      exact .inr ⟨acquire, hrunning, rfl⟩
  cases op with
  | acquire future permits =>
      simp only [State.step, Outcome.when_eq_next, Outcome.next.injEq] at hstep
      obtain ⟨-, rfl, rfl⟩ := hstep
      refine ⟨fun other acquire hrunning => ?_, by simp⟩
      rcases hchanged _ _ rfl other acquire hrunning with ⟨rfl, hvalue⟩ | hbefore
      · cases hvalue
        exact .inl rfl
      · exact .inr hbefore
  | poll future waker =>
      simp only [State.step] at hstep
      split at hstep
      · rename_i acquire hfuture
        rw [Outcome.ofExcept_eq_next] at hstep
        obtain ⟨⟨value, hfutures, hkeeps⟩, hobtained⟩ := poll_keeps_amount hstep
        refine ⟨fun other running hrunning => .inr ?_, fun permits hpermits =>
          .inr ⟨future, waker, acquire, rfl, hfuture, (hobtained permits hpermits).symm⟩⟩
        rcases hchanged _ _ hfutures other running hrunning with ⟨rfl, hvalue⟩ | hbefore
        · exact ⟨acquire, hfuture, (hkeeps running hvalue).symm⟩
        · exact hbefore
      · cases hstep
      · cases hstep
  | drop future =>
      simp only [State.step] at hstep
      split at hstep
      · rw [Outcome.ofExcept_eq_next] at hstep
        obtain ⟨pair, -, hpair⟩ := ok_of_bind hstep
        cases hpair
        refine ⟨fun other acquire hrunning => ?_, by simp⟩
        rcases hchanged _ _ rfl other acquire hrunning with ⟨-, hvalue⟩ | hbefore
        · cases hvalue
        · exact .inr hbefore
      · cases hstep
        refine ⟨fun other acquire hrunning => ?_, by simp⟩
        rcases hchanged _ _ rfl other acquire hrunning with ⟨-, hvalue⟩ | hbefore
        · cases hvalue
        · exact .inr hbefore
      · cases hstep
  | tryAcquire permits =>
      simp only [State.step, Outcome.when_eq_next, Outcome.ofExcept_eq_next] at hstep
      cases hresult : state.inner.tryAcquire profile permits with
      | error reason => simp [hresult] at hstep
      | ok result =>
          obtain ⟨inner, acquired⟩ := result
          rw [hresult, ok_bind] at hstep
          cases acquired with
          | false =>
              cases hstep.2
              exact ⟨fun other acquire hrunning => .inr (hsame rfl other acquire hrunning),
                by simp⟩
          | true =>
              cases hstep.2
              exact ⟨fun other acquire hrunning => .inr (hsame rfl other acquire hrunning),
                by simp⟩
  | addPermits permits =>
      simp only [State.step, Outcome.when_eq_next, Outcome.ofExcept_eq_next] at hstep
      obtain ⟨pair, -, hpair⟩ := ok_of_bind hstep.2
      cases hpair
      exact ⟨fun other acquire hrunning => .inr (hsame rfl other acquire hrunning),
        by simp⟩
  | dropPermit permits =>
      simp only [State.step, Outcome.when_eq_next, Outcome.ofExcept_eq_next] at hstep
      obtain ⟨pair, -, hpair⟩ := ok_of_bind hstep.2
      cases hpair
      exact ⟨fun other acquire hrunning => .inr (hsame rfl other acquire hrunning),
        by simp⟩
  | forget permits =>
      simp only [State.step, Outcome.when_eq_next, Outcome.ofExcept_eq_next] at hstep
      obtain ⟨pair, -, hpair⟩ := ok_of_bind hstep.2
      cases hpair
      exact ⟨fun other acquire hrunning => .inr (hsame rfl other acquire hrunning),
        by simp⟩
  | leak permits =>
      simp only [State.step, Outcome.when_eq_next, Outcome.next.injEq] at hstep
      obtain ⟨-, rfl, rfl⟩ := hstep
      exact ⟨fun other acquire hrunning => .inr (hsame rfl other acquire hrunning), by simp⟩

end Amounts

/-! ## Reading a trace -/

/-- What an operation adds to the counter beyond returned permits. -/
def Op.added : Op W → Nat
  | .addPermits permits => permits
  | _ => 0

/-- The permits that an operation puts on the counter, returned ones included. -/
def Op.puts : Op W → Option Nat
  | .addPermits permits => some permits
  | .dropPermit permits => some permits
  | _ => none

/-- The permits that the operation puts on the counter find room there. -/
def Op.fits (profile : Profile) (available : Nat) (op : Op W) : Bool :=
  op.puts.all fun permits => decide (available + permits ≤ profile.usizeMax)

/-- What an operation takes out of circulation. -/
def Op.forgotten : Op W → Nat
  | .forget permits => permits
  | _ => 0

def added (trace : List (Op W × Output W)) : Nat := (trace.map (·.1.added)).sum

def forgotten (trace : List (Op W × Output W)) : Nat := (trace.map (·.1.forgotten)).sum

/-- The permit values that stay with their owners. -/
def Op.keeps (held : List Nat) : Op W → List Nat
  | .dropPermit permits => held.erase permits
  | .forget permits => held.erase permits
  | .leak permits => held.erase permits
  | _ => held

def Op.leaks : Op W → List Nat
  | .leak permits => [permits]
  | _ => []

/-- The waker an operation polls `future` with. -/
def Op.polls (future : Nat) : Op W → Option W
  | .poll polled waker => if polled = future then some waker else none
  | _ => none

/-- The waker of the most recent poll of `future`. -/
def lastPoll (future : Nat) (trace : List (Op W × Output W)) : Option W :=
  (trace.filterMap (·.1.polls future)).getLast?

/-- The future that an event left pending. -/
def leftPending : Op W × Output W → Option Nat
  | (.poll future _, output) => if output.obtained.isNone then some future else none
  | _ => none

def arrive (seen : List Nat) (future : Nat) : List Nat :=
  if future ∈ seen then seen else seen ++ [future]

/-- The futures in the order in which they were first left pending. -/
def arrivals (trace : List (Op W × Output W)) : List Nat :=
  (trace.filterMap leftPending).foldl arrive []

/-- The operations that run the wake pass: giving permits back, and a waiting
future that completes or is dropped. -/
def Op.Releases (waits : Nat → Prop) : Op W → Output W → Prop
  | .addPermits permits, _ => permits ≠ 0
  | .dropPermit permits, _ => permits ≠ 0
  | .drop future, _ => waits future
  | .poll future _, output => waits future ∧ output.obtained.isSome
  | _, _ => False

section Trace

variable (trace : List (Op W × Output W)) (op : Op W) (output : Output W)

@[simp] theorem added_nil : added ([] : List (Op W × Output W)) = 0 := rfl
@[simp] theorem forgotten_nil : forgotten ([] : List (Op W × Output W)) = 0 := rfl
@[simp] theorem arrivals_nil : arrivals ([] : List (Op W × Output W)) = [] := rfl

@[simp]
theorem added_snoc : added (trace ++ [(op, output)]) = added trace + op.added := by
  simp [added]

@[simp]
theorem forgotten_snoc :
    forgotten (trace ++ [(op, output)]) = forgotten trace + op.forgotten := by
  simp [forgotten]

theorem lastPoll_snoc (future : Nat) :
    lastPoll future (trace ++ [(op, output)]) =
      (op.polls future).or (lastPoll future trace) := by
  cases hpolls : op.polls future <;> simp [lastPoll, hpolls]

theorem arrivals_snoc :
    arrivals (trace ++ [(op, output)]) =
      match leftPending (op, output) with
      | none => arrivals trace
      | some future => arrive (arrivals trace) future := by
  cases hpending : leftPending (op, output) <;> simp [arrivals, hpending]

/-- Later events only append to the arrivals. -/
theorem arrivals_append (more : List (Op W × Output W)) :
    arrivals trace <+: arrivals (trace ++ more) := by
  induction more using List.reverseRecOn with
  | nil => simp
  | append_singleton more event ih =>
      obtain ⟨op, output⟩ := event
      rw [← List.append_assoc, arrivals_snoc]
      cases leftPending (op, output) with
      | none => exact ih
      | some future =>
          refine ih.trans ?_
          simp only [arrive]
          split
          · exact List.prefix_refl _
          · exact List.prefix_append _ _

theorem mem_arrivals {future : Nat} :
    future ∈ arrivals trace ↔ ∃ event ∈ trace, leftPending event = some future := by
  induction trace using List.reverseRecOn with
  | nil => simp
  | append_singleton trace event ih =>
      obtain ⟨op, output⟩ := event
      rw [arrivals_snoc]
      simp only [List.mem_append, List.mem_singleton, or_and_right, exists_or,
        exists_eq_left, ← ih]
      cases leftPending (op, output) with
      | none => simp
      | some other =>
          simp only [arrive, Option.some.injEq]
          split
          · rename_i hmem
            exact ⟨.inl, fun h => h.elim id fun heq => heq ▸ hmem⟩
          · simp [eq_comm]

end Trace

end Semaphore

end Platoon.Sync
