import Platoon.Sync.WaiterLine
import Mathlib.Logic.Function.Basic

/-!
# The semaphore as a first-in first-out line

The abstract semaphore keeps a counter and a plain list of the futures that
wait, oldest first: no keys, no links.  The code's semaphore refines it, step
by step and with the same outputs.
-/

namespace Platoon.Sync.Fifo

open Platoon.Foundation Platoon.Rust Platoon.Sync.Semaphore

/-- What the abstract semaphore knows of a future. -/
inductive Request where
  | idle (permits : Nat)
  | waiting
  | returned
  | dropped
  deriving DecidableEq, Repr

/-- The available permits and the waiting futures, oldest first. -/
structure State (W : Type) where
  permits : Nat
  queue : List (Entry Nat W)
  futures : Nat → Option Request
  held : List Nat
  leaked : List Nat

variable {W : Type}

namespace State

def new (permits : Nat) : State W where
  permits := permits
  queue := []
  futures := fun _ => none
  held := []
  leaked := []

def setFuture (state : State W) (future : Nat) (value : Request) : State W :=
  { state with futures := Function.update state.futures future (some value) }

section SetFuture

variable (state : State W) (future : Nat) (value : Request)

@[simp] theorem setFuture_permits : (state.setFuture future value).permits = state.permits := rfl
@[simp] theorem setFuture_queue : (state.setFuture future value).queue = state.queue := rfl
@[simp] theorem setFuture_held : (state.setFuture future value).held = state.held := rfl
@[simp] theorem setFuture_leaked : (state.setFuture future value).leaked = state.leaked := rfl

@[simp]
theorem setFuture_same : (state.setFuture future value).futures future = some value := by
  simp [setFuture]

theorem setFuture_ne {other : Nat} (hne : other ≠ future) :
    (state.setFuture future value).futures other = state.futures other := by
  simp [setFuture, hne]

end SetFuture

/-- Mark the longest prefix of the queue that fits. -/
def serve (state : State W) : State W :=
  { state with queue := Line.serve state.permits state.queue }

/-- The wakers that `serve` invokes. -/
def woken (state : State W) : List W := Line.woken state.permits state.queue

def enqueue (state : State W) (future : Nat) (waker : W) (permits : Nat) : State W :=
  { state with queue := state.queue ++ [⟨future, some waker, permits, false⟩] }

def leave (state : State W) (future : Nat) : State W :=
  { state with queue := Line.remove future state.queue }

/-- Permits can be taken at once past an empty line, or when none are asked for. -/
def canTake (state : State W) (permits : Nat) : Bool :=
  decide (permits ≤ state.permits) && (state.queue.isEmpty || decide (permits = 0))

def take (state : State W) (permits : Nat) : State W :=
  { state with permits := state.permits - permits, held := permits :: state.held }

def release (profile : Profile) (state : State W) (permits : Nat) :
    Except Panic (State W × Output W) :=
  if permits = 0 then .ok (state, {})
  else do
    let permits ← profile.add state.permits permits
    let state := { state with permits }
    .ok (state.serve, { woken := state.woken })

def poll [Wakes W] (state : State W) (future : Nat) (waker : W) :
    Outcome Panic (State W) (Output W) :=
  match state.futures future with
  | some (.idle permits) =>
      if state.canTake permits then
        .next ((state.take permits).setFuture future .returned) { obtained := some permits }
      else
        .next ((state.enqueue future waker permits).setFuture future .waiting) {}
  | some .waiting =>
      match Line.find? future state.queue with
      | none => .disabled
      | some entry =>
          if entry.woke then
            if entry.required ≤ state.permits then
              let state := (state.take entry.required).leave future
              .next (state.serve.setFuture future .returned)
                { woken := state.woken, obtained := some entry.required }
            else .panic .assertionFailed
          else .next { state with queue := Line.refresh future waker state.queue } {}
  | some .returned => .panic .resumedAfterCompletion
  | _ => .disabled

def drop (state : State W) (future : Nat) : Outcome Panic (State W) (Output W) :=
  match state.futures future with
  | some .waiting =>
      let state := state.leave future
      .next (state.serve.setFuture future .dropped) { woken := state.woken }
  | some .dropped | none => .disabled
  | _ => .next (state.setFuture future .dropped) {}

def step [Wakes W] (profile : Profile) (state : State W) :
    Op W → Outcome Panic (State W) (Output W)
  | .acquire future permits =>
      .when ((state.futures future).isNone && decide (permits ≤ profile.usizeMax))
        (.next (state.setFuture future (.idle permits)) {})
  | .poll future waker => state.poll future waker
  | .drop future => state.drop future
  | .tryAcquire permits =>
      .when (decide (permits ≤ profile.usizeMax)) <|
        if state.canTake permits then
          .next (state.take permits) { obtained := some permits }
        else .next state {}
  | .addPermits permits =>
      .when (decide (permits ≤ profile.usizeMax)) (.ofExcept (state.release profile permits))
  | .dropPermit permits =>
      .when (decide (permits ∈ state.held)) <|
        .ofExcept ({ state with held := state.held.erase permits }.release profile permits)
  | .forget permits =>
      .when (decide (permits ∈ state.held))
        (.next { state with held := state.held.erase permits } {})
  | .leak permits =>
      .when (decide (permits ∈ state.held))
        (.next { state with
          held := state.held.erase permits, leaked := permits :: state.leaked } {})

end State

def system [Wakes W] (profile : Profile) : System Panic (State W) (Op W) (Output W) where
  step := State.step profile

/-! ## Refinement -/

variable {S : Type → Type} [Slab S]

/-- A future of the code without its slab key. -/
def Request.of : AcquireFuture → Request
  | .running { state := .idle, permits } => .idle permits
  | .running { state := .waiting _, permits := _ } => .waiting
  | .running { state := .done, permits := _ } => .returned
  | .returned => .returned
  | .dropped => .dropped

/-- The code's state `state` represents the abstract `spec`: the slab holds
`cells`, and `owner` names the future that waits under each of their keys. -/
structure Via (cells : List (Entry Nat W)) (owner : Nat → Nat)
    (state : Semaphore.State S W) (spec : State W) : Prop where
  holds : state.inner.Holds cells
  permits : spec.permits = state.inner.permits
  queue : spec.queue = cells.map (Entry.rename owner)
  held : spec.held = state.held
  leaked : spec.leaked = state.leaked
  futures : ∀ future, spec.futures future = (state.futures future).map Request.of
  owned : ∀ cell ∈ cells, state.futures (owner cell.id) =
    some (.running { state := .waiting cell.id, permits := cell.required })
  running : ∀ future acquire, state.futures future = some (.running acquire) →
    acquire.state = .idle ∨
      ∃ cell ∈ cells, owner cell.id = future ∧ acquire.state = .waiting cell.id

/-- The code's state represents the abstract one. -/
def Represents (state : Semaphore.State S W) (spec : State W) : Prop :=
  ∃ cells owner, Via cells owner state spec

namespace Via

variable {cells front back : List (Entry Nat W)} {owner : Nat → Nat} {cell : Entry Nat W}
variable {state : Semaphore.State S W} {spec : State W}

theorem new (permits : Nat) :
    Via [] id (Semaphore.State.new permits : Semaphore.State S W) (State.new permits) where
  holds := Inner.new_holds permits
  permits := rfl
  queue := rfl
  held := rfl
  leaked := rfl
  futures _ := rfl
  owned := by simp
  running := by simp [Semaphore.State.new]

/-- Different keys belong to different futures. -/
theorem owner_injective (hvia : Via cells owner state spec) {left right : Entry Nat W}
    (hleft : left ∈ cells) (hright : right ∈ cells) (heq : owner left.id = owner right.id) :
    left.id = right.id := by
  have howned := hvia.owned left hleft
  rw [heq, hvia.owned right hright] at howned
  simp only [Option.some.injEq, AcquireFuture.running.injEq, Acquire.mk.injEq,
    AcquireState.waiting.injEq] at howned
  exact howned.1.symm

/-- A future waits in the queue at most once. -/
theorem queue_nodup (hvia : Via cells owner state spec) :
    (spec.queue.map Entry.id).Nodup := by
  have hids : spec.queue.map Entry.id = (cells.map Entry.id).map owner := by
    simp [hvia.queue, Function.comp_def]
  rw [hids]
  refine hvia.holds.nodup.map_on ?_
  intro left hleft right hright heq
  obtain ⟨first, hfirst, rfl⟩ := List.mem_map.mp hleft
  obtain ⟨second, hsecond, rfl⟩ := List.mem_map.mp hright
  exact hvia.owner_injective hfirst hsecond heq

/-- Permit values move between their owners on both sides alike. -/
theorem setHeld (hvia : Via cells owner state spec) (held : List Nat) :
    Via cells owner { state with held } { spec with held } :=
  { hvia with held := rfl }

theorem setLeaked (hvia : Via cells owner state spec) (leaked : List Nat) :
    Via cells owner { state with leaked } { spec with leaked } :=
  { hvia with leaked := rfl }

/-- The counter changes on both sides alike. -/
theorem setPermits (hvia : Via cells owner state spec) (permits : Nat) :
    Via cells owner { state with inner := { state.inner with permits } }
      { spec with permits } :=
  { hvia with holds := hvia.holds.withPermits permits, permits := rfl }

theorem take (hvia : Via cells owner state spec) (permits : Nat) :
    Via cells owner
      { state with
        inner := { state.inner with permits := state.inner.permits - permits }
        held := permits :: state.held }
      (spec.take permits) :=
  { hvia with
    holds := hvia.holds.withPermits _
    permits := by rw [State.take, hvia.permits]
    held := by rw [State.take, hvia.held] }

/-- A future that does not wait changes into another that does not wait. -/
theorem setFuture (hvia : Via cells owner state spec) {future : Nat} {value : AcquireFuture}
    (hbefore : ∀ key permits,
      state.futures future ≠ some (.running { state := .waiting key, permits }))
    (hafter : ∀ acquire, value = .running acquire → acquire.state = .idle) :
    Via cells owner (state.setFuture future value)
      (spec.setFuture future (Request.of value)) := by
  have hother : ∀ cell ∈ cells, owner cell.id ≠ future := by
    intro cell hcell heq
    exact hbefore _ _ (heq ▸ hvia.owned cell hcell)
  refine { hvia with futures := ?_, owned := ?_, running := ?_ }
  · intro other
    by_cases heq : other = future
    · subst heq
      simp
    · rw [State.setFuture_ne _ _ _ heq, Semaphore.State.setFuture_ne _ _ _ heq, hvia.futures]
  · intro cell hcell
    rw [Semaphore.State.setFuture_ne _ _ _ (hother cell hcell)]
    exact hvia.owned cell hcell
  · intro other acquire hrunning
    by_cases heq : other = future
    · subst heq
      rw [Semaphore.State.setFuture_same, Option.some.injEq] at hrunning
      exact .inl (hafter acquire hrunning)
    · rw [Semaphore.State.setFuture_ne _ _ _ heq] at hrunning
      exact hvia.running other acquire hrunning

/-- A future starts to wait under a vacant key. -/
theorem enqueue (hvia : Via cells owner state spec) {inner' : Inner S W} {future key : Nat}
    {waker : W} {permits : Nat}
    (hbefore : ∀ key permits,
      state.futures future ≠ some (.running { state := .waiting key, permits }))
    (hpermits : inner'.permits = state.inner.permits) (hfresh : key ∉ cells.map Entry.id)
    (hholds : inner'.Holds (cells ++ [⟨key, some waker, permits, false⟩])) :
    Via (cells ++ [⟨key, some waker, permits, false⟩]) (Function.update owner key future)
      ({ state with inner := inner' }.setFuture future
        (.running { state := .waiting key, permits }))
      ((spec.enqueue future waker permits).setFuture future .waiting) := by
  have hkey : ∀ cell ∈ cells, cell.id ≠ key := by
    intro cell hcell heq
    exact hfresh (heq ▸ List.mem_map_of_mem hcell)
  have hother : ∀ cell ∈ cells, owner cell.id ≠ future := by
    intro cell hcell heq
    exact hbefore _ _ (heq ▸ hvia.owned cell hcell)
  refine
    { holds := hholds
      permits := hvia.permits.trans hpermits.symm
      queue := ?_
      held := hvia.held
      leaked := hvia.leaked
      futures := ?_
      owned := ?_
      running := ?_ }
  · have hsame : cells.map (Entry.rename (Function.update owner key future)) =
        cells.map (Entry.rename owner) := by
      apply List.map_congr_left
      intro cell hcell
      simp [Entry.rename, hkey cell hcell]
    simp [State.enqueue, hvia.queue, hsame, Entry.rename]
  · intro other
    by_cases heq : other = future
    · subst heq
      simp [Request.of]
    · rw [State.setFuture_ne _ _ _ heq, Semaphore.State.setFuture_ne _ _ _ heq]
      exact hvia.futures other
  · intro cell hcell
    rcases List.mem_append.mp hcell with hold | hnew
    · rw [Function.update_of_ne (hkey cell hold),
        Semaphore.State.setFuture_ne _ _ _ (hother cell hold)]
      exact hvia.owned cell hold
    · rw [List.mem_singleton.mp hnew]
      simp
  · intro other acquire hrunning
    by_cases heq : other = future
    · subst heq
      rw [Semaphore.State.setFuture_same, Option.some.injEq,
        AcquireFuture.running.injEq] at hrunning
      subst hrunning
      exact .inr ⟨_, List.mem_append_right _ (List.mem_singleton_self _), by simp, rfl⟩
    · rw [Semaphore.State.setFuture_ne _ _ _ heq] at hrunning
      rcases hvia.running other acquire hrunning with hidle | ⟨cell, hcell, howner, hwaits⟩
      · exact .inl hidle
      · refine .inr ⟨cell, List.mem_append_left _ hcell, ?_, hwaits⟩
        rw [Function.update_of_ne (hkey cell hcell), howner]

/-- A waiting future leaves the line from any position. -/
theorem depart (hvia : Via (front ++ cell :: back) owner state spec) {inner' : Inner S W}
    (hpermits : inner'.permits = state.inner.permits) (hholds : inner'.Holds (front ++ back))
    {value : AcquireFuture} (hvalue : ∀ acquire, value ≠ .running acquire) :
    Via (front ++ back) owner ({ state with inner := inner' }.setFuture (owner cell.id) value)
      ((spec.leave (owner cell.id)).setFuture (owner cell.id) (Request.of value)) := by
  have hother : ∀ other ∈ front ++ back, owner other.id ≠ owner cell.id := by
    intro other hmem heq
    exact id_ne_of_mem hvia.holds.nodup hmem
      (hvia.owner_injective (mem_middle.mpr (.inr hmem)) (by simp) heq)
  refine
    { holds := hholds
      permits := hvia.permits.trans hpermits.symm
      queue := ?_
      held := hvia.held
      leaked := hvia.leaked
      futures := ?_
      owned := ?_
      running := ?_ }
  · have hnodup := hvia.queue_nodup
    rw [hvia.queue, List.map_append, List.map_cons] at hnodup
    rw [State.setFuture_queue, State.leave, hvia.queue, List.map_append, List.map_append,
      List.map_cons]
    exact Line.remove_middle hnodup
  · intro other
    by_cases heq : other = owner cell.id
    · subst heq
      simp
    · rw [State.setFuture_ne _ _ _ heq, Semaphore.State.setFuture_ne _ _ _ heq]
      exact hvia.futures other
  · intro other hmem
    rw [Semaphore.State.setFuture_ne _ _ _ (hother other hmem)]
    exact hvia.owned other (mem_middle.mpr (.inr hmem))
  · intro other acquire hrunning
    by_cases heq : other = owner cell.id
    · subst heq
      rw [Semaphore.State.setFuture_same, Option.some.injEq] at hrunning
      exact absurd hrunning (hvalue acquire)
    · rw [Semaphore.State.setFuture_ne _ _ _ heq] at hrunning
      rcases hvia.running other acquire hrunning with hidle | ⟨found, hfound, howner, hwaits⟩
      · exact .inl hidle
      · rcases mem_middle.mp hfound with rfl | hmem
        · exact absurd howner.symm heq
        · exact .inr ⟨found, hmem, howner, hwaits⟩

/-- Changing what the cells say about wakers and marks, not who waits. -/
theorem rewrite (hvia : Via cells owner state spec) {inner' : Inner S W}
    {cells' : List (Entry Nat W)} (hpermits : inner'.permits = state.inner.permits)
    (hholds : inner'.Holds cells')
    (hcells : ∀ cell ∈ cells', ∃ old ∈ cells, cell.id = old.id ∧ cell.required = old.required)
    (hids : cells'.map Entry.id = cells.map Entry.id) :
    Via cells' owner { state with inner := inner' }
      { spec with queue := cells'.map (Entry.rename owner) } := by
  refine
    { hvia with
      holds := hholds
      permits := hvia.permits.trans hpermits.symm
      queue := rfl
      owned := ?_
      running := ?_ }
  · intro cell hcell
    obtain ⟨old, hold, hid, hrequired⟩ := hcells cell hcell
    rw [hid, hrequired]
    exact hvia.owned old hold
  · intro future acquire hrunning
    rcases hvia.running future acquire hrunning with hidle | ⟨old, hold, howner, hwaits⟩
    · exact .inl hidle
    · have hmem : old.id ∈ cells'.map Entry.id := hids ▸ List.mem_map_of_mem hold
      obtain ⟨cell, hcell, hid⟩ := List.mem_map.mp hmem
      exact .inr ⟨cell, hcell, by rw [hid, howner], by rw [hid, hwaits]⟩

/-- The code's `wake` is the abstract `serve`. -/
theorem serve (hvia : Via cells owner state spec) (profile : Profile) :
    ∃ inner', state.inner.wake profile = .ok (inner', spec.woken) ∧
      Via (Line.serve state.inner.permits cells) owner { state with inner := inner' }
        spec.serve := by
  obtain ⟨inner', hwake, hpermits, hholds⟩ := hvia.holds.wake profile
  refine ⟨inner', ?_, ?_⟩
  · rw [hwake, State.woken, hvia.queue, hvia.permits, Line.woken_rename]
  · have hqueue : spec.serve =
        { spec with queue := (Line.serve state.inner.permits cells).map (Entry.rename owner) } := by
      rw [State.serve, hvia.queue, hvia.permits, Line.serve_rename]
    rw [hqueue]
    refine hvia.rewrite hpermits hholds ?_ (by simp)
    intro cell hcell
    obtain ⟨old, hold, rfl | rfl⟩ := Line.mem_serve hcell
    · exact ⟨cell, hold, rfl, rfl⟩
    · exact ⟨old, hold, rfl, rfl⟩

/-- A waiting future leaves the line, and the rest is served. -/
theorem departServe (hvia : Via (front ++ cell :: back) owner state spec) {inner' : Inner S W}
    (hpermits : inner'.permits = state.inner.permits)
    (hholds : inner'.Holds (Line.serve state.inner.permits (front ++ back)))
    {value : AcquireFuture} (hvalue : ∀ acquire, value ≠ .running acquire) :
    Via (Line.serve state.inner.permits (front ++ back)) owner
        ({ state with inner := inner' }.setFuture (owner cell.id) value)
        ((spec.leave (owner cell.id)).serve.setFuture (owner cell.id) (Request.of value)) ∧
      (spec.leave (owner cell.id)).woken =
        Line.woken state.inner.permits (front ++ back) := by
  obtain ⟨removed, -, hpermits₁, hholds₁⟩ := hvia.holds.remove
  have hdepart := hvia.depart hpermits₁ hholds₁ hvalue
  have hqueue : Line.remove (owner cell.id) spec.queue =
      (front ++ back).map (Entry.rename owner) := hdepart.queue
  constructor
  · have hrewrite := hdepart.rewrite (hpermits.trans hpermits₁.symm) hholds
      (fun served hserved => by
        obtain ⟨old, hold, rfl | rfl⟩ := Line.mem_serve hserved
        · exact ⟨served, hold, rfl, rfl⟩
        · exact ⟨old, hold, rfl, rfl⟩) (by simp)
    have hserve : (spec.leave (owner cell.id)).serve.setFuture (owner cell.id)
          (Request.of value) =
        { (spec.leave (owner cell.id)).setFuture (owner cell.id) (Request.of value) with
          queue := (Line.serve state.inner.permits (front ++ back)).map
            (Entry.rename owner) } := by
      simp only [State.serve, State.leave, hqueue, hvia.permits, Line.serve_rename]
      rfl
    rw [hserve]
    exact hrewrite
  · simp only [State.woken, State.leave, hqueue, hvia.permits, Line.woken_rename]

/-- The entry of a waiting future, found by its name. -/
theorem find? (hvia : Via (front ++ cell :: back) owner state spec) :
    Line.find? (owner cell.id) spec.queue = some (cell.rename owner) := by
  have hnodup := hvia.queue_nodup
  rw [hvia.queue, List.map_append, List.map_cons] at hnodup ⊢
  exact Line.find?_middle hnodup

/-- Taking permits is possible on both sides alike. -/
theorem canTake_iff (hvia : Via cells owner state spec) (permits : Nat) :
    spec.canTake permits = true ↔
      permits ≤ state.inner.permits ∧ (cells = [] ∨ permits = 0) := by
  simp [State.canTake, hvia.permits, hvia.queue]

end Via

variable [Wakes W] {profile : Profile} {cells : List (Entry Nat W)} {owner : Nat → Nat}
variable {state : Semaphore.State S W} {spec : State W}

/-- The first poll of a future. -/
theorem poll_idle_refines (hvia : Via cells owner state spec) {future permits : Nat}
    (hfuture : state.futures future = some (.running { state := .idle, permits }))
    (waker : W) :
    Outcome.Related Represents
      (.ofExcept (state.poll profile future { state := .idle, permits } waker))
      (spec.poll future waker) := by
  have hspec : spec.futures future = some (.idle permits) := by
    rw [hvia.futures, hfuture]
    rfl
  have hbefore : ∀ key permits,
      state.futures future ≠ some (.running { state := .waiting key, permits }) := by
    simp [hfuture]
  simp only [Semaphore.State.poll, Acquire.poll, State.poll, hspec]
  by_cases htake : permits ≤ state.inner.permits ∧ (cells = [] ∨ permits = 0)
  · rw [hvia.holds.pollAcquire_take profile waker htake,
      if_pos ((hvia.canTake_iff permits).mpr htake)]
    exact .next ⟨cells, owner, (hvia.take permits).setFuture hbefore (by simp)⟩
  · obtain ⟨inner', key, hpoll, hfresh, hpermits, hholds⟩ :=
      hvia.holds.pollAcquire_wait profile waker htake
    rw [hpoll, if_neg (fun hcan => htake ((hvia.canTake_iff permits).mp hcan))]
    exact .next ⟨_, _, hvia.enqueue hbefore hpermits hfresh hholds⟩

/-- A later poll of a waiting future. -/
theorem poll_waiting_refines {front back : List (Entry Nat W)} {cell : Entry Nat W}
    (hvia : Via (front ++ cell :: back) owner state spec) (waker : W) :
    Outcome.Related Represents
      (.ofExcept (state.poll profile (owner cell.id)
        { state := .waiting cell.id, permits := cell.required } waker))
      (spec.poll (owner cell.id) waker) := by
  have hfuture := hvia.owned cell (by simp)
  have hspec : spec.futures (owner cell.id) = some .waiting := by
    rw [hvia.futures, hfuture]
    rfl
  simp only [Semaphore.State.poll, Acquire.poll, State.poll, hspec, hvia.find?,
    Entry.rename_woke, Entry.rename_required]
  rcases Bool.eq_false_or_eq_true cell.woke with hwoke | hwoke
  · by_cases hle : cell.required ≤ state.inner.permits
    · obtain ⟨inner', hpoll, hpermits, hholds⟩ :=
        hvia.holds.pollAcquire_grant profile waker cell.required hwoke hle
      have htaken := (hvia.take cell.required).departServe hpermits hholds
        (show ∀ acquire, AcquireFuture.returned ≠ .running acquire by simp)
      have hle' : cell.required ≤ spec.permits := hvia.permits ▸ hle
      simp only [hpoll, ok_bind, hwoke, ↓reduceIte, hle', Outcome.ofExcept, htaken.2]
      exact .next ⟨_, _, htaken.1⟩
    · have hlt : ¬ cell.required ≤ spec.permits := hvia.permits ▸ hle
      simp only [hvia.holds.pollAcquire_assert profile waker cell.required hwoke hle,
        error_bind, hwoke, ↓reduceIte, hlt, Outcome.ofExcept]
      exact .panic _
  · obtain ⟨inner', hpoll, hpermits, hholds⟩ :=
      hvia.holds.pollAcquire_refresh profile waker cell.required hwoke
    simp only [hpoll, ok_bind, hwoke, Bool.false_eq_true, ↓reduceIte, Outcome.ofExcept]
    have hnodup := hvia.queue_nodup
    rw [hvia.queue, List.map_append, List.map_cons] at hnodup
    have hrewrite := hvia.rewrite hpermits hholds (fun polled hpolled => by
      rcases mem_middle.mp hpolled with rfl | hold
      · exact ⟨cell, by simp, rfl, rfl⟩
      · exact ⟨polled, mem_middle.mpr (.inr hold), rfl, rfl⟩) (by simp)
    have hqueue : Line.refresh (owner cell.id) waker spec.queue =
        (front ++ { cell with waker := some (Line.refreshed cell.waker waker) } :: back).map
          (Entry.rename owner) := by
      rw [hvia.queue, List.map_append, List.map_cons, List.map_append, List.map_cons]
      exact Line.refresh_middle hnodup waker
    rw [hqueue, Semaphore.State.setFuture_eq_self { state with inner := inner' } _ _ hfuture]
    exact .next ⟨_, owner, hrewrite⟩

omit [Wakes W] in
/-- Giving permits back. -/
theorem release_refines (hvia : Via cells owner state spec) (permits : Nat) :
    Outcome.Related Represents
      (.ofExcept do
        let (inner, woken) ← Semaphore.addPermits profile state.inner permits
        .ok ({ state with inner }, { woken }))
      (.ofExcept (spec.release profile permits)) := by
  simp only [Semaphore.addPermits, State.release]
  by_cases hzero : permits = 0
  · simp only [hzero, ↓reduceIte, ok_bind, Outcome.ofExcept]
    exact .next ⟨cells, owner, hvia⟩
  · simp only [hzero, ↓reduceIte, hvia.permits]
    cases hadd : profile.add state.inner.permits permits with
    | error reason =>
        simp only [error_bind, Outcome.ofExcept]
        exact .panic reason
    | ok sum =>
        obtain ⟨inner', hwake, hserved⟩ := (hvia.setPermits sum).serve profile
        simp only [ok_bind, hwake, Outcome.ofExcept]
        exact .next ⟨_, owner, hserved⟩

/-- Dropping a future, in whatever state it is. -/
theorem drop_refines (hvia : Via cells owner state spec) (future : Nat) :
    Outcome.Related Represents
      ((Semaphore.system profile).step state (.drop future))
      (spec.drop future) := by
  have hspec := hvia.futures future
  simp only [Semaphore.system, Semaphore.State.step, State.drop, hspec]
  cases hfuture : state.futures future with
  | none => exact .disabled
  | some value =>
      have hdone : ∀ key permits, AcquireFuture.dropped ≠
          .running { state := .waiting key, permits } := by simp
      cases value with
      | dropped => exact .disabled
      | returned =>
          have hbefore : ∀ key permits,
              state.futures future ≠ some (.running { state := .waiting key, permits }) := by
            simp [hfuture]
          exact .next ⟨cells, owner, hvia.setFuture hbefore (by simp)⟩
      | running acquire =>
          rcases hvia.running future acquire hfuture with hidle | ⟨cell, hcell, rfl, hwaits⟩
          · have hbefore : ∀ key permits,
                state.futures future ≠ some (.running { state := .waiting key, permits }) := by
              rintro key permits hwaiting
              rw [hfuture] at hwaiting
              cases hwaiting
              cases hidle
            obtain ⟨acquireState, permits⟩ := acquire
            cases hidle
            simp only [Acquire.drop, ok_bind, Outcome.ofExcept, Option.map_some, Request.of]
            exact .next ⟨cells, owner, hvia.setFuture hbefore (by simp)⟩
          · obtain ⟨front, back, rfl⟩ := List.append_of_mem hcell
            obtain ⟨removed, hremove, hpermits, hholds⟩ := hvia.holds.remove
            obtain ⟨inner', hwake, hpermits', hserved⟩ := hholds.wake profile
            rw [hpermits] at hwake hserved
            have hdepart := hvia.departServe (hpermits'.trans hpermits) hserved
              (show ∀ acquire, AcquireFuture.dropped ≠ .running acquire by simp)
            obtain ⟨acquireState, permits⟩ := acquire
            cases hwaits
            simp only [Acquire.drop, hremove, hwake, ok_bind, Outcome.ofExcept,
              Option.map_some, Request.of, hdepart.2]
            exact .next ⟨_, owner, hdepart.1⟩

/-- Resuming a future, in whatever state it is. -/
theorem poll_refines (hvia : Via cells owner state spec) (future : Nat) (waker : W) :
    Outcome.Related Represents
      ((Semaphore.system profile).step state (.poll future waker))
      (spec.poll future waker) := by
  have hspec := hvia.futures future
  simp only [Semaphore.system, Semaphore.State.step]
  cases hfuture : state.futures future with
  | none =>
      simp only [State.poll, hspec, hfuture, Option.map_none]
      exact .disabled
  | some value =>
      cases value with
      | dropped =>
          simp only [State.poll, hspec, hfuture, Option.map_some, Request.of]
          exact .disabled
      | returned =>
          simp only [State.poll, hspec, hfuture, Option.map_some, Request.of]
          exact .panic _
      | running acquire =>
          obtain ⟨acquireState, permits⟩ := acquire
          rcases hvia.running future _ hfuture with hidle | ⟨cell, hcell, rfl, hwaits⟩
          · cases hidle
            exact poll_idle_refines hvia hfuture waker
          · have howned := hvia.owned cell hcell
            rw [hfuture] at howned
            cases howned
            obtain ⟨front, back, rfl⟩ := List.append_of_mem hcell
            exact poll_waiting_refines hvia waker

/-- The code's semaphore refines the abstract one, panics and outputs included. -/
theorem refines :
    System.Refines (Semaphore.system profile : System _ (Semaphore.State S W) _ _)
      (Fifo.system profile) Represents := by
  rintro state spec label ⟨cells, owner, hvia⟩
  cases label with
  | acquire future permits =>
      simp only [Semaphore.system, Semaphore.State.step, Fifo.system, State.step,
        hvia.futures future, Option.isNone_map]
      refine Outcome.Related.when fun hguard => ?_
      simp only [Bool.and_eq_true, Option.isNone_iff_eq_none] at hguard
      have hbefore : ∀ key permits,
          state.futures future ≠ some (.running { state := .waiting key, permits }) := by
        simp [hguard.1]
      exact .next ⟨cells, owner, hvia.setFuture hbefore (by simp)⟩
  | poll future waker => exact poll_refines hvia future waker
  | drop future => exact drop_refines hvia future
  | tryAcquire permits =>
      simp only [Semaphore.system, Semaphore.State.step, Fifo.system, State.step]
      refine Outcome.Related.when fun _ => ?_
      rw [hvia.holds.tryAcquire]
      by_cases htake : permits ≤ state.inner.permits ∧ (cells = [] ∨ permits = 0)
      · simp only [if_pos htake, if_pos ((hvia.canTake_iff permits).mpr htake), ok_bind,
          ↓reduceIte, Outcome.ofExcept]
        exact .next ⟨cells, owner, hvia.take permits⟩
      · simp only [if_neg htake,
          if_neg (fun hcan => htake ((hvia.canTake_iff permits).mp hcan)), ok_bind,
          Bool.false_eq_true, ↓reduceIte, Outcome.ofExcept]
        exact .next ⟨cells, owner, hvia⟩
  | addPermits permits =>
      simp only [Semaphore.system, Semaphore.State.step, Fifo.system, State.step]
      exact Outcome.Related.when fun _ => release_refines hvia permits
  | dropPermit permits =>
      simp only [Semaphore.system, Semaphore.State.step, Fifo.system, State.step, hvia.held]
      refine Outcome.Related.when fun _ => ?_
      exact release_refines (hvia.setHeld (state.held.erase permits)) permits
  | forget permits =>
      simp only [Semaphore.system, Semaphore.State.step, Fifo.system, State.step, hvia.held]
      refine Outcome.Related.when fun _ => ?_
      exact .next ⟨cells, owner, hvia.setHeld (state.held.erase permits)⟩
  | leak permits =>
      simp only [Semaphore.system, Semaphore.State.step, Fifo.system, State.step, hvia.held,
        hvia.leaked]
      refine Outcome.Related.when fun _ => .next ⟨cells, owner, ?_⟩
      exact (hvia.setHeld (state.held.erase permits)).setLeaked (permits :: state.leaked)

end Platoon.Sync.Fifo
