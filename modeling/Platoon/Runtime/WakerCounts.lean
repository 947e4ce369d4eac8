import Platoon.Runtime.Executor

/-!
# Strong counts under wakers

One `Rc` that wakers are made of, the `Shared` of an executor or a `TaskRepr`,
with its strong count and its owners.  The four functions of the waker's vtable
can be called on any thread and panic on all but one; the call that panics then
unwinds, and the run goes on.
-/

namespace Platoon.Runtime

open Platoon.Foundation Platoon.Rust

/-- The types that implement `RcWake`. -/
inductive RcWake where
  /-- `Shared`, with its flag `woke`. -/
  | shared (woke : Bool)
  /-- `TaskRepr`, with its cell `state`. -/
  | task (state : TaskState)
  deriving DecidableEq, Repr

/-- An `Rc` with its owners: wakers not yet consumed, entries of the queue, and handles, which
are the clones of the `Rc` that functions and clients have. -/
structure WakerRc where
  value : RcWake
  createdOn : Nat
  strong : Nat
  wakers : Nat
  entries : Nat
  handles : Nat
  deriving DecidableEq, Repr

/-- How a call ends. -/
inductive Ended where
  | returned
  | unwound
  deriving DecidableEq, Repr

namespace WakerRc

/-- Calls on a waker come from any thread.  Handles stay on the thread that created them. -/
inductive Op where
  | clone (thread : Nat)
  | wake (thread : Nat)
  | wakeByRef (thread : Nat)
  | drop (thread : Nat)
  /-- `into_waker` of a clone, as in `run` and `block_on`. -/
  | intoWaker
  | cloneHandle
  | dropHandle
  /-- `spawn` pushes a clone on the queue. -/
  | push
  /-- `block_on` pops an entry, which is a handle from then on. -/
  | pop
  /-- `run`, `wake` of another waker and `block_on` write to the cells. -/
  | set (value : RcWake)
  deriving DecidableEq, Repr

/-- `Rc::new`. -/
def new (value : RcWake) (createdOn : Nat) : WakerRc where
  value := value
  createdOn := createdOn
  strong := 1
  wakers := 0
  entries := 0
  handles := 1

/-- The owners that have not given up their reference. -/
def owners (rc : WakerRc) : Nat := rc.wakers + rc.entries + rc.handles

/-- `Rc::clone`. -/
def retain (rc : WakerRc) : WakerRc := { rc with strong := rc.strong + 1 }

/-- `Rc::drop`. -/
def release (rc : WakerRc) : WakerRc := { rc with strong := rc.strong - 1 }

/-- The waker that was passed by value is no owner any more. -/
def consume (rc : WakerRc) : WakerRc := { rc with wakers := rc.wakers - 1 }

/-- `RcWake::wake`, which takes its `Rc` by value. -/
def rcWake (rc : WakerRc) : WakerRc :=
  match rc.value with
  | .shared _ => { rc with value := .shared true }.release
  | .task .idle =>
      { rc.retain with value := .task .scheduled, entries := rc.entries + 1 }.release
  | .task .scheduled | .task .done => rc.release

/-- `assert_not_sent`. -/
def sent (rc : WakerRc) (thread : Nat) : Bool := thread ≠ rc.createdOn

/-- `clone`: its `Rc` is an owning local until `Rc::into_raw`. -/
def clone (rc : WakerRc) (thread : Nat) : WakerRc × Ended :=
  if rc.sent thread then (rc.release, .unwound)
  else ({ rc.retain with wakers := rc.wakers + 1 }, .returned)

/-- `wake`, which consumes the waker also when it panics. -/
def wake (rc : WakerRc) (thread : Nat) : WakerRc × Ended :=
  if rc.sent thread then (rc.consume.release, .unwound)
  else (rc.consume.rcWake, .returned)

/-- `wake_by_ref`: its `Rc` is in a `ManuallyDrop`. -/
def wakeByRef (rc : WakerRc) (thread : Nat) : WakerRc × Ended :=
  if rc.sent thread then (rc, .unwound) else (rc.retain.rcWake, .returned)

/-- `drop`, which consumes the waker also when it panics. -/
def drop (rc : WakerRc) (thread : Nat) : WakerRc × Ended :=
  (rc.consume.release, if rc.sent thread then .unwound else .returned)

/-- A call on a waker; nothing can be said once the allocation is freed. -/
def call (rc : WakerRc) (result : WakerRc × Ended) : Outcome Panic WakerRc Ended :=
  .when (0 < rc.wakers && 0 < rc.strong) <| .next result.1 result.2

/-- What the owner of a handle does. -/
def handle (rc last : WakerRc) : Outcome Panic WakerRc Ended :=
  .when (0 < rc.handles && 0 < rc.strong) <| .next last .returned

def step (rc : WakerRc) : Op → Outcome Panic WakerRc Ended
  | .clone thread => rc.call (rc.clone thread)
  | .wake thread => rc.call (rc.wake thread)
  | .wakeByRef thread => rc.call (rc.wakeByRef thread)
  | .drop thread => rc.call (rc.drop thread)
  | .intoWaker => rc.handle { rc.retain with wakers := rc.wakers + 1 }
  | .cloneHandle => rc.handle { rc.retain with handles := rc.handles + 1 }
  | .dropHandle => rc.handle { rc.release with handles := rc.handles - 1 }
  | .push => rc.handle { rc.retain with entries := rc.entries + 1 }
  | .pop =>
      .when (0 < rc.entries && 0 < rc.strong) <|
        .next { rc with entries := rc.entries - 1, handles := rc.handles + 1 } .returned
  | .set value => rc.handle { rc with value }

/-- One `Rc` with all its owners. -/
def system : System Panic WakerRc Op Ended where
  step := WakerRc.step

/-- The strong count is the number of owners. -/
def Balanced (rc : WakerRc) : Prop := rc.strong = rc.owners

/-- Whether a call only borrows its waker. -/
def Op.borrows : Op → Bool
  | .clone _ | .wakeByRef _ => true
  | _ => false

/-- `clone` is called on the thread that the `Rc` was created on. -/
def clonesHere (rc : WakerRc) : Op → Bool
  | .clone thread => !rc.sent thread
  | _ => true

/-! ## What a call does to the count -/

section Calls

variable {rc last : WakerRc} {op : Op} {output : Ended}

/-- `RcWake::wake` gives up the reference it is passed. -/
theorem strong_rcWake (hlives : 0 < rc.strong) :
    rc.rcWake.strong + 1 + rc.entries = rc.strong + rc.rcWake.entries := by
  unfold rcWake
  split
  · simp only [release]
    omega
  · simp only [release, retain]
    omega
  · simp only [release]
    omega
  · simp only [release]
    omega

@[simp]
theorem wakers_rcWake : rc.rcWake.wakers = rc.wakers := by
  unfold rcWake
  split <;> rfl

@[simp]
theorem handles_rcWake : rc.rcWake.handles = rc.handles := by
  unfold rcWake
  split <;> rfl

theorem entries_rcWake : rc.entries ≤ rc.rcWake.entries := by
  unfold rcWake
  split <;> simp [release, retain]

/-- It writes to the cell of a task and pushes an entry exactly as in the model of the whole
executor. -/
theorem rcWake_agrees {V : Type} {executor : Executor V} {task : Nat} {repr : TaskRepr V}
    (htask : executor.tasks task = some repr) (hvalue : rc.value = .task repr.state)
    (hentries : rc.entries = executor.queue.count task) :
    ∃ repr', (executor.wake (.task task)).tasks task = some repr' ∧
      rc.rcWake.value = .task repr'.state ∧
      rc.rcWake.entries = (executor.wake (.task task)).queue.count task := by
  cases hstate : repr.state with
  | idle =>
      rw [hstate] at hvalue
      simp only [Executor.wake, rcWake, htask, hstate, hvalue]
      refine ⟨{ repr with state := .scheduled }, by simp [Executor.set], rfl, ?_⟩
      simp [release, hentries]
  | scheduled =>
      rw [hstate] at hvalue
      simp only [Executor.wake, rcWake, htask, hstate, hvalue]
      exact ⟨repr, rfl, hvalue.trans (by rw [hstate]), hentries⟩
  | done =>
      rw [hstate] at hvalue
      simp only [Executor.wake, rcWake, htask, hstate, hvalue]
      exact ⟨repr, rfl, hvalue.trans (by rw [hstate]), hentries⟩

/-- `RcWake::wake` gives up one reference, so it balances an `Rc` with one too many. -/
theorem balanced_rcWake (hone : rc.strong = rc.owners + 1) : Balanced rc.rcWake := by
  have hcount := rc.strong_rcWake (by omega)
  simp only [Balanced, owners, wakers_rcWake, handles_rcWake] at hone ⊢
  omega

theorem call_eq_next {result : WakerRc × Ended} :
    rc.call result = .next last output ↔
      0 < rc.wakers ∧ 0 < rc.strong ∧ result = (last, output) := by
  simp only [call, Outcome.when_eq_next, Bool.and_eq_true, decide_eq_true_eq, and_assoc,
    Outcome.next.injEq, Prod.ext_iff]

theorem handle_eq_next {next : WakerRc} :
    rc.handle next = .next last output ↔
      0 < rc.handles ∧ 0 < rc.strong ∧ next = last ∧ .returned = output := by
  simp only [handle, Outcome.when_eq_next, Bool.and_eq_true, decide_eq_true_eq, and_assoc,
    Outcome.next.injEq]

/-- A clone balances exactly on the right thread; elsewhere it gives up a reference that it
only borrowed. -/
theorem clone_counts {thread : Nat} (hlives : 0 < rc.strong)
    (hclone : rc.clone thread = (last, output)) :
    (rc.sent thread = false → last.strong = rc.strong + 1 ∧ last.owners = rc.owners + 1) ∧
      (rc.sent thread = true → last.strong + 1 = rc.strong ∧ last.owners = rc.owners) := by
  unfold clone at hclone
  split at hclone
  · rename_i hsent
    cases hclone
    refine ⟨fun hhere => absurd (hhere.symm.trans hsent) Bool.false_ne_true, fun _ => ?_⟩
    simp only [release, owners, and_true]
    omega
  · rename_i hhere
    cases hclone
    refine ⟨fun _ => ?_, fun hsent => absurd hsent hhere⟩
    simp only [retain, owners, true_and]
    omega

theorem wake_balanced {thread : Nat} (hwakers : 0 < rc.wakers) (hbalanced : Balanced rc)
    (hwake : rc.wake thread = (last, output)) : Balanced last := by
  unfold wake at hwake
  split at hwake
  · cases hwake
    simp only [Balanced, consume, release, owners] at hbalanced ⊢
    omega
  · cases hwake
    apply balanced_rcWake
    simp only [Balanced, consume, owners] at hbalanced ⊢
    omega

/-- `wake_by_ref` balances on every thread and gives up nothing. -/
theorem wakeByRef_balanced {thread : Nat} (hbalanced : Balanced rc)
    (hwake : rc.wakeByRef thread = (last, output)) : Balanced last ∧ rc.strong ≤ last.strong := by
  unfold wakeByRef at hwake
  split at hwake
  · cases hwake
    exact ⟨hbalanced, Nat.le_refl _⟩
  · cases hwake
    have hone : rc.retain.strong = rc.retain.owners + 1 := by
      simp only [Balanced, retain, owners] at hbalanced ⊢
      omega
    have hcount := rc.retain.strong_rcWake (Nat.succ_pos _)
    have hentries := rc.retain.entries_rcWake
    refine ⟨balanced_rcWake hone, ?_⟩
    simp only [retain] at hcount hentries ⊢
    omega

theorem drop_balanced {thread : Nat} (hwakers : 0 < rc.wakers) (hbalanced : Balanced rc)
    (hdrop : rc.drop thread = (last, output)) : Balanced last := by
  cases hdrop
  simp only [Balanced, consume, release, owners] at hbalanced ⊢
  omega

/-- After a step the count is that of the owners, and a borrowed waker has not lowered it,
exactly if the step is no `clone` on another thread. -/
theorem balanced_step (hbalanced : Balanced rc) (hstep : rc.step op = .next last output) :
    (Balanced last ∧ (op.borrows = true → rc.strong ≤ last.strong)) ↔
      rc.clonesHere op = true := by
  cases op with
  | clone thread =>
      simp only [step, call_eq_next] at hstep
      obtain ⟨-, hlives, hclone⟩ := hstep
      obtain ⟨hhere, hsent⟩ := clone_counts hlives hclone
      cases hthread : rc.sent thread with
      | false =>
          obtain ⟨hstrong, howners⟩ := hhere hthread
          simp only [clonesHere, hthread, Balanced] at hbalanced ⊢
          simp only [Bool.not_false, iff_true]
          exact ⟨by omega, fun _ => by omega⟩
      | true =>
          obtain ⟨hstrong, howners⟩ := hsent hthread
          simp only [clonesHere, hthread, Balanced] at hbalanced ⊢
          simp only [Bool.not_true, Bool.false_eq_true, iff_false]
          rintro ⟨hlast, -⟩
          omega
  | wake thread =>
      simp only [step, call_eq_next] at hstep
      obtain ⟨hwakers, -, hwake⟩ := hstep
      simp [clonesHere, Op.borrows, wake_balanced hwakers hbalanced hwake]
  | wakeByRef thread =>
      simp only [step, call_eq_next] at hstep
      obtain ⟨-, -, hwake⟩ := hstep
      obtain ⟨hlast, hcount⟩ := wakeByRef_balanced hbalanced hwake
      simp [clonesHere, hlast, hcount]
  | drop thread =>
      simp only [step, call_eq_next] at hstep
      obtain ⟨hwakers, -, hdrop⟩ := hstep
      simp [clonesHere, Op.borrows, drop_balanced hwakers hbalanced hdrop]
  | pop =>
      simp only [step, Outcome.when_eq_next, Bool.and_eq_true, decide_eq_true_eq] at hstep
      obtain ⟨⟨hentries, -⟩, hnext⟩ := hstep
      cases hnext
      simp only [clonesHere, Op.borrows, Balanced, owners] at hbalanced ⊢
      simp only [Bool.false_eq_true, false_implies, and_true, iff_true]
      omega
  | intoWaker | cloneHandle | dropHandle | push | set value =>
      simp only [step, handle_eq_next] at hstep
      obtain ⟨hhandles, -, rfl, -⟩ := hstep
      simp only [clonesHere, Op.borrows, Balanced, owners, retain, release] at hbalanced ⊢
      simp only [Bool.false_eq_true, false_implies, and_true, iff_true]
      omega

end Calls

/-! ## Runs -/

/-- Along a run from `Rc::new` the strong count is always the number of owners, and no call
that only borrows its waker lowers it, exactly if no waker is cloned on another thread than
the one that the `Rc` was created on. -/
theorem strong_counts_owners {value : RcWake} {createdOn : Nat} {rc : WakerRc}
    {trace : List (Op × Ended)} (hrun : system.Run (new value createdOn) trace rc) :
    system.Always (new value createdOn) trace (fun trace rc => Balanced rc ∧
      system.LastStep (new value createdOn)
        (fun before op after => op.borrows = true → before.strong ≤ after.strong) trace rc) ↔
      (system.restrict clonesHere).Run (new value createdOn) trace rc := by
  refine hrun.always_iff_restrict ⟨rfl, System.lastStep_nil⟩ ?_
  intro trace middle last op output hmiddle hstep
  have hbalanced : Balanced middle := by
    refine hmiddle.preserves Balanced rfl ?_
    intro rc last op output hbalanced hguarded
    obtain ⟨hclones, hstep⟩ := System.restrict_step.mp hguarded
    exact ((balanced_step hbalanced hstep).mpr hclones).1
  rw [System.lastStep_snoc hmiddle.of_restrict]
  exact balanced_step hbalanced hstep

/-- The main waker of an executor, woken and dropped on other threads. -/
theorem strong_counts_owners_foreignDrop :
    ∃ trace rc, system.Run (new (.shared false) 1) trace rc ∧ rc.strong = 2 ∧ Balanced rc := by
  have hcheck : ((system.restrict clonesHere).exec (new (.shared false) 1)
      [.intoWaker, .clone 1, .clone 1, .wakeByRef 2, .drop 2, .wake 2]).any
        (fun result => decide (result.2.strong = 2)) = true := by decide
  obtain ⟨trace, rc, hrun, hpass⟩ := System.exec_check hcheck
  have hstrong : rc.strong = 2 := by simpa using hpass
  have halways := (strong_counts_owners hrun.of_restrict).mpr hrun
  exact ⟨trace, rc, hrun.of_restrict, hstrong,
    (halways trace [] rc (by simp) hrun.of_restrict).1⟩

/-- A clone of the main waker is cloned on another thread, which panics.  Once `block_on` has
returned and the executor is dropped, the allocation is freed, and the clone still points to
it. -/
theorem foreign_clone_frees :
    ∃ trace rc, system.Run (new (.shared false) 1) trace rc ∧ rc.strong = 0 ∧ rc.wakers = 1 ∧
      ¬ system.Always (new (.shared false) 1) trace fun _ rc => Balanced rc := by
  have hcheck : (system.exec (new (.shared false) 1)
      [.intoWaker, .clone 1, .clone 2, .drop 1, .dropHandle]).any
      (fun result => decide (result.2.strong = 0 ∧ result.2.wakers = 1)) = true := by decide
  obtain ⟨trace, rc, hrun, hpass⟩ := System.exec_check hcheck
  obtain ⟨hstrong, hwakers⟩ := of_decide_eq_true hpass
  refine ⟨trace, rc, hrun, hstrong, hwakers, ?_⟩
  intro halways
  have hbalanced : Balanced rc := halways trace [] rc (by simp) hrun
  rw [Balanced, hstrong, owners, hwakers] at hbalanced
  omega

end WakerRc

end Platoon.Runtime
