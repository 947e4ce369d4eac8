import Platoon.Runtime.ExecutorRuns

/-!
# Join handles

`Known` is what an observer knows about the output of a task: what its future
returned, what was handed over to its `JoinHandle`, and which waker waits for
it.  `Stage` says where the payload and the awaiter of the task keep it.
-/

namespace Platoon.Runtime

open Platoon.Foundation Platoon.Rust

variable {V : Type}

/-- `returned`: by the future.  `handed`: over, by `poll` or `cancel`.  `waiting`: the waker
of the last poll of the handle that was `Pending`. -/
structure Known (V : Type) where
  returned : List V := []
  handed : List V := []
  waiting : Option Waker := none
  deriving DecidableEq, Repr

namespace Known

def next (task : Nat) (known : Known V) :
    Executor.Op V × List (Observation V) → Known V
  | (.ret (.ready value), [.finished other]) =>
      if other = task then { known with returned := known.returned ++ [value] } else known
  | (_, [.joined other _ (.ready value)]) =>
      if other = task then { known with handed := known.handed ++ [value] } else known
  | (_, [.joined other waker .pending]) =>
      if other = task then { known with waiting := some waker } else known
  | (.cancel _, [.cancelled other output]) =>
      if other = task then { known with handed := known.handed ++ output.toList } else known
  | _ => known

/-- What is known of a task after a trace. -/
def after (task : Nat) (trace : List (Executor.Op V × List (Observation V))) : Known V :=
  trace.foldl (next task) {}

@[simp]
theorem after_nil (task : Nat) :
    after task ([] : List (Executor.Op V × List (Observation V))) = {} := rfl

@[simp]
theorem after_snoc (task : Nat) (trace : List (Executor.Op V × List (Observation V)))
    (event : Executor.Op V × List (Observation V)) :
    after task (trace ++ [event]) = (after task trace).next task event := by
  simp [after]

end Known

namespace Executor

/-- The payload and the awaiter of a task. -/
def slot (executor : Executor V) (task : Nat) : Option (Payload V × Option Waker) :=
  (executor.tasks task).map fun repr => (repr.payload, repr.awaiter)

end Executor

/-- The values that are about to become the output of the task. -/
def outputsOf (task : Nat) (stack : List (Frame V)) : List V :=
  stack.filterMap fun
    | .complete other value => if other = task then some value else none
    | _ => none

/-- The wakers that the completion of a task wakes. -/
def completionWakes (task : Nat) (executor : Executor V) (op : Executor.Op V)
    (events : List (Observation V)) : List Waker :=
  match executor.stack, op with
  | .complete other _ :: _, .advance =>
      if other = task then
        events.filterMap fun
          | .invoked waker => some waker
          | _ => none
      else []
  | _, _ => []

/-- Only the loop and the ends of destructors complete a task. -/
theorem completionWakes_of_ne {task : Nat} {executor : Executor V} {op : Executor.Op V}
    {events : List (Observation V)} (hop : op ≠ .advance) :
    completionWakes task executor op events = [] := by
  unfold completionWakes
  split
  · exact absurd rfl hop
  · rfl

/-- Where a task is on the way of its output: its payload and awaiter, the values that are
about to become its output, and the wakers that its completion woke. -/
inductive Stage (known : Known V) :
    Option (Payload V × Option Waker) → List V → List Waker → Prop where
  | unspawned (hknown : known = {}) : Stage known none [] []
  | running (hreturned : known.returned = []) (hhanded : known.handed = []) :
      Stage known (some (.future, known.waiting)) [] []
  | completing (value : V) (hreturned : known.returned = [value]) (hhanded : known.handed = []) :
      Stage known (some (.future, known.waiting)) [value] []
  | output (value : V) (awaiter : Option Waker) (hreturned : known.returned = [value])
      (hhanded : known.handed = []) :
      Stage known (some (.output value, awaiter)) [] known.waiting.toList
  | handed (value : V) (awaiter : Option Waker) (hreturned : known.returned = [value])
      (hhanded : known.handed = [value]) :
      Stage known (some (.taken, awaiter)) [] known.waiting.toList
  | cancelled (awaiter : Option Waker) (hreturned : known.returned = [])
      (hhanded : known.handed = []) : Stage known (some (.taken, awaiter)) [] []

namespace Executor

section Slots

variable {executor : Executor V} {task other : Nat} {repr repr' : TaskRepr V}

theorem slot_eq (htask : executor.tasks task = some repr) :
    executor.slot task = some (repr.payload, repr.awaiter) := by
  simp [slot, htask]

theorem slot_set (repr : TaskRepr V) :
    (executor.set task repr).slot other =
      if other = task then some (repr.payload, repr.awaiter) else executor.slot other := by
  by_cases heq : other = task <;> simp [slot, set, heq]

/-- A write that keeps the payload and the awaiter. -/
theorem slot_keep (htask : executor.tasks task = some repr)
    (hpayload : repr'.payload = repr.payload) (hawaiter : repr'.awaiter = repr.awaiter)
    (other : Nat) : (executor.set task repr').slot other = executor.slot other := by
  rw [slot_set]
  split
  · rename_i heq
    rw [heq, slot_eq htask, hpayload, hawaiter]
  · rfl

@[simp]
theorem slot_wake (waker : Waker) (other : Nat) :
    (executor.wake waker).slot other = executor.slot other := by
  cases waker with
  | main => rfl
  | foreign name => rfl
  | task task =>
      cases htask : executor.tasks task with
      | none => simp [wake, htask]
      | some repr =>
          cases hstate : repr.state with
          | idle =>
              have hkeep : (executor.set task { repr with state := .scheduled }).slot other =
                  executor.slot other :=
                  slot_keep htask (by rfl) (by rfl) other
              simp only [wake, htask, hstate]
              exact hkeep
          | scheduled => simp [wake, htask, hstate]
          | done => simp [wake, htask, hstate]

theorem slot_complete (repr : TaskRepr V) (value : V) :
    (executor.complete task repr value).1.slot other =
      if other = task then some (.output value, none) else executor.slot other := by
  unfold complete
  split
  · rw [slot_wake, slot_set]
  · rw [slot_set]

end Slots

end Executor

section Outputs

variable {task : Nat} {frame : Frame V} {frames : List (Frame V)}

/-- Only the frames of a task hold its values. -/
theorem outputsOf_filter (stack : List (Frame V)) :
    outputsOf task (stack.filter (Frame.on task)) = outputsOf task stack := by
  induction stack with
  | nil => rfl
  | cons frame stack ih =>
      cases frame with
      | blockOn pc => simpa [outputsOf, Frame.on] using ih
      | poll other =>
          by_cases heq : other = task <;> simpa [outputsOf, Frame.on, heq] using ih
      | complete other value =>
          by_cases heq : other = task <;> simpa [outputsOf, Frame.on, heq] using ih
      | cancel other =>
          by_cases heq : other = task <;> simpa [outputsOf, Frame.on, heq] using ih
      | join other waker =>
          by_cases heq : other = task <;> simpa [outputsOf, Frame.on, heq] using ih

@[simp]
theorem outputsOf_blockOn (pc : Pc) :
    outputsOf task (.blockOn pc :: frames) = outputsOf task frames := rfl

@[simp]
theorem outputsOf_poll (other : Nat) :
    outputsOf task (.poll other :: frames) = outputsOf task frames := rfl

@[simp]
theorem outputsOf_cancel (other : Nat) :
    outputsOf task (.cancel other :: frames) = outputsOf task frames := rfl

@[simp]
theorem outputsOf_join (other : Nat) (waker : Option Waker) :
    outputsOf task (.join other waker :: frames) = outputsOf task frames := rfl

theorem outputsOf_complete (other : Nat) (value : V) :
    outputsOf task (.complete other value :: frames) =
      if other = task then value :: outputsOf task frames else outputsOf task frames := by
  by_cases heq : other = task <;> simp [outputsOf, heq]

/-- A task whose payload is not borrowed is not completing. -/
theorem outputsOf_of_free {observed : List (Observation V)} {executor : Executor V}
    {repr : TaskRepr V} (htracks : Tracks observed executor)
    (htask : executor.tasks task = some repr) (hborrow : repr.borrow = 0) :
    outputsOf task executor.stack = [] := by
  obtain ⟨hnone, -⟩ := (htracks.spawned htask).2.free_of_borrow hborrow
  rw [← outputsOf_filter, hnone]
  rfl

/-- Nor is one whose handle stores a waker: its future waits. -/
theorem future_of_join {observed : List (Observation V)} {executor : Executor V}
    {repr : TaskRepr V} {waker : Option Waker} (htracks : Tracks observed executor)
    (hstack : executor.stack = .join task waker :: frames)
    (htask : executor.tasks task = some repr) :
    repr.payload = .future ∧ outputsOf task frames = [] := by
  have hused := (htracks.spawned htask).2
  have hself : (Frame.join task waker : Frame V).on task = true := by simp [Frame.on]
  rw [hstack, List.filter_cons_of_pos hself] at hused
  rw [← outputsOf_filter]
  generalize frames.filter (Frame.on task) = used at hused ⊢
  cases hused with
  | join _ hborrow hpayload hlive => exact ⟨hpayload, rfl⟩

end Outputs

namespace Stage

variable {executor last : Executor V} {task : Nat} {known known' : Known V}
  {woken woken' : List Waker} {repr : TaskRepr V} {observed : List (Observation V)}

/-- A step that concerns neither the output of the task nor its awaiter. -/
theorem silent
    (hstage : Stage known (executor.slot task) (outputsOf task executor.stack) woken)
    (hknown : known' = known) (hslot : last.slot task = executor.slot task)
    (hstack : outputsOf task last.stack = outputsOf task executor.stack)
    (hwoken : woken' = woken) :
    Stage known' (last.slot task) (outputsOf task last.stack) woken' := by
  rw [hknown, hslot, hstack, hwoken]
  exact hstage

/-- The future of a task that can be polled, or whose handle can, has not returned. -/
theorem of_future {awaiter : Option Waker}
    (hstage : Stage known (some (.future, awaiter)) [] woken) :
    known.returned = [] ∧ known.handed = [] ∧ known.waiting = awaiter ∧ woken = [] := by
  cases hstage with
  | running hreturned hhanded => exact ⟨hreturned, hhanded, rfl, rfl⟩

/-- The poll of a task returns `Ready`. -/
theorem finish (htracks : Tracks observed executor)
    (hstage : Stage known (executor.slot task) (outputsOf task executor.stack) woken)
    {value : V} {other : Nat} {frames : List (Frame V)}
    (hstack : executor.stack = .poll other :: frames)
    (htask : executor.tasks other = some repr) :
    Stage (known.next task (.ret (.ready value), [.finished other]))
      (executor.slot task) (outputsOf task (.complete other value :: frames)) woken := by
  rw [outputsOf_complete]
  by_cases heq : other = task
  · subst heq
    have hused := (htracks.spawned htask).2
    have hself : (Frame.poll other : Frame V).on other = true := by simp [Frame.on]
    rw [hstack, List.filter_cons_of_pos hself] at hused
    have hbelow : frames.filter (Frame.on other) = [] ∧ repr.payload = .future := by
      generalize frames.filter (Frame.on other) = used at hused
      cases hused with
      | poll hborrow hpayload hlive => exact ⟨rfl, hpayload⟩
    have hnone : outputsOf other frames = [] := by
      rw [← outputsOf_filter, hbelow.1]
      rfl
    rw [hstack, outputsOf_poll, hnone, Executor.slot_eq htask, hbelow.2] at hstage
    obtain ⟨hreturned, hhanded, hwaiting, rfl⟩ := hstage.of_future
    rw [Executor.slot_eq htask, hbelow.2, hnone, ← hwaiting]
    simp only [Known.next, ↓reduceIte]
    exact .completing value (by simp [hreturned]) hhanded
  · rw [hstack, outputsOf_poll] at hstage
    simpa [Known.next, heq] using hstage

/-- What is known of a task that is completing. -/
theorem of_completing {place : Option (Payload V × Option Waker)} {value : V} {values : List V}
    (hstage : Stage known place (value :: values) woken) :
    place = some (.future, known.waiting) ∧ values = [] ∧ woken = [] ∧
      known.returned = [value] ∧ known.handed = [] := by
  cases hstage with
  | completing returned hreturned hhanded => exact ⟨rfl, rfl, rfl, hreturned, hhanded⟩

/-- The payload becomes the output, and the awaiter is woken. -/
theorem complete
    (hstage : Stage known (executor.slot task) (outputsOf task executor.stack) woken)
    {value : V} {other : Nat} {frames : List (Frame V)}
    (hstack : executor.stack = .complete other value :: frames)
    (htask : executor.tasks other = some repr) :
    Stage known
      ((Executor.complete { executor with stack := frames } other repr value).1.slot task)
      (outputsOf task frames)
      (woken ++ completionWakes task executor .advance
        (Executor.complete { executor with stack := frames } other repr value).2) := by
  rw [hstack, outputsOf_complete] at hstage
  rw [Executor.slot_complete]
  by_cases heq : other = task
  · subst heq
    rw [if_pos rfl] at hstage
    obtain ⟨hslot, hnone, rfl, hreturned, hhanded⟩ := hstage.of_completing
    have hawaiter : repr.awaiter = known.waiting := by
      rw [Executor.slot_eq htask, Option.some.injEq, Prod.mk.injEq] at hslot
      exact hslot.2
    have hwoken : completionWakes other executor .advance
        (Executor.complete { executor with stack := frames } other repr value).2 =
          known.waiting.toList := by
      rw [← hawaiter]
      simp only [completionWakes, hstack, ↓reduceIte, Executor.complete]
      cases repr.awaiter <;> rfl
    rw [hnone, hwoken, if_pos rfl, List.nil_append]
    exact .output value none hreturned hhanded
  · have hother : ¬ task = other := fun h => heq h.symm
    rw [if_neg heq] at hstage
    simp only [completionWakes, hstack, heq, hother, ↓reduceIte, List.append_nil]
    exact hstage

/-- The handle is polled after completion. -/
theorem joined
    (hstage : Stage known (executor.slot task) (outputsOf task executor.stack) woken)
    {other : Nat} (htask : executor.tasks other = some repr) {waker : Waker} {value : V}
    {repr' : TaskRepr V} (hnone : other = task → outputsOf task executor.stack = [])
    (hpayload : repr.payload = .output value) (hpayload' : repr'.payload = .taken)
    (hawaiter : repr'.awaiter = repr.awaiter) :
    Stage (known.next task (.pollOutput other waker, [.joined other waker (.ready value)]))
      ((executor.set other repr').slot task) (outputsOf task executor.stack) woken := by
  rw [Executor.slot_set]
  by_cases heq : other = task
  · subst heq
    rw [Executor.slot_eq htask, hnone rfl, hpayload] at hstage
    rw [hnone rfl, if_pos rfl, hpayload', hawaiter]
    generalize repr.awaiter = awaiter at hstage ⊢
    cases hstage with
    | output _ _ hreturned hhanded =>
        simp only [Known.next, ↓reduceIte]
        exact .handed value awaiter hreturned (by simp [hhanded])
  · have hother : ¬ task = other := fun h => heq h.symm
    rw [if_neg hother]
    simpa [Known.next, heq] using hstage

/-- The handle is polled while the future is pending, and its waker is stored. -/
theorem stored (htracks : Tracks observed executor)
    (hstage : Stage known (executor.slot task) (outputsOf task executor.stack) woken)
    {other : Nat} {waker : Waker} {frames : List (Frame V)}
    (hstack : executor.stack = .join other (some waker) :: frames)
    (htask : executor.tasks other = some repr) :
    Stage (known.next task (.advance, [.joined other waker .pending]))
      ((executor.set other { repr with awaiter := some waker }).slot task)
      (outputsOf task frames) woken := by
  rw [Executor.slot_set]
  rw [hstack, outputsOf_join] at hstage
  by_cases heq : other = task
  · subst heq
    obtain ⟨hpayload, hnone⟩ := future_of_join htracks hstack htask
    rw [Executor.slot_eq htask, hnone, hpayload] at hstage
    obtain ⟨hreturned, hhanded, -, rfl⟩ := hstage.of_future
    rw [hnone, if_pos rfl, hpayload]
    simp only [Known.next, ↓reduceIte]
    exact .running hreturned hhanded
  · have hother : ¬ task = other := fun h => heq h.symm
    rw [if_neg hother]
    simpa [Known.next, heq] using hstage

/-- The handle is consumed by `cancel`. -/
theorem cancel
    (hstage : Stage known (executor.slot task) (outputsOf task executor.stack) woken)
    {other : Nat} (htask : executor.tasks other = some repr) {output : Option V}
    {repr' : TaskRepr V} (hnone : other = task → outputsOf task executor.stack = [])
    (hpayload : repr.payload = .future ∧ output = none ∨
      repr.payload = output.elim .taken .output)
    (hpayload' : repr'.payload = .taken) :
    Stage (known.next task (.cancel other, [.cancelled other output]))
      ((executor.set other repr').slot task) (outputsOf task executor.stack) woken := by
  rw [Executor.slot_set]
  by_cases heq : other = task
  · subst heq
    rw [Executor.slot_eq htask, hnone rfl] at hstage
    rw [hnone rfl, if_pos rfl, hpayload']
    simp only [Known.next, ↓reduceIte]
    rcases hpayload with ⟨hpayload, rfl⟩ | hpayload
    · rw [hpayload] at hstage
      obtain ⟨hreturned, hhanded, -, rfl⟩ := hstage.of_future
      exact .cancelled _ hreturned (by simp [hhanded])
    · rw [hpayload] at hstage
      generalize repr.awaiter = awaiter at hstage
      cases output with
      | some value =>
          cases hstage with
          | output _ _ hreturned hhanded =>
              exact .handed value _ hreturned (by simp [hhanded])
      | none =>
          cases hstage with
          | handed value _ hreturned hhanded =>
              exact .handed value _ hreturned (by simp [hhanded])
          | cancelled _ hreturned hhanded =>
              exact .cancelled _ hreturned (by simp [hhanded])
  · have hother : ¬ task = other := fun h => heq h.symm
    rw [if_neg hother]
    simpa [Known.next, heq] using hstage

/-- Every step keeps the task where it is on the way of its output, or moves it on. -/
theorem step (htracks : Tracks observed executor)
    (hstage : Stage known (executor.slot task) (outputsOf task executor.stack) woken)
    {op : Executor.Op V} {events : List (Observation V)}
    (hstep : executor.step op = .next last events) :
    Stage (known.next task (op, events)) (last.slot task) (outputsOf task last.stack)
      (woken ++ completionWakes task executor op events) := by
  cases Executor.step_move hstep with
  | @loop op pc pc' woke events frames hstack hgoto =>
      apply hstage.silent
      · cases hgoto <;> rfl
      · rfl
      · rw [hstack]
        rfl
      · simp [completionWakes, hstack]
  | run hstack hqueue htask hborrow hpayload =>
      apply hstage.silent (by rfl)
      · exact Executor.slot_keep htask (by rfl) (by rfl) task
      · rw [hstack]
        rfl
      · simp [completionWakes, hstack]
  | skip hstack hqueue htask hborrow hpayload =>
      apply hstage.silent (by rfl)
      · exact Executor.slot_keep htask (by rfl) (by rfl) task
      · rw [hstack]
        rfl
      · simp [completionWakes, hstack]
  | handed hstack =>
      apply hstage.silent (by rfl)
      · exact Executor.slot_wake _ task
      · rw [Executor.stack_wake, hstack]
        rfl
      · simp [completionWakes, hstack]
  | leave hstack =>
      apply hstage.silent (by rfl) (by rfl)
      · rw [hstack]
        rfl
      · simp [completionWakes, hstack]
  | finish hstack htask =>
      rw [completionWakes_of_ne (by simp), List.append_nil]
      exact hstage.finish htracks hstack htask
  | @complete other repr value frames hstack htask =>
      have hknown : known.next task (.advance,
          (Executor.complete { executor with stack := frames } other repr value).2) = known := by
        unfold Executor.complete
        split <;> rfl
      rw [Executor.stack_complete, hknown]
      exact hstage.complete hstack htask
  | pending hstack htask =>
      apply hstage.silent (by rfl)
      · exact Executor.slot_keep htask (by rfl) (by rfl) task
      · rw [hstack]
        rfl
      · simp [completionWakes, hstack]
  | endCancel hstack htask =>
      apply hstage.silent (by rfl)
      · exact Executor.slot_keep htask (by rfl) (by rfl) task
      · rw [hstack]
        rfl
      · simp [completionWakes, hstack]
  | store hstack htask =>
      have hnone : ∀ events, completionWakes task executor .advance events = [] := fun events => by
        simp [completionWakes, hstack]
      rw [hnone, List.append_nil, outputsOf_join]
      exact hstage.stored htracks hstack htask
  | endJoin hstack htask =>
      apply hstage.silent (by rfl)
      · exact Executor.slot_keep htask (by rfl) (by rfl) task
      · rw [hstack]
        rfl
      · simp [completionWakes, hstack]
  | blockOn huser =>
      exact hstage.silent (by rfl) (by rfl) (by rfl) (by simp [completionWakes])
  | @spawn spawned huser htask =>
      rw [completionWakes_of_ne (by simp), List.append_nil]
      change Stage known ((executor.set spawned _).slot task) (outputsOf task executor.stack) woken
      rw [Executor.slot_set]
      by_cases heq : task = spawned
      · have hunspawned : executor.slot task = none := by
          rw [heq]
          simp [Executor.slot, htask]
        rw [hunspawned] at hstage
        rw [if_pos heq]
        generalize outputsOf task executor.stack = values at hstage ⊢
        cases hstage with
        | unspawned hknown =>
            subst hknown
            exact .running rfl rfl
      · rw [if_neg heq]
        exact hstage
  | wake huser =>
      apply hstage.silent (by rfl)
      · exact Executor.slot_wake _ task
      · rw [Executor.stack_wake]
      · simp [completionWakes]
  | joinReady huser htask hhandle hborrow hpayload =>
      rw [completionWakes_of_ne (by simp), List.append_nil]
      refine hstage.joined htask ?_ hpayload (by rfl) (by rfl)
      rintro rfl
      exact outputsOf_of_free htracks htask hborrow
  | joinPending huser htask hhandle hborrow hpayload =>
      apply hstage.silent (by rfl)
      · exact Executor.slot_keep htask (by rfl) (by rfl) task
      · rfl
      · simp [completionWakes]
  | cancelFuture huser htask hhandle hborrow hpayload =>
      rw [completionWakes_of_ne (by simp), List.append_nil]
      apply hstage.cancel htask
      · rintro rfl
        exact outputsOf_of_free htracks htask hborrow
      · exact .inl ⟨hpayload, rfl⟩
      · rfl
  | cancelDone huser htask hhandle hborrow hpayload =>
      rw [completionWakes_of_ne (by simp), List.append_nil]
      apply hstage.cancel htask
      · rintro rfl
        exact outputsOf_of_free htracks htask hborrow
      · exact .inr hpayload
      · rfl
  | dropHandle huser htask hhandle =>
      apply hstage.silent (by rfl)
      · exact Executor.slot_keep htask (by rfl) (by rfl) task
      · rfl
      · simp [completionWakes]

/-- What every stage says about what is known. -/
theorem counts {place : Option (Payload V × Option Waker)} {values : List V}
    (hstage : Stage known place values woken) :
    known.returned.length ≤ 1 ∧ known.handed.Sublist known.returned ∧
      (known.returned = [] ∨ values ≠ [] → woken = []) ∧
      (known.returned ≠ [] → values = [] → woken = known.waiting.toList) := by
  cases hstage with
  | unspawned hknown =>
      subst hknown
      simp
  | running hreturned hhanded => simp [hreturned, hhanded]
  | completing value hreturned hhanded => simp [hreturned, hhanded]
  | output value awaiter hreturned hhanded => simp [hreturned, hhanded]
  | handed value awaiter hreturned hhanded => simp [hreturned, hhanded]
  | cancelled awaiter hreturned hhanded => simp [hreturned, hhanded]

end Stage

/-- What the handle and the awaiter of a task get, by what is known of the task. -/
structure Delivery (task : Nat) (known : Known V) (executor : Executor V)
    (woken : List Waker) : Prop where
  once : known.returned.length ≤ 1
  handed : known.handed.Sublist known.returned
  /-- A poll of the handle after completion is `Ready`, unless the output was handed over. -/
  join : ∀ {value : V} (waker : Waker), known.returned = [value] → known.handed = [] →
    outputsOf task executor.stack = [] → executor.userRuns = true →
    (executor.tasks task).any TaskRepr.handle = true →
    ∃ last, Executor.system.step executor (.pollOutput task waker) =
      .next last [.joined task waker (.ready value)]
  cancel : ∀ {last : Executor V} {events : List (Observation V)},
    Executor.system.step executor (.cancel task) = .next last events →
    ∃ output, events = [.cancelled task output] ∧
      ∀ value, output = some value ↔ known.returned = [value] ∧ known.handed = []
  notYet : known.returned = [] ∨ outputsOf task executor.stack ≠ [] → woken = []
  awaiter : known.returned ≠ [] → outputsOf task executor.stack = [] →
    woken = known.waiting.toList

namespace Executor

variable {executor last : Executor V} {trace : List (Op V × List (Observation V))} {task : Nat}
  {known : Known V} {woken : List Waker} {observed : List (Observation V)}

/-- The payload of a completed task is not borrowed. -/
theorem free_of_output {repr : TaskRepr V} {value : V} (htracks : Tracks observed executor)
    (htask : executor.tasks task = some repr) (hpayload : repr.payload = .output value)
    (hnone : outputsOf task executor.stack = []) : repr.borrow = 0 := by
  have hused := (htracks.spawned htask).2
  rw [← outputsOf_filter] at hnone
  generalize executor.stack.filter (Frame.on task) = frames at hused hnone
  cases hused with
  | free hborrow _ => exact hborrow
  | poll _ hfuture _ =>
      rw [hpayload] at hfuture
      cases hfuture
  | complete value' _ _ => simp [outputsOf_complete] at hnone
  | cancel _ htaken _ =>
      rw [hpayload] at htaken
      cases htaken
  | join _ _ hfuture _ =>
      rw [hpayload] at hfuture
      cases hfuture

/-- A poll of the handle finds the output. -/
theorem join_of_stage (htracks : Tracks observed executor)
    (hstage : Stage known (executor.slot task) (outputsOf task executor.stack) woken)
    {value : V} (waker : Waker) (hreturned : known.returned = [value])
    (hhanded : known.handed = []) (hnone : outputsOf task executor.stack = [])
    (huser : executor.userRuns = true)
    (hhandle : (executor.tasks task).any TaskRepr.handle = true) :
    ∃ last, system.step executor (.pollOutput task waker) =
      .next last [.joined task waker (.ready value)] := by
  simp only [Option.any_eq_true_iff_get] at hhandle
  obtain ⟨hsome, hhandle⟩ := hhandle
  obtain ⟨repr, htask⟩ := Option.isSome_iff_exists.mp hsome
  simp only [htask, Option.get_some] at hhandle
  have hpayload : repr.payload = .output value := by
    rw [hnone, slot_eq htask] at hstage
    generalize repr.payload = payload at hstage ⊢
    generalize repr.awaiter = awaiter at hstage
    cases hstage with
    | running hempty => simp [hempty] at hreturned
    | output other _ hvalue _ =>
        rw [hreturned] at hvalue
        cases hvalue
        rfl
    | handed other _ _ htaken => simp [htaken] at hhanded
    | cancelled _ hempty => simp [hempty] at hreturned
  have hborrow := free_of_output htracks htask hpayload hnone
  refine ⟨executor.set task { repr with payload := .taken }, ?_⟩
  simp [system, step, withHandle, huser, htask, hhandle, pollOutput, hborrow, hpayload,
    RefCell.borrowMut, Outcome.when, Outcome.ofExcept]

/-- What `cancel` returns. -/
theorem cancel_of_stage (htracks : Tracks observed executor)
    (hstage : Stage known (executor.slot task) (outputsOf task executor.stack) woken)
    {events : List (Observation V)}
    (hstep : system.step executor (.cancel task) = .next last events) :
    ∃ output, events = [.cancelled task output] ∧
      ∀ value, output = some value ↔ known.returned = [value] ∧ known.handed = [] := by
  have hmove : Move executor (.cancel task) last events := step_move hstep
  cases hmove with
  | loop hstack hgoto => cases hgoto
  | @cancelFuture _ repr huser htask hhandle hborrow hpayload =>
      rw [slot_eq htask, hpayload, outputsOf_of_free htracks htask hborrow] at hstage
      obtain ⟨hreturned, -⟩ := hstage.of_future
      exact ⟨none, rfl, fun value => by simp [hreturned]⟩
  | @cancelDone _ repr output huser htask hhandle hborrow hpayload =>
      rw [slot_eq htask, hpayload, outputsOf_of_free htracks htask hborrow] at hstage
      refine ⟨output, rfl, fun value => ?_⟩
      generalize repr.awaiter = awaiter at hstage
      cases output with
      | some returned =>
          cases hstage with
          | output _ _ hreturned hhanded => simp [hreturned, hhanded]
      | none =>
          cases hstage with
          | handed other _ hreturned hhanded => simp [hhanded]
          | cancelled _ hreturned hhanded => simp [hreturned]

/-- Over every run, the task is on the way of its output where the observer says. -/
theorem run_stage (task : Nat)
    (hrun : (system.logged (completionWakes task)).Run (new, []) trace (executor, woken)) :
    Stage (Known.after task trace) (executor.slot task) (outputsOf task executor.stack) woken := by
  refine hrun.logged_invariant (fun trace executor woken =>
    Stage (Known.after task trace) (executor.slot task) (outputsOf task executor.stack) woken)
    (.unspawned rfl) ?_
  intro trace middle last op events woken hprefix hstage hstep
  rw [Known.after_snoc]
  exact hstage.step (run_tracks hprefix) hstep

/-- Over every run, and for every task: its output is handed over at most once, to the first
poll or `cancel` after completion, and completion wakes the waker of the last pending poll of
its handle and no other. -/
theorem output_delivered (task : Nat)
    (hrun : (system.logged (completionWakes task)).Run (new, []) trace (executor, woken)) :
    Delivery task (Known.after task trace) executor woken := by
  have hstage := run_stage task hrun
  have htracks := run_tracks hrun.of_logged
  obtain ⟨honce, hhanded, hnotYet, hawaiter⟩ := hstage.counts
  exact
    { once := honce
      handed := hhanded
      join := fun waker hreturned hnew hnone huser hhandle =>
        join_of_stage htracks hstage waker hreturned hnew hnone huser hhandle
      cancel := fun hstep => cancel_of_stage htracks hstage hstep
      notYet := hnotYet
      awaiter := hawaiter }

/-- A main future that polls the handle of a task twice before the task finishes. -/
def awaited : List (Op Nat) :=
  [.spawn 0, .blockOn, .advance, .pollOutput 0 (.foreign 1), .advance, .advance,
    .pollOutput 0 .main, .advance, .advance, .ret .pending, .advance, .ret (.ready 5), .advance]

theorem output_delivered_awaited :
    ∃ trace executor woken,
      (system.logged (completionWakes 0)).Run ((new : Executor Nat), []) trace
        (executor, woken) ∧ woken = [.main] ∧
      ∃ last, system.step executor (.pollOutput 0 .main) =
        .next last [.joined 0 .main (.ready 5)] := by
  have hcheck : ((system.logged (completionWakes 0)).exec ((new : Executor Nat), [])
      awaited).any (fun result =>
        decide (Known.after 0 result.1 =
          { returned := [5], handed := [], waiting := some .main }) &&
        decide (result.2.1.stack = [.blockOn (.ran 60)]) &&
        (result.2.1.tasks 0).any TaskRepr.handle) = true := by decide
  obtain ⟨trace, ⟨executor, woken⟩, hrun, hpass⟩ := System.exec_check hcheck
  simp only [Bool.and_eq_true, decide_eq_true_eq] at hpass
  obtain ⟨⟨hknown, hstack⟩, hhandle⟩ := hpass
  have hdelivery := output_delivered 0 hrun
  rw [hknown] at hdelivery
  have hnone : outputsOf 0 executor.stack = [] := by
    rw [hstack]
    rfl
  have huser : executor.userRuns = true := by
    rw [userRuns, hstack]
    rfl
  refine ⟨trace, executor, woken, hrun, ?_, ?_⟩
  · exact hdelivery.awaiter (by simp) hnone
  · exact hdelivery.join .main rfl rfl hnone huser hhandle

end Executor

end Platoon.Runtime
