import Platoon.Runtime.JoinHandles
import Platoon.Runtime.OwnershipRuns

/-!
# Where futures end

The payload of a task is polled in place.  Assigning the output and dropping the
task drop the future where it is; `cancel` takes it out of the payload first.
-/

namespace Platoon.Runtime

open Platoon.Foundation Platoon.Rust

variable {V : Type}

namespace Executor

section Handles

variable {executor last : Executor V} {task other : Nat} {repr : TaskRepr V}

/-- A write that makes no new handle. -/
theorem joinable_of_write (hjoinable : last.joinable other = true) {repr' : TaskRepr V}
    (htasks : last.tasks = Function.update executor.tasks task (some repr'))
    (hhandle : repr'.handle = true → executor.joinable task = true) :
    executor.joinable other = true := by
  by_cases heq : other = task
  · subst heq
    apply hhandle
    simpa [joinable, htasks] using hjoinable
  · simpa [joinable, htasks, heq] using hjoinable

/-- A write that keeps the handle. -/
theorem joinable_of_keep (hjoinable : last.joinable other = true)
    (htask : executor.tasks task = some repr) {repr' : TaskRepr V}
    (htasks : last.tasks = Function.update executor.tasks task (some repr'))
    (hkeep : repr'.handle = repr.handle) : executor.joinable other = true := by
  refine joinable_of_write hjoinable htasks fun howned => ?_
  simp [joinable, htask, ← hkeep, howned]

theorem joinable_of_wake {waker : Waker} (hjoinable : (executor.wake waker).joinable other = true) :
    executor.joinable other = true := by
  cases waker with
  | main => exact hjoinable
  | foreign name => exact hjoinable
  | task task =>
      cases htask : executor.tasks task with
      | none => simpa [wake, htask] using hjoinable
      | some repr =>
          cases hstate : repr.state with
          | idle =>
              simp only [wake, htask, hstate] at hjoinable
              exact joinable_of_keep hjoinable htask rfl rfl
          | scheduled => simpa [wake, htask, hstate] using hjoinable
          | done => simpa [wake, htask, hstate] using hjoinable

theorem joinable_of_complete {value : V} (htask : executor.tasks task = some repr)
    (hjoinable : (executor.complete task repr value).1.joinable other = true) :
    executor.joinable other = true := by
  simp only [complete] at hjoinable
  split at hjoinable
  · exact joinable_of_keep (joinable_of_wake hjoinable) htask rfl rfl
  · exact joinable_of_keep hjoinable htask rfl rfl

/-- A handle that is owned was owned before and is not consumed by `cancel`, or is new. -/
theorem joinable_of_step {op : Op V} {events : List (Observation V)}
    (hstep : executor.step op = .next last events) (hjoinable : last.joinable task = true) :
    (executor.joinable task = true ∨ executor.tasks task = none) ∧
      ∀ output, .cancelled task output ∉ events := by
  cases step_move hstep with
  | loop hstack hgoto =>
      refine ⟨.inl hjoinable, ?_⟩
      cases hgoto <;> simp
  | run hstack hqueue htask hborrow hpayload =>
      exact ⟨.inl (joinable_of_keep hjoinable htask rfl rfl), by simp⟩
  | skip hstack hqueue htask hborrow hpayload =>
      exact ⟨.inl (joinable_of_keep hjoinable htask rfl rfl), by simp⟩
  | handed hstack =>
      have hbefore := joinable_of_wake hjoinable
      exact ⟨.inl hbefore, by simp⟩
  | leave hstack => exact ⟨.inl hjoinable, by simp⟩
  | finish hstack htask => exact ⟨.inl hjoinable, by simp⟩
  | complete hstack htask =>
      have hbefore := joinable_of_complete (by exact htask) hjoinable
      refine ⟨.inl hbefore, ?_⟩
      simp only [complete]
      split <;> simp
  | pending hstack htask =>
      exact ⟨.inl (joinable_of_keep hjoinable htask rfl rfl), by simp⟩
  | endCancel hstack htask =>
      exact ⟨.inl (joinable_of_keep hjoinable htask rfl rfl), by simp⟩
  | store hstack htask =>
      exact ⟨.inl (joinable_of_keep hjoinable htask rfl rfl), by simp⟩
  | endJoin hstack htask =>
      exact ⟨.inl (joinable_of_keep hjoinable htask rfl rfl), by simp⟩
  | blockOn huser => exact ⟨.inl hjoinable, by simp⟩
  | @spawn spawned huser htask =>
      refine ⟨?_, by simp⟩
      by_cases heq : task = spawned
      · exact .inr (heq ▸ htask)
      · left
        simpa [joinable, spawn, set, heq] using hjoinable
  | wake huser => exact ⟨.inl (joinable_of_wake hjoinable), by simp⟩
  | joinReady huser htask hhandle hborrow hpayload =>
      exact ⟨.inl (joinable_of_keep hjoinable htask rfl rfl), by simp⟩
  | joinPending huser htask hhandle hborrow hpayload =>
      exact ⟨.inl (joinable_of_keep hjoinable htask rfl rfl), by simp⟩
  | @cancelFuture cancelled repr huser htask hhandle hborrow hpayload =>
      refine ⟨.inl (joinable_of_write hjoinable rfl (by simp)), ?_⟩
      have hother : task ≠ cancelled := by
        rintro rfl
        simp [joinable, set] at hjoinable
      simp [hother]
  | @cancelDone cancelled repr output huser htask hhandle hborrow hpayload =>
      refine ⟨.inl (joinable_of_write hjoinable rfl (by simp)), ?_⟩
      have hother : task ≠ cancelled := by
        rintro rfl
        simp [joinable, set] at hjoinable
      simp [hother]
  | dropHandle huser htask hhandle =>
      exact ⟨.inl (joinable_of_write hjoinable rfl (by simp)), by simp⟩

/-- Over every run, a handle that is still owned has not cancelled its task. -/
theorem not_cancelled_of_joinable {trace : List (Op V × List (Observation V))}
    (hrun : system.Run new trace executor) (hjoinable : executor.joinable task = true)
    (output : Option V) : .cancelled task output ∉ history trace := by
  refine hrun.invariant (fun trace executor => executor.joinable task = true →
    .cancelled task output ∉ history trace) (by simp [history]) ?_ hjoinable
  intro trace middle last op events hprefix ih hstep hjoinable
  obtain ⟨hbefore, hevents⟩ := joinable_of_step hstep hjoinable
  rw [history_snoc, List.mem_append, not_or]
  refine ⟨?_, hevents output⟩
  rcases hbefore with howned | hnone
  · exact ih howned
  · intro hmem
    have hlive := ((run_tracks hprefix).unspawned hnone).1
    have hended := Life.ended_after.mpr (.inr ⟨output, hmem⟩)
    rw [hlive] at hended
    cases hended

end Handles

/-- The payload of the task holds its future, and no frame is dropping it. -/
def Running (executor : Executor V) (task : Nat) : Prop :=
  (∃ awaiter, executor.slot task = some (.future, awaiter)) ∧ outputsOf task executor.stack = []

section Running

variable {executor last : Executor V} {task : Nat}

theorem Running.of_eq (hrunning : executor.Running task)
    (hslot : last.slot task = executor.slot task)
    (hstack : outputsOf task last.stack = outputsOf task executor.stack) : last.Running task := by
  rw [Running, hslot, hstack]
  exact hrunning

/-- Only the end of its poll and `cancel` take a future out of its payload. -/
theorem Running.step (hrunning : executor.Running task) {op : Op V}
    {events : List (Observation V)} (hstep : executor.step op = .next last events) :
    last.Running task ∨ op = .cancel task ∨
      ∃ value frames, op = .ret (.ready value) ∧ executor.stack = .poll task :: frames := by
  cases step_move hstep with
  | loop hstack hgoto => exact .inl (hrunning.of_eq rfl (by rw [hstack]; rfl))
  | run hstack hqueue htask hborrow hpayload =>
      exact .inl (hrunning.of_eq (slot_keep htask (by rfl) (by rfl) task) (by rw [hstack]; rfl))
  | skip hstack hqueue htask hborrow hpayload =>
      exact .inl (hrunning.of_eq (slot_keep htask (by rfl) (by rfl) task) (by rw [hstack]; rfl))
  | handed hstack =>
      exact .inl (hrunning.of_eq (slot_wake _ task) (by rw [stack_wake, hstack]; rfl))
  | leave hstack => exact .inl (hrunning.of_eq rfl (by rw [hstack]; rfl))
  | @finish polled repr value frames hstack htask =>
      by_cases heq : polled = task
      · subst heq
        exact .inr (.inr ⟨value, frames, rfl, hstack⟩)
      · refine .inl (hrunning.of_eq rfl ?_)
        rw [outputsOf_complete, if_neg heq, hstack]
        rfl
  | @complete completed repr value frames hstack htask =>
      have hother : completed ≠ task := by
        rintro rfl
        have hnone := hrunning.2
        rw [hstack, outputsOf_complete, if_pos rfl] at hnone
        cases hnone
      refine .inl (hrunning.of_eq ?_ ?_)
      · rw [slot_complete, if_neg hother.symm]
        rfl
      · rw [stack_complete, hstack, outputsOf_complete, if_neg hother]
  | pending hstack htask =>
      exact .inl (hrunning.of_eq (slot_keep htask (by rfl) (by rfl) task) (by rw [hstack]; rfl))
  | endCancel hstack htask =>
      exact .inl (hrunning.of_eq (slot_keep htask (by rfl) (by rfl) task) (by rw [hstack]; rfl))
  | @store joined repr waker frames hstack htask =>
      refine .inl ⟨?_, ?_⟩
      · change ∃ awaiter, (executor.set joined _).slot task = some (.future, awaiter)
        rw [slot_set]
        split
        · rename_i heq
          obtain ⟨awaiter, hslot⟩ := hrunning.1
          rw [heq, slot_eq htask, Option.some.injEq, Prod.mk.injEq] at hslot
          exact ⟨some waker, by rw [hslot.1]⟩
        · exact hrunning.1
      · have hnone := hrunning.2
        rwa [hstack] at hnone
  | endJoin hstack htask =>
      exact .inl (hrunning.of_eq (slot_keep htask (by rfl) (by rfl) task) (by rw [hstack]; rfl))
  | blockOn huser => exact .inl (hrunning.of_eq rfl rfl)
  | @spawn spawned huser htask =>
      have hother : spawned ≠ task := by
        rintro rfl
        obtain ⟨⟨awaiter, hslot⟩, -⟩ := hrunning
        simp [slot, htask] at hslot
      refine .inl (hrunning.of_eq ?_ rfl)
      change (executor.set spawned _).slot task = _
      rw [slot_set, if_neg hother.symm]
  | wake huser => exact .inl (hrunning.of_eq (slot_wake _ task) (by rw [stack_wake]))
  | @joinReady joined repr waker value huser htask hhandle hborrow hpayload =>
      have hother : joined ≠ task := by
        rintro rfl
        obtain ⟨⟨awaiter, hslot⟩, -⟩ := hrunning
        simp [slot_eq htask, hpayload] at hslot
      refine .inl (hrunning.of_eq ?_ rfl)
      rw [slot_set, if_neg hother.symm]
  | joinPending huser htask hhandle hborrow hpayload =>
      exact .inl (hrunning.of_eq (slot_keep htask (by rfl) (by rfl) task) rfl)
  | @cancelFuture cancelled repr huser htask hhandle hborrow hpayload =>
      by_cases heq : cancelled = task
      · exact .inr (.inl (by rw [heq]))
      · refine .inl (hrunning.of_eq ?_ rfl)
        change (executor.set cancelled _).slot task = _
        rw [slot_set, if_neg (Ne.symm heq)]
  | @cancelDone cancelled repr output huser htask hhandle hborrow hpayload =>
      by_cases heq : cancelled = task
      · exact .inr (.inl (by rw [heq]))
      · refine .inl (hrunning.of_eq ?_ rfl)
        rw [slot_set, if_neg (Ne.symm heq)]
  | dropHandle huser htask hhandle =>
      exact .inl (hrunning.of_eq (slot_keep htask (by rfl) (by rfl) task) rfl)

end Running

end Executor

/-- How a future leaves the payload of its task. -/
inductive Release where
  | dropInPlace
  | moveOut
  deriving DecidableEq, Repr

namespace Ownership

/-- The payload of the task holds its future, and nothing is dropping it. -/
def HasFuture (ownership : Ownership V) (task : Nat) : Prop :=
  ownership.executor.Running task ∧ ¬ ownership.Dropped task

/-- The steps that take a future out of its payload, and how. -/
inductive Releases (ownership last : Ownership V) (op : Op V) (task : Nat) : Release → Prop where
  /-- `*payload = Payload::Output(val)`. -/
  | assigned {value : V} {frames : List (Frame V)} (hop : op = .run (.ret (.ready value)))
      (hstack : ownership.executor.stack = .poll task :: frames) :
      Releases ownership last op task .dropInPlace
  /-- `payload.take()` in `cancel`. -/
  | taken (hop : op = .run (.cancel task)) (hfuture : ownership.Unfinished task) :
      Releases ownership last op task .moveOut
  /-- The last reference to the task is dropped. -/
  | reclaimed (hfuture : ownership.HasFuture task) (hdropped : last.Dropped task) :
      Releases ownership last op task .dropInPlace

/-- All observations of a trace in their order. -/
def observed (trace : List (Op V × List (Observation V))) : List (Observation V) :=
  trace.flatMap Prod.snd

/-- Every future that leaves its payload after it was polled is dropped in place. -/
def PolledStay (trace : List (Op V × List (Observation V))) : Prop :=
  ∀ before after op events middle next task release,
    trace = before ++ (op, events) :: after → system.Run new before middle →
    system.step middle op = .next next events → .polled task ∈ observed before →
    Releases middle next op task release → release = .dropInPlace

/-- No task is cancelled between its first poll and its end. -/
def CancelsUnpolled (trace : List (Op V × List (Observation V))) : Prop :=
  ∀ before after events task, trace = before ++ (.run (.cancel task), events) :: after →
    .polled task ∈ observed before → .finished task ∈ observed before

section Releasing

variable {ownership last : Ownership V} {trace : List (Op V × List (Observation V))} {op : Op V}
  {events : List (Observation V)} {task : Nat}

/-- Clients observe nothing of the executor. -/
theorem history_executor (hrun : system.Run new trace ownership) :
    Executor.history (trace.filterMap executorEvent) = observed trace := by
  refine hrun.invariant (fun trace _ =>
    Executor.history (trace.filterMap executorEvent) = observed trace) rfl ?_
  intro trace middle last op events _ ih hstep
  have hone : Executor.history ([(op, events)].filterMap executorEvent) = events := by
    cases step_move hstep with
    | run hallowed hexecutor hexec => exact List.append_nil _
    | park hexecutor hexec => exact List.append_nil _
    | _ => rfl
  simp only [Executor.history, observed, List.filterMap_append, List.flatMap_append] at ih hone ⊢
  rw [ih, hone, List.flatMap_singleton]

theorem run_tracks (hrun : system.Run new trace ownership) :
    Tracks (observed trace) ownership.executor := by
  rw [← history_executor hrun]
  exact Executor.run_tracks (run_executor hrun)

theorem unfinished_iff_slot :
    ownership.Unfinished task ↔
      ∃ awaiter, ownership.executor.slot task = some (.future, awaiter) := by
  simp only [Unfinished, Executor.slot, Option.map_eq_some_iff, Prod.mk.injEq]
  constructor
  · rintro ⟨repr, htask, hpayload⟩
    exact ⟨repr.awaiter, repr, htask, hpayload, rfl⟩
  · rintro ⟨awaiter, repr, htask, hpayload, -⟩
    exact ⟨repr, htask, hpayload⟩

/-- A future that is gone after a step was released by it. -/
theorem released_of_step (hstep : ownership.step op = .next last events)
    (hfuture : ownership.HasFuture task) (hgone : ¬ last.HasFuture task) :
    ∃ release, Releases ownership last op task release := by
  by_cases hdropped : last.Dropped task
  · exact ⟨_, .reclaimed hfuture hdropped⟩
  have hstopped : ¬ last.executor.Running task := fun hrunning => hgone ⟨hrunning, hdropped⟩
  cases step_move hstep with
  | @run op executor heap events hallowed hexecutor hexec =>
      rcases hfuture.1.step hexecutor with hrunning | rfl | ⟨value, frames, rfl, hstack⟩
      · exact absurd hrunning hstopped
      · exact ⟨_, .taken rfl (unfinished_iff_slot.mpr hfuture.1.1)⟩
      · exact ⟨_, .assigned rfl hstack⟩
  | park hexecutor hexec =>
      rcases hfuture.1.step hexecutor with hrunning | hcancel | ⟨value, frames, hready, -⟩
      · exact absurd hrunning hstopped
      · cases hcancel
      · cases hready
  | _ => exact absurd hfuture.1 hstopped

/-- What `cancel` finds in the payload of a task. -/
theorem unfinished_of_cancel (hrun : system.Run new trace ownership)
    (hstep : ownership.step (.run (.cancel task)) = .next last events) :
    ownership.Unfinished task ↔ .finished task ∉ observed trace := by
  have hboth : ∃ repr, ownership.executor.tasks task = some repr ∧ repr.borrow = 0 ∧
      repr.handle = true := by
    cases step_move hstep with
    | run hallowed hexecutor hexec =>
        cases Executor.step_move hexecutor with
        | loop hstack hgoto => cases hgoto
        | cancelFuture huser htask hhandle hborrow hpayload =>
            exact ⟨_, htask, hborrow, hhandle⟩
        | cancelDone huser htask hhandle hborrow hpayload =>
            exact ⟨_, htask, hborrow, hhandle⟩
  obtain ⟨repr, htask, hborrow, hhandle⟩ := hboth
  obtain ⟨hplaced, hused⟩ := (run_tracks hrun).spawned htask
  obtain ⟨-, hended⟩ := hused.free_of_borrow hborrow
  constructor
  · rintro ⟨repr', htask', hpayload⟩ hfinished
    rw [htask] at htask'
    cases htask'
    exact hended (Life.ended_after.mpr (.inl hfinished)) hpayload
  · intro hunfinished
    refine ⟨repr, htask, hplaced.live ?_⟩
    by_contra hnot
    rcases Life.ended_after.mp (by simpa using hnot) with hfinished | ⟨output, hcancelled⟩
    · exact hunfinished hfinished
    · rw [← history_executor hrun] at hcancelled
      exact Executor.not_cancelled_of_joinable (run_executor hrun)
        (by simp [Executor.joinable, htask, hhandle]) output hcancelled

/-- Over every run: the futures that were polled are dropped in place exactly if no task is
cancelled between its first poll and its end; and no future leaves its payload otherwise than
by the end of its poll, by `cancel`, or with its task. -/
theorem polled_futures_stay (hrun : system.Run new trace ownership) :
    (PolledStay trace ↔ CancelsUnpolled trace) ∧
      ∀ op last events task, system.step ownership op = .next last events →
        ownership.HasFuture task → ¬ last.HasFuture task →
        ∃ release, Releases ownership last op task release := by
  constructor
  · constructor
    · rintro hstay before after events task rfl hpolled
      obtain ⟨middle, hfront, hback⟩ := hrun.split
      obtain ⟨next, hstep, -⟩ := hback.first_step
      by_contra hunfinished
      have hfuture := (unfinished_of_cancel hfront hstep).mpr hunfinished
      have hmoved := hstay before after _ events middle next task .moveOut rfl hfront hstep
        hpolled (.taken rfl hfuture)
      cases hmoved
    · rintro hcancels before after op events middle next task release rfl hfront hstep hpolled
        hreleases
      cases hreleases with
      | assigned hop hstack => rfl
      | reclaimed hfuture hdropped => rfl
      | taken hop hfuture =>
          subst hop
          have hunfinished := (unfinished_of_cancel hfront hstep).mp hfuture
          exact absurd (hcancels before after events task rfl hpolled) hunfinished
  · intro op last events task hstep hfuture hgone
    exact released_of_step hstep hfuture hgone

/-- A task that has been polled and waits. -/
def polledOnce : List (Op Nat) :=
  [.run (.spawn 0), .run .blockOn, .run .advance, .run (.ret .pending), .run .advance,
    .run (.ret .pending)]

theorem polledOnce_moves :
    ¬ ∀ {trace : List (Op Nat × List (Observation Nat))} {ownership : Ownership Nat},
      system.Run new trace ownership → PolledStay trace := by
  intro hall
  have hcheck : (system.exec (new : Ownership Nat) polledOnce).any (fun result =>
      decide (.polled 0 ∈ observed result.1) && decide (result.2.Unfinished 0) &&
        (system.exec result.2 [.run (.cancel 0)]).any fun after =>
          decide (after.1.map Prod.fst = [.run (.cancel 0)])) = true := by decide
  obtain ⟨trace, ownership, hrun, hpass⟩ := System.exec_check hcheck
  simp only [Bool.and_eq_true, decide_eq_true_eq] at hpass
  obtain ⟨⟨hpolled, hfuture⟩, hcancel⟩ := hpass
  obtain ⟨rest, last, hrest, hlabels⟩ := System.exec_check hcancel
  obtain ⟨⟨op, events⟩, rfl, hop⟩ :=
    List.map_eq_singleton_iff.mp (of_decide_eq_true hlabels)
  simp only at hop
  subst hop
  obtain ⟨next, hstep, -⟩ := hrest.first_step
  have hmoved := hall (hrun.trans hrest) trace [] _ events ownership next 0 .moveOut rfl hrun
    hstep hpolled (.taken rfl hfuture)
  cases hmoved

/-- A handle that cancels its task before it runs. -/
theorem polled_futures_stay_neverPolled :
    ∃ (trace : List (Op Nat × List (Observation Nat))) (ownership : Ownership Nat),
      system.Run new trace ownership ∧ observed trace = [.spawned 0, .cancelled 0 none] ∧
      PolledStay trace := by
  have hcheck : (system.exec (new : Ownership Nat)
      [.run (.spawn 0), .run (.cancel 0), .run .advance]).any (fun result =>
        decide (observed result.1 = [.spawned 0, .cancelled 0 none])) = true := by decide
  obtain ⟨trace, ownership, hrun, hpass⟩ := System.exec_check hcheck
  have hobserved := of_decide_eq_true hpass
  refine ⟨trace, ownership, hrun, hobserved, (polled_futures_stay hrun).1.mpr ?_⟩
  rintro before after events task rfl hpolled
  have hmem : .polled task ∈ observed (before ++ (.run (.cancel task), events) :: after) := by
    rw [observed, List.flatMap_append]
    exact List.mem_append_left _ hpolled
  rw [hobserved] at hmem
  simp at hmem

end Releasing

end Ownership

end Platoon.Runtime
