import Platoon.Runtime.TaskLife
import Platoon.Runtime.ExecutorSteps

/-!
# The executor tracks the life of its tasks

One lemma for each thing the executor does to a task, and from them that every
step keeps all tasks consistent with what was observed.
-/

namespace Platoon.Runtime

open Platoon.Foundation Platoon.Rust

variable {V : Type}

namespace Tracks

variable {history : List (Observation V)} {executor last : Executor V} {task : Nat}
  {repr : TaskRepr V}

theorem spawn (htracks : Tracks history executor) (htask : executor.tasks task = none) :
    Tracks (history ++ [.spawned task]) (executor.spawn task) := by
  obtain ⟨hlive, hcount, hframes⟩ := htracks.unspawned htask
  refine htracks.changed task (fun other hne => ?_) (fun other hne => ?_)
    (Function.update_self _ _ _) ?_ ?_
  · have hnot : task ≠ other := hne.symm
    simp [Executor.view, Executor.spawn, Executor.set, hne, hnot]
  · simp [Life.next]
  · constructor <;> simp [Executor.spawn, Executor.set, hcount, Life.next, hlive]
  · have hstack : (executor.spawn task).stack = executor.stack := rfl
    rw [hstack, hframes]
    exact .free rfl (by simp [Life.next, hlive])

theorem wake (htracks : Tracks history executor) (waker : Waker) :
    Tracks (history ++ [.invoked waker]) (executor.wake waker) := by
  cases waker with
  | main => exact htracks.unchanged (fun task => rfl) (fun task => by simp [Life.next])
  | foreign name => exact htracks.unchanged (fun task => rfl) (fun task => by simp [Life.next])
  | task task =>
      have hlife : ∀ other, other ≠ task →
          Life.after other (history ++ [Observation.invoked (.task task)]) =
            Life.after other history := by
        intro other hne
        simp [Life.next, hne.symm]
      cases htask : executor.tasks task with
      | none =>
          obtain ⟨hlive, hcount, hframes⟩ := htracks.unspawned htask
          intro other
          by_cases heq : other = task
          · subst heq
            simp only [Executor.wake, htask, Executor.view, hcount, hframes]
            exact .unspawned (by simp [Life.next, hlive])
          · simp only [Executor.wake, htask]
            rw [hlife other heq]
            exact htracks other
      | some repr =>
          obtain ⟨hplaced, hused⟩ := htracks.spawned htask
          have hnext : (Life.after task history).next task
              (.invoked (.task task) : Observation V) =
              { due := true, ended := (Life.after task history).ended } := by
            simp [Life.next]
          cases hstate : repr.state with
          | idle =>
              simp only [Executor.wake, htask, hstate]
              refine htracks.changed task (fun other hne => ?_) hlife
                (Function.update_self _ _ _) ?_ ?_
              · have hnot : task ≠ other := hne.symm
                simp [Executor.view, Executor.set, hne, hnot]
              · have hcount := hplaced.idle hstate
                rw [Life.after_snoc, hnext]
                constructor <;> simp [hcount]
                exact hplaced.live
              · rw [Life.after_snoc, hnext]
                exact hused.of_eq rfl rfl rfl
          | scheduled =>
              simp only [Executor.wake, htask, hstate]
              refine htracks.changed task (fun other hne => rfl) hlife htask ?_ ?_
              · rw [Life.after_snoc, hnext]
                exact { hplaced with
                  due := fun _ _ => hstate
                  done := fun h => by rw [hstate] at h; cases h }
              · rw [Life.after_snoc, hnext]
                exact hused.of_eq rfl rfl rfl
          | done =>
              have hended := hplaced.done hstate
              simp only [Executor.wake, htask, hstate]
              refine htracks.changed task (fun other hne => rfl) hlife htask ?_ ?_
              · rw [Life.after_snoc, hnext]
                exact { hplaced with
                  due := fun _ hlive => by rw [hended] at hlive; cases hlive }
              · rw [Life.after_snoc, hnext]
                exact hused.of_eq rfl rfl rfl

/-- A step that writes the cells of one task and the frames that use it. -/
theorem write (htracks : Tracks history executor) {stack : List (Frame V)}
    {events : List (Observation V)}
    (hothers : ∀ other, other ≠ task →
      stack.filter (Frame.on other) = executor.stack.filter (Frame.on other))
    (hlife : ∀ other, other ≠ task →
      Life.after other (history ++ events) = Life.after other history)
    (hplaced : Placed (Life.after task (history ++ events)) repr (executor.queue.count task))
    (hused : Used task (Life.after task (history ++ events)) repr
      (stack.filter (Frame.on task))) :
    Tracks (history ++ events) { executor.set task repr with stack } := by
  refine htracks.changed task (fun other hne => ?_) hlife (Function.update_self _ _ _)
    hplaced hused
  simp [Executor.view, Executor.set, hne, hothers other hne]

/-- The same when nothing is observed. -/
theorem writeSilent (htracks : Tracks history executor) {stack : List (Frame V)}
    (hothers : ∀ other, other ≠ task →
      stack.filter (Frame.on other) = executor.stack.filter (Frame.on other))
    (hplaced : Placed (Life.after task history) repr (executor.queue.count task))
    (hused : Used task (Life.after task history) repr (stack.filter (Frame.on task))) :
    Tracks history { executor.set task repr with stack } := by
  rw [← List.append_nil history] at hplaced hused ⊢
  exact htracks.write hothers (fun _ _ => by simp) hplaced hused

/-- A step that writes the cells of one task and changes no frame. -/
theorem set (htracks : Tracks history executor)
    (hplaced : Placed (Life.after task history) repr (executor.queue.count task))
    (hused : Used task (Life.after task history) repr
      (executor.stack.filter (Frame.on task))) :
    Tracks history (executor.set task repr) :=
  htracks.writeSilent (fun _ _ => rfl) hplaced hused

/-- A step that changes no frame of a task, and is not observed by one. -/
theorem reframe (htracks : Tracks history executor) {stack : List (Frame V)} {woke : Bool}
    {events : List (Observation V)}
    (hframes : ∀ task, stack.filter (Frame.on task) = executor.stack.filter (Frame.on task))
    (hlife : ∀ task, Life.after task (history ++ events) = Life.after task history) :
    Tracks (history ++ events) { executor with stack, woke } := by
  refine htracks.unchanged (fun task => ?_) hlife
  simp only [Executor.view, hframes]

/-- The frames of other tasks do not see a frame of this one. -/
theorem filter_cons_other {frame : Frame V} {frames : List (Frame V)} {other : Nat}
    (hframe : frame.on other = false) :
    (frame :: frames).filter (Frame.on other) = frames.filter (Frame.on other) := by
  simp [hframe]

/-- Popping a task, which is idle from then on. -/
theorem pop (htracks : Tracks history executor) {queue : List Nat} {stack : List (Frame V)}
    {events : List (Observation V)} (hqueue : executor.queue = task :: queue)
    (hothers : ∀ other, other ≠ task →
      stack.filter (Frame.on other) = executor.stack.filter (Frame.on other))
    (hlife : ∀ other, other ≠ task →
      Life.after other (history ++ events) = Life.after other history)
    (hplaced : Placed (Life.after task (history ++ events)) repr (queue.count task))
    (hused : Used task (Life.after task (history ++ events)) repr
      (stack.filter (Frame.on task))) :
    Tracks (history ++ events) { executor.set task repr with queue, stack } := by
  refine htracks.changed task (fun other hne => ?_) hlife (Function.update_self _ _ _)
    hplaced hused
  have hnot : task ≠ other := hne.symm
  simp [Executor.view, Executor.set, hqueue, hne, hnot, hothers other hne]

/-- A popped task is not queued again. -/
theorem popped (htracks : Tracks history executor) {queue : List Nat}
    (hqueue : executor.queue = task :: queue) (htask : executor.tasks task = some repr) :
    queue.count task = 0 := by
  have honce := (htracks.spawned htask).1.once
  rw [hqueue, List.count_cons_self] at honce
  omega

/-- A poll of a task begins. -/
theorem run (htracks : Tracks history executor) {polls : Nat} {queue : List Nat}
    {frames : List (Frame V)} (hstack : executor.stack = .blockOn (.tick (polls + 1)) :: frames)
    (hqueue : executor.queue = task :: queue) (htask : executor.tasks task = some repr)
    (hborrow : repr.borrow = 0) (hpayload : repr.payload = .future) :
    Tracks (history ++ [.polled task])
      { executor.set task { repr with state := .idle, borrow := -1 } with
        queue, stack := .poll task :: .blockOn (.ran polls) :: frames } := by
  have hcount := htracks.popped hqueue htask
  obtain ⟨hnone, hended⟩ := (htracks.spawned htask).2.free_of_borrow hborrow
  rw [hstack, filter_cons_other rfl] at hnone
  have hlive : (Life.after task history).ended = false := by
    by_contra hnot
    exact hended (by simpa using hnot) hpayload
  have hafter : Life.after task (history ++ [Observation.polled task]) =
      { due := false, ended := false } := by
    simp [Life.next, hlive]
  apply htracks.pop hqueue
  · intro other hne
    have hnot : task ≠ other := hne.symm
    simp [hstack, Frame.on, hnot]
  · intro other hne
    simp [Life.next, hne.symm]
  · rw [hafter]
    constructor <;> simp [hcount, hpayload]
  · rw [hafter, List.filter_cons_of_pos (by simp [Frame.on]), filter_cons_other rfl, hnone]
    exact .poll rfl hpayload rfl

/-- A task without a future is popped. -/
theorem skip (htracks : Tracks history executor) {polls : Nat} {queue : List Nat}
    {frames : List (Frame V)} (hstack : executor.stack = .blockOn (.tick (polls + 1)) :: frames)
    (hqueue : executor.queue = task :: queue) (htask : executor.tasks task = some repr)
    (hborrow : repr.borrow = 0) (hpayload : repr.payload ≠ .future) :
    Tracks (history ++ [])
      { executor.set task { repr with state := .idle } with
        queue, stack := .blockOn (.ran polls) :: frames } := by
  obtain ⟨hplaced, hused⟩ := htracks.spawned htask
  have hcount := htracks.popped hqueue htask
  obtain ⟨hnone, -⟩ := hused.free_of_borrow hborrow
  rw [hstack, filter_cons_other rfl] at hnone
  have hended : (Life.after task history).ended = true := by
    by_contra hnot
    exact hpayload (hplaced.live (by simpa using hnot))
  have hafter : Life.after task (history ++ []) = Life.after task history := by simp
  apply htracks.pop hqueue
  · intro other _
    rw [hstack, filter_cons_other rfl, filter_cons_other rfl]
  · intro other _
    simp
  · rw [hafter]
    constructor <;> simp [hcount, hended]
  · rw [hafter, filter_cons_other rfl, hnone]
    exact .free hborrow fun _ => hpayload

/-- A frame that uses a task ends and releases the borrow. -/
theorem release (htracks : Tracks history executor) {frame : Frame V} {frames : List (Frame V)}
    (hstack : executor.stack = frame :: frames) (htask : executor.tasks task = some repr)
    (hframe : frame = .poll task ∨ frame = .cancel task ∨ ∃ waker, frame = .join task waker) :
    Tracks history (Executor.release { executor with stack := frames } task repr) := by
  obtain ⟨hplaced, hused⟩ := htracks.spawned htask
  apply htracks.writeSilent
  · intro other hne
    have hother : frame.on other = false := by
      rcases hframe with rfl | rfl | ⟨waker, rfl⟩ <;> simp [Frame.on, hne.symm]
    rw [hstack, filter_cons_other hother]
  · exact { hplaced with }
  · have hself : frame.on task = true := by
      rcases hframe with rfl | rfl | ⟨waker, rfl⟩ <;> simp [Frame.on]
    rw [hstack, List.filter_cons_of_pos hself] at hused
    generalize frames.filter (Frame.on task) = used at hused ⊢
    cases hused with
    | poll hborrow hpayload hlive =>
        exact .free (by rw [hborrow]; rfl) fun hended => by rw [hlive] at hended; cases hended
    | complete value hborrow hended => rcases hframe with heq | heq | ⟨waker, heq⟩ <;> cases heq
    | cancel hborrow hpayload hended =>
        exact .free (by rw [hborrow]; rfl) fun _ h => by rw [hpayload] at h; cases h
    | join waker hborrow hpayload hlive =>
        exact .free (by rw [hborrow]; rfl) fun hended => by rw [hlive] at hended; cases hended

/-- A poll of a task returns `Ready`: the destructor of the future runs next. -/
theorem finish (htracks : Tracks history executor) {frames : List (Frame V)} (value : V)
    (hstack : executor.stack = .poll task :: frames) (htask : executor.tasks task = some repr) :
    Tracks (history ++ [.finished task])
      { executor with stack := .complete task value :: frames } := by
  obtain ⟨hplaced, hused⟩ := htracks.spawned htask
  have hself : (Frame.poll task : Frame V).on task = true := by simp [Frame.on]
  rw [hstack, List.filter_cons_of_pos hself] at hused
  have hafter : Life.after task (history ++ [Observation.finished task]) =
      { due := (Life.after task history).due, ended := true } := by
    simp [Life.next]
  refine htracks.changed task (fun other hne => ?_) (fun other hne => ?_) htask ?_ ?_
  · have hnot : task ≠ other := hne.symm
    simp [Executor.view, hstack, Frame.on, hnot]
  · simp [Life.next, hne.symm]
  · rw [hafter]
    exact hplaced.of_ended (by rfl) _
  · rw [hafter, List.filter_cons_of_pos (by simp [Frame.on])]
    generalize frames.filter (Frame.on task) = used at hused ⊢
    cases hused with
    | poll hborrow hpayload hlive => exact .complete value hborrow rfl

/-- The end of the destructor of a future that returned `Ready`. -/
theorem complete (htracks : Tracks history executor) {frames : List (Frame V)} {value : V}
    (hstack : executor.stack = .complete task value :: frames)
    (htask : executor.tasks task = some repr) :
    Tracks (history ++ (Executor.complete { executor with stack := frames } task repr value).2)
      (Executor.complete { executor with stack := frames } task repr value).1 := by
  obtain ⟨hplaced, hused⟩ := htracks.spawned htask
  have hself : (Frame.complete task value : Frame V).on task = true := by simp [Frame.on]
  rw [hstack, List.filter_cons_of_pos hself] at hused
  let done : TaskRepr V :=
    { repr with
      awaiter := none
      state := .done
      payload := .output value
      borrow := RefCell.dropRefMut repr.borrow }
  have hdone : Tracks history { executor.set task done with stack := frames } := by
    generalize hframes : frames.filter (Frame.on task) = used at hused
    cases hused with
    | complete _ hborrow hended =>
        apply htracks.writeSilent
        · intro other hne
          rw [hstack, filter_cons_other (by simp [Frame.on, hne.symm])]
        · exact
            { once := hplaced.once
              scheduled := fun h => by cases h
              idle := fun h => by cases h
              done := fun _ => hended
              due := fun _ h => by rw [hended] at h; cases h
              live := fun h => by rw [hended] at h; cases h }
        · rw [hframes]
          exact .free (by simp [done, hborrow, RefCell.dropRefMut]) fun _ h => by cases h
  simp only [Executor.complete]
  cases repr.awaiter with
  | none =>
      simp only [List.append_nil]
      exact hdone
  | some waker => exact hdone.wake waker

/-- A task is cancelled. -/
theorem cancel (htracks : Tracks history executor) (htask : executor.tasks task = some repr)
    (output : Option V) {repr' : TaskRepr V} {stack : List (Frame V)}
    (hstate : repr'.state = repr.state)
    (hothers : ∀ other, other ≠ task →
      stack.filter (Frame.on other) = executor.stack.filter (Frame.on other))
    (hused : ∀ due, Used task { due, ended := true } repr' (stack.filter (Frame.on task))) :
    Tracks (history ++ [.cancelled task output]) { executor.set task repr' with stack } := by
  have hafter : Life.after task (history ++ [Observation.cancelled task output]) =
      { due := (Life.after task history).due, ended := true } := by
    simp [Life.next]
  apply htracks.write hothers
  · intro other hne
    simp [Life.next, hne.symm]
  · rw [hafter]
    exact (htracks.spawned htask).1.of_ended hstate _
  · rw [hafter]
    exact hused _

/-- Nothing about tasks is observed when a `JoinHandle` is polled. -/
theorem joined (htracks : Tracks history executor) (task : Nat) (waker : Waker)
    (result : Poll V) : Tracks (history ++ [.joined task waker result]) executor :=
  htracks.unchanged (fun _ => rfl) (fun other => by simp [Life.next])

/-- A poll of a `JoinHandle` borrows the payload to store the waker. -/
theorem lend (htracks : Tracks history executor) (waker : Waker)
    (htask : executor.tasks task = some repr) (hborrow : repr.borrow = 0)
    (hpayload : repr.payload = .future) :
    Tracks history
      { executor.set task { repr with borrow := -1 } with
        stack := .join task (some waker) :: executor.stack } := by
  obtain ⟨hplaced, hused⟩ := htracks.spawned htask
  obtain ⟨hnone, hended⟩ := hused.free_of_borrow hborrow
  have hlive : (Life.after task history).ended = false := by
    by_contra hnot
    exact hended (by simpa using hnot) hpayload
  apply htracks.writeSilent
  · intro other hne
    rw [filter_cons_other (by simp [Frame.on, hne.symm])]
  · exact { hplaced with }
  · rw [List.filter_cons_of_pos (by simp [Frame.on]), hnone]
    exact .join (some waker) rfl hpayload hlive

/-- The waker is stored, and the payload stays borrowed. -/
theorem store (htracks : Tracks history executor) {waker : Waker} {frames : List (Frame V)}
    (hstack : executor.stack = .join task (some waker) :: frames)
    (htask : executor.tasks task = some repr) :
    Tracks history
      { executor.set task { repr with awaiter := some waker } with
        stack := .join task none :: frames } := by
  obtain ⟨hplaced, hused⟩ := htracks.spawned htask
  have hself : (Frame.join task (some waker) : Frame V).on task = true := by simp [Frame.on]
  rw [hstack, List.filter_cons_of_pos hself] at hused
  apply htracks.writeSilent
  · intro other hne
    rw [hstack, filter_cons_other (by simp [Frame.on, hne.symm]),
      filter_cons_other (by simp [Frame.on, hne.symm])]
  · exact { hplaced with }
  · rw [List.filter_cons_of_pos (by simp [Frame.on])]
    generalize frames.filter (Frame.on task) = used at hused ⊢
    cases hused with
    | join _ hborrow hpayload hlive => exact .join none hborrow hpayload hlive

/-- The edges of the loop concern no task. -/
theorem loop (htracks : Tracks history executor) {op : Executor.Op V} {pc pc' : Pc}
    {woke : Bool} {events : List (Observation V)} {frames : List (Frame V)}
    (hstack : executor.stack = .blockOn pc :: frames)
    (hgoto : executor.Goto op pc pc' woke events) :
    Tracks (history ++ events) { executor with woke, stack := .blockOn pc' :: frames } := by
  apply htracks.reframe
  · intro task
    rw [hstack, filter_cons_other rfl, filter_cons_other rfl]
  · intro task
    cases hgoto <;> simp [Life.next]

/-- Every step keeps the executor consistent with what was observed. -/
theorem step (htracks : Tracks history executor) {op : Executor.Op V}
    {events : List (Observation V)} (hstep : executor.step op = .next last events) :
    Tracks (history ++ events) last := by
  have hsilent : Tracks history last → Tracks (history ++ []) last := by
    rw [List.append_nil]
    exact id
  cases Executor.step_move hstep with
  | loop hstack hgoto => exact htracks.loop hstack hgoto
  | run hstack hqueue htask hborrow hpayload =>
      exact htracks.run hstack hqueue htask hborrow hpayload
  | skip hstack hqueue htask hborrow hpayload =>
      exact htracks.skip hstack hqueue htask hborrow hpayload
  | @handed waker wakers frames hstack =>
      have hpopped : Tracks (history ++ [])
          { executor with stack := .blockOn (.waking wakers) :: frames } :=
        htracks.reframe (fun task => by rw [hstack, filter_cons_other rfl, filter_cons_other rfl])
          (fun task => by simp)
      rw [List.append_nil] at hpopped
      exact hpopped.wake waker
  | leave hstack =>
      exact htracks.reframe (fun task => by rw [hstack, filter_cons_other rfl])
        (fun task => by simp)
  | finish hstack htask => exact htracks.finish _ hstack htask
  | complete hstack htask => exact htracks.complete hstack htask
  | pending hstack htask => exact hsilent (htracks.release hstack htask (.inl rfl))
  | endCancel hstack htask => exact hsilent (htracks.release hstack htask (.inr (.inl rfl)))
  | store hstack htask => exact (htracks.store hstack htask).joined _ _ _
  | endJoin hstack htask =>
      exact hsilent (htracks.release hstack htask (.inr (.inr ⟨none, rfl⟩)))
  | blockOn huser =>
      exact htracks.reframe (fun task => filter_cons_other rfl) (fun task => by simp)
  | spawn huser htask => exact htracks.spawn htask
  | wake huser => exact htracks.wake _
  | @joinReady task repr waker value huser htask hhandle hborrow hpayload =>
      obtain ⟨hplaced, hused⟩ := htracks.spawned htask
      obtain ⟨hnone, -⟩ := hused.free_of_borrow hborrow
      have hended : (Life.after task history).ended = true := by
        by_contra hnot
        have hfuture := hplaced.live (by simpa using hnot)
        rw [hpayload] at hfuture
        cases hfuture
      refine (htracks.set ?_ ?_).joined task waker _
      · exact { hplaced with live := fun h => by rw [hended] at h; cases h }
      · rw [hnone]
        exact .free hborrow fun _ h => by cases h
  | joinPending huser htask hhandle hborrow hpayload =>
      exact hsilent (htracks.lend _ htask hborrow hpayload)
  | @cancelFuture task repr huser htask hhandle hborrow hpayload =>
      obtain ⟨hnone, -⟩ := (htracks.spawned htask).2.free_of_borrow hborrow
      apply htracks.cancel htask none (by rfl)
      · intro other hne
        rw [filter_cons_other (by simp [Frame.on, hne.symm])]
      · intro due
        rw [List.filter_cons_of_pos (by simp [Frame.on]), hnone]
        exact .cancel rfl rfl rfl
  | @cancelDone task repr output huser htask hhandle hborrow hpayload =>
      obtain ⟨hnone, -⟩ := (htracks.spawned htask).2.free_of_borrow hborrow
      apply htracks.cancel htask output (by rfl) (fun _ _ => rfl)
      intro due
      rw [hnone]
      exact .free hborrow fun _ h => by cases h
  | dropHandle huser htask hhandle =>
      obtain ⟨hplaced, hused⟩ := htracks.spawned htask
      exact hsilent (htracks.set { hplaced with } (hused.of_eq rfl rfl rfl))

end Tracks

end Platoon.Runtime
