import Platoon.Runtime.ExecutorSteps

/-!
# Parking

The loop parks with nothing to do, unless the main future was woken in its own
poll while the queue was empty: the flag is read after each task, but not
between the poll of the main future and the park.
-/

namespace Platoon.Runtime.Executor

open Platoon.Foundation Platoon.Rust

variable {V : Type}

section Parking

variable {executor last : Executor V} {trace : List (Op V × List (Observation V))}

/-- The loop is about to call `park`. -/
def parks (executor : Executor V) : Bool :=
  match executor.stack with
  | .blockOn .park :: _ => true
  | _ => false

/-- A poll of the main future returns `Pending` only with its waker not invoked or with a
task to run. -/
def leavesWork (executor : Executor V) : Op V → Bool
  | .ret .pending =>
      match executor.stack with
      | .blockOn .pollMain :: _ => !executor.woke || !executor.queue.isEmpty
      | _ => true
  | _ => true

/-- What the frames say about the flag and the queue. -/
structure Idle (executor : Executor V) : Prop where
  outer : ∀ frame ∈ executor.stack.tail, frame.userRuns = true
  tick : ∀ {polls : Nat} {frames : List (Frame V)},
    executor.stack = .blockOn (.tick polls) :: frames →
    executor.woke = true → executor.queue ≠ []
  park : ∀ {frames : List (Frame V)}, executor.stack = .blockOn .park :: frames →
    executor.queue = [] ∧ executor.woke = false

namespace Idle

theorem new : Idle (Executor.new : Executor V) where
  outer _ hmem := by cases hmem
  tick hstack := by cases hstack
  park hstack := by cases hstack

/-- Nothing is claimed while code of the clients can run, or at the head of the loop. -/
theorem of_head {frame : Frame V} {frames : List (Frame V)}
    (hstack : executor.stack = frame :: frames)
    (hhead : frame.userRuns = true ∨ frame = .blockOn .top ∨ frame = .blockOn .parkTimeout)
    (houter : ∀ inner ∈ frames, inner.userRuns = true) : Idle executor where
  outer := by rwa [hstack]
  tick htick := by
    rw [hstack] at htick
    cases htick
    rcases hhead with huser | heq | heq
    · cases huser
    · cases heq
    · cases heq
  park hpark := by
    rw [hstack] at hpark
    cases hpark
    rcases hhead with huser | heq | heq
    · cases huser
    · cases heq
    · cases heq

/-- Nothing is claimed when all frames run code of the clients. -/
theorem of_user (houter : ∀ frame ∈ executor.stack, frame.userRuns = true) : Idle executor := by
  cases hstack : executor.stack with
  | nil =>
      exact
        { outer := by simp [hstack]
          tick := fun htick => by rw [hstack] at htick; cases htick
          park := fun hpark => by rw [hstack] at hpark; cases hpark }
  | cons frame frames =>
      rw [hstack] at houter
      exact of_head hstack (.inl (houter frame List.mem_cons_self))
        fun inner hmem => houter inner (List.mem_cons_of_mem _ hmem)

/-- All frames run code of the clients when the innermost one does. -/
theorem user (hidle : Idle executor) (huser : executor.userRuns = true) :
    ∀ frame ∈ executor.stack, frame.userRuns = true := by
  have houter := hidle.outer
  simp only [userRuns] at huser
  split at huser
  · rename_i hstack
    simp [hstack]
  · rename_i hstack
    rw [hstack, List.tail_cons] at houter
    intro inner hmem
    rw [hstack] at hmem
    rcases List.mem_cons.mp hmem with rfl | hinner
    · exact huser
    · exact houter inner hinner

end Idle

/-- An edge of the loop leaves the flag clear or a task queued where the loop relies on it. -/
theorem Idle.loop (hidle : Idle executor) {op : Op V} {pc pc' : Pc} {woke : Bool}
    {events : List (Observation V)} {frames : List (Frame V)}
    (hwork : leavesWork executor op = true) (hstack : executor.stack = .blockOn pc :: frames)
    (hgoto : Goto executor op pc pc' woke events) :
    Idle { executor with woke, stack := .blockOn pc' :: frames } := by
  have houter : ∀ inner ∈ frames, inner.userRuns = true := by
    have houter := hidle.outer
    rwa [hstack, List.tail_cons] at houter
  have hclear : ∀ polls, Idle
      { executor with woke := false, stack := .blockOn (.tick polls) :: frames } := by
    intro polls
    exact
      { outer := houter
        tick := fun _ hwoke => by cases hwoke
        park := fun hpark => by cases hpark }
  cases hgoto with
  | pollMain hwoke => exact of_head rfl (.inl rfl) houter
  | startTick hwoke => exact hclear _
  | endTick => exact of_head rfl (.inr (.inr rfl)) houter
  | park hqueue =>
      refine
        { outer := houter
          tick := fun htick => by cases htick
          park := fun _ => ⟨hqueue, ?_⟩ }
      by_contra hwoke
      exact hidle.tick hstack (by simpa using hwoke) hqueue
  | wokeMain hwoke => exact of_head rfl (.inr (.inl rfl)) houter
  | nextTask hwoke => exact hclear _
  | allWoken => exact of_head rfl (.inr (.inl rfl)) houter
  | parked => exact of_head rfl (.inl rfl) houter
  | parkedTimeout => exact of_head rfl (.inl rfl) houter
  | mainReady => exact of_head rfl (.inl rfl) houter
  | mainPending =>
      simp only [leavesWork, hstack, Bool.or_eq_true, Bool.not_eq_true',
        List.isEmpty_eq_false_iff] at hwork
      refine
        { outer := houter
          tick := fun _ hwoke => ?_
          park := fun hpark => by cases hpark }
      rcases hwork with hflag | hqueue
      · rw [hwoke] at hflag
        cases hflag
      · exact hqueue

/-- A conforming step keeps what the frames say. -/
theorem Idle.step (hidle : Idle executor) {op : Op V} {events : List (Observation V)}
    (hwork : leavesWork executor op = true) (hstep : executor.step op = .next last events) :
    Idle last := by
  have hbelow : ∀ {frame : Frame V} {frames : List (Frame V)},
      executor.stack = frame :: frames → ∀ inner ∈ frames, inner.userRuns = true := by
    intro frame frames hstack
    have houter := hidle.outer
    rwa [hstack, List.tail_cons] at houter
  cases step_move hstep with
  | loop hstack hgoto => exact hidle.loop hwork hstack hgoto
  | run hstack hqueue htask hborrow hpayload =>
      refine of_head rfl (.inl rfl) fun inner hmem => ?_
      rcases List.mem_cons.mp hmem with rfl | hinner
      · rfl
      · exact hbelow hstack inner hinner
  | skip hstack hqueue htask hborrow hpayload => exact of_head rfl (.inl rfl) (hbelow hstack)
  | handed hstack => exact of_head (stack_wake _) (.inl rfl) (hbelow hstack)
  | leave hstack => exact of_user (hbelow hstack)
  | finish hstack htask => exact of_head rfl (.inl rfl) (hbelow hstack)
  | complete hstack htask =>
      apply of_user
      rw [stack_complete]
      exact hbelow hstack
  | pending hstack htask => exact of_user (hbelow hstack)
  | endCancel hstack htask => exact of_user (hbelow hstack)
  | store hstack htask => exact of_head rfl (.inl rfl) (hbelow hstack)
  | endJoin hstack htask => exact of_user (hbelow hstack)
  | blockOn huser => exact of_head rfl (.inr (.inl rfl)) (hidle.user huser)
  | spawn huser htask => exact of_user (hidle.user huser)
  | wake huser =>
      apply of_user
      rw [stack_wake]
      exact hidle.user huser
  | joinReady huser htask hhandle hborrow hpayload => exact of_user (hidle.user huser)
  | joinPending huser htask hhandle hborrow hpayload =>
      exact of_head rfl (.inl rfl) (hidle.user huser)
  | cancelFuture huser htask hhandle hborrow hpayload =>
      exact of_head rfl (.inl rfl) (hidle.user huser)
  | cancelDone huser htask hhandle hborrow hpayload => exact of_user (hidle.user huser)
  | dropHandle huser htask hhandle => exact of_user (hidle.user huser)

/-- Over every run in which the polls of the main future leave work: the loop parks with an
empty queue and a clear flag.  The first poll that does not is followed by a park with the
flag set. -/
theorem parks_only_idle
    (hrun : (system.restrict leavesWork).Run (new : Executor V) trace executor) :
    (executor.parks = true → executor.queue = [] ∧ executor.woke = false) ∧
      ∀ middle events, leavesWork executor (.ret .pending) = false →
        system.step executor (.ret .pending) = .next middle events →
        ∃ parked, system.step middle .advance = .next parked [] ∧
          parked.parks = true ∧ parked.woke = true := by
  have hidle : Idle executor := by
    refine hrun.preserves Idle Idle.new fun hidle hstep => ?_
    obtain ⟨hleaves, hstep⟩ := System.restrict_step.mp hstep
    exact hidle.step hleaves hstep
  refine ⟨fun hparks => ?_, fun middle events hwork hstep => ?_⟩
  · simp only [parks] at hparks
    split at hparks
    · rename_i frames hstack
      exact hidle.park hstack
    · cases hparks
  · simp only [leavesWork] at hwork
    split at hwork
    · rename_i frames hstack
      simp only [Bool.or_eq_false_iff, Bool.not_eq_false', List.isEmpty_iff] at hwork
      obtain ⟨hwoke, hqueue⟩ := hwork
      simp only [system, Executor.step, ret, hstack] at hstep
      cases hstep
      refine ⟨{ executor with stack := .blockOn .park :: frames }, ?_, rfl, hwoke⟩
      simp [system, Executor.step, advance, POLLS_PER_TICK, hqueue]
    · cases hwork

end Parking

/-- Whether a step is taken without entering `block_on` again. -/
def notNested (executor : Executor V) : Op V → Bool
  | .blockOn => executor.stack.isEmpty
  | _ => true

/-- A main future that awaits `yield_now` with no task spawned. -/
def yieldNow : List (Op Nat) :=
  [.blockOn, .advance, .wake .main, .ret .pending, .advance]

/-- The loop parks although the main future has yielded. -/
theorem yieldNow_parks :
    ∃ trace executor, (system.restrict notNested).Run (new : Executor Nat) trace executor ∧
      trace.map Prod.fst = yieldNow ∧ executor.parks = true ∧ executor.woke = true := by
  have hcheck : ((system.restrict notNested).exec (new : Executor Nat) yieldNow).any
      (fun result => decide (result.1.map Prod.fst = yieldNow) &&
        result.2.parks && result.2.woke) = true := by decide
  obtain ⟨trace, executor, hrun, hpass⟩ := System.exec_check hcheck
  simp only [Bool.and_eq_true, decide_eq_true_eq] at hpass
  exact ⟨trace, executor, hrun, hpass.1.1, hpass.1.2, hpass.2⟩

/-- A main future that waits for one task, which finishes without waking it. -/
def detached : List (Op Nat) :=
  [.blockOn, .advance, .spawn 0, .ret .pending, .advance, .ret (.ready 5), .advance, .advance,
    .advance]

theorem parks_only_idle_detached :
    ∃ trace executor, (system.restrict leavesWork).Run (new : Executor Nat) trace executor ∧
      executor.parks = true ∧ executor.queue = [] ∧ executor.woke = false := by
  have hcheck : ((system.restrict leavesWork).exec (new : Executor Nat) detached).any
      (fun result => result.2.parks) = true := by decide
  obtain ⟨trace, executor, hrun, hparks⟩ := System.exec_check hcheck
  exact ⟨trace, executor, hrun, hparks, (parks_only_idle hrun).1 hparks⟩

end Platoon.Runtime.Executor
