import Platoon.Runtime.Nesting

/-!
# Wakers on their way

What the parker hands out is owed to its tasks by the loop that parked.  Each
waker is invoked by that loop; the task or the main future that it belongs to is
scheduled from then on, until a poll of it begins.
-/

namespace Platoon.Runtime.Executor

open Platoon.Foundation Platoon.Rust

variable {V : Type}

/-- A loop on the stack still has to invoke the waker. -/
def OwedIn (stack : List (Frame V)) (waker : Waker) : Prop :=
  ∃ wakers, Frame.blockOn (.waking wakers) ∈ stack ∧ waker ∈ wakers

def Owed (executor : Executor V) (waker : Waker) : Prop := OwedIn executor.stack waker

/-- What the waker belongs to will be polled. -/
def Scheduled (executor : Executor V) : Waker → Prop
  | .main => executor.woke = true
  | .task task => task ∈ executor.queue
  | .foreign _ => False

/-- The poll that a wake asks for. -/
def pollOf : Waker → Option (Observation V)
  | .main => some .mainPolled
  | .task task => some (.polled task)
  | .foreign _ => none

/-- What the waker belongs to can still be woken: a main future, or a task that has
neither finished nor been cancelled. -/
def Wakeable (executor : Executor V) (observed : List (Observation V)) : Waker → Prop
  | .main => True
  | .task task => (executor.tasks task).isSome = true ∧ .finished task ∉ observed ∧
      ∀ output, .cancelled task output ∉ observed
  | .foreign _ => False

/-- What the waker belongs to waits for it: it can be woken, no poll of it began in the later
part of what was observed, and it is not a main future whose flag is set. -/
structure Asleep (executor : Executor V) (observed later : List (Observation V))
    (waker : Waker) : Prop where
  wakeable : executor.Wakeable observed waker
  unpolled : ∀ event, pollOf waker = some event → event ∉ later
  flag : waker = .main → executor.woke = false

section Owed

variable {executor last : Executor V} {op : Op V} {events : List (Observation V)}
  {waker : Waker} {stack stack' : List (Frame V)}

theorem OwedIn.mono (howed : OwedIn stack waker) (hsub : stack ⊆ stack') :
    OwedIn stack' waker := by
  obtain ⟨wakers, hframe, hmem⟩ := howed
  exact ⟨wakers, hsub hframe, hmem⟩

/-- The innermost frame owes the waker, or another one does. -/
theorem OwedIn.cons_cases {frame : Frame V} {frames : List (Frame V)}
    (howed : OwedIn (frame :: frames) waker) :
    (∃ wakers, frame = .blockOn (.waking wakers) ∧ waker ∈ wakers) ∨ OwedIn frames waker := by
  obtain ⟨wakers, hframe, hmem⟩ := howed
  rcases List.mem_cons.mp hframe with rfl | hframes
  · exact .inl ⟨wakers, rfl, hmem⟩
  · exact .inr ⟨wakers, hframes, hmem⟩

/-- A frame that owes nothing can be left or replaced. -/
theorem OwedIn.replace {frame : Frame V} {frames : List (Frame V)} (howed : Owed executor waker)
    (hstack : executor.stack = frame :: frames)
    (hframe : ∀ wakers, frame = .blockOn (.waking wakers) → wakers = [])
    (hsub : frames ⊆ last.stack) : Owed last waker := by
  rw [Owed, hstack] at howed
  rcases howed.cons_cases with ⟨wakers, heq, hmem⟩ | hframes
  · rw [hframe wakers heq] at hmem
    cases hmem
  · exact hframes.mono hsub

/-- A waker that is owed stays owed until it is invoked. -/
theorem owed_step (howed : Owed executor waker) (hstep : executor.step op = .next last events) :
    Owed last waker ∨ .invoked waker ∈ events := by
  cases step_move hstep with
  | loop hstack hgoto =>
      refine .inl (OwedIn.replace howed hstack ?_ (List.subset_cons_self _ _))
      rintro wakers heq
      cases heq
      cases hgoto with
      | allWoken => rfl
  | run hstack =>
      refine .inl (OwedIn.replace howed hstack (by simp) ?_)
      exact List.Subset.trans (List.subset_cons_self _ _) (List.subset_cons_self _ _)
  | skip hstack =>
      exact .inl (OwedIn.replace howed hstack (by simp) (List.subset_cons_self _ _))
  | @handed other wakers frames hstack =>
      rw [Owed, hstack] at howed
      rcases howed.cons_cases with ⟨all, heq, hmem⟩ | hframes
      · cases heq
        rcases List.mem_cons.mp hmem with rfl | hrest
        · exact .inr (by simp)
        · exact .inl ⟨wakers, by simp, hrest⟩
      · exact .inl (hframes.mono (by simp))
  | leave hstack => exact .inl (OwedIn.replace howed hstack (by simp) (List.Subset.refl _))
  | finish hstack =>
      exact .inl (OwedIn.replace howed hstack (by simp) (List.subset_cons_self _ _))
  | complete hstack =>
      exact .inl (OwedIn.replace howed hstack (by simp) (by simp))
  | pending hstack => exact .inl (OwedIn.replace howed hstack (by simp) (List.Subset.refl _))
  | endCancel hstack => exact .inl (OwedIn.replace howed hstack (by simp) (List.Subset.refl _))
  | store hstack =>
      exact .inl (OwedIn.replace howed hstack (by simp) (List.subset_cons_self _ _))
  | endJoin hstack => exact .inl (OwedIn.replace howed hstack (by simp) (List.Subset.refl _))
  | blockOn huser => exact .inl (OwedIn.mono howed (List.subset_cons_self _ _))
  | joinPending => exact .inl (OwedIn.mono howed (List.subset_cons_self _ _))
  | cancelFuture => exact .inl (OwedIn.mono howed (List.subset_cons_self _ _))
  | wake huser => exact .inl (OwedIn.mono howed (by simp))
  | _ => exact .inl howed

/-- The parker hands wakers out: the loop owes them. -/
theorem owed_of_parked {wakers : List Waker} (hmem : waker ∈ wakers)
    (hstep : executor.step (.parkReturns (some wakers)) = .next last events) :
    Owed last waker := by
  cases step_move hstep with
  | loop hstack hgoto =>
      cases hgoto with
      | parked => exact ⟨wakers, List.mem_cons_self, hmem⟩
      | parkedTimeout => exact ⟨wakers, List.mem_cons_self, hmem⟩

end Owed

section Scheduled

variable {executor last : Executor V} {before after : List (Op V × List (Observation V))}
  {waker : Waker}

/-- A task that was woken since its latest poll began, and has not ended, is queued. -/
theorem queued_of_woken {task : Nat} {observed front rest : List (Observation V)}
    (htracks : Tracks observed executor)
    (hobserved : observed = front ++ .invoked (.task task) :: rest)
    (hrest : .polled task ∉ rest) (hsome : (executor.tasks task).isSome = true)
    (hfinished : .finished task ∉ observed)
    (hcancelled : ∀ output, .cancelled task output ∉ observed) : task ∈ executor.queue := by
  obtain ⟨repr, htask⟩ := Option.isSome_iff_exists.mp hsome
  have hplaced := (htracks.spawned htask).1
  have hdue : (Life.after task observed).due = true := by
    rw [hobserved]
    exact Life.due_after hrest
  have hlive : (Life.after task observed).ended = false := by
    by_contra hended
    rcases Life.ended_after.mp (by simpa using hended) with hmem | ⟨output, hmem⟩
    · exact hfinished hmem
    · exact hcancelled output hmem
  have hcount := hplaced.scheduled (hplaced.due hdue hlive)
  exact List.count_pos_iff.mp (by omega)

/-- What a waker belongs to is scheduled once the waker was invoked, until a poll begins. -/
theorem scheduled_of_invoked (hbefore : system.Run new before executor)
    (hafter : system.Run executor after last) (hmem : .invoked waker ∈ history after)
    (hunpolled : ∀ event, pollOf waker = some event → event ∉ history after)
    (hwakeable : Wakeable last (history (before ++ after)) waker) : Scheduled last waker := by
  cases waker with
  | main =>
      have hasked : asked executor.woke (history after) = true :=
        asked_iff.mpr (.inl (askedLast_of_mem hmem (hunpolled _ rfl)))
      have hagrees := run_agrees hafter
      rw [hasked] at hagrees
      rcases hagrees with hwoke | ⟨hwoke, -⟩
      · exact hwoke
      · exact hwoke
  | task task =>
      obtain ⟨hsome, hfinished, hcancelled⟩ := hwakeable
      obtain ⟨front, rest, hsplit⟩ := List.append_of_mem hmem
      have hrest : .polled task ∉ rest := fun hpolled =>
        hunpolled _ rfl (by simp [hsplit, hpolled])
      have hobserved : history (before ++ after) =
          (history before ++ front) ++ .invoked (.task task) :: rest := by
        rw [List.append_assoc, ← hsplit, history, List.flatMap_append]
        rfl
      exact queued_of_woken (run_tracks (hbefore.trans hafter)) hobserved hrest hsome hfinished
        hcancelled
  | foreign name => exact hwakeable.elim

end Scheduled

section Rests

/-- Only the innermost frame can be one of a loop at work, and a loop that calls `park`
left the queue empty. -/
structure Rests (executor : Executor V) : Prop where
  outer : ∀ frame ∈ executor.stack.tail, frame.userRuns = true
  park : ∀ {frames : List (Frame V)}, executor.stack = .blockOn .park :: frames →
    executor.queue = []

namespace Rests

variable {executor last : Executor V}

theorem new : Rests (Executor.new : Executor V) where
  outer _ hmem := by cases hmem
  park hstack := by cases hstack

theorem below (hrests : Rests executor) {frame : Frame V} {frames : List (Frame V)}
    (hstack : executor.stack = frame :: frames) : ∀ inner ∈ frames, inner.userRuns = true := by
  have houter := hrests.outer
  rwa [hstack, List.tail_cons] at houter

/-- All frames run code of the clients when the innermost one does. -/
theorem user (hrests : Rests executor) (huser : executor.userRuns = true) :
    ∀ frame ∈ executor.stack, frame.userRuns = true := by
  cases hstack : executor.stack with
  | nil => simp
  | cons frame frames =>
      simp only [userRuns, hstack] at huser
      intro inner hmem
      rcases List.mem_cons.mp hmem with rfl | hinner
      · exact huser
      · exact hrests.below hstack inner hinner

/-- Nothing more is claimed unless the loop parks. -/
theorem of_head {frame : Frame V} {frames : List (Frame V)}
    (hstack : executor.stack = frame :: frames)
    (hhead : frame = .blockOn .park → executor.queue = [])
    (houter : ∀ inner ∈ frames, inner.userRuns = true) : Rests executor where
  outer := by rwa [hstack]
  park hpark := by
    rw [hstack] at hpark
    cases hpark
    exact hhead rfl

theorem of_user (houter : ∀ frame ∈ executor.stack, frame.userRuns = true) :
    Rests executor := by
  cases hstack : executor.stack with
  | nil =>
      exact
        { outer := by simp [hstack]
          park := fun hpark => by rw [hstack] at hpark; cases hpark }
  | cons frame frames =>
      rw [hstack] at houter
      refine of_head hstack ?_ fun inner hmem => houter inner (List.mem_cons_of_mem _ hmem)
      rintro rfl
      have huser := houter _ List.mem_cons_self
      cases huser

theorem step (hrests : Rests executor) {op : Op V} {events : List (Observation V)}
    (hstep : executor.step op = .next last events) : Rests last := by
  cases step_move hstep with
  | loop hstack hgoto =>
      refine of_head rfl (fun heq => ?_) (hrests.below hstack)
      cases heq
      cases hgoto with
      | park hqueue => exact hqueue
  | run hstack =>
      refine of_head rfl (by simp) fun inner hmem => ?_
      rcases List.mem_cons.mp hmem with rfl | hinner
      · rfl
      · exact hrests.below hstack inner hinner
  | skip hstack => exact of_head rfl (by simp) (hrests.below hstack)
  | handed hstack => exact of_head (stack_wake _) (by simp) (hrests.below hstack)
  | leave hstack => exact of_user (hrests.below hstack)
  | finish hstack => exact of_head rfl (by simp) (hrests.below hstack)
  | complete hstack =>
      apply of_user
      rw [stack_complete]
      exact hrests.below hstack
  | pending hstack => exact of_user (hrests.below hstack)
  | endCancel hstack => exact of_user (hrests.below hstack)
  | store hstack => exact of_head rfl (by simp) (hrests.below hstack)
  | endJoin hstack => exact of_user (hrests.below hstack)
  | blockOn huser => exact of_head rfl (by simp) (hrests.user huser)
  | wake huser =>
      apply of_user
      rw [stack_wake]
      exact hrests.user huser
  | joinPending huser => exact of_head rfl (by simp) (hrests.user huser)
  | cancelFuture huser => exact of_head rfl (by simp) (hrests.user huser)
  | spawn huser => exact of_user (hrests.user huser)
  | joinReady huser => exact of_user (hrests.user huser)
  | cancelDone huser => exact of_user (hrests.user huser)
  | dropHandle huser => exact of_user (hrests.user huser)

end Rests

/-- The frames of every run are at rest. -/
theorem run_rests {trace : List (Op V × List (Observation V))} {executor : Executor V}
    (hrun : system.Run new trace executor) : Rests executor :=
  hrun.preserves Rests Rests.new fun hrests hstep => hrests.step hstep

/-- When the innermost loop is about to call `park`, the waker of what is asleep was not
invoked. -/
theorem not_invoked_of_parks {executor last : Executor V}
    {before after : List (Op V × List (Observation V))} {frames : List (Frame V)} {waker : Waker}
    (hbefore : system.Run new before executor) (hafter : system.Run executor after last)
    (hparks : last.stack = .blockOn .park :: frames)
    (hasleep : last.Asleep (history (before ++ after)) (history after) waker) :
    .invoked waker ∉ history after := by
  intro hinvoked
  have hscheduled :=
    scheduled_of_invoked hbefore hafter hinvoked hasleep.unpolled hasleep.wakeable
  cases waker with
  | main =>
      rw [Scheduled, hasleep.flag rfl] at hscheduled
      cases hscheduled
  | task task =>
      have hrests := run_rests (hbefore.trans hafter)
      rw [Scheduled, hrests.park hparks] at hscheduled
      cases hscheduled
  | foreign name => exact hscheduled.elim

end Rests

end Platoon.Runtime.Executor
