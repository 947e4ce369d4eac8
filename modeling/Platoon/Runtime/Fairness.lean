import Platoon.Runtime.Owed
import Platoon.Runtime.YieldNow

/-!
# No task starves

A queued task is run after those before it in the queue and nobody else.  Until then
each turn of a loop at the main future, and each call of the parker, is paid for by tasks
that were run: a loop polls its main future once for a task, and turns to the parker once
a tick, without letting it block.
-/

namespace Platoon.Runtime.Executor

open Platoon.Foundation Platoon.Rust

variable {V : Type}

def isMainPolled : Observation V → Bool
  | .mainPolled => true
  | _ => false

/-- How many polls of main futures began. -/
def mainPolls (trace : List (Op V × List (Observation V))) : Nat :=
  (history trace).countP isMainPolled

def isBlockOn : Op V → Bool
  | .blockOn => true
  | _ => false

/-- How many loops were entered. -/
def entered (trace : List (Op V × List (Observation V))) : Nat :=
  trace.countP fun event => isBlockOn event.1

/-- How often the parker returned. -/
def parkings (trace : List (Op V × List (Observation V))) : Nat :=
  trace.countP fun event => isPark event.1

/-! ## What a step does to the loops -/

/-- What a step does to the loops on the stack, and the tasks that it pops. -/
inductive Shift (executor : Executor V) (op : Op V) (events : List (Observation V)) :
    List Pc → List Pc → List Nat → Prop where
  | turn {pc pc' : Pc} {woke : Bool} {outer : List Pc}
      (hgoto : Goto executor op pc pc' woke events) :
      Shift executor op events (pc :: outer) (pc' :: outer) []
  | pop {turns task : Nat} {outer : List Pc} (hop : op = .advance)
      (hevents : events.countP isMainPolled = 0) :
      Shift executor op events (.tick (turns + 1) :: outer) (.ran turns :: outer) [task]
  | handed {waker : Waker} {wakers : List Waker} {outer : List Pc} (hop : op = .advance)
      (hevents : events.countP isMainPolled = 0) :
      Shift executor op events (.waking (waker :: wakers) :: outer) (.waking wakers :: outer) []
  | leave {outer : List Pc} (hop : op = .advance) (hevents : events.countP isMainPolled = 0) :
      Shift executor op events (.leave :: outer) outer []
  | enter {outer : List Pc} (hop : op = .blockOn) (hevents : events.countP isMainPolled = 0) :
      Shift executor op events outer (.top :: outer) []
  | still {outer : List Pc} (hop : isPark op = false)
      (hevents : events.countP isMainPolled = 0) :
      Shift executor op events outer outer []

section Shift

variable {executor last : Executor V} {op : Op V} {events : List (Observation V)}

theorem step_shift (hstep : executor.step op = .next last events) :
    Shift executor op events (loops executor.stack) (loops last.stack)
      (popped executor op events) := by
  cases step_move hstep with
  | loop hstack hgoto =>
      have hnone : popped executor op events = [] := by
        cases hgoto with
        | park hqueue => simp [popped, hstack, hqueue]
        | _ => simp [popped, hstack]
      rw [hnone, hstack]
      exact .turn hgoto
  | run hstack hqueue =>
      simp only [popped, hstack, hqueue, loops_blockOn, loops_poll]
      exact .pop rfl rfl
  | skip hstack hqueue =>
      simp only [popped, hstack, hqueue, loops_blockOn]
      exact .pop rfl rfl
  | handed hstack =>
      simp only [popped, hstack, stack_wake, loops_blockOn]
      exact .handed rfl rfl
  | leave hstack =>
      simp only [popped, hstack, loops_blockOn]
      exact .leave rfl rfl
  | finish hstack =>
      simp only [popped, hstack, loops_poll, loops_complete]
      exact .still rfl rfl
  | complete hstack =>
      simp only [popped, hstack, stack_complete, loops_complete]
      refine .still rfl ?_
      unfold complete
      split <;> rfl
  | pending hstack =>
      simp only [popped, hstack, loops_poll]
      exact .still rfl rfl
  | endCancel hstack =>
      simp only [popped, hstack, loops_cancel]
      exact .still rfl rfl
  | store hstack =>
      simp only [popped, hstack, loops_join]
      exact .still rfl rfl
  | endJoin hstack =>
      simp only [popped, hstack, loops_join]
      exact .still rfl rfl
  | blockOn huser => exact .enter rfl rfl
  | wake huser =>
      rw [stack_wake]
      exact .still rfl rfl
  | cancelFuture huser => exact .still rfl rfl
  | spawn huser => exact .still rfl rfl
  | joinReady huser => exact .still rfl rfl
  | joinPending huser => exact .still rfl rfl
  | cancelDone huser => exact .still rfl rfl
  | dropHandle huser => exact .still rfl rfl

/-! ## Who pays -/

/-- The sum of a measure over the loops on the stack. -/
def load (due : Pc → Nat) (pcs : List Pc) : Nat := (pcs.map due).sum

@[simp]
theorem load_cons (due : Pc → Nat) (pc : Pc) (pcs : List Pc) :
    load due (pc :: pcs) = due pc + load due pcs := rfl

theorem load_le {due : Pc → Nat} {bound : Nat} (hbound : ∀ pc, due pc ≤ bound)
    (pcs : List Pc) : load due pcs ≤ bound * pcs.length := by
  induction pcs with
  | nil => exact Nat.zero_le _
  | cons pc pcs ih =>
      rw [load_cons, List.length_cons, Nat.mul_succ]
      have hpc := hbound pc
      omega

/-- Whether a loop may poll its main future before it runs the next task. -/
def mainDue : Pc → Nat
  | .pollMain | .leave | .tick (_ + 1) => 0
  | _ => 1

/-- How many turns of its tick a loop has taken. -/
def turnsTaken (pc : Pc) : Nat := POLLS_PER_TICK - pollsLeft pc

theorem mainDue_le (pc : Pc) : mainDue pc ≤ 1 := by
  unfold mainDue
  split
  · exact Nat.zero_le _
  · exact Nat.zero_le _
  · exact Nat.zero_le _
  · exact Nat.le_refl _

variable {pcs pcs' : List Pc} {pops : List Nat}

/-- A main future is polled once for a task that was run. -/
theorem Shift.main (hshift : Shift executor op events pcs pcs' pops)
    (hqueue : executor.queue ≠ []) :
    events.countP isMainPolled + load mainDue pcs' ≤
      load mainDue pcs + pops.length + if isBlockOn op then 1 else 0 := by
  cases hshift with
  | turn hgoto =>
      cases hgoto with
      | park hempty => exact absurd hempty hqueue
      | startTick hwoke =>
          simp only [load_cons, mainDue, POLLS_PER_TICK, List.countP_nil]
          omega
      | @nextTask turns hwoke =>
          have hdue := mainDue_le (.tick turns)
          simp only [load_cons, List.countP_nil, mainDue] at hdue ⊢
          omega
      | _ => simp [isMainPolled, mainDue, POLLS_PER_TICK]
  | pop hop hevents =>
      simp only [load_cons, mainDue, hevents, List.length_singleton]
      omega
  | handed hop hevents =>
      simp only [load_cons, mainDue, hevents]
      omega
  | leave hop hevents =>
      simp only [load_cons, mainDue, hevents]
      omega
  | enter hop hevents =>
      simp only [load_cons, mainDue, hevents, hop, isBlockOn, if_true, List.length_nil]
      omega
  | still hop hevents =>
      rw [hevents]
      omega

/-- The parker is called once for a tick of tasks that were run. -/
theorem Shift.parking (hshift : Shift executor op events pcs pcs' pops)
    (hqueue : executor.queue ≠ []) :
    POLLS_PER_TICK * (if isPark op then 1 else 0) + load turnsTaken pcs' ≤
      load turnsTaken pcs + pops.length := by
  cases hshift with
  | turn hgoto =>
      cases hgoto with
      | park hempty => exact absurd hempty hqueue
      | _ => simp [isPark, turnsTaken, pollsLeft]
  | pop hop hevents =>
      subst hop
      simp only [load_cons, turnsTaken, pollsLeft, isPark, Bool.false_eq_true, if_false,
        List.length_singleton]
      omega
  | handed hop hevents =>
      subst hop
      simp [isPark, turnsTaken, pollsLeft]
  | leave hop hevents =>
      subst hop
      simp [isPark, turnsTaken, pollsLeft]
  | enter hop hevents =>
      subst hop
      simp [isPark, turnsTaken, pollsLeft]
  | still hop hevents => simp [hop]

end Shift

/-! ## Runs -/

section Served

variable {start last : Executor V} {before mid : List (Op V × List (Observation V))}
  {ahead behind pops : List Nat} {task : Nat}

/-- A task that was not run is still in the queue. -/
theorem mem_queue_of_run (hmid : (system.logged popped).Run (start, []) mid (last, pops))
    (hqueued : task ∈ start.queue) (hnot : task ∉ pops) : task ∈ last.queue := by
  obtain ⟨pushed, hlaw⟩ := queue_run hmid
  have hmem : task ∈ pops ++ last.queue := by
    rw [← hlaw]
    exact List.mem_append_left _ hqueued
  exact (List.mem_append.mp hmem).resolve_left hnot

/-- What the tasks that were run pay for while another one is queued. -/
theorem paid_run (hmid : (system.logged popped).Run (start, []) mid (last, pops))
    (hqueued : task ∈ start.queue) (hnot : task ∉ pops) :
    mainPolls mid + load mainDue (loops last.stack) ≤
        load mainDue (loops start.stack) + pops.length + entered mid ∧
      POLLS_PER_TICK * parkings mid + load turnsTaken (loops last.stack) ≤
        load turnsTaken (loops start.stack) + pops.length := by
  refine hmid.invariant (fun mid state => task ∉ state.2 →
    mainPolls mid + load mainDue (loops state.1.stack) ≤
        load mainDue (loops start.stack) + state.2.length + entered mid ∧
      POLLS_PER_TICK * parkings mid + load turnsTaken (loops state.1.stack) ≤
        load turnsTaken (loops start.stack) + state.2.length) ?_ ?_ hnot
  · intro _
    simp [mainPolls, entered, parkings, history]
  · rintro mid ⟨middle, log⟩ ⟨last, log'⟩ op events hprefix ih hstep hnot
    obtain ⟨hbase, rfl⟩ := System.logged_step.mp hstep
    simp only [List.mem_append, not_or] at hnot
    obtain ⟨hmain, hparking⟩ := ih hnot.1
    have hqueue : middle.queue ≠ [] :=
      List.ne_nil_of_mem (mem_queue_of_run hprefix hqueued hnot.1)
    have hshift := step_shift hbase
    have hpaidMain := hshift.main hqueue
    have hpaidParking := hshift.parking hqueue
    simp only [mainPolls, entered, parkings, history_snoc, List.countP_append,
      List.countP_singleton, List.length_append, Nat.mul_add] at hmain hparking ⊢
    constructor
    · omega
    · omega

/-- From every reachable state, a queued task is popped after exactly those before it in the
queue, and polled unless it ended.  Until then the loops poll main futures at most once for
each task that was run, each loop on the stack and each one entered, call the parker at
most once for `POLLS_PER_TICK` tasks and once for each loop, and do not let it block. -/
theorem queued_tasks_served (hbefore : system.Run (new : Executor V) before start)
    (hqueue : start.queue = ahead ++ task :: behind)
    (hmid : (system.logged popped).Run (start, []) mid (last, pops)) :
    (task ∈ pops → ahead ++ [task] <+: pops ∧
        (.polled task ∈ history mid ∨
          (Life.after task (history (before ++ mid))).ended = true)) ∧
      (task ∉ pops →
        (∃ left pushed, ahead = pops ++ left ∧
            last.queue = left ++ task :: behind ++ pushed) ∧
          mainPolls mid ≤ pops.length + entered mid + (loops start.stack).length ∧
          POLLS_PER_TICK * parkings mid ≤
            pops.length + POLLS_PER_TICK * (loops start.stack).length ∧
          last.parks = false) := by
  obtain ⟨pushed, hlaw⟩ := queue_run hmid
  have hqueued : task ∈ start.queue := by simp [hqueue]
  rw [hqueue] at hlaw
  have hnodup := queue_nodup (run_tracks hbefore)
  rw [hqueue] at hnodup
  have hfront : task ∉ ahead := fun hmem =>
    (List.nodup_append.mp hnodup).2.2 task hmem task List.mem_cons_self rfl
  have hcompare : ahead ++ [task] <+: pops ∨ pops <+: ahead ++ [task] :=
    List.prefix_or_prefix_of_prefix ⟨behind ++ pushed, by simpa using hlaw⟩
      (List.prefix_append pops last.queue)
  constructor
  · intro hmem
    constructor
    · rcases hcompare with hlong | hshort
      · exact hlong
      · rcases List.prefix_concat_iff.mp hshort with heq | hinside
        · exact heq ▸ List.prefix_refl _
        · exact absurd (hinside.subset hmem) hfront
    · by_cases hpolled : .polled task ∈ history mid
      · exact .inl hpolled
      · exact .inr (ended_of_popped hbefore hmid hpolled hmem)
  · intro hnot
    obtain ⟨left, rfl⟩ : pops <+: ahead := by
      rcases hcompare with hlong | hshort
      · exact absurd (hlong.subset (by simp)) hnot
      · rcases List.prefix_concat_iff.mp hshort with heq | hinside
        · exact absurd (by simp [heq]) hnot
        · exact hinside
    obtain ⟨hmain, hparking⟩ := paid_run hmid hqueued hnot
    have hstartMain := load_le mainDue_le (loops start.stack)
    have hstartParking := load_le (fun pc => Nat.sub_le POLLS_PER_TICK (pollsLeft pc))
      (loops start.stack)
    refine ⟨⟨left, pushed, rfl, ?_⟩, by omega, ?_, ?_⟩
    · simpa using hlaw.symm
    · calc POLLS_PER_TICK * parkings mid
          ≤ load turnsTaken (loops start.stack) + pops.length :=
            (Nat.le_add_right _ _).trans hparking
        _ ≤ POLLS_PER_TICK * (loops start.stack).length + pops.length :=
            Nat.add_le_add_right hstartParking _
        _ = pops.length + POLLS_PER_TICK * (loops start.stack).length := Nat.add_comm _ _
    · by_contra hparks
      rw [Bool.not_eq_false] at hparks
      have hrests := run_rests (hbefore.trans hmid.of_logged)
      simp only [parks] at hparks
      split at hparks
      · rename_i frames hstack
        have hempty := hrests.park hstack
        exact List.not_mem_nil (hempty ▸ mem_queue_of_run hmid hqueued hnot)
      · cases hparks

end Served

/-- The first of two tasks wakes itself and the main future, which is polled again. -/
def busyFirst : List (Op Nat) :=
  [.advance, .ret .pending, .advance, .wake .main, .wake (.task 0), .ret .pending, .advance,
    .advance, .ret .pending]

theorem queued_tasks_served_busyFirst :
    ∃ (start last : Executor Nat) (mid : List (Op Nat × List (Observation Nat)))
      (pops : List Nat), (system.logged popped).Run (start, []) mid (last, pops) ∧
      mid.map Prod.fst = busyFirst ∧ pops = [0] ∧ last.queue = [1, 0] ∧ mainPolls mid = 2 ∧
      mainPolls mid ≤ pops.length + entered mid + (loops start.stack).length := by
  let start : Executor Nat :=
    { (new.spawn 0).spawn 1 with woke := true, stack := [.blockOn .top] }
  have hbefore : system.exec (new : Executor Nat) [.spawn 0, .spawn 1, .blockOn] =
      some (_, start) := rfl
  have hmid : (system.logged popped).exec (start, []) busyFirst = some (_, (_, _)) := rfl
  have hrun := System.exec_run hmid
  have hqueue : start.queue = [0] ++ 1 :: [] := rfl
  obtain ⟨-, hlater⟩ := queued_tasks_served (System.exec_run hbefore) hqueue hrun
  exact ⟨start, _, _, _, hrun, rfl, rfl, rfl, rfl, (hlater (by decide)).2.1⟩

end Platoon.Runtime.Executor
