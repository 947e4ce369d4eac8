import Platoon.Runtime.ExecutorRuns
import Platoon.Runtime.Loops
import Platoon.Runtime.Parking

/-!
# Ticks

A tick is `POLLS_PER_TICK` turns of the inner loop, and ends with a call of the
parker.  The loop leaves a tick when a task woke the main future, and enters a
new one without calling the parker.
-/

namespace Platoon.Runtime.Executor

open Platoon.Foundation Platoon.Rust

variable {V : Type}

def isPolled : Observation V → Bool
  | .polled _ => true
  | _ => false

/-- How many polls of tasks began. -/
def polls (trace : List (Op V × List (Observation V))) : Nat := (history trace).countP isPolled

def isPark : Op V → Bool
  | .parkReturns _ => true
  | _ => false

/-- How many polls of tasks began since the parker last returned. -/
def spent (trace : List (Op V × List (Observation V))) : Nat :=
  trace.foldl (fun count event =>
    if isPark event.1 then 0 else count + event.2.countP isPolled) 0

/-- How many tasks a loop may still poll before it calls the parker. -/
def pollsLeft : Pc → Nat
  | .tick polls | .ran polls => polls
  | .park | .parkTimeout => 0
  | .top | .pollMain | .leave | .waking _ => POLLS_PER_TICK

/-- No loop is entered within a loop, and no loop finds the main future woken after it ran a
task. -/
def keepsTick (executor : Executor V) : Op V → Bool
  | .blockOn => (loops executor.stack).isEmpty
  | .advance =>
      match executor.stack with
      | .blockOn (.ran _) :: _ => !executor.woke
      | _ => true
  | _ => true

/-- The loop is about to call the parker. -/
def callsParker (executor : Executor V) : Bool :=
  match executor.stack with
  | .blockOn .park :: _ | .blockOn .parkTimeout :: _ => true
  | _ => false

section Counting

variable {trace mid : List (Op V × List (Observation V))} {op : Op V}
  {events : List (Observation V)}

@[simp]
theorem polls_append (before after : List (Op V × List (Observation V))) :
    polls (before ++ after) = polls before + polls after := by
  simp [polls, history]

@[simp]
theorem spent_snoc : spent (trace ++ [(op, events)]) =
    if isPark op then 0 else spent trace + events.countP isPolled := by
  simp [spent]

/-- While the parker is not called, all polls count. -/
theorem spent_append (hmid : ∀ event ∈ mid, isPark event.1 = false) :
    spent (trace ++ mid) = spent trace + polls mid := by
  induction mid using List.reverseRecOn with
  | nil => simp [polls, history]
  | append_singleton mid event ih =>
      obtain ⟨op, events⟩ := event
      have hop : isPark op = false := hmid (op, events) (by simp)
      have hrest := ih fun event hmem => hmid event (List.mem_append_left _ hmem)
      rw [← List.append_assoc, spent_snoc, hop, hrest]
      simp [polls, history, Nat.add_assoc]

end Counting

section Metered

variable {executor last : Executor V} {trace : List (Op V × List (Observation V))}

/-- At most one loop runs, and what was polled and what may be polled make one tick. -/
structure Metered (count : Nat) (stack : List (Frame V)) : Prop where
  single : (loops stack).length ≤ 1
  bound : ∀ pc ∈ loops stack, count + pollsLeft pc ≤ POLLS_PER_TICK
  idle : loops stack = [] → count = 0

namespace Metered

variable {count count' : Nat} {stack : List (Frame V)} {pc pc' : Pc} {frames : List (Frame V)}

/-- What is known at a turn of the loop. -/
theorem loop (hmetered : Metered count (.blockOn pc :: frames)) :
    loops frames = [] ∧ count + pollsLeft pc ≤ POLLS_PER_TICK := by
  have hsingle := hmetered.single
  rw [loops_blockOn, List.length_cons] at hsingle
  refine ⟨List.eq_nil_of_length_eq_zero (by omega), hmetered.bound pc ?_⟩
  rw [loops_blockOn]
  exact List.mem_cons_self

/-- A turn of the loop that stays within the tick. -/
theorem goto (hnone : loops frames = []) (hbound : count' + pollsLeft pc' ≤ POLLS_PER_TICK) :
    Metered count' (.blockOn pc' :: frames) where
  single := by simp [hnone]
  bound pc hmem := by
    rw [loops_blockOn, hnone, List.mem_singleton] at hmem
    rwa [hmem]
  idle h := by simp at h

theorem silent {stack' : List (Frame V)} (hmetered : Metered count stack)
    (hloops : loops stack' = loops stack) : Metered count stack' where
  single := by
    rw [hloops]
    exact hmetered.single
  bound := by
    rw [hloops]
    exact hmetered.bound
  idle := by
    rw [hloops]
    exact hmetered.idle

/-- An edge of the loop that keeps to the tick does not add to it. -/
theorem goto_bound {op : Op V} {woke : Bool} {events : List (Observation V)}
    (hstack : executor.stack = .blockOn pc :: frames)
    (hgoto : Goto executor op pc pc' woke events) (hkeeps : keepsTick executor op = true)
    (hbound : count + pollsLeft pc ≤ POLLS_PER_TICK) :
    (if isPark op then 0 else count + events.countP isPolled) + pollsLeft pc' ≤
      POLLS_PER_TICK := by
  cases hgoto with
  | pollMain hwoke => simpa [isPark, isPolled, pollsLeft] using hbound
  | startTick hwoke => simpa [isPark, isPolled, pollsLeft] using hbound
  | endTick => simpa [isPark, isPolled, pollsLeft] using hbound
  | park hqueue =>
      simp only [pollsLeft] at hbound
      simp only [isPark, pollsLeft, List.countP_nil, Bool.false_eq_true, ↓reduceIte]
      omega
  | wokeMain hwoke => simp [keepsTick, hstack, hwoke] at hkeeps
  | nextTask hwoke => simpa [isPark, isPolled, pollsLeft] using hbound
  | allWoken => simpa [isPark, isPolled, pollsLeft] using hbound
  | parked => simp [isPark, pollsLeft]
  | parkedTimeout => simp [isPark, pollsLeft]
  | mainReady => simpa [isPark, isPolled, pollsLeft] using hbound
  | mainPending => simpa [isPark, isPolled, pollsLeft] using hbound

/-- A step that polls no task and changes no loop. -/
theorem unpolled {op : Op V} {events : List (Observation V)} {stack' : List (Frame V)}
    (hmetered : Metered count stack) (hop : isPark op = false)
    (hevents : events.countP isPolled = 0) (hloops : loops stack' = loops stack) :
    Metered (if isPark op then 0 else count + events.countP isPolled) stack' := by
  rw [hop, hevents]
  exact hmetered.silent hloops

/-- A step that keeps to the tick. -/
theorem step (hmetered : Metered (spent trace) executor.stack) {op : Op V}
    {events : List (Observation V)} (hkeeps : keepsTick executor op = true)
    (hstep : executor.step op = .next last events) :
    Metered (spent (trace ++ [(op, events)])) last.stack := by
  rw [spent_snoc]
  cases step_move hstep with
  | loop hstack hgoto =>
      rw [hstack] at hmetered
      obtain ⟨hnone, hbound⟩ := hmetered.loop
      exact goto hnone (goto_bound hstack hgoto hkeeps hbound)
  | run hstack hqueue htask hborrow hpayload =>
      rw [hstack] at hmetered
      obtain ⟨hnone, hbound⟩ := hmetered.loop
      refine silent (goto hnone ?_) (loops_poll _ _)
      simp only [pollsLeft] at hbound
      simp only [isPark, isPolled, pollsLeft, List.countP_singleton, Bool.false_eq_true,
        ↓reduceIte]
      omega
  | skip hstack hqueue htask hborrow hpayload =>
      rw [hstack] at hmetered
      obtain ⟨hnone, hbound⟩ := hmetered.loop
      apply goto hnone
      simp only [pollsLeft] at hbound
      simp only [isPark, pollsLeft, List.countP_nil, Bool.false_eq_true, ↓reduceIte]
      omega
  | handed hstack =>
      rw [hstack] at hmetered
      obtain ⟨hnone, hbound⟩ := hmetered.loop
      rw [stack_wake]
      exact goto hnone (by simpa [isPark, isPolled, pollsLeft] using hbound)
  | leave hstack =>
      rw [hstack] at hmetered
      obtain ⟨hnone, hbound⟩ := hmetered.loop
      simp only [pollsLeft] at hbound
      have hzero : spent trace = 0 := by omega
      exact
        { single := by simp [hnone]
          bound := by simp [hnone]
          idle := fun _ => by simp [isPark, hzero] }
  | finish hstack htask =>
      exact hmetered.unpolled (by rfl) (by rfl) (by rw [hstack]; rfl)
  | complete hstack htask =>
      rw [stack_complete]
      apply hmetered.unpolled (by rfl)
      · unfold complete
        split <;> rfl
      · rw [hstack]
        rfl
  | pending hstack htask => exact hmetered.unpolled (by rfl) (by rfl) (by rw [hstack]; rfl)
  | endCancel hstack htask => exact hmetered.unpolled (by rfl) (by rfl) (by rw [hstack]; rfl)
  | store hstack htask => exact hmetered.unpolled (by rfl) (by rfl) (by rw [hstack]; rfl)
  | endJoin hstack htask => exact hmetered.unpolled (by rfl) (by rfl) (by rw [hstack]; rfl)
  | blockOn huser =>
      have hnone : loops executor.stack = [] := List.isEmpty_iff.mp hkeeps
      apply goto hnone
      simp [isPark, pollsLeft, hmetered.idle hnone]
  | spawn huser htask => exact hmetered.unpolled (by rfl) (by rfl) (by rfl)
  | wake huser =>
      rw [stack_wake]
      exact hmetered.unpolled (by rfl) (by rfl) (by rfl)
  | joinReady huser htask hhandle hborrow hpayload =>
      exact hmetered.unpolled (by rfl) (by rfl) (by rfl)
  | joinPending huser htask hhandle hborrow hpayload =>
      exact hmetered.unpolled (by rfl) (by rfl) (by rfl)
  | cancelFuture huser htask hhandle hborrow hpayload =>
      exact hmetered.unpolled (by rfl) (by rfl) (by rfl)
  | cancelDone huser htask hhandle hborrow hpayload =>
      exact hmetered.unpolled (by rfl) (by rfl) (by rfl)
  | dropHandle huser htask hhandle => exact hmetered.unpolled (by rfl) (by rfl) (by rfl)

end Metered

/-- In a run that keeps to its ticks, what was polled since the parker returned is part of
one tick. -/
theorem run_metered
    (hrun : (system.restrict keepsTick).Run (new : Executor V) trace executor) :
    Metered (spent trace) executor.stack := by
  refine hrun.invariant (fun trace executor => Metered (spent trace) executor.stack)
    { single := by simp [new, loops], bound := by simp [new, loops], idle := fun _ => rfl } ?_
  intro trace middle last op events _ hmetered hstep
  obtain ⟨hkeeps, hstep⟩ := System.restrict_step.mp hstep
  exact hmetered.step hkeeps hstep

/-- Over every run in which no loop is entered within a loop and no loop finds the main future
woken after it ran a task: at most `POLLS_PER_TICK` polls of tasks begin while the parker is
not called.  A loop that does find it woken enters a full tick without calling the parker. -/
theorem polls_within_tick
    (hrun : (system.restrict keepsTick).Run (new : Executor V) trace executor) :
    (∀ before mid after, trace = before ++ mid ++ after →
      (∀ event ∈ mid, isPark event.1 = false) → polls mid ≤ POLLS_PER_TICK) ∧
      ∀ turns frames, executor.stack = .blockOn (.ran turns) :: frames →
        executor.woke = true →
        ∃ last, system.Run executor
            [(.advance, []), (.advance, [.mainPolled]), (.ret .pending, [])] last ∧
          last.stack = .blockOn (.tick POLLS_PER_TICK) :: frames := by
  constructor
  · intro before mid after htrace hmid
    subst htrace
    obtain ⟨middle, hfront, -⟩ := hrun.split
    have hmetered := run_metered hfront
    rw [spent_append hmid] at hmetered
    cases hloops : loops middle.stack with
    | nil =>
        have hidle := hmetered.idle hloops
        omega
    | cons pc rest =>
        have hbound := hmetered.bound pc (by simp [hloops])
        omega
  · intro turns frames hstack hwoke
    refine ⟨{ executor with woke := false, stack := .blockOn (.tick POLLS_PER_TICK) :: frames },
      ?_, rfl⟩
    have htop : system.step executor .advance =
        .next { executor with stack := .blockOn .top :: frames } [] := by
      simp [system, Executor.step, advance, hstack, hwoke]
    have hpoll : system.step { executor with stack := .blockOn .top :: frames } .advance =
        .next { executor with woke := false, stack := .blockOn .pollMain :: frames }
          [.mainPolled] := by
      simp [system, Executor.step, advance, hwoke]
    exact ((System.Run.single htop).snoc hpoll).snoc rfl

end Metered

section Restarts

/-- At the head of the loop, with the main future woken and one task to run. -/
def busy (executor : Executor Nat) : Bool :=
  decide (executor.stack = [.blockOn .top]) && executor.woke && decide (executor.queue = [0]) &&
    (executor.tasks 0).any fun repr =>
      decide (repr.state = .scheduled ∧ repr.payload = .future ∧ repr.borrow = 0)

/-- A step that enters no loop. -/
theorem step_unnested {executor last : Executor Nat} {op : Op Nat}
    {events : List (Observation Nat)} (hmove : Move executor op last events) (hop : op ≠ .blockOn) :
    (system.restrict notNested).step executor op = .next last events := by
  refine System.restrict_step.mpr ⟨?_, step_of_move hmove⟩
  cases op with
  | blockOn => contradiction
  | _ => rfl

/-- In the poll of task 0, with nothing else queued. -/
def polling (executor : Executor Nat) (repr : TaskRepr Nat) : Executor Nat :=
  { executor.set 0 repr with queue := [], woke := false, stack := [.poll 0, .blockOn (.ran 60)] }

@[simp]
theorem tasks_polling (executor : Executor Nat) (repr : TaskRepr Nat) :
    (executor.polling repr).tasks 0 = some repr := by
  simp [polling, set]

/-- Both halves of a round begin with a poll of the main future and one of the task. -/
theorem busy_polling {executor : Executor Nat} (hbusy : executor.busy = true) :
    ∃ repr : TaskRepr Nat, repr.state = .idle ∧ repr.payload = .future ∧ repr.borrow = -1 ∧
      (system.restrict notNested).Run executor
        [(.advance, [.mainPolled]), (.ret .pending, []), (.advance, [.polled 0])]
        (executor.polling repr) := by
  simp only [busy, Bool.and_eq_true, decide_eq_true_eq, Option.any_eq_true_iff_get] at hbusy
  obtain ⟨⟨⟨hstack, hwoke⟩, hqueue⟩, hsome, hrepr⟩ := hbusy
  obtain ⟨repr, htask⟩ := Option.isSome_iff_exists.mp hsome
  simp only [htask, Option.get_some] at hrepr
  obtain ⟨-, hpayload, hborrow⟩ := hrepr
  refine ⟨{ repr with state := .idle, borrow := -1 }, rfl, hpayload, rfl, ?_⟩
  have hmain := System.Run.single (step_unnested (.loop hstack (.pollMain hwoke)) (by simp))
  have hpending := hmain.snoc (step_unnested (.loop rfl .mainPending) (by simp))
  exact hpending.snoc (step_unnested (.run rfl hqueue htask hborrow hpayload) (by simp))

/-- After such a round the executor is as busy as before. -/
theorem busy_round {executor : Executor Nat} (hbusy : executor.busy = true) :
    ∃ trace last, (system.restrict notNested).Run executor trace last ∧ last.busy = true ∧
      (∀ event ∈ trace, isPark event.1 = false) ∧ polls trace = 1 := by
  obtain ⟨repr, hstate, hpayload, hborrow, hpolling⟩ := busy_polling hbusy
  have hscheduled : (executor.polling repr).wake (.task 0) =
      { executor.polling { repr with state := .scheduled } with queue := [0] } := by
    simp [polling, wake, set, hstate]
  have hself : (system.restrict notNested).step (executor.polling repr) (.wake (.task 0)) =
      .next { executor.polling { repr with state := .scheduled } with queue := [0] }
        [.invoked (.task 0)] :=
    hscheduled ▸ step_unnested (.wake rfl) (by simp)
  have hmain : (system.restrict notNested).step
      { executor.polling { repr with state := .scheduled } with queue := [0] } (.wake .main) =
      .next { executor.polling { repr with state := .scheduled } with queue := [0], woke := true }
        [.invoked .main] := step_unnested (.wake rfl) (by simp)
  have hwoken := (hpolling.snoc hself).snoc hmain
  have hended := hwoken.snoc (step_unnested (.pending rfl (tasks_polling executor _)) (by simp))
  have hagain := hended.snoc (step_unnested (.loop rfl (.wokeMain rfl)) (by simp))
  refine ⟨_, _, hagain, ?_, by simp [isPark], rfl⟩
  simp [busy, release, set, hpayload, hborrow, RefCell.dropRefMut]

/-- There are as many rounds as one likes before the parker is called. -/
theorem busy_rounds {executor : Executor Nat} (hbusy : executor.busy = true) (rounds : Nat) :
    ∃ trace last, (system.restrict notNested).Run executor trace last ∧ last.busy = true ∧
      (∀ event ∈ trace, isPark event.1 = false) ∧ polls trace = rounds := by
  induction rounds with
  | zero => exact ⟨[], executor, .refl, hbusy, by simp, rfl⟩
  | succ rounds ih =>
      obtain ⟨trace, middle, hrun, hmiddle, hquiet, hpolls⟩ := ih
      obtain ⟨round, last, hround, hlast, hroundQuiet, hone⟩ := busy_round hmiddle
      refine ⟨trace ++ round, last, hrun.trans hround, hlast, ?_, ?_⟩
      · intro event hmem
        rcases List.mem_append.mp hmem with hfront | hback
        · exact hquiet event hfront
        · exact hroundQuiet event hback
      · rw [polls_append, hpolls, hone]

/-- The last poll of the task and of the main future wakes neither. -/
theorem busy_parks {executor : Executor Nat} (hbusy : executor.busy = true) :
    ∃ trace last, (system.restrict notNested).Run executor trace last ∧
      last.callsParker = true ∧ (∀ event ∈ trace, isPark event.1 = false) ∧ polls trace = 1 := by
  obtain ⟨repr, -, -, -, hpolling⟩ := busy_polling hbusy
  have hended := hpolling.snoc (step_unnested (.pending rfl (tasks_polling executor _)) (by simp))
  have hnext := hended.snoc (step_unnested (.loop rfl (.nextTask rfl)) (by simp))
  have hparks := hnext.snoc (step_unnested (.loop rfl (.park rfl)) (by simp))
  exact ⟨_, _, hparks, rfl, by simp [isPark], rfl⟩

/-- A main future that parks with one idle task. -/
def parkIdle : List (Op Nat) :=
  [.spawn 0, .blockOn, .advance, .ret .pending, .advance, .ret .pending, .advance, .advance]

/-- The park wakes both. -/
def wakeBoth : List (Op Nat) :=
  [.parkReturns (some [.task 0, .main]), .advance, .advance, .advance]

/-- Between two calls of the parker, more tasks are polled than one tick allows. -/
theorem woken_main_restarts_tick :
    ¬ ∀ before mid (executor last : Executor Nat),
      (system.restrict notNested).Run new before executor → executor.callsParker = true →
      (system.restrict notNested).Run executor mid last → last.callsParker = true →
      (∀ event ∈ mid.tail, isPark event.1 = false) → polls mid ≤ POLLS_PER_TICK := by
  intro hall
  have hcheck : ((system.restrict notNested).exec (new : Executor Nat) parkIdle).any
      (fun result => result.2.callsParker &&
        ((system.restrict notNested).exec result.2 wakeBoth).any fun result =>
          result.2.busy && !result.1.isEmpty &&
            result.1.tail.all fun event => !isPark event.1) = true := by decide
  obtain ⟨before, executor, hbefore, hpass⟩ := System.exec_check hcheck
  simp only [Bool.and_eq_true] at hpass
  obtain ⟨hparks, hpass⟩ := hpass
  obtain ⟨start, middle, hstart, hpass⟩ := System.exec_check hpass
  simp only [Bool.and_eq_true, List.all_eq_true, Bool.not_eq_true',
    List.isEmpty_eq_false_iff] at hpass
  obtain ⟨⟨hbusy, hnonempty⟩, hquiet⟩ := hpass
  obtain ⟨rounds, again, hrounds, hagain, hroundsQuiet, hpolls⟩ :=
    busy_rounds hbusy POLLS_PER_TICK
  obtain ⟨rest, last, hrest, hlast, hrestQuiet, hone⟩ := busy_parks hagain
  have hmid := (hstart.trans hrounds).trans hrest
  have hbound := hall before _ executor last hbefore hparks hmid hlast (by
    intro event hmem
    rw [List.append_assoc, List.tail_append_of_ne_nil hnonempty] at hmem
    simp only [List.mem_append] at hmem
    rcases hmem with hfirst | hround | hend
    · exact hquiet event hfirst
    · exact hroundsQuiet event hround
    · exact hrestQuiet event hend)
  rw [polls_append, polls_append, hpolls, hone] at hbound
  omega

/-- A main future that spawns a task and waits until both park. -/
theorem polls_within_tick_parkIdle :
    ∃ trace executor, (system.restrict keepsTick).Run (new : Executor Nat) trace executor ∧
      trace.map Prod.fst = parkIdle ∧ polls trace ≤ POLLS_PER_TICK := by
  have hcheck : ((system.restrict keepsTick).exec (new : Executor Nat) parkIdle).any (fun result =>
      decide (result.1.map Prod.fst = parkIdle) &&
        result.1.all fun event => !isPark event.1) = true := by decide
  obtain ⟨trace, executor, hrun, hpass⟩ := System.exec_check hcheck
  simp only [Bool.and_eq_true, decide_eq_true_eq, List.all_eq_true, Bool.not_eq_true'] at hpass
  refine ⟨trace, executor, hrun, hpass.1, ?_⟩
  exact (polls_within_tick hrun).1 [] trace [] (by simp) hpass.2

end Restarts

end Platoon.Runtime.Executor
