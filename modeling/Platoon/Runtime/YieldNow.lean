import Platoon.Runtime.Nesting

/-!
# Yielding

A future that awaits `yield_now` wakes itself in its poll.  A task thereby goes
to the back of the queue, and all tasks before it are run first.  The main
future only sets the flag, which the loop reads after the next task.
-/

namespace Platoon.Runtime.Executor

open Platoon.Foundation Platoon.Rust

variable {V : Type}

section Fifo

variable {executor first last : Executor V} {trace : List (Op V × List (Observation V))}
  {pops : List Nat}

theorem queue_wake {queue : List Nat} (hqueue : executor.queue = queue) (waker : Waker) :
    ∃ pushed, queue ++ pushed = (executor.wake waker).queue := by
  subst hqueue
  unfold wake
  split
  · exact ⟨[], by simp⟩
  · rename_i task
    split
    · exact ⟨[], by simp⟩
    · split
      · exact ⟨[task], rfl⟩
      · exact ⟨[], by simp⟩
      · exact ⟨[], by simp⟩
  · exact ⟨[], by simp⟩

/-- Tasks are popped from the front of the queue and pushed at its back. -/
theorem queue_step {op : Op V} {events : List (Observation V)}
    (hstep : executor.step op = .next last events) :
    ∃ pushed, executor.queue ++ pushed = popped executor op events ++ last.queue := by
  cases step_move hstep with
  | @loop op pc pc' woke events frames hstack hgoto =>
      refine ⟨[], ?_⟩
      cases hgoto with
      | park hqueue => simp [popped, hstack, hqueue]
      | _ => simp [popped, hstack]
  | run hstack hqueue htask hborrow hpayload => exact ⟨[], by simp [popped, hstack, hqueue]⟩
  | skip hstack hqueue htask hborrow hpayload => exact ⟨[], by simp [popped, hstack, hqueue]⟩
  | handed hstack =>
      simp only [popped, hstack, List.nil_append]
      exact queue_wake (by rfl) _
  | leave hstack => exact ⟨[], by simp [popped, hstack]⟩
  | complete hstack htask =>
      simp only [complete, popped, hstack, List.nil_append]
      split
      · exact queue_wake (by rfl) _
      · exact ⟨[], by simp [set]⟩
  | endCancel hstack htask => exact ⟨[], by simp [popped, hstack, release, set]⟩
  | store hstack htask => exact ⟨[], by simp [popped, hstack, set]⟩
  | endJoin hstack htask => exact ⟨[], by simp [popped, hstack, release, set]⟩
  | spawn huser htask => exact ⟨[_], rfl⟩
  | wake huser => exact queue_wake rfl _
  | pending hstack htask => exact ⟨[], by simp [popped, release, set]⟩
  | _ => exact ⟨[], by simp [popped, set]⟩

/-- Over every run, the tasks popped so far and those still queued are those queued before and
those pushed since, in this order. -/
theorem queue_run (hrun : (system.logged popped).Run (first, []) trace (last, pops)) :
    ∃ pushed, first.queue ++ pushed = pops ++ last.queue := by
  refine hrun.logged_invariant
    (fun _ last pops => ∃ pushed, first.queue ++ pushed = pops ++ last.queue) ⟨[], by simp⟩ ?_
  rintro trace middle last op events pops - ⟨pushed, hpushed⟩ hstep
  obtain ⟨more, hmore⟩ := queue_step hstep
  refine ⟨pushed ++ more, ?_⟩
  rw [← List.append_assoc, hpushed, List.append_assoc, hmore, List.append_assoc]

end Fifo

/-- The first occurrence of an element cuts a list in one way only. -/
theorem front_unique {front front' back back' : List Nat} {task : Nat}
    (heq : front ++ task :: back = front' ++ task :: back') (hfront : task ∉ front)
    (hfront' : task ∉ front') : front = front' := by
  induction front generalizing front' with
  | nil =>
      cases front' with
      | nil => rfl
      | cons other front' =>
          obtain ⟨rfl, -⟩ := List.cons.inj heq
          exact absurd List.mem_cons_self hfront'
  | cons other front ih =>
      cases front' with
      | nil =>
          obtain ⟨rfl, -⟩ := List.cons.inj heq
          exact absurd List.mem_cons_self hfront
      | cons other' front' =>
          obtain ⟨rfl, hrest⟩ := List.cons.inj heq
          rw [ih hrest (fun hmem => hfront (List.mem_cons_of_mem _ hmem))
            (fun hmem => hfront' (List.mem_cons_of_mem _ hmem))]

section TaskYields

variable {executor start last final : Executor V}
  {before mid : List (Op V × List (Observation V))} {pops : List Nat} {task : Nat}
  {frames : List (Frame V)}

/-- A popped task is polled, unless it has no future. -/
theorem polled_of_popped {op : Op V} {events : List (Observation V)}
    (hstep : executor.step op = .next last events) (hmem : task ∈ popped executor op events) :
    .polled task ∈ events ∨
      ∃ repr, executor.tasks task = some repr ∧ repr.payload ≠ .future := by
  cases step_move hstep with
  | run hstack hqueue htask hborrow hpayload =>
      simp only [popped, hstack, hqueue, List.mem_singleton] at hmem
      subst hmem
      exact .inl List.mem_cons_self
  | skip hstack hqueue htask hborrow hpayload =>
      simp only [popped, hstack, hqueue, List.mem_singleton] at hmem
      subst hmem
      exact .inr ⟨_, htask, hpayload⟩
  | loop hstack hgoto =>
      cases hgoto with
      | park hqueue => simp [popped, hstack, hqueue] at hmem
      | _ => simp [popped, hstack] at hmem
  | handed hstack => simp [popped, hstack] at hmem
  | leave hstack => simp [popped, hstack] at hmem
  | complete hstack htask => simp [popped, hstack] at hmem
  | endCancel hstack htask => simp [popped, hstack] at hmem
  | store hstack htask => simp [popped, hstack] at hmem
  | endJoin hstack htask => simp [popped, hstack] at hmem
  | _ => simp [popped] at hmem

/-- A task that is polled was at the head of the queue. -/
theorem queue_of_polled (hstep : executor.step .advance = .next last [.polled task]) :
    ∃ rest, executor.queue = task :: rest := by
  generalize hevents : [Observation.polled task] = events at hstep
  have hmove := step_move hstep
  generalize hop : Op.advance = op at hmove
  cases hmove with
  | run hstack hqueue htask hborrow hpayload =>
      cases hevents
      exact ⟨_, hqueue⟩
  | loop hstack hgoto => cases hgoto <;> cases hevents
  | complete hstack htask =>
      simp only [complete] at hevents
      split at hevents <;> cases hevents
  | _ => cases hevents

/-- The end of a task is final. -/
theorem ended_append {observed events : List (Observation V)}
    (hended : (Life.after task observed).ended = true) :
    (Life.after task (observed ++ events)).ended = true := by
  rw [Life.ended_after] at hended ⊢
  rcases hended with hfinished | ⟨output, hcancelled⟩
  · exact .inl (List.mem_append_left _ hfinished)
  · exact .inr ⟨output, List.mem_append_left _ hcancelled⟩

/-- A task that is popped without being polled has ended. -/
theorem ended_of_popped (hbefore : system.Run new before start)
    (hmid : (system.logged popped).Run (start, []) mid (last, pops))
    (hunpolled : .polled task ∉ history mid) (hmem : task ∈ pops) :
    (Life.after task (history (before ++ mid))).ended = true := by
  refine hmid.logged_invariant (fun mid _ pops => .polled task ∉ history mid → task ∈ pops →
    (Life.after task (history (before ++ mid))).ended = true) ?_ ?_ hunpolled hmem
  · intro _ hnil
    cases hnil
  · intro mid middle last op events pops hprefix ih hstep hunpolled hmem
    rw [history_snoc, List.mem_append, not_or] at hunpolled
    rw [← List.append_assoc, history_snoc]
    rcases List.mem_append.mp hmem with hearlier | hnow
    · exact ended_append (ih hunpolled.1 hearlier)
    · rcases polled_of_popped hstep hnow with hpolled | ⟨repr, htask, hpayload⟩
      · exact absurd hpolled hunpolled.2
      · have htracks := run_tracks (hbefore.trans hprefix)
        apply ended_append
        by_contra hlive
        exact hpayload ((htracks.spawned htask).1.live (by simpa using hlive))

/-- A task that yields is polled again after exactly the tasks that are before it in the
queue. -/
theorem task_yields (hbefore : system.Run new before start)
    (hstack : start.stack = .poll task :: frames)
    (hmid : (system.logged popped).Run (start.wake (.task task), []) mid (last, pops))
    (hunpolled : .polled task ∉ history mid)
    (hpoll : system.step last .advance = .next final [.polled task]) :
    (∀ other ∈ start.queue, other ≠ task → pops.count other = 1) ↔
      (task ∉ start.queue ∨ start.queue.getLast? = some task) := by
  have hyield : system.step start (.wake (.task task)) =
      .next (start.wake (.task task)) [.invoked (.task task)] := by
    simp [system, step, userRuns, hstack, Frame.userRuns, Outcome.when]
  have hfront := hbefore.snoc hyield
  have hnodup := queue_nodup (run_tracks hbefore)
  have hstep : last.step .advance = .next final [.polled task] := hpoll
  have hpops : task ∉ pops := by
    intro hmem
    have hended := ended_of_popped hfront hmid hunpolled hmem
    have hwhole := run_tracks (hfront.trans hmid.of_logged)
    have hlive := (live_of_polled_step hwhole hstep List.mem_cons_self).2
    rw [hended] at hlive
    cases hlive
  obtain ⟨rest, hqueue⟩ := queue_of_polled hstep
  obtain ⟨pushed, hlaw⟩ := queue_run hmid
  rw [hqueue] at hlaw
  rcases queue_of_yield hbefore hstack with ⟨hnot, hback⟩ | ⟨hmem, hsame⟩
  · rw [hback, List.append_assoc, List.singleton_append] at hlaw
    rw [← front_unique hlaw hnot hpops]
    exact iff_of_true (fun other hother _ => List.count_eq_one_of_mem hnodup hother) (.inl hnot)
  · obtain ⟨front, back, hsplit⟩ := List.append_of_mem hmem
    rw [hsame, hsplit, List.append_assoc, List.cons_append] at hlaw
    rw [hsplit] at hnodup
    obtain ⟨hfrontNodup, hbackNodup, hdisjoint⟩ := List.nodup_append.mp hnodup
    have hnot : task ∉ front := fun hin => hdisjoint task hin task List.mem_cons_self rfl
    rw [← front_unique hlaw hnot hpops, hsplit]
    cases back with
    | nil =>
        refine iff_of_true (fun other hother hne => ?_) (.inr (by simp))
        have hin : other ∈ front := by simpa [hne] using hother
        exact List.count_eq_one_of_mem hfrontNodup hin
    | cons next back =>
        have hne : next ≠ task := by
          rintro rfl
          simp at hbackNodup
        have hnext : next ∉ front := fun hin => hdisjoint next hin next (by simp) rfl
        refine iff_of_false (fun hall => ?_) ?_
        · have hone := hall next (by simp) hne
          rw [List.count_eq_zero_of_not_mem hnext] at hone
          cases hone
        · rintro (hnone | hlast)
          · exact hnone (by simp)
          · rw [List.getLast?_append, List.getLast?_cons_cons] at hlast
            have hlast' : (next :: back).getLast? = some task := by
              cases hback : (next :: back).getLast? with
              | none => simp at hback
              | some other => simpa [hback] using hlast
            have hin := List.mem_of_getLast? hlast'
            exact (List.nodup_cons.mp hbackNodup).1 hin

end TaskYields

section MainYields

variable {executor start last : Executor V}
  {before mid : List (Op V × List (Observation V))} {pops : List Nat} {frames : List (Frame V)}

/-- Where the loop of a main future that yielded stands, and what it popped, when `queue` was
queued at the yield. -/
inductive Passed (queue : List Nat) : Pc → List Nat → Prop where
  | polling : Passed queue .pollMain []
  | leaving : Passed queue .leave []
  | tick : Passed queue (.tick POLLS_PER_TICK) []
  | ran (turns task : Nat) : Passed queue (.ran turns) [task]
  | parked (hempty : queue = []) : Passed queue .park []
  | waking (wakers : List Waker) (hempty : queue = []) : Passed queue (.waking wakers) []
  | topRan (task : Nat) : Passed queue .top [task]
  | topParked (hempty : queue = []) : Passed queue .top []

/-- The loop has returned, or the flag is set and it is on the way to its head. -/
def Returning (queue : List Nat) (frames : List (Frame V)) (executor : Executor V)
    (pops : List Nat) : Prop :=
  (loops executor.stack).length ≤ (loops frames).length ∨
    (executor.woke = true ∧ ∃ above pc, executor.stack = above ++ .blockOn pc :: frames ∧
      loops above = [] ∧ Passed queue pc pops)

/-- Only `block_on` adds a loop. -/
theorem loops_step {op : Op V} {events : List (Observation V)} (hop : op ≠ .blockOn)
    (hstep : executor.step op = .next last events) :
    (loops last.stack).length ≤ (loops executor.stack).length := by
  cases step_move hstep with
  | loop hstack hgoto => simp [hstack]
  | run hstack hqueue htask hborrow hpayload => simp [hstack]
  | skip hstack hqueue htask hborrow hpayload => simp [hstack]
  | handed hstack => simp [hstack]
  | leave hstack => simp [hstack]
  | finish hstack htask => simp [hstack]
  | complete hstack htask => simp [hstack]
  | pending hstack htask =>
      rw [hstack]
      exact Nat.le_refl _
  | endCancel hstack htask =>
      rw [hstack]
      exact Nat.le_refl _
  | store hstack htask =>
      rw [hstack]
      exact Nat.le_refl _
  | endJoin hstack htask =>
      rw [hstack]
      exact Nat.le_refl _
  | blockOn huser => exact absurd rfl hop
  | wake huser => simp
  | _ => exact Nat.le_refl _

/-- A turn of the loop of a main future that yielded. -/
theorem passed_turn {queue : List Nat} {pc : Pc} {op : Op V} {events : List (Observation V)}
    (hpassed : Passed queue pc pops) (hwoke : executor.woke = true)
    (hstack : executor.stack = .blockOn pc :: frames) (hevents : .mainPolled ∉ events)
    (hlaw : ∃ pushed, queue ++ pushed = pops ++ executor.queue)
    (hturn : Turn executor frames pc op last events) :
    (loops last.stack).length ≤ (loops frames).length ∨
      ∃ above pc', last.stack = above ++ .blockOn pc' :: frames ∧ loops above = [] ∧
        Passed queue pc' (pops ++ popped executor op events) := by
  cases hturn with
  | leave => exact .inl (Nat.le_refl _)
  | handed =>
      right
      cases hpassed with
      | waking wakers hempty =>
          refine ⟨[], .waking _, stack_wake _, rfl, ?_⟩
          simpa [popped, hstack] using Passed.waking _ hempty
  | @run turns task queue repr hqueue hpayload =>
      right
      refine ⟨[.poll task], .ran turns, rfl, rfl, ?_⟩
      generalize hpc : Pc.tick (turns + 1) = pc at hpassed
      cases hpassed with
      | tick => simpa [popped, hstack, hqueue] using Passed.ran turns task
      | _ => cases hpc
  | @skip turns task queue repr hqueue hpayload =>
      right
      refine ⟨[], .ran turns, rfl, rfl, ?_⟩
      generalize hpc : Pc.tick (turns + 1) = pc at hpassed
      cases hpassed with
      | tick => simpa [popped, hstack, hqueue] using Passed.ran turns task
      | _ => cases hpc
  | @goto op pc pc' woke events hgoto =>
      right
      refine ⟨[], pc', rfl, rfl, ?_⟩
      cases hgoto with
      | pollMain _ => simp at hevents
      | startTick hclear => simp [hwoke] at hclear
      | nextTask hclear => simp [hwoke] at hclear
      | endTick => cases hpassed
      | @park turns hempty =>
          have hnone : pops = [] := by
            generalize hpc : Pc.tick (turns + 1) = pc at hpassed
            cases hpassed <;> first | rfl | cases hpc
          obtain ⟨pushed, hlaw⟩ := hlaw
          rw [hnone, hempty, List.append_nil, List.append_eq_nil_iff] at hlaw
          simpa [popped, hstack, hempty, hnone] using Passed.parked hlaw.1
      | wokeMain _ =>
          cases hpassed with
          | ran _ task => simpa [popped, hstack] using Passed.topRan task
      | allWoken =>
          cases hpassed with
          | waking _ hempty => simpa [popped, hstack] using Passed.topParked hempty
      | parked =>
          cases hpassed with
          | parked hempty => simpa [popped, hstack] using Passed.waking _ hempty
      | parkedTimeout => cases hpassed
      | mainReady =>
          cases hpassed with
          | polling => simpa [popped, hstack] using Passed.leaving
      | mainPending =>
          cases hpassed with
          | polling => simpa [popped, hstack] using Passed.tick

/-- Until the main future that yielded is polled again, its loop pops one task at most. -/
theorem returning_run (hstack : start.stack = .blockOn .pollMain :: frames)
    (hmid : (system.logged popped).Run (start.wake .main, []) mid (last, pops))
    (hentries : ∀ event ∈ mid, event.1 ≠ .blockOn) (hunpolled : .mainPolled ∉ history mid) :
    Returning start.queue frames last pops ∧
      ∃ pushed, start.queue ++ pushed = pops ++ last.queue := by
  refine hmid.logged_invariant (fun mid last pops => (∀ event ∈ mid, event.1 ≠ .blockOn) →
    .mainPolled ∉ history mid → Returning start.queue frames last pops ∧
      ∃ pushed, start.queue ++ pushed = pops ++ last.queue) ?_ ?_ hentries hunpolled
  · intro _ _
    exact ⟨.inr ⟨rfl, [], .pollMain, hstack, rfl, .polling⟩, [], by simp [wake]⟩
  · intro mid middle last op events pops _ ih hstep hentries hunpolled
    rw [history_snoc, List.mem_append, not_or] at hunpolled
    have hop : op ≠ .blockOn := hentries (op, events) (by simp)
    obtain ⟨hreturning, pushed, hlaw⟩ :=
      ih (fun event hmem => hentries event (List.mem_append_left _ hmem)) hunpolled.1
    constructor
    · rcases hreturning with hleft | ⟨hwoke, above, pc, hmiddle, habove, hpassed⟩
      · exact .inl ((loops_step hop hstep).trans hleft)
      · have hstill : last.woke = true := by
          rw [woke_step hop hstep, hwoke]
          exact asked_true hunpolled.2
        rcases step_turn hmiddle habove hop hstep with ⟨⟨above', hlast, habove'⟩, hnone⟩ |
          ⟨rfl, hturn⟩
        · rw [hnone, List.append_nil]
          exact .inr ⟨hstill, above', pc, hlast, habove', hpassed⟩
        · rcases passed_turn hpassed hwoke hmiddle hunpolled.2 ⟨pushed, hlaw⟩ hturn with
            hleft | hstays
          · exact .inl hleft
          · exact .inr ⟨hstill, hstays⟩
    · obtain ⟨more, hmore⟩ := queue_step hstep
      refine ⟨pushed ++ more, ?_⟩
      rw [← List.append_assoc, hlaw, List.append_assoc, hmore, List.append_assoc]

/-- A main future that yields is polled again after the first task of the queue. -/
theorem main_yields (hbefore : system.Run new before start)
    (hstack : start.stack = .blockOn .pollMain :: frames)
    (hmid : (system.logged popped).Run (start.wake .main, []) mid (last, pops))
    (hentries : ∀ event ∈ mid, event.1 ≠ .blockOn) (hunpolled : .mainPolled ∉ history mid)
    (hlast : last.stack = .blockOn .top :: frames) :
    (∀ other ∈ start.queue, pops.count other = 1) ↔ start.queue.length ≤ 1 := by
  have hnodup := queue_nodup (run_tracks hbefore)
  obtain ⟨hreturning, pushed, hlaw⟩ := returning_run hstack hmid hentries hunpolled
  have hpassed : Passed start.queue .top pops := by
    rcases hreturning with hleft | ⟨-, above, pc, hstays, habove, hpassed⟩
    · rw [hlast, loops_blockOn, List.length_cons] at hleft
      omega
    · obtain ⟨-, rfl, -⟩ := above_of_loop hstays habove hlast
      exact hpassed
  cases hpassed with
  | topParked hempty => simp [hempty]
  | topRan task =>
      rw [List.singleton_append] at hlaw
      cases hqueue : start.queue with
      | nil => simp
      | cons head rest =>
          rw [hqueue, List.cons_append] at hlaw
          obtain ⟨rfl, -⟩ := List.cons.inj hlaw
          cases rest with
          | nil => simp
          | cons next rest =>
              rw [hqueue] at hnodup
              have hne : head ≠ next := by
                rintro rfl
                simp at hnodup
              refine iff_of_false (fun hall => ?_) (by simp)
              have hone := hall next (by simp)
              simp [hne] at hone

end MainYields

/-- Over every run: a task that yields is polled again after each task that was queued at the
yield was run once, exactly if it was not queued itself, or last.  A main future is, if no
`block_on` is entered meanwhile, exactly if no more than one task was queued. -/
theorem yield_runs_others :
    (∀ {before mid : List (Op V × List (Observation V))} {start last final : Executor V}
      {pops : List Nat} {task : Nat} {frames : List (Frame V)},
      system.Run new before start → start.stack = .poll task :: frames →
      (system.logged popped).Run (start.wake (.task task), []) mid (last, pops) →
      .polled task ∉ history mid → system.step last .advance = .next final [.polled task] →
      ((∀ other ∈ start.queue, other ≠ task → pops.count other = 1) ↔
        (task ∉ start.queue ∨ start.queue.getLast? = some task))) ∧
    ∀ {before mid : List (Op V × List (Observation V))} {start last final : Executor V}
      {pops : List Nat} {frames : List (Frame V)},
      system.Run new before start → start.stack = .blockOn .pollMain :: frames →
      (system.logged popped).Run (start.wake .main, []) mid (last, pops) →
      (∀ event ∈ mid, event.1 ≠ .blockOn) → .mainPolled ∉ history mid →
      last.stack = .blockOn .top :: frames →
      system.step last .advance = .next final [.mainPolled] →
      ((∀ other ∈ start.queue, pops.count other = 1) ↔ start.queue.length ≤ 1) := by
  constructor
  · intro before mid start last final pops task frames hbefore hstack hmid hunpolled hpoll
    exact task_yields hbefore hstack hmid hunpolled hpoll
  · intro before mid start last final pops frames hbefore hstack hmid hentries hunpolled hlast _
    exact main_yields hbefore hstack hmid hentries hunpolled hlast

section Examples

/-- A main future that spawned two tasks and yields. -/
def twoQueued : List (Op Nat) := [.spawn 0, .spawn 1, .blockOn, .advance]

/-- It is polled again before the second task is run. -/
theorem main_overtakes :
    ¬ ∀ {before mid : List (Op Nat × List (Observation Nat))} {start last final : Executor Nat}
      {pops : List Nat} {frames : List (Frame Nat)},
      system.Run new before start → start.stack = .blockOn .pollMain :: frames →
      (system.logged popped).Run (start.wake .main, []) mid (last, pops) →
      (∀ event ∈ mid, event.1 ≠ .blockOn) → .mainPolled ∉ history mid →
      last.stack = .blockOn .top :: frames →
      system.step last .advance = .next final [.mainPolled] →
      ∀ other ∈ start.queue, pops.count other = 1 := by
  intro hall
  have hcheck : (system.exec (new : Executor Nat) twoQueued).any (fun start =>
      decide (start.2.stack = [.blockOn .pollMain]) && decide (start.2.queue = [0, 1]) &&
      ((system.logged popped).exec (start.2.wake .main, [])
        [.ret .pending, .advance, .ret .pending, .advance]).any fun result =>
          decide (result.2.2 = [0]) && decide (result.2.1.stack = [.blockOn .top]) &&
          result.2.1.woke && decide (.mainPolled ∉ history result.1) &&
          result.1.all fun event => decide (event.1 ≠ .blockOn)) = true := by decide
  obtain ⟨before, start, hbefore, hpass⟩ := System.exec_check hcheck
  simp only [Bool.and_eq_true, decide_eq_true_eq] at hpass
  obtain ⟨⟨hstart, hqueue⟩, hpass⟩ := hpass
  obtain ⟨mid, ⟨last, pops⟩, hmid, hpass⟩ := System.exec_check hpass
  simp only [Bool.and_eq_true, decide_eq_true_eq, List.all_eq_true] at hpass
  obtain ⟨⟨⟨⟨hpops, hlast⟩, hwoke⟩, hunpolled⟩, hentries⟩ := hpass
  have hpoll : system.step last .advance =
      .next { last with woke := false, stack := [.blockOn .pollMain] } [.mainPolled] := by
    simp [system, step, advance, hlast, hwoke]
  have hone := hall hbefore hstart hmid hentries hunpolled hlast hpoll 1 (by simp [hqueue])
  simp [hpops] at hone

/-- A task yields with another one queued, and a main future with one. -/
theorem yield_runs_others_once :
    (∃ (start last : Executor Nat) (mid : List (Op Nat × List (Observation Nat)))
      (pops : List Nat), start.queue = [1] ∧
        (system.logged popped).Run (start.wake (.task 0), []) mid (last, pops) ∧
        ∀ other ∈ start.queue, other ≠ 0 → pops.count other = 1) ∧
    ∃ (start last : Executor Nat) (mid : List (Op Nat × List (Observation Nat)))
      (pops : List Nat), start.queue = [0] ∧
        (system.logged popped).Run (start.wake .main, []) mid (last, pops) ∧
        ∀ other ∈ start.queue, pops.count other = 1 := by
  constructor
  · have hcheck : (system.exec (new : Executor Nat)
        (twoQueued ++ [.ret .pending, .advance])).any (fun start =>
        decide (start.2.stack = [.poll 0, .blockOn (.ran 60)]) && decide (start.2.queue = [1]) &&
        ((system.logged popped).exec (start.2.wake (.task 0), [])
          [.ret .pending, .advance, .advance, .ret .pending, .advance]).any fun result =>
            decide (.polled 0 ∉ history result.1) &&
            (system.exec result.2.1 [.advance]).any fun final =>
              decide (final.1 = [(.advance, [.polled 0])])) = true := by decide
    obtain ⟨before, start, hbefore, hpass⟩ := System.exec_check hcheck
    simp only [Bool.and_eq_true, decide_eq_true_eq] at hpass
    obtain ⟨⟨hstart, hqueue⟩, hpass⟩ := hpass
    obtain ⟨mid, ⟨last, pops⟩, hmid, hpass⟩ := System.exec_check hpass
    simp only [Bool.and_eq_true, decide_eq_true_eq] at hpass
    obtain ⟨hunpolled, hpass⟩ := hpass
    obtain ⟨next, final, hnext, hpass⟩ := System.exec_check hpass
    have hsingle : next = [(.advance, [.polled 0])] := of_decide_eq_true hpass
    rw [hsingle] at hnext
    obtain ⟨polled, hpoll, -⟩ := hnext.first_step
    refine ⟨start, last, mid, pops, hqueue, hmid, ?_⟩
    exact (yield_runs_others.1 hbefore hstart hmid hunpolled hpoll).mpr (.inl (by simp [hqueue]))
  · have hcheck : (system.exec (new : Executor Nat) [.spawn 0, .blockOn, .advance]).any
        (fun start => decide (start.2.stack = [.blockOn .pollMain]) &&
        decide (start.2.queue = [0]) &&
        ((system.logged popped).exec (start.2.wake .main, [])
          [.ret .pending, .advance, .ret .pending, .advance]).any fun result =>
            decide (result.2.1.stack = [.blockOn .top]) && result.2.1.woke &&
            decide (.mainPolled ∉ history result.1) &&
            result.1.all fun event => decide (event.1 ≠ .blockOn)) = true := by decide
    obtain ⟨before, start, hbefore, hpass⟩ := System.exec_check hcheck
    simp only [Bool.and_eq_true, decide_eq_true_eq] at hpass
    obtain ⟨⟨hstart, hqueue⟩, hpass⟩ := hpass
    obtain ⟨mid, ⟨last, pops⟩, hmid, hpass⟩ := System.exec_check hpass
    simp only [Bool.and_eq_true, decide_eq_true_eq, List.all_eq_true] at hpass
    obtain ⟨⟨⟨hlast, hwoke⟩, hunpolled⟩, hentries⟩ := hpass
    have hpoll : system.step last .advance =
        .next { last with woke := false, stack := [.blockOn .pollMain] } [.mainPolled] := by
      simp [system, step, advance, hlast, hwoke]
    refine ⟨start, last, mid, pops, hqueue, hmid, ?_⟩
    exact (yield_runs_others.2 hbefore hstart hmid hentries hunpolled hlast hpoll).mpr
      (by simp [hqueue])

end Examples

end Platoon.Runtime.Executor
