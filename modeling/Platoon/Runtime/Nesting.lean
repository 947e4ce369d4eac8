import Platoon.Runtime.Ticks

/-!
# Nested loops

All loops on an executor share one flag.  `asked` says what the flag means to
an observer: whether a main future was woken since the latest poll of one
began.  A loop that polls its own future thereby forgets that the future of an
outer loop was woken.
-/

namespace Platoon.Runtime.Executor

open Platoon.Foundation Platoon.Rust

variable {V : Type}

def askedNext (asked : Bool) : Observation V → Bool
  | .mainPolled => false
  | .invoked .main => true
  | _ => asked

/-- Whether a main future is to be polled after what was observed, if `asked` says so before. -/
def asked (asked : Bool) (observed : List (Observation V)) : Bool := observed.foldl askedNext asked

/-- The main waker is invoked after every poll of a main future. -/
def AskedLast (observed : List (Observation V)) : Prop :=
  ∃ before after, observed = before ++ .invoked .main :: after ∧ .mainPolled ∉ after

section Asked

variable {observed : List (Observation V)} {flag : Bool}

@[simp]
theorem asked_nil : asked flag ([] : List (Observation V)) = flag := rfl

@[simp]
theorem asked_append (before after : List (Observation V)) :
    asked flag (before ++ after) = asked (asked flag before) after := by
  simp [asked]

theorem asked_singleton (event : Observation V) : asked flag [event] = askedNext flag event := rfl

/-- Without polls of main futures, nothing is forgotten. -/
theorem asked_true (hpolled : .mainPolled ∉ observed) : asked true observed = true := by
  induction observed using List.reverseRecOn with
  | nil => rfl
  | append_singleton observed event ih =>
      simp only [List.mem_append, List.mem_singleton, not_or] at hpolled
      rw [asked_append, ih hpolled.1, asked_singleton]
      cases event with
      | mainPolled => exact absurd rfl hpolled.2
      | invoked waker => cases waker <;> rfl
      | _ => rfl

/-- The flag is set when the main waker was invoked after every poll, or nothing cleared it. -/
theorem asked_iff : asked flag observed = true ↔
    AskedLast observed ∨ (flag = true ∧ .mainPolled ∉ observed) := by
  constructor
  · intro hasked
    induction observed using List.reverseRecOn with
    | nil => exact .inr ⟨hasked, by simp⟩
    | append_singleton observed event ih =>
        rw [asked_append, asked_singleton] at hasked
        have hkeep : event ≠ .mainPolled → asked flag observed = true →
            AskedLast (observed ++ [event]) ∨
              (flag = true ∧ .mainPolled ∉ observed ++ [event]) := by
          intro hne hbefore
          rcases ih hbefore with ⟨before, after, rfl, hafter⟩ | ⟨hflag, hnone⟩
          · exact .inl ⟨before, after ++ [event], by simp, by simp [hafter, hne.symm]⟩
          · exact .inr ⟨hflag, by simp [hnone, hne.symm]⟩
        cases event with
        | mainPolled => cases hasked
        | invoked waker =>
            cases waker with
            | main => exact .inl ⟨observed, [], rfl, by simp⟩
            | task task => exact hkeep (by simp) hasked
            | foreign name => exact hkeep (by simp) hasked
        | _ => exact hkeep (by simp) hasked
  · rintro (⟨before, after, rfl, hafter⟩ | ⟨rfl, hnone⟩)
    · have hsplit : before ++ .invoked .main :: after =
          (before ++ [.invoked .main]) ++ after := by simp
      rw [hsplit, asked_append, asked_append, asked_singleton]
      exact asked_true hafter
    · exact asked_true hnone

/-- What was woken after every poll was woken. -/
theorem AskedLast.mem (hasked : AskedLast observed) : .invoked .main ∈ observed := by
  obtain ⟨before, after, rfl, -⟩ := hasked
  simp

/-- Where no main future is polled, one invocation is enough. -/
theorem askedLast_of_mem (hmem : .invoked .main ∈ observed) (hpolled : .mainPolled ∉ observed) :
    AskedLast observed := by
  obtain ⟨before, after, rfl⟩ := List.append_of_mem hmem
  exact ⟨before, after, rfl, fun hafter => hpolled (by simp [hafter])⟩

end Asked

section Flag

variable {executor last : Executor V} {trace : List (Op V × List (Observation V))}

@[simp]
theorem woke_wake (waker : Waker) :
    (executor.wake waker).woke = askedNext (V := V) executor.woke (.invoked waker) := by
  cases waker with
  | main => rfl
  | foreign name => rfl
  | task task =>
      simp only [wake, askedNext]
      split
      · rfl
      · split <;> rfl

/-- Every step but the entry of a loop changes the flag as observed. -/
theorem woke_step {op : Op V} {events : List (Observation V)} (hop : op ≠ .blockOn)
    (hstep : executor.step op = .next last events) :
    last.woke = asked executor.woke events := by
  cases step_move hstep with
  | loop hstack hgoto =>
      cases hgoto with
      | pollMain hwoke => rfl
      | startTick hwoke => exact hwoke.symm
      | wokeMain hwoke => exact hwoke.symm
      | nextTask hwoke => exact hwoke.symm
      | _ => rfl
  | handed hstack =>
      rw [woke_wake]
      rfl
  | complete hstack htask =>
      simp only [complete]
      split
      · rw [woke_wake]
        rfl
      · rfl
  | blockOn huser => exact absurd rfl hop
  | wake huser => exact woke_wake _
  | _ => rfl

/-- At the head of a loop that was just entered the flag is set; anywhere else it is what the
observer expects. -/
def Agrees (expected : Bool) (executor : Executor V) : Prop :=
  executor.woke = expected ∨
    (executor.woke = true ∧ ∃ frames, executor.stack = .blockOn .top :: frames)

theorem agrees_step {expected : Bool} (hagrees : Agrees expected executor) {op : Op V}
    {events : List (Observation V)} (hstep : executor.step op = .next last events) :
    Agrees (asked expected events) last := by
  by_cases hop : op = .blockOn
  · subst hop
    have hmove : Move executor .blockOn last events := step_move hstep
    cases hmove with
    | loop hstack hgoto => cases hgoto
    | blockOn huser => exact .inr ⟨rfl, _, rfl⟩
  · rw [Agrees, woke_step hop hstep]
    rcases hagrees with hwoke | ⟨hwoke, frames, hstack⟩
    · exact .inl (by rw [hwoke])
    · left
      -- the loop polls its future at once
      cases step_move hstep with
      | @loop op pc pc' woke events frames' hstack' hgoto =>
          rw [hstack] at hstack'
          cases hstack'
          cases hgoto with
          | pollMain _ => rfl
          | startTick hclear => simp [hwoke] at hclear
      | blockOn huser => exact absurd rfl hop
      | _ => simp_all [userRuns, Frame.userRuns]

theorem run_agrees {first : Executor V} (hrun : system.Run first trace last) :
    Agrees (asked first.woke (history trace)) last := by
  refine hrun.invariant (fun trace executor =>
    Agrees (asked first.woke (history trace)) executor) (.inl rfl) ?_
  intro trace middle last op events _ hagrees hstep
  rw [history_snoc, asked_append]
  exact agrees_step hagrees hstep

end Flag

section Nested

variable {start middle last final : Executor V}
  {before window inner rest : List (Op V × List (Observation V))} {task turns : Nat}
  {frames : List (Frame V)}

/-- A main future is polled at `start`; after `window`, a task calls `block_on`, and this
call returns at `last`. -/
structure Nested (start middle last : Executor V)
    (before window inner : List (Op V × List (Observation V))) (task turns : Nat)
    (frames : List (Frame V)) : Prop where
  reached : system.Run new before start
  polled : start.stack = .blockOn .pollMain :: frames
  window : system.Run start window middle
  calls : middle.stack = .poll task :: .blockOn (.ran turns) :: frames
  inner : system.Run middle ((.blockOn, []) :: inner) last
  returned : last.stack = .poll task :: .blockOn (.ran turns) :: frames

/-- The outer loop is about to read the flag, or a frame above it runs, and the flag is set. -/
def AboutToPoll (turns : Nat) (frames : List (Frame V)) (executor : Executor V) : Prop :=
  executor.woke = true ∧ ∃ above pc, executor.stack = above ++ .blockOn pc :: frames ∧
    loops above = [] ∧ (pc = .ran turns ∨ pc = .top)

theorem aboutToPoll_step (habout : AboutToPoll turns frames start) {op : Op V}
    {events : List (Observation V)} (hop : op ≠ .blockOn) (hevents : .mainPolled ∉ events)
    (hstep : start.step op = .next last events) : AboutToPoll turns frames last := by
  obtain ⟨hwoke, above, pc, hstack, habove, hpc⟩ := habout
  have hstill : last.woke = true := by
    rw [woke_step hop hstep, hwoke]
    exact asked_true hevents
  refine ⟨hstill, ?_⟩
  rcases step_turn hstack habove hop hstep with ⟨⟨above', hlast, habove'⟩, -⟩ | ⟨-, hturn⟩
  · exact ⟨above', pc, hlast, habove', hpc⟩
  · cases hturn with
    | goto hgoto =>
        cases hgoto with
        | wokeMain _ => exact ⟨[], .top, rfl, rfl, .inr rfl⟩
        | pollMain _ => simp at hevents
        | startTick hclear => simp [hwoke] at hclear
        | nextTask hclear => simp [hwoke] at hclear
        | _ => simp at hpc
    | _ => simp at hpc

/-- Where the flag says so, the outer loop polls its future before it parks. -/
theorem polled_before_park (hwoke : start.woke = true)
    (hstack : start.stack = .poll task :: .blockOn (.ran turns) :: frames)
    (hrun : system.Run start rest last) (hrest : ∀ event ∈ rest, event.1 ≠ .blockOn)
    (hparks : last.stack = .blockOn .park :: frames ∨
      last.stack = .blockOn .parkTimeout :: frames) : .mainPolled ∈ history rest := by
  by_contra hnone
  have habout : AboutToPoll turns frames last := by
    refine hrun.invariant (fun trace executor =>
      (∀ event ∈ trace, event.1 ≠ .blockOn) → .mainPolled ∉ history trace →
        AboutToPoll turns frames executor) ?_ ?_ hrest hnone
    · intro _ _
      exact ⟨hwoke, [.poll task], .ran turns, hstack, rfl, .inl rfl⟩
    · intro trace middle last op events _ ih hstep hrest hnone
      rw [history_snoc, List.mem_append, not_or] at hnone
      have hbefore := ih (fun event hmem => hrest event (List.mem_append_left _ hmem)) hnone.1
      exact aboutToPoll_step hbefore (hrest (op, events) (by simp)) hnone.2 hstep
  obtain ⟨-, above, pc, hlast, hloops, hpc⟩ := habout
  have hframes : ∀ pc', last.stack = .blockOn pc' :: frames → pc' = pc := by
    intro pc' hother
    have hlength := congrArg List.length (hother.symm.trans hlast)
    simp only [List.length_cons, List.length_append] at hlength
    have hnil : above = [] := List.eq_nil_of_length_eq_zero (by omega)
    rw [hother, hnil] at hlast
    simpa using hlast
  rcases hparks with hpark | hpark
  · have hsame := hframes _ hpark
    subst hsame
    simp at hpc
  · have hsame := hframes _ hpark
    subst hsame
    simp at hpc

/-- For every nested call: when it returns, an outer future that was woken is still to be
polled exactly if it was woken again after the last poll of the inner future.  If it is, the
outer loop polls it before it parks. -/
theorem nested_wake_survives
    (hnested : Nested start middle last before window inner task turns frames) :
    ((.invoked .main ∈ history (window ++ (.blockOn, []) :: inner) → last.woke = true) ↔
      (.invoked .main ∈ history (window ++ (.blockOn, []) :: inner) →
        AskedLast (history (window ++ (.blockOn, []) :: inner)))) ∧
      (last.woke = true → ∀ rest final, system.Run last rest final →
        (∀ event ∈ rest, event.1 ≠ .blockOn) →
        (final.stack = .blockOn .park :: frames ∨ final.stack = .blockOn .parkTimeout :: frames) →
        .mainPolled ∈ history rest) := by
  have hwoke : last.woke = asked start.woke (history (window ++ (.blockOn, []) :: inner)) := by
    rcases run_agrees (hnested.window.trans hnested.inner) with hwoke | ⟨-, frames', hstack⟩
    · exact hwoke
    · rw [hnested.returned] at hstack
      cases hstack
  constructor
  · rw [hwoke, asked_iff]
    constructor
    · intro hkeeps hmem
      rcases hkeeps hmem with hasked | ⟨-, hnone⟩
      · exact hasked
      · exact askedLast_of_mem hmem hnone
    · intro hasked hmem
      exact .inl (hasked hmem)
  · intro hset rest final hrun hrest hparks
    exact polled_before_park hset hnested.returned hrun hrest hparks

end Nested

section Calls

/-- A task calls `block_on` in its first poll, and the call returns. -/
theorem nested_of_exec (window inner : List (Op Nat))
    (check : List (Observation Nat) → List (Observation Nat) → Bool → Bool)
    (hcheck : (system.exec (new : Executor Nat) [.spawn 0, .blockOn, .advance]).any (fun start =>
      decide (start.2.stack = [.blockOn .pollMain]) &&
      (system.exec start.2 window).any fun middle =>
        decide (middle.2.stack = [.poll 0, .blockOn (.ran 60)]) &&
        (system.exec middle.2 (.blockOn :: inner)).any fun last =>
          decide (last.1.head? = some (.blockOn, [])) &&
          decide (last.2.stack = [.poll 0, .blockOn (.ran 60)]) &&
          check (history middle.1) (history last.1) last.2.woke) = true) :
    ∃ start middle last before window inner, Nested start middle last before window inner 0 60 [] ∧
      check (history window) (history ((.blockOn, []) :: inner)) last.woke = true := by
  obtain ⟨before, start, hbefore, hpass⟩ := System.exec_check hcheck
  simp only [Bool.and_eq_true, decide_eq_true_eq] at hpass
  obtain ⟨hstart, hpass⟩ := hpass
  obtain ⟨window, middle, hwindow, hpass⟩ := System.exec_check hpass
  simp only [Bool.and_eq_true, decide_eq_true_eq] at hpass
  obtain ⟨hmiddle, hpass⟩ := hpass
  obtain ⟨call, last, hcall, hpass⟩ := System.exec_check hpass
  simp only [Bool.and_eq_true, decide_eq_true_eq] at hpass
  obtain ⟨⟨hhead, hlast⟩, hpass⟩ := hpass
  obtain ⟨inner, rfl⟩ := List.head?_eq_some_iff.mp hhead
  exact ⟨start, middle, last, before, window, inner,
    { reached := hbefore
      polled := hstart
      window := hwindow
      calls := hmiddle
      inner := hcall
      returned := hlast }, hpass⟩

/-- A task wakes the main future and calls `block_on` with a future that is ready at once: the
wake is gone when the call returns. -/
theorem nested_call_takes_wake :
    ¬ ∀ (start middle last : Executor Nat) before window inner task turns frames,
      Nested start middle last before window inner task turns frames →
      .mainPolled ∉ history window →
      .invoked .main ∈ history (window ++ (.blockOn, []) :: inner) → last.woke = true := by
  intro hall
  obtain ⟨start, middle, last, before, window, inner, hnested, hpass⟩ := nested_of_exec
    [.ret .pending, .advance, .wake .main] [.advance, .ret (.ready 7), .advance]
    (fun window _ woke =>
      decide (.mainPolled ∉ window) && decide (.invoked .main ∈ window) && !woke) (by decide)
  simp only [Bool.and_eq_true, decide_eq_true_eq, Bool.not_eq_true'] at hpass
  obtain ⟨⟨hpolled, hwoken⟩, hlost⟩ := hpass
  have hmem : .invoked .main ∈ history (window ++ (.blockOn, []) :: inner) := by
    rw [history, List.flatMap_append]
    exact List.mem_append_left _ hwoken
  have hkept := hall _ _ _ _ _ _ _ _ _ hnested hpolled hmem
  rw [hlost] at hkept
  cases hkept

/-- A main future that is woken in the poll of the inner future. -/
theorem nested_wake_survives_inner :
    ∃ start middle last before window inner,
      Nested (V := Nat) start middle last before window inner 0 60 [] ∧ last.woke = true := by
  obtain ⟨start, middle, last, before, window, inner, hnested, hpass⟩ := nested_of_exec
    [.ret .pending, .advance] [.advance, .wake .main, .ret (.ready 7), .advance]
    (fun window inner _ =>
      decide (window ++ inner = [.polled 0, .mainPolled, .invoked .main, .returned 7]))
    (by decide)
  have hevents : history (window ++ (.blockOn, []) :: inner) =
      [.polled 0, .mainPolled] ++ .invoked .main :: [.returned 7] := by
    rw [history, List.flatMap_append]
    exact of_decide_eq_true hpass
  refine ⟨start, middle, last, before, window, inner, hnested, ?_⟩
  apply (nested_wake_survives hnested).1.mpr
  · intro _
    exact ⟨_, _, hevents, by simp⟩
  · simp [hevents]

end Calls

end Platoon.Runtime.Executor
