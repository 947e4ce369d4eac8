import Platoon.Time.Intervals
import Platoon.Time.Alarmed

/-!
# `Timeout`

A `Timeout` polls its future, and its sleep when the future is pending.  The future may
do anything between these polls, also on the clock; its results are given.
-/

namespace Platoon.Time

open Platoon.Foundation Platoon.Rust Platoon.Runtime

variable {W R : Type}

/-- The reading of a park. -/
def Op.reading : Op W → Option Nat
  | .park now | .parkTimeout now _ => some now
  | _ => none

/-- The operation is one on the sleep of the name. -/
def Op.concerns (name : Nat) : Op W → Bool
  | .sleepUntil other _ | .poll other _ _ | .reset other _ | .drop other => decide (other = name)
  | .park _ | .parkTimeout _ _ => false

section Foreign

variable [Wakes W] {profile : Profile} {state last : State W} {timers : Timers}
  {name deadline : Nat} {stored : W} {op : Op W} {output : Output W}

theorem sleeps_of_not_concerns (hforeign : op.concerns name = false)
    (hstep : (system profile).step state op = .next last output) :
    last.sleeps name = state.sleeps name := by
  cases op with
  | sleepUntil other due =>
      simp only [Op.concerns, decide_eq_false_iff_not] at hforeign
      simp only [system, State.step, Outcome.when_eq_next, Outcome.next.injEq] at hstep
      obtain ⟨-, rfl, -⟩ := hstep
      exact State.set_ne _ _ _ (Ne.symm hforeign)
  | poll other now waker =>
      simp only [Op.concerns, decide_eq_false_iff_not] at hforeign
      simp only [system, State.step] at hstep
      split at hstep
      · cases hstep
      · simp only [Outcome.when_eq_next, Outcome.ofExcept_eq_next] at hstep
        obtain ⟨⟨clock, sleep, result⟩, -, heq⟩ := ok_of_bind hstep.2
        cases heq
        exact State.set_ne _ _ _ (Ne.symm hforeign)
  | reset other due =>
      simp only [Op.concerns, decide_eq_false_iff_not] at hforeign
      simp only [system, State.step] at hstep
      split at hstep
      · cases hstep
      · rw [Outcome.ofExcept_eq_next] at hstep
        obtain ⟨⟨clock, sleep⟩, -, heq⟩ := ok_of_bind hstep
        cases heq
        exact State.set_ne _ _ _ (Ne.symm hforeign)
  | drop other =>
      simp only [Op.concerns, decide_eq_false_iff_not] at hforeign
      simp only [system, State.step] at hstep
      split at hstep
      · cases hstep
      · cases hstep
        exact State.set_ne _ _ _ (Ne.symm hforeign)
  | park now =>
      simp only [system, State.step, Outcome.when_eq_next, Outcome.next.injEq] at hstep
      obtain ⟨-, rfl, -⟩ := hstep
      rfl
  | parkTimeout now duration =>
      simp only [system, State.step, Outcome.when_eq_next, Outcome.next.injEq] at hstep
      obtain ⟨-, rfl, -⟩ := hstep
      rfl

/-- Only a park hands out wakers. -/
theorem handed_of_no_reading (hreading : op.reading = none)
    (hstep : (system profile).step state op = .next last output) : output.handed = [] := by
  cases op with
  | sleepUntil other due =>
      simp only [system, State.step, Outcome.when_eq_next, Outcome.next.injEq] at hstep
      obtain ⟨-, -, rfl⟩ := hstep
      rfl
  | poll other now waker =>
      simp only [system, State.step] at hstep
      split at hstep
      · cases hstep
      · simp only [Outcome.when_eq_next, Outcome.ofExcept_eq_next] at hstep
        obtain ⟨result, -, heq⟩ := ok_of_bind hstep.2
        cases heq
        rfl
  | reset other due =>
      simp only [system, State.step] at hstep
      split at hstep
      · cases hstep
      · rw [Outcome.ofExcept_eq_next] at hstep
        obtain ⟨result, -, heq⟩ := ok_of_bind hstep
        cases heq
        rfl
  | drop other =>
      simp only [system, State.step] at hstep
      split at hstep
      · cases hstep
      · cases hstep
        rfl
  | park now => cases hreading
  | parkTimeout now duration => cases hreading

/-- A park takes the expired alarms out of the clock. -/
theorem park_of_reading {now : Nat} (hreading : op.reading = some now)
    (hstep : (system profile).step state op = .next last output) :
    last = { state with clock := (state.clock.extendWithExpired now).1, now } ∧
      output.handed = (state.clock.extendWithExpired now).2.1 := by
  cases op with
  | park other =>
      cases hreading
      simp only [system, State.step, Outcome.when_eq_next, Outcome.next.injEq] at hstep
      obtain ⟨-, rfl, rfl⟩ := hstep
      exact ⟨rfl, rfl⟩
  | parkTimeout other duration =>
      cases hreading
      simp only [system, State.step, Outcome.when_eq_next, Outcome.next.injEq] at hstep
      obtain ⟨-, rfl, rfl⟩ := hstep
      rw [Clock.parkTimeout_clock, parkTimeout_handed]
      exact ⟨rfl, rfl⟩
  | _ => cases hreading

/-- The operations of the others leave the alarm of a sleep until a park at or after its
deadline, which hands the waker out. -/
theorem Matches.alarmed_foreign (hmatches : Matches state timers)
    (halarmed : Alarmed state name deadline stored) (hforeign : op.concerns name = false)
    (hroom : (timers.step op).registered ≤ profile.usizeMax)
    (hstep : (system profile).step state op = .next last output) :
    (Alarmed last name deadline stored ∧ ∀ now, op.reading = some now → now < deadline) ∨
      ∃ now, op.reading = some now ∧ deadline ≤ now ∧ stored ∈ output.handed := by
  cases hreading : op.reading with
  | none =>
      have hkeep : op.renews name = false := by
        cases op with
        | poll | drop => simpa [Op.renews, Op.concerns] using hforeign
        | _ => rfl
      rcases hmatches.alarmed_step halarmed hkeep hroom hstep with ⟨due, id, hsleep, hentry⟩ | hmem
      · obtain ⟨id', hbefore, -⟩ := halarmed
        have hsame := sleeps_of_not_concerns hforeign hstep
        rw [hsleep, hbefore, Option.some.injEq, Sleep.mk.injEq] at hsame
        obtain ⟨rfl, -⟩ := hsame
        exact .inl ⟨⟨id, hsleep, hentry⟩, by simp⟩
      · rw [handed_of_no_reading hreading hstep] at hmem
        cases hmem
  | some now =>
      obtain ⟨rfl, hhanded⟩ := park_of_reading hreading hstep
      by_cases hcome : deadline ≤ now
      · obtain ⟨id, -, hentry⟩ := halarmed
        refine .inr ⟨now, rfl, hcome, ?_⟩
        rw [hhanded]
        exact (findsExpired_of_le state.clock id hcome stored hentry).1
      · rcases halarmed.park now with hkept | ⟨hlate, -⟩
        · refine .inl ⟨hkept, ?_⟩
          rintro _ ⟨⟩
          exact Nat.lt_of_not_le hcome
        · exact absurd hlate hcome

end Foreign

/-- The error of a `Timeout`. -/
inductive TimedOut where
  | timedOut
  deriving DecidableEq, Repr

namespace Timeout

/-- `Timeout::poll`, where the poll of its future returned `inner`. -/
def poll [Wakes W] (profile : Profile) (clock : Clock W) (sleep : Sleep W) (now : Nat) (waker : W)
    (inner : Poll R) : Except Panic (Clock W × Sleep W × Poll (Except TimedOut R)) :=
  match inner with
  | .ready value => .ok (clock, sleep, .ready (.ok value))
  | .pending => do
      let (clock, sleep, poll) ← sleep.poll profile clock now waker
      match poll with
      | .ready _ => .ok (clock, sleep, .ready (.error .timedOut))
      | .pending => .ok (clock, sleep, .pending)

/-- The sleeps of a process, one of them that of the timeout, and whether it returned. -/
structure State (W : Type) where
  time : Time.State W
  finished : Bool

inductive Op (W R : Type) where
  /-- A poll, with the result of the future and the reading of the clock after it. -/
  | poll (now : Nat) (waker : W) (inner : Poll R)
  | drop
  | others (op : Time.Op W)

structure Output (W R : Type) where
  handed : List W := []
  polled : Option (Poll (Except TimedOut R)) := none

def Poll.isReady {α : Type} : Poll α → Bool
  | .ready _ => true
  | .pending => false

/-- Nobody but the timeout uses its sleep, and nobody polls it after it returned. -/
def system [Wakes W] (profile : Profile) (name : Nat) :
    System Panic (State W) (Op W R) (Output W R) where
  step state op :=
    match op with
    | .poll now waker inner =>
        match state.time.sleeps name with
        | none => .disabled
        | some sleep =>
            -- the clock is not read when the future is ready
            let now := if Poll.isReady inner then state.time.now else now
            .when (!state.finished && decide (state.time.now ≤ now)) <| .ofExcept do
              let (clock, sleep, polled) ← poll profile state.time.clock sleep now waker inner
              .ok ({ time := { state.time with clock, now }.set name (some sleep),
                     finished := Poll.isReady polled }, { polled := some polled })
    | .drop =>
        ((Time.system profile).step state.time (.drop name)).andThen fun time _ =>
          .next { state with time } {}
    | .others op =>
        .when (!op.concerns name) <|
          ((Time.system profile).step state.time op).andThen fun time output =>
            .next { state with time } { handed := output.handed }

/-- What a poll ought to return. -/
def verdict (deadline now : Nat) : Poll R → Poll (Except TimedOut R)
  | .ready value => .ready (.ok value)
  | .pending => if deadline ≤ now then .ready (.error .timedOut) else .pending

/-! ## What a step does -/

/-- The result of the sleep as that of the timeout. -/
def ofSleep : Poll Nat → Poll (Except TimedOut R)
  | .ready _ => .ready (.error .timedOut)
  | .pending => .pending

/-- The successful steps: all but the return of the future are steps of the sleeps. -/
inductive Transition [Wakes W] (profile : Profile) (name : Nat) (state : State W) :
    Op W R → State W → Output W R → Prop where
  | done {now : Nat} {waker : W} {value : R} :
      Transition profile name state (.poll now waker (.ready value))
        { state with finished := true } { polled := some (.ready (.ok value)) }
  | asleep {now : Nat} {waker : W} {time : Time.State W} {result : Poll Nat}
      (hstep : (Time.system profile).step state.time (.poll name now waker) =
        .next time { polled := some result }) :
      Transition profile name state (.poll now waker .pending)
        ⟨time, Poll.isReady result⟩ { polled := some (ofSleep result) }
  | drop {time : Time.State W} {output : Time.Output W}
      (hstep : (Time.system profile).step state.time (.drop name) = .next time output) :
      Transition profile name state .drop { state with time } {}
  | others {op : Time.Op W} {time : Time.State W} {output : Time.Output W}
      (hfree : op.concerns name = false)
      (hstep : (Time.system profile).step state.time op = .next time output) :
      Transition profile name state (.others op) { state with time } { handed := output.handed }

section Steps

variable [Wakes W] {profile : Profile} {name deadline : Nat} {state last : State W}
  {op : Op W R} {output : Output W R}

theorem step_cases (hstep : (system profile name).step state op = .next last output) :
    Transition profile name state op last output := by
  cases op with
  | poll now waker inner =>
      simp only [system] at hstep
      split at hstep
      · cases hstep
      · rename_i sleep hsleep
        simp only [Outcome.when_eq_next, Bool.and_eq_true, Bool.not_eq_true', decide_eq_true_eq,
          Outcome.ofExcept_eq_next] at hstep
        obtain ⟨⟨hopen, hnow⟩, hpoll⟩ := hstep
        cases inner with
        | ready value =>
            simp only [poll, Poll.isReady, if_true, ok_bind, Except.ok.injEq,
              Prod.mk.injEq] at hpoll
            obtain ⟨rfl, rfl⟩ := hpoll
            rw [State.set_eq_self _ _ _ hsleep]
            exact .done
        | pending =>
            simp only [poll, Poll.isReady, Bool.false_eq_true, if_false] at hpoll hnow
            cases hresult : sleep.poll profile state.time.clock now waker with
            | error reason => simp [hresult] at hpoll
            | ok result =>
                obtain ⟨clock, sleep', result⟩ := result
                have hinner : (Time.system profile).step state.time (.poll name now waker) =
                    .next ({ state.time with clock, now }.set name (some sleep'))
                      { polled := some result } := by
                  simp [Time.system, State.step, hsleep, hnow, hresult, Outcome.when,
                    Outcome.ofExcept]
                rw [hresult, ok_bind] at hpoll
                cases result with
                | ready due =>
                    cases hpoll
                    exact .asleep hinner
                | pending =>
                    cases hpoll
                    exact .asleep hinner
  | drop =>
      simp only [system, Outcome.andThen_eq_next] at hstep
      obtain ⟨time, inner, hinner, heq⟩ := hstep
      cases heq
      exact .drop hinner
  | others op =>
      simp only [system, Outcome.when_eq_next, Bool.not_eq_true', Outcome.andThen_eq_next] at hstep
      obtain ⟨hfree, time, inner, hinner, heq⟩ := hstep
      cases heq
      exact .others hfree hinner

end Steps

/-! ## Runs -/

/-- What an operation does to the sleeps. -/
def Op.onTime (name : Nat) : Op W R → Option (Time.Op W)
  | .poll now waker .pending => some (.poll name now waker)
  | .poll _ _ (.ready _) => none
  | .drop => some (.drop name)
  | .others op => some op

/-- The reading of a park. -/
def Op.reading : Op W R → Option Nat
  | .others op => op.reading
  | _ => none

def Op.isOthers : Op W R → Bool
  | .others _ => true
  | _ => false

/-- The timers after a trace. -/
def timersAfter (name : Nat) (timers : Timers) (trace : List (Op W R × Output W R)) : Timers :=
  (trace.filterMap fun event => event.1.onTime name).foldl Timers.step timers

/-- Parks before the deadline leave the alarm; the first park at or after it has handed the
waker out. -/
def Waiting (name deadline : Nat) (stored : W) (trace : List (Op W R × Output W R))
    (state : State W) : Prop :=
  (Alarmed state.time name deadline stored ∧
      ∀ event ∈ trace, ∀ now, event.1.reading = some now → now < deadline) ∨
    ∃ event ∈ trace, ∃ now, event.1.reading = some now ∧ deadline ≤ now ∧
      stored ∈ event.2.handed

section Runs

variable {profile : Profile} {name deadline : Nat} {state last : State W} {timers : Timers}
  {op : Op W R} {output : Output W R} {trace front back : List (Op W R × Output W R)}

theorem timersAfter_append (front back : List (Op W R × Output W R)) :
    timersAfter name timers (front ++ back) =
      timersAfter name (timersAfter name timers front) back := by
  simp [timersAfter]

theorem registered_le_timersAfter (name : Nat) (timers : Timers)
    (trace : List (Op W R × Output W R)) :
    timers.registered ≤ (timersAfter name timers trace).registered := by
  unfold timersAfter
  generalize trace.filterMap (fun event => event.1.onTime name) = ops
  induction ops generalizing timers with
  | nil => exact Nat.le_refl _
  | cons op ops ih => exact (Timers.registered_le_step timers op).trans (ih _)

variable [Wakes W]

/-- The sleeps agree with their timers after every step. -/
theorem matches_step (hmatches : Matches state.time timers)
    (hroom : (timersAfter name timers [(op, output)]).registered ≤ profile.usizeMax)
    (hstep : (system profile name).step state op = .next last output) :
    Matches last.time (timersAfter name timers [(op, output)]) := by
  cases step_cases hstep with
  | done => exact hmatches
  | asleep hinner =>
      refine hmatches.step ?_ hinner
      exact hroom
  | drop hinner =>
      refine hmatches.step ?_ hinner
      exact hroom
  | others hfree hinner =>
      refine hmatches.step ?_ hinner
      exact hroom

theorem matches_run (hmatches : Matches state.time timers)
    (hrun : (system profile name).Run state trace last)
    (hroom : (timersAfter name timers trace).registered ≤ profile.usizeMax) :
    Matches last.time (timersAfter name timers trace) := by
  refine hrun.invariant (fun trace last =>
    (timersAfter name timers trace).registered ≤ profile.usizeMax →
      Matches last.time (timersAfter name timers trace)) (fun _ => hmatches) ?_ hroom
  intro trace middle last op output _ ih hstep hroom
  rw [timersAfter_append] at hroom ⊢
  exact matches_step (ih ((registered_le_timersAfter _ _ _).trans hroom)) hroom hstep

/-- While only the others act, the alarm waits for its park. -/
theorem waiting_run {stored : W} (hmatches : Matches state.time timers)
    (halarmed : Alarmed state.time name deadline stored)
    (hrun : (system profile name).Run state trace last)
    (hroom : (timersAfter name timers trace).registered ≤ profile.usizeMax)
    (hothers : ∀ event ∈ trace, event.1.isOthers = true) :
    Waiting name deadline stored trace last := by
  refine hrun.invariant (fun trace last =>
    (timersAfter name timers trace).registered ≤ profile.usizeMax →
      (∀ event ∈ trace, event.1.isOthers = true) → Waiting name deadline stored trace last)
    (fun _ _ => .inl ⟨halarmed, by simp⟩) ?_ hroom hothers
  intro trace middle last op output hprefix ih hstep hroom hothers
  have hbefore : (timersAfter name timers trace).registered ≤ profile.usizeMax := by
    rw [timersAfter_append] at hroom
    exact (registered_le_timersAfter _ _ _).trans hroom
  have hop : op.isOthers = true := hothers (op, output) (by simp)
  rcases ih hbefore fun event hmem => hothers event (List.mem_append_left _ hmem) with
    ⟨hkept, hearly⟩ | ⟨event, hmem, hpark⟩
  · cases step_cases hstep with
    | done => cases hop
    | asleep => cases hop
    | drop => cases hop
    | @others op time inner hfree hinner =>
        have hmiddle := matches_run hmatches hprefix hbefore
        rw [timersAfter_append] at hroom
        rcases hmiddle.alarmed_foreign hkept hfree hroom hinner with
          ⟨hstill, hnow⟩ | ⟨now, hreading, hcome, hmem⟩
        · refine .inl ⟨hstill, fun event hmem now hreading => ?_⟩
          rcases List.mem_append.mp hmem with hold | hnew
          · exact hearly event hold now hreading
          · rw [List.mem_singleton] at hnew
            subst hnew
            exact hnow now hreading
        · refine .inr ⟨(.others op, { handed := inner.handed }), by simp, now, ?_⟩
          exact ⟨hreading, hcome, hmem⟩
  · exact .inr ⟨event, List.mem_append_left _ hmem, hpark⟩

/-- The sleep of a timeout keeps its deadline until the timeout is dropped. -/
def Keeps (name deadline : Nat) (trace : List (Op W R × Output W R)) (state : State W) : Prop :=
  ((∀ event ∈ trace, event.1 ≠ .drop) →
      ∃ alarm, state.time.sleeps name = some ⟨deadline, alarm⟩) ∧
    ((∃ event ∈ trace, event.1 = .drop) → state.time.sleeps name = none)

/-- A poll of the sleep leaves its deadline, and is ready when it has come. -/
theorem asleep_spec {now : Nat} {waker : W} {time time' : Time.State W} {result : Poll Nat}
    (hstep : (Time.system profile).step time (.poll name now waker) =
      .next time' { polled := some result }) :
    ∃ before after, time.sleeps name = some before ∧ time'.sleeps name = some after ∧
      after.deadline = before.deadline ∧
      ofSleep (R := R) result = verdict before.deadline now .pending := by
  simp only [Time.system, State.step] at hstep
  split at hstep
  · cases hstep
  · rename_i before hbefore
    simp only [Outcome.when_eq_next, Outcome.ofExcept_eq_next] at hstep
    obtain ⟨⟨clock, after, result'⟩, hpoll, heq⟩ := ok_of_bind hstep.2
    cases heq
    obtain ⟨hsame, hverdict⟩ := Sleep.poll_spec hpoll
    refine ⟨before, after, hbefore, State.set_same _ _ _, hsame, ?_⟩
    rcases hverdict with ⟨hcome, rfl⟩ | ⟨hpending, rfl⟩
    · simp [ofSleep, verdict, hcome]
    · simp [ofSleep, verdict, Nat.not_le.mpr hpending]

theorem Keeps.step (hkeeps : Keeps name deadline trace state)
    (hstep : (system profile name).step state op = .next last output) :
    Keeps name deadline (trace ++ [(op, output)]) last := by
  obtain ⟨hlive, hdropped⟩ := hkeeps
  have hbefore : (∀ event ∈ trace ++ [(op, output)], event.1 ≠ .drop) →
      ∃ alarm, state.time.sleeps name = some ⟨deadline, alarm⟩ := fun hnone =>
    hlive fun event hmem => hnone event (List.mem_append_left _ hmem)
  cases step_cases hstep with
  | done =>
      refine ⟨hbefore, ?_⟩
      rintro ⟨event, hmem, hdrop⟩
      rcases List.mem_append.mp hmem with hold | hnew
      · exact hdropped ⟨event, hold, hdrop⟩
      · rw [List.mem_singleton] at hnew
        subst hnew
        cases hdrop
  | asleep hinner =>
      obtain ⟨old, new, hold, hnew, hsame, -⟩ := asleep_spec (R := R) hinner
      refine ⟨fun hnone => ?_, ?_⟩
      · obtain ⟨alarm, hsleep⟩ := hbefore hnone
        rw [hold, Option.some.injEq] at hsleep
        subst hsleep
        obtain ⟨due, alarm'⟩ := new
        obtain rfl : due = deadline := hsame
        exact ⟨alarm', hnew⟩
      · rintro ⟨event, hmem, hdrop⟩
        rcases List.mem_append.mp hmem with hearlier | hlast
        · rw [hdropped ⟨event, hearlier, hdrop⟩] at hold
          cases hold
        · rw [List.mem_singleton] at hlast
          subst hlast
          cases hdrop
  | drop hinner =>
      refine ⟨fun hnone => absurd rfl (hnone (.drop, {}) (by simp)), fun _ => ?_⟩
      simp only [Time.system, State.step] at hinner
      split at hinner
      · cases hinner
      · cases hinner
        exact State.set_same _ _ _
  | others hfree hinner =>
      have hsame := sleeps_of_not_concerns hfree hinner
      refine ⟨fun hnone => ?_, ?_⟩
      · rw [hsame]
        exact hbefore hnone
      · rintro ⟨event, hmem, hdrop⟩
        rcases List.mem_append.mp hmem with hold | hnew
        · rw [hsame]
          exact hdropped ⟨event, hold, hdrop⟩
        · rw [List.mem_singleton] at hnew
          subst hnew
          cases hdrop

theorem keeps_run {start : Time.State W} (hsleep : start.sleeps name = some (sleepUntil deadline))
    (hrun : (system profile name).Run (⟨start, false⟩ : State W) trace last) :
    Keeps name deadline trace last :=
  hrun.invariant (Keeps name deadline) ⟨fun _ => ⟨none, hsleep⟩, by simp⟩
    fun _ hkeeps hstep => hkeeps.step hstep

omit [Wakes W] in
/-- The deadline of the sleep while there is one. -/
theorem Keeps.deadline_eq (hkeeps : Keeps name deadline trace state) {sleep : Sleep W}
    (hsleep : state.time.sleeps name = some sleep) : sleep.deadline = deadline := by
  by_cases hdrop : ∃ event ∈ trace, event.1 = .drop
  · rw [hkeeps.2 hdrop] at hsleep
    cases hsleep
  · obtain ⟨alarm, hsame⟩ := hkeeps.1 fun event hmem heq => hdrop ⟨event, hmem, heq⟩
    rw [hsleep, Option.some.injEq] at hsame
    rw [hsame]

/-- Every poll returns what it ought to. -/
theorem verdict_step (hkeeps : Keeps name deadline trace state)
    (hstep : (system profile name).step state op = .next last output) {now : Nat} {waker : W}
    {inner : Poll R} (hop : op = .poll now waker inner) :
    output.polled = some (verdict deadline now inner) := by
  cases step_cases hstep with
  | done =>
      cases hop
      rfl
  | asleep hinner =>
      cases hop
      obtain ⟨old, new, hold, -, -, hverdict⟩ := asleep_spec (R := R) hinner
      rw [hkeeps.deadline_eq hold] at hverdict
      rw [hverdict]
  | drop => cases hop
  | others => cases hop

/-- A pending poll leaves an alarm for the task that polled. -/
theorem alarmed_of_pending {now : Nat} {waker : W} (hmatches : Matches state.time timers)
    (hkeeps : Keeps name deadline trace state)
    (hroom : (timers.step (.poll name now waker)).registered ≤ profile.usizeMax)
    (hstep : (system profile name).step state (.poll now waker .pending : Op W R) =
      .next last output) (hpending : now < deadline) :
    ∃ stored, Wakes.Equivalent stored waker ∧ Alarmed last.time name deadline stored := by
  cases step_cases hstep with
  | asleep hinner =>
      simp only [Time.system, State.step] at hinner
      split at hinner
      · cases hinner
      · rename_i sleep hsleep
        simp only [Outcome.when_eq_next, decide_eq_true_eq, Outcome.ofExcept_eq_next] at hinner
        obtain ⟨clock, after, result, hpoll, -, hregistered⟩ :=
          hmatches.poll hsleep hinner.1 waker hroom
        have hdeadline := hkeeps.deadline_eq hsleep
        obtain ⟨hsame, hverdict⟩ := Sleep.poll_spec hpoll
        have hresult : result = .pending := by
          rcases hverdict with ⟨hcome, -⟩ | ⟨-, hresult⟩
          · exact absurd (hdeadline ▸ hcome) (Nat.not_le.mpr hpending)
          · exact hresult
        obtain ⟨id, stored, halarm, hentry, hequivalent, -⟩ := hregistered hresult
        rw [hpoll, ok_bind] at hinner
        cases hinner.2
        obtain ⟨due, alarm⟩ := after
        cases halarm
        obtain rfl : due = deadline := hsame.trans hdeadline
        exact ⟨stored, hequivalent, id, State.set_same _ _ _, hentry⟩

/-- A poll does not fail while there is room for an alarm. -/
theorem poll_no_panic {now : Nat} {waker : W} {inner : Poll R} {reason : Panic}
    (hmatches : Matches state.time timers) (hroom : timers.registered < profile.usizeMax) :
    (system profile name).step state (.poll now waker inner) ≠ .panic reason := by
  intro hpanic
  simp only [system] at hpanic
  split at hpanic
  · cases hpanic
  · rename_i sleep hsleep
    simp only [Outcome.when_eq_panic, Bool.and_eq_true, decide_eq_true_eq,
      Outcome.ofExcept_eq_panic] at hpanic
    obtain ⟨⟨-, hnow⟩, hpanic⟩ := hpanic
    cases inner with
    | ready value => simp [poll] at hpanic
    | pending =>
        simp only [Poll.isReady, Bool.false_eq_true, if_false] at hnow hpanic
        obtain ⟨clock, after, result, hpoll, -⟩ := hmatches.poll hsleep hnow waker
          ((Timers.step_registered_le timers _).trans hroom)
        rw [poll, hpoll, ok_bind] at hpanic
        cases result with
        | ready due => simp at hpanic
        | pending => simp at hpanic

/-- Over every run of a timeout among other sleeps: a poll returns the result of the future,
else that the deadline has come, else is pending.  It never panics, a pending poll leaves
an alarm that the first park at or after the deadline hands out, and a dropped timeout has
no alarm in the clock. -/
theorem timeout_settles {before : List (Time.Op W × Time.Output W)} {start : Time.State W}
    (hstart : (Time.system profile).Run Time.State.new before start)
    (hsleep : start.sleeps name = some (sleepUntil deadline))
    (hrun : (system profile name).Run (⟨start, false⟩ : State W) trace last)
    (hroom : (timersAfter name (Timers.after before) trace).registered < profile.usizeMax) :
    (∀ event ∈ trace, ∀ now waker inner, event.1 = .poll now waker inner →
        event.2.polled = some (verdict deadline now inner)) ∧
      (∀ front now waker output rest, trace = front ++ (.poll now waker .pending, output) :: rest →
        now < deadline → (∀ event ∈ rest, event.1.isOthers = true) →
        ∃ stored, Wakes.Equivalent stored waker ∧ Waiting name deadline stored rest last) ∧
      ((∃ event ∈ trace, event.1 = .drop) → ∀ due id waker,
        last.time.clock.alarms.get? (alarmKey due id) = some waker →
        ∃ other, other ≠ name ∧ last.time.sleeps other = some ⟨due, some (id, waker)⟩) ∧
      ∀ now waker (inner : Poll R) reason,
        (system profile name).step last (.poll now waker inner) ≠ .panic reason := by
  have hgrow := registered_le_timersAfter name (Timers.after before) trace
  have hfirst := run_matches hstart (hgrow.trans hroom.le)
  have hlast := matches_run hfirst hrun hroom.le
  refine ⟨?_, ?_, ?_, fun now waker inner reason => poll_no_panic hlast hroom⟩
  · refine (hrun.invariant (fun trace last => Keeps name deadline trace last ∧
      ∀ event ∈ trace, ∀ now waker inner, event.1 = .poll now waker inner →
        event.2.polled = some (verdict deadline now inner))
      ⟨⟨fun _ => ⟨none, hsleep⟩, by simp⟩, by simp⟩ ?_).2
    rintro trace middle last op output - ⟨hkeeps, hall⟩ hstep
    refine ⟨hkeeps.step hstep, fun event hmem now waker inner hop => ?_⟩
    rcases List.mem_append.mp hmem with hold | hnew
    · exact hall event hold now waker inner hop
    · rw [List.mem_singleton] at hnew
      subst hnew
      exact verdict_step hkeeps hstep hop
  · rintro front now waker output rest rfl hpending hothers
    obtain ⟨middle, hfront, hback⟩ := hrun.split
    obtain ⟨next, hstep, hrest⟩ := hback.first_step
    rw [timersAfter_append] at hroom
    have hmiddle := matches_run hfirst hfront ((registered_le_timersAfter _ _ _).trans hroom.le)
    have hwhole : timersAfter name (timersAfter name (Timers.after before) front)
          ((.poll now waker .pending, output) :: rest) =
        timersAfter name (timersAfter name (timersAfter name (Timers.after before) front)
          [(.poll now waker .pending, output)]) rest :=
      timersAfter_append [(.poll now waker .pending, output)] rest
    rw [hwhole] at hroom
    have hpoll := (registered_le_timersAfter _ _ _).trans hroom.le
    obtain ⟨stored, hequivalent, halarmed⟩ :=
      alarmed_of_pending hmiddle (keeps_run hsleep hfront) hpoll hstep hpending
    exact ⟨stored, hequivalent,
      waiting_run (matches_step hmiddle hpoll hstep) halarmed hrest hroom.le hothers⟩
  · intro hdropped due id waker hentry
    obtain ⟨other, hother⟩ := hlast.owned due id waker hentry
    refine ⟨other, ?_, hother⟩
    rintro rfl
    rw [(keeps_run hsleep hrun).2 hdropped] at hother
    cases hother

end Runs

/-- A timeout at instant 5 beside a sleep until instant 3. -/
def besideSleep : List (Op Nat Nat) :=
  [.others (.sleepUntil 1 3), .poll 1 7 .pending, .others (.poll 1 2 8), .others (.park 4),
    .others (.park 5)]

theorem timeout_settles_besideSleep :
    ∃ (start : Time.State Nat) (trace : List (Op Nat Nat × Output Nat Nat)) (state : State Nat),
      (system Profile.release 0).Run (⟨start, false⟩ : State Nat) trace state ∧
      trace.map Prod.fst = besideSleep ∧ Waiting 0 5 7 (trace.drop 2) state ∧
      (∀ reason, (system Profile.release 0).step state (.poll 5 7 .pending : Op Nat Nat) ≠
        .panic reason) := by
  let start := (State.new : Time.State Nat).set 0 (some (sleepUntil 5))
  have hbefore : (Time.system Profile.release).exec (State.new : Time.State Nat)
      [.sleepUntil 0 5] = some ([(.sleepUntil 0 5, {})], start) := rfl
  have hexec : (system Profile.release 0).exec (⟨start, false⟩ : State Nat) besideSleep =
      some (_, _) := rfl
  have hrun := System.exec_run hexec
  obtain ⟨-, hwaits, -, hpanics⟩ := timeout_settles (System.exec_run hbefore) rfl hrun (by decide)
  obtain ⟨stored, rfl, hwaiting⟩ := hwaits
    [(.others (.sleepUntil 1 3), {})] 1 7 _ _ rfl (by decide) (by decide)
  exact ⟨start, _, _, hrun, rfl, hwaiting, fun reason => hpanics 5 7 .pending reason⟩

end Timeout

end Platoon.Time
