import Platoon.Time.Sleep

/-!
# Timers

The abstract view of a sleep: a deadline with nothing registered, with an alarm
that will fire, or with an alarm that has fired.  It is determined by the
operations alone.  The code's two copies of this fact, the `alarm` field and the
entry in the clock, agree with it in every reachable state.
-/

namespace Platoon.Time

open Platoon.Foundation Platoon.Rust Platoon.Runtime

inductive Stage where
  | unregistered
  | armed
  | fired
  deriving DecidableEq, Repr

structure Timer where
  deadline : Nat
  stage : Stage
  deriving DecidableEq, Repr

/-- The timers of all sleeps, and how many alarms were registered so far. -/
structure Timers where
  timer : Nat → Option Timer
  registered : Nat

variable {W : Type}

/-- An armed alarm fires when its deadline has come. -/
def Timer.expire (now : Nat) (timer : Timer) : Timer :=
  if timer.stage = .armed ∧ timer.deadline ≤ now then { timer with stage := .fired } else timer

namespace Timers

def new : Timers where
  timer := fun _ => none
  registered := 0

def set (timers : Timers) (name : Nat) (value : Option Timer) : Timers :=
  { timers with timer := Function.update timers.timer name value }

@[simp]
theorem set_same (timers : Timers) (name : Nat) (value : Option Timer) :
    (timers.set name value).timer name = value := by
  simp [set]

theorem set_ne (timers : Timers) (name : Nat) (value : Option Timer) {other : Nat}
    (hne : other ≠ name) : (timers.set name value).timer other = timers.timer other := by
  simp [set, hne]

def expire (timers : Timers) (now : Nat) : Timers :=
  { timers with timer := fun name => (timers.timer name).map (Timer.expire now) }

def step (timers : Timers) : Op W → Timers
  | .sleepUntil name deadline => timers.set name (some ⟨deadline, .unregistered⟩)
  | .poll name now _ =>
      match timers.timer name with
      | some ⟨deadline, .unregistered⟩ =>
          if now < deadline then
            { timers.set name (some ⟨deadline, .armed⟩) with
              registered := timers.registered + 1 }
          else timers
      | _ => timers
  | .reset name deadline =>
      timers.set name ((timers.timer name).map fun timer => { timer with deadline })
  | .drop name => timers.set name none
  | .park now => timers.expire now
  | .parkTimeout now _ => timers.expire now

/-- A step registers at most one alarm. -/
theorem step_registered_le (timers : Timers) (op : Op W) :
    (timers.step op).registered ≤ timers.registered + 1 := by
  cases op with
  | poll name now waker =>
      simp only [step]
      split
      · split
        · exact Nat.le_refl _
        · exact Nat.le_succ _
      · exact Nat.le_succ _
  | _ => exact Nat.le_succ _

theorem registered_le_step (timers : Timers) (op : Op W) :
    timers.registered ≤ (timers.step op).registered := by
  cases op with
  | poll name now waker =>
      simp only [step]
      split
      · split
        · exact Nat.le_succ _
        · exact Nat.le_refl _
      · exact Nat.le_refl _
  | _ => exact Nat.le_refl _

/-- The timers after a trace. -/
def after (trace : List (Op W × Output W)) : Timers :=
  (trace.map Prod.fst).foldl step new

@[simp]
theorem after_snoc (trace : List (Op W × Output W)) (op : Op W) (output : Output W) :
    after (trace ++ [(op, output)]) = (after trace).step op := by
  simp [after]

end Timers

/-- A sleep and its alarm in the clock are in the stage of the timer. -/
inductive Agrees (clock : Clock W) (now : Nat) : Option (Sleep W) → Option Timer → Prop where
  | gone : Agrees clock now none none
  | unregistered (deadline : Nat) :
      Agrees clock now (some ⟨deadline, none⟩) (some ⟨deadline, .unregistered⟩)
  | armed {deadline id : Nat} {waker : W}
      (hentry : clock.alarms.get? (alarmKey deadline id) = some waker) :
      Agrees clock now (some ⟨deadline, some (id, waker)⟩) (some ⟨deadline, .armed⟩)
  | fired {deadline id : Nat} {waker : W}
      (hentry : clock.alarms.get? (alarmKey deadline id) = none) (hcome : deadline ≤ now) :
      Agrees clock now (some ⟨deadline, some (id, waker)⟩) (some ⟨deadline, .fired⟩)

/-- The sleeps and the clock tell the same as the timers; ids are not shared, and
every alarm in the clock has its sleep. -/
structure Matches (state : State W) (timers : Timers) : Prop where
  nextAlarm : state.clock.nextAlarm = timers.registered
  agrees : ∀ name, Agrees state.clock state.now (state.sleeps name) (timers.timer name)
  fresh : ∀ name deadline id waker, state.sleeps name = some ⟨deadline, some (id, waker)⟩ →
    id < state.clock.nextAlarm
  distinct : ∀ name name' deadline deadline' id waker waker',
    state.sleeps name = some ⟨deadline, some (id, waker)⟩ →
    state.sleeps name' = some ⟨deadline', some (id, waker')⟩ → name = name'
  owned : ∀ deadline id waker, state.clock.alarms.get? (alarmKey deadline id) = some waker →
    ∃ name, state.sleeps name = some ⟨deadline, some (id, waker)⟩

/-- Other alarms and earlier readings do not matter to a sleep. -/
theorem Agrees.frame {clock clock' : Clock W} {now now' : Nat} {sleep : Option (Sleep W)}
    {timer : Option Timer} (hagrees : Agrees clock now sleep timer) (hnow : now ≤ now')
    (hsame : ∀ deadline id waker, sleep = some ⟨deadline, some (id, waker)⟩ →
      clock'.alarms.get? (alarmKey deadline id) = clock.alarms.get? (alarmKey deadline id)) :
    Agrees clock' now' sleep timer := by
  cases hagrees with
  | gone => exact .gone
  | unregistered deadline => exact .unregistered deadline
  | armed hentry => exact .armed ((hsame _ _ _ rfl).trans hentry)
  | fired hentry hcome => exact .fired ((hsame _ _ _ rfl).trans hentry) (hcome.trans hnow)

namespace Matches

variable {state : State W} {timers : Timers}

theorem new : Matches (State.new : State W) Timers.new where
  nextAlarm := rfl
  agrees _ := .gone
  fresh := by simp [State.new]
  distinct := by simp [State.new]
  owned := by simp [State.new, Clock.new]

/-- A sleep has no alarm in the clock but its own. -/
theorem entry_unique (hmatches : Matches state timers) {name deadline deadline' id : Nat}
    {waker waker' : W} (hsleep : state.sleeps name = some ⟨deadline, some (id, waker)⟩)
    (hentry : state.clock.alarms.get? (alarmKey deadline' id) = some waker') :
    deadline' = deadline ∧ waker' = waker := by
  obtain ⟨name', hsleep'⟩ := hmatches.owned _ _ _ hentry
  obtain rfl := hmatches.distinct _ _ _ _ _ _ _ hsleep hsleep'
  rw [hsleep, Option.some.injEq, Sleep.mk.injEq, Option.some.injEq, Prod.mk.injEq] at hsleep'
  exact ⟨hsleep'.1.symm, hsleep'.2.2.symm⟩

/-- The next id is not in use. -/
theorem entry_next (hmatches : Matches state timers) (deadline : Nat) :
    state.clock.alarms.get? (alarmKey deadline state.clock.nextAlarm) = none := by
  by_contra hentry
  obtain ⟨waker, hentry⟩ := Option.ne_none_iff_exists'.mp hentry
  obtain ⟨name, hsleep⟩ := hmatches.owned _ _ _ hentry
  exact absurd (hmatches.fresh _ _ _ _ hsleep) (Nat.lt_irrefl _)

/-- The ids that an operation on one sleep may touch: its own and the next one. -/
def Touched (state : State W) (name id : Nat) : Prop :=
  (∃ deadline waker, state.sleeps name = some ⟨deadline, some (id, waker)⟩) ∨
    id = state.clock.nextAlarm

/-- An operation on one sleep keeps the agreement of all. -/
theorem update (hmatches : Matches state timers) {name now : Nat} {clock : Clock W}
    {value : Option (Sleep W)} {timer : Option Timer} {registered : Nat}
    (hnow : state.now ≤ now) (hnext : clock.nextAlarm = registered)
    (hgrow : state.clock.nextAlarm ≤ clock.nextAlarm)
    (hframe : ∀ deadline id, ¬ Touched state name id →
      clock.alarms.get? (alarmKey deadline id) = state.clock.alarms.get? (alarmKey deadline id))
    (hagrees : Agrees clock now value timer)
    (hids : ∀ deadline id waker, value = some ⟨deadline, some (id, waker)⟩ →
      Touched state name id ∧ id < clock.nextAlarm)
    (howned : ∀ deadline id waker, Touched state name id →
      clock.alarms.get? (alarmKey deadline id) = some waker →
      value = some ⟨deadline, some (id, waker)⟩) :
    Matches ({ state with clock, now }.set name value)
      { timers.set name timer with registered } := by
  have hother : ∀ {other deadline id : Nat} {waker : W}, other ≠ name →
      state.sleeps other = some ⟨deadline, some (id, waker)⟩ → ¬ Touched state name id := by
    intro other deadline id waker hne hsleep htouched
    rcases htouched with ⟨deadline', waker', hname⟩ | rfl
    · exact hne (hmatches.distinct _ _ _ _ _ _ _ hsleep hname)
    · exact Nat.lt_irrefl _ (hmatches.fresh _ _ _ _ hsleep)
  refine ⟨hnext, ?_, ?_, ?_, ?_⟩
  · intro other
    by_cases heq : other = name
    · subst heq
      simpa [Timers.set] using hagrees
    · rw [State.set_ne _ _ _ heq, Timers.set_ne _ _ _ heq]
      refine (hmatches.agrees other).frame hnow fun deadline id waker hsleep => ?_
      exact hframe deadline id (hother heq hsleep)
  · intro other deadline id waker hsleep
    by_cases heq : other = name
    · subst heq
      exact (hids deadline id waker (by simpa using hsleep)).2
    · rw [State.set_ne _ _ _ heq] at hsleep
      exact Nat.lt_of_lt_of_le (hmatches.fresh _ _ _ _ hsleep) hgrow
  · intro left right deadline deadline' id waker waker' hleft hright
    by_cases hleftName : left = name
    · by_cases hrightName : right = name
      · rw [hleftName, hrightName]
      · subst hleftName
        rw [State.set_ne _ _ _ hrightName] at hright
        exact absurd (hids _ _ _ (by simpa using hleft)).1 (hother hrightName hright)
    · rw [State.set_ne _ _ _ hleftName] at hleft
      by_cases hrightName : right = name
      · subst hrightName
        exact absurd (hids _ _ _ (by simpa using hright)).1 (hother hleftName hleft)
      · rw [State.set_ne _ _ _ hrightName] at hright
        exact hmatches.distinct _ _ _ _ _ _ _ hleft hright
  · intro deadline id waker hentry
    by_cases htouched : Touched state name id
    · refine ⟨name, ?_⟩
      simpa using howned deadline id waker htouched hentry
    · have hold := (hframe deadline id htouched).symm.trans hentry
      obtain ⟨other, hsleep⟩ := hmatches.owned _ _ _ hold
      have hne : other ≠ name := by
        rintro rfl
        exact htouched (.inl ⟨deadline, waker, hsleep⟩)
      exact ⟨other, by rw [State.set_ne _ _ _ hne]; exact hsleep⟩

/-- A later reading of the clock. -/
theorem reading (hmatches : Matches state timers) {now : Nat} (hnow : state.now ≤ now) :
    Matches { state with now } timers :=
  { hmatches with
    agrees := fun name => (hmatches.agrees name).frame hnow fun _ _ _ _ => rfl }

/-- Another value for a sleep that changes neither its alarm nor the clock. -/
theorem setUnregistered (hmatches : Matches state timers) {name deadline : Nat}
    (hplain : ∀ deadline id waker, state.sleeps name ≠ some ⟨deadline, some (id, waker)⟩) :
    Matches (state.set name (some ⟨deadline, none⟩))
      (timers.set name (some ⟨deadline, .unregistered⟩)) := by
  refine hmatches.update (Nat.le_refl _) hmatches.nextAlarm (Nat.le_refl _) (fun _ _ _ => rfl)
    (.unregistered deadline) (by simp) ?_
  rintro deadline' id waker (⟨deadline'', waker', hsleep⟩ | rfl) hentry
  · exact absurd hsleep (hplain _ _ _)
  · simp [hmatches.entry_next] at hentry

/-- The alarm of a sleep moves to another deadline or changes its waker. -/
theorem move (hmatches : Matches state timers) {name old id new : Nat} {stored waker : W}
    {clock : Clock W} (hsleep : state.sleeps name = some ⟨old, some (id, stored)⟩)
    (hnext : clock.nextAlarm = state.clock.nextAlarm)
    (hget : ∀ deadline other, clock.alarms.get? (alarmKey deadline other) =
      if deadline = new ∧ other = id then some waker
      else if deadline = old ∧ other = id then none
      else state.clock.alarms.get? (alarmKey deadline other)) :
    Matches (State.set { state with clock } name (some ⟨new, some (id, waker)⟩))
      (timers.set name (some ⟨new, .armed⟩)) := by
  have hlt := hmatches.fresh _ _ _ _ hsleep
  refine hmatches.update (Nat.le_refl _) (hnext.trans hmatches.nextAlarm)
    (Nat.le_of_eq hnext.symm) ?_ ?_ ?_ ?_
  · intro deadline other htouched
    have hne : other ≠ id := fun heq => htouched (.inl ⟨old, stored, heq ▸ hsleep⟩)
    simp [hget, hne]
  · exact .armed (by simp [hget])
  · intro deadline other waker' hvalue
    simp only [Option.some.injEq, Sleep.mk.injEq, Prod.mk.injEq] at hvalue
    obtain ⟨-, rfl, -⟩ := hvalue
    exact ⟨.inl ⟨old, stored, hsleep⟩, hnext ▸ hlt⟩
  · rintro deadline other waker' htouched hentry
    rw [hget] at hentry
    split at hentry
    · rename_i heq
      cases hentry
      rw [heq.1, heq.2]
    · split at hentry
      · cases hentry
      · rename_i hnew hold
        rcases htouched with ⟨deadline', stored', hsame⟩ | rfl
        · rw [hsleep, Option.some.injEq, Sleep.mk.injEq, Option.some.injEq,
            Prod.mk.injEq] at hsame
          obtain ⟨-, rfl, -⟩ := hsame
          exact absurd ⟨(hmatches.entry_unique hsleep hentry).1, rfl⟩ hold
        · simp [hmatches.entry_next] at hentry

/-- A sleep without an alarm registers one under the next id. -/
theorem register (hmatches : Matches state timers) {name deadline : Nat} (waker : W)
    (hsleep : state.sleeps name = some ⟨deadline, none⟩) :
    Matches
      (State.set { state with clock := {
        nextAlarm := state.clock.nextAlarm + 1
        alarms := state.clock.alarms.insert (alarmKey deadline state.clock.nextAlarm) waker } }
        name (some ⟨deadline, some (state.clock.nextAlarm, waker)⟩))
      { timers.set name (some ⟨deadline, .armed⟩) with registered := timers.registered + 1 } := by
  refine hmatches.update (Nat.le_refl _) (by rw [hmatches.nextAlarm]) (Nat.le_succ _) ?_ ?_ ?_ ?_
  · intro deadline' other htouched
    have hne : other ≠ state.clock.nextAlarm := fun heq => htouched (.inr heq)
    simp [OrderedMap.get?_insert, Clock.alarmKey_inj, hne]
  · exact .armed (by simp [OrderedMap.get?_insert])
  · intro deadline' other waker' hvalue
    simp only [Option.some.injEq, Sleep.mk.injEq, Prod.mk.injEq] at hvalue
    obtain ⟨-, rfl, -⟩ := hvalue
    exact ⟨.inr rfl, Nat.lt_succ_self _⟩
  · rintro deadline' other waker' htouched hentry
    rcases htouched with ⟨deadline'', stored, hsame⟩ | rfl
    · rw [hsleep] at hsame
      cases hsame
    · rw [OrderedMap.get?_insert] at hentry
      simp only [Clock.alarmKey_inj, and_true] at hentry
      split at hentry
      · rename_i heq
        cases hentry
        rw [heq]
      · simp [hmatches.entry_next] at hentry

/-- A sleep is dropped with its alarm. -/
theorem drop (hmatches : Matches state timers) {name : Nat} {sleep : Sleep W}
    (hsleep : state.sleeps name = some sleep) :
    Matches (State.set { state with clock := sleep.drop state.clock } name none)
      (timers.set name none) := by
  obtain ⟨deadline, alarm⟩ := sleep
  cases alarm with
  | none =>
      refine hmatches.update (Nat.le_refl _) hmatches.nextAlarm (Nat.le_refl _)
        (fun _ _ _ => rfl) .gone (by simp) ?_
      rintro deadline' id waker (⟨deadline'', waker', hsame⟩ | rfl) hentry
      · rw [hsleep] at hsame
        cases hsame
      · simp [Sleep.drop, hmatches.entry_next] at hentry
  | some alarm =>
      obtain ⟨id, stored⟩ := alarm
      refine hmatches.update (Nat.le_refl _) hmatches.nextAlarm (Nat.le_refl _) ?_ .gone
        (by simp) ?_
      · intro deadline' other htouched
        have hne : other ≠ id := fun heq => htouched (.inl ⟨deadline, stored, heq ▸ hsleep⟩)
        simp [Sleep.drop, Clock.removeAlarm, OrderedMap.get?_erase, Clock.alarmKey_inj, hne]
      · rintro deadline' other waker htouched hentry
        simp only [Sleep.drop, Clock.removeAlarm, OrderedMap.get?_erase,
          Clock.alarmKey_inj] at hentry
        split at hentry
        · cases hentry
        · rename_i hold
          rcases htouched with ⟨deadline'', stored', hsame⟩ | rfl
          · rw [hsleep, Option.some.injEq, Sleep.mk.injEq, Option.some.injEq,
              Prod.mk.injEq] at hsame
            obtain ⟨-, rfl, -⟩ := hsame
            exact absurd ⟨(hmatches.entry_unique hsleep hentry).1, rfl⟩ hold
          · simp [hmatches.entry_next] at hentry

/-- Parking fires the alarms whose deadline has come. -/
theorem park (hmatches : Matches state timers) {now : Nat} (hnow : state.now ≤ now) :
    Matches { state with clock := (state.clock.extendWithExpired now).1, now }
      (timers.expire now) where
  nextAlarm := by
    rw [Clock.extendWithExpired_nextAlarm, hmatches.nextAlarm]
    rfl
  agrees name := by
    have hagrees := hmatches.agrees name
    simp only [Timers.expire]
    generalize hsleep : state.sleeps name = sleep at hagrees
    generalize timers.timer name = timer at hagrees
    cases hagrees with
    | gone => exact .gone
    | unregistered deadline => exact .unregistered deadline
    | @armed deadline id waker hentry =>
        by_cases hcome : deadline ≤ now
        · simp only [Option.map_some, Timer.expire, hcome, and_self, ↓reduceIte]
          exact .fired (by simp [Clock.get?_extendWithExpired, Nat.not_lt.mpr hcome]) hcome
        · simp only [Option.map_some, Timer.expire, hcome, and_false, ↓reduceIte]
          exact .armed (by simp [Clock.get?_extendWithExpired, Nat.lt_of_not_le hcome, hentry])
    | @fired deadline id waker hentry hcome =>
        simp only [Option.map_some, Timer.expire, reduceCtorEq, false_and, ↓reduceIte]
        exact .fired (by simp [Clock.get?_extendWithExpired, hentry]) (hcome.trans hnow)
  fresh name deadline id waker hsleep := by
    rw [Clock.extendWithExpired_nextAlarm]
    exact hmatches.fresh name deadline id waker hsleep
  distinct := hmatches.distinct
  owned deadline id waker hentry := by
    rw [Clock.get?_extendWithExpired] at hentry
    split at hentry
    · exact hmatches.owned deadline id waker hentry
    · cases hentry

end Matches

end Platoon.Time
