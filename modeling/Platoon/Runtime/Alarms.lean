import Platoon.Foundation.Transition
import Platoon.Runtime.Clock

/-!
# Which alarms a park hands out

A system of a clock and anyone who inserts, removes, resets and replaces its
alarms and parks it at any readings.  What an alarm is set to is told by the
trace alone; the map of the clock holds exactly the alarms that are set and
whose deadline no park has reached since.
-/

namespace Platoon.Runtime.Alarms

open Platoon.Foundation Platoon.Rust

/-- The operations on a clock; a park reads the time `now`. -/
inductive Op (W : Type) where
  | insert (deadline : Nat) (waker : W)
  | remove (id deadline : Nat)
  | reset (id old new : Nat)
  | replace (id deadline : Nat) (waker : W)
  | park (now : Nat)
  | parkTimeout (now duration : Nat)
  deriving DecidableEq, Repr

/-- The id of an inserted alarm, the wakers handed out by a park, and how long the
parker below is told to wait at most. -/
structure Output (W : Type) where
  id : Option Nat := none
  handed : List W := []
  waits : Option Nat := none
  deriving DecidableEq, Repr

variable {W : Type}

def step (profile : Profile) (clock : Clock W) : Op W → Outcome Panic (Clock W) (Output W)
  | .insert deadline waker => .ofExcept do
      let (clock, id) ← clock.insertAlarm profile deadline waker
      .ok (clock, { id := some id })
  | .remove id deadline => .next (clock.removeAlarm id deadline) {}
  | .reset id old new => .ofExcept do
      let clock ← clock.resetAlarm id old new
      .ok (clock, {})
  | .replace id deadline waker => .ofExcept do
      let clock ← clock.replaceAlarmWaker id deadline waker
      .ok (clock, {})
  | .park now =>
      let (clock, handed, waits) := clock.park now
      .next clock { handed, waits }
  | .parkTimeout now duration =>
      let (clock, handed, waits) := clock.parkTimeout now duration
      .next clock { handed, waits }

def system (profile : Profile) : System Panic (Clock W) (Op W) (Output W) where
  step := step profile

/-- The reading of a park. -/
def Op.reading : Op W → Option Nat
  | .park now => some now
  | .parkTimeout now _ => some now
  | _ => none

/-! ## What one operation does -/

/-- The expired alarms at `now` in the order in which they are handed out. -/
def ready (clock : Clock W) (now : Nat) : List (AlarmKey × W) :=
  (clock.alarms.splitOff (alarmKey (now + 1) 0)).1.entries

theorem mem_ready {clock : Clock W} {now deadline id : Nat} {waker : W} :
    (alarmKey deadline id, waker) ∈ ready clock now ↔
      clock.alarms.get? (alarmKey deadline id) = some waker ∧ deadline ≤ now := by
  rw [ready, OrderedMap.splitOff, OrderedMap.filterKeys, List.mem_filter,
    ← OrderedMap.get?_eq_some, decide_eq_true_eq, ← not_le, Clock.boundary_le, not_lt]

theorem ready_sorted (clock : Clock W) (now : Nat) :
    (ready clock now).Pairwise fun left right => left.1 < right.1 :=
  (clock.alarms.splitOff (alarmKey (now + 1) 0)).1.sorted

theorem handed_ready (clock : Clock W) (now : Nat) :
    (clock.extendWithExpired now).2.1 = (ready clock now).map Prod.snd := by
  change _ = (clock.alarms.splitOff (alarmKey (now + 1) 0)).1.values
  unfold Clock.extendWithExpired
  cases hready : (clock.alarms.splitOff (alarmKey (now + 1) 0)).1.values <;> simp [hready]

/-- The successful steps, with what the lookups of the code found. -/
inductive Transition (profile : Profile) (clock : Clock W) :
    Op W → Clock W → Output W → Prop where
  | insert {deadline next : Nat} {waker : W}
      (hnext : profile.add clock.nextAlarm 1 = .ok next) :
      Transition profile clock (.insert deadline waker)
        { nextAlarm := next
          alarms := clock.alarms.insert (alarmKey deadline clock.nextAlarm) waker }
        { id := some clock.nextAlarm }
  | remove (id deadline : Nat) :
      Transition profile clock (.remove id deadline) (clock.removeAlarm id deadline) {}
  | reset {id old new : Nat} {waker : W}
      (hentry : clock.alarms.get? (alarmKey old id) = some waker) :
      Transition profile clock (.reset id old new)
        { clock with
          alarms := (clock.alarms.erase (alarmKey old id)).insert (alarmKey new id) waker } {}
  | replace {id deadline : Nat} {old waker : W}
      (hentry : clock.alarms.get? (alarmKey deadline id) = some old) :
      Transition profile clock (.replace id deadline waker)
        { clock with alarms := clock.alarms.insert (alarmKey deadline id) waker } {}
  | park {op : Op W} {now : Nat} {waits : Option Nat} (hreading : op.reading = some now) :
      Transition profile clock op (clock.extendWithExpired now).1
        { handed := (ready clock now).map Prod.snd, waits }

variable {profile : Profile} {clock last : Clock W} {op : Op W} {output : Output W}

theorem step_transition (hstep : (system profile).step clock op = .next last output) :
    Transition profile clock op last output := by
  cases op with
  | insert deadline waker =>
      simp only [system, step, Clock.insertAlarm, Outcome.ofExcept_eq_next] at hstep
      cases hnext : profile.add clock.nextAlarm 1 with
      | error reason => simp [hnext] at hstep
      | ok next =>
          simp only [hnext, ok_bind, Except.ok.injEq, Prod.mk.injEq] at hstep
          obtain ⟨rfl, rfl⟩ := hstep
          exact .insert hnext
  | remove id deadline =>
      cases hstep
      exact .remove id deadline
  | reset id old new =>
      simp only [system, step, Clock.resetAlarm, Outcome.ofExcept_eq_next] at hstep
      cases hentry : clock.alarms.get? (alarmKey old id) with
      | none => simp [hentry] at hstep
      | some waker =>
          simp only [hentry, ok_bind, Except.ok.injEq, Prod.mk.injEq] at hstep
          obtain ⟨rfl, rfl⟩ := hstep
          exact .reset hentry
  | replace id deadline waker =>
      simp only [system, step, Clock.replaceAlarmWaker, Outcome.ofExcept_eq_next] at hstep
      cases hentry : clock.alarms.get? (alarmKey deadline id) with
      | none => simp [hentry] at hstep
      | some old =>
          simp only [hentry, ok_bind, Except.ok.injEq, Prod.mk.injEq] at hstep
          obtain ⟨rfl, rfl⟩ := hstep
          exact .replace hentry
  | park now =>
      simp only [system, step, Clock.park, Outcome.next.injEq] at hstep
      obtain ⟨rfl, rfl⟩ := hstep
      rw [handed_ready]
      exact .park rfl
  | parkTimeout now duration =>
      simp only [system, step, Outcome.next.injEq, Clock.parkTimeout_clock] at hstep
      obtain ⟨rfl, rfl⟩ := hstep
      have hhanded : (clock.parkTimeout now duration).2.1 =
          (clock.extendWithExpired now).2.1 := by
        rcases hresult : clock.extendWithExpired now with ⟨rest, wakers, next⟩
        simp only [Clock.parkTimeout, hresult]
        cases next <;> rfl
      rw [hhanded, handed_ready]
      exact .park rfl

/-! ## What the trace says of an alarm -/

/-- What an alarm was last set to, and the readings of the parks since it was inserted
or last reset. -/
structure Setting (W : Type) where
  deadline : Nat
  waker : W
  parks : List Nat

/-- No park has reached the deadline yet. -/
def Setting.Pending (setting : Setting W) : Prop :=
  ∀ now ∈ setting.parks, now < setting.deadline

def Setting.park (now : Nat) (setting : Setting W) : Setting W :=
  { setting with parks := setting.parks ++ [now] }

/-- What one event says of the alarm `id`. -/
def track (id : Nat) (setting : Option (Setting W)) :
    Op W × Output W → Option (Setting W)
  | (.insert deadline waker, output) =>
      if output.id = some id then some ⟨deadline, waker, []⟩ else setting
  | (.remove other deadline, _) =>
      setting.filter fun current => ¬(other = id ∧ deadline = current.deadline)
  | (.reset other _ new, _) =>
      setting.map fun current =>
        if other = id then { current with deadline := new, parks := [] } else current
  | (.replace other _ waker, _) =>
      setting.map fun current => if other = id then { current with waker } else current
  | (.park now, _) => setting.map (Setting.park now)
  | (.parkTimeout now _, _) => setting.map (Setting.park now)

/-- What the trace says of the alarm `id`; `none` before it is inserted and once it is
removed. -/
def settingOf (trace : List (Op W × Output W)) (id : Nat) : Option (Setting W) :=
  trace.foldl (track id) none

/-- The number of alarms inserted. -/
def inserted (trace : List (Op W × Output W)) : Nat :=
  (trace.filterMap fun event => event.2.id).length

/-- The alarm is set to this deadline and waker, and no park has reached it. -/
def Awaits (trace : List (Op W × Output W)) (id deadline : Nat) (waker : W) : Prop :=
  ∃ setting, settingOf trace id = some setting ∧ setting.deadline = deadline ∧
    setting.waker = waker ∧ setting.Pending

/-- A park at `now` is the first one that reaches the deadline of the alarm since the
alarm was inserted or last reset. -/
def FirstReached (trace : List (Op W × Output W)) (now id deadline : Nat) (waker : W) : Prop :=
  Awaits trace id deadline waker ∧ deadline ≤ now

section Trace

variable (trace : List (Op W × Output W)) (id : Nat)

@[simp] theorem settingOf_nil : settingOf ([] : List (Op W × Output W)) id = none := rfl
@[simp] theorem inserted_nil : inserted ([] : List (Op W × Output W)) = 0 := rfl

@[simp]
theorem settingOf_snoc (event : Op W × Output W) :
    settingOf (trace ++ [event]) id = track id (settingOf trace id) event := by
  simp [settingOf]

@[simp]
theorem inserted_snoc (event : Op W × Output W) :
    inserted (trace ++ [event]) = inserted trace + event.2.id.toList.length := by
  cases hid : event.2.id <;> simp [inserted, hid]

theorem inserted_append (more : List (Op W × Output W)) :
    inserted (trace ++ more) = inserted trace + inserted more := by
  simp [inserted]

end Trace

/-! ## The map holds the alarms that await their deadline -/

/-- The clock holds exactly the alarms that the trace says are awaiting. -/
structure Tracks (trace : List (Op W × Output W)) (clock : Clock W) : Prop where
  nextAlarm : clock.nextAlarm = inserted trace
  fresh : ∀ id, clock.nextAlarm ≤ id → settingOf trace id = none
  entries : ∀ deadline id waker, clock.alarms.get? (alarmKey deadline id) = some waker ↔
    Awaits trace id deadline waker

section Awaits

variable {trace : List (Op W × Output W)} {id deadline : Nat} {waker : W}

/-- An event that says nothing of an alarm leaves it awaiting as before. -/
theorem awaits_of_track_eq {event : Op W × Output W}
    (hsame : track id (settingOf trace id) event = settingOf trace id) :
    Awaits (trace ++ [event]) id deadline waker ↔ Awaits trace id deadline waker := by
  rw [Awaits, settingOf_snoc, hsame, Awaits]

/-- An alarm that was just set awaits exactly what it was set to. -/
theorem awaits_of_track_set {event : Op W × Output W} {setting : Setting W}
    (hset : track id (settingOf trace id) event = some setting) (hpending : setting.Pending) :
    Awaits (trace ++ [event]) id deadline waker ↔
      setting.deadline = deadline ∧ setting.waker = waker := by
  rw [Awaits, settingOf_snoc, hset]
  constructor
  · rintro ⟨found, hfound, hdeadline, hwaker, -⟩
    cases hfound
    exact ⟨hdeadline, hwaker⟩
  · rintro ⟨hdeadline, hwaker⟩
    exact ⟨setting, rfl, hdeadline, hwaker, hpending⟩

/-- Removing an alarm only matters to that alarm under that deadline. -/
theorem awaits_remove {other old : Nat} {output : Output W} :
    Awaits (trace ++ [(.remove other old, output)]) id deadline waker ↔
      Awaits trace id deadline waker ∧ ¬(other = id ∧ old = deadline) := by
  rw [Awaits, settingOf_snoc, track, Awaits]
  constructor
  · rintro ⟨setting, hsetting, rfl, rfl, hpending⟩
    obtain ⟨hbefore, hkept⟩ := Option.filter_eq_some_iff.mp hsetting
    exact ⟨⟨setting, hbefore, rfl, rfl, hpending⟩, of_decide_eq_true hkept⟩
  · rintro ⟨⟨setting, hsetting, rfl, rfl, hpending⟩, hkept⟩
    refine ⟨setting, ?_, rfl, rfl, hpending⟩
    rw [hsetting]
    exact Option.filter_eq_some_iff.mpr ⟨rfl, decide_eq_true hkept⟩

/-- A park leaves the alarms awaiting whose deadline it has not reached. -/
theorem awaits_park {event : Op W × Output W} {now : Nat}
    (hreading : event.1.reading = some now) :
    Awaits (trace ++ [event]) id deadline waker ↔
      Awaits trace id deadline waker ∧ now < deadline := by
  have hpark : track id (settingOf trace id) event =
      (settingOf trace id).map (Setting.park now) := by
    obtain ⟨op, output⟩ := event
    cases op <;> cases hreading <;> rfl
  rw [Awaits, settingOf_snoc, hpark, Awaits]
  constructor
  · rintro ⟨setting, hsetting, rfl, rfl, hpending⟩
    obtain ⟨before, hbefore, rfl⟩ := Option.map_eq_some_iff.mp hsetting
    refine ⟨⟨before, hbefore, rfl, rfl, ?_⟩, hpending now (by simp [Setting.park])⟩
    intro earlier hearlier
    exact hpending earlier (List.mem_append_left _ hearlier)
  · rintro ⟨⟨setting, hsetting, rfl, rfl, hpending⟩, hbefore⟩
    refine ⟨setting.park now, by rw [hsetting, Option.map_some], rfl, rfl, ?_⟩
    intro earlier hearlier
    rcases List.mem_append.mp hearlier with hold | hnew
    · exact hpending earlier hold
    · exact List.mem_singleton.mp hnew ▸ hbefore

end Awaits

namespace Tracks

variable {trace : List (Op W × Output W)}

theorem new : Tracks ([] : List (Op W × Output W)) Clock.new where
  nextAlarm := rfl
  fresh _ _ := rfl
  entries deadline id waker := by simp [Awaits, Clock.new]

/-- The alarm in the map under an id is the one that the trace says is awaiting. -/
theorem awaits (htracks : Tracks trace clock) {deadline id : Nat} {waker : W}
    (hentry : clock.alarms.get? (alarmKey deadline id) = some waker) :
    ∃ setting, settingOf trace id = some setting ∧ setting.deadline = deadline ∧
      setting.waker = waker ∧ setting.Pending :=
  (htracks.entries deadline id waker).mp hentry

/-- One id is not in the map under two deadlines. -/
theorem get?_of_ne (htracks : Tracks trace clock) {setting : Setting W} {deadline id : Nat}
    (hsetting : settingOf trace id = some setting) (hne : deadline ≠ setting.deadline) :
    clock.alarms.get? (alarmKey deadline id) = none := by
  rw [Option.eq_none_iff_forall_ne_some]
  intro waker hentry
  obtain ⟨other, hother, hdeadline, -⟩ := htracks.awaits hentry
  rw [hsetting, Option.some.injEq] at hother
  exact hne (hother ▸ hdeadline.symm)

end Tracks

/-- The map keeps holding exactly the awaiting alarms. -/
theorem Transition.tracks (htransition : Transition profile clock op last output)
    {trace : List (Op W × Output W)} (htracks : Tracks trace clock)
    (hroom : inserted (trace ++ [(op, output)]) ≤ profile.usizeMax) :
    Tracks (trace ++ [(op, output)]) last := by
  cases htransition with
  | @insert deadline next waker hnext =>
      have hcount : inserted trace + 1 ≤ profile.usizeMax := by simpa using hroom
      rw [htracks.nextAlarm, Profile.add_of_le hcount, Except.ok.injEq] at hnext
      refine ⟨by simp [← hnext], ?_, ?_⟩
      · intro id hid
        have hlater : clock.nextAlarm < id := by
          rw [htracks.nextAlarm]
          exact Nat.lt_of_lt_of_le (hnext ▸ Nat.lt_succ_self _) hid
        simp [track, hlater.ne, htracks.fresh id hlater.le]
      · intro deadline' id waker'
        simp only [OrderedMap.get?_insert, Clock.alarmKey_inj]
        by_cases hid : id = clock.nextAlarm
        · subst hid
          have hnone := htracks.fresh _ (Nat.le_refl _)
          have habsent : clock.alarms.get? (alarmKey deadline' clock.nextAlarm) = none := by
            rw [Option.eq_none_iff_forall_ne_some]
            intro found hfound
            obtain ⟨setting, hsetting, -⟩ := htracks.awaits hfound
            rw [hnone] at hsetting
            cases hsetting
          rw [awaits_of_track_set (show _ = some ⟨deadline, waker, []⟩ by simp [track])
            (by simp [Setting.Pending]), habsent]
          by_cases hsame : deadline' = deadline
          · simp [hsame]
          · simp [hsame, Ne.symm hsame]
        · rw [awaits_of_track_eq (by simp [track, Ne.symm hid]), if_neg (by simp [hid])]
          exact htracks.entries deadline' id waker'
  | remove other old =>
      refine ⟨by simpa [Clock.removeAlarm] using htracks.nextAlarm, ?_, ?_⟩
      · intro id hid
        have hnone := htracks.fresh id hid
        simp [track, hnone]
      · intro deadline id waker
        simp only [awaits_remove, ← htracks.entries, Clock.removeAlarm, OrderedMap.get?_erase,
          Clock.alarmKey_inj]
        by_cases hsame : deadline = old ∧ id = other
        · simp [hsame]
        · rw [if_neg hsame]
          constructor
          · intro hentry
            exact ⟨hentry, fun heq => hsame ⟨heq.2.symm, heq.1.symm⟩⟩
          · exact And.left
  | @reset other old new waker hentry =>
      obtain ⟨setting, hsetting, rfl, rfl, hpending⟩ := htracks.awaits hentry
      refine ⟨by simpa using htracks.nextAlarm, ?_, ?_⟩
      · intro id hid
        have hnone := htracks.fresh id hid
        simp [track, hnone]
      · intro deadline id waker
        simp only [OrderedMap.get?_insert, OrderedMap.get?_erase, Clock.alarmKey_inj]
        by_cases hid : id = other
        · subst hid
          rw [awaits_of_track_set
            (show _ = some { setting with deadline := new, parks := [] } by
              simp [track, hsetting])
            (by simp [Setting.Pending])]
          by_cases hnew : deadline = new
          · simp [hnew]
          · by_cases hold : deadline = setting.deadline
            · have hmoved : setting.deadline ≠ new := hold ▸ hnew
              simp [hold, hmoved, hmoved.symm]
            · simp [hnew, hold, Ne.symm hnew, htracks.get?_of_ne hsetting hold]
        · rw [awaits_of_track_eq (by simp [track, Ne.symm hid]), if_neg (by simp [hid]),
            if_neg (by simp [hid])]
          exact htracks.entries deadline id waker
  | @replace other deadline old waker hentry =>
      obtain ⟨setting, hsetting, rfl, rfl, hpending⟩ := htracks.awaits hentry
      refine ⟨by simpa using htracks.nextAlarm, ?_, ?_⟩
      · intro id hid
        have hnone := htracks.fresh id hid
        simp [track, hnone]
      · intro deadline id waker'
        simp only [OrderedMap.get?_insert, Clock.alarmKey_inj]
        by_cases hid : id = other
        · subst hid
          rw [awaits_of_track_set
            (show _ = some { setting with waker } by simp [track, hsetting]) hpending]
          by_cases hold : deadline = setting.deadline
          · simp [hold]
          · simp [hold, Ne.symm hold, htracks.get?_of_ne hsetting hold]
        · rw [awaits_of_track_eq (by simp [track, Ne.symm hid]), if_neg (by simp [hid])]
          exact htracks.entries deadline id waker'
  | @park op now waits hreading =>
      refine ⟨?_, ?_, ?_⟩
      · rw [Clock.extendWithExpired_nextAlarm]
        simpa using htracks.nextAlarm
      · intro id hid
        rw [Clock.extendWithExpired_nextAlarm] at hid
        have hnone := htracks.fresh id hid
        cases op <;> cases hreading <;> simp [track, hnone]
      · intro deadline id waker
        rw [awaits_park hreading, Clock.get?_extendWithExpired, ← htracks.entries]
        by_cases hbefore : now < deadline <;> simp [hbefore]

theorem tracks {trace : List (Op W × Output W)}
    (hrun : (system profile).Run (Clock.new : Clock W) trace clock)
    (hroom : inserted trace ≤ profile.usizeMax) : Tracks trace clock := by
  refine hrun.invariant (fun trace clock => inserted trace ≤ profile.usizeMax →
    Tracks trace clock) (fun _ => .new) ?_ hroom
  intro trace middle last op output _ ih hstep hroom
  refine (step_transition hstep).tracks (ih ?_) hroom
  rw [inserted_append] at hroom
  omega

/-! ## Gone for good -/

/-- The alarm was inserted and is no longer in the map. -/
def Gone (clock : Clock W) (id : Nat) : Prop :=
  id < clock.nextAlarm ∧ ∀ deadline, clock.alarms.get? (alarmKey deadline id) = none

/-- An alarm that is gone does not come back. -/
theorem Transition.gone (htransition : Transition profile clock op last output) {id : Nat}
    (hroom : clock.nextAlarm + 1 ≤ profile.usizeMax ∨ output.id = none)
    (hgone : Gone clock id) : Gone last id := by
  obtain ⟨hissued, habsent⟩ := hgone
  cases htransition with
  | @insert deadline next waker hnext =>
      have hcount : clock.nextAlarm + 1 ≤ profile.usizeMax := by simpa using hroom
      rw [Profile.add_of_le hcount, Except.ok.injEq] at hnext
      refine ⟨by simp only [← hnext]; omega, fun deadline' => ?_⟩
      simp [OrderedMap.get?_insert, Clock.alarmKey_inj, hissued.ne, habsent]
  | remove other old =>
      refine ⟨hissued, fun deadline => ?_⟩
      simp [Clock.removeAlarm, OrderedMap.get?_erase, habsent]
  | @reset other old new waker hentry =>
      have hne : id ≠ other := by
        rintro rfl
        rw [habsent] at hentry
        cases hentry
      refine ⟨hissued, fun deadline => ?_⟩
      simp [OrderedMap.get?_insert, OrderedMap.get?_erase, Clock.alarmKey_inj, hne, habsent]
  | @replace other deadline old waker hentry =>
      have hne : id ≠ other := by
        rintro rfl
        rw [habsent] at hentry
        cases hentry
      refine ⟨hissued, fun deadline => ?_⟩
      simp [OrderedMap.get?_insert, Clock.alarmKey_inj, hne, habsent]
  | park hreading =>
      refine ⟨by rwa [Clock.extendWithExpired_nextAlarm], fun deadline => ?_⟩
      rw [Clock.get?_extendWithExpired, habsent, ite_self]

section Runs

variable {before after trace : List (Op W × Output W)} {id : Nat}

/-- There is room for the id of an alarm that a step of the run inserts. -/
theorem room_of_tracks (htracks : Tracks trace clock)
    (hroom : inserted (trace ++ [(op, output)]) ≤ profile.usizeMax) :
    clock.nextAlarm + 1 ≤ profile.usizeMax ∨ output.id = none := by
  rw [inserted_snoc] at hroom
  cases hid : output.id with
  | none => exact .inr rfl
  | some id =>
      rw [hid] at hroom
      rw [htracks.nextAlarm]
      exact .inl hroom

theorem gone_stays (hbefore : (system profile).Run (Clock.new : Clock W) before clock)
    (hafter : (system profile).Run clock after last)
    (hroom : inserted (before ++ after) ≤ profile.usizeMax) (hgone : Gone clock id) :
    Gone last id := by
  refine hafter.invariant (fun part reached => inserted (before ++ part) ≤ profile.usizeMax →
    Gone reached id) (fun _ => hgone) ?_ hroom
  intro part middle next op output hpart ih hstep hnext
  rw [← List.append_assoc] at hnext
  have hmiddle : inserted (before ++ part) ≤ profile.usizeMax := by
    rw [inserted_append] at hnext
    omega
  have htracks := tracks (hbefore.trans hpart) hmiddle
  exact (step_transition hstep).gone (room_of_tracks htracks hnext) (ih hmiddle)

/-- An alarm that the trace knows was inserted. -/
theorem issued_of_setting (htracks : Tracks trace clock) {setting : Setting W}
    (hsetting : settingOf trace id = some setting) : id < clock.nextAlarm := by
  by_contra hlate
  rw [htracks.fresh id (not_lt.mp hlate)] at hsetting
  cases hsetting

/-- After a park that reaches the deadline of an alarm, the alarm is not in the map. -/
theorem gone_of_reached {now : Nat} (htracks : Tracks trace clock)
    (hreading : op.reading = some now) (hstep : (system profile).step clock op = .next last output)
    {setting : Setting W} (hsetting : settingOf trace id = some setting)
    (hcome : setting.deadline ≤ now) : Gone last id := by
  have hissued := issued_of_setting htracks hsetting
  cases step_transition hstep with
  | @park op now' waits hreading' =>
      rw [hreading, Option.some.injEq] at hreading'
      subst hreading'
      refine ⟨by rwa [Clock.extendWithExpired_nextAlarm], fun other => ?_⟩
      rw [Clock.get?_extendWithExpired]
      by_cases hsame : other = setting.deadline
      · rw [if_neg (by omega)]
      · rw [htracks.get?_of_ne hsetting hsame, ite_self]
  | _ => cases hreading

theorem gone_of_removed {deadline : Nat} {waker : W} (htracks : Tracks trace clock)
    (hstep : (system profile).step clock (.remove id deadline) = .next last output)
    (hawaits : Awaits trace id deadline waker) : Gone last id := by
  obtain ⟨setting, hsetting, rfl, rfl, -⟩ := hawaits
  have hissued := issued_of_setting htracks hsetting
  cases step_transition hstep with
  | remove =>
      refine ⟨hissued, fun other => ?_⟩
      by_cases hsame : other = setting.deadline
      · simp [Clock.removeAlarm, OrderedMap.get?_erase, hsame]
      · simp [Clock.removeAlarm, OrderedMap.get?_erase, htracks.get?_of_ne hsetting hsame]
  | park hreading => cases hreading

/-- An alarm that is gone is never handed out again. -/
theorem Gone.not_reached {now deadline : Nat} {waker : W} (hgone : Gone clock id)
    (htracks : Tracks trace clock) : ¬ FirstReached trace now id deadline waker := by
  rintro ⟨hawaits, -⟩
  rw [← htracks.entries, hgone.2] at hawaits
  cases hawaits

/-- The operation resets or removes the alarm `id`. -/
def Op.Moves (id : Nat) : Op W → Prop
  | .remove other _ => other = id
  | .reset other _ _ => other = id
  | _ => False

/-- An alarm that is neither reset nor removed keeps its deadline. -/
theorem deadline_stays (hbefore : (system profile).Run (Clock.new : Clock W) before clock)
    (hafter : (system profile).Run clock after last)
    (hroom : inserted (before ++ after) ≤ profile.usizeMax)
    (hstill : ∀ event ∈ after, ¬ event.1.Moves id) {setting : Setting W}
    (hsetting : settingOf before id = some setting) :
    ∃ later, settingOf (before ++ after) id = some later ∧
      later.deadline = setting.deadline := by
  refine hafter.invariant (fun part _ => inserted (before ++ part) ≤ profile.usizeMax →
    (∀ event ∈ part, ¬ event.1.Moves id) → ∃ later, settingOf (before ++ part) id = some later ∧
      later.deadline = setting.deadline) ?_ ?_ hroom hstill
  · exact fun _ _ => ⟨setting, by rwa [List.append_nil], rfl⟩
  · intro part middle next op output hpart ih hstep hnext hmoves
    rw [← List.append_assoc] at hnext ⊢
    have hmiddle : inserted (before ++ part) ≤ profile.usizeMax := by
      rw [inserted_append] at hnext
      omega
    obtain ⟨later, hlater, hdeadline⟩ :=
      ih hmiddle fun event hevent => hmoves event (List.mem_append_left _ hevent)
    have hquiet := hmoves (op, output) (by simp)
    have htracks := tracks (hbefore.trans hpart) hmiddle
    rw [settingOf_snoc, hlater, ← hdeadline]
    cases step_transition hstep with
    | insert hcount =>
        have hne : middle.nextAlarm ≠ id := by
          rintro rfl
          rw [htracks.fresh _ (Nat.le_refl _)] at hlater
          cases hlater
        exact ⟨later, by simp [track, hne], rfl⟩
    | remove other old =>
        have hne : other ≠ id := hquiet
        exact ⟨later, by simp [track, hne], rfl⟩
    | @reset other old new waker hentry =>
        have hne : other ≠ id := hquiet
        exact ⟨later, by simp [track, hne], rfl⟩
    | @replace other deadline old waker hentry =>
        by_cases heq : other = id
        · exact ⟨{ later with waker }, by simp [track, heq], rfl⟩
        · exact ⟨later, by simp [track, heq], rfl⟩
    | @park op now waits hreading =>
        exact ⟨later.park now, by cases op <;> cases hreading <;> rfl, rfl⟩

/-- A park hands out, ordered by deadline and id, exactly the alarms whose deadline it is
the first to reach since they were inserted or last reset. -/
theorem handed_iff (htracks : Tracks trace clock) {now : Nat} (hreading : op.reading = some now)
    (hstep : (system profile).step clock op = .next last output) :
    ∃ batch : List (AlarmKey × W), output.handed = batch.map Prod.snd ∧
      batch.Pairwise (fun left right => left.1 < right.1) ∧
      ∀ deadline id waker, (alarmKey deadline id, waker) ∈ batch ↔
        FirstReached trace now id deadline waker := by
  refine ⟨ready clock now, ?_, ready_sorted clock now, ?_⟩
  · cases step_transition hstep with
    | park hreading' =>
        rw [hreading, Option.some.injEq] at hreading'
        rw [hreading']
    | _ => cases hreading
  · intro deadline id waker
    rw [mem_ready, htracks.entries, FirstReached]

/-- The run up to an event and the state that the event leads to. -/
theorem event_step {event : Op W × Output W}
    (hrun : (system profile).Run (Clock.new : Clock W) (before ++ event :: after) last)
    (hroom : inserted (before ++ event :: after) ≤ profile.usizeMax) :
    ∃ middle next, (system profile).Run (Clock.new : Clock W) before middle ∧
      Tracks before middle ∧ (system profile).step middle event.1 = .next next event.2 ∧
      ∀ id, Gone next id → Gone last id := by
  rw [List.append_cons] at hrun hroom
  obtain ⟨next, hfront, hback⟩ := hrun.split
  obtain ⟨middle, hmiddle, hstep⟩ := hfront.last_step
  have hbefore : inserted before ≤ profile.usizeMax := by
    rw [inserted_append, inserted_append] at hroom
    omega
  exact ⟨middle, next, hmiddle, tracks hmiddle hbefore, hstep,
    fun id hgone => gone_stays hfront hback hroom hgone⟩

/-- An alarm that was reset, and not moved again, is reached at its new deadline only. -/
theorem deadline_of_reset {id old new now deadline : Nat} {waker : W} {output : Output W}
    (hrun : (system profile).Run (Clock.new : Clock W)
      (before ++ (.reset id old new, output) :: after) last)
    (hroom : inserted (before ++ (.reset id old new, output) :: after) ≤ profile.usizeMax)
    (hstill : ∀ event ∈ after, ¬ event.1.Moves id)
    (hreached : FirstReached (before ++ (.reset id old new, output) :: after) now id deadline
      waker) : deadline = new := by
  rw [List.append_cons] at hrun hroom hreached
  obtain ⟨next, hfront, hback⟩ := hrun.split
  obtain ⟨middle, hmiddle, hstep⟩ := hfront.last_step
  have hbefore : inserted before ≤ profile.usizeMax := by
    rw [inserted_append, inserted_append] at hroom
    omega
  cases step_transition hstep with
  | reset hentry =>
      obtain ⟨setting, hsetting, -⟩ := (tracks hmiddle hbefore).awaits hentry
      have hreset : settingOf (before ++ [(.reset id old new, ({ } : Output W))]) id =
          some { setting with deadline := new, parks := [] } := by
        rw [settingOf_snoc, hsetting]
        simp [track]
      obtain ⟨later, hlater, hdeadline⟩ := deadline_stays hfront hback hroom hstill hreset
      obtain ⟨⟨found, hfound, rfl, -, -⟩, -⟩ := hreached
      rw [hlater, Option.some.injEq] at hfound
      rw [← hfound, hdeadline]
  | park hreading => cases hreading

/-- Of two alarms present together and not moved afterwards, the park that reaches the later
one leaves the earlier one for no other park. -/
theorem earlier_gone {mid : List (Op W × Output W)} {event : Op W × Output W}
    {now first second deadline deadline' other now' late : Nat}
    {waker waker' other' late' : W}
    (hrun : (system profile).Run (Clock.new : Clock W) (before ++ mid ++ event :: after) last)
    (hroom : inserted (before ++ mid ++ event :: after) ≤ profile.usizeMax)
    (hreading : event.1.reading = some now) (hfirst : Awaits before first deadline waker)
    (hsecond : Awaits before second deadline' waker')
    (hless : alarmKey deadline first < alarmKey deadline' second)
    (hstill : ∀ moved ∈ mid, ¬ moved.1.Moves first ∧ ¬ moved.1.Moves second)
    (hreached : FirstReached (before ++ mid) now second other other') :
    ¬ FirstReached (before ++ mid ++ event :: after) now' first late late' := by
  obtain ⟨middle, next, hmiddleRun, hmiddle, hstep, hstays⟩ := event_step hrun hroom
  obtain ⟨start, hbefore, hmid⟩ := hmiddleRun.split
  have hmiddleRoom : inserted (before ++ mid) ≤ profile.usizeMax := by
    rw [inserted_append] at hroom
    omega
  obtain ⟨setting, hsetting, rfl, rfl, -⟩ := hfirst
  obtain ⟨setting', hsetting', rfl, rfl, -⟩ := hsecond
  obtain ⟨kept, hkept, hkeptDeadline⟩ := deadline_stays hbefore hmid hmiddleRoom
    (fun moved hmoved => (hstill moved hmoved).1) hsetting
  obtain ⟨kept', hkept', hkeptDeadline'⟩ := deadline_stays hbefore hmid hmiddleRoom
    (fun moved hmoved => (hstill moved hmoved).2) hsetting'
  obtain ⟨⟨found, hfound, rfl, -, -⟩, hcome⟩ := hreached
  rw [hkept', Option.some.injEq] at hfound
  rw [← hfound, hkeptDeadline'] at hcome
  have hearlier : setting.deadline ≤ setting'.deadline := by
    rw [alarmKey, alarmKey, Prod.Lex.toLex_lt_toLex] at hless
    omega
  have hgone := gone_of_reached hmiddle hreading hstep hkept (by omega)
  exact (hstays first hgone).not_reached (tracks hrun hroom)

/-- Alarms are handed out exactly: by the first park that reaches the deadline they were
last set to, once, in the order of deadline and id, and not when they were removed. -/
theorem alarms_handed_out (hrun : (system profile).Run (Clock.new : Clock W) trace clock)
    (hroom : inserted trace ≤ profile.usizeMax) :
    (∀ op now last output, op.reading = some now →
        (system profile).step clock op = .next last output →
        ∃ batch : List (AlarmKey × W), output.handed = batch.map Prod.snd ∧
          batch.Pairwise (fun left right => left.1 < right.1) ∧
          ∀ deadline id waker, (alarmKey deadline id, waker) ∈ batch ↔
            FirstReached trace now id deadline waker) ∧
      (∀ op last output, op.reading = none →
        (system profile).step clock op = .next last output → output.handed = []) ∧
      (∀ before event after now id deadline waker, trace = before ++ event :: after →
        event.1.reading = some now → FirstReached before now id deadline waker →
        ∀ now' deadline' waker', ¬ FirstReached trace now' id deadline' waker') ∧
      (∀ before output after id deadline waker,
        trace = before ++ (.remove id deadline, output) :: after →
        Awaits before id deadline waker →
        ∀ now' deadline' waker', ¬ FirstReached trace now' id deadline' waker') ∧
      (∀ before output after id old new now deadline waker,
        trace = before ++ (.reset id old new, output) :: after →
        (∀ event ∈ after, ¬ event.1.Moves id) →
        FirstReached trace now id deadline waker → deadline = new) ∧
      ∀ before mid event after now first second deadline deadline' waker waker' other other',
        trace = before ++ mid ++ event :: after → event.1.reading = some now →
        Awaits before first deadline waker → Awaits before second deadline' waker' →
        alarmKey deadline first < alarmKey deadline' second →
        (∀ moved ∈ mid, ¬ moved.1.Moves first ∧ ¬ moved.1.Moves second) →
        FirstReached (before ++ mid) now second other other' →
        ∀ now' late late', ¬ FirstReached trace now' first late late' := by
  have htracks := tracks hrun hroom
  refine ⟨fun op now last output hreading hstep => handed_iff htracks hreading hstep,
    ?_, ?_, ?_, ?_, ?_⟩
  · intro op last output hreading hstep
    cases step_transition hstep with
    | park hreading' => simp [hreading] at hreading'
    | _ => rfl
  · rintro before event after now id deadline waker rfl hreading hreached now' late late'
    obtain ⟨middle, next, -, hmiddle, hstep, hstays⟩ := event_step hrun hroom
    obtain ⟨⟨setting, hsetting, rfl, rfl, -⟩, hcome⟩ := hreached
    have hgone := gone_of_reached hmiddle hreading hstep hsetting hcome
    exact (hstays id hgone).not_reached htracks
  · rintro before output after id deadline waker rfl hawaits now' late late'
    obtain ⟨middle, next, -, hmiddle, hstep, hstays⟩ := event_step hrun hroom
    exact (hstays id (gone_of_removed hmiddle hstep hawaits)).not_reached htracks
  · rintro before output after id old new now deadline waker rfl hstill hreached
    exact deadline_of_reset hrun hroom hstill hreached
  · rintro before mid event after now first second deadline deadline' waker waker' other other'
      rfl hreading hfirst hsecond hless hstill hreached now' late late'
    exact earlier_gone hrun hroom hreading hfirst hsecond hless hstill hreached

/-- Two alarms for the same instant, of which the older is postponed, and a third that is
removed. -/
def postponed : List (Op Nat) :=
  [.insert 5 10, .insert 5 11, .insert 3 12, .park 2, .remove 2 3, .reset 0 5 9, .park 5]

theorem alarms_handed_out_postponed :
    ∃ (trace : List (Op Nat × Output Nat)) (clock : Clock Nat),
      (system Profile.release).Run Clock.new trace clock ∧
        trace.map (fun event => event.2.handed) = [[], [], [], [], [], [], [11]] ∧
        ∀ last output, (system Profile.release).step clock (.park 9) = .next last output →
          ∃ batch : List (AlarmKey × Nat), output.handed = batch.map Prod.snd ∧
            ∀ deadline id waker, (alarmKey deadline id, waker) ∈ batch ↔
              FirstReached trace 9 id deadline waker := by
  have hcheck : ((system Profile.release).exec (Clock.new : Clock Nat) postponed).any
      (fun result => decide (inserted result.1 = 3) && decide
        (result.1.map (fun event => event.2.handed) = [[], [], [], [], [], [], [11]])) = true := by
    decide +kernel
  obtain ⟨trace, clock, hrun, hpass⟩ := System.exec_check hcheck
  simp only [Bool.and_eq_true, decide_eq_true_eq] at hpass
  refine ⟨trace, clock, hrun, hpass.2, fun last output hstep => ?_⟩
  have hroom : inserted trace ≤ Profile.release.usizeMax := by
    rw [hpass.1]
    decide
  obtain ⟨batch, hhanded, -, hmem⟩ := (alarms_handed_out hrun hroom).1 (.park 9) 9 last output rfl
    hstep
  exact ⟨batch, hhanded, hmem⟩

end Runs

end Platoon.Runtime.Alarms
