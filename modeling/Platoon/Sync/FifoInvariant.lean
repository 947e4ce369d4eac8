import Platoon.Sync.Fifo
import Platoon.Sync.LineInvariant
import Mathlib.Algebra.BigOperators.Group.List.Basic

/-!
# Invariants of the first-in first-out line

One inversion lemma lists what a step can do.  From it follow the conservation
of permits, the promise that the woken waiters at the front can all be served,
who waits, and which wakers a step invokes.
-/

namespace Platoon.Sync.Fifo

open Platoon.Foundation Platoon.Rust Platoon.Sync.Semaphore

variable {W : Type} [Wakes W]

/-- The successful steps of the abstract semaphore, with the guards they passed. -/
inductive Transition (profile : Profile) (state : State W) :
    Op W → State W → Output W → Prop where
  | acquire {future permits : Nat} (hfresh : state.futures future = none) :
      Transition profile state (.acquire future permits)
        (state.setFuture future (.idle permits)) {}
  | take {future permits : Nat} {waker : W}
      (hidle : state.futures future = some (.idle permits))
      (hcan : state.canTake permits = true) :
      Transition profile state (.poll future waker)
        ((state.take permits).setFuture future .returned) { obtained := some permits }
  | wait {future permits : Nat} {waker : W}
      (hidle : state.futures future = some (.idle permits))
      (hcannot : state.canTake permits = false) :
      Transition profile state (.poll future waker)
        ((state.enqueue future waker permits).setFuture future .waiting) {}
  | refresh {future : Nat} {waker : W} {entry : Entry Nat W}
      (hwaits : state.futures future = some .waiting)
      (hfind : Line.find? future state.queue = some entry) (hwoke : entry.woke = false) :
      Transition profile state (.poll future waker)
        { state with queue := Line.refresh future waker state.queue } {}
  | grant {future : Nat} {waker : W} {entry : Entry Nat W}
      (hwaits : state.futures future = some .waiting)
      (hfind : Line.find? future state.queue = some entry) (hwoke : entry.woke = true)
      (hfits : entry.required ≤ state.permits) :
      Transition profile state (.poll future waker)
        (((state.take entry.required).leave future).serve.setFuture future .returned)
        { woken := ((state.take entry.required).leave future).woken
          obtained := some entry.required }
  | cancel {future : Nat} (hwaits : state.futures future = some .waiting) :
      Transition profile state (.drop future)
        ((state.leave future).serve.setFuture future .dropped)
        { woken := (state.leave future).woken }
  | discard {future : Nat} {value : Request} (hvalue : state.futures future = some value)
      (hrests : value ≠ .waiting) :
      Transition profile state (.drop future) (state.setFuture future .dropped) {}
  | tryTake {permits : Nat} (hcan : state.canTake permits = true) :
      Transition profile state (.tryAcquire permits) (state.take permits)
        { obtained := some permits }
  | tryFail {permits : Nat} (hcannot : state.canTake permits = false) :
      Transition profile state (.tryAcquire permits) state {}
  | addNone : Transition profile state (.addPermits 0) state {}
  | addSome {permits sum : Nat} (hsome : permits ≠ 0)
      (hsum : profile.add state.permits permits = .ok sum) :
      Transition profile state (.addPermits permits) { state with permits := sum }.serve
        { woken := { state with permits := sum }.woken }
  | returnNone (hheld : 0 ∈ state.held) :
      Transition profile state (.dropPermit 0) { state with held := state.held.erase 0 } {}
  | returnSome {permits sum : Nat} (hheld : permits ∈ state.held) (hsome : permits ≠ 0)
      (hsum : profile.add state.permits permits = .ok sum) :
      Transition profile state (.dropPermit permits)
        { state with held := state.held.erase permits, permits := sum }.serve
        { woken := { state with permits := sum }.woken }
  | forget {permits : Nat} (hheld : permits ∈ state.held) :
      Transition profile state (.forget permits)
        { state with held := state.held.erase permits } {}
  | leak {permits : Nat} (hheld : permits ∈ state.held) :
      Transition profile state (.leak permits)
        { state with
          held := state.held.erase permits, leaked := permits :: state.leaked } {}

variable {profile : Profile} {state last : State W} {op : Op W} {output : Output W}

omit [Wakes W] in
/-- What `release` can do when it does not panic. -/
theorem release_cases {permits : Nat}
    (hrelease : state.release profile permits = .ok (last, output)) :
    (permits = 0 ∧ last = state ∧ output = {}) ∨
      ∃ sum, permits ≠ 0 ∧ profile.add state.permits permits = .ok sum ∧
        last = { state with permits := sum }.serve ∧
        output = { woken := { state with permits := sum }.woken } := by
  unfold State.release at hrelease
  split at hrelease
  · rename_i hzero
    cases hrelease
    exact .inl ⟨hzero, rfl, rfl⟩
  · rename_i hsome
    cases hsum : profile.add state.permits permits with
    | error reason => simp [hsum] at hrelease
    | ok sum =>
        simp only [hsum, ok_bind, Except.ok.injEq, Prod.mk.injEq] at hrelease
        exact .inr ⟨sum, hsome, rfl, hrelease.1.symm, hrelease.2.symm⟩

/-- Every successful step is one of the transitions. -/
theorem step_transition (hstep : (Fifo.system profile).step state op = .next last output) :
    Transition profile state op last output := by
  cases op with
  | acquire future permits =>
      simp only [Fifo.system, State.step, Outcome.when_eq_next, Bool.and_eq_true,
        Option.isNone_iff_eq_none, Outcome.next.injEq] at hstep
      obtain ⟨⟨hfresh, -⟩, rfl, rfl⟩ := hstep
      exact .acquire hfresh
  | poll future waker =>
      simp only [Fifo.system, State.step, State.poll] at hstep
      split at hstep
      · rename_i permits hidle
        split at hstep
        · rename_i hcan
          cases hstep
          exact .take hidle hcan
        · rename_i hcannot
          cases hstep
          exact .wait hidle (Bool.eq_false_iff.mpr hcannot)
      · rename_i hwaits
        split at hstep
        · cases hstep
        · rename_i entry hfind
          split at hstep
          · rename_i hwoke
            split at hstep
            · rename_i hfits
              cases hstep
              exact .grant hwaits hfind hwoke hfits
            · cases hstep
          · rename_i hwoke
            cases hstep
            exact .refresh hwaits hfind (Bool.eq_false_iff.mpr hwoke)
      · cases hstep
      · cases hstep
  | drop future =>
      simp only [Fifo.system, State.step, State.drop] at hstep
      split at hstep
      · rename_i hwaits
        cases hstep
        exact .cancel hwaits
      · cases hstep
      · cases hstep
      · rename_i hnotWaiting hnotDropped hnotNone
        cases hstep
        obtain ⟨value, hvalue⟩ := Option.ne_none_iff_exists'.mp hnotNone
        exact .discard hvalue fun hwaiting => hnotWaiting (hwaiting ▸ hvalue)
  | tryAcquire permits =>
      simp only [Fifo.system, State.step, Outcome.when_eq_next] at hstep
      obtain ⟨-, hstep⟩ := hstep
      split at hstep
      · rename_i hcan
        cases hstep
        exact .tryTake hcan
      · rename_i hcannot
        cases hstep
        exact .tryFail (Bool.eq_false_iff.mpr hcannot)
  | addPermits permits =>
      simp only [Fifo.system, State.step, Outcome.when_eq_next,
        Outcome.ofExcept_eq_next] at hstep
      rcases release_cases hstep.2 with ⟨rfl, rfl, rfl⟩ | ⟨sum, hsome, hsum, rfl, rfl⟩
      · exact .addNone
      · exact .addSome hsome hsum
  | dropPermit permits =>
      simp only [Fifo.system, State.step, Outcome.when_eq_next, Outcome.ofExcept_eq_next,
        decide_eq_true_eq] at hstep
      obtain ⟨hheld, hrelease⟩ := hstep
      rcases release_cases hrelease with ⟨rfl, rfl, rfl⟩ | ⟨sum, hsome, hsum, rfl, rfl⟩
      · exact .returnNone hheld
      · exact .returnSome hheld hsome hsum
  | forget permits =>
      simp only [Fifo.system, State.step, Outcome.when_eq_next, decide_eq_true_eq,
        Outcome.next.injEq] at hstep
      obtain ⟨hheld, rfl, rfl⟩ := hstep
      exact .forget hheld
  | leak permits =>
      simp only [Fifo.system, State.step, Outcome.when_eq_next, decide_eq_true_eq,
        Outcome.next.injEq] at hstep
      obtain ⟨hheld, rfl, rfl⟩ := hstep
      exact .leak hheld

/-! ## Conservation of permits -/

/-- Permits that are available, owned, or leaked. -/
def State.total (state : State W) : Nat :=
  state.permits + state.held.sum + state.leaked.sum

theorem sum_erase_add {permits : Nat} {held : List Nat} (hmem : permits ∈ held) :
    (held.erase permits).sum + permits = held.sum := by
  rw [Nat.add_comm]
  exact List.sum_erase hmem

omit [Wakes W] in
theorem permits_le_of_canTake {permits : Nat} (hcan : state.canTake permits = true) :
    permits ≤ state.permits ∧ (state.queue = [] ∨ permits = 0) := by
  simpa [State.canTake] using hcan

omit [Wakes W] in
theorem take_total {permits : Nat} (hle : permits ≤ state.permits) :
    (state.take permits).total = state.total := by
  simp only [State.total, State.take, List.sum_cons]
  omega

/-- A step within the bound moves permits around but makes and loses none. -/
theorem Transition.conserves (htransition : Transition profile state op last output)
    (hfits : state.total + op.added ≤ profile.usizeMax) :
    last.total + op.forgotten = state.total + op.added := by
  cases htransition with
  | take hidle hcan => exact take_total (permits_le_of_canTake hcan).1
  | tryTake hcan => exact take_total (permits_le_of_canTake hcan).1
  | grant hwaits hfind hwoke hfitting => exact take_total hfitting
  | addSome hsome hsum =>
      simp only [State.total, Op.added] at hfits
      rw [Profile.add_of_le (by omega), Except.ok.injEq] at hsum
      simp only [State.total, State.serve, Op.added, Op.forgotten, ← hsum]
      omega
  | returnSome hheld hsome hsum =>
      have herase := sum_erase_add hheld
      simp only [State.total, Op.added] at hfits
      rw [Profile.add_of_le (by omega), Except.ok.injEq] at hsum
      simp only [State.total, State.serve, Op.added, Op.forgotten, ← hsum]
      omega
  | returnNone hheld =>
      have herase := sum_erase_add hheld
      simp only [State.total, Op.added, Op.forgotten]
      omega
  | forget hheld =>
      have herase := sum_erase_add hheld
      simp only [State.total, Op.added, Op.forgotten]
      omega
  | leak hheld =>
      have herase := sum_erase_add hheld
      simp only [State.total, Op.added, Op.forgotten, List.sum_cons]
      omega
  | _ => rfl

/-! ## The promise to the woken waiters -/

/-- A step whose addition finds room keeps the line's invariant. -/
theorem Transition.kept (htransition : Transition profile state op last output)
    (hroom : op.fits profile state.permits = true)
    (hkept : Line.Kept state.permits state.queue) : Line.Kept last.permits last.queue := by
  cases htransition with
  | take hidle hcan => exact hkept.take (permits_le_of_canTake hcan).2
  | tryTake hcan => exact hkept.take (permits_le_of_canTake hcan).2
  | wait hidle hcannot =>
      refine hkept.push rfl fun hempty => ?_
      simpa [State.canTake, hempty] using hcannot
  | refresh hwaits hfind hwoke => exact hkept.refresh _ _
  | grant hwaits hfind hwoke hfitting =>
      obtain ⟨front, back, hserved⟩ := hkept.serve_grant hfind hwoke
      exact hserved.kept
  | cancel hwaits =>
      obtain ⟨front, back, hserved⟩ := hkept.serve_remove _
      exact hserved.kept
  | addSome hsome hsum =>
      rw [Profile.add_of_le (by simpa [Op.fits, Op.puts] using hroom),
        Except.ok.injEq] at hsum
      obtain ⟨front, back, hserved⟩ := hkept.serve (hsum ▸ Nat.le_add_right _ _)
      exact hserved.kept
  | returnSome hheld hsome hsum =>
      rw [Profile.add_of_le (by simpa [Op.fits, Op.puts] using hroom),
        Except.ok.injEq] at hsum
      obtain ⟨front, back, hserved⟩ := hkept.serve (hsum ▸ Nat.le_add_right _ _)
      exact hserved.kept
  | _ => exact hkept

/-- Within the bound every addition finds room. -/
theorem Transition.fits_of_total (htransition : Transition profile state op last output)
    (hfits : state.total + op.added ≤ profile.usizeMax) :
    op.fits profile state.permits = true := by
  simp only [State.total] at hfits
  cases htransition with
  | addNone => simpa [Op.fits, Op.puts] using (by omega : state.permits ≤ profile.usizeMax)
  | addSome hsome hsum =>
      simp only [Op.added] at hfits
      simpa [Op.fits, Op.puts] using Nat.le_trans (by omega) hfits
  | @returnSome permits sum hheld hsome hsum =>
      have herase := sum_erase_add hheld
      have hroom : state.permits + permits ≤ profile.usizeMax := by omega
      simpa [Op.fits, Op.puts] using hroom
  | returnNone hheld =>
      simpa [Op.fits, Op.puts] using (by omega : state.permits ≤ profile.usizeMax)
  | _ => rfl

/-- After a releasing step, exactly the longest prefix that fits is woken. -/
theorem Transition.served (htransition : Transition profile state op last output)
    (hfits : state.total + op.added ≤ profile.usizeMax)
    (hkept : Line.Kept state.permits state.queue)
    (hreleases : op.Releases (fun future => state.futures future = some .waiting) output) :
    ∃ front back, Line.Served last.permits last.queue front back := by
  cases htransition with
  | take hidle hcan => simp [Op.Releases, hidle] at hreleases
  | wait hidle hcannot => simp [Op.Releases] at hreleases
  | refresh hwaits hfind hwoke => simp [Op.Releases] at hreleases
  | discard hvalue hrests => simp [Op.Releases, hvalue, hrests] at hreleases
  | addNone => simp [Op.Releases] at hreleases
  | returnNone hheld => simp [Op.Releases] at hreleases
  | grant hwaits hfind hwoke hfitting => exact hkept.serve_grant hfind hwoke
  | cancel hwaits => exact hkept.serve_remove _
  | addSome hsome hsum =>
      simp only [State.total, Op.added] at hfits
      rw [Profile.add_of_le (by omega), Except.ok.injEq] at hsum
      exact hkept.serve (hsum ▸ Nat.le_add_right _ _)
  | returnSome hheld hsome hsum =>
      have herase := sum_erase_add hheld
      simp only [State.total, Op.added] at hfits
      rw [Profile.add_of_le (by omega), Except.ok.injEq] at hsum
      exact hkept.serve (hsum ▸ Nat.le_add_right _ _)
  | _ => exact hreleases.elim

/-- What holds after every run whose permits total at most `usize::MAX`. -/
structure Sound (initial : Nat) (trace : List (Op W × Output W)) (state : State W) : Prop where
  conserved : state.total + forgotten trace = initial + added trace
  kept : Line.Kept state.permits state.queue

theorem sound {initial : Nat} {trace : List (Op W × Output W)}
    (hrun : (Fifo.system profile).Run (State.new initial) trace last)
    (hfits : initial + added trace ≤ profile.usizeMax) : Sound initial trace last := by
  refine hrun.invariant (fun trace state => initial + added trace ≤ profile.usizeMax →
    Sound initial trace state) ?_ ?_ hfits
  · exact fun _ => ⟨rfl, Line.Kept.nil _⟩
  · intro trace middle last op output _ ih hstep hfits
    rw [added_snoc] at hfits
    have hsound := ih (by omega)
    have hbefore := hsound.conserved
    have hroom : middle.total + op.added ≤ profile.usizeMax := by omega
    have htransition := step_transition hstep
    refine ⟨?_, htransition.kept (htransition.fits_of_total hroom) hsound.kept⟩
    have hafter := htransition.conserves hroom
    rw [added_snoc, forgotten_snoc]
    omega

omit [Wakes W] in
/-- Permits never exceed what was put in. -/
theorem Sound.total_le {initial : Nat} {trace : List (Op W × Output W)}
    (hsound : Sound initial trace state) : state.total ≤ initial + added trace := by
  have hconserved := hsound.conserved
  omega

/-- The only panic within the bound is the resumption of a future that returned. -/
theorem panic_resumed {reason : Panic} (hfits : state.total + op.added ≤ profile.usizeMax)
    (hkept : Line.Kept state.permits state.queue)
    (hpanic : (Fifo.system profile).step state op = .panic reason) :
    reason = .resumedAfterCompletion := by
  have hrelease : ∀ (released : State W) permits, released.permits + permits ≤ profile.usizeMax →
      released.release profile permits ≠ .error reason := by
    intro released permits hle
    unfold State.release
    split
    · simp
    · simp [Profile.add_of_le hle]
  cases op with
  | poll future waker =>
      simp only [Fifo.system, State.step, State.poll] at hpanic
      split at hpanic
      · split at hpanic <;> cases hpanic
      · split at hpanic
        · cases hpanic
        · rename_i entry hfind
          split at hpanic
          · rename_i hwoke
            rw [if_pos (hkept.required_le hfind hwoke)] at hpanic
            cases hpanic
          · cases hpanic
      · cases hpanic
        rfl
      · cases hpanic
  | drop future =>
      simp only [Fifo.system, State.step, State.drop] at hpanic
      split at hpanic <;> cases hpanic
  | addPermits permits =>
      simp only [Fifo.system, State.step, Outcome.when_eq_panic,
        Outcome.ofExcept_eq_panic] at hpanic
      simp only [State.total, Op.added] at hfits
      exact absurd hpanic.2 (hrelease state permits (by omega))
  | dropPermit permits =>
      simp only [Fifo.system, State.step, Outcome.when_eq_panic, Outcome.ofExcept_eq_panic,
        decide_eq_true_eq] at hpanic
      have herase := sum_erase_add hpanic.1
      simp only [State.total, Op.added] at hfits
      exact absurd hpanic.2 (hrelease _ permits (show state.permits + permits ≤ _ by omega))
  | tryAcquire permits =>
      simp only [Fifo.system, State.step, Outcome.when_eq_panic] at hpanic
      split at hpanic <;> simp at hpanic
  | _ => simp [Fifo.system, State.step] at hpanic

/-- The panics of the abstract line: it has no keys and no loops. -/
theorem panic_reason {reason : Panic}
    (hpanic : (Fifo.system profile).step state op = .panic reason) :
    reason ≠ .invalidKey ∧ reason ≠ .outOfFuel := by
  have hrelease : ∀ (released : State W) permits,
      released.release profile permits = .error reason → reason = .arithmeticOverflow := by
    intro released permits herror
    unfold State.release at herror
    split at herror
    · cases herror
    · cases hsum : profile.add released.permits permits with
      | ok sum => simp [hsum] at herror
      | error overflow =>
          rw [hsum, error_bind, Except.error.injEq] at herror
          exact herror ▸ Profile.error_of_add hsum
  cases op with
  | poll future waker =>
      simp only [Fifo.system, State.step, State.poll] at hpanic
      split at hpanic
      · split at hpanic <;> cases hpanic
      · split at hpanic
        · cases hpanic
        · split at hpanic
          · split at hpanic
            · cases hpanic
            · cases hpanic
              exact ⟨by simp, by simp⟩
          · cases hpanic
      · cases hpanic
        exact ⟨by simp, by simp⟩
      · cases hpanic
  | drop future =>
      simp only [Fifo.system, State.step, State.drop] at hpanic
      split at hpanic <;> cases hpanic
  | addPermits permits =>
      simp only [Fifo.system, State.step, Outcome.when_eq_panic,
        Outcome.ofExcept_eq_panic] at hpanic
      simp [hrelease _ _ hpanic.2]
  | dropPermit permits =>
      simp only [Fifo.system, State.step, Outcome.when_eq_panic,
        Outcome.ofExcept_eq_panic] at hpanic
      simp [hrelease _ _ hpanic.2]
  | tryAcquire permits =>
      simp only [Fifo.system, State.step, Outcome.when_eq_panic] at hpanic
      split at hpanic <;> simp at hpanic
  | _ => simp [Fifo.system, State.step] at hpanic

/-! ## Who waits -/

/-- The queue lists every waiting future once. -/
structure Enrolled (state : State W) : Prop where
  nodup : (state.queue.map Entry.id).Nodup
  waiting : ∀ future, future ∈ state.queue.map Entry.id ↔
    state.futures future = some .waiting

omit [Wakes W] in
/-- The record of a future that does not wait changes to another such value. -/
theorem Enrolled.setFuture (henrolled : Enrolled state) {future : Nat} {value : Request}
    (hbefore : state.futures future ≠ some .waiting) (hafter : value ≠ .waiting) :
    Enrolled (state.setFuture future value) where
  nodup := henrolled.nodup
  waiting other := by
    rw [State.setFuture_queue, henrolled.waiting]
    by_cases heq : other = future
    · subst heq
      simp [hbefore, hafter]
    · rw [State.setFuture_ne _ _ _ heq]

omit [Wakes W] in
theorem map_id_remove (id : Nat) (queue : List (Entry Nat W)) :
    (Line.remove id queue).map Entry.id = (queue.map Entry.id).filter (· ≠ id) := by
  simp [Line.remove, List.filter_map, Function.comp_def]

omit [Wakes W] in
/-- A waiting future leaves the line, which is served. -/
theorem Enrolled.leaveServe (henrolled : Enrolled state) (future : Nat) {value : Request}
    (hafter : value ≠ .waiting) :
    Enrolled ((state.leave future).serve.setFuture future value) where
  nodup := by
    simp only [State.setFuture_queue, State.serve, State.leave, Line.serve_map_id,
      map_id_remove]
    exact henrolled.nodup.filter _
  waiting other := by
    simp only [State.setFuture_queue, State.serve, State.leave, Line.serve_map_id,
      map_id_remove, List.mem_filter, henrolled.waiting, decide_eq_true_eq]
    by_cases heq : other = future
    · subst heq
      simp [hafter]
    · rw [State.setFuture_ne _ _ _ heq]
      simp [heq]

omit [Wakes W] in
theorem Enrolled.enqueue (henrolled : Enrolled state) {future permits : Nat} (waker : W)
    (hidle : state.futures future = some (.idle permits)) :
    Enrolled ((state.enqueue future waker permits).setFuture future .waiting) where
  nodup := by
    have hfresh : future ∉ state.queue.map Entry.id := by
      simp [henrolled.waiting, hidle]
    simp only [State.setFuture_queue, State.enqueue, List.map_append, List.nodup_append]
    refine ⟨henrolled.nodup, by simp, ?_⟩
    intro other hother new hnew heq
    rw [List.map_singleton, List.mem_singleton] at hnew
    rw [heq, hnew] at hother
    exact hfresh hother
  waiting other := by
    rw [State.setFuture_queue, State.enqueue, List.map_append, List.mem_append,
      henrolled.waiting]
    by_cases heq : other = future
    · subst heq
      simp
    · rw [State.setFuture_ne _ _ _ heq]
      simp [heq]

theorem Transition.enrolled (htransition : Transition profile state op last output)
    (henrolled : Enrolled state) : Enrolled last := by
  cases htransition with
  | acquire hfresh => exact henrolled.setFuture (by simp [hfresh]) (by simp)
  | @take future permits waker hidle hcan =>
      have htaken : Enrolled (state.take permits) := ⟨henrolled.nodup, henrolled.waiting⟩
      exact htaken.setFuture (by simp [State.take, hidle]) (by simp)
  | wait hidle hcannot => exact henrolled.enqueue _ hidle
  | refresh hwaits hfind hwoke =>
      exact ⟨by simpa using henrolled.nodup, by simpa using henrolled.waiting⟩
  | @grant future waker entry hwaits hfind hwoke hfitting =>
      have htaken : Enrolled (state.take entry.required) :=
        ⟨henrolled.nodup, henrolled.waiting⟩
      exact htaken.leaveServe future (by simp)
  | cancel hwaits => exact henrolled.leaveServe _ (by simp)
  | discard hvalue hrests =>
      exact henrolled.setFuture (by simp [hvalue, hrests]) (by simp)
  | addSome hsome hsum =>
      exact ⟨by simpa [State.serve] using henrolled.nodup,
        by simpa [State.serve] using henrolled.waiting⟩
  | returnSome hheld hsome hsum =>
      exact ⟨by simpa [State.serve] using henrolled.nodup,
        by simpa [State.serve] using henrolled.waiting⟩
  | _ => exact ⟨henrolled.nodup, henrolled.waiting⟩

theorem enrolled {initial : Nat} {trace : List (Op W × Output W)}
    (hrun : (Fifo.system profile).Run (State.new initial) trace last) : Enrolled last := by
  refine hrun.preserves Enrolled ?_ ?_
  · exact ⟨List.nodup_nil, by simp [State.new]⟩
  · exact fun henrolled hstep => (step_transition hstep).enrolled henrolled

/-! ## What a step wakes -/

/-- A step invokes exactly the wakers of the waiters that it marks, oldest first. -/
theorem Transition.woken_eq (htransition : Transition profile state op last output)
    (henrolled : Enrolled state) :
    output.woken = Line.newlyWoken state.queue last.queue := by
  have hserve : ∀ (queue : List (Entry Nat W)) permits, (∀ entry ∈ queue, entry ∈ state.queue) →
      Line.woken permits queue = Line.newlyWoken state.queue (Line.serve permits queue) :=
    fun queue permits hstay => Line.woken_eq_newlyWoken henrolled.nodup hstay permits
  have hquiet : Line.newlyWoken state.queue state.queue = [] := by
    refine Line.newlyWoken_eq_nil fun entry hentry hwoke old hfind => ?_
    rw [Line.find?_of_mem henrolled.nodup hentry, Option.some.injEq] at hfind
    exact hfind ▸ hwoke
  cases htransition with
  | @wait future permits waker hidle hcannot =>
      refine (Line.newlyWoken_eq_nil fun entry hentry hwoke old hfind => ?_).symm
      simp only [State.setFuture_queue, State.enqueue, List.mem_append,
        List.mem_singleton] at hentry
      rcases hentry with hentry | rfl
      · rw [Line.find?_of_mem henrolled.nodup hentry, Option.some.injEq] at hfind
        exact hfind ▸ hwoke
      · cases hwoke
  | @refresh future waker entry hwaits hfind hwoke =>
      refine (Line.newlyWoken_eq_nil fun polled hpolled hmark old hfound => ?_).symm
      obtain ⟨before, hbefore, hid, -, hsame, -⟩ := Line.mem_refresh hpolled
      rw [hid, Line.find?_of_mem henrolled.nodup hbefore, Option.some.injEq] at hfound
      rw [← hfound, ← hsame, hmark]
  | grant hwaits hfind hwoke hfitting =>
      exact hserve _ _ fun entry hentry => List.mem_of_mem_filter hentry
  | cancel hwaits => exact hserve _ _ fun entry hentry => List.mem_of_mem_filter hentry
  | addSome hsome hsum => exact hserve _ _ fun entry hentry => hentry
  | returnSome hheld hsome hsum => exact hserve _ _ fun entry hentry => hentry
  | _ => exact hquiet.symm

/-- A waiter that is woken stays woken for as long as it waits. -/
theorem Transition.woke_stays (htransition : Transition profile state op last output)
    (henrolled : Enrolled state) {old entry : Entry Nat W} (hold : old ∈ state.queue)
    (hentry : entry ∈ last.queue) (hid : entry.id = old.id) (hwoke : old.woke = true) :
    entry.woke = true := by
  have hsame : ∀ other ∈ state.queue, other.id = old.id → other = old := by
    intro other hother heq
    have hfind := Line.find?_of_mem henrolled.nodup hother
    rw [heq, Line.find?_of_mem henrolled.nodup hold] at hfind
    exact (Option.some.inj hfind).symm
  have hserve : ∀ (queue : List (Entry Nat W)) permits, (∀ other ∈ queue, other ∈ state.queue) →
      entry ∈ Line.serve permits queue → entry.woke = true := by
    intro queue permits hstay hserved
    obtain ⟨before, hbefore, rfl | rfl⟩ := Line.mem_serve hserved
    · rw [hsame _ (hstay _ hbefore) hid, hwoke]
    · rfl
  cases htransition with
  | @wait future permits waker hidle hcannot =>
      simp only [State.setFuture_queue, State.enqueue, List.mem_append,
        List.mem_singleton] at hentry
      rcases hentry with hentry | rfl
      · rw [hsame entry hentry hid, hwoke]
      · have hwaiting := (henrolled.waiting old.id).mp (List.mem_map_of_mem hold)
        rw [← hid, hidle] at hwaiting
        cases hwaiting
  | refresh hwaits hfind hmark =>
      obtain ⟨before, hbefore, hbeforeId, -, hbeforeWoke, -⟩ := Line.mem_refresh hentry
      rw [hbeforeWoke, hsame before hbefore (hbeforeId ▸ hid), hwoke]
  | grant hwaits hfind hmark hfitting =>
      exact hserve _ _ (fun other hother => List.mem_of_mem_filter hother) hentry
  | cancel hwaits =>
      exact hserve _ _ (fun other hother => List.mem_of_mem_filter hother) hentry
  | addSome hsome hsum => exact hserve _ _ (fun other hother => hother) hentry
  | returnSome hheld hsome hsum => exact hserve _ _ (fun other hother => hother) hentry
  | _ => rw [hsame entry hentry hid, hwoke]

end Platoon.Sync.Fifo
