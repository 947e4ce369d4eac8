import Platoon.Sync.SemaphoreRuns

/-!
# Counting permits without overflow checks

A build without overflow checks adds to the counter modulo the width of
`usize`.  An addition is counted exactly when the sum is representable, and a
run in which every addition is counted breaks no promise to a woken waiter.
-/

namespace Platoon.Sync

open Platoon.Foundation Platoon.Rust

namespace Fifo

open Semaphore

variable {W : Type}

/-- The counter and every permit given out are values of `usize`. -/
structure Bounded (profile : Profile) (state : State W) : Prop where
  permits_le : state.permits ≤ profile.usizeMax
  held_le : ∀ permits ∈ state.held, permits ≤ profile.usizeMax

variable {profile : Profile} {state last : State W} {op : Op W} {output : Output W}

theorem Bounded.take (hbounded : Bounded profile state) {permits : Nat}
    (hle : permits ≤ state.permits) : Bounded profile (state.take permits) where
  permits_le := (Nat.sub_le _ _).trans hbounded.permits_le
  held_le other hother := by
    rcases List.mem_cons.mp hother with rfl | hold
    · exact hle.trans hbounded.permits_le
    · exact hbounded.held_le other hold

theorem Bounded.erase (hbounded : Bounded profile state) (permits : Nat) :
    ∀ other ∈ state.held.erase permits, other ≤ profile.usizeMax := by
  intro other hother
  exact hbounded.held_le other (List.mem_of_mem_erase hother)

theorem add_le {left right sum : Nat} (hsum : profile.add left right = .ok sum) :
    sum ≤ profile.usizeMax := by
  unfold Profile.add at hsum
  split at hsum
  · cases hsum
    assumption
  · split at hsum <;> cases hsum
    exact Nat.le_sub_one_of_lt (Nat.mod_lt _ (Nat.two_pow_pos _))

theorem add_lt {left right sum : Nat} (hsum : profile.add left right = .ok sum)
    (hright : right ≤ profile.usizeMax) (hover : profile.usizeMax < left + right)
    (hleft : left ≤ profile.usizeMax) : sum < left := by
  have hwidth : profile.usizeMax + 1 = 2 ^ profile.bits :=
    Nat.sub_add_cancel (Nat.one_le_two_pow)
  unfold Profile.add at hsum
  rw [if_neg (by omega)] at hsum
  split at hsum <;> cases hsum
  rw [Nat.mod_eq_sub_mod (by omega), Nat.mod_eq_of_lt (by omega)]
  omega

variable [Wakes W]

theorem Transition.bounded (htransition : Transition profile state op last output)
    (hbounded : Bounded profile state) : Bounded profile last := by
  cases htransition with
  | take hidle hcan =>
      exact { hbounded.take (permits_le_of_canTake hcan).1 with }
  | tryTake hcan => exact hbounded.take (permits_le_of_canTake hcan).1
  | grant hwaits hfind hwoke hfits => exact { hbounded.take hfits with }
  | addSome hsome hsum => exact ⟨add_le hsum, hbounded.held_le⟩
  | returnSome hheld hsome hsum => exact ⟨add_le hsum, hbounded.erase _⟩
  | returnNone hheld => exact ⟨hbounded.permits_le, hbounded.erase _⟩
  | forget hheld => exact ⟨hbounded.permits_le, hbounded.erase _⟩
  | leak hheld => exact ⟨hbounded.permits_le, hbounded.erase _⟩
  | _ => exact ⟨hbounded.permits_le, hbounded.held_le⟩

/-- An operation never puts more than `usize::MAX` permits at once. -/
theorem puts_le (hstep : (Fifo.system profile).step state op = .next last output)
    (hbounded : Bounded profile state) {permits : Nat} (hputs : op.puts = some permits) :
    permits ≤ profile.usizeMax := by
  cases op with
  | addPermits amount =>
      cases hputs
      simp only [Fifo.system, State.step, Outcome.when_eq_next, decide_eq_true_eq] at hstep
      exact hstep.1
  | dropPermit amount =>
      cases hputs
      simp only [Fifo.system, State.step, Outcome.when_eq_next, decide_eq_true_eq] at hstep
      exact hbounded.held_le _ hstep.1
  | _ => cases hputs

/-- The counter after an operation that puts permits on it. -/
theorem Transition.puts_sum (htransition : Transition profile state op last output)
    (hbounded : Bounded profile state) {permits : Nat} (hputs : op.puts = some permits) :
    profile.add state.permits permits = .ok last.permits := by
  cases htransition with
  | addNone =>
      cases hputs
      exact Profile.add_of_le hbounded.permits_le
  | returnNone hheld =>
      cases hputs
      exact Profile.add_of_le hbounded.permits_le
  | addSome hsome hsum =>
      cases hputs
      exact hsum
  | returnSome hheld hsome hsum =>
      cases hputs
      exact hsum
  | _ => cases hputs

end Fifo

namespace Semaphore

variable {S : Type → Type} [Slab S] {W : Type} [Wakes W]

/-- The permits that the operation puts on the counter are counted: the counter does
not decrease, and it does not change when the sum exceeds `usize::MAX`. -/
def Counted (profile : Profile) (state : State S W) (op : Op W) (last : State S W) : Prop :=
  ∀ permits, op.puts = some permits →
    state.inner.permits ≤ last.inner.permits ∧
      (profile.usizeMax < state.inner.permits + permits →
        last.inner.permits = state.inner.permits)

/-- No poll fails the assertion that a woken waiter can take its permits. -/
def PromisesHold (profile : Profile) (state : State S W) : Prop :=
  ∀ future waker, (system profile).step state (.poll future waker) ≠ .panic .assertionFailed

variable {profile : Profile} {initial : Nat} {trace : List (Op W × Output W)}
  {state last : State S W} {op : Op W} {output : Output W}

/-- The operation is taken with room for the permits it puts on the counter. -/
def Room (profile : Profile) (state : State S W) (op : Op W) : Bool :=
  op.fits profile state.inner.permits

/-- The state represents a line whose promises are covered by the counter. -/
structure Covered (profile : Profile) (state : State S W) (spec : Fifo.State W) : Prop where
  represents : Fifo.Represents state spec
  enrolled : Fifo.Enrolled spec
  bounded : Fifo.Bounded profile spec
  kept : Line.Kept spec.permits spec.queue

theorem Covered.step {spec : Fifo.State W} (hcovered : Covered profile state spec)
    (hroom : Room profile state op = true)
    (hstep : (system profile).step state op = .next last output) :
    ∃ specLast, Covered profile last specLast := by
  obtain ⟨⟨cells, owner, hvia⟩, henrolled, hbounded, hkept⟩ := hcovered
  obtain ⟨specLast, hspecStep, hrepresents⟩ :=
    (Fifo.refines op ⟨cells, owner, hvia⟩).forward hstep
  have htransition := Fifo.step_transition hspecStep
  rw [Room, ← hvia.permits] at hroom
  exact ⟨specLast, hrepresents, htransition.enrolled henrolled, htransition.bounded hbounded,
    htransition.kept hroom hkept⟩

/-- Where the promises are covered, no poll of a woken waiter fails. -/
theorem Covered.promisesHold {spec : Fifo.State W} (hcovered : Covered profile state spec) :
    PromisesHold profile state := by
  intro future waker hpanic
  rw [(Fifo.refines (.poll future waker) hcovered.represents).panic_iff] at hpanic
  simp only [Fifo.system, Fifo.State.step, Fifo.State.poll] at hpanic
  split at hpanic
  · split at hpanic <;> cases hpanic
  · split at hpanic
    · cases hpanic
    · rename_i entry hfind
      split at hpanic
      · rename_i hwoke
        rw [if_pos (hcovered.kept.required_le hfind hwoke)] at hpanic
        cases hpanic
      · cases hpanic
  · cases hpanic
  · cases hpanic

theorem covered (hinitial : initial ≤ profile.usizeMax)
    (hrun : ((system profile).restrict (Room profile)).Run (State.new initial : State S W)
      trace state) : ∃ spec, Covered profile state spec := by
  refine hrun.preserves (fun state => ∃ spec, Covered profile state spec) ?_ ?_
  · exact ⟨Fifo.State.new initial, ⟨[], id, Fifo.Via.new initial⟩,
      ⟨List.nodup_nil, by simp [Fifo.State.new]⟩, ⟨hinitial, by simp [Fifo.State.new]⟩,
      Line.Kept.nil _⟩
  · rintro middle last op output ⟨spec, hcovered⟩ hstep
    obtain ⟨hroom, hstep⟩ := System.restrict_step.mp hstep
    exact hcovered.step hroom hstep

/-- An addition that is carried out is counted exactly when it finds room. -/
theorem Covered.counted_iff {spec : Fifo.State W} (hcovered : Covered profile state spec)
    (hstep : (system profile).step state op = .next last output) :
    Counted profile state op last ↔ Room profile state op = true := by
  obtain ⟨⟨cells, owner, hvia⟩, henrolled, hbounded, hkept⟩ := hcovered
  obtain ⟨specLast, hspecStep, cells', owner', hvia'⟩ :=
    (Fifo.refines op ⟨cells, owner, hvia⟩).forward hstep
  rw [Counted, Room, Op.fits, ← hvia.permits, ← hvia'.permits]
  cases hputs : op.puts with
  | none => simp
  | some permits =>
      have hsum := (Fifo.step_transition hspecStep).puts_sum hbounded hputs
      have hamount := Fifo.puts_le hspecStep hbounded hputs
      simp only [Option.some.injEq, forall_eq', Option.all_some, decide_eq_true_eq]
      constructor
      · rintro ⟨hgrows, -⟩
        by_contra hover
        have hlost := Fifo.add_lt hsum hamount (by omega) hbounded.permits_le
        omega
      · intro hroom
        rw [Profile.add_of_le hroom, Except.ok.injEq] at hsum
        constructor
        · omega
        · omega

/-- The additions of a run are counted, and the promises to woken waiters hold, exactly when
every addition finds room.  Only a build without overflow checks takes the others. -/
theorem additions_counted (hinitial : initial ≤ profile.usizeMax)
    (hrun : (system profile).Run (State.new initial : State S W) trace state) :
    (system profile).Always (State.new initial) trace (fun front (reached : State S W) =>
        (system profile).LastStep (State.new initial) (Counted profile) front reached ∧
          PromisesHold profile reached) ↔
      ((system profile).restrict (Room profile)).Run (State.new initial) trace state := by
  refine hrun.always_iff_restrict ?_ ?_
  · obtain ⟨spec, hcovered⟩ : ∃ spec, Covered profile (State.new initial : State S W) spec :=
      covered hinitial .refl
    exact ⟨System.lastStep_nil, hcovered.promisesHold⟩
  · intro front middle last op output hguarded hstep
    obtain ⟨spec, hcovered⟩ := covered hinitial hguarded
    rw [System.lastStep_snoc hguarded.of_restrict, hcovered.counted_iff hstep]
    constructor
    · exact And.left
    · intro hroom
      obtain ⟨specLast, hlast⟩ := hcovered.step hroom hstep
      exact ⟨hroom, hlast.promisesHold⟩

/-- A future waits for one of no permits and is promised the one that is added. -/
def promised : List (Op Nat) :=
  [.acquire 0 1, .poll 0 10, .addPermits 1]

theorem additions_counted_promised :
    ∃ (trace : List (Op Nat × Output Nat)) (state : State FreeSlab Nat),
      state.inner.permits = 1 ∧ (system Profile.release).Always (State.new 0) trace
        fun front (reached : State FreeSlab Nat) =>
          (system Profile.release).LastStep (State.new 0) (Counted Profile.release) front reached ∧
            PromisesHold Profile.release reached := by
  have hcheck : (((system Profile.release).restrict (Room Profile.release)).exec
      (State.new 0 : State FreeSlab Nat) promised).any
        (fun result => decide (result.2.inner.permits = 1)) = true := by decide
  obtain ⟨trace, state, hrun, hpass⟩ := System.exec_check hcheck
  exact ⟨trace, state, by simpa using hpass,
    (additions_counted (by decide) hrun.of_restrict).mpr hrun⟩

/-- Adding `usize::MAX` more in a release build takes the promised permit back: the counter
is at zero, and the poll of the woken waiter fails its assertion. -/
theorem promised_lost :
    ∃ (trace more : List (Op Nat × Output Nat)) (state last : State FreeSlab Nat),
      (system Profile.release).Run (State.new 0) trace state ∧
        (system Profile.release).Run state more last ∧
        more.map Prod.fst = [.addPermits Profile.release.usizeMax] ∧
        last.inner.permits < state.inner.permits ∧
        (system Profile.release).step last (.poll 0 10) = .panic .assertionFailed := by
  have hcheck : ((system Profile.release).exec (State.new 0 : State FreeSlab Nat)
      promised).any (fun result =>
        ((system Profile.release).exec result.2 [.addPermits Profile.release.usizeMax]).any
          fun added => decide (added.1.map Prod.fst = [.addPermits Profile.release.usizeMax]) &&
            decide (added.2.inner.permits < result.2.inner.permits) &&
            decide (((system Profile.release).step added.2 (.poll 0 10)).reason? =
              some .assertionFailed)) = true := by decide +kernel
  obtain ⟨trace, state, hrun, hpass⟩ := System.exec_check hcheck
  obtain ⟨more, last, hmore, hlost⟩ := System.exec_check hpass
  simp only [Bool.and_eq_true, decide_eq_true_eq, Outcome.reason?_eq_some] at hlost
  exact ⟨trace, more, state, last, hrun, hmore, hlost.1.1, hlost.1.2, hlost.2⟩

end Semaphore

end Platoon.Sync
