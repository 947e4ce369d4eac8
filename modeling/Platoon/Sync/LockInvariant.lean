import Platoon.Sync.Lock
import Platoon.Sync.SemaphoreRuns

/-!
# Guards and their borrows

A run of a lock is a run of its semaphore.  The guards that are alive own
exactly the permits that the semaphore gave out, and the borrow flag counts
them: any number of shared ones, or a single exclusive one.
-/

namespace Platoon.Sync.Lock

open Platoon.Foundation Platoon.Rust

variable {S : Type → Type} [Slab S] {W : Type} [Wakes W]

/-- The successful steps of a lock in terms of its semaphore. -/
inductive Transition (profile : Profile) (lock : Lock) (state : State S W) :
    Op W → State S W → Output W → Prop where
  | request {future : Nat} {mode : Mode} {semaphore : Semaphore.State S W}
      {output : Semaphore.Output W} (hmode : mode ∈ lock.methods)
      (hstep : state.semaphore.step profile (.acquire future mode.permits) =
        .next semaphore output) :
      Transition profile lock state (.request future mode)
        { state with
          semaphore, requests := Function.update state.requests future (some mode) }
        { woken := output.woken }
  | pending {future : Nat} {waker : W} {mode : Mode} {semaphore : Semaphore.State S W}
      {output : Semaphore.Output W} (hrequest : state.requests future = some mode)
      (hstep : state.semaphore.step profile (.poll future waker) = .next semaphore output)
      (hnone : output.obtained = none) :
      Transition profile lock state (.poll future waker) { state with semaphore }
        { woken := output.woken }
  | grant {future permits : Nat} {waker : W} {mode : Mode} {semaphore : Semaphore.State S W}
      {output : Semaphore.Output W} {value : Int}
      (hrequest : state.requests future = some mode)
      (hstep : state.semaphore.step profile (.poll future waker) = .next semaphore output)
      (hsome : output.obtained = some permits)
      (hborrow : borrow profile state.value mode.access = .ok value) :
      Transition profile lock state (.poll future waker)
        { state with semaphore, value, guards := mode :: state.guards }
        { woken := output.woken, granted := some mode }
  | dropFuture {future : Nat} {semaphore : Semaphore.State S W} {output : Semaphore.Output W}
      (hstep : state.semaphore.step profile (.drop future) = .next semaphore output) :
      Transition profile lock state (.dropFuture future) { state with semaphore }
        { woken := output.woken }
  | tryFail {mode : Mode} {semaphore : Semaphore.State S W} {output : Semaphore.Output W}
      (hmode : mode ∈ lock.tries)
      (hstep : state.semaphore.step profile (.tryAcquire mode.permits) =
        .next semaphore output) (hnone : output.obtained = none) :
      Transition profile lock state (.tryLock mode) { state with semaphore }
        { woken := output.woken }
  | tryGrant {permits : Nat} {mode : Mode} {semaphore : Semaphore.State S W}
      {output : Semaphore.Output W} {value : Int} (hmode : mode ∈ lock.tries)
      (hstep : state.semaphore.step profile (.tryAcquire mode.permits) =
        .next semaphore output) (hsome : output.obtained = some permits)
      (hborrow : borrow profile state.value mode.access = .ok value) :
      Transition profile lock state (.tryLock mode)
        { state with semaphore, value, guards := mode :: state.guards }
        { woken := output.woken, granted := some mode }
  | dropGuard {mode : Mode} {semaphore : Semaphore.State S W} {output : Semaphore.Output W}
      (hguard : mode ∈ state.guards)
      (hstep : state.semaphore.step profile (.dropPermit mode.permits) =
        .next semaphore output) :
      Transition profile lock state (.dropGuard mode)
        { state with
          semaphore
          value := unborrow state.value mode.access
          guards := state.guards.erase mode }
        { woken := output.woken }
  | leakGuard {mode : Mode} {semaphore : Semaphore.State S W} {output : Semaphore.Output W}
      (hguard : mode ∈ state.guards)
      (hstep : state.semaphore.step profile (.leak mode.permits) = .next semaphore output) :
      Transition profile lock state (.leakGuard mode)
        { state with
          semaphore, guards := state.guards.erase mode, leaked := mode :: state.leaked }
        { woken := output.woken }

variable {profile : Profile} {lock : Lock} {state last : State S W}
variable {op : Op W} {output : Output W}

omit [Slab S] [Wakes W] in
/-- Building the guard either has nothing to build or takes the borrow. -/
theorem finish_cases {mode : Mode} {semaphore : Semaphore.State S W}
    {inner : Semaphore.Output W}
    (hfinish : state.finish profile mode semaphore inner = .next last output) :
    (inner.obtained = none ∧ last = { state with semaphore } ∧
        output = { woken := inner.woken }) ∨
      ∃ permits value, inner.obtained = some permits ∧
        borrow profile state.value mode.access = .ok value ∧
        last = { state with semaphore, value, guards := mode :: state.guards } ∧
        output = { woken := inner.woken, granted := some mode } := by
  unfold State.finish at hfinish
  split at hfinish
  · rename_i hnone
    cases hfinish
    exact .inl ⟨hnone, rfl, rfl⟩
  · rename_i permits hsome
    rw [Outcome.ofExcept_eq_next] at hfinish
    obtain ⟨value, hborrow, hpair⟩ := ok_of_bind hfinish
    cases hpair
    exact .inr ⟨permits, value, hsome, hborrow, rfl, rfl⟩

/-- Every successful step is one of the transitions. -/
theorem step_transition (hstep : (Lock.system profile lock).step state op = .next last output) :
    Transition profile lock state op last output := by
  cases op with
  | request future mode =>
      simp only [Lock.system, State.step, Outcome.when_eq_next, decide_eq_true_eq,
        Outcome.andThen_eq_next, Outcome.next.injEq] at hstep
      obtain ⟨hmode, semaphore, inner, hacquire, rfl, rfl⟩ := hstep
      exact .request hmode hacquire
  | poll future waker =>
      simp only [Lock.system, State.step] at hstep
      split at hstep
      · cases hstep
      · rename_i mode hrequest
        rw [Outcome.andThen_eq_next] at hstep
        obtain ⟨semaphore, inner, hpoll, hfinish⟩ := hstep
        rcases finish_cases hfinish with
          ⟨hnone, rfl, rfl⟩ | ⟨permits, value, hsome, hborrow, rfl, rfl⟩
        · exact .pending hrequest hpoll hnone
        · exact .grant hrequest hpoll hsome hborrow
  | dropFuture future =>
      simp only [Lock.system, State.step, Outcome.andThen_eq_next,
        Outcome.next.injEq] at hstep
      obtain ⟨semaphore, inner, hdrop, rfl, rfl⟩ := hstep
      exact .dropFuture hdrop
  | tryLock mode =>
      simp only [Lock.system, State.step, Outcome.when_eq_next, decide_eq_true_eq,
        Outcome.andThen_eq_next] at hstep
      obtain ⟨hmode, semaphore, inner, htry, hfinish⟩ := hstep
      rcases finish_cases hfinish with
        ⟨hnone, rfl, rfl⟩ | ⟨permits, value, hsome, hborrow, rfl, rfl⟩
      · exact .tryFail hmode htry hnone
      · exact .tryGrant hmode htry hsome hborrow
  | dropGuard mode =>
      simp only [Lock.system, State.step, Outcome.when_eq_next, decide_eq_true_eq,
        Outcome.andThen_eq_next, Outcome.next.injEq] at hstep
      obtain ⟨hguard, semaphore, inner, hdrop, rfl, rfl⟩ := hstep
      exact .dropGuard hguard hdrop
  | leakGuard mode =>
      simp only [Lock.system, State.step, Outcome.when_eq_next, decide_eq_true_eq,
        Outcome.andThen_eq_next, Outcome.next.injEq] at hstep
      obtain ⟨hguard, semaphore, inner, hleak, rfl, rfl⟩ := hstep
      exact .leakGuard hguard hleak

/-! ## The run of the semaphore -/

/-- The operation on the semaphore that an operation on the lock makes. -/
def Op.onSemaphore : Op W → Semaphore.Op W
  | .request future mode => .acquire future mode.permits
  | .poll future waker => .poll future waker
  | .dropFuture future => .drop future
  | .tryLock mode => .tryAcquire mode.permits
  | .dropGuard mode => .dropPermit mode.permits
  | .leakGuard mode => .leak mode.permits

/-- What the semaphore sees of an event of the lock. -/
def onSemaphore (event : Op W × Output W) : Semaphore.Op W × Semaphore.Output W :=
  (event.1.onSemaphore,
    { woken := event.2.woken, obtained := event.2.granted.map Mode.permits })

omit [Wakes W] in
@[simp]
theorem added_onSemaphore (trace : List (Op W × Output W)) :
    Semaphore.added (trace.map onSemaphore) = 0 := by
  refine List.sum_eq_zero ?_
  simp only [List.map_map, List.mem_map, Function.comp_apply, onSemaphore]
  rintro amount ⟨⟨op, output⟩, -, rfl⟩
  cases op <;> rfl

omit [Wakes W] in
@[simp]
theorem forgotten_onSemaphore (trace : List (Op W × Output W)) :
    Semaphore.forgotten (trace.map onSemaphore) = 0 := by
  refine List.sum_eq_zero ?_
  simp only [List.map_map, List.mem_map, Function.comp_apply, onSemaphore]
  rintro amount ⟨⟨op, output⟩, -, rfl⟩
  cases op <;> rfl

/-- Every running future of the semaphore acquires for the mode of its request. -/
def Asked (state : State S W) : Prop :=
  ∀ future acquire, state.semaphore.futures future = some (.running acquire) →
    ∃ mode, state.requests future = some mode ∧ acquire.permits = mode.permits

section Obtained

variable {semaphore : Semaphore.State S W} {inner : Semaphore.Output W} {permits : Nat}

/-- A polled request obtains the permits of its mode. -/
theorem Asked.obtained_poll (hasked : Asked state) {future : Nat} {waker : W} {mode : Mode}
    (hrequest : state.requests future = some mode)
    (hstep : state.semaphore.step profile (.poll future waker) = .next semaphore inner)
    (hobtained : inner.obtained = some permits) : permits = mode.permits := by
  rcases (Semaphore.step_amounts hstep).2 permits hobtained with
    heq | ⟨polled, polling, acquire, heq, hfuture, hpermits⟩
  · cases heq
  · cases heq
    obtain ⟨mode', hrequest', hmode'⟩ := hasked future acquire hfuture
    rw [hrequest, Option.some.injEq] at hrequest'
    rw [← hpermits, hmode', hrequest']

/-- `try_acquire` obtains what it asked for. -/
theorem obtained_try {amount : Nat}
    (hstep : state.semaphore.step profile (.tryAcquire amount) = .next semaphore inner)
    (hobtained : inner.obtained = some permits) : permits = amount := by
  rcases (Semaphore.step_amounts hstep).2 permits hobtained with
    heq | ⟨polled, polling, acquire, heq, -⟩
  · exact (Semaphore.Op.tryAcquire.inj heq).symm
  · cases heq

end Obtained

/-- One step of the lock is one step of its semaphore. -/
theorem Transition.onSemaphore (htransition : Transition profile lock state op last output)
    (hasked : Asked state) :
    state.semaphore.step profile (Lock.onSemaphore (op, output)).1 =
      .next last.semaphore (Lock.onSemaphore (op, output)).2 := by
  have hnothing : ∀ {semOp : Semaphore.Op W} {semaphore : Semaphore.State S W}
      {inner : Semaphore.Output W},
      state.semaphore.step profile semOp = .next semaphore inner → inner.obtained = none →
      state.semaphore.step profile semOp =
        .next semaphore { woken := inner.woken, obtained := none } := by
    intro semOp semaphore inner hstep hnone
    rw [hstep, ← hnone]
  have hnone : ∀ {semOp : Semaphore.Op W} {semaphore : Semaphore.State S W}
      {inner : Semaphore.Output W},
      state.semaphore.step profile semOp = .next semaphore inner →
      (∀ future waker, semOp ≠ .poll future waker) → (∀ permits, semOp ≠ .tryAcquire permits) →
      inner.obtained = none := by
    intro semOp semaphore inner hstep hpoll htry
    cases hobtained : inner.obtained with
    | none => rfl
    | some permits =>
        rcases (Semaphore.step_amounts hstep).2 permits hobtained with
          rfl | ⟨future, waker, acquire, rfl, -⟩
        · exact absurd rfl (htry permits)
        · exact absurd rfl (hpoll future waker)
  cases htransition with
  | request hmode hstep => exact hnothing hstep (hnone hstep (by simp) (by simp))
  | pending hrequest hstep hobtained => exact hnothing hstep hobtained
  | @grant future permits waker mode semaphore inner value hrequest hstep hsome hborrow =>
      have hamount := hasked.obtained_poll hrequest hstep hsome
      exact hstep.trans (by rw [Lock.onSemaphore, Option.map_some, ← hamount, ← hsome])
  | dropFuture hstep => exact hnothing hstep (hnone hstep (by simp) (by simp))
  | tryFail hmode hstep hobtained => exact hnothing hstep hobtained
  | @tryGrant permits mode semaphore inner value hmode hstep hsome hborrow =>
      have hamount := obtained_try hstep hsome
      exact hstep.trans (by rw [Lock.onSemaphore, Option.map_some, ← hamount, ← hsome])
  | dropGuard hguard hstep => exact hnothing hstep (hnone hstep (by simp) (by simp))
  | leakGuard hguard hstep => exact hnothing hstep (hnone hstep (by simp) (by simp))

/-- The modes of the requests stay those of the running futures. -/
theorem Transition.asked (htransition : Transition profile lock state op last output)
    (hasked : Asked state) : Asked last := by
  have hsame : ∀ {semOp : Semaphore.Op W} {semaphore : Semaphore.State S W}
      {inner : Semaphore.Output W},
      state.semaphore.step profile semOp = .next semaphore inner →
      (∀ future permits, semOp ≠ .acquire future permits) →
      ∀ future acquire, semaphore.futures future = some (.running acquire) →
        ∃ mode, state.requests future = some mode ∧ acquire.permits = mode.permits := by
    intro semOp semaphore inner hstep hacquire future acquire hrunning
    rcases (Semaphore.step_amounts hstep).1 future acquire hrunning with
      heq | ⟨before, hbefore, hpermits⟩
    · exact absurd heq (hacquire _ _)
    · rw [← hpermits]
      exact hasked future before hbefore
  cases htransition with
  | @request future mode semaphore inner hmode hstep =>
      intro other acquire hrunning
      rcases (Semaphore.step_amounts hstep).1 other acquire hrunning with
        heq | ⟨before, hbefore, hpermits⟩
      · obtain ⟨rfl, hpermits⟩ := Semaphore.Op.acquire.inj heq
        exact ⟨mode, Function.update_self _ _ _, hpermits.symm⟩
      · have hne : other ≠ future := by
          rintro rfl
          simp [Semaphore.State.step, hbefore] at hstep
        obtain ⟨mode', hrequest, hmode'⟩ := hasked other before hbefore
        exact ⟨mode', (Function.update_of_ne hne _ _).trans hrequest, hpermits ▸ hmode'⟩
  | pending hrequest hstep hobtained => exact hsame hstep (by simp)
  | grant hrequest hstep hsome hborrow => exact hsame hstep (by simp)
  | dropFuture hstep => exact hsame hstep (by simp)
  | tryFail hmode hstep hobtained => exact hsame hstep (by simp)
  | tryGrant hmode hstep hsome hborrow => exact hsame hstep (by simp)
  | dropGuard hguard hstep => exact hsame hstep (by simp)
  | leakGuard hguard hstep => exact hsame hstep (by simp)

/-- A lock simulates into its semaphore. -/
theorem simulates :
    System.Simulates (Lock.system profile lock) (Semaphore.system profile) Lock.onSemaphore
      fun (state : State S W) spec => state.semaphore = spec ∧ Asked state := by
  rintro state spec op last output ⟨rfl, hasked⟩ hstep
  have htransition := step_transition hstep
  exact ⟨last.semaphore, htransition.onSemaphore hasked, rfl, htransition.asked hasked⟩

/-- A run of a lock is a run of the abstract line. -/
theorem run_represented {trace : List (Op W × Output W)}
    (hrun : (Lock.system profile lock).Run (State.new lock : State S W) trace state) :
    Asked state ∧ ∃ spec cells owner,
      (Fifo.system profile).Run (Fifo.State.new lock.permits) (trace.map Lock.onSemaphore) spec ∧
        Fifo.Via cells owner state.semaphore spec := by
  obtain ⟨semaphore, hsemaphore, rfl, hasked⟩ :=
    simulates.run ⟨rfl, by simp [Asked, State.new, Semaphore.State.new]⟩ hrun
  exact ⟨hasked, Semaphore.run_represented hsemaphore⟩

/-! ## The borrow flag -/

/-- The flag counts shared guards, or records the only exclusive one. -/
def Borrowed (value : Int) (alive : List Mode) : Prop :=
  ((∀ mode ∈ alive, mode.access = .shared) ∧ value = alive.length) ∨
    ∃ mode, alive = [mode] ∧ mode.access = .exclusive ∧ value = -1

namespace Borrowed

variable {value value' : Int} {alive alive' : List Mode} {mode : Mode}

theorem perm (hborrowed : Borrowed value alive) (hperm : alive.Perm alive') :
    Borrowed value alive' := by
  rcases hborrowed with ⟨hshared, hvalue⟩ | ⟨mode, rfl, hexclusive, hvalue⟩
  · exact .inl ⟨fun mode hmode => hshared mode (hperm.mem_iff.mpr hmode),
      hperm.length_eq ▸ hvalue⟩
  · exact .inr ⟨mode, List.perm_singleton.mp hperm.symm, hexclusive, hvalue⟩

/-- A borrow that succeeds admits one more guard. -/
theorem borrow (hborrowed : Borrowed value alive)
    (hborrow : Lock.borrow profile value mode.access = .ok value') :
    Borrowed value' (mode :: alive) := by
  cases haccess : mode.access with
  | shared =>
      simp only [haccess, Lock.borrow, RefCell.borrow] at hborrow
      split at hborrow
      · rename_i hfree
        cases hborrow
        rcases hborrowed with ⟨hshared, rfl⟩ | ⟨other, -, -, rfl⟩
        · refine .inl ⟨?_, by simp⟩
          simpa [haccess] using hshared
        · omega
      · cases hborrow
  | exclusive =>
      simp only [haccess, Lock.borrow, RefCell.borrowMut] at hborrow
      split at hborrow
      · rename_i hfree
        cases hborrow
        rcases hborrowed with ⟨hshared, rfl⟩ | ⟨other, -, -, rfl⟩
        · have hnil : alive = [] := List.length_eq_zero_iff.mp (by omega)
          exact .inr ⟨mode, by rw [hnil], haccess, rfl⟩
        · omega
      · cases hborrow

/-- Dropping the borrow of a guard. -/
theorem unborrow (hborrowed : Borrowed value alive) (hmem : mode ∈ alive) :
    Borrowed (Lock.unborrow value mode.access) (alive.erase mode) := by
  rcases hborrowed with ⟨hshared, rfl⟩ | ⟨other, rfl, hexclusive, rfl⟩
  · refine .inl ⟨fun other hother => hshared other (List.mem_of_mem_erase hother), ?_⟩
    have hpos := List.length_pos_of_mem hmem
    simp only [hshared mode hmem, Lock.unborrow, RefCell.dropRef, List.length_erase, hmem,
      ↓reduceIte]
    omega
  · obtain rfl := List.mem_singleton.mp hmem
    refine .inl ⟨by simp, ?_⟩
    simp [hexclusive, Lock.unborrow, RefCell.dropRefMut]

/-- The guards alive never conflict. -/
theorem exclusion (hborrowed : Borrowed value alive) :
    (∀ mode ∈ alive, mode.access = .shared) ∨
      ∃ mode, alive = [mode] ∧ mode.access = .exclusive := by
  rcases hborrowed with ⟨hshared, -⟩ | ⟨mode, halone, hexclusive, -⟩
  · exact .inl hshared
  · exact .inr ⟨mode, halone, hexclusive⟩

end Borrowed

/-! ## The invariant of a lock -/

/-- What a lock needs of its modes: each costs a permit, and an exclusive one costs all. -/
structure Priced (profile : Profile) (lock : Lock) : Prop where
  bound : lock.permits ≤ profile.usizeMax
  pos : ∀ mode ∈ lock.methods ++ lock.tries, 1 ≤ mode.permits
  all : ∀ mode ∈ lock.methods ++ lock.tries, mode.access = .exclusive →
    mode.permits = lock.permits

theorem Mutex.priced (profile : Profile) : Priced profile Mutex where
  bound := profile.one_le_usizeMax
  pos := by simp [Mutex, Mutex.lock, Mutex.tryLock]
  all := by simp [Mutex, Mutex.lock, Mutex.tryLock]

theorem RwLock.priced (profile : Profile) : Priced profile (RwLock profile) where
  bound := Nat.le_refl _
  pos := by
    have hpos := profile.one_le_usizeMax
    simp [RwLock, RwLock.read, RwLock.write, RwLock.tryRead, RwLock.tryWrite, RwLock.PERMITS,
      hpos]
  all := by
    simp [RwLock, RwLock.read, RwLock.write, RwLock.tryRead, RwLock.tryWrite]

/-- Guards, permits and the borrow flag tell the same. -/
structure Consistent (lock : Lock) (state : State S W) : Prop where
  held : state.semaphore.held.Perm (state.guards.map Mode.permits)
  leaked : state.semaphore.leaked.Perm (state.leaked.map Mode.permits)
  modes : ∀ mode ∈ state.alive, mode ∈ lock.methods ++ lock.tries
  requests : ∀ future mode, state.requests future = some mode → mode ∈ lock.methods
  borrowed : Borrowed state.value state.alive

/-- A step of the semaphore moves permit values as its operation says. -/
theorem step_held {spec : Fifo.State W} {semOp : Semaphore.Op W}
    {before after : Semaphore.State S W} {inner : Semaphore.Output W}
    (hrep : Fifo.Represents before spec) (hstep : before.step profile semOp = .next after inner) :
    after.held = inner.obtained.toList ++ semOp.keeps before.held ∧
      after.leaked = semOp.leaks ++ before.leaked := by
  obtain ⟨cells, owner, hvia⟩ := hrep
  obtain ⟨specLast, hspec, cells', owner', hvia'⟩ :=
    (Fifo.refines semOp ⟨cells, owner, hvia⟩).forward hstep
  rw [← hvia'.held, ← hvia'.leaked, ← hvia.held, ← hvia.leaked]
  exact (Fifo.step_transition hspec).held_eq

/-- Erasing a guard erases its permits. -/
theorem erase_permits_perm {held : List Nat} {guards : List Mode} {mode : Mode}
    (hheld : held.Perm (guards.map Mode.permits)) (hmem : mode ∈ guards) :
    (held.erase mode.permits).Perm ((guards.erase mode).map Mode.permits) := by
  have hcons : (guards.map Mode.permits).Perm
      (mode.permits :: (guards.erase mode).map Mode.permits) :=
    (List.perm_cons_erase hmem).map Mode.permits
  have herase := (hheld.trans hcons).erase mode.permits
  rwa [List.erase_cons_head] at herase

theorem Transition.consistent (htransition : Transition profile lock state op last output)
    {spec : Fifo.State W} (hrep : Fifo.Represents state.semaphore spec) (hasked : Asked state)
    (hconsistent : Consistent lock state) : Consistent lock last := by
  have hmoved := step_held hrep (htransition.onSemaphore hasked)
  have hgrant : ∀ {mode : Mode} {value : Int}, mode ∈ lock.methods ++ lock.tries →
      borrow profile state.value mode.access = .ok value →
      (∀ guard ∈ mode :: state.guards ++ state.leaked, guard ∈ lock.methods ++ lock.tries) ∧
        Borrowed value (mode :: state.guards ++ state.leaked) := by
    intro mode value hmode hborrow
    refine ⟨fun guard hguard => ?_, hconsistent.borrowed.borrow hborrow⟩
    rcases List.mem_cons.mp hguard with rfl | hold
    · exact hmode
    · exact hconsistent.modes guard hold
  cases htransition with
  | @request future mode semaphore inner hmode hstep =>
      refine ⟨hmoved.1 ▸ hconsistent.held, hmoved.2 ▸ hconsistent.leaked, hconsistent.modes, ?_,
        hconsistent.borrowed⟩
      intro other asked hasked'
      by_cases heq : other = future
      · subst heq
        have hsame : mode = asked := by simpa using hasked'
        exact hsame ▸ hmode
      · exact hconsistent.requests other asked (by simpa [heq] using hasked')
  | pending hrequest hstep hnone =>
      exact ⟨hmoved.1 ▸ hconsistent.held, hmoved.2 ▸ hconsistent.leaked, hconsistent.modes,
        hconsistent.requests, hconsistent.borrowed⟩
  | grant hrequest hstep hsome hborrow =>
      obtain ⟨hmodes, hborrowed⟩ := hgrant
        (List.mem_append_left _ (hconsistent.requests _ _ hrequest)) hborrow
      exact ⟨hmoved.1 ▸ hconsistent.held.cons _, hmoved.2 ▸ hconsistent.leaked, hmodes,
        hconsistent.requests, hborrowed⟩
  | dropFuture hstep =>
      exact ⟨hmoved.1 ▸ hconsistent.held, hmoved.2 ▸ hconsistent.leaked, hconsistent.modes,
        hconsistent.requests, hconsistent.borrowed⟩
  | tryFail hmode hstep hnone =>
      exact ⟨hmoved.1 ▸ hconsistent.held, hmoved.2 ▸ hconsistent.leaked, hconsistent.modes,
        hconsistent.requests, hconsistent.borrowed⟩
  | tryGrant hmode hstep hsome hborrow =>
      obtain ⟨hmodes, hborrowed⟩ := hgrant (List.mem_append_right _ hmode) hborrow
      exact ⟨hmoved.1 ▸ hconsistent.held.cons _, hmoved.2 ▸ hconsistent.leaked, hmodes,
        hconsistent.requests, hborrowed⟩
  | @dropGuard mode semaphore inner hguard hstep =>
      have halive : state.guards.erase mode ++ state.leaked = state.alive.erase mode :=
        (List.erase_append_left _ hguard).symm
      refine ⟨hmoved.1 ▸ erase_permits_perm hconsistent.held hguard,
        hmoved.2 ▸ hconsistent.leaked, ?_, hconsistent.requests, ?_⟩
      · intro guard hmem
        rw [State.alive, halive] at hmem
        exact hconsistent.modes guard (List.mem_of_mem_erase hmem)
      · rw [State.alive, halive]
        exact hconsistent.borrowed.unborrow (List.mem_append_left _ hguard)
  | @leakGuard mode semaphore inner hguard hstep =>
      have hperm : state.alive.Perm (state.guards.erase mode ++ mode :: state.leaked) :=
        ((List.perm_cons_erase hguard).append_right state.leaked).trans
          List.perm_middle.symm
      refine ⟨hmoved.1 ▸ erase_permits_perm hconsistent.held hguard,
        hmoved.2 ▸ hconsistent.leaked.cons _, ?_, hconsistent.requests,
        hconsistent.borrowed.perm hperm⟩
      intro guard hmem
      exact hconsistent.modes guard (hperm.mem_iff.mpr hmem)

theorem consistent {trace : List (Op W × Output W)}
    (hrun : (Lock.system profile lock).Run (State.new lock : State S W) trace state) :
    Consistent lock state := by
  refine hrun.invariant (fun _ state => Consistent lock state) ?_ ?_
  · exact ⟨List.Perm.nil, List.Perm.nil, by simp [State.new, State.alive],
      by simp [State.new], .inl ⟨by simp [State.new, State.alive], rfl⟩⟩
  · intro trace middle last op output hprefix hconsistent hstep
    obtain ⟨hasked, spec, cells, owner, -, hvia⟩ := run_represented hprefix
    exact (step_transition hstep).consistent ⟨cells, owner, hvia⟩ hasked hconsistent

omit [Slab S] [Wakes W] in
/-- The permits of the guards alive are those given out by the semaphore. -/
theorem Consistent.permits_eq (hconsistent : Consistent lock state) :
    (state.alive.map Mode.permits).sum =
      state.semaphore.held.sum + state.semaphore.leaked.sum := by
  rw [State.alive, List.map_append, List.sum_append, hconsistent.held.sum_nat,
    hconsistent.leaked.sum_nat]

/-- Over a run, permits available and owned by guards are those of a new lock. -/
theorem guards_conserve {trace : List (Op W × Output W)} (hpriced : Priced profile lock)
    (hrun : (Lock.system profile lock).Run (State.new lock : State S W) trace state) :
    state.semaphore.inner.permits + (state.alive.map Mode.permits).sum = lock.permits := by
  obtain ⟨-, spec, cells, owner, hspec, hvia⟩ := run_represented hrun
  have hconserved := (Fifo.sound hspec (by simpa using hpriced.bound)).conserved
  rw [forgotten_onSemaphore, added_onSemaphore, Fifo.State.total, hvia.permits, hvia.held,
    hvia.leaked] at hconserved
  have hpermits := (consistent hrun).permits_eq
  omega

end Platoon.Sync.Lock
