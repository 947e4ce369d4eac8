import Platoon.Sync.LockInvariant

/-!
# Runs of `Mutex` and `RwLock`

Guards exclude each other as their modes say, the borrow behind a permit always
succeeds, and conflicting requests are granted in the order of arrival.
-/

namespace Platoon.Sync.Lock

open Platoon.Foundation Platoon.Rust

variable {S : Type → Type} [Slab S] {W : Type} [Wakes W]
variable {profile : Profile} {lock : Lock} {trace : List (Op W × Output W)}
variable {state : State S W}

/-- The two locks of the source. -/
theorem priced (hlock : lock = Mutex ∨ lock = RwLock profile) : Priced profile lock := by
  rcases hlock with rfl | rfl
  · exact Mutex.priced profile
  · exact RwLock.priced profile

omit [Slab S] [Wakes W] in
/-- The guards alive cost no more than an additional guard leaves available. -/
theorem borrow_ok {mode : Mode} (hpriced : Priced profile lock)
    (hconsistent : Consistent lock state) (hmode : mode ∈ lock.methods ++ lock.tries)
    (hroom : (state.alive.map Mode.permits).sum + mode.permits ≤ lock.permits)
    (hfew : state.alive.length < profile.isizeMax) :
    ∃ value, borrow profile state.value mode.access = .ok value := by
  cases haccess : mode.access with
  | exclusive =>
      -- the new guard needs every permit, so no other guard is alive
      have hcost := hpriced.all mode hmode haccess
      have hnil : state.alive = [] := by
        by_contra hne
        obtain ⟨guard, hguard⟩ := List.exists_mem_of_ne_nil _ hne
        have hpos := hpriced.pos guard (hconsistent.modes guard hguard)
        have hle : guard.permits ≤ (state.alive.map Mode.permits).sum :=
          cost_le_totalCost hguard
        omega
      rcases hconsistent.borrowed with ⟨-, hvalue⟩ | ⟨other, halone, -, -⟩
      · exact ⟨-1, by simp [borrow, RefCell.borrowMut, hvalue, hnil]⟩
      · simp [hnil] at halone
  | shared =>
      rcases hconsistent.borrowed with ⟨-, hvalue⟩ | ⟨other, halone, hexclusive, -⟩
      · have hlt : (state.alive.length : Int) < profile.isizeMax := by exact_mod_cast hfew
        exact ⟨state.value + 1, by simp [borrow, RefCell.borrow, hvalue, hlt]⟩
      · -- an exclusive guard owns every permit, so none is left for this one
        have hother := hpriced.all other (hconsistent.modes other (by simp [halone])) hexclusive
        have hpos := hpriced.pos mode hmode
        simp only [halone, List.map_singleton, List.sum_singleton] at hroom
        omega

/-- The semaphore of a lock panics in no other way. -/
theorem semaphore_panic (hpriced : Priced profile lock)
    (hrun : (Lock.system profile lock).Run (State.new lock : State S W) trace state)
    {op : Semaphore.Op W} {reason : Panic} (hadded : op.added = 0)
    (hpanic : state.semaphore.step profile op = .panic reason) :
    reason = .resumedAfterCompletion := by
  obtain ⟨-, spec, cells, owner, hspec, hvia⟩ := run_represented hrun
  have hbound := hpriced.bound
  have hsound := Fifo.sound hspec (by simpa using hbound)
  have hle := hsound.total_le
  rw [added_onSemaphore] at hle
  exact Fifo.panic_resumed (by omega) hsound.kept
    (((Fifo.refines op ⟨cells, owner, hvia⟩).panic_iff reason).mp hpanic)

/-- After a permit was obtained the borrow succeeds. -/
theorem finish_succeeds (hpriced : Priced profile lock)
    (hrun : (Lock.system profile lock).Run (State.new lock : State S W) trace state)
    (hfew : state.alive.length < profile.isizeMax) {op : Semaphore.Op W}
    {semaphore : Semaphore.State S W} {inner : Semaphore.Output W} {mode : Mode} {reason : Panic}
    (hadded : op.added = 0) (hforgotten : op.forgotten = 0)
    (hmode : mode ∈ lock.methods ++ lock.tries)
    (hstep : state.semaphore.step profile op = .next semaphore inner)
    (hamount : ∀ permits, inner.obtained = some permits → permits = mode.permits ∧
      op.keeps state.semaphore.held = state.semaphore.held ∧ op.leaks = []) :
    state.finish profile mode semaphore inner ≠ .panic reason := by
  obtain ⟨-, spec, cells, owner, hspec, hvia⟩ := run_represented hrun
  have hconsistent := consistent hrun
  have hbound := hpriced.bound
  have hle := (Fifo.sound hspec (by simpa using hbound)).total_le
  rw [added_onSemaphore] at hle
  intro hpanic
  unfold State.finish at hpanic
  split at hpanic
  · cases hpanic
  · rename_i permits hobtained
    obtain ⟨rfl, hkeeps, hleaks⟩ := hamount permits hobtained
    obtain ⟨specLast, hspecStep, cells', owner', hvia'⟩ :=
      (Fifo.refines op ⟨cells, owner, hvia⟩).forward hstep
    have hconserved := (Fifo.step_transition hspecStep).conserves (by omega)
    have hheld := (Fifo.step_transition hspecStep).held_eq
    rw [hvia.held, hkeeps, hobtained, hleaks, hvia.leaked] at hheld
    have hpermits := hconsistent.permits_eq
    have hroom : (state.alive.map Mode.permits).sum + mode.permits ≤ lock.permits := by
      simp only [Fifo.State.total, hheld.1, hheld.2, List.sum_append, hforgotten, hadded,
        Option.toList_some, List.sum_singleton, List.nil_append] at hconserved hle
      omega
    obtain ⟨value, hborrow⟩ := borrow_ok hpriced hconsistent hmode hroom hfew
    simp [hborrow, Outcome.ofExcept] at hpanic

/-- A step panics only when it resumes a future that returned. -/
theorem panic_resumed (hpriced : Priced profile lock)
    (hrun : (Lock.system profile lock).Run (State.new lock : State S W) trace state)
    (hfew : state.alive.length < profile.isizeMax) {op : Op W} {reason : Panic}
    (hpanic : (Lock.system profile lock).step state op = .panic reason) :
    reason = .resumedAfterCompletion := by
  obtain ⟨hasked, -⟩ := run_represented hrun
  have hconsistent := consistent hrun
  cases op with
  | request future mode =>
      simp only [Lock.system, State.step, Outcome.when_eq_panic,
        Outcome.andThen_eq_panic] at hpanic
      rcases hpanic.2 with hsem | ⟨semaphore, inner, hstep, hnext⟩
      · exact semaphore_panic hpriced hrun rfl hsem
      · cases hnext
  | poll future waker =>
      simp only [Lock.system, State.step] at hpanic
      split at hpanic
      · cases hpanic
      · rename_i mode hrequest
        rcases Outcome.andThen_eq_panic.mp hpanic with hsem | ⟨semaphore, inner, hstep, hnext⟩
        · exact semaphore_panic hpriced hrun rfl hsem
        · have hmode := List.mem_append_left lock.tries (hconsistent.requests _ _ hrequest)
          refine absurd hnext (finish_succeeds hpriced hrun hfew rfl rfl hmode hstep ?_)
          exact fun permits hobtained =>
            ⟨hasked.obtained_poll hrequest hstep hobtained, rfl, rfl⟩
  | dropFuture future =>
      simp only [Lock.system, State.step] at hpanic
      rcases Outcome.andThen_eq_panic.mp hpanic with hsem | ⟨semaphore, inner, hstep, hnext⟩
      · exact semaphore_panic hpriced hrun rfl hsem
      · cases hnext
  | tryLock mode =>
      simp only [Lock.system, State.step, Outcome.when_eq_panic, decide_eq_true_eq,
        Outcome.andThen_eq_panic] at hpanic
      rcases hpanic.2 with hsem | ⟨semaphore, inner, hstep, hnext⟩
      · exact semaphore_panic hpriced hrun rfl hsem
      · have hmode := List.mem_append_right lock.methods hpanic.1
        refine absurd hnext (finish_succeeds hpriced hrun hfew rfl rfl hmode hstep ?_)
        exact fun permits hobtained => ⟨obtained_try hstep hobtained, rfl, rfl⟩
  | dropGuard mode =>
      simp only [Lock.system, State.step, Outcome.when_eq_panic,
        Outcome.andThen_eq_panic] at hpanic
      rcases hpanic.2 with hsem | ⟨semaphore, inner, hstep, hnext⟩
      · exact semaphore_panic hpriced hrun rfl hsem
      · cases hnext
  | leakGuard mode =>
      simp only [Lock.system, State.step, Outcome.when_eq_panic,
        Outcome.andThen_eq_panic] at hpanic
      rcases hpanic.2 with hsem | ⟨semaphore, inner, hstep, hnext⟩
      · exact semaphore_panic hpriced hrun rfl hsem
      · cases hnext

/-! ## Waiting requests -/

section Waiting

variable {cells : List (Entry Nat W)} {owner : Nat → Nat} {spec : Fifo.State W}

omit [Wakes W] in
/-- A waiter requires the permits of the mode that was requested. -/
theorem required_eq (hasked : Asked state) (hvia : Fifo.Via cells owner state.semaphore spec)
    {entry : Entry Nat W} (hmem : entry ∈ spec.queue) :
    ∃ mode, state.requests entry.id = some mode ∧ entry.required = mode.permits := by
  rw [hvia.queue] at hmem
  obtain ⟨cell, hcell, rfl⟩ := List.mem_map.mp hmem
  exact hasked _ _ (hvia.owned cell hcell)

/-- When a waiter is woken, it does not conflict with any older one. -/
theorem older_compatible (hpriced : Priced profile lock)
    (hrun : (Lock.system profile lock).Run (State.new lock : State S W) trace state)
    (hsound : Fifo.Sound lock.permits (trace.map Lock.onSemaphore) spec)
    (hvia : Fifo.Via cells owner state.semaphore spec) {older younger : List (Entry Nat W)}
    {ahead entry : Entry Nat W} (hqueue : spec.queue = older ++ entry :: younger)
    (hahead : ahead ∈ older) (hwoke : entry.woke = true) {mode modeAhead : Mode}
    (hmode : state.requests entry.id = some mode)
    (hmodeAhead : state.requests ahead.id = some modeAhead) :
    modeAhead.access ≠ .exclusive ∧ mode.access ≠ .exclusive := by
  have hasked := (run_represented hrun).1
  have hconsistent := consistent hrun
  obtain ⟨mode', hmode', hcost⟩ := required_eq hasked hvia
    (show entry ∈ spec.queue by simp [hqueue])
  obtain ⟨modeAhead', hmodeAhead', hcostAhead⟩ :=
    required_eq hasked hvia (show ahead ∈ spec.queue by simp [hqueue, hahead])
  rw [hmode, Option.some.injEq] at hmode'
  rw [hmodeAhead, Option.some.injEq] at hmodeAhead'
  subst hmode' hmodeAhead'
  have hpos := hpriced.pos mode (List.mem_append_left _ (hconsistent.requests _ _ hmode))
  have hposAhead := hpriced.pos modeAhead
    (List.mem_append_left _ (hconsistent.requests _ _ hmodeAhead))
  have hfit := hsound.kept.older_fit hqueue hwoke
  have hle : ahead.required ≤ totalCost Entry.required older := cost_le_totalCost hahead
  have htotal := hsound.total_le
  simp only [Fifo.State.total, added_onSemaphore] at htotal
  constructor
  · intro hexclusive
    have hall := hpriced.all modeAhead
      (List.mem_append_left _ (hconsistent.requests _ _ hmodeAhead)) hexclusive
    omega
  · intro hexclusive
    have hall := hpriced.all mode
      (List.mem_append_left _ (hconsistent.requests _ _ hmode)) hexclusive
    omega

/-- The step of the abstract line under a step of the lock. -/
theorem step_represented (hvia : Fifo.Via cells owner state.semaphore spec)
    (hasked : Asked state) {op : Op W} {last : State S W} {output : Output W}
    (hstep : (Lock.system profile lock).step state op = .next last output) :
    ∃ specLast, Fifo.Transition profile spec op.onSemaphore specLast
      { woken := output.woken, obtained := output.granted.map Mode.permits } := by
  have hinner : (Semaphore.system profile).step state.semaphore op.onSemaphore =
      .next last.semaphore
        { woken := output.woken, obtained := output.granted.map Mode.permits } :=
    (step_transition hstep).onSemaphore hasked
  obtain ⟨specLast, hspecStep, -⟩ := (Fifo.refines _ ⟨cells, owner, hvia⟩).forward hinner
  exact ⟨specLast, Fifo.step_transition hspecStep⟩

/-- No `try_` method obtains a guard while a request waits. -/
theorem try_fails (hpriced : Priced profile lock) {mode : Mode} {last : State S W}
    {output : Output W} (hvia : Fifo.Via cells owner state.semaphore spec)
    (hasked : Asked state) (hwaiting : spec.queue ≠ [])
    (hstep : (Lock.system profile lock).step state (.tryLock mode) = .next last output) :
    output.granted = none := by
  obtain ⟨specLast, hspec⟩ := step_represented hvia hasked hstep
  have hmode : mode ∈ lock.tries := by
    cases step_transition hstep with
    | tryFail hmode hinner hnone => exact hmode
    | tryGrant hmode hinner hsome hborrow => exact hmode
  cases hgranted : output.granted with
  | none => rfl
  | some guard =>
      rw [hgranted] at hspec
      have hpos := hpriced.pos mode (List.mem_append_right _ hmode)
      exact absurd (hspec.try_obtains rfl hpos) hwaiting

end Waiting

/-! ## Requests that were left pending -/

section Pending

omit [Slab S] [Wakes W] in
/-- The semaphore sees the polls of a future that the lock sees. -/
theorem mem_onSemaphore_poll {events : List (Op W × Output W)} {future : Nat} {waker : W}
    {output : Semaphore.Output W}
    (hmem : (Semaphore.Op.poll future waker, output) ∈ events.map Lock.onSemaphore) :
    ∃ inner, (Op.poll future waker, inner) ∈ events ∧
      output.obtained = inner.granted.map Mode.permits := by
  obtain ⟨⟨op, inner⟩, hevent, heq⟩ := List.mem_map.mp hmem
  obtain ⟨hop, rfl⟩ := Prod.mk.inj heq
  cases op <;> cases hop
  exact ⟨inner, hevent, rfl⟩

omit [Slab S] [Wakes W] in
theorem mem_onSemaphore_drop {events : List (Op W × Output W)} {future : Nat}
    {output : Semaphore.Output W}
    (hmem : (Semaphore.Op.drop future, output) ∈ events.map Lock.onSemaphore) :
    ∃ inner, (Op.dropFuture future, inner) ∈ events := by
  obtain ⟨⟨op, inner⟩, hevent, heq⟩ := List.mem_map.mp hmem
  obtain ⟨hop, rfl⟩ := Prod.mk.inj heq
  cases op <;> cases hop
  exact ⟨inner, hevent⟩

variable {before mid : List (Op W × Output W)} {first : Nat} {waker : W}
variable {pending : Output W} {cells : List (Entry Nat W)} {owner : Nat → Nat}
variable {spec : Fifo.State W}

/-- A request that was left pending and not dropped waits until it is granted. -/
theorem still_pending
    (hspec : (Fifo.system profile).Run (Fifo.State.new lock.permits)
      ((before ++ (Op.poll first waker, pending) :: mid).map Lock.onSemaphore) spec)
    (hpending : pending.granted = none) (hkept : ∀ output, (Op.dropFuture first, output) ∉ mid)
    (hungranted : ∀ waker output, (Op.poll first waker, output) ∈ mid →
      output.granted = none) : spec.futures first = some .waiting := by
  rw [List.map_append, List.map_cons] at hspec
  refine Fifo.still_waiting hspec (by simp [hpending]) ?_ ?_
  · intro output hmem
    obtain ⟨inner, hevent⟩ := mem_onSemaphore_drop hmem
    exact hkept inner hevent
  · intro waker output hmem
    obtain ⟨inner, hevent, hobtained⟩ := mem_onSemaphore_poll hmem
    rw [hobtained, hungranted waker inner hevent, Option.map_none]

/-- A conflicting request that was first polled later is not granted meanwhile. -/
theorem late_not_granted (hpriced : Priced profile lock) {second : Nat} {waker' : W}
    {granted : Output W} {last : State S W}
    (hrun : (Lock.system profile lock).Run (State.new lock : State S W)
      (before ++ (.poll first waker, pending) :: mid) state)
    (hstep : (Lock.system profile lock).step state (.poll second waker') = .next last granted)
    (hpending : pending.granted = none) (hne : first ≠ second)
    (hlate : ∀ waker output, (Op.poll second waker, output) ∉ before)
    (hspec : (Fifo.system profile).Run (Fifo.State.new lock.permits)
      ((before ++ (.poll first waker, pending) :: mid).map Lock.onSemaphore) spec)
    (hvia : Fifo.Via cells owner state.semaphore spec)
    (hwaiting : spec.futures first = some .waiting) {modeFirst modeSecond : Mode}
    (hfirst : state.requests first = some modeFirst)
    (hsecond : state.requests second = some modeSecond)
    (hconflict : modeFirst.access = .exclusive ∨ modeSecond.access = .exclusive) :
    granted.granted = none := by
  have hasked := (run_represented hrun).1
  have hconsistent := consistent hrun
  have hsound := Fifo.sound hspec (by rw [added_onSemaphore]; exact hpriced.bound)
  obtain ⟨specLast, htransition⟩ := step_represented hvia hasked hstep
  cases hgranted : granted.granted with
  | none => rfl
  | some mode =>
      rw [hgranted] at htransition
      have hmode : mode ∈ lock.methods := by
        cases step_transition hstep with
        | pending hrequest hinner hnone => cases hgranted
        | grant hrequest hinner hsome hborrow =>
            cases hgranted
            exact hconsistent.requests _ _ hrequest
      have hpos := hpriced.pos mode (List.mem_append_left _ hmode)
      rcases htransition.poll_obtains rfl hpos with hempty | ⟨entry, hentry, hid, hwoke⟩
      · have hmem := ((Fifo.enrolled hspec).waiting first).mpr hwaiting
        simp [hempty] at hmem
      · obtain ⟨older, younger, hqueue⟩ := List.append_of_mem hentry
        have hinner := hspec
        rw [List.map_append, List.map_cons] at hinner
        obtain ⟨ahead, hahead, haheadId⟩ := Fifo.queued_before hinner (by simp [hpending]) hne
          (fun waker output hmem => by
            obtain ⟨inner, hevent, -⟩ := mem_onSemaphore_poll hmem
            exact hlate waker inner hevent) hwaiting hqueue hid
        obtain ⟨hsharedFirst, hsharedSecond⟩ := older_compatible hpriced hrun hsound hvia hqueue
          hahead hwoke (hid ▸ hsecond) (haheadId ▸ hfirst)
        exact absurd hconflict (not_or.mpr ⟨hsharedFirst, hsharedSecond⟩)

end Pending

/-! ## What runs guarantee -/

/-- At most one `Mutex` guard is alive, and an `RwLock` has one write guard or read
guards only; permits are conserved, and the borrow behind a permit never fails. -/
theorem guards_exclude (hlock : lock = Mutex ∨ lock = RwLock profile)
    (hrun : (Lock.system profile lock).Run (State.new lock : State S W) trace state) :
    (lock = Mutex → state.alive.length ≤ 1) ∧
      ((∀ mode ∈ state.alive, mode.access = .shared) ∨
        ∃ mode, state.alive = [mode] ∧ mode.access = .exclusive) ∧
      state.semaphore.inner.permits + (state.alive.map Mode.permits).sum = lock.permits ∧
      (state.alive.length < profile.isizeMax → ∀ op reason,
        (Lock.system profile lock).step state op = .panic reason →
          reason = .resumedAfterCompletion) := by
  have hpriced := priced hlock
  have hconsistent := consistent hrun
  refine ⟨?_, hconsistent.borrowed.exclusion, guards_conserve hpriced hrun,
    fun hfew op reason hpanic => panic_resumed hpriced hrun hfew hpanic⟩
  rintro rfl
  rcases hconsistent.borrowed.exclusion with hshared | ⟨mode, halone, -⟩
  · have hnil : state.alive = [] := by
      refine List.eq_nil_iff_forall_not_mem.mpr fun mode hmode => ?_
      have hmember := hconsistent.modes mode hmode
      have haccess := hshared mode hmode
      simp only [Mutex, Mutex.lock, Mutex.tryLock, List.cons_append, List.nil_append,
        List.mem_cons, List.not_mem_nil, or_false, or_self] at hmember
      simp [hmember] at haccess
    simp [hnil]
  · simp [halone]

/-- A reader and a writer on a 64-bit target: the writer waits, and is woken when
the read guard is dropped. -/
def writerWaits : List (Op Nat) :=
  [.request 0 RwLock.read, .poll 0 10, .request 1 (RwLock.write Profile.release), .poll 1 11]

theorem writerWaits_run :
    ∃ trace state, (Lock.system Profile.release (RwLock Profile.release)).Run
        (State.new (RwLock Profile.release) : State FreeSlab Nat) trace state ∧
      state.alive = [RwLock.read] ∧ state.semaphore.inner.line.length = 1 := by
  have hcheck : ((Lock.system Profile.release (RwLock Profile.release)).exec
      (State.new (RwLock Profile.release) : State FreeSlab Nat) writerWaits).any
        (fun result => decide (result.2.alive = [RwLock.read]) &&
          decide (result.2.semaphore.inner.line.length = 1)) = true := by decide
  obtain ⟨trace, state, hrun, hpass⟩ := System.exec_check hcheck
  exact ⟨trace, state, hrun, by simpa using hpass⟩

theorem guards_exclude_writerWaits :
    ∃ state : State FreeSlab Nat, state.alive = [RwLock.read] ∧
      state.semaphore.inner.permits + (state.alive.map Mode.permits).sum = 2 ^ 64 - 1 := by
  obtain ⟨trace, state, hrun, halive, -⟩ := writerWaits_run
  exact ⟨state, halive, (guards_exclude (.inr rfl) hrun).2.2.1⟩

/-- Of two conflicting requests, one that was left pending before the other was
first polled is granted first, unless it is dropped; and no `try_` method obtains
a guard while a request waits. -/
theorem granted_in_order (hlock : lock = Mutex ∨ lock = RwLock profile)
    (hrun : (Lock.system profile lock).Run (State.new lock : State S W) trace state) :
    (∀ before mid first second waker waker' pending granted modeFirst modeSecond,
      trace = before ++ (.poll first waker, pending) :: mid ++ [(.poll second waker', granted)] →
      pending.granted = none → first ≠ second →
      (∀ waker output, (Op.poll second waker, output) ∉ before) →
      (∀ output, (Op.dropFuture first, output) ∉ mid) →
      state.requests first = some modeFirst → state.requests second = some modeSecond →
      (modeFirst.access = .exclusive ∨ modeSecond.access = .exclusive) →
      granted.granted.isSome →
      ∃ waker output, (Op.poll first waker, output) ∈ mid ∧ output.granted.isSome) ∧
    (∀ before mid first waker pending mode granted,
      trace = before ++ (.poll first waker, pending) :: mid ++ [(.tryLock mode, granted)] →
      pending.granted = none → (∀ output, (Op.dropFuture first, output) ∉ mid) →
      granted.granted.isSome →
      ∃ waker output, (Op.poll first waker, output) ∈ mid ∧ output.granted.isSome) ∧
    ∀ future mode last output, state.semaphore.Waits future →
      (Lock.system profile lock).step state (.tryLock mode) = .next last output →
      output.granted = none := by
  have hpriced := priced hlock
  refine ⟨?_, ?_, ?_⟩
  · intro before mid first second waker waker' pending granted modeFirst modeSecond htrace
      hpending hne hlate hkept hfirst hsecond hconflict hgranted
    subst htrace
    obtain ⟨middle, hmiddle, hstep⟩ := hrun.last_step
    obtain ⟨hasked, spec, cells, owner, hspec, hvia⟩ := run_represented hmiddle
    by_contra hnever
    have hungranted : ∀ waker output, (Op.poll first waker, output) ∈ mid →
        output.granted = none := by
      intro waker output hmem
      by_contra hsome
      exact hnever ⟨waker, output, hmem, Option.isSome_iff_ne_none.mpr hsome⟩
    have hwaiting := still_pending hspec hpending hkept hungranted
    have hrequests : state.requests = middle.requests := by
      cases step_transition hstep <;> rfl
    rw [hrequests] at hfirst hsecond
    have hnone := late_not_granted hpriced hmiddle hstep hpending hne hlate hspec hvia hwaiting
      hfirst hsecond hconflict
    simp [hnone] at hgranted
  · intro before mid first waker pending mode granted htrace hpending hkept hgranted
    subst htrace
    obtain ⟨middle, hmiddle, hstep⟩ := hrun.last_step
    obtain ⟨hasked, spec, cells, owner, hspec, hvia⟩ := run_represented hmiddle
    by_contra hnever
    have hungranted : ∀ waker output, (Op.poll first waker, output) ∈ mid →
        output.granted = none := by
      intro waker output hmem
      by_contra hsome
      exact hnever ⟨waker, output, hmem, Option.isSome_iff_ne_none.mpr hsome⟩
    have hwaiting := still_pending hspec hpending hkept hungranted
    have hmem := ((Fifo.enrolled hspec).waiting first).mpr hwaiting
    have hnone := try_fails hpriced hvia hasked (by rintro hempty; simp [hempty] at hmem) hstep
    simp [hnone] at hgranted
  · intro future mode last output hwaits hstep
    obtain ⟨hasked, spec, cells, owner, hspec, hvia⟩ := run_represented hrun
    have hwaiting := (Semaphore.waits_iff hvia future).mp hwaits
    have hmem := ((Fifo.enrolled hspec).waiting future).mpr hwaiting
    exact try_fails hpriced hvia hasked (by rintro hempty; simp [hempty] at hmem) hstep

/-- A writer waits for a reader, a second reader waits behind the writer. -/
def readerQueues : List (Op Nat × Output Nat) :=
  [(.request 0 RwLock.read, {}), (.poll 0 10, { granted := some RwLock.read }),
    (.request 1 (RwLock.write Profile.release), {}), (.request 2 RwLock.read, {})]

/-- Both are served in turn, though the second reader is polled first. -/
def writerServed : List (Op Nat × Output Nat) :=
  [(.poll 2 12, {}), (.dropGuard RwLock.read, { woken := [11] }), (.poll 2 12, {}),
    (.poll 1 11, { granted := some (RwLock.write Profile.release) }),
    (.dropGuard (RwLock.write Profile.release), { woken := [12] })]

theorem granted_in_order_writerFirst :
    ∃ waker output, (Op.poll 1 waker, output) ∈ writerServed ∧ output.granted.isSome := by
  let whole : List (Op Nat × Output Nat) := readerQueues ++ (.poll 1 11, {}) :: writerServed ++
    [(.poll 2 12, { granted := some RwLock.read })]
  have hcheck : ((Lock.system Profile.release (RwLock Profile.release)).exec
      (State.new (RwLock Profile.release) : State FreeSlab Nat) (whole.map Prod.fst)).any
        (fun result => decide (result.1 = whole) &&
          decide (result.2.requests 1 = some (RwLock.write Profile.release) ∧
            result.2.requests 2 = some RwLock.read)) = true := by decide
  obtain ⟨trace, state, hrun, hpass⟩ := System.exec_check hcheck
  simp only [Bool.and_eq_true, decide_eq_true_eq] at hpass
  obtain ⟨rfl, hfirst, hsecond⟩ := hpass
  exact (granted_in_order (.inr rfl) hrun).1 readerQueues writerServed 1 2 11 12 {} _ _ _ rfl rfl
    (by decide) (by simp [readerQueues]) (by simp [writerServed]) hfirst hsecond (.inl rfl) rfl

end Platoon.Sync.Lock
