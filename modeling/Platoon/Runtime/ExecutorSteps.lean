import Platoon.Runtime.Executor

/-!
# What the executor can do in a step

`Goto` lists the edges of the loop in `block_on` along which nothing but the
flag changes, with what each edge requires.  `Move` lists all steps.  Everything
proved about runs starts from this list.
-/

namespace Platoon.Runtime.Executor

open Platoon.Foundation Platoon.Rust

variable {V : Type}

/-- An edge of the loop, with the flag afterwards and what is observed. -/
inductive Goto (executor : Executor V) :
    Op V → Pc → Pc → Bool → List (Observation V) → Prop where
  | pollMain (hwoke : executor.woke = true) :
      Goto executor .advance .top .pollMain false [.mainPolled]
  | startTick (hwoke : executor.woke = false) :
      Goto executor .advance .top (.tick POLLS_PER_TICK) false []
  | endTick : Goto executor .advance (.tick 0) .parkTimeout executor.woke []
  | park {polls : Nat} (hqueue : executor.queue = []) :
      Goto executor .advance (.tick (polls + 1)) .park executor.woke []
  | wokeMain {polls : Nat} (hwoke : executor.woke = true) :
      Goto executor .advance (.ran polls) .top true []
  | nextTask {polls : Nat} (hwoke : executor.woke = false) :
      Goto executor .advance (.ran polls) (.tick polls) false []
  | allWoken : Goto executor .advance (.waking []) .top executor.woke []
  | parked {wakers : List Waker} :
      Goto executor (.parkReturns (some wakers)) .park (.waking wakers) executor.woke []
  | parkedTimeout {wakers : List Waker} :
      Goto executor (.parkReturns (some wakers)) .parkTimeout (.waking wakers) executor.woke []
  | mainReady {value : V} :
      Goto executor (.ret (.ready value)) .pollMain .leave executor.woke [.returned value]
  | mainPending :
      Goto executor (.ret .pending) .pollMain (.tick POLLS_PER_TICK) executor.woke []

/-- The steps of an executor. -/
inductive Move (executor : Executor V) :
    Op V → Executor V → List (Observation V) → Prop where
  | loop {op : Op V} {pc pc' : Pc} {woke : Bool} {events : List (Observation V)}
      {frames : List (Frame V)} (hstack : executor.stack = .blockOn pc :: frames)
      (hgoto : Goto executor op pc pc' woke events) :
      Move executor op { executor with woke, stack := .blockOn pc' :: frames } events
  | run {polls task : Nat} {queue : List Nat} {repr : TaskRepr V} {frames : List (Frame V)}
      (hstack : executor.stack = .blockOn (.tick (polls + 1)) :: frames)
      (hqueue : executor.queue = task :: queue) (htask : executor.tasks task = some repr)
      (hborrow : repr.borrow = 0) (hpayload : repr.payload = .future) :
      Move executor .advance
        { executor.set task { repr with state := .idle, borrow := -1 } with
          queue, stack := .poll task :: .blockOn (.ran polls) :: frames } [.polled task]
  | skip {polls task : Nat} {queue : List Nat} {repr : TaskRepr V} {frames : List (Frame V)}
      (hstack : executor.stack = .blockOn (.tick (polls + 1)) :: frames)
      (hqueue : executor.queue = task :: queue) (htask : executor.tasks task = some repr)
      (hborrow : repr.borrow = 0) (hpayload : repr.payload ≠ .future) :
      Move executor .advance
        { executor.set task { repr with state := .idle } with
          queue, stack := .blockOn (.ran polls) :: frames } []
  | handed {waker : Waker} {wakers : List Waker} {frames : List (Frame V)}
      (hstack : executor.stack = .blockOn (.waking (waker :: wakers)) :: frames) :
      Move executor .advance
        ({ executor with stack := .blockOn (.waking wakers) :: frames }.wake waker)
        [.invoked waker]
  | leave {frames : List (Frame V)} (hstack : executor.stack = .blockOn .leave :: frames) :
      Move executor .advance { executor with stack := frames } []
  | finish {task : Nat} {repr : TaskRepr V} {value : V} {frames : List (Frame V)}
      (hstack : executor.stack = .poll task :: frames)
      (htask : executor.tasks task = some repr) :
      Move executor (.ret (.ready value))
        { executor with stack := .complete task value :: frames } [.finished task]
  | complete {task : Nat} {repr : TaskRepr V} {value : V} {frames : List (Frame V)}
      (hstack : executor.stack = .complete task value :: frames)
      (htask : executor.tasks task = some repr) :
      Move executor .advance
        ({ executor with stack := frames }.complete task repr value).1
        ({ executor with stack := frames }.complete task repr value).2
  | pending {task : Nat} {repr : TaskRepr V} {frames : List (Frame V)}
      (hstack : executor.stack = .poll task :: frames)
      (htask : executor.tasks task = some repr) :
      Move executor (.ret .pending) ({ executor with stack := frames }.release task repr) []
  | endCancel {task : Nat} {repr : TaskRepr V} {frames : List (Frame V)}
      (hstack : executor.stack = .cancel task :: frames)
      (htask : executor.tasks task = some repr) :
      Move executor .advance ({ executor with stack := frames }.release task repr) []
  | store {task : Nat} {repr : TaskRepr V} {waker : Waker} {frames : List (Frame V)}
      (hstack : executor.stack = .join task (some waker) :: frames)
      (htask : executor.tasks task = some repr) :
      Move executor .advance
        { executor.set task { repr with awaiter := some waker } with
          stack := .join task none :: frames } [.joined task waker .pending]
  | endJoin {task : Nat} {repr : TaskRepr V} {frames : List (Frame V)}
      (hstack : executor.stack = .join task none :: frames)
      (htask : executor.tasks task = some repr) :
      Move executor .advance ({ executor with stack := frames }.release task repr) []
  | blockOn (huser : executor.userRuns = true) :
      Move executor .blockOn
        { executor with woke := true, stack := .blockOn .top :: executor.stack } []
  | spawn {task : Nat} (huser : executor.userRuns = true)
      (htask : executor.tasks task = none) :
      Move executor (.spawn task) (executor.spawn task) [.spawned task]
  | wake {waker : Waker} (huser : executor.userRuns = true) :
      Move executor (.wake waker) (executor.wake waker) [.invoked waker]
  | joinReady {task : Nat} {repr : TaskRepr V} {waker : Waker} {value : V}
      (huser : executor.userRuns = true) (htask : executor.tasks task = some repr)
      (hhandle : repr.handle = true) (hborrow : repr.borrow = 0)
      (hpayload : repr.payload = .output value) :
      Move executor (.pollOutput task waker) (executor.set task { repr with payload := .taken })
        [.joined task waker (.ready value)]
  | joinPending {task : Nat} {repr : TaskRepr V} {waker : Waker}
      (huser : executor.userRuns = true) (htask : executor.tasks task = some repr)
      (hhandle : repr.handle = true) (hborrow : repr.borrow = 0)
      (hpayload : repr.payload = .future) :
      Move executor (.pollOutput task waker)
        { executor.set task { repr with borrow := -1 } with
          stack := .join task (some waker) :: executor.stack } []
  | cancelFuture {task : Nat} {repr : TaskRepr V}
      (huser : executor.userRuns = true) (htask : executor.tasks task = some repr)
      (hhandle : repr.handle = true) (hborrow : repr.borrow = 0)
      (hpayload : repr.payload = .future) :
      Move executor (.cancel task)
        { executor.set task { repr with payload := .taken, borrow := -1, handle := false } with
          stack := .cancel task :: executor.stack } [.cancelled task none]
  | cancelDone {task : Nat} {repr : TaskRepr V} {output : Option V}
      (huser : executor.userRuns = true) (htask : executor.tasks task = some repr)
      (hhandle : repr.handle = true) (hborrow : repr.borrow = 0)
      (hpayload : repr.payload = output.elim .taken .output) :
      Move executor (.cancel task)
        (executor.set task { repr with payload := .taken, handle := false })
        [.cancelled task output]
  | dropHandle {task : Nat} {repr : TaskRepr V}
      (huser : executor.userRuns = true) (htask : executor.tasks task = some repr)
      (hhandle : repr.handle = true) :
      Move executor (.dropHandle task) (executor.set task { repr with handle := false }) []

variable {executor last : Executor V} {events : List (Observation V)}

/-- What runs when a task is popped. -/
theorem run_move {polls task : Nat} {queue : List Nat} {repr : TaskRepr V}
    {frames : List (Frame V)} (hstack : executor.stack = .blockOn (.tick (polls + 1)) :: frames)
    (hqueue : executor.queue = task :: queue) (htask : executor.tasks task = some repr)
    (hrun : run { executor with queue, stack := .blockOn (.ran polls) :: frames } task repr =
      .ok (last, events)) : Move executor .advance last events := by
  simp only [run] at hrun
  cases hborrowed : RefCell.borrowMut repr.borrow with
  | error reason => simp [hborrowed] at hrun
  | ok borrow =>
      obtain ⟨hborrow, rfl⟩ := RefCell.borrowMut_eq_ok.mp hborrowed
      rw [hborrowed, ok_bind] at hrun
      split at hrun
      · rename_i hpayload
        cases hrun
        exact .run hstack hqueue htask hborrow hpayload
      · rename_i hpayload
        cases hrun
        exact .skip hstack hqueue htask hborrow hpayload

theorem advance_move (hstep : executor.advance = .next last events) :
    Move executor .advance last events := by
  simp only [advance] at hstep
  split at hstep
  · rename_i hstack
    split at hstep
    · rename_i hwoke
      cases hstep
      exact .loop hstack (.pollMain hwoke)
    · rename_i hclear
      cases hstep
      have hwoke : executor.woke = false := by simpa using hclear
      have hloop := Move.loop hstack (.startTick hwoke)
      rwa [← hwoke] at hloop
  · rename_i hstack
    cases hstep
    exact .loop hstack .endTick
  · rename_i hstack
    split at hstep
    · rename_i hqueue
      cases hstep
      exact .loop hstack (.park hqueue)
    · rename_i hqueue
      split at hstep
      · cases hstep
      · rename_i htask
        rw [Outcome.ofExcept_eq_next] at hstep
        exact run_move hstack hqueue htask hstep
  · rename_i hstack
    split at hstep
    · rename_i hwoke
      cases hstep
      have hloop := Move.loop hstack (.wokeMain hwoke)
      rwa [← hwoke] at hloop
    · rename_i hclear
      cases hstep
      have hwoke : executor.woke = false := by simpa using hclear
      have hloop := Move.loop hstack (.nextTask hwoke)
      rwa [← hwoke] at hloop
  · rename_i hstack
    cases hstep
    exact .handed hstack
  · rename_i hstack
    cases hstep
    exact .loop hstack .allWoken
  · rename_i hstack
    cases hstep
    exact .leave hstack
  · rename_i hstack
    split at hstep
    · cases hstep
    · rename_i htask
      cases hstep
      exact .complete hstack htask
  · rename_i hstack
    split at hstep
    · cases hstep
    · rename_i htask
      cases hstep
      exact .endCancel hstack htask
  · rename_i hstack
    split at hstep
    · cases hstep
    · rename_i htask
      cases hstep
      exact .store hstack htask
  · rename_i hstack
    split at hstep
    · cases hstep
    · rename_i htask
      cases hstep
      exact .endJoin hstack htask
  · cases hstep

theorem ret_move {result : Poll V} (hstep : executor.ret result = .next last events) :
    Move executor (.ret result) last events := by
  simp only [ret] at hstep
  split at hstep
  · rename_i hstack
    cases result with
    | ready value =>
        cases hstep
        exact .loop hstack .mainReady
    | pending =>
        cases hstep
        exact .loop hstack .mainPending
  · rename_i hstack
    split at hstep
    · cases hstep
    · rename_i htask
      cases result with
      | ready value =>
          cases hstep
          exact .finish hstack htask
      | pending =>
          cases hstep
          exact .pending hstack htask
  · cases hstep

theorem pollOutput_move {task : Nat} {repr : TaskRepr V} {waker : Waker}
    (huser : executor.userRuns = true) (htask : executor.tasks task = some repr)
    (hhandle : repr.handle = true)
    (hpoll : executor.pollOutput task repr waker = .ok (last, events)) :
    Move executor (.pollOutput task waker) last events := by
  simp only [pollOutput] at hpoll
  cases hborrowed : RefCell.borrowMut repr.borrow with
  | error reason => simp [hborrowed] at hpoll
  | ok borrow =>
      obtain ⟨hborrow, rfl⟩ := RefCell.borrowMut_eq_ok.mp hborrowed
      rw [hborrowed, ok_bind] at hpoll
      split at hpoll
      · rename_i hpayload
        cases hpoll
        exact .joinReady huser htask hhandle hborrow hpayload
      · cases hpoll
      · rename_i hpayload
        cases hpoll
        exact .joinPending huser htask hhandle hborrow hpayload

theorem cancel_move {task : Nat} {repr : TaskRepr V}
    (huser : executor.userRuns = true) (htask : executor.tasks task = some repr)
    (hhandle : repr.handle = true)
    (hcancel : executor.cancel task repr = .ok (last, events)) :
    Move executor (.cancel task) last events := by
  simp only [cancel] at hcancel
  cases hborrowed : RefCell.borrowMut repr.borrow with
  | error reason => simp [hborrowed] at hcancel
  | ok borrow =>
      obtain ⟨hborrow, rfl⟩ := RefCell.borrowMut_eq_ok.mp hborrowed
      rw [hborrowed, ok_bind] at hcancel
      split at hcancel
      · rename_i value hpayload
        cases hcancel
        exact .cancelDone huser htask hhandle hborrow hpayload
      · rename_i hpayload
        cases hcancel
        have hnone : repr.payload = (none : Option V).elim .taken .output := hpayload
        have hdone := Move.cancelDone huser htask hhandle hborrow hnone
        rwa [← hpayload] at hdone
      · rename_i hpayload
        cases hcancel
        exact .cancelFuture huser htask hhandle hborrow hpayload

/-- Every step is one of the list. -/
theorem step_move {op : Op V} (hstep : executor.step op = .next last events) :
    Move executor op last events := by
  cases op with
  | advance => exact advance_move hstep
  | parkReturns result =>
      simp only [step, parkReturns] at hstep
      split at hstep
      · rename_i hstack
        cases result with
        | none => cases hstep
        | some wakers =>
            cases hstep
            exact .loop hstack .parked
      · rename_i hstack
        cases result with
        | none => cases hstep
        | some wakers =>
            cases hstep
            exact .loop hstack .parkedTimeout
      · cases hstep
  | ret result => exact ret_move hstep
  | blockOn =>
      simp only [step, Outcome.when_eq_next] at hstep
      obtain ⟨huser, hstep⟩ := hstep
      cases hstep
      exact .blockOn huser
  | spawn task =>
      simp only [step, Outcome.when_eq_next, Bool.and_eq_true,
        Option.isNone_iff_eq_none] at hstep
      obtain ⟨⟨huser, htask⟩, hstep⟩ := hstep
      cases hstep
      exact .spawn huser htask
  | wake waker =>
      simp only [step, Outcome.when_eq_next] at hstep
      obtain ⟨huser, hstep⟩ := hstep
      cases hstep
      exact .wake huser
  | pollOutput task waker =>
      simp only [step, withHandle, Outcome.when_eq_next] at hstep
      obtain ⟨huser, hstep⟩ := hstep
      split at hstep
      · cases hstep
      · rename_i htask
        simp only [Outcome.when_eq_next, Outcome.ofExcept_eq_next] at hstep
        exact pollOutput_move huser htask hstep.1 hstep.2
  | cancel task =>
      simp only [step, withHandle, Outcome.when_eq_next] at hstep
      obtain ⟨huser, hstep⟩ := hstep
      split at hstep
      · cases hstep
      · rename_i htask
        simp only [Outcome.when_eq_next, Outcome.ofExcept_eq_next] at hstep
        exact cancel_move huser htask hstep.1 hstep.2
  | dropHandle task =>
      simp only [step, withHandle, Outcome.when_eq_next] at hstep
      obtain ⟨huser, hstep⟩ := hstep
      split at hstep
      · cases hstep
      · rename_i htask
        simp only [Outcome.when_eq_next] at hstep
        obtain ⟨hhandle, hstep⟩ := hstep
        cases hstep
        exact .dropHandle huser htask hhandle

/-! ## The list has no step too many -/

/-- Every edge of the list is one of the loop. -/
theorem step_of_goto {op : Op V} {pc pc' : Pc} {woke : Bool} {frames : List (Frame V)}
    (hstack : executor.stack = .blockOn pc :: frames)
    (hgoto : Goto executor op pc pc' woke events) :
    executor.step op = .next { executor with woke, stack := .blockOn pc' :: frames } events := by
  cases hgoto with
  | pollMain hwoke => simp [step, advance, hstack, hwoke]
  | startTick hwoke => simp [step, advance, hstack, hwoke]
  | endTick => simp [step, advance, hstack]
  | park hqueue => simp [step, advance, hstack, hqueue]
  | wokeMain hwoke => simp [step, advance, hstack, hwoke]
  | nextTask hwoke => simp [step, advance, hstack, hwoke]
  | allWoken => simp [step, advance, hstack]
  | parked => simp [step, parkReturns, hstack]
  | parkedTimeout => simp [step, parkReturns, hstack]
  | mainReady => simp [step, ret, hstack]
  | mainPending => simp [step, ret, hstack]

/-- Every step of the list is one of the executor. -/
theorem step_of_move {op : Op V} (hmove : Move executor op last events) :
    executor.step op = .next last events := by
  cases hmove with
  | loop hstack hgoto => exact step_of_goto hstack hgoto
  | run hstack hqueue htask hborrow hpayload =>
      simp [step, advance, hstack, hqueue, htask, run, RefCell.borrowMut, hborrow, hpayload, set,
        Outcome.ofExcept]
  | skip hstack hqueue htask hborrow hpayload =>
      simp only [step, advance, hstack, hqueue, htask, run, RefCell.borrowMut, hborrow,
        ↓reduceIte, ok_bind]
      rfl
  | handed hstack => simp [step, advance, hstack]
  | leave hstack => simp [step, advance, hstack]
  | finish hstack htask => simp [step, ret, hstack, htask]
  | complete hstack htask => simp [step, advance, hstack, htask]
  | pending hstack htask => simp [step, ret, hstack, htask]
  | endCancel hstack htask => simp [step, advance, hstack, htask]
  | store hstack htask => simp [step, advance, hstack, htask]
  | endJoin hstack htask => simp [step, advance, hstack, htask]
  | blockOn huser => simp [step, huser, Outcome.when]
  | spawn huser htask => simp [step, huser, htask, Outcome.when]
  | wake huser => simp [step, huser, Outcome.when]
  | joinReady huser htask hhandle hborrow hpayload =>
      simp [step, withHandle, huser, htask, hhandle, pollOutput, RefCell.borrowMut, hborrow,
        hpayload, Outcome.when, Outcome.ofExcept]
  | joinPending huser htask hhandle hborrow hpayload =>
      simp [step, withHandle, huser, htask, hhandle, pollOutput, RefCell.borrowMut, hborrow,
        hpayload, Outcome.when, Outcome.ofExcept, set]
  | cancelFuture huser htask hhandle hborrow hpayload =>
      simp [step, withHandle, huser, htask, hhandle, cancel, RefCell.borrowMut, hborrow,
        hpayload, Outcome.when, Outcome.ofExcept, set]
  | @cancelDone task repr output huser htask hhandle hborrow hpayload =>
      obtain ⟨awaiter, state, payload, borrow, handle⟩ := repr
      cases hhandle
      cases hborrow
      cases hpayload
      cases output with
      | none =>
          simp [step, withHandle, huser, htask, cancel, RefCell.borrowMut, Outcome.when,
            Outcome.ofExcept]
      | some value =>
          simp [step, withHandle, huser, htask, cancel, RefCell.borrowMut, Outcome.when,
            Outcome.ofExcept]
  | dropHandle huser htask hhandle => simp [step, withHandle, huser, htask, hhandle, Outcome.when]

/-! ## Waking leaves the frames alone -/

@[simp]
theorem stack_wake (waker : Waker) : (executor.wake waker).stack = executor.stack := by
  unfold wake
  split
  · rfl
  · split
    · rfl
    · split <;> rfl
  · rfl

@[simp]
theorem stack_complete (task : Nat) (repr : TaskRepr V) (value : V) :
    (executor.complete task repr value).1.stack = executor.stack := by
  unfold complete
  split
  · exact stack_wake _
  · rfl

end Platoon.Runtime.Executor
