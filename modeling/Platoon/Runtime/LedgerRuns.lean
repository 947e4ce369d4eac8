import Platoon.Runtime.Ledger
import Platoon.Runtime.JoinHandles

/-!
# The heap refuses no step of the executor

What the books say can be read off the state of the executor.  Every step of it
finds the references that it moves and discards, and those that it clones are to
live nodes, so each step of the executor is a step of the runtime.
-/

namespace Platoon.Runtime

open Platoon.Foundation Platoon.Rust

variable {V : Type}

namespace Executor

section Waking

variable {executor other : Executor V} {task : Nat} {repr : TaskRepr V}

/-- Only the queue and the states of the tasks decide what waking pushes. -/
theorem queue_wake_congr (hqueue : executor.queue = other.queue)
    (hstates : ∀ task, (executor.tasks task).map TaskRepr.state =
      (other.tasks task).map TaskRepr.state) (waker : Waker) :
    (executor.wake waker).queue = (other.wake waker).queue := by
  cases waker with
  | task task =>
      have hstate := hstates task
      cases htask : executor.tasks task with
      | none =>
          rw [htask, Option.map_none, eq_comm, Option.map_eq_none_iff] at hstate
          simpa only [wake, htask, hstate] using hqueue
      | some repr =>
          rw [htask, Option.map_some, eq_comm, Option.map_eq_some_iff] at hstate
          obtain ⟨repr', htask', hsame⟩ := hstate
          simp only [wake, htask, htask', hsame]
          cases repr.state with
          | idle => simpa using hqueue
          | _ => exact hqueue
  | _ => exact hqueue

/-- The state with which a task wakes its awaiter is the one in which it is left. -/
theorem queue_complete {frames : List (Frame V)} {value : V} :
    ({ executor with stack := frames }.complete task repr value).1.queue =
      (repr.awaiter.elim (executor.set task { repr with state := .done })
        (executor.set task { repr with state := .done }).wake).queue := by
  unfold complete
  cases repr.awaiter with
  | none => rfl
  | some waker =>
      refine queue_wake_congr ?_ (fun other => ?_) waker
      · rfl
      · by_cases hother : other = task
        · subst hother
          simp [set]
        · simp [set, hother]

end Waking

section Unspawned

variable {executor last : Executor V} {op : Op V} {events : List (Observation V)}
  {task other : Nat}

theorem slot_eq_none : executor.slot task = none ↔ executor.tasks task = none := by
  simp [slot]

theorem slot_of_set {repr : TaskRepr V} (hnone : (executor.set other repr).slot task = none) :
    executor.slot task = none := by
  rw [slot_set] at hnone
  split at hnone
  · cases hnone
  · exact hnone

/-- A task stays spawned. -/
theorem unspawned_of_step (hstep : executor.step op = .next last events)
    (hnone : last.tasks task = none) : executor.tasks task = none ∧ op ≠ .spawn task := by
  rw [← slot_eq_none] at hnone ⊢
  cases step_move hstep with
  | loop hstack hgoto => exact ⟨hnone, by cases hgoto <;> simp⟩
  | run hstack hqueue htask hborrow hpayload => exact ⟨slot_of_set hnone, by simp⟩
  | skip hstack hqueue htask hborrow hpayload => exact ⟨slot_of_set hnone, by simp⟩
  | handed hstack =>
      rw [slot_wake] at hnone
      exact ⟨hnone, by simp⟩
  | complete hstack htask =>
      rw [slot_complete] at hnone
      split at hnone
      · cases hnone
      · exact ⟨hnone, by simp⟩
  | pending hstack htask => exact ⟨slot_of_set hnone, by simp⟩
  | endCancel hstack htask => exact ⟨slot_of_set hnone, by simp⟩
  | store hstack htask => exact ⟨slot_of_set hnone, by simp⟩
  | endJoin hstack htask => exact ⟨slot_of_set hnone, by simp⟩
  | @spawn other huser htask =>
      have hset : (executor.set other
          { awaiter := none, state := .scheduled, payload := .future, borrow := 0
            handle := true }).slot task = none := hnone
      rw [slot_set] at hset
      split at hset
      · cases hset
      · rename_i hother
        refine ⟨hset, ?_⟩
        rintro hsame
        cases hsame
        exact hother rfl
  | wake huser =>
      rw [slot_wake] at hnone
      exact ⟨hnone, by simp⟩
  | joinReady huser htask => exact ⟨slot_of_set hnone, by simp⟩
  | joinPending huser htask => exact ⟨slot_of_set hnone, by simp⟩
  | cancelFuture huser htask => exact ⟨slot_of_set hnone, by simp⟩
  | cancelDone huser htask => exact ⟨slot_of_set hnone, by simp⟩
  | dropHandle huser htask => exact ⟨slot_of_set hnone, by simp⟩
  | _ => exact ⟨hnone, by simp⟩

end Unspawned

end Executor

namespace Ownership

/-- The references of a frame. -/
def frameNodes : Frame V → List Node
  | .blockOn _ => [.executor]
  | .poll task | .complete task _ => [.task task, .task task]
  | .cancel task | .join task none => [.task task]
  | .join task (some waker) => [waker.node, .task task]

/-- What a frame is about to wake. -/
def wakingNodes : Frame V → List Node
  | .blockOn (.waking wakers) => wakers.map Waker.node
  | _ => []

/-- The references that the state of an executor shows. -/
def books (executor : Executor V) : Books where
  frames := executor.stack.flatMap frameNodes
  wakings := executor.stack.flatMap wakingNodes
  queue := executor.queue
  awaiters task := ((executor.slot task).bind Prod.snd).toList.map Waker.node

section Reading

variable {executor other : Executor V} {task : Nat} {repr repr' : TaskRepr V}

theorem awaiters_eq (htask : executor.tasks task = some repr) :
    (books executor).awaiters task = repr.awaiter.toList.map Waker.node := by
  simp [books, Executor.slot_eq htask]

theorem awaiters_none (htask : executor.tasks task = none) :
    (books executor).awaiters task = [] := by
  simp [books, Executor.slot, htask]

theorem awaiters_set :
    (books (executor.set task repr)).awaiters =
      Function.update (books executor).awaiters task (repr.awaiter.toList.map Waker.node) := by
  funext other
  by_cases hother : other = task
  · subst hother
    simp [books, Executor.slot_set]
  · simp [books, Executor.slot_set, hother]

/-- A write that keeps the awaiter. -/
theorem awaiters_keep (htask : executor.tasks task = some repr)
    (hawaiter : repr'.awaiter = repr.awaiter) :
    (books (executor.set task repr')).awaiters = (books executor).awaiters := by
  rw [awaiters_set, hawaiter, ← awaiters_eq htask, Function.update_eq_self]

theorem awaiters_wake (waker : Waker) :
    (books (executor.wake waker)).awaiters = (books executor).awaiters := by
  simp [books]

theorem awaiters_complete {frames : List (Frame V)} {value : V} :
    (books ({ executor with stack := frames }.complete task repr value).1).awaiters =
      Function.update (books executor).awaiters task [] := by
  funext other
  by_cases hother : other = task
  · subst hother
    simp [books, Executor.slot_complete]
  · simp only [books, Executor.slot_complete, if_neg hother, Function.update_of_ne hother]
    rfl

end Reading

section Steps

variable {executor last : Executor V} {heap : Heap Node Place} {op : Executor.Op V}
  {events : List (Observation V)} {frames : List (Frame V)} {task polls : Nat} {queue : List Nat}
  {repr : TaskRepr V} {waker : Waker}

/-- Whose handle a step uses up. -/
def handedIn : Executor.Op V → Option Nat
  | .cancel task | .dropHandle task => some task
  | _ => none

namespace Ledger

theorem lives_of_reaches {books : Books} {node : Node} (hledger : Ledger books heap)
    (hreaches : reaches heap node = true) : 0 < heap.strong node := by
  unfold reaches at hreaches
  obtain ⟨ref, hmem, href⟩ := List.any_eq_true.mp hreaches
  simp only [Bool.and_eq_true, decide_eq_true_eq] at href
  exact href.1 ▸ hledger.counted.strong_pos hmem

/-- A frame of `block_on` has a reference to the executor. -/
theorem lives_of_blockOn {pc : Pc} (hledger : Ledger (books executor) heap)
    (hstack : executor.stack = .blockOn pc :: frames) : 0 < heap.strong .executor :=
  hledger.lives_of_frame (by simp [books, hstack, frameNodes])

/-- Books that the state of the executor shows. -/
theorem shown {shown : Books} {refs : List (Heap.Op Node Place)}
    (hsucceeds : heap.Succeeds refs (Ledger shown))
    (hframes : last.stack.flatMap frameNodes = shown.frames)
    (hwakings : last.stack.flatMap wakingNodes = shown.wakings)
    (hqueue : last.queue = shown.queue) (hawaiters : (books last).awaiters = shown.awaiters) :
    heap.Succeeds refs (Ledger (books last)) := by
  have hbooks : books last = shown := Books.ext hframes hwakings hqueue hawaiters
  rwa [hbooks]

/-- The loop itself uses no references, and takes no wakers unless the parker has some. -/
theorem loop {pc pc' : Pc} {woke : Bool} (hledger : Ledger (books executor) heap)
    (hallowed : allowed heap op = true) (hstack : executor.stack = .blockOn pc :: frames)
    (hgoto : Executor.Goto executor op pc pc' woke events) :
    heap.Succeeds (stepRefs executor op)
      (Ledger (books { executor with woke, stack := .blockOn pc' :: frames })) := by
  have hrefs : stepRefs executor op = [] := by
    cases hgoto with
    | park hqueue => simp [stepRefs, advanceRefs, hstack, hqueue]
    | parked => rfl
    | parkedTimeout => rfl
    | _ => simp [stepRefs, advanceRefs, retRefs, hstack]
  have hwaking : wakingNodes (Frame.blockOn pc' : Frame V) =
      wakingNodes (Frame.blockOn pc : Frame V) := by
    cases hgoto with
    | parked => cases hallowed
    | parkedTimeout => cases hallowed
    | _ => rfl
  rw [hrefs]
  apply shown (.nil hledger)
  · simp [books, hstack, frameNodes]
  · simp [books, hstack, hwaking]
  · rfl
  · rfl

theorem run (hledger : Ledger (books executor) heap)
    (hstack : executor.stack = .blockOn (.tick (polls + 1)) :: frames)
    (hqueue : executor.queue = task :: queue) (htask : executor.tasks task = some repr)
    (hpayload : repr.payload = .future) :
    heap.Succeeds (stepRefs executor .advance)
      (Ledger (books
        { executor.set task { repr with state := .idle, borrow := -1 } with
          queue, stack := .poll task :: .blockOn (.ran polls) :: frames })) := by
  simp only [stepRefs, advanceRefs, hstack, hqueue, htask]
  apply shown (hledger.polls hqueue (hledger.lives_of_blockOn hstack) hpayload)
  · simp [books, hstack, frameNodes]
  · simp [books, hstack, wakingNodes]
  · rfl
  · exact awaiters_keep htask rfl

theorem skip (hledger : Ledger (books executor) heap)
    (hstack : executor.stack = .blockOn (.tick (polls + 1)) :: frames)
    (hqueue : executor.queue = task :: queue) (htask : executor.tasks task = some repr)
    (hpayload : repr.payload ≠ .future) :
    heap.Succeeds (stepRefs executor .advance)
      (Ledger (books
        { executor.set task { repr with state := .idle } with
          queue, stack := .blockOn (.ran polls) :: frames })) := by
  simp only [stepRefs, advanceRefs, hstack, hqueue, htask]
  apply shown (hledger.skips hqueue (hledger.lives_of_blockOn hstack) hpayload)
  · simp [books, hstack, frameNodes]
  · simp [books, hstack, wakingNodes]
  · rfl
  · exact awaiters_keep htask rfl

/-- The loop wakes what the parker handed out. -/
theorem wakeNext {wakers : List Waker} (hledger : Ledger (books executor) heap)
    (hstack : executor.stack = .blockOn (.waking (waker :: wakers)) :: frames) :
    heap.Succeeds (stepRefs executor .advance)
      (Ledger (books
        ({ executor with stack := .blockOn (.waking wakers) :: frames }.wake waker))) := by
  have hwakings : (books executor).wakings =
      waker.node :: (wakers.map Waker.node ++ frames.flatMap wakingNodes) := by
    simp [books, hstack, wakingNodes]
  simp only [stepRefs, advanceRefs, hstack]
  apply shown (hledger.taken hwakings rfl (hledger.lives_of_blockOn hstack))
  · simp [books, hstack, frameNodes]
  · simp [wakingNodes]
  · refine Executor.queue_wake_congr ?_ (fun other => ?_) waker
    · rfl
    · rfl
  · exact awaiters_wake waker

theorem leave (hledger : Ledger (books executor) heap)
    (hstack : executor.stack = .blockOn .leave :: frames) :
    heap.Succeeds (stepRefs executor .advance)
      (Ledger (books { executor with stack := frames })) := by
  have hframes : (books executor).frames = .executor :: frames.flatMap frameNodes := by
    simp [books, hstack, frameNodes]
  simp only [stepRefs, advanceRefs, hstack]
  apply shown (hledger.giveBack hframes)
  · rfl
  · simp [books, hstack, wakingNodes]
  · rfl
  · rfl

theorem finish {value : V} (hledger : Ledger (books executor) heap)
    (hstack : executor.stack = .poll task :: frames) :
    heap.Succeeds (stepRefs executor (.ret (.ready value)))
      (Ledger (books { executor with stack := .complete task value :: frames })) := by
  simp only [stepRefs, retRefs, hstack]
  apply shown (hledger.takePayload task)
  · simp [books, hstack, frameNodes]
  · simp [books, hstack, wakingNodes]
  · rfl
  · rfl

theorem complete {value : V} (hledger : Ledger (books executor) heap)
    (hlives : 0 < heap.strong .executor)
    (hstack : executor.stack = .complete task value :: frames)
    (htask : executor.tasks task = some repr) :
    heap.Succeeds (stepRefs executor .advance)
      (Ledger (books ({ executor with stack := frames }.complete task repr value).1)) := by
  have hframes : (books executor).frames =
      .task task :: .task task :: frames.flatMap frameNodes := by
    simp [books, hstack, frameNodes]
  simp only [stepRefs, advanceRefs, hstack, htask]
  apply shown (hledger.completes hframes rfl (awaiters_eq htask) hlives)
  · simp
  · simp [books, hstack, wakingNodes]
  · exact Executor.queue_complete
  · exact awaiters_complete

theorem pending (hledger : Ledger (books executor) heap)
    (hstack : executor.stack = .poll task :: frames) (htask : executor.tasks task = some repr) :
    heap.Succeeds (stepRefs executor (.ret .pending))
      (Ledger (books ({ executor with stack := frames }.release task repr))) := by
  have hframes : (books executor).frames =
      .task task :: .task task :: frames.flatMap frameNodes := by
    simp [books, hstack, frameNodes]
  simp only [stepRefs, retRefs, hstack]
  apply shown (hledger.runEnds hframes)
  · rfl
  · simp [books, hstack, wakingNodes, Executor.release, Executor.set]
  · rfl
  · exact awaiters_keep htask rfl

theorem endCancel (hledger : Ledger (books executor) heap)
    (hstack : executor.stack = .cancel task :: frames) (htask : executor.tasks task = some repr) :
    heap.Succeeds (stepRefs executor .advance)
      (Ledger (books ({ executor with stack := frames }.release task repr))) := by
  have hframes : (books executor).frames = .task task :: frames.flatMap frameNodes := by
    simp [books, hstack, frameNodes]
  simp only [stepRefs, advanceRefs, hstack]
  apply shown (hledger.giveBack hframes)
  · rfl
  · simp [books, hstack, wakingNodes, Executor.release, Executor.set]
  · rfl
  · exact awaiters_keep htask rfl

theorem spawn (hledger : Ledger (books executor) heap) (hlives : 0 < heap.strong .executor)
    (hfresh : heap.strong (.task task) = 0) (htask : executor.tasks task = none) :
    heap.Succeeds (stepRefs executor (.spawn task)) (Ledger (books (executor.spawn task))) := by
  apply shown (hledger.spawns hlives hfresh (awaiters_none htask))
  · rfl
  · rfl
  · rfl
  · refine awaiters_set.trans ?_
    exact Function.update_eq_self_iff.mpr (awaiters_none htask).symm

theorem wake (hledger : Ledger (books executor) heap)
    (hlives : ∀ task, waker = .task task → 0 < heap.strong .executor)
    (hnode : 0 < heap.strong waker.node) :
    heap.Succeeds (stepRefs executor (.wake waker)) (Ledger (books (executor.wake waker))) := by
  apply shown (hledger.wakes rfl hlives hnode)
  · simp [books]
  · simp [books]
  · rfl
  · exact awaiters_wake waker

theorem joinReady {value : V} (hledger : Ledger (books executor) heap)
    (htask : executor.tasks task = some repr) (hpayload : repr.payload = .output value) :
    heap.Succeeds (stepRefs executor (.pollOutput task waker))
      (Ledger (books (executor.set task { repr with payload := .taken }))) := by
  simp only [stepRefs, htask, Option.elim_some, pollOutputRefs, hpayload]
  apply shown (hledger.takePayload task)
  · rfl
  · rfl
  · rfl
  · exact awaiters_keep htask rfl

theorem joinPending (hledger : Ledger (books executor) heap)
    (hlives : 0 < heap.strong (.task task)) (hnode : 0 < heap.strong waker.node)
    (htask : executor.tasks task = some repr) (hpayload : repr.payload = .future) :
    heap.Succeeds (stepRefs executor (.pollOutput task waker))
      (Ledger (books
        { executor.set task { repr with borrow := -1 } with
          stack := .join task (some waker) :: executor.stack })) := by
  simp only [stepRefs, htask, Option.elim_some]
  apply shown (hledger.awaits hlives hnode hpayload)
  · rfl
  · rfl
  · rfl
  · exact awaiters_keep htask rfl

theorem store (hledger : Ledger (books executor) heap)
    (hstack : executor.stack = .join task (some waker) :: frames)
    (htask : executor.tasks task = some repr) :
    heap.Succeeds (stepRefs executor .advance)
      (Ledger (books
        { executor.set task { repr with awaiter := some waker } with
          stack := .join task none :: frames })) := by
  have hframes : (books executor).frames =
      waker.node :: .task task :: frames.flatMap frameNodes := by
    simp [books, hstack, frameNodes]
  simp only [stepRefs, advanceRefs, hstack, htask, Option.elim_some]
  apply shown (hledger.stores hframes (awaiters_eq htask))
  · rfl
  · simp [books, hstack, wakingNodes]
  · rfl
  · exact awaiters_set

theorem endJoin (hledger : Ledger (books executor) heap)
    (hstack : executor.stack = .join task none :: frames)
    (htask : executor.tasks task = some repr) :
    heap.Succeeds (stepRefs executor .advance)
      (Ledger (books ({ executor with stack := frames }.release task repr))) := by
  have hframes : (books executor).frames = .task task :: frames.flatMap frameNodes := by
    simp [books, hstack, frameNodes]
  simp only [stepRefs, advanceRefs, hstack]
  apply shown (hledger.giveBack hframes)
  · rfl
  · simp [books, hstack, wakingNodes, Executor.release, Executor.set]
  · rfl
  · exact awaiters_keep htask rfl

theorem cancelFuture (hledger : Ledger (books executor) heap)
    (hmem : ⟨none, .client, .task task⟩ ∈ heap.refs) (htask : executor.tasks task = some repr)
    (hpayload : repr.payload = .future) :
    heap.Succeeds (stepRefs executor (.cancel task))
      (Ledger (books
        { executor.set task { repr with payload := .taken, borrow := -1, handle := false } with
          stack := .cancel task :: executor.stack })) := by
  simp only [stepRefs, htask, Option.elim_some]
  apply shown (hledger.cancels hmem hpayload)
  · rfl
  · rfl
  · rfl
  · exact awaiters_keep htask rfl

theorem cancelDone (hledger : Ledger (books executor) heap)
    (hmem : ⟨none, .client, .task task⟩ ∈ heap.refs) (htask : executor.tasks task = some repr)
    (hpayload : repr.payload ≠ .future) :
    heap.Succeeds (stepRefs executor (.cancel task))
      (Ledger (books (executor.set task { repr with payload := .taken, handle := false }))) := by
  simp only [stepRefs, htask, Option.elim_some]
  apply shown (hledger.cancelsDone hmem hpayload)
  · rfl
  · rfl
  · rfl
  · exact awaiters_keep htask rfl

end Ledger

/-- The heap has what a step of the executor uses, and the books stay right. -/
theorem succeeds_of_move (hledger : Ledger (books executor) heap)
    (hlives : ∀ task, 0 < heap.strong (.task task) → 0 < heap.strong .executor)
    (hfresh : ∀ task, executor.tasks task = none → heap.strong (.task task) = 0)
    (hallowed : allowed heap op = true)
    (hhandle : ∀ task, handedIn op = some task → ⟨none, .client, .task task⟩ ∈ heap.refs)
    (hmove : Executor.Move executor op last events) :
    heap.Succeeds (stepRefs executor op) (Ledger (books last)) := by
  cases hmove with
  | loop hstack hgoto => exact hledger.loop hallowed hstack hgoto
  | run hstack hqueue htask hborrow hpayload => exact hledger.run hstack hqueue htask hpayload
  | skip hstack hqueue htask hborrow hpayload => exact hledger.skip hstack hqueue htask hpayload
  | handed hstack => exact hledger.wakeNext hstack
  | leave hstack => exact hledger.leave hstack
  | finish hstack htask => exact hledger.finish hstack
  | @complete task repr value frames hstack htask =>
      have htaskLives : 0 < heap.strong (.task task) :=
        hledger.lives_of_frame (by simp [books, hstack, frameNodes])
      exact hledger.complete (hlives task htaskLives) hstack htask
  | pending hstack htask => exact hledger.pending hstack htask
  | endCancel hstack htask => exact hledger.endCancel hstack htask
  | store hstack htask => exact hledger.store hstack htask
  | endJoin hstack htask => exact hledger.endJoin hstack htask
  | blockOn huser => exact hledger.lend (hledger.lives_of_reaches hallowed)
  | @spawn task huser htask =>
      exact hledger.spawn (hledger.lives_of_reaches hallowed) (hfresh task htask) htask
  | @wake waker huser =>
      have hnode := hledger.lives_of_reaches hallowed
      refine hledger.wake ?_ hnode
      rintro task rfl
      exact hlives task hnode
  | joinReady huser htask hheld hborrow hpayload => exact hledger.joinReady htask hpayload
  | joinPending huser htask hheld hborrow hpayload =>
      simp only [allowed, Bool.and_eq_true] at hallowed
      exact hledger.joinPending (hledger.lives_of_reaches hallowed.1)
        (hledger.lives_of_reaches hallowed.2) htask hpayload
  | @cancelFuture task repr huser htask hheld hborrow hpayload =>
      exact hledger.cancelFuture (hhandle task rfl) htask hpayload
  | @cancelDone task repr output huser htask hheld hborrow hpayload =>
      refine hledger.cancelDone (hhandle task rfl) htask ?_
      rw [hpayload]
      cases output <;> simp
  | @dropHandle task repr huser htask hheld =>
      apply Ledger.shown (hledger.dropHandle (hhandle task rfl))
      · rfl
      · rfl
      · rfl
      · exact awaiters_keep htask rfl

end Steps

/-- The books of the executor are right, and unspawned tasks have not been allocated. -/
structure Mirrors (ownership : Ownership V) : Prop where
  ledger : Ledger (books ownership.executor) ownership.heap
  fresh : ∀ task, ownership.executor.tasks task = none → ownership.heap.strong (.task task) = 0

namespace Mirrors

variable {ownership last : Ownership V} {op : Op V} {events : List (Observation V)}
  {heap : Heap Node Place}

theorem new : Mirrors (new : Ownership V) := by
  constructor
  · constructor
    · exact counted_new
    · intro ref hmem hplace
      simp only [Ownership.new, List.mem_cons, List.not_mem_nil, or_false] at hmem
      rcases hmem with rfl | rfl | rfl | rfl | rfl <;> cases hplace
    · intro ref hmem hplace
      simp only [Ownership.new, List.mem_cons, List.not_mem_nil, or_false] at hmem
      rcases hmem with rfl | rfl | rfl | rfl | rfl <;> cases hplace
    · intro ref hbooked hholds
      cases hbooked <;>
        simp [Ownership.new, Executor.new, books, Books.amount, Executor.slot]
  · intro task hnone
    rfl

/-- Every step of the executor finds what it uses. -/
theorem succeeds (hmirrors : Mirrors ownership) (hwired : Wired ownership)
    {op : Executor.Op V} {executor : Executor V} (hallowed : allowed ownership.heap op = true)
    (hhandle : ∀ task, handedIn op = some task →
      ⟨none, .client, .task task⟩ ∈ ownership.heap.refs)
    (hstep : ownership.executor.step op = .next executor events) :
    ownership.heap.Succeeds (stepRefs ownership.executor op) (Ledger (books executor)) := by
  apply succeeds_of_move hmirrors.ledger ?_ hmirrors.fresh hallowed hhandle
    (Executor.step_move hstep)
  intro task htask
  exact hwired.counted.strong_pos (hwired.executor task htask)

theorem mem_of_cancelRefs {task : Nat} {repr : TaskRepr V}
    (hexec : ownership.heap.exec (cancelRefs task repr) = some heap) :
    ⟨none, .client, .task task⟩ ∈ ownership.heap.refs := by
  obtain ⟨middle, hmove, -⟩ := Heap.exec_cons.mp hexec
  cases Heap.step_uses hmove with
  | move hmem hholder => exact hmem

/-- A step that uses up a handle has found it. -/
theorem handle_of_exec {op : Executor.Op V} {executor : Executor V}
    (hstep : ownership.executor.step op = .next executor events)
    (hexec : ownership.heap.exec (stepRefs ownership.executor op) = some heap) (task : Nat)
    (hhanded : handedIn op = some task) : ⟨none, .client, .task task⟩ ∈ ownership.heap.refs := by
  cases Executor.step_move hstep with
  | cancelFuture huser htask =>
      cases hhanded
      simp only [stepRefs, htask, Option.elim_some] at hexec
      exact mem_of_cancelRefs hexec
  | cancelDone huser htask =>
      cases hhanded
      simp only [stepRefs, htask, Option.elim_some] at hexec
      exact mem_of_cancelRefs hexec
  | dropHandle huser htask =>
      cases hhanded
      cases Heap.step_uses (Heap.exec_singleton.mp hexec) with
      | discard hmem => exact hmem
  | loop hstack hgoto => cases hgoto <;> cases hhanded
  | _ => cases hhanded

theorem run (hmirrors : Mirrors ownership) (hwired : Wired ownership) {op : Executor.Op V}
    {executor : Executor V} (hallowed : allowed ownership.heap op = true)
    (hstep : ownership.executor.step op = .next executor events)
    (hexec : ownership.heap.exec (stepRefs ownership.executor op) = some heap) :
    Mirrors { executor, heap } := by
  constructor
  · have hsucceeds := hmirrors.succeeds hwired hallowed (handle_of_exec hstep hexec) hstep
    obtain ⟨last, hlast, hledger⟩ := hsucceeds
    rw [hexec, Option.some.injEq] at hlast
    exact hlast ▸ hledger
  · intro task hnone
    obtain ⟨hbefore, hspawn⟩ := Executor.unspawned_of_step hstep hnone
    refine Heap.exec_preserves hexec (fun heap => heap.strong (.task task) = 0)
      (hmirrors.fresh task hbefore) fun ref hmem heap last hzero hstep => ?_
    refine Heap.unallocated_of_uses hzero (Heap.step_uses hstep) ?_
    rintro new rfl
    have hspares : Heap.Op.spares (.task task) .field .executor (.alloc new) = true := by
      refine spares_stepRefs (by decide) (fun _ _ => .inl (by decide)) ?_ hmem
      rintro other rfl hsame
      cases hsame
      exact hspawn rfl
    simpa [Heap.Op.spares] using hspares

/-- What clients do is not booked. -/
theorem client (hmirrors : Mirrors ownership) {ref : Heap.Op Node Place}
    (hstep : ownership.heap.step ref = some heap) (horderly : orderly ref)
    (halloc : ∀ new, ref = .alloc new → ∃ name, new.target = .client name)
    (hbooked : ∀ booked, Booked booked → ref.loss booked = 0 ∧ ref.gain booked = 0) :
    Mirrors { ownership with heap } := by
  have huses := Heap.step_uses hstep
  constructor
  · refine hmirrors.ledger.unbooked huses horderly ?_ hbooked
    intro new hnew held hheld hholder
    obtain ⟨name, hname⟩ := halloc new hnew
    rw [hname] at hholder
    cases hheld <;> cases hholder
  · intro task hnone
    refine Heap.unallocated_of_uses (hmirrors.fresh task hnone) huses ?_
    rintro new hnew hsame
    obtain ⟨name, hname⟩ := halloc new hnew
    rw [hname] at hsame
    cases hsame

/-- The loop is about to wake what the clock and the reactor handed out. -/
theorem amount_parked {executor : Executor V} {pc : Pc} {frames : List (Frame V)}
    {alarms sources : List Waker} (hstack : executor.stack = .blockOn pc :: frames)
    (hpc : wakingNodes (Frame.blockOn pc : Frame V) = []) {ref : Ref Node Place}
    (hbooked : Booked ref) :
    (books { executor with
      stack := .blockOn (.waking (alarms ++ sources)) :: frames }).amount ref =
      Books.amount { books executor with
        wakings := sources.map Waker.node ++
          (alarms.map Waker.node ++ (books executor).wakings) } ref := by
  cases hbooked with
  | frame node => simp [books, Books.amount, hstack, frameNodes]
  | waking node =>
      simp only [books, Books.amount, hstack, List.flatMap_cons, hpc, List.nil_append]
      simp only [wakingNodes, List.map_append, List.count_append]
      omega
  | _ => rfl

theorem park (hmirrors : Mirrors ownership) {alarms sources : List Waker} {executor : Executor V}
    (hstep : ownership.executor.step (.parkReturns (some (alarms ++ sources))) =
      .next executor events)
    (hexec : ownership.heap.exec (parkRefs alarms sources) = some heap) :
    Mirrors { executor, heap } := by
  have hledger : Ledger { books ownership.executor with
      wakings := sources.map Waker.node ++
        (alarms.map Waker.node ++ (books ownership.executor).wakings) } heap := by
    rw [parkRefs, Heap.exec_append, Option.bind_eq_some_iff] at hexec
    obtain ⟨middle, halarms, hsources⟩ := hexec
    exact (hmirrors.ledger.handsOut (by decide) halarms).handsOut (by decide) hsources
  constructor
  · refine hledger.congr fun ref hbooked => ?_
    cases Executor.step_move hstep with
    | loop hstack hgoto =>
        cases hgoto with
        | parked => exact amount_parked hstack rfl hbooked
        | parkedTimeout => exact amount_parked hstack rfl hbooked
  · intro task hnone
    have hfresh := hmirrors.fresh task (Executor.unspawned_of_step hstep hnone).1
    refine Heap.exec_preserves hexec (fun heap => heap.strong (.task task) = 0) hfresh ?_
    intro ref hmem heap last hzero href
    refine Heap.unallocated_of_uses hzero (Heap.step_uses href) ?_
    rintro new rfl
    have hspares : Heap.Op.spares (.task task) .field .executor (.alloc new) = true :=
      spares_parkRefs (by decide) hmem
    simpa [Heap.Op.spares] using hspares

/-- Clients give nobody a local of the executor. -/
theorem place_of_clients {holder : Option Node} {place : Place} {target : Node}
    (hclients : clients holder place target = true) : place ≠ .frame ∧ place ≠ .waking := by
  constructor
  · rintro rfl
    rcases holder with _ | (_ | _ | _ | _ | _) <;> cases hclients
  · rintro rfl
    rcases holder with _ | (_ | _ | _ | _ | _) <;> cases hclients

theorem not_booked {ref : Ref Node Place}
    (hclients : clients ref.holder ref.place ref.target = true) : ¬ Booked ref := by
  intro hbooked
  cases hbooked <;> cases hclients

theorem step (hmirrors : Mirrors ownership) (hwired : Wired ownership)
    (hstep : ownership.step op = .next last events) : Mirrors last := by
  cases step_move hstep with
  | run hallowed hexecutor hexec => exact hmirrors.run hwired hallowed hexecutor hexec
  | park hexecutor hexec => exact hmirrors.park hexecutor hexec
  | @clone node heap hheap =>
      refine hmirrors.client hheap ⟨rfl, rfl, by simp⟩ (by simp) fun booked hbooked => ?_
      cases hbooked <;> simp [Heap.Op.loss, Heap.Op.gain]
  | @alloc name heap hheap =>
      refine hmirrors.client hheap ⟨rfl, rfl, by simp⟩ (by simp) fun booked hbooked => ?_
      cases hbooked <;> simp [Heap.Op.loss, Heap.Op.gain]
  | @move ref holder place heap hfrom hto hheap =>
      have hplace := place_of_clients hto
      refine hmirrors.client hheap ⟨?_, ?_, by simp⟩ (by simp) fun booked hbooked => ?_
      · simp [Heap.Op.leavesApart, hplace]
      · simp [Heap.Op.leavesApart, hplace]
      · constructor
        · refine if_neg ?_
          rintro rfl
          exact not_booked hfrom hbooked
        · refine if_neg ?_
          rintro rfl
          exact not_booked hto hbooked
  | @discard place node heap hplace hheap =>
      refine hmirrors.client hheap ⟨rfl, rfl, by simp⟩ (by simp) fun booked hbooked => ?_
      cases hbooked <;> simp [Heap.Op.loss, Heap.Op.gain, hplace]

/-- After every run. -/
theorem of_run {trace : List (Op V × List (Observation V))}
    (hrun : system.Run Ownership.new trace ownership) : Mirrors ownership := by
  refine hrun.invariant (fun _ ownership => Mirrors ownership) new ?_
  intro trace middle last op events hprefix hmirrors hstep
  exact hmirrors.step (Wired.of_run hprefix) hstep

end Mirrors

/-- In every run, the heap has what a step of the executor uses, as long as clients have what
they pass to it. -/
theorem step_of_executor {ownership : Ownership V} {trace : List (Op V × List (Observation V))}
    {op : Executor.Op V} {executor : Executor V} {events : List (Observation V)}
    (hrun : system.Run new trace ownership) (hallowed : allowed ownership.heap op = true)
    (hhandle : ∀ task, handedIn op = some task →
      ⟨none, .client, .task task⟩ ∈ ownership.heap.refs)
    (hstep : ownership.executor.step op = .next executor events) :
    ∃ heap, system.step ownership (.run op) = .next { executor, heap } events := by
  obtain ⟨heap, hexec, -⟩ :=
    (Mirrors.of_run hrun).succeeds (Wired.of_run hrun) hallowed hhandle hstep
  refine ⟨heap, ?_⟩
  simp only [system, step, Outcome.when_eq_next, Outcome.andThen_eq_next, useRefs_eq_next]
  exact ⟨hallowed, executor, events, hstep, heap, hexec, rfl, rfl⟩

end Ownership

end Platoon.Runtime
