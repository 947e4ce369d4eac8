import Platoon.Runtime.OwnershipRuns

/-!
# The references of the executor itself

Books about the references that functions of the executor borrow, that its queue
and the awaiters of tasks hold, and that are about to be woken.  As long as the
books are right about a heap, what the functions of the executor do succeeds on
it, and changes the books in a known way.
-/

namespace Platoon.Runtime.Ownership

open Platoon.Foundation Platoon.Rust

variable {V : Type}

/-- What the state of the executor says about its references. -/
@[ext]
structure Books where
  frames : List Node
  wakings : List Node
  queue : List Nat
  awaiters : Nat → List Node

/-- The references that are booked. -/
inductive Booked : Ref Node Place → Prop where
  | frame (node : Node) : Booked ⟨none, .frame, node⟩
  | waking (node : Node) : Booked ⟨none, .waking, node⟩
  | queue (task : Nat) : Booked ⟨some .executor, .queue, .task task⟩
  | awaiter (task : Nat) (node : Node) : Booked ⟨some (.task task), .awaiter, node⟩

/-- How often a booked reference is there. -/
def Books.amount (books : Books) : Ref Node Place → Nat
  | ⟨none, .frame, node⟩ => books.frames.count node
  | ⟨none, .waking, node⟩ => books.wakings.count node
  | ⟨some .executor, .queue, .task task⟩ => books.queue.count task
  | ⟨some (.task task), .awaiter, node⟩ => (books.awaiters task).count node
  | _ => 0

/-- The books are right about all nodes that live. -/
structure Ledger (books : Books) (heap : Heap Node Place) : Prop where
  counted : heap.Counted
  frames : heap.Apart .frame
  wakings : heap.Apart .waking
  amounts : ∀ ref, Booked ref → heap.holds ref.holder = true →
    heap.refs.count ref = books.amount ref

/-- Locals of the executor and wakers about to be woken are held by no node, and only what clients
stored is taken out of a place at once. -/
def orderly (op : Heap.Op Node Place) : Prop :=
  op.leavesApart .frame = true ∧ op.leavesApart .waking = true ∧
    ∀ holder place, op = .empty holder place → place = .client

namespace Ledger

variable {books books' : Books} {heap last : Heap Node Place} {node : Node} {task : Nat}

theorem congr (hledger : Ledger books heap)
    (hbooks : ∀ ref, Booked ref → books'.amount ref = books.amount ref) : Ledger books' heap where
  counted := hledger.counted
  frames := hledger.frames
  wakings := hledger.wakings
  amounts ref hbooked hholds := by
    rw [hbooks ref hbooked]
    exact hledger.amounts ref hbooked hholds

/-- A booked reference that is not held by a node is at a place where no node holds any. -/
theorem apart (hledger : Ledger books heap) {ref : Ref Node Place} (hbooked : Booked ref)
    (hnone : ref.holder = none) : heap.Apart ref.place := by
  cases hbooked with
  | frame node => exact hledger.frames
  | waking node => exact hledger.wakings
  | queue task => cases hnone
  | awaiter task node => cases hnone

/-- Before a node lives, it holds nothing. -/
theorem count_eq_zero (hledger : Ledger books heap) {ref : Ref Node Place}
    (hdead : heap.holds ref.holder = false) : heap.refs.count ref = 0 := by
  apply List.count_eq_zero_of_not_mem
  intro hmem
  have hholds := hledger.counted.held ref hmem
  rw [hdead] at hholds
  cases hholds

/-- What an operation puts somewhere or takes away is booked. -/
theorem uses (hledger : Ledger books heap) {op : Heap.Op Node Place} (huses : heap.Uses op last)
    (horderly : orderly op)
    (halloc : ∀ ref, op = .alloc ref →
      ∀ held, Booked held → held.holder = some ref.target → books.amount held = 0)
    (hbooks : ∀ ref, Booked ref →
      books'.amount ref + op.loss ref = books.amount ref + op.gain ref) :
    Ledger books' last := by
  obtain ⟨hframe, hwaking, hempty⟩ := horderly
  constructor
  · exact hledger.counted.step huses.step
  · exact hledger.frames.uses hframe huses
  · exact hledger.wakings.uses hwaking huses
  · intro ref hbooked hholds
    have hbefore : heap.refs.count ref = books.amount ref := by
      cases hheld : heap.holds ref.holder with
      | true => exact hledger.amounts ref hbooked hheld
      | false =>
          rw [hledger.count_eq_zero hheld]
          cases hholder : ref.holder with
          | none =>
              rw [hholder] at hheld
              cases hheld
          | some node =>
              rw [hholder] at hheld hholds
              simp only [Heap.holds, decide_eq_true_eq, decide_eq_false_iff_not,
                Nat.not_lt, Nat.le_zero] at hheld hholds
              by_contra hamount
              apply hholds.ne'
              refine Heap.unallocated_of_uses hheld huses ?_
              rintro new hnew rfl
              exact hamount (halloc new hnew ref hbooked hholder).symm
    have hcount := Heap.count_of_uses huses ref hholds (hledger.apart hbooked) (by
      rintro holder rfl
      have hplace := hempty _ _ rfl
      cases hbooked <;> cases hplace)
    have hamount := hbooks ref hbooked
    omega

/-- An operation that finds what it needs succeeds, and its effect is booked. -/
theorem does (hledger : Ledger books heap) {op : Heap.Op Node Place} (huses : heap.Uses op last)
    (horderly : orderly op)
    (halloc : ∀ ref, op = .alloc ref →
      ∀ held, Booked held → held.holder = some ref.target → books.amount held = 0)
    (hbooks : ∀ ref, Booked ref →
      books'.amount ref + op.loss ref = books.amount ref + op.gain ref) :
    heap.Succeeds [op] (Ledger books') :=
  ⟨last, Heap.exec_singleton.mpr huses.step, hledger.uses huses horderly halloc hbooks⟩

/-- What is booked is there. -/
theorem mem (hledger : Ledger books heap) {ref : Ref Node Place} (hbooked : Booked ref)
    (hholds : heap.holds ref.holder = true) (hamount : 0 < books.amount ref) :
    ref ∈ heap.refs := by
  rw [← hledger.amounts ref hbooked hholds] at hamount
  exact List.count_pos_iff.mp hamount

/-- What is lent lives. -/
theorem lives_of_frame (hledger : Ledger books heap) (hmem : node ∈ books.frames) :
    0 < heap.strong node :=
  hledger.counted.strong_pos
    (hledger.mem (.frame node) rfl (List.count_pos_iff.mpr hmem))

theorem lives_of_waking (hledger : Ledger books heap) (hmem : node ∈ books.wakings) :
    0 < heap.strong node :=
  hledger.counted.strong_pos
    (hledger.mem (.waking node) rfl (List.count_pos_iff.mpr hmem))

/-- A function of the executor borrows a node. -/
theorem lend (hledger : Ledger books heap) (hlives : 0 < heap.strong node) :
    heap.Succeeds [.clone ⟨none, .frame, node⟩]
      (Ledger { books with frames := node :: books.frames }) := by
  refine hledger.does (.clone hlives rfl) ⟨rfl, rfl, by simp⟩ (by simp) ?_
  intro ref hbooked
  cases hbooked with
  | frame other => simp [Books.amount, Heap.Op.gain, Heap.Op.loss, List.count_cons]
  | _ => simp [Books.amount, Heap.Op.gain, Heap.Op.loss]

theorem giveBack {frames : List Node} (hledger : Ledger books heap)
    (hframes : books.frames = node :: frames) :
    heap.Succeeds [.discard ⟨none, .frame, node⟩] (Ledger { books with frames }) := by
  have hmem := hledger.mem (.frame node) rfl (by simp [Books.amount, hframes])
  refine hledger.does (.discard hmem) ⟨rfl, rfl, by simp⟩ (by simp) ?_
  intro ref hbooked
  cases hbooked with
  | frame other => simp [Books.amount, hframes, Heap.Op.gain, Heap.Op.loss, List.count_cons]
  | _ => simp [Books.amount, Heap.Op.gain, Heap.Op.loss]

/-- The next task is popped. -/
theorem pop {queue : List Nat} (hledger : Ledger books heap)
    (hqueue : books.queue = task :: queue) (hlives : 0 < heap.strong .executor) :
    heap.Succeeds [.move ⟨some .executor, .queue, .task task⟩ none .frame]
      (Ledger { books with frames := .task task :: books.frames, queue }) := by
  have hmem := hledger.mem (.queue task) (decide_eq_true hlives) (by simp [Books.amount, hqueue])
  refine hledger.does (.move hmem rfl) ⟨rfl, rfl, by simp⟩ (by simp) ?_
  intro ref hbooked
  cases hbooked with
  | frame other => simp [Books.amount, Heap.Op.gain, Heap.Op.loss, List.count_cons]
  | queue other => simp [Books.amount, hqueue, Heap.Op.gain, Heap.Op.loss, List.count_cons]
  | _ => simp [Books.amount, Heap.Op.gain, Heap.Op.loss]

theorem push (hledger : Ledger books heap) (hlives : 0 < heap.strong .executor)
    (htask : 0 < heap.strong (.task task)) :
    heap.Succeeds [.clone ⟨some .executor, .queue, .task task⟩]
      (Ledger { books with queue := books.queue ++ [task] }) := by
  refine hledger.does (.clone htask (decide_eq_true hlives)) ⟨rfl, rfl, by simp⟩ (by simp) ?_
  intro ref hbooked
  cases hbooked with
  | queue other => simp [Books.amount, Heap.Op.gain, Heap.Op.loss, List.count_cons]
  | _ => simp [Books.amount, Heap.Op.gain, Heap.Op.loss]

/-- A task hands out its awaiter. -/
theorem hand (hledger : Ledger books heap) (hlives : 0 < heap.strong (.task task))
    (hawaiter : books.awaiters task = [node]) :
    heap.Succeeds [.move ⟨some (.task task), .awaiter, node⟩ none .waking]
      (Ledger { books with
        wakings := node :: books.wakings
        awaiters := Function.update books.awaiters task [] }) := by
  have hmem := hledger.mem (.awaiter task node) (decide_eq_true hlives)
    (by simp [Books.amount, hawaiter])
  refine hledger.does (.move hmem rfl) ⟨rfl, rfl, by simp⟩ (by simp) ?_
  intro ref hbooked
  cases hbooked with
  | waking other => simp [Books.amount, Heap.Op.gain, Heap.Op.loss, List.count_cons]
  | awaiter other held =>
      by_cases hother : other = task
      · subst hother
        simp [Books.amount, Heap.Op.gain, Heap.Op.loss, hawaiter, List.count_cons]
      · simp [Books.amount, Heap.Op.gain, Heap.Op.loss, hother, Ne.symm hother]
  | _ => simp [Books.amount, Heap.Op.gain, Heap.Op.loss]

/-- A waker is dropped after it was woken. -/
theorem woken {wakings : List Node} (hledger : Ledger books heap)
    (hwakings : books.wakings = node :: wakings) :
    heap.Succeeds [.discard ⟨none, .waking, node⟩] (Ledger { books with wakings }) := by
  have hmem := hledger.mem (.waking node) rfl (by simp [Books.amount, hwakings])
  refine hledger.does (.discard hmem) ⟨rfl, rfl, by simp⟩ (by simp) ?_
  intro ref hbooked
  cases hbooked with
  | waking other => simp [Books.amount, hwakings, Heap.Op.gain, Heap.Op.loss, List.count_cons]
  | _ => simp [Books.amount, Heap.Op.gain, Heap.Op.loss]

/-- Wakers that are taken out of the clock or the reactor are about to be woken. -/
theorem handsOut {holder : Node} {place : Place} (hplace : place ≠ .queue ∧ place ≠ .awaiter)
    {wakers : List Waker} (hledger : Ledger books heap)
    (hexec : heap.exec (wakers.map fun waker =>
      .move ⟨some holder, place, waker.node⟩ none .waking) = some last) :
    Ledger { books with wakings := wakers.map Waker.node ++ books.wakings } last := by
  induction wakers generalizing books heap with
  | nil =>
      cases hexec
      exact hledger
  | cons waker wakers ih =>
      obtain ⟨middle, hmove, hrest⟩ := Heap.exec_cons.mp hexec
      have hfirst : Ledger { books with wakings := waker.node :: books.wakings } middle := by
        refine hledger.uses (Heap.step_uses hmove) ⟨rfl, rfl, by simp⟩ (by simp) ?_
        intro ref hbooked
        cases hbooked with
        | waking other => simp [Books.amount, Heap.Op.gain, Heap.Op.loss, List.count_cons]
        | _ => simp [Books.amount, Heap.Op.gain, Heap.Op.loss, hplace]
      refine (ih hfirst hrest).congr fun ref hbooked => ?_
      cases hbooked with
      | waking other =>
          simp only [Books.amount, List.map_cons]
          exact List.perm_middle.symm.count_eq other
      | _ => rfl

/-- A task takes the reference to the waker of its awaiter. -/
theorem await {frames : List Node} (hledger : Ledger books heap)
    (hframes : books.frames = node :: frames) (hlives : 0 < heap.strong (.task task)) :
    heap.Succeeds [.move ⟨none, .frame, node⟩ (some (.task task)) .awaiter]
      (Ledger { books with
        frames
        awaiters := Function.update books.awaiters task (node :: books.awaiters task) }) := by
  have hmem := hledger.mem (.frame node) rfl (by simp [Books.amount, hframes])
  refine hledger.does (.move hmem (decide_eq_true hlives)) ⟨rfl, rfl, by simp⟩ (by simp) ?_
  intro ref hbooked
  cases hbooked with
  | frame other => simp [Books.amount, hframes, Heap.Op.gain, Heap.Op.loss, List.count_cons]
  | awaiter other held =>
      by_cases hother : other = task
      · subst hother
        simp [Books.amount, Heap.Op.gain, Heap.Op.loss, List.count_cons]
      · simp [Books.amount, Heap.Op.gain, Heap.Op.loss, hother, Ne.symm hother]
  | _ => simp [Books.amount, Heap.Op.gain, Heap.Op.loss]

/-- A task forgets an awaiter that has been replaced. -/
theorem forget {kept : Node} (hledger : Ledger books heap) (hlives : 0 < heap.strong (.task task))
    (hawaiters : books.awaiters task = [kept, node]) :
    heap.Succeeds [.discard ⟨some (.task task), .awaiter, node⟩]
      (Ledger { books with awaiters := Function.update books.awaiters task [kept] }) := by
  have hmem := hledger.mem (.awaiter task node) (decide_eq_true hlives)
    (by simp [Books.amount, hawaiters])
  refine hledger.does (.discard hmem) ⟨rfl, rfl, by simp⟩ (by simp) ?_
  intro ref hbooked
  cases hbooked with
  | awaiter other held =>
      by_cases hother : other = task
      · subst hother
        simp [Books.amount, Heap.Op.gain, Heap.Op.loss, hawaiters, List.count_cons]
        omega
      · simp [Books.amount, Heap.Op.gain, Heap.Op.loss, hother, Ne.symm hother]
  | _ => simp [Books.amount, Heap.Op.gain, Heap.Op.loss]

/-- The handle of a task becomes a local of `cancel`. -/
theorem takeHandle (hledger : Ledger books heap) (hmem : ⟨none, .client, .task task⟩ ∈ heap.refs) :
    heap.Succeeds [.move ⟨none, .client, .task task⟩ none .frame]
      (Ledger { books with frames := .task task :: books.frames }) := by
  refine hledger.does (.move hmem rfl) ⟨rfl, rfl, by simp⟩ (by simp) ?_
  intro ref hbooked
  cases hbooked with
  | frame other => simp [Books.amount, Heap.Op.gain, Heap.Op.loss, List.count_cons]
  | _ => simp [Books.amount, Heap.Op.gain, Heap.Op.loss]

/-- What touches no booked reference needs no entry. -/
theorem unbooked (hledger : Ledger books heap) {op : Heap.Op Node Place}
    (huses : heap.Uses op last) (horderly : orderly op)
    (halloc : ∀ ref, op = .alloc ref →
      ∀ held, Booked held → held.holder = some ref.target → books.amount held = 0)
    (hbooked : ∀ ref, Booked ref → op.loss ref = 0 ∧ op.gain ref = 0) : Ledger books last := by
  refine hledger.uses huses horderly halloc ?_
  intro ref href
  rw [(hbooked ref href).1, (hbooked ref href).2]

/-- The payload of a task is taken out. -/
theorem takePayload (hledger : Ledger books heap) (task : Nat) :
    heap.Succeeds [.empty (.task task) .client] (Ledger books) := by
  refine ⟨_, rfl, hledger.unbooked .empty ⟨rfl, rfl, ?_⟩ (by simp) fun _ _ => ⟨rfl, rfl⟩⟩
  intro holder place hsame
  cases hsame
  rfl

/-- The handle of a task is dropped. -/
theorem dropHandle (hledger : Ledger books heap)
    (hmem : ⟨none, .client, .task task⟩ ∈ heap.refs) :
    heap.Succeeds [.discard ⟨none, .client, .task task⟩] (Ledger books) := by
  refine hledger.does (.discard hmem) ⟨rfl, rfl, by simp⟩ (by simp) ?_
  intro ref hbooked
  cases hbooked <;> simp [Heap.Op.gain, Heap.Op.loss]

/-- A task is allocated. -/
theorem alloc (hledger : Ledger books heap) (hfresh : heap.strong (.task task) = 0)
    (hawaiters : books.awaiters task = []) :
    heap.Succeeds [.alloc ⟨none, .client, .task task⟩] fun last =>
      Ledger books last ∧ 0 < last.strong (.task task) := by
  have huses : heap.Uses (.alloc ⟨none, .client, .task task⟩) _ := .alloc hfresh rfl
  refine ⟨_, Heap.exec_singleton.mpr huses.step, hledger.unbooked huses ⟨rfl, rfl, by simp⟩ ?_ ?_,
    by simp⟩
  · intro ref hsame held hbooked hholder
    cases hsame
    cases hbooked with
    | awaiter other node =>
        cases hholder
        simp [Books.amount, hawaiters]
    | _ => cases hholder
  · intro ref hbooked
    cases hbooked <;> simp [Heap.Op.gain, Heap.Op.loss]

/-- A new task takes the reference to its executor. -/
theorem giveExecutor {frames : List Node} (hledger : Ledger books heap)
    (hframes : books.frames = .executor :: frames) (hlives : 0 < heap.strong (.task task)) :
    heap.Succeeds [.move ⟨none, .frame, .executor⟩ (some (.task task)) .field]
      (Ledger { books with frames }) := by
  have hmem := hledger.mem (.frame .executor) rfl (by simp [Books.amount, hframes])
  refine hledger.does (.move hmem (decide_eq_true hlives)) ⟨rfl, rfl, by simp⟩ (by simp) ?_
  intro ref hbooked
  cases hbooked with
  | frame other => simp [Books.amount, hframes, Heap.Op.gain, Heap.Op.loss, List.count_cons]
  | _ => simp [Books.amount, Heap.Op.gain, Heap.Op.loss]

/-! ## What the functions of the executor do -/

theorem runEnds {frames : List Node} (hledger : Ledger books heap)
    (hframes : books.frames = .task task :: .task task :: frames) :
    heap.Succeeds (runEnds task) (Ledger { books with frames }) :=
  .cons (hledger.giveBack hframes) fun _ hbetween => hbetween.giveBack rfl

/-- A popped task whose future is polled. -/
theorem polls {queue : List Nat} {repr : TaskRepr V} (hledger : Ledger books heap)
    (hqueue : books.queue = task :: queue) (hlives : 0 < heap.strong .executor)
    (hpayload : repr.payload = .future) :
    heap.Succeeds (runRefs task repr)
      (Ledger { books with frames := .task task :: .task task :: books.frames, queue }) := by
  simp only [runRefs, hpayload, List.append_nil]
  refine .cons (hledger.pop hqueue hlives) fun between hpopped => ?_
  exact hpopped.lend (hpopped.lives_of_frame List.mem_cons_self)

/-- A popped task that is finished or cancelled. -/
theorem skips {queue : List Nat} {repr : TaskRepr V} (hledger : Ledger books heap)
    (hqueue : books.queue = task :: queue) (hlives : 0 < heap.strong .executor)
    (hpayload : repr.payload ≠ .future) :
    heap.Succeeds (runRefs task repr) (Ledger { books with queue }) := by
  have hends : runRefs task repr =
      .move ⟨some .executor, .queue, .task task⟩ none .frame ::
        .clone ⟨none, .frame, .task task⟩ :: Ownership.runEnds task := by
    unfold runRefs
    split
    · contradiction
    · rfl
  rw [hends]
  refine .cons (hledger.pop hqueue hlives) fun between hpopped => ?_
  refine .cons (hpopped.lend (hpopped.lives_of_frame List.mem_cons_self)) fun last hlent => ?_
  exact hlent.runEnds rfl

/-- Waking pushes a task that lives. -/
theorem wakes {executor : Executor V} {waker : Waker} (hledger : Ledger books heap)
    (hqueue : books.queue = executor.queue)
    (hlives : ∀ task, waker = .task task → 0 < heap.strong .executor)
    (hnode : 0 < heap.strong waker.node) :
    heap.Succeeds (wakeRefs executor waker)
      (Ledger { books with queue := (executor.wake waker).queue }) := by
  have hkept : Ledger { books with queue := executor.queue } heap := hqueue ▸ hledger
  cases waker with
  | task task =>
      cases htask : executor.tasks task with
      | none =>
          simp only [wakeRefs, Executor.wake, htask]
          exact .nil hkept
      | some repr =>
          obtain ⟨awaiter, state, payload, borrow, handle⟩ := repr
          cases state with
          | idle =>
              simp only [wakeRefs, Executor.wake, htask]
              exact hkept.push (hlives task rfl) hnode
          | _ =>
              simp only [wakeRefs, Executor.wake, htask]
              exact .nil hkept
  | _ => exact .nil hkept

/-- A waker that has been taken is woken and dropped. -/
theorem taken {executor : Executor V} {waker : Waker} {wakings : List Node}
    (hledger : Ledger books heap) (hwakings : books.wakings = waker.node :: wakings)
    (hqueue : books.queue = executor.queue) (hlives : 0 < heap.strong .executor) :
    heap.Succeeds (takenRefs executor waker)
      (Ledger { books with wakings, queue := (executor.wake waker).queue }) := by
  have hnode := hledger.lives_of_waking (hwakings ▸ List.mem_cons_self)
  exact .append (hledger.wakes hqueue (fun _ _ => hlives) hnode) fun _ hwoken =>
    hwoken.woken hwakings

/-- A task that has finished wakes its awaiter. -/
theorem completes {executor : Executor V} {repr : TaskRepr V} {frames : List Node}
    (hledger : Ledger books heap) (hframes : books.frames = .task task :: .task task :: frames)
    (hqueue : books.queue = executor.queue)
    (hawaiter : books.awaiters task = repr.awaiter.toList.map Waker.node)
    (hlives : 0 < heap.strong .executor) :
    heap.Succeeds (completeRefs executor task repr)
      (Ledger
        { frames
          wakings := books.wakings
          queue := (repr.awaiter.elim (executor.set task { repr with state := .done })
            (executor.set task { repr with state := .done }).wake).queue
          awaiters := Function.update books.awaiters task [] }) := by
  have htask : 0 < heap.strong (.task task) :=
    hledger.lives_of_frame (hframes ▸ List.mem_cons_self)
  cases hwaker : repr.awaiter with
  | none =>
      have hnone : Function.update books.awaiters task [] = books.awaiters := by
        rw [hwaker] at hawaiter
        exact Function.update_eq_self_iff.mpr hawaiter.symm
      simp only [completeRefs, hwaker, Option.elim_none, hnone]
      have hends := hledger.runEnds hframes
      rwa [show books = { books with queue := executor.queue } from hqueue ▸ rfl] at hends
  | some waker =>
      have hhand := hledger.hand htask (by rw [hawaiter, hwaker]; rfl)
      simp only [completeRefs, hwaker, Option.elim_some, List.cons_append]
      refine .cons (hhand.grows (by simp)) fun between hbetween => ?_
      obtain ⟨hhanded, hgrows⟩ := hbetween
      refine .append (hhanded.taken rfl hqueue (hlives.trans_le (hgrows _))) fun last htaken => ?_
      exact htaken.runEnds hframes

/-- `poll_output` before the task has finished clones the waker. -/
theorem awaits {repr : TaskRepr V} {waker : Waker} (hledger : Ledger books heap)
    (hlives : 0 < heap.strong (.task task)) (hnode : 0 < heap.strong waker.node)
    (hpayload : repr.payload = .future) :
    heap.Succeeds (pollOutputRefs task repr waker)
      (Ledger { books with frames := waker.node :: .task task :: books.frames }) := by
  simp only [pollOutputRefs, hpayload]
  refine .cons ((hledger.lend hlives).grows (by simp)) fun between hbetween => ?_
  obtain ⟨hlent, hgrows⟩ := hbetween
  exact hlent.lend (hnode.trans_le (hgrows _))

/-- The awaiter is replaced. -/
theorem stores {repr : TaskRepr V} {waker : Waker} {frames : List Node}
    (hledger : Ledger books heap) (hframes : books.frames = waker.node :: .task task :: frames)
    (hawaiter : books.awaiters task = repr.awaiter.toList.map Waker.node) :
    heap.Succeeds (storeRefs task repr waker)
      (Ledger { books with
        frames := .task task :: frames
        awaiters := Function.update books.awaiters task [waker.node] }) := by
  have hlives : 0 < heap.strong (.task task) := hledger.lives_of_frame (by simp [hframes])
  have hawait := hledger.await hframes hlives
  unfold storeRefs
  cases hold : repr.awaiter with
  | none =>
      rw [hawaiter, hold] at hawait
      exact hawait
  | some old =>
      rw [hawaiter, hold] at hawait
      refine .cons hawait fun between hawaited => ?_
      have hbetween := hawaited.lives_of_frame List.mem_cons_self
      have hforget := hawaited.forget hbetween (Function.update_self ..)
      simpa only [Function.update_idem] using hforget

/-- A new task is scheduled. -/
theorem spawns (hledger : Ledger books heap) (hlives : 0 < heap.strong .executor)
    (hfresh : heap.strong (.task task) = 0) (hawaiters : books.awaiters task = []) :
    heap.Succeeds (spawnRefs task) (Ledger { books with queue := books.queue ++ [task] }) := by
  have hlent := (hledger.lend hlives).and fun last hexec => by
    refine Heap.unallocated_of_uses hfresh (Heap.step_uses (Heap.exec_singleton.mp hexec)) ?_
    rintro ref ⟨⟩
  refine .cons hlent fun first hfirst => ?_
  obtain ⟨hfirst, hstill⟩ := hfirst
  have halloc := hfirst.alloc hstill hawaiters
  refine .cons halloc fun second hsecond => ?_
  obtain ⟨hsecond, htask⟩ := hsecond
  have hexecutor := hsecond.lives_of_frame List.mem_cons_self
  have hgive := (hsecond.giveExecutor rfl htask).grows (by simp)
  refine .cons hgive fun third hthird => ?_
  obtain ⟨hthird, hgrows⟩ := hthird
  exact hthird.push (hexecutor.trans_le (hgrows _)) (htask.trans_le (hgrows _))

/-- `cancel` of a task whose future waits. -/
theorem cancels {repr : TaskRepr V} (hledger : Ledger books heap)
    (hmem : ⟨none, .client, .task task⟩ ∈ heap.refs) (hpayload : repr.payload = .future) :
    heap.Succeeds (cancelRefs task repr)
      (Ledger { books with frames := .task task :: books.frames }) := by
  simp only [cancelRefs, hpayload]
  exact .cons (hledger.takeHandle hmem) fun _ hbetween => hbetween.takePayload task

/-- `cancel` of a task that is finished or cancelled. -/
theorem cancelsDone {repr : TaskRepr V} (hledger : Ledger books heap)
    (hmem : ⟨none, .client, .task task⟩ ∈ heap.refs) (hpayload : repr.payload ≠ .future) :
    heap.Succeeds (cancelRefs task repr) (Ledger books) := by
  refine .cons (hledger.takeHandle hmem) fun between hbetween => ?_
  split
  · exact .cons (hbetween.takePayload task) fun _ hemptied => hemptied.giveBack rfl
  · exact hbetween.giveBack rfl
  · contradiction

end Ledger

end Platoon.Runtime.Ownership
