import Platoon.Sync.FifoHistory
import Mathlib.Data.List.Forall2

/-!
# Runs of the semaphore

The invariants of the abstract line, carried over to the slab, the links and
the futures of the code.  Every statement is about the states that the code's
own operations reach, from a new semaphore and for any clients.
-/

namespace Platoon.Sync.Semaphore

open Platoon.Foundation Platoon.Rust

variable {S : Type → Type} [Slab S] {W : Type}

/-- The future waits for permits. -/
def State.Waits (state : State S W) (future : Nat) : Prop :=
  ∃ key permits, state.futures future = some (.running { state := .waiting key, permits })

/-- `queue` names the waiting futures, oldest first, with what the slab stores
under the key of each. -/
structure State.Lists (state : State S W) (queue : List (Entry Nat W)) : Prop where
  stored : List.Forall₂ (fun cell entry =>
    state.futures entry.id =
        some (.running { state := .waiting cell.id, permits := cell.required }) ∧
      entry.waker = cell.waker ∧ entry.required = cell.required ∧ entry.woke = cell.woke)
    state.inner.line queue
  distinct : (queue.map Entry.id).Nodup
  complete : ∀ future, state.Waits future → future ∈ queue.map Entry.id

/-- The stored waiters form one doubly linked list of exactly the occupied keys. -/
structure Linked (inner : Inner S W) (keys : List Nat) : Prop where
  nodup : keys.Nodup
  occupied : ∀ key, (Slab.get? inner.waiters key).isSome ↔ key ∈ keys
  tail : inner.tail = keys.head?
  head : inner.head = keys.getLast?
  oldest : ∀ key waiter, inner.tail = some key → Slab.get? inner.waiters key = some waiter →
    waiter.next = none
  youngest : ∀ key waiter, inner.head = some key → Slab.get? inner.waiters key = some waiter →
    waiter.prev = none
  next_of_prev : ∀ key waiter other, Slab.get? inner.waiters key = some waiter →
    waiter.prev = some other →
    ∃ waiter', Slab.get? inner.waiters other = some waiter' ∧ waiter'.next = some key
  prev_of_next : ∀ key waiter other, Slab.get? inner.waiters key = some waiter →
    waiter.next = some other →
    ∃ waiter', Slab.get? inner.waiters other = some waiter' ∧ waiter'.prev = some key
  reads : inner.line.map Entry.id = keys

/-- A slab that stores a line is a doubly linked list. -/
theorem Linked.of_holds {inner : Inner S W} {cells : List (Entry Nat W)}
    (hholds : inner.Holds cells) : Linked inner (cells.map Entry.id) where
  nodup := hholds.nodup
  occupied key := (hholds.mem_iff key).symm
  tail := hholds.tail
  head := hholds.head
  oldest key waiter htail hget := by
    rw [hholds.tail] at htail
    cases cells with
    | nil => cases htail
    | cons first rest =>
        obtain rfl : first.id = key := by simpa using htail
        have hstores : Stores inner.waiters ([] ++ first :: rest) := hholds.toStores
        have hfirst := hstores.get
        rw [hget, Option.some.injEq] at hfirst
        rw [hfirst]
        rfl
  youngest key waiter hhead hget := by
    rw [hholds.head] at hhead
    rcases List.eq_nil_or_concat cells with rfl | ⟨front, last, rfl⟩
    · cases hhead
    · rw [List.concat_eq_append] at hholds hhead
      obtain rfl : last.id = key := by simpa using hhead
      have hlast := hholds.toStores.get
      rw [hget, Option.some.injEq] at hlast
      rw [hlast]
      rfl
  next_of_prev key waiter other hget hprev := by
    have hmem : key ∈ cells.map Entry.id := hholds.occupied key (by simp [hget])
    obtain ⟨-, link, hlink, hnext⟩ := hholds.linked.next_of_prev hmem
      (show linksOf inner.waiters key = some ⟨waiter.next, waiter.prev⟩ by simp [linksOf, hget])
      hprev
    obtain ⟨waiter', hget', rfl⟩ := Option.map_eq_some_iff.mp hlink
    exact ⟨waiter', hget', hnext⟩
  prev_of_next key waiter other hget hnext := by
    have hmem : key ∈ cells.map Entry.id := hholds.occupied key (by simp [hget])
    obtain ⟨-, link, hlink, hprev⟩ := hholds.linked.prev_of_next hmem
      (show linksOf inner.waiters key = some ⟨waiter.next, waiter.prev⟩ by simp [linksOf, hget])
      hnext
    obtain ⟨waiter', hget', rfl⟩ := Option.map_eq_some_iff.mp hlink
    exact ⟨waiter', hget', hprev⟩
  reads := by rw [hholds.line_eq]

section Represented

variable {cells : List (Entry Nat W)} {owner : Nat → Nat}
variable {state : State S W} {spec : Fifo.State W}

/-- The futures that wait are those that wait in the abstract line. -/
theorem waits_iff (hvia : Fifo.Via cells owner state spec) (future : Nat) :
    state.Waits future ↔ spec.futures future = some .waiting := by
  rw [hvia.futures]
  constructor
  · rintro ⟨key, permits, hfuture⟩
    rw [hfuture]
    rfl
  · intro hwaiting
    obtain ⟨value, hvalue, hof⟩ := Option.map_eq_some_iff.mp hwaiting
    cases value with
    | returned => cases hof
    | dropped => cases hof
    | running acquire =>
        rcases hvia.running future acquire hvalue with hidle | ⟨cell, -, -, hwaits⟩
        · obtain ⟨acquireState, permits⟩ := acquire
          cases hidle
          cases hof
        · obtain ⟨acquireState, permits⟩ := acquire
          cases hwaits
          exact ⟨cell.id, permits, hvalue⟩

/-- The abstract queue lists the waiting futures of the code. -/
theorem lists_queue (hvia : Fifo.Via cells owner state spec) :
    state.Lists spec.queue where
  stored := by
    rw [hvia.holds.line_eq, hvia.queue, List.forall₂_map_right_iff, List.forall₂_same]
    intro cell hcell
    exact ⟨hvia.owned cell hcell, rfl, rfl, rfl⟩
  distinct := hvia.queue_nodup
  complete future hwaits := by
    obtain ⟨key, permits, hfuture⟩ := hwaits
    rcases hvia.running future _ hfuture with hidle | ⟨cell, hcell, rfl, -⟩
    · cases hidle
    · rw [hvia.queue, List.map_map]
      exact List.mem_map_of_mem (f := Entry.id ∘ Entry.rename owner) hcell

/-- Two futures never wait under one key. -/
theorem key_injective (hvia : Fifo.Via cells owner state spec) {future other key : Nat}
    {permits permits' : Nat}
    (hfuture : state.futures future = some (.running { state := .waiting key, permits }))
    (hother : state.futures other =
      some (.running { state := .waiting key, permits := permits' })) : future = other := by
  rcases hvia.running future _ hfuture with hidle | ⟨cell, hcell, rfl, hwaits⟩
  · cases hidle
  · rcases hvia.running other _ hother with hidle | ⟨cell', hcell', rfl, hwaits'⟩
    · cases hidle
    · simp only [AcquireState.waiting.injEq] at hwaits hwaits'
      rw [← hwaits, hwaits']

end Represented

section Runs

variable [Wakes W] {profile : Profile} {initial : Nat}
variable {trace : List (Op W × Output W)} {state : State S W}

/-- Every run of the code is a run of the abstract line with the same trace. -/
theorem run_represented
    (hrun : (system profile : System _ (State S W) _ _).Run (State.new initial) trace state) :
    ∃ spec cells owner, (Fifo.system profile).Run (Fifo.State.new initial) trace spec ∧
      Fifo.Via cells owner state spec := by
  obtain ⟨spec, hspec, cells, owner, hvia⟩ :=
    Fifo.refines.run ⟨[], id, Fifo.Via.new initial⟩ hrun
  exact ⟨spec, cells, owner, hspec, hvia⟩

/-- The waiters marked as woken never require more than the available permits.
Hence no operation, in a build with overflow checks, fails the assertion of
`poll_acquire` or underflows. -/
theorem woken_within_permits
    (hrun : (system profile : System _ (State S W) _ _).Run (State.new initial) trace state)
    (htotal : initial + added trace ≤ profile.usizeMax) :
    state.inner.Holds state.inner.line ∧
      totalCost Entry.required (state.inner.line.filter Entry.woke) ≤ state.inner.permits ∧
      ∀ op reason, initial + added trace + op.added ≤ profile.usizeMax →
        (system profile.checked).step state op = .panic reason →
          reason = .resumedAfterCompletion := by
  obtain ⟨spec, cells, owner, hspec, hvia⟩ := run_represented hrun
  have hsound := Fifo.sound hspec htotal
  refine ⟨?_, ?_, ?_⟩
  · rw [hvia.holds.line_eq]
    exact hvia.holds
  · have hfit := hsound.kept.woken_fit
    rw [hvia.queue, List.filter_map, totalCost_map (Entry.rename_required owner),
      hvia.permits] at hfit
    rw [hvia.holds.line_eq]
    exact hfit
  · intro op reason hop hpanic
    have hspecPanic := ((Fifo.refines op ⟨cells, owner, hvia⟩).panic_iff reason).mp hpanic
    refine Fifo.panic_resumed ?_ hsound.kept hspecPanic
    have hle := hsound.total_le
    rw [Profile.usizeMax_checked]
    omega

/-- Two clients share one permit; the second waits for it and is woken. -/
def handover : List (Op Nat) :=
  [.acquire 0 1, .poll 0 10, .acquire 1 1, .poll 1 11, .dropPermit 1]

theorem handover_run :
    ∃ trace state, (system Profile.release).Run (State.new 1 : State FreeSlab Nat) trace state ∧
      added trace = 0 ∧ state.inner.line.map Entry.woke = [true] := by
  have hcheck : ((system Profile.release).exec (State.new 1 : State FreeSlab Nat)
      handover).any (fun result => decide (added result.1 = 0) &&
        decide (result.2.inner.line.map Entry.woke = [true])) = true := by decide
  obtain ⟨trace, state, hrun, hpass⟩ := System.exec_check hcheck
  exact ⟨trace, state, hrun, by simpa using hpass⟩

theorem woken_within_permits_handover :
    ∃ state : State FreeSlab Nat, state.inner.line.map Entry.woke = [true] ∧
      totalCost Entry.required (state.inner.line.filter Entry.woke) ≤ state.inner.permits := by
  obtain ⟨trace, state, hrun, hadded, hwoke⟩ := handover_run
  exact ⟨state, hwoke, (woken_within_permits hrun (by rw [hadded]; decide)).2.1⟩

/-- In every reachable state the oldest waiter is woken or requires more than the
available permits, and stored wakers are up to date.  A step invokes exactly the
wakers of the waiters it marks, marks are never taken back, and after a
releasing step exactly the longest prefix that fits is marked. -/
theorem no_wakeup_lost
    (hrun : (system profile : System _ (State S W) _ _).Run (State.new initial) trace state)
    (htotal : initial + added trace ≤ profile.usizeMax) :
    ∃ queue, state.Lists queue ∧ (queue.map Entry.id).Sublist (arrivals trace) ∧
      (∀ entry ∈ queue, Fifo.Polled trace entry) ∧
      (∀ oldest, queue.head? = some oldest →
        oldest.woke = true ∨ state.inner.permits < oldest.required) ∧
      ∀ op last output, initial + added trace + op.added ≤ profile.usizeMax →
        (system profile).step state op = .next last output →
        ∃ after, last.Lists after ∧
          output.woken = Line.newlyWoken queue after ∧
          (∀ entry ∈ after, Fifo.Polled (trace ++ [(op, output)]) entry) ∧
          (∀ old ∈ queue, ∀ entry ∈ after, entry.id = old.id → old.woke = true →
            entry.woke = true) ∧
          (op.Releases state.Waits output →
            ∃ front back, Line.Served last.inner.permits after front back) := by
  obtain ⟨spec, cells, owner, hspec, hvia⟩ := run_represented hrun
  have hsound := Fifo.sound hspec htotal
  have henrolled := Fifo.enrolled hspec
  have hrecorded := Fifo.recorded hspec
  refine ⟨spec.queue, lists_queue hvia, hrecorded.arrived, hrecorded.polled, ?_, ?_⟩
  · intro oldest holdest
    rw [← hvia.permits]
    exact hsound.kept.oldest oldest holdest
  · intro op last output hop hstep
    obtain ⟨specLast, hspecStep, cells', owner', hvia'⟩ :=
      (Fifo.refines op ⟨cells, owner, hvia⟩).forward hstep
    have htransition := Fifo.step_transition hspecStep
    have hle := hsound.total_le
    refine ⟨specLast.queue, lists_queue hvia', htransition.woken_eq henrolled,
      (htransition.recorded henrolled hrecorded).polled, ?_, ?_⟩
    · intro old hold entry hentry hid hwoke
      exact htransition.woke_stays henrolled hold hentry hid hwoke
    · intro hreleases
      have hwaits : state.Waits = fun future => spec.futures future = some .waiting := by
        funext future
        exact propext (waits_iff hvia future)
      rw [hwaits] at hreleases
      rw [← hvia'.permits]
      exact htransition.served (by omega) hsound.kept hreleases

theorem no_wakeup_lost_handover :
    ∃ (trace : List (Op Nat × Output Nat)) (state : State FreeSlab Nat) (queue : _),
      state.Lists queue ∧ (queue.map Entry.id).Sublist (arrivals trace) ∧
        ∀ oldest, queue.head? = some oldest →
          oldest.woke = true ∨ state.inner.permits < oldest.required := by
  obtain ⟨trace, state, hrun, hadded, -⟩ := handover_run
  obtain ⟨queue, hlists, harrived, -, holdest, -⟩ :=
    no_wakeup_lost hrun (by rw [hadded]; decide)
  exact ⟨trace, state, queue, hlists, harrived, holdest⟩

/-- The waiter store refines the line: the run is one of the abstract semaphore,
the slab is a doubly linked list of its occupied keys in the order of arrival,
`add` and `remove` act on that list as on a plain one, and no key that an
operation uses is vacant or belongs to another future. -/
theorem store_refines_line
    (hrun : (system profile : System _ (State S W) _ _).Run (State.new initial) trace state) :
    (∃ spec, (Fifo.system profile).Run (Fifo.State.new initial) trace spec ∧
        spec.permits = state.inner.permits ∧ state.Lists spec.queue ∧
        (spec.queue.map Entry.id).Sublist (arrivals trace) ∧
        ∀ entry ∈ spec.queue, Fifo.Polled trace entry) ∧
      Linked state.inner (state.inner.line.map Entry.id) ∧
      (∀ waker required, ∃ inner' key, state.inner.add waker required = .ok (inner', key) ∧
        Slab.get? state.inner.waiters key = none ∧
        inner'.line = state.inner.line ++ [⟨key, some waker, required, false⟩] ∧
        Linked inner' (inner'.line.map Entry.id)) ∧
      (∀ front cell back, state.inner.line = front ++ cell :: back →
        ∃ inner', state.inner.remove cell.id = .ok inner' ∧ inner'.line = front ++ back ∧
          Linked inner' (inner'.line.map Entry.id)) ∧
      (∀ future other key permits permits',
        state.futures future = some (.running { state := .waiting key, permits }) →
        state.futures other = some (.running { state := .waiting key, permits := permits' }) →
        future = other) ∧
      (∀ fuel permits, Slab.len state.inner.waiters ≤ fuel → ∃ waiters woken,
        Inner.wakeLoop profile fuel state.inner.waiters permits state.inner.tail =
          .ok (waiters, woken)) ∧
      ∀ op reason, (system profile).step state op = .panic reason →
        reason ≠ .invalidKey ∧ reason ≠ .outOfFuel := by
  obtain ⟨spec, cells, owner, hspec, hvia⟩ := run_represented hrun
  have hholds := hvia.holds
  have hrecorded := Fifo.recorded hspec
  rw [hholds.line_eq]
  refine ⟨⟨spec, hspec, hvia.permits, lists_queue hvia, hrecorded.arrived, hrecorded.polled⟩,
    Linked.of_holds hholds, ?_, ?_, ?_, ?_, ?_⟩
  · intro waker required
    obtain ⟨inner', key, hadd, hfresh, -, hadded⟩ := hholds.add waker required
    rw [hholds.mem_iff, Option.not_isSome_iff_eq_none] at hfresh
    exact ⟨inner', key, hadd, hfresh, hadded.line_eq,
      by rw [hadded.line_eq]; exact Linked.of_holds hadded⟩
  · rintro front cell back rfl
    obtain ⟨inner', hremove, -, hremoved⟩ := hholds.remove
    exact ⟨inner', hremove, hremoved.line_eq,
      by rw [hremoved.line_eq]; exact Linked.of_holds hremoved⟩
  · intro future other key permits permits' hfuture hother
    exact key_injective hvia hfuture hother
  · intro fuel permits hfuel
    have hstores : Stores state.inner.waiters ([] ++ cells) := hholds.toStores
    rw [hholds.len_eq] at hfuel
    obtain ⟨waiters, hloop, -⟩ :=
      Inner.Holds.wakeLoop_spec profile hstores hfuel permits
    exact ⟨waiters, _, hholds.tail ▸ hloop⟩
  · intro op reason hpanic
    exact Fifo.panic_reason (((Fifo.refines op ⟨cells, owner, hvia⟩).panic_iff reason).mp hpanic)

theorem store_refines_line_handover :
    ∃ state : State FreeSlab Nat, state.inner.line.map Entry.woke = [true] ∧
      Linked state.inner (state.inner.line.map Entry.id) := by
  obtain ⟨trace, state, hrun, -, hwoke⟩ := handover_run
  exact ⟨state, hwoke, (store_refines_line hrun).2.1⟩

/-- Permits are neither made nor lost: those available, owned, leaked and forgotten
are those put in.  So no returned permit overflows the counter, and dropping a
future moves no permit. -/
theorem permits_conserved
    (hrun : (system profile : System _ (State S W) _ _).Run (State.new initial) trace state)
    (htotal : initial + added trace ≤ profile.usizeMax) :
    state.inner.permits + state.held.sum + state.leaked.sum + forgotten trace =
        initial + added trace ∧
      (∀ permits ∈ state.held, state.inner.permits + permits ≤ profile.usizeMax) ∧
      ∀ future last output, (system profile).step state (.drop future) = .next last output →
        last.inner.permits = state.inner.permits ∧ last.held = state.held ∧
          last.leaked = state.leaked := by
  obtain ⟨spec, cells, owner, hspec, hvia⟩ := run_represented hrun
  have hconserved := (Fifo.sound hspec htotal).conserved
  rw [Fifo.State.total, hvia.permits, hvia.held, hvia.leaked] at hconserved
  refine ⟨hconserved, ?_, ?_⟩
  · intro permits hheld
    have herase := Fifo.sum_erase_add hheld
    omega
  · intro future last output hstep
    obtain ⟨specLast, hspecStep, cells', owner', hvia'⟩ :=
      (Fifo.refines _ ⟨cells, owner, hvia⟩).forward hstep
    rw [← hvia'.permits, ← hvia'.held, ← hvia'.leaked, ← hvia.permits, ← hvia.held,
      ← hvia.leaked]
    cases Fifo.step_transition hspecStep with
    | cancel hwaits => exact ⟨rfl, rfl, rfl⟩
    | discard hvalue hrests => exact ⟨rfl, rfl, rfl⟩

theorem permits_conserved_handover :
    ∃ (trace : List (Op Nat × Output Nat)) (state : State FreeSlab Nat), added trace = 0 ∧
      state.inner.permits + state.held.sum + state.leaked.sum + forgotten trace =
        1 + added trace := by
  obtain ⟨trace, state, hrun, hadded, -⟩ := handover_run
  exact ⟨trace, state, hadded, (permits_conserved hrun (by rw [hadded]; decide)).1⟩

end Runs

end Platoon.Sync.Semaphore
