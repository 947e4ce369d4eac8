import Platoon.Foundation.Composition
import Platoon.Sync.SemaphoreOrder
import Platoon.Sync.LockRuns
import Platoon.Sync.OneshotRuns
import Mathlib.Algebra.Order.BigOperators.Group.List
import Mathlib.Algebra.Order.Group.Nat

/-!
# Waiters that were not woken yet

A future that a poll leaves pending waits under the waker of that poll.  It does so
until it is polled again or dropped, or until a step marks it, which invokes the
waker.  The oldest such waiter lacks permits; before a lock it is held back by a guard.
-/

namespace Platoon.Sync

open Platoon.Foundation Platoon.Rust

namespace Line

variable {ι W : Type} {permits : Nat} {entry : Entry ι W} {line : List (Entry ι W)} {waker : W}

/-- An unmarked waiter stays as it is unless its waker is invoked. -/
theorem serve_unwoken (hmem : entry ∈ line) (hwaker : entry.waker = some waker)
    (hunwoken : entry.woke = false) : entry ∈ serve permits line ∨ waker ∈ woken permits line := by
  rw [← splitFitting_append Entry.required permits line, List.mem_append] at hmem
  rcases hmem with hfront | hback
  · refine .inr (List.mem_flatMap.mpr ⟨entry, List.mem_filter.mpr ⟨hfront, ?_⟩, ?_⟩)
    · simp [hunwoken]
    · simp [hwaker]
  · exact .inl (List.mem_append_right _ hback)

end Line

namespace Fifo

open Semaphore

variable {W : Type}

/-- The future waits under the waker and is not marked as woken. -/
def State.Unwoken (state : State W) (future : Nat) (waker : W) : Prop :=
  ∃ entry ∈ state.queue, entry.id = future ∧ entry.waker = some waker ∧ entry.woke = false

/-- The wake pass leaves an unmarked waiter as it is or invokes its waker. -/
theorem State.Unwoken.serve {state : State W} {future : Nat} {waker : W}
    (hunwoken : state.Unwoken future waker) :
    state.serve.Unwoken future waker ∨ waker ∈ state.woken := by
  obtain ⟨entry, hmem, hid, hwaker, hwoke⟩ := hunwoken
  rcases Line.serve_unwoken hmem hwaker hwoke with hstays | hwoken
  · exact .inl ⟨entry, hstays, hid, hwaker, hwoke⟩
  · exact .inr hwoken

theorem State.Unwoken.leave {state : State W} {future other : Nat} {waker : W}
    (hunwoken : state.Unwoken future waker) (hne : future ≠ other) :
    (state.leave other).Unwoken future waker := by
  obtain ⟨entry, hmem, rfl, hstored⟩ := hunwoken
  exact ⟨entry, List.mem_filter.mpr ⟨hmem, by simpa using hne⟩, rfl, hstored⟩

variable [Wakes W] {profile : Profile} {state last : State W} {op : Op W} {output : Output W}
  {future : Nat} {waker : W}

/-- A foreign step leaves an unmarked waiter as it is or invokes its waker. -/
theorem Transition.unwoken (htransition : Transition profile state op last output)
    (hunwoken : state.Unwoken future waker) (hpoll : ∀ polling, op ≠ .poll future polling)
    (hdrop : op ≠ .drop future) : last.Unwoken future waker ∨ waker ∈ output.woken := by
  cases htransition with
  | wait hidle hcannot =>
      obtain ⟨entry, hmem, hstored⟩ := hunwoken
      exact .inl ⟨entry, List.mem_append_left _ hmem, hstored⟩
  | @refresh other polling entry hwaits hfind hwoke =>
      obtain ⟨entry, hmem, rfl, hstored⟩ := hunwoken
      have hne : entry.id ≠ other := by
        rintro rfl
        exact hpoll polling rfl
      refine .inl ⟨entry, List.mem_map.mpr ⟨entry, hmem, ?_⟩, rfl, hstored⟩
      rw [if_neg hne]
  | @grant other polling entry hwaits hfind hwoke hfits =>
      have hne : future ≠ other := by
        rintro rfl
        exact hpoll polling rfl
      have htaken : (state.take entry.required).Unwoken future waker := hunwoken
      exact (htaken.leave hne).serve
  | @cancel other hwaits =>
      have hne : future ≠ other := by
        rintro rfl
        exact hdrop rfl
      exact (hunwoken.leave hne).serve
  | @addSome permits sum hsome hsum =>
      have hadded : { state with permits := sum }.Unwoken future waker := hunwoken
      exact hadded.serve
  | @returnSome permits sum hheld hsome hsum =>
      have hadded : State.Unwoken
        { state with held := state.held.erase permits, permits := sum } future waker := hunwoken
      exact hadded.serve
  | _ => exact .inl hunwoken

/-- A poll that leaves the future pending leaves its waker in the line. -/
theorem Transition.unwoken_of_pending (hexact : Wakes.Exact W)
    (htransition : Transition profile state (.poll future waker) last output)
    (hpending : output.obtained = none) : last.Unwoken future waker := by
  cases htransition with
  | take hidle hcan => cases hpending
  | @wait _ permits _ hidle hcannot =>
      exact ⟨⟨future, some waker, permits, false⟩, by simp [State.enqueue], rfl, rfl, rfl⟩
  | @refresh _ _ entry hwaits hfind hwoke =>
      obtain ⟨hmem, hid⟩ := Line.find?_mem hfind
      refine ⟨_, List.mem_map_of_mem hmem, ?_⟩
      rw [if_pos hid]
      refine ⟨hid, ?_, hwoke⟩
      cases hstored : entry.waker with
      | none => rfl
      | some stored =>
          rw [Line.refreshed, hexact _ _ (Wakes.refresh_equivalent stored waker)]
  | grant hwaits hfind hwoke hfits => cases hpending

end Fifo

namespace Semaphore

variable {S : Type → Type} [Slab S] {W : Type}

/-- The future waits for `permits` under the waker and is not marked as woken. -/
def State.Unwoken (state : State S W) (future permits : Nat) (waker : W) : Prop :=
  ∃ key waiter, state.futures future = some (.running { state := .waiting key, permits }) ∧
    Slab.get? state.inner.waiters key = some waiter ∧ waiter.waker = some waker ∧
    waiter.woke = false

/-- The future waits under the key at which the wake pass begins. -/
def State.Oldest (state : State S W) (future : Nat) : Prop :=
  ∃ key permits, state.futures future = some (.running { state := .waiting key, permits }) ∧
    state.inner.tail = some key

/-- Whether the operation polls or drops the future. -/
def Op.uses (future : Nat) : Op W → Bool
  | .poll polled _ => polled = future
  | .drop dropped => dropped = future
  | _ => false

section Represented

variable {cells : List (Entry Nat W)} {owner : Nat → Nat} {state : State S W}
  {spec : Fifo.State W} {future permits : Nat} {waker : W}

/-- The entry of the abstract line for a waiter of the slab. -/
theorem entry_of_waiting (hvia : Fifo.Via cells owner state spec) {key : Nat}
    {waiter : Waiter W}
    (hfuture : state.futures future = some (.running { state := .waiting key, permits }))
    (hget : Slab.get? state.inner.waiters key = some waiter) :
    ∃ cell ∈ cells, cell.id = key ∧ owner cell.id = future ∧ cell.required = permits ∧
      cell.waker = waiter.waker ∧ cell.woke = waiter.woke := by
  rcases hvia.running future _ hfuture with hidle | ⟨cell, hcell, rfl, hwaits⟩
  · cases hidle
  · cases hwaits
    obtain ⟨stored, hstored, hentry⟩ := hvia.holds.entries cell hcell
    rw [hget, Option.some.injEq] at hstored
    subst hstored
    have howned := hvia.owned cell hcell
    rw [hfuture, Option.some.injEq, AcquireFuture.running.injEq, Acquire.mk.injEq] at howned
    refine ⟨cell, hcell, rfl, rfl, howned.2.symm, ?_, ?_⟩
    · rw [← hentry]
      rfl
    · rw [← hentry]
      rfl

/-- The unmarked waiters are those of the abstract line. -/
theorem unwoken_iff (hvia : Fifo.Via cells owner state spec) :
    (∃ permits, state.Unwoken future permits waker) ↔ spec.Unwoken future waker := by
  constructor
  · rintro ⟨permits, key, waiter, hfuture, hget, hwaker, hwoke⟩
    obtain ⟨cell, hcell, -, howner, -, hstored, hmark⟩ := entry_of_waiting hvia hfuture hget
    refine ⟨cell.rename owner, ?_, howner, hstored.trans hwaker, hmark.trans hwoke⟩
    rw [hvia.queue]
    exact List.mem_map_of_mem hcell
  · rintro ⟨entry, hentry, rfl, hwaker, hwoke⟩
    rw [hvia.queue] at hentry
    obtain ⟨cell, hcell, rfl⟩ := List.mem_map.mp hentry
    obtain ⟨waiter, hget, hcellEq⟩ := hvia.holds.entries cell hcell
    rw [← hcellEq] at hwaker hwoke
    exact ⟨cell.required, cell.id, waiter, hvia.owned cell hcell, hget, hwaker, hwoke⟩

/-- The oldest waiter lacks permits if it is not marked. -/
theorem permits_lt_of_oldest (hvia : Fifo.Via cells owner state spec)
    (hkept : Line.Kept spec.permits spec.queue) (hunwoken : state.Unwoken future permits waker)
    (holdest : state.Oldest future) : state.inner.permits < permits := by
  obtain ⟨key, waiter, hfuture, hget, -, hwoke⟩ := hunwoken
  obtain ⟨oldest, asked, hsame, htail⟩ := holdest
  rw [hfuture, Option.some.injEq, AcquireFuture.running.injEq, Acquire.mk.injEq,
    AcquireState.waiting.injEq] at hsame
  obtain ⟨rfl, rfl⟩ := hsame
  obtain ⟨cell, hcell, rfl, -, rfl, -, hmark⟩ := entry_of_waiting hvia hfuture hget
  rw [hvia.holds.tail] at htail
  cases cells with
  | nil => cases hcell
  | cons first rest =>
      have hfirst : first = cell := by
        have hid : first.id = cell.id := by simpa using htail
        by_contra hne
        have hrest : cell ∈ rest := (List.mem_cons.mp hcell).resolve_left (Ne.symm hne)
        have hnodup := hvia.holds.nodup
        rw [List.map_cons, List.nodup_cons] at hnodup
        exact hnodup.1 (hid ▸ List.mem_map_of_mem hrest)
      subst hfirst
      rcases hkept.oldest (first.rename owner) (by simp [hvia.queue]) with hwoken | hlt
      · rw [Entry.rename_woke, hmark, hwoke] at hwoken
        cases hwoken
      · rwa [hvia.permits] at hlt

end Represented

section Runs

variable [Wakes W] {profile : Profile} {initial : Nat} {trace before after : List (Op W × Output W)}
  {state : State S W} {future : Nat} {waker : W} {output : Output W}

/-- A future that a poll left pending waits unmarked under its waker until a step wakes it. -/
theorem unwoken_or_woken (hexact : Wakes.Exact W)
    (hrun : (system profile : System _ (State S W) _ _).Run (State.new initial)
      (before ++ (.poll future waker, output) :: after) state)
    (hpending : output.obtained = none) (hkeep : ∀ event ∈ after, event.1.uses future = false) :
    (∃ permits, state.Unwoken future permits waker) ∨ ∃ event ∈ after, waker ∈ event.2.woken := by
  obtain ⟨spec, cells, owner, hspec, hvia⟩ := run_represented hrun
  rw [unwoken_iff hvia]
  obtain ⟨start, hbefore, hrest⟩ := hspec.split
  obtain ⟨middle, hpoll, hafter⟩ := hrest.first_step
  refine hafter.kept_or_answered (fun spec => spec.Unwoken future waker) _
    ((Fifo.step_transition hpoll).unwoken_of_pending hexact hpending) ?_
  intro front rest spec next op inner hsplit hfront hunwoken hstep
  have hother := hkeep (op, inner) (by simp [hsplit])
  refine (Fifo.step_transition hstep).unwoken hunwoken ?_ ?_
  · rintro polling rfl
    simp [Op.uses] at hother
  · rintro rfl
    simp [Op.uses] at hother

/-- The oldest waiter, if unmarked, requires more than the available permits. -/
theorem oldest_lacks_permits
    (hrun : (system profile : System _ (State S W) _ _).Run (State.new initial) trace state)
    (htotal : initial + added trace ≤ profile.usizeMax) {permits : Nat}
    (hunwoken : state.Unwoken future permits waker) (holdest : state.Oldest future) :
    state.inner.permits < permits := by
  obtain ⟨spec, cells, owner, hspec, hvia⟩ := run_represented hrun
  exact permits_lt_of_oldest hvia (Fifo.sound hspec htotal).kept hunwoken holdest

end Runs

end Semaphore

namespace Lock

open Semaphore

variable {S : Type → Type} [Slab S] {W : Type} [Wakes W] {profile : Profile} {lock : Lock}
  {trace before after : List (Op W × Output W)} {state : State S W} {future : Nat} {waker : W}
  {output : Output W}

/-- Whether the operation polls or drops the request. -/
def Op.uses (future : Nat) : Op W → Bool
  | .poll polled _ => polled = future
  | .dropFuture dropped => dropped = future
  | _ => false

/-- A request that a poll left pending waits unmarked under its waker until a step wakes it. -/
theorem unwoken_or_woken (hexact : Wakes.Exact W)
    (hrun : (Lock.system profile lock).Run (State.new lock : State S W)
      (before ++ (.poll future waker, output) :: after) state)
    (hpending : output.granted = none) (hkeep : ∀ event ∈ after, event.1.uses future = false) :
    (∃ permits, state.semaphore.Unwoken future permits waker) ∨
      ∃ event ∈ after, waker ∈ event.2.woken := by
  obtain ⟨semaphore, hsemaphore, rfl, -⟩ :=
    simulates.run ⟨rfl, by simp [Asked, State.new, Semaphore.State.new]⟩ hrun
  rw [List.map_append, List.map_cons] at hsemaphore
  have hlater : ∀ event ∈ after.map Lock.onSemaphore, event.1.uses future = false := by
    intro event hmem
    obtain ⟨⟨op, inner⟩, hinner, rfl⟩ := List.mem_map.mp hmem
    have hother := hkeep _ hinner
    cases op with
    | poll polled polling => exact hother
    | dropFuture dropped => exact hother
    | _ => rfl
  rcases Semaphore.unwoken_or_woken hexact hsemaphore (by simp [hpending]) hlater with
    hunwoken | ⟨event, hmem, hwoken⟩
  · exact .inl hunwoken
  · obtain ⟨inner, hinner, rfl⟩ := List.mem_map.mp hmem
    exact .inr ⟨inner, hinner, hwoken⟩

/-- The borrow flag never passes its largest value. -/
theorem value_le (hrun : (Lock.system profile lock).Run (State.new lock : State S W) trace state) :
    state.value ≤ profile.isizeMax := by
  refine hrun.invariant (fun _ state => state.value ≤ profile.isizeMax) (by simp [State.new]) ?_
  intro trace state last op output hprefix hle hstep
  have hborrow : ∀ {access : Access} {value : Int},
      borrow profile state.value access = .ok value → value ≤ profile.isizeMax := by
    intro access value hborrow
    cases access with
    | shared =>
        simp only [borrow, RefCell.borrow] at hborrow
        split at hborrow
        · cases hborrow
          omega
        · cases hborrow
    | exclusive =>
        simp only [borrow, RefCell.borrowMut] at hborrow
        split at hborrow
        · cases hborrow
          omega
        · cases hborrow
  cases step_transition hstep with
  | grant hrequest hinner hsome hok => exact hborrow hok
  | tryGrant hmode hinner hsome hok => exact hborrow hok
  | @dropGuard mode semaphore inner hguard hinner =>
      cases haccess : mode.access with
      | shared =>
          simp only [unborrow, RefCell.dropRef]
          omega
      | exclusive =>
          have halive : mode ∈ state.alive := List.mem_append_left _ hguard
          rcases (consistent hprefix).borrowed with ⟨hshared, -⟩ | ⟨-, -, -, hvalue⟩
          · rw [hshared mode halive] at haccess
            cases haccess
          · simp only [unborrow, RefCell.dropRefMut, hvalue]
            omega
  | _ => exact hle

omit [Slab S] [Wakes W] in
/-- Shared modes are those of an `RwLock`, and they cost one permit of many. -/
theorem shared_cost (hlock : lock = Mutex ∨ lock = RwLock profile) {mode : Mode}
    (hmode : mode ∈ lock.methods ++ lock.tries) (hshared : mode.access = .shared) :
    lock.permits = profile.usizeMax ∧ mode.permits = 1 := by
  rcases hlock with rfl | rfl
  · have hexclusive : mode.access = .exclusive := by
      simp only [Mutex, Mutex.lock, Mutex.tryLock, List.cons_append, List.nil_append,
        List.mem_cons, List.not_mem_nil, or_false, or_self] at hmode
      rw [hmode]
    rw [hshared] at hexclusive
    cases hexclusive
  · refine ⟨rfl, ?_⟩
    simp only [RwLock, RwLock.read, RwLock.write, RwLock.tryRead, RwLock.tryWrite,
      List.cons_append, List.nil_append, List.mem_cons, List.not_mem_nil, or_false] at hmode
    rcases hmode with rfl | rfl | rfl | rfl
    · rfl
    · cases hshared
    · rfl
    · cases hshared

/-- Permits are left when all guards are shared. -/
theorem permits_pos_of_shared (hlock : lock = Mutex ∨ lock = RwLock profile)
    (hrun : (Lock.system profile lock).Run (State.new lock : State S W) trace state)
    (hlarge : lock.permits = profile.usizeMax)
    (hshared : ∀ guard ∈ state.alive, guard.access = .shared) :
    0 < state.semaphore.inner.permits := by
  have hconsistent := consistent hrun
  have hconserved := guards_conserve (priced hlock) hrun
  have hfew : state.alive.length ≤ profile.isizeMax := by
    rcases hconsistent.borrowed with ⟨-, hvalue⟩ | ⟨other, halone, hexclusive, -⟩
    · have hle := value_le hrun
      omega
    · rw [hshared other (by simp [halone])] at hexclusive
      cases hexclusive
  have hsum : (state.alive.map Mode.permits).sum ≤ state.alive.length := by
    have hcost : ∀ cost ∈ state.alive.map Mode.permits, cost ≤ 1 := by
      intro cost hmem
      obtain ⟨guard, hguard, rfl⟩ := List.mem_map.mp hmem
      exact (shared_cost hlock (hconsistent.modes guard hguard) (hshared guard hguard)).2.le
    simpa using List.sum_le_card_nsmul _ 1 hcost
  have hroom := profile.isizeMax_lt_usizeMax
  omega

/-- A guard stands in the way of the oldest waiter, if that is unmarked. -/
theorem oldest_held_back (hlock : lock = Mutex ∨ lock = RwLock profile)
    (hrun : (Lock.system profile lock).Run (State.new lock : State S W) trace state) {permits : Nat}
    (hunwoken : state.semaphore.Unwoken future permits waker)
    (holdest : state.semaphore.Oldest future) :
    ∃ mode guard, state.requests future = some mode ∧ guard ∈ state.alive ∧
      (mode.access = .exclusive ∨ guard.access = .exclusive) := by
  obtain ⟨hasked, spec, cells, owner, hspec, hvia⟩ := run_represented hrun
  have hpriced := priced hlock
  have hsound := Fifo.sound hspec (by simpa using hpriced.bound)
  have hlt := permits_lt_of_oldest hvia hsound.kept hunwoken holdest
  have hconserved := guards_conserve hpriced hrun
  obtain ⟨key, waiter, hfuture, -⟩ := hunwoken
  obtain ⟨mode, hrequest, hcost⟩ := hasked future _ hfuture
  have hmode := List.mem_append_left lock.tries ((consistent hrun).requests _ _ hrequest)
  change permits = mode.permits at hcost
  cases haccess : mode.access with
  | exclusive =>
      have hall := hpriced.all mode hmode haccess
      have hsome : state.alive ≠ [] := by
        intro hnil
        simp only [hnil, List.map_nil, List.sum_nil] at hconserved
        omega
      obtain ⟨guard, hguard⟩ := List.exists_mem_of_ne_nil _ hsome
      exact ⟨mode, guard, hrequest, hguard, .inl haccess⟩
  | shared =>
      obtain ⟨hlarge, hone⟩ := shared_cost hlock hmode haccess
      by_contra hnone
      have hshared : ∀ guard ∈ state.alive, guard.access = .shared := by
        intro guard hguard
        cases hexclusive : guard.access with
        | shared => rfl
        | exclusive => exact absurd ⟨mode, guard, hrequest, hguard, .inr hexclusive⟩ hnone
      have hpos := permits_pos_of_shared hlock hrun hlarge hshared
      omega

end Lock

namespace Oneshot

variable {T W : Type} {trace before after : List (Op T W × Output T W)}
  {channel last : Channel T W} {op : Op T W} {output polled : Output T W} {waker : W}

/-- A receiver that waits keeps its waker stored until the sender ends, which wakes it. -/
theorem receiver_step (hholds : Holds trace channel)
    (hlast : Holds (trace ++ [(op, output)]) last) (hstep : channel.step op = .next last output)
    (halive : channel.hasSender = true) (hstored : channel.shared.receiver = some waker)
    (hpolls : polls op = false) (hdrops : op.dropsReceiver = false) :
    (last.hasSender = true ∧ last.shared.receiver = some waker) ∨ waker ∈ output.woken := by
  have hslot := hholds.receiver
  rw [hstored, halive, Bool.true_and] at hslot
  have hreceiver : channel.hasReceiver = true := by
    by_contra hgone
    rw [if_neg hgone] at hslot
    cases hslot
  rw [if_pos hreceiver] at hslot
  cases hends : op.endsSender with
  | true =>
      refine .inr ?_
      rw [woken_step hholds hstep, if_pos hends, if_pos hreceiver, ← hslot]
      simp
  | false =>
      have hsender : last.hasSender = true := by
        rw [hlast.hasSender, senderEnded_snoc, hends, Bool.or_false, ← hholds.hasSender, halive]
      have hstill : last.hasReceiver = true := by
        rw [hlast.hasReceiver, receiverDropped_snoc, hdrops, Bool.or_false,
          ← hholds.hasReceiver, hreceiver]
      have hnone : polledBy (op, output) = none := by
        cases op with
        | poll polling => cases hpolls
        | _ => rfl
      refine .inl ⟨hsender, ?_⟩
      rw [hlast.receiver, hsender, hstill, lastPolled_snoc, hnone, hslot]
      rfl

/-- A sender that waits for the receiver keeps its waker stored until that ends and wakes it. -/
theorem sender_step (hholds : Holds trace channel)
    (hlast : Holds (trace ++ [(op, output)]) last) (hstep : channel.step op = .next last output)
    (hopen : channel.shared.complete = false) (hstored : channel.shared.sender = some waker)
    (hpolls : pollsClosed op = false) (hends : op.endsSender = false) :
    (last.shared.complete = false ∧ last.shared.sender = some waker) ∨ waker ∈ output.woken := by
  have hslot := hholds.sender
  rw [hstored, hopen, if_neg Bool.false_ne_true] at hslot
  have hneither := hholds.complete.symm.trans hopen
  cases hcloses : op.endsReceiver with
  | true =>
      refine .inr ?_
      rw [woken_step hholds hstep, hends, hcloses, hneither, ← hslot]
      simp
  | false =>
      have hstill : last.shared.complete = false := by
        rw [hlast.complete, senderEnded_snoc, receiverEnded_snoc, hends, hcloses, Bool.or_false,
          Bool.or_false, hneither]
      have hnone : polledClosedBy (op, output) = none := by
        cases op with
        | pollClosed polling => cases hpolls
        | _ => rfl
      refine .inl ⟨hstill, ?_⟩
      rw [hlast.sender, hstill, lastPolledClosed_snoc, hnone, hslot]
      rfl

/-- A receiver that a poll left pending has a sender, until it is woken. -/
theorem receiver_waits_or_woken
    (hrun : Channel.system.Run Channel.new (before ++ (.poll waker, polled) :: after) channel)
    (hpending : polled.answer = .polled .pending)
    (hkeep : ∀ event ∈ after, polls event.1 = false ∧ event.1.dropsReceiver = false) :
    (channel.hasSender = true ∧ channel.shared.receiver = some waker) ∨
      ∃ event ∈ after, waker ∈ event.2.woken := by
  obtain ⟨start, hbefore, hrest⟩ := hrun.split
  obtain ⟨middle, hpoll, hafter⟩ := hrest.first_step
  have hfirst : middle.hasSender = true ∧ middle.shared.receiver = some waker := by
    have hpolled := hpoll
    simp only [Channel.system, Channel.step, Outcome.when_eq_next, Receiver.poll] at hpolled
    obtain ⟨-, hpolled⟩ := hpolled
    split at hpolled
    · split at hpolled
      · cases hpolled
        cases hpending
      · cases hpolled
        cases hpending
    · rename_i hclear
      cases hpolled
      exact ⟨((Holds.run hbefore).incomplete (by simpa using hclear)).1, rfl⟩
  refine hafter.kept_or_answered
    (fun channel => channel.hasSender = true ∧ channel.shared.receiver = some waker) _ hfirst ?_
  intro front rest state next op output hsplit hfront hkept hstep
  have hreached := (hbefore.snoc hpoll).trans hfront
  have hother := hkeep (op, output) (by simp [hsplit])
  exact receiver_step (Holds.run hreached) (Holds.run (hreached.snoc hstep)) hstep hkept.1
    hkept.2 hother.1 hother.2

/-- A sender that a poll left pending has a receiver that is open, until it is woken. -/
theorem sender_waits_or_woken
    (hrun : Channel.system.Run Channel.new (before ++ (.pollClosed waker, polled) :: after) channel)
    (hpending : polled.answer = .pollClosed .pending)
    (hkeep : ∀ event ∈ after, pollsClosed event.1 = false ∧ event.1.endsSender = false) :
    (channel.shared.complete = false ∧ channel.shared.sender = some waker) ∨
      ∃ event ∈ after, waker ∈ event.2.woken := by
  obtain ⟨start, hbefore, hrest⟩ := hrun.split
  obtain ⟨middle, hpoll, hafter⟩ := hrest.first_step
  have hfirst : middle.shared.complete = false ∧ middle.shared.sender = some waker := by
    have hpolled := hpoll
    simp only [Channel.system, Channel.step, Outcome.when_eq_next, Sender.pollClosed] at hpolled
    obtain ⟨-, hpolled⟩ := hpolled
    split at hpolled
    · cases hpolled
      cases hpending
    · rename_i hclear
      cases hpolled
      exact ⟨by simpa using hclear, rfl⟩
  refine hafter.kept_or_answered
    (fun channel => channel.shared.complete = false ∧ channel.shared.sender = some waker) _
    hfirst ?_
  intro front rest state next op output hsplit hfront hkept hstep
  have hreached := (hbefore.snoc hpoll).trans hfront
  have hother := hkeep (op, output) (by simp [hsplit])
  exact sender_step (Holds.run hreached) (Holds.run (hreached.snoc hstep)) hstep hkept.1
    hkept.2 hother.1 hother.2

end Oneshot

end Platoon.Sync
