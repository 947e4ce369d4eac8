import Platoon.Runtime.Delivery
import Platoon.Runtime.Hosting
import Platoon.Runtime.JoinHandles
import Platoon.Sync.UnwokenWaiters

/-!
# Who waits when the loop parks

A task that is asleep when the loop is about to call `park` waits for something that
has not happened: for permits that are missing, for a guard that is alive, for the
other half of a channel, for a task that has not ended.
-/

namespace Platoon.Runtime

open Platoon.Foundation Platoon.Rust Platoon.Sync

variable {V : Type}

/-! ## Tasks that wait for tasks -/

namespace Executor

section Awaited

variable {executor last : Executor V} {op : Op V} {events : List (Observation V)} {task : Nat}
  {waker : Waker}

end Awaited

section Runs

variable {trace before after : List (Op V × List (Observation V))} {executor : Executor V}
  {task : Nat} {waker : Waker}

end Runs

section Examples

end Examples

end Executor

/-! ## Tasks that wait for permits, guards and messages -/

namespace Hosted

section Parked

variable {S : Type → Type} [Slab S] [Wakes Waker] {profile : Profile} {waker : Waker}
  {frames : List (Frame V)} {future : Nat}

/-- A loop parks only on acquires that lack permits: over every run of a semaphore and its
tasks, when a loop is about to call `park`, an acquire whose task is asleep since it left it
pending is not marked as woken, and the permits do not suffice for it if it is the oldest. -/
theorem parked_acquires_lack_permits (hexact : Wakes.Exact Waker) {initial : Nat}
    {hosted : Hosted V (Semaphore.State S Waker)}
    {trace before after : List (Op V (Semaphore.Op Waker) × Output V (Semaphore.Output Waker))}
    (hrun : (system (Semaphore.system profile) Semaphore.Output.woken).Run
      (new (Semaphore.State.new initial)) trace hosted)
    (htotal : initial + Semaphore.added (uses trace) ≤ profile.usizeMax)
    (hparks : hosted.executor.stack = .blockOn .park :: frames) {output : Semaphore.Output Waker}
    (htrace : trace = before ++ (.component (.poll future waker), .component output) :: after)
    (hpending : output.obtained = none)
    (hkeep : ∀ event ∈ uses after, event.1.uses future = false)
    (hasleep : hosted.executor.Asleep (history Semaphore.Output.woken trace)
      (history Semaphore.Output.woken after) waker) :
    ∃ permits, hosted.component.Unwoken future permits waker ∧
      (hosted.component.Oldest future → hosted.component.inner.permits < permits) := by
  have hquiet := not_woken_of_parks hrun hparks (htrace.trans (List.append_cons _ _ _)) hasleep
  have hcomponent := projects_component.run hrun
  have hsplit := hcomponent
  rw [← uses, uses_split htrace] at hsplit
  rcases Semaphore.unwoken_or_woken hexact hsplit hpending hkeep with
    ⟨permits, hunwoken⟩ | ⟨event, hmem, hwoken⟩
  · exact ⟨permits, hunwoken, Semaphore.oldest_lacks_permits hcomponent htotal hunwoken⟩
  · exact absurd hwoken (hquiet event hmem)

/-- A loop parks only on requests held back by guards: over every run of a lock and its tasks,
when a loop is about to call `park`, a request whose task is asleep since it left it pending is
not marked as woken, and if it is the oldest one, a guard that conflicts with it is alive. -/
theorem parked_requests_held_back (hexact : Wakes.Exact Waker) {lock : Lock}
    (hlock : lock = Mutex ∨ lock = RwLock profile) {hosted : Hosted V (Lock.State S Waker)}
    {trace before after : List (Op V (Lock.Op Waker) × Output V (Lock.Output Waker))}
    (hrun : (system (Lock.system profile lock) Lock.Output.woken).Run
      (new (Lock.State.new lock)) trace hosted)
    (hparks : hosted.executor.stack = .blockOn .park :: frames) {output : Lock.Output Waker}
    (htrace : trace = before ++ (.component (.poll future waker), .component output) :: after)
    (hpending : output.granted = none)
    (hkeep : ∀ event ∈ uses after, event.1.uses future = false)
    (hasleep : hosted.executor.Asleep (history Lock.Output.woken trace)
      (history Lock.Output.woken after) waker) :
    (∃ permits, hosted.component.semaphore.Unwoken future permits waker) ∧
      (hosted.component.semaphore.Oldest future →
        ∃ mode guard, hosted.component.requests future = some mode ∧
          guard ∈ hosted.component.alive ∧
          (mode.access = .exclusive ∨ guard.access = .exclusive)) := by
  have hquiet := not_woken_of_parks hrun hparks (htrace.trans (List.append_cons _ _ _)) hasleep
  have hcomponent := projects_component.run hrun
  have hsplit := hcomponent
  rw [← uses, uses_split htrace] at hsplit
  rcases Lock.unwoken_or_woken hexact hsplit hpending hkeep with
    ⟨permits, hunwoken⟩ | ⟨event, hmem, hwoken⟩
  · exact ⟨⟨permits, hunwoken⟩, Lock.oldest_held_back hlock hcomponent hunwoken⟩
  · exact absurd hwoken (hquiet event hmem)

omit [Wakes Waker] in
/-- A loop parks only on channels that can still deliver: over every run of a channel and its
tasks, when a loop is about to call `park`, a receiver that is asleep since its poll still has
a sender that will wake it, and a sender that is asleep since its `poll_closed` still has a
receiver, open, that will. -/
theorem parked_halves_have_partners {T : Type} {hosted : Hosted V (Oneshot.Channel T Waker)}
    {trace before after : List (Op V (Oneshot.Op T Waker) × Output V (Oneshot.Output T Waker))}
    (hrun : (system Oneshot.Channel.system Oneshot.Output.woken).Run
      (new Oneshot.Channel.new) trace hosted)
    (hparks : hosted.executor.stack = .blockOn .park :: frames) {op : Oneshot.Op T Waker}
    {output : Oneshot.Output T Waker}
    (htrace : trace = before ++ (.component op, .component output) :: after)
    (hasleep : hosted.executor.Asleep (history Oneshot.Output.woken trace)
      (history Oneshot.Output.woken after) waker) :
    (op = .poll waker → output.answer = .polled .pending →
      (∀ event ∈ uses after, Oneshot.polls event.1 = false ∧ event.1.dropsReceiver = false) →
      hosted.component.hasSender = true ∧ hosted.component.shared.receiver = some waker) ∧
    (op = .pollClosed waker → output.answer = .pollClosed .pending →
      (∀ event ∈ uses after, Oneshot.pollsClosed event.1 = false ∧ event.1.endsSender = false) →
      hosted.component.hasReceiver = true ∧ hosted.component.shared.complete = false ∧
        hosted.component.shared.sender = some waker) := by
  have hquiet := not_woken_of_parks hrun hparks (htrace.trans (List.append_cons _ _ _)) hasleep
  have hcomponent := projects_component.run hrun
  have hholds := Oneshot.Holds.run hcomponent
  rw [← uses, uses_split htrace] at hcomponent
  constructor
  · rintro rfl hpending hkeep
    rcases Oneshot.receiver_waits_or_woken hcomponent hpending hkeep with
      hwaits | ⟨event, hmem, hwoken⟩
    · exact hwaits
    · exact absurd hwoken (hquiet event hmem)
  · rintro rfl hpending hkeep
    rcases Oneshot.sender_waits_or_woken hcomponent hpending hkeep with
      ⟨hopen, hstored⟩ | ⟨event, hmem, hwoken⟩
    · exact ⟨(hholds.incomplete hopen).2, hopen, hstored⟩
    · exact absurd hwoken (hquiet event hmem)

end Parked

/-! ## Runs that park -/

section Examples

variable {ε ο : Type}

/-- A loop on its way into the poll of its only task. -/
def beforePoll : List (Op Nat ε × Output Nat ο) :=
  [(.executor (.spawn 0), .executor [.spawned 0]), (.executor .blockOn, .executor []),
    (.executor .advance, .executor [.mainPolled]), (.executor (.ret .pending), .executor []),
    (.executor .advance, .executor [.polled 0])]

/-- The task stays pending and the loop is about to call `park`. -/
def afterPoll : List (Op Nat ε × Output Nat ο) :=
  [(.executor (.ret .pending), .executor []), (.executor .advance, .executor []),
    (.executor .advance, .executor [])]

/-- What happened in between woke nobody: the task is asleep. -/
theorem asleep_afterPoll {woken : ο → List Waker} {executor : Executor Nat}
    (hsome : (executor.tasks 0).isSome = true) {middle : List (Op Nat ε × Output Nat ο)}
    (hmiddle : history woken middle = []) :
    executor.Asleep (history woken (beforePoll ++ middle ++ afterPoll))
      (history woken (afterPoll : List (Op Nat ε × Output Nat ο))) (.task 0) := by
  have hafter : history woken (afterPoll : List (Op Nat ε × Output Nat ο)) = [] := rfl
  have hobserved : history woken (beforePoll ++ middle ++ afterPoll) =
      [.spawned 0, .mainPolled, .polled 0] := by
    rw [history_append, history_append, hmiddle, hafter]
    rfl
  rw [hobserved, hafter]
  exact
    { wakeable := ⟨hsome, by simp, by simp⟩
      unpolled := by simp
      flag := by simp }

/-- An acquire of one permit from a semaphore without permits. -/
def acquireFromNone :
    List (Op Nat (Semaphore.Op Waker) × Output Nat (Semaphore.Output Waker)) :=
  [(.component (.acquire 0 1), .component { woken := [] })]

def acquirePoll : Op Nat (Semaphore.Op Waker) × Output Nat (Semaphore.Output Waker) :=
  (.component (.poll 0 (.task 0)), .component { woken := [] })

theorem parked_acquires_lack_permits_none :
    ∃ hosted : Hosted Nat (Semaphore.State FreeSlab Waker),
      hosted.executor.stack = [.blockOn .park] ∧
        ∃ permits, hosted.component.Unwoken 0 permits (.task 0) ∧
          (hosted.component.Oldest 0 → hosted.component.inner.permits < permits) := by
  have hexec : (system (Semaphore.system Profile.release) Semaphore.Output.woken).exec
      (new (Semaphore.State.new 0 : Semaphore.State FreeSlab Waker))
      ((beforePoll ++ (acquireFromNone ++ [acquirePoll]) ++ afterPoll).map Prod.fst) =
      some (beforePoll ++ (acquireFromNone ++ [acquirePoll]) ++ afterPoll, _) := rfl
  have htrace : beforePoll ++ (acquireFromNone ++ [acquirePoll]) ++ afterPoll =
      (beforePoll ++ acquireFromNone) ++ acquirePoll :: afterPoll := by simp
  exact ⟨_, rfl, parked_acquires_lack_permits Wakes.exact_byIdentity (System.exec_run hexec)
    (by decide) rfl htrace rfl (by simp [uses, afterPoll, componentEvents])
    (asleep_afterPoll rfl rfl)⟩

/-- A request for a `Mutex` that is locked. -/
def requestLocked : List (Op Nat (Lock.Op Waker) × Output Nat (Lock.Output Waker)) :=
  [(.component (.tryLock Mutex.tryLock), .component { granted := some Mutex.tryLock }),
    (.component (.request 0 Mutex.lock), .component { woken := [] })]

def requestPoll : Op Nat (Lock.Op Waker) × Output Nat (Lock.Output Waker) :=
  (.component (.poll 0 (.task 0)), .component { woken := [] })

theorem parked_requests_held_back_locked :
    ∃ hosted : Hosted Nat (Lock.State FreeSlab Waker),
      hosted.executor.stack = [.blockOn .park] ∧
        (∃ permits, hosted.component.semaphore.Unwoken 0 permits (.task 0)) ∧
        (hosted.component.semaphore.Oldest 0 →
          ∃ mode guard, hosted.component.requests 0 = some mode ∧
            guard ∈ hosted.component.alive ∧
            (mode.access = .exclusive ∨ guard.access = .exclusive)) := by
  have hexec : (system (Lock.system Profile.release Mutex) Lock.Output.woken).exec
      (new (Lock.State.new Mutex : Lock.State FreeSlab Waker))
      ((beforePoll ++ (requestLocked ++ [requestPoll]) ++ afterPoll).map Prod.fst) =
      some (beforePoll ++ (requestLocked ++ [requestPoll]) ++ afterPoll, _) := rfl
  have htrace : beforePoll ++ (requestLocked ++ [requestPoll]) ++ afterPoll =
      (beforePoll ++ requestLocked) ++ requestPoll :: afterPoll := by simp
  exact ⟨_, rfl, parked_requests_held_back Wakes.exact_byIdentity (.inl rfl)
    (System.exec_run hexec) rfl htrace rfl (by simp [uses, afterPoll, componentEvents])
    (asleep_afterPoll rfl rfl)⟩

/-- A receiver polls while the sender is alive. -/
def receiveEarly : Op Nat (Oneshot.Op Nat Waker) × Output Nat (Oneshot.Output Nat Waker) :=
  (.component (.poll (.task 0)), .component { answer := .polled .pending })

theorem parked_halves_have_partners_early :
    ∃ hosted : Hosted Nat (Oneshot.Channel Nat Waker),
      hosted.executor.stack = [.blockOn .park] ∧ hosted.component.hasSender = true ∧
        hosted.component.shared.receiver = some (.task 0) := by
  have hexec : (system Oneshot.Channel.system Oneshot.Output.woken).exec
      (new (Oneshot.Channel.new : Oneshot.Channel Nat Waker))
      ((beforePoll ++ [receiveEarly] ++ afterPoll).map Prod.fst) =
      some (beforePoll ++ [receiveEarly] ++ afterPoll, _) := rfl
  have htrace : beforePoll ++ [receiveEarly] ++ afterPoll =
      beforePoll ++ receiveEarly :: afterPoll := by simp
  exact ⟨_, rfl, (parked_halves_have_partners (System.exec_run hexec) rfl htrace
    (asleep_afterPoll rfl rfl)).1 rfl rfl (by simp [uses, afterPoll, componentEvents])⟩

end Examples

end Hosted

end Platoon.Runtime
