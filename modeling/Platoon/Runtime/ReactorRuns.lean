import Platoon.Runtime.Interests
import Platoon.Runtime.Waiters

/-!
# Runs of the reactor

By the agreement of the tables, no task waits for a direction that the kernel is not
armed for.
-/

namespace Platoon.Runtime

open Platoon.Foundation Platoon.Rust Platoon.Sys

variable {S : Type → Type} [Slab S] {W : Type}

namespace Reactor

/-- The kernel reports the direction of the source under the key when it is ready. -/
def Armed (reactor : Reactor Epoll S W) (key : Nat) (direction : Direction) : Prop :=
  ∃ source registration, Slab.get? reactor.sources key = some source ∧
    reactor.poller.table source.raw = some registration ∧
    registration.event.u64 = key ∧ registration.interested direction.bit = true

/-- The reactor without injected faults of `epoll_ctl`. -/
def faultless : System Panic (Reactor Epoll S W) (Call Epoll W) (Output Epoll W) :=
  system.restrict fun _ call => call.faults.isEmpty

section Runs

variable {reactor last : Reactor Epoll S W} {call : Call Epoll W} {output : Output Epoll W}
  {trace : List (Call Epoll W × Output Epoll W)}

theorem agrees_step (hagrees : Agrees [] reactor.poller reactor.sources)
    (hstep : faultless.step reactor call = .next last output) :
    Agrees [] last.poller last.sources := by
  obtain ⟨op, faults⟩ := call
  obtain ⟨hfaultless, hstep⟩ := System.restrict_step.mp hstep
  obtain rfl : faults = [] := List.isEmpty_iff.mp hfaultless
  have htransition := step_transition hstep
  cases htransition with
  | insertSource hinsert => exact hagrees.insertSource _ hinsert
  | removeSource hremove => exact hagrees.removeSource hremove
  | pollReady hpoll => exact hagrees.pollReady hpoll
  | poll hanswer hpoll =>
      have hlast := hagrees.poll hanswer []
      rwa [hpoll] at hlast

/-- The tables of a faultless run agree. -/
theorem run_agrees (hrun : faultless.Run (Reactor.new : Reactor Epoll S W) trace reactor) :
    Agrees [] reactor.poller reactor.sources :=
  hrun.preserves (fun reactor => Agrees [] reactor.poller reactor.sources) Agrees.new agrees_step

/-- A task that waits is armed for. -/
theorem armed_of_waiting (hagrees : Agrees [] reactor.poller reactor.sources) {key : Nat}
    {direction : Direction} {waker : W} (hwaiting : reactor.Waiting key direction waker) :
    reactor.Armed key direction := by
  obtain ⟨source, hget, hpoller⟩ := hwaiting
  obtain ⟨registration, htable, hkey, hfollows⟩ := hagrees.registered hget
  rw [Follows, if_neg List.not_mem_nil] at hfollows
  exact ⟨source, registration, hget, htable, hkey, by
    simp [hfollows direction, Interest.hasPoller, hpoller]⟩

/-- A waker that is stored when a run starts is still stored when it ends, or was
released, unless the source was removed. -/
theorem waiting_run (hrun : system.Run reactor trace last) {key : Nat} {direction : Direction}
    {waker : W} (hwaiting : reactor.Waiting key direction waker)
    (hkeep : ∀ event ∈ trace, event.1.op ≠ .removeSource key) :
    last.Waiting key direction waker ∨ ∃ event ∈ trace, waker ∈ event.2.released := by
  refine hrun.invariant (fun trace reactor =>
    (∀ event ∈ trace, event.1.op ≠ .removeSource key) →
      reactor.Waiting key direction waker ∨ ∃ event ∈ trace, waker ∈ event.2.released)
    (fun _ => .inl hwaiting) ?_ hkeep
  intro trace middle last call output _ ih hstep hkeep
  rcases ih (fun event hmem => hkeep event (List.mem_append_left _ hmem)) with
    hmiddle | ⟨event, hmem, hreleased⟩
  · rcases waiting_step hmiddle hstep (hkeep (call, output) (by simp)) with hlast | hreleased
    · exact .inl hlast
    · exact .inr ⟨(call, output), by simp, hreleased⟩
  · exact .inr ⟨event, List.mem_append_left _ hmem, hreleased⟩

/-- Over every faultless run: keys and registrations correspond one to one, each source
is armed for exactly the directions with a stored waker, and a task whose `poll_ready`
was pending is still registered and armed for, or its waker was invoked or handed out. -/
theorem interests_follow_waiters
    (hrun : faultless.Run (Reactor.new : Reactor Epoll S W) trace reactor) :
    (∀ key source, Slab.get? reactor.sources key = some source →
      ∃ registration, reactor.poller.table source.raw = some registration ∧
        registration.event.u64 = key ∧
        ∀ direction, registration.interested direction.bit = true ↔
          (source.interest direction).poller.isSome = true) ∧
      (∀ fd registration, reactor.poller.table fd = some registration →
        ∃ source, Slab.get? reactor.sources registration.event.u64 = some source ∧
          source.raw = fd) ∧
      ∀ before call output after key direction waker,
        trace = before ++ (call, output) :: after →
        call.op = .pollReady key direction waker → output.answer = .polled .pending →
        (∀ event ∈ after, event.1.op ≠ .removeSource key) →
        (reactor.Waiting key direction waker ∧ reactor.Armed key direction) ∨
          ∃ event ∈ after, waker ∈ event.2.released := by
  have hagrees := run_agrees hrun
  refine ⟨fun key source hget => ?_, fun fd registration htable => hagrees.owned htable, ?_⟩
  · obtain ⟨registration, htable, hkey, hfollows⟩ := hagrees.registered hget
    rw [Follows, if_neg List.not_mem_nil] at hfollows
    exact ⟨registration, htable, hkey, fun direction => by rw [hfollows direction]; rfl⟩
  · rintro before ⟨op, faults⟩ output after key direction waker rfl rfl hpending hkeep
    obtain ⟨start, -, hrest⟩ := hrun.of_restrict.split
    obtain ⟨middle, hstep, hafter⟩ := hrest.first_step
    have htransition : Transition faults start (.pollReady key direction waker) middle output :=
      step_transition hstep
    cases htransition with
    | pollReady hpoll =>
        cases hpending
        rcases waiting_run hafter (waiting_of_pending hpoll) hkeep with hwaiting | hreleased
        · exact .inl ⟨hwaiting, armed_of_waiting hagrees hwaiting⟩
        · exact .inr hreleased

end Runs

/-- A reader and a writer wait for one descriptor, which then becomes writable. -/
def halfDuplex : List (Call Epoll Nat) :=
  [{ op := .insertSource 5 }, { op := .pollReady 0 .read 7 }, { op := .pollReady 0 .write 8 },
    { op := .poll none (.ok [(5, EPOLLOUT)]) }]

theorem halfDuplex_run :
    ∃ trace reactor, faultless.Run (Reactor.new : Reactor Epoll FreeSlab Nat) trace reactor ∧
      Slab.get? reactor.sources 0 = some ⟨5, ⟨some 7, false⟩, ⟨none, true⟩⟩ := by
  have hcheck : (faultless.exec (Reactor.new : Reactor Epoll FreeSlab Nat) halfDuplex).any
      (fun result => decide (Slab.get? result.2.sources 0 =
        some ⟨5, ⟨some 7, false⟩, ⟨none, true⟩⟩)) = true := by decide
  obtain ⟨trace, reactor, hrun, hpass⟩ := System.exec_check hcheck
  exact ⟨trace, reactor, hrun, of_decide_eq_true hpass⟩

theorem interests_follow_waiters_halfDuplex :
    ∃ trace reactor registration,
      faultless.Run (Reactor.new : Reactor Epoll FreeSlab Nat) trace reactor ∧
        reactor.poller.table 5 = some registration ∧
        registration.interested EPOLLIN = true ∧ registration.interested EPOLLOUT ≠ true := by
  obtain ⟨trace, reactor, hrun, hget⟩ := halfDuplex_run
  obtain ⟨hregistered, -, -⟩ := interests_follow_waiters hrun
  obtain ⟨registration, htable, -, hinterests⟩ := hregistered 0 _ hget
  refine ⟨trace, reactor, registration, hrun, htable, (hinterests .read).mpr rfl, ?_⟩
  intro hwrite
  cases (hinterests .write).mp hwrite

end Reactor

end Platoon.Runtime
