import Platoon.Runtime.Readiness

/-!
# `Async::poll_io`

The loop that tries an operation on a socket and asks the reactor when it would
block.  It has no counter: it turns again only when the reactor took back a
mark of readiness, and there is one mark for each direction.
-/

namespace Platoon.Net

open Platoon.Foundation Platoon.Rust Platoon.Sys Platoon.Runtime

/-- `io::ErrorKind`, as far as the sources tell kinds apart. -/
inductive ErrorKind where
  | WouldBlock
  | Interrupted
  | other
  deriving DecidableEq, Repr

/-- `io::Error`: that of a system call, or one made of a kind. -/
inductive Error where
  | os (errno : Errno)
  | simple (kind : ErrorKind)
  deriving DecidableEq, Repr

def EAGAIN : Errno := .other 11

def Error.kind : Error → ErrorKind
  | .os errno =>
      if errno = EAGAIN then .WouldBlock
      else if errno = .EINTR then .Interrupted
      else .other
  | .simple kind => kind

variable {S : Type → Type} [Slab S] {W R : Type}

/-- The results for which `poll_io` asks the reactor. -/
def blocks : Except Error R → Bool
  | .error error => decide (error.kind = .WouldBlock)
  | .ok _ => false

/-- A source that is registered with the reactor. -/
structure Async where
  id : Nat

/-- What the loop comes to: how often `f` was called, the reactor as the last call found
it and as the loop left it, the wakers that were invoked, and the result. -/
structure LoopOutcome (S : Type → Type) (W R : Type) where
  calls : Nat
  asked : Reactor Epoll S W
  reactor : Reactor Epoll S W
  woken : List W
  poll : Poll (Except Error R)

namespace Async

/-- The loop of `poll_io`, where `f` returns `f call` when it is called for that time. -/
def pollIo (faults : Faults) (async : Async) (direction : Direction) (f : Nat → Except Error R)
    (waker : W) : Nat → Nat → Reactor Epoll S W → Except Panic (LoopOutcome S W R)
  | 0, _, _ => .error .outOfFuel
  | fuel + 1, call, reactor =>
      if blocks (f call) then do
        let (last, woken, poll) ← reactor.pollReady faults async.id direction waker
        let settled (poll : Poll (Except Error R)) : LoopOutcome S W R :=
          { calls := call + 1, asked := reactor, reactor := last, woken, poll }
        match poll with
        | .ready (.error errno) => .ok (settled (.ready (.error (.os errno))))
        | .pending => .ok (settled .pending)
        | .ready (.ok ()) => do
            let rest ← async.pollIo faults direction f waker fuel (call + 1) last
            .ok { rest with woken := woken ++ rest.woken }
      else
        .ok { calls := call + 1, asked := reactor, reactor, woken := [], poll := .ready (f call) }

/-- There is a mark of readiness for the direction. -/
def Marked (reactor : Reactor Epoll S W) (key : Nat) (direction : Direction) : Prop :=
  ∃ source, Slab.get? reactor.sources key = some source ∧
    (source.interest direction).woke = true

section Asking

variable (faults : Faults) (waker : W) {reactor : Reactor Epoll S W} {key : Nat}
  {direction : Direction}

/-- Without a mark `poll_ready` does not let the caller try again. -/
theorem pollReady_unmarked (hlive : (Slab.get? reactor.sources key).isSome)
    (hmark : ¬ Marked reactor key direction) :
    ∃ last woken result, reactor.pollReady faults key direction waker =
      .ok (last, woken, result) ∧ result ≠ .ready (.ok ()) := by
  obtain ⟨source, hget⟩ := Option.isSome_iff_exists.mp hlive
  have hwoke : (source.interest direction).woke = false :=
    Bool.eq_false_iff.mpr fun hwoke => hmark ⟨source, hget, hwoke⟩
  simp only [Reactor.pollReady_epoll, hget, hwoke, Bool.false_eq_true, ↓reduceIte]
  split
  · exact ⟨_, _, _, rfl, by simp⟩
  · split
    · exact ⟨_, _, _, rfl, by simp⟩
    · exact ⟨_, _, _, rfl, by simp⟩

/-- With a mark `poll_ready` takes it back and does nothing else. -/
theorem pollReady_marked (hmark : Marked reactor key direction) :
    ∃ last, reactor.pollReady faults key direction waker = .ok (last, [], .ready (.ok ())) ∧
      (Slab.get? last.sources key).isSome ∧ ¬ Marked last key direction := by
  obtain ⟨source, hget, hwoke⟩ := hmark
  have hlast := Slab.get?_set reactor.sources key
    (source.setInterest direction { source.interest direction with woke := false }) key
    (by simp [hget])
  rw [if_pos rfl] at hlast
  refine ⟨{ reactor with sources := _ }, ?_, by rw [hlast]; rfl, ?_⟩
  · simp only [Reactor.pollReady_epoll, hget, hwoke, ↓reduceIte]
  · rintro ⟨source', hget', hwoke'⟩
    rw [hlast, Option.some.injEq] at hget'
    simp [← hget'] at hwoke'

end Asking

/-! ## The loop -/

/-- How the loop ends.  It returns the last result of `f`, which does not block, or the
error of a registration that failed; or it is pending, where `f` would block when no mark
was left, and the waker is stored. -/
structure Settled (faults : Faults) (async : Async) (direction : Direction)
    (f : Nat → Except Error R) (waker : W) (outcome : LoopOutcome S W R) : Prop where
  ready : ∀ result, outcome.poll = .ready result →
    (result = f (outcome.calls - 1) ∧ blocks result = false) ∨
      ∃ errno, result = .error (.os errno) ∧
        outcome.asked.pollReady faults async.id direction waker =
          .ok (outcome.reactor, outcome.woken, .ready (.error errno))
  pending : outcome.poll = .pending →
    blocks (f (outcome.calls - 1)) = true ∧ ¬ Marked outcome.asked async.id direction ∧
      outcome.reactor.Waiting async.id direction waker

section Loop

variable (faults : Faults) (async : Async) (direction : Direction) {f : Nat → Except Error R}
  (waker : W) (reactor : Reactor Epoll S W)

/-- A turn in which `f` does not block is the last one. -/
theorem settled_of_not_blocks {call : Nat} (hresult : blocks (f call) = false) :
    ∃ outcome : LoopOutcome S W R,
      (∀ fuel, async.pollIo faults direction f waker (fuel + 1) call reactor = .ok outcome) ∧
        outcome.calls = call + 1 ∧ outcome.asked = reactor ∧
        Settled faults async direction f waker outcome := by
  refine ⟨⟨call + 1, reactor, reactor, [], .ready (f call)⟩,
    fun fuel => by simp [pollIo, hresult], rfl, rfl, ⟨?_, by simp⟩⟩
  intro result hready
  cases hready
  exact .inl ⟨rfl, hresult⟩

/-- A turn that starts without a mark is the last one. -/
theorem settled_of_unmarked {call : Nat} (hlive : (Slab.get? reactor.sources async.id).isSome)
    (hmark : ¬ Marked reactor async.id direction) :
    ∃ outcome : LoopOutcome S W R,
      (∀ fuel, async.pollIo faults direction f waker (fuel + 1) call reactor = .ok outcome) ∧
        outcome.calls = call + 1 ∧ outcome.asked = reactor ∧
        Settled faults async direction f waker outcome := by
  cases hblocks : blocks (f call) with
  | false => exact settled_of_not_blocks faults async direction waker reactor hblocks
  | true =>
      obtain ⟨last, woken, answer, hpoll, hdone⟩ :=
        pollReady_unmarked faults waker hlive hmark
      cases answer with
      | pending =>
          exact ⟨⟨call + 1, reactor, last, woken, .pending⟩,
            fun fuel => by simp [pollIo, hblocks, hpoll], rfl, rfl,
            ⟨by simp, fun _ => ⟨hblocks, hmark, Reactor.waiting_of_pending hpoll⟩⟩⟩
      | ready answer =>
          cases answer with
          | ok value => exact absurd rfl hdone
          | error errno =>
              refine ⟨⟨call + 1, reactor, last, woken, .ready (.error (.os errno))⟩,
                fun fuel => by simp [pollIo, hblocks, hpoll], rfl, rfl, ⟨?_, by simp⟩⟩
              intro result hready
              cases hready
              exact .inr ⟨errno, rfl, hpoll⟩

/-- The loop turns a second time exactly after it took back a mark, and then no more. -/
theorem settled_of_live (hlive : (Slab.get? reactor.sources async.id).isSome) :
    ∃ outcome : LoopOutcome S W R,
      (∀ fuel, async.pollIo faults direction f waker (fuel + 2) 0 reactor = .ok outcome) ∧
        (outcome.calls = 1 ∧ outcome.asked = reactor ∨
          outcome.calls = 2 ∧ reactor.pollReady faults async.id direction waker =
            .ok (outcome.asked, [], .ready (.ok ()))) ∧
        Settled faults async direction f waker outcome := by
  by_cases hmark : Marked reactor async.id direction
  · cases hblocks : blocks (f 0) with
    | false =>
        obtain ⟨outcome, hloop, hcalls, hasked, hsettled⟩ :=
          settled_of_not_blocks faults async direction waker reactor hblocks
        exact ⟨outcome, fun fuel => hloop (fuel + 1), .inl ⟨hcalls, hasked⟩, hsettled⟩
    | true =>
        obtain ⟨middle, hpoll, hmiddle, hgone⟩ :=
          pollReady_marked faults waker hmark
        obtain ⟨outcome, hloop, hcalls, hasked, hsettled⟩ :=
          settled_of_unmarked faults async direction waker middle hmiddle hgone
        refine ⟨outcome, fun fuel => ?_, .inr ⟨hcalls, hasked ▸ hpoll⟩, hsettled⟩
        rw [pollIo, if_pos hblocks, hpoll, ok_bind]
        simp [hloop fuel]
  · obtain ⟨outcome, hloop, hcalls, hasked, hsettled⟩ :=
      settled_of_unmarked faults async direction waker reactor hlive hmark
    exact ⟨outcome, fun fuel => hloop (fuel + 1), .inl ⟨hcalls, hasked⟩, hsettled⟩

/-- The loop does to the reactor what its calls of `poll_ready` do. -/
theorem pollIo_run {fuel call : Nat} {outcome : LoopOutcome S W R}
    (hloop : async.pollIo faults direction f waker fuel call reactor = .ok outcome) :
    ∃ trace, Reactor.system.Run reactor trace outcome.reactor ∧
      ∀ event ∈ trace, event.1 = { op := .pollReady async.id direction waker, faults } := by
  induction fuel generalizing call reactor outcome with
  | zero => cases hloop
  | succ fuel ih =>
      rw [pollIo] at hloop
      split at hloop
      · cases hpoll : reactor.pollReady faults async.id direction waker with
        | error reason => simp [hpoll] at hloop
        | ok result =>
            obtain ⟨last, woken, answer⟩ := result
            have hstep : Reactor.system.step reactor
                { op := .pollReady async.id direction waker, faults } =
                  .next last { woken, answer := .polled answer } := by
              simp [Reactor.system, Reactor.step, hpoll]
            simp only [hpoll, ok_bind] at hloop
            split at hloop
            · cases hloop
              exact ⟨_, .single hstep, by simp⟩
            · cases hloop
              exact ⟨_, .single hstep, by simp⟩
            · obtain ⟨rest, hrest, heq⟩ := ok_of_bind hloop
              cases heq
              obtain ⟨trace, hrun, hops⟩ := ih last hrest
              exact ⟨_, (System.Run.single hstep).trans hrun, by simpa using hops⟩
      · cases hloop
        exact ⟨[], .refl, by simp⟩

end Loop

/-! ## Sources that stay registered -/

section Live

variable {faults : Faults} {reactor last : Reactor Epoll S W} {key : Nat}
  {call : Reactor.Call Epoll W} {output : Reactor.Output Epoll W}

theorem live_handleEvents {events : List Event} {wakers handed : List W}
    {result : Except Errno Unit} (hlive : (Slab.get? reactor.sources key).isSome)
    (hevents : reactor.handleEvents faults wakers events = (last, handed, result)) :
    (Slab.get? last.sources key).isSome := by
  induction events generalizing reactor wakers with
  | nil =>
      cases hevents
      exact hlive
  | cons e events ih =>
      rcases hevent : reactor.handleEvent faults e wakers with ⟨middle, taken, answer⟩
      have hmiddle : (Slab.get? middle.sources key).isSome := by
        by_cases heq : key = e.key
        · subst heq
          obtain ⟨source, hget⟩ := Option.isSome_iff_exists.mp hlive
          rw [Reactor.get?_handled hget hevent]
          rfl
        · rwa [Reactor.get?_handleEvent hevent heq]
      simp only [Reactor.handleEvents, hevent] at hevents
      cases answer with
      | error errno =>
          cases hevents
          exact hmiddle
      | ok value => exact ih hmiddle hevents

theorem live_pollReady {target : Nat} {direction : Direction} {waker : W} {woken : List W}
    {result : Poll (Except Errno Unit)} (hlive : (Slab.get? reactor.sources key).isSome)
    (hpoll : reactor.pollReady faults target direction waker = .ok (last, woken, result)) :
    (Slab.get? last.sources key).isSome := by
  cases hget : Slab.get? reactor.sources target with
  | none => simp [Reactor.pollReady_epoll, hget] at hpoll
  | some source =>
      have hwrite : ∀ source',
          (Slab.get? (Slab.set reactor.sources target source') key).isSome := by
        intro source'
        rw [Slab.get?_set _ _ _ _ (by simp [hget])]
        split
        · rfl
        · exact hlive
      simp only [Reactor.pollReady_epoll, hget] at hpoll
      split at hpoll
      · cases hpoll
        exact hwrite _
      · split at hpoll
        · cases hpoll
          exact hwrite _
        · split at hpoll <;> cases hpoll <;> exact hwrite _

/-- A source stays registered until it is removed. -/
theorem live_step (hlive : (Slab.get? reactor.sources key).isSome)
    (hstep : Reactor.system.step reactor call = .next last output)
    (hkeep : call.op ≠ .removeSource key) : (Slab.get? last.sources key).isSome := by
  have htransition := Reactor.step_transition hstep
  generalize call.op = op at htransition hkeep
  cases htransition with
  | insertSource hinsert => rwa [Reactor.get?_insertSource hinsert hlive]
  | @removeSource target _ _ hremove =>
      have hne : key ≠ target := by
        rintro rfl
        exact hkeep rfl
      rwa [Reactor.get?_removeSource hremove hne]
  | pollReady hpoll => exact live_pollReady hlive hpoll
  | @poll _ _ poller _ _ _ _ hanswer hpoll =>
      have hmiddle : (Slab.get? ({ reactor with poller } : Reactor Epoll S W).sources key).isSome :=
        hlive
      rcases Reactor.poll_cases hpoll with ⟨rfl, -⟩ | ⟨events, hevents⟩
      · exact hmiddle
      · exact live_handleEvents hmiddle hevents

/-- Only a successful `insert_source` answers with a key, and it registers the source. -/
theorem live_of_inserted (hstep : Reactor.system.step reactor call = .next last output)
    (hinserted : output.answer = .inserted (.ok key)) :
    (Slab.get? last.sources key).isSome := by
  have htransition := Reactor.step_transition hstep
  generalize call.op = op at htransition
  cases htransition with
  | insertSource hinsert =>
      cases hinserted
      simp only [Reactor.insertSource_epoll] at hinsert
      split at hinsert
      · cases hinsert
      · cases hinsert
        simp
  | _ => cases hinserted

end Live

/-- The source of an `Async` was registered, and was not removed since. -/
def Open (async : Async) (trace : List (Reactor.Call Epoll W × Reactor.Output Epoll W)) : Prop :=
  ∃ before call output after, trace = before ++ (call, output) :: after ∧
    output.answer = .inserted (.ok async.id) ∧
    ∀ event ∈ after, event.1.op ≠ .removeSource async.id

section Runs

variable {reactor : Reactor Epoll S W}
  {trace : List (Reactor.Call Epoll W × Reactor.Output Epoll W)} {async : Async}

theorem live_of_open (hrun : Reactor.system.Run Reactor.new trace reactor)
    (hopen : async.Open trace) : (Slab.get? reactor.sources async.id).isSome := by
  obtain ⟨before, call, output, after, rfl, hinserted, hkeep⟩ := hopen
  obtain ⟨first, -, hrest⟩ := hrun.split
  obtain ⟨middle, hstep, hafter⟩ := hrest.first_step
  refine hafter.invariant (fun after reactor =>
    (∀ event ∈ after, event.1.op ≠ .removeSource async.id) →
      (Slab.get? reactor.sources async.id).isSome)
    (fun _ => live_of_inserted hstep hinserted) ?_ hkeep
  intro after middle last call output _ ih hstep hkeep
  have hmiddle := ih fun event hmem => hkeep event (List.mem_append_left _ hmem)
  exact live_step hmiddle hstep (hkeep (call, output) (by simp))

/-- In every state that a reactor reaches while the source is registered, whatever `f`
returns and whichever registrations fail: the loop of `poll_io` ends after at most two
calls of `f`, the second one after the reactor took back a mark.  It never returns an
error of `f` that would block, and it is pending only when the last call of `f` would
block with no mark left, and the caller's waker is stored for the source and the
direction; and the reactor it leaves is reached too. -/
theorem pollIo_settles (hrun : Reactor.system.Run Reactor.new trace reactor)
    (hopen : async.Open trace) (faults : Faults) (direction : Direction)
    (f : Nat → Except Error R) (waker : W) :
    ∃ outcome : LoopOutcome S W R,
      (∀ fuel, async.pollIo faults direction f waker (fuel + 2) 0 reactor = .ok outcome) ∧
        (outcome.calls = 1 ∧ outcome.asked = reactor ∨
          outcome.calls = 2 ∧ reactor.pollReady faults async.id direction waker =
            .ok (outcome.asked, [], .ready (.ok ()))) ∧
        Settled faults async direction f waker outcome ∧
        ∃ rest, Reactor.system.Run Reactor.new (trace ++ rest) outcome.reactor := by
  obtain ⟨outcome, hloop, hcalls, hsettled⟩ := settled_of_live faults async direction waker
    reactor (live_of_open hrun hopen)
  obtain ⟨rest, hrest, -⟩ := pollIo_run faults async direction waker reactor (hloop 0)
  exact ⟨outcome, hloop, hcalls, hsettled, rest, hrun.trans hrest⟩

end Runs

/-- A reader was woken by an event, which left its mark. -/
def readerWoken : List (Reactor.Call Epoll Nat × Reactor.Output Epoll Nat) :=
  [({ op := .insertSource 5 }, { answer := .inserted (.ok 0) }),
    ({ op := .pollReady 0 .read 7 }, { answer := .polled .pending }),
    ({ op := .poll none (.ok [(5, EPOLLIN)]) },
      { handed := [7], answer := .waited (-1 : Int) (.ok ()) })]

/-- A read that would block twice, on a source with a mark from an earlier event. -/
theorem pollIo_settles_staleMark :
    ∃ (reactor : Reactor Epoll FreeSlab Nat) (outcome : LoopOutcome FreeSlab Nat Nat),
      Marked reactor 0 .read ∧
        (Async.mk 0).pollIo [] .read (fun _ => .error (.os EAGAIN)) 8 2 0 reactor = .ok outcome ∧
        outcome.calls = 2 ∧ outcome.poll = .pending ∧ ¬ Marked outcome.asked 0 .read ∧
        outcome.reactor.Waiting 0 .read 8 := by
  have hrun : Reactor.system.Run (Reactor.new : Reactor Epoll FreeSlab Nat) readerWoken _ :=
    (Reactor.registered_run.snoc rfl).snoc rfl
  have hopen : (Async.mk 0).Open readerWoken := ⟨[], _, _, _, rfl, rfl, by simp⟩
  obtain ⟨outcome, hloop, -, hsettled, -⟩ :=
    pollIo_settles hrun hopen [] .read (fun _ => (.error (.os EAGAIN) : Except Error Nat)) 8
  have hend : outcome.calls = 2 ∧ outcome.poll = .pending := by
    cases hloop 0
    exact ⟨rfl, rfl⟩
  obtain ⟨-, hmark, hwaiting⟩ := hsettled.pending hend.2
  exact ⟨_, outcome, ⟨_, rfl, rfl⟩, hloop 0, hend.1, hend.2, hmark, hwaiting⟩

end Async

end Platoon.Net
