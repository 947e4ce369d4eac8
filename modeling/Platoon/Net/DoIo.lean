import Platoon.Net.Readiness

/-!
# `Async::do_io`

The future of `do_io` tries an operation, and awaits readiness when it would block.
Unlike `poll_io` it goes on where it waits: polled without a mark of readiness it
does not try again.  So it tries once, and once more for each mark.
-/

namespace Platoon.Net

open Platoon.Foundation Platoon.Rust Platoon.Sys Platoon.Runtime

/-- Where the future stands, with how often it has called `f`. -/
inductive DoIo where
  | start
  /-- In the `await` for readiness. -/
  | awaiting (calls : Nat)
  | returned (calls : Nat)
  deriving DecidableEq, Repr

namespace DoIo

variable {S : Type → Type} [Slab S] {W R : Type}

def calls : DoIo → Nat
  | .start => 0
  | .awaiting calls | .returned calls => calls

def started : DoIo → Nat
  | .start => 0
  | .awaiting _ | .returned _ => 1

/-- Where the future stands when its loop came to an outcome. -/
def settle (outcome : LoopOutcome S W R) : DoIo :=
  match outcome.poll with
  | .pending => .awaiting outcome.calls
  | .ready _ => .returned outcome.calls

omit [Slab S] in
theorem started_le_one (future : DoIo) : future.started ≤ 1 := by
  cases future <;> simp [started]

omit [Slab S] in
@[simp] theorem calls_settle (outcome : LoopOutcome S W R) :
    (settle outcome).calls = outcome.calls := by
  unfold settle
  split <;> rfl

omit [Slab S] in
@[simp] theorem started_settle (outcome : LoopOutcome S W R) : (settle outcome).started = 1 := by
  unfold settle
  split <;> rfl

/-- Poll the future, where `f` returns `f call` when it is called for that time.  From its
start it does what `poll_io` does. -/
def poll (faults : Faults) (async : Async) (direction : Direction) (f : Nat → Except Error R)
    (waker : W) (fuel : Nat) (future : DoIo) (reactor : Reactor Epoll S W) :
    Except Panic (LoopOutcome S W R) :=
  match future with
  | .start => async.pollIo faults direction f waker fuel 0 reactor
  | .awaiting calls => do
      let (last, woken, ready) ← reactor.pollReady faults async.id direction waker
      match ready with
      | .pending => .ok { calls, asked := reactor, reactor := last, woken, poll := .pending }
      | .ready (.error errno) =>
          .ok { calls, asked := reactor, reactor := last, woken,
                poll := .ready (.error (.os errno)) }
      | .ready (.ok ()) => do
          let rest ← async.pollIo faults direction f waker fuel calls last
          .ok { rest with woken := woken ++ rest.woken }
  | .returned _ => .error .resumedAfterCompletion

/-- All results of `f` would block, up to the last one of a future that returned. -/
def Blocked (f : Nat → Except Error R) : DoIo → Prop
  | .start => True
  | .awaiting calls => 1 ≤ calls ∧ ∀ call < calls, blocks (f call) = true
  | .returned calls => ∀ call, call + 1 < calls → blocks (f call) = true

section Poll

variable {faults : Faults} {async : Async} {direction : Direction} {f : Nat → Except Error R}
  {waker : W} {fuel call : Nat} {future : DoIo} {reactor : Reactor Epoll S W}
  {outcome : LoopOutcome S W R}

/-- Each turn of the loop of `poll_io` but the first takes back a mark. -/
theorem pollIo_budget
    (hloop : async.pollIo faults direction f waker fuel call reactor = .ok outcome) :
    outcome.calls + Async.marks outcome.reactor async.id direction ≤
      call + 1 + Async.marks reactor async.id direction := by
  induction fuel generalizing call reactor outcome with
  | zero => cases hloop
  | succ fuel ih =>
      rw [Async.pollIo] at hloop
      split at hloop
      · cases hpoll : reactor.pollReady faults async.id direction waker with
        | error reason => simp [hpoll] at hloop
        | ok result =>
            obtain ⟨last, woken, ready⟩ := result
            obtain ⟨hlast, hmark⟩ := Async.marks_pollReady hpoll
            simp only [hpoll, ok_bind] at hloop
            split at hloop
            · cases hloop
              simp only
              omega
            · cases hloop
              simp only
              omega
            · obtain ⟨rest, hrest, heq⟩ := ok_of_bind hloop
              cases heq
              have hlater := ih hrest
              rw [if_pos rfl] at hmark
              simp only
              omega
      · cases hloop
        simp only
        omega

/-- The future that awaits readiness asks for it, and goes on in its loop when it is let. -/
theorem poll_awaiting
    (hpoll : poll faults async direction f waker fuel (.awaiting call) reactor = .ok outcome) :
    ∃ last woken ready, reactor.pollReady faults async.id direction waker =
        .ok (last, woken, ready) ∧
      ((ready ≠ .ready (.ok ()) ∧ outcome.calls = call ∧ outcome.reactor = last) ∨
        (ready = .ready (.ok ()) ∧ ∃ rest, async.pollIo faults direction f waker fuel call last =
          .ok rest ∧ outcome = { rest with woken := woken ++ rest.woken })) := by
  cases hready : reactor.pollReady faults async.id direction waker with
  | error reason => simp [poll, hready] at hpoll
  | ok result =>
      obtain ⟨last, woken, ready⟩ := result
      refine ⟨last, woken, ready, rfl, ?_⟩
      simp only [poll, hready, ok_bind] at hpoll
      split at hpoll
      · cases hpoll
        exact .inl ⟨by simp, rfl, rfl⟩
      · cases hpoll
        exact .inl ⟨by simp, rfl, rfl⟩
      · obtain ⟨rest, hrest, heq⟩ := ok_of_bind hpoll
        exact .inr ⟨rfl, rest, hrest, heq.symm⟩

/-- A poll pays for every call of `f` but the first of all with a mark. -/
theorem poll_budget
    (hpoll : future.poll faults async direction f waker fuel reactor = .ok outcome) :
    outcome.calls + Async.marks outcome.reactor async.id direction + future.started ≤
      future.calls + 1 + Async.marks reactor async.id direction := by
  cases future with
  | start => exact pollIo_budget hpoll
  | awaiting calls =>
      rcases poll_awaiting hpoll with ⟨last, woken, ready, hready, hstay⟩
      obtain ⟨hlast, hmark⟩ := Async.marks_pollReady hready
      simp only [DoIo.calls, started]
      rcases hstay with ⟨hne, hcalls, hreactor⟩ | ⟨rfl, rest, hrest, rfl⟩
      · rw [if_neg hne] at hmark
        rw [hreactor, hcalls]
        omega
      · have hlater := pollIo_budget hrest
        rw [if_pos rfl] at hmark
        simp only
        omega
  | returned calls => cases hpoll

/-- The loop goes on exactly after results that would block. -/
theorem pollIo_blocked
    (hloop : async.pollIo faults direction f waker fuel call reactor = .ok outcome) :
    call < outcome.calls ∧
      (∀ earlier, call ≤ earlier → earlier + 1 < outcome.calls → blocks (f earlier) = true) ∧
      (outcome.poll = .pending → blocks (f (outcome.calls - 1)) = true) := by
  induction fuel generalizing call reactor outcome with
  | zero => cases hloop
  | succ fuel ih =>
      rw [Async.pollIo] at hloop
      split at hloop
      · rename_i hblocks
        cases hpoll : reactor.pollReady faults async.id direction waker with
        | error reason => simp [hpoll] at hloop
        | ok result =>
            obtain ⟨last, woken, ready⟩ := result
            simp only [hpoll, ok_bind] at hloop
            split at hloop
            · cases hloop
              exact ⟨by simp, by simp; omega, by simp⟩
            · cases hloop
              exact ⟨by simp, by simp; omega, fun _ => hblocks⟩
            · obtain ⟨rest, hrest, heq⟩ := ok_of_bind hloop
              cases heq
              obtain ⟨hlater, hbetween, hlast⟩ := ih hrest
              refine ⟨Nat.lt_of_succ_lt hlater, fun earlier hfrom hto => ?_, hlast⟩
              rcases Nat.eq_or_lt_of_le hfrom with rfl | hafter
              · exact hblocks
              · exact hbetween earlier hafter hto
      · cases hloop
        exact ⟨by simp, by simp; omega, by simp⟩

/-- A poll goes on exactly after results that would block. -/
theorem poll_blocked (hblocked : future.Blocked f)
    (hpoll : future.poll faults async direction f waker fuel reactor = .ok outcome) :
    (settle outcome).Blocked f := by
  have hsettle : ∀ {call : Nat} {first : Reactor Epoll S W} {rest : LoopOutcome S W R},
      (∀ earlier < call, blocks (f earlier) = true) →
      async.pollIo faults direction f waker fuel call first = .ok rest →
      rest.calls = outcome.calls → rest.poll = outcome.poll → (settle outcome).Blocked f := by
    intro call first rest hbefore hloop hcalls hend
    obtain ⟨hlater, hbetween, hlast⟩ := pollIo_blocked hloop
    rw [hcalls] at hlater hbetween hlast
    have hearlier : ∀ earlier, earlier + 1 < outcome.calls → blocks (f earlier) = true := by
      intro earlier hto
      rcases Nat.lt_or_ge earlier call with hlt | hge
      · exact hbefore earlier hlt
      · exact hbetween earlier hge hto
    unfold settle
    cases hpending : outcome.poll with
    | ready result => exact hearlier
    | pending =>
        refine ⟨by omega, fun earlier hlt => ?_⟩
        rcases Nat.eq_or_lt_of_le (Nat.le_sub_one_of_lt hlt) with rfl | hto
        · exact hlast (hend.trans hpending)
        · exact hearlier earlier (by omega)
  cases future with
  | start => exact hsettle (by simp) hpoll rfl rfl
  | awaiting calls =>
      obtain ⟨last, woken, ready, -, hstay⟩ := poll_awaiting hpoll
      rcases hstay with ⟨-, hcalls, -⟩ | ⟨-, rest, hrest, rfl⟩
      · unfold settle
        cases outcome.poll with
        | ready result => exact fun call hto => hblocked.2 call (by omega)
        | pending => exact hcalls ▸ hblocked
      · exact hsettle hblocked.2 hrest rfl rfl
  | returned calls => cases hpoll

/-- A poll of a future that has not returned comes to its end.  A future that awaits
readiness tries again exactly when it takes back a mark. -/
theorem poll_settles (hlive : (Slab.get? reactor.sources async.id).isSome)
    (hblocked : future.Blocked f) (hnot : ∀ calls, future ≠ .returned calls) :
    ∃ outcome : LoopOutcome S W R,
      (∀ fuel, future.poll faults async direction f waker (fuel + 2) reactor = .ok outcome) ∧
        (future.started = 1 →
          outcome.calls = future.calls + Async.marks reactor async.id direction) ∧
        Async.Settled faults async direction f waker outcome := by
  cases future with
  | start =>
      obtain ⟨outcome, hloop, -, hsettled⟩ :=
        Async.settled_of_live faults async direction waker reactor hlive
      exact ⟨outcome, hloop, by simp [started], hsettled⟩
  | awaiting calls =>
      by_cases hmark : Async.Marked reactor async.id direction
      · obtain ⟨middle, hready, hmiddle, hgone⟩ := Async.pollReady_marked faults waker hmark
        obtain ⟨rest, hloop, hcalls, -, hsettled⟩ : ∃ rest : LoopOutcome S W R,
            (∀ fuel, async.pollIo faults direction f waker (fuel + 1) calls middle = .ok rest) ∧
              rest.calls = calls + 1 ∧ rest.asked = middle ∧
              Async.Settled faults async direction f waker rest :=
          Async.settled_of_unmarked faults async direction waker middle hmiddle hgone
        refine ⟨rest, fun fuel => ?_, fun _ => ?_, hsettled⟩
        · simp [poll, hready, hloop (fuel + 1)]
        · rw [hcalls, Async.marks, if_pos hmark]
          rfl
      · obtain ⟨last, woken, ready, hready, hne⟩ :=
          Async.pollReady_unmarked faults waker hlive hmark
        have hlast : blocks (f (calls - 1)) = true :=
          hblocked.2 (calls - 1) (Nat.sub_lt hblocked.1 Nat.one_pos)
        cases ready with
        | pending =>
            refine ⟨⟨calls, reactor, last, woken, .pending⟩, fun fuel => by simp [poll, hready],
              fun _ => by simp [Async.marks, hmark, DoIo.calls], by simp,
              fun _ => ⟨hlast, hmark, Reactor.waiting_of_pending hready⟩⟩
        | ready answer =>
            cases answer with
            | ok value => exact absurd rfl hne
            | error errno =>
                refine ⟨⟨calls, reactor, last, woken, .ready (.error (.os errno))⟩,
                  fun fuel => by simp [poll, hready],
                  fun _ => by simp [Async.marks, hmark, DoIo.calls], ?_, by simp⟩
                intro result hreturned
                cases hreturned
                exact .inr ⟨errno, rfl, hready⟩
  | returned calls => exact absurd rfl (hnot calls)

/-- Calls of `poll_ready` register and forget nobody. -/
theorem keeps_of_run {trace : List (Reactor.Call Epoll W × Reactor.Output Epoll W)}
    {last : Reactor Epoll S W} (hrun : Reactor.system.Run reactor trace last)
    (hlinked : reactor.Linked)
    (hpolls : ∀ event ∈ trace, ∃ key direction waker, event.1.op = .pollReady key direction waker) :
    Reactor.Keeps reactor last := by
  refine hrun.invariant (fun trace last =>
    (∀ event ∈ trace, ∃ key direction waker, event.1.op = .pollReady key direction waker) →
      Reactor.Keeps reactor last) (fun _ => Reactor.Keeps.refl) ?_ hpolls
  intro trace middle last call output _ ih hstep hevents
  have hmiddle := ih fun event hmem => hevents event (List.mem_append_left _ hmem)
  obtain ⟨key, direction, waker, hop⟩ := hevents (call, output) (by simp)
  have htransition := Reactor.step_transition hstep
  simp only at hop
  rw [hop] at htransition
  cases htransition with
  | pollReady hpoll =>
      exact hmiddle.trans (Reactor.keeps_pollReady (hmiddle.linked hlinked) hpoll)

/-- A poll registers and forgets nobody. -/
theorem keeps_poll (hlinked : reactor.Linked)
    (hpoll : future.poll faults async direction f waker fuel reactor = .ok outcome) :
    Reactor.Keeps reactor outcome.reactor := by
  have hloop : ∀ {call : Nat} {first : Reactor Epoll S W} {outcome : LoopOutcome S W R},
      first.Linked → async.pollIo faults direction f waker fuel call first = .ok outcome →
      Reactor.Keeps first outcome.reactor := by
    intro call first outcome hfirst hloop
    obtain ⟨trace, hrun, hops⟩ := Async.pollIo_run faults async direction waker first hloop
    refine keeps_of_run hrun hfirst fun event hmem => ?_
    rw [hops event hmem]
    exact ⟨_, _, _, rfl⟩
  cases future with
  | start => exact hloop hlinked hpoll
  | awaiting calls =>
      obtain ⟨last, woken, ready, hready, hstay⟩ := poll_awaiting hpoll
      have hkeeps := Reactor.keeps_pollReady hlinked hready
      rcases hstay with ⟨-, -, hreactor⟩ | ⟨-, rest, hrest, rfl⟩
      · rw [hreactor]
        exact hkeeps
      · have hrest' := hloop (hkeeps.linked hlinked) hrest
        exact hkeeps.trans hrest'
  | returned calls => cases hpoll

end Poll

/-! ## The future and its process -/

/-- The sockets of a process, and the future. -/
structure Session (S : Type → Type) (W : Type) where
  sockets : Sockets S W
  future : DoIo

inductive Op (W : Type) where
  | sockets (call : Sockets.Call W)
  /-- Poll the future with a waker, while the `epoll_ctl` calls of some descriptors fail. -/
  | poll (waker : W) (faults : Faults)

/-- The wakers that an operation invoked, and what a poll of the future returned. -/
structure Output (W R : Type) where
  woken : List W := []
  handed : List W := []
  poll : Option (Poll (Except Error R)) := none

/-- The future borrows the `Async` of the name, so that nobody gives it back or drops it. -/
def system (name : Nat) (direction : Direction) (f : Nat → Except Error R) :
    System Panic (Session S W) (Op W) (Output W R) where
  step session op :=
    match op with
    | .sockets call =>
        .when (!call.ends name) <|
          (Sockets.system.step session.sockets call).andThen fun sockets output =>
            .next { session with sockets } { woken := output.woken, handed := output.handed }
    | .poll waker faults =>
        match session.sockets.asyncs name with
        | none => .disabled
        | some socket => .ofExcept do
            let outcome ← session.future.poll faults socket.toAsync direction f waker 2
              session.sockets.reactor
            .ok ({ sockets := { session.sockets with reactor := outcome.reactor },
                   future := settle outcome },
              { woken := outcome.woken, poll := some outcome.poll })

/-- The operation reports the descriptor as ready. -/
def Op.reports (fd : Nat) (direction : Direction) : Op W → Bool
  | .sockets call => call.reports fd direction
  | .poll _ _ => false

section Runs

variable {name fd : Nat} {direction : Direction} {f : Nat → Except Error R} {socket : Socket}
  {sockets : Sockets S W} {session last : Session S W} {op : Op W} {output : Output W R}

/-- What holds between the steps of a session, where `budget` pays for the calls. -/
structure Tried (name fd : Nat) (direction : Direction) (f : Nat → Except Error R)
    (socket : Socket) (budget : Nat) (session : Session S W) : Prop where
  sound : Sockets.Sound session.sockets.plain session.sockets
  named : session.sockets.asyncs name = some socket
  sys : socket.sys = some fd
  blocked : session.future.Blocked f
  paid : session.future.calls + Async.marks session.sockets.reactor socket.id direction + 1 ≤
    budget + session.future.started

/-- Only a report of the kernel adds to the budget. -/
theorem Tried.step {budget : Nat} (htried : Tried name fd direction f socket budget session)
    (hstep : (system name direction f).step session op = .next last output) :
    Tried name fd direction f socket (budget + (op.reports fd direction).toNat) last := by
  have hpaid := htried.paid
  cases op with
  | sockets call =>
      simp only [system, Outcome.when_eq_next, Bool.not_eq_true', Outcome.andThen_eq_next,
        Outcome.next.injEq] at hstep
      obtain ⟨hends, sockets, inner, hinner, rfl, -⟩ := hstep
      obtain ⟨hnamed, hmarked⟩ :=
        htried.sound.marked_step direction htried.named htried.sys hinner hends
      refine ⟨htried.sound.step hinner, hnamed, htried.sys, htried.blocked, ?_⟩
      have hmarks := Async.marks_le hmarked
      simp only [Op.reports]
      omega
  | poll waker faults =>
      simp only [system, htried.named, Outcome.ofExcept_eq_next] at hstep
      obtain ⟨outcome, hpoll, heq⟩ := ok_of_bind hstep
      cases heq
      have hbudget := poll_budget hpoll
      refine ⟨htried.sound.react (keeps_poll htried.sound.linked hpoll), htried.named, htried.sys,
        poll_blocked htried.blocked hpoll, ?_⟩
      simp only [calls_settle, started_settle]
      omega

/-- A future of `do_io` on an `Async` of the process, over every run of the process that keeps
the `Async`: the operation is tried again only after results that would block, and at most once
more for the mark it found and for each report of the kernel; and a poll of a future that has
not returned comes to its end, tries again if there is a mark, and settles as `poll_io` does. -/
theorem doIo_settles {before : List (Sockets.Call W × Sockets.Output W)}
    {trace : List (Op W × Output W R)}
    (hfirst : Sockets.system.Run (Sockets.new : Sockets S W) before sockets)
    (hname : sockets.asyncs name = some socket) (hsys : socket.sys = some fd)
    (hrun : (system name direction f).Run ⟨sockets, .start⟩ trace last) :
    last.sockets.asyncs name = some socket ∧ last.future.Blocked f ∧
      last.future.calls ≤ 1 + Async.marks sockets.reactor socket.id direction +
        trace.countP (fun event => event.1.reports fd direction) ∧
      ∀ faults waker, (∀ calls, last.future ≠ .returned calls) →
        ∃ outcome : LoopOutcome S W R,
          (∀ fuel, last.future.poll faults socket.toAsync direction f waker (fuel + 2)
            last.sockets.reactor = .ok outcome) ∧
          (last.future.started = 1 → outcome.calls =
            last.future.calls + Async.marks last.sockets.reactor socket.id direction) ∧
          Async.Settled faults socket.toAsync direction f waker outcome := by
  have htried : Tried name fd direction f socket (1 +
      Async.marks sockets.reactor socket.id direction +
        trace.countP (fun event => event.1.reports fd direction)) last := by
    refine hrun.invariant (fun trace last => Tried name fd direction f socket (1 +
      Async.marks sockets.reactor socket.id direction +
        trace.countP (fun event => event.1.reports fd direction)) last) ?_ ?_
    · have hsound : Sockets.Sound sockets.plain sockets :=
        hfirst.preserves (fun sockets => Sockets.Sound sockets.plain sockets) Sockets.Sound.new
          fun hsound hstep => hsound.step hstep
      refine ⟨hsound, hname, hsys, trivial, ?_⟩
      simp only [calls, started, List.countP_nil]
      omega
    · intro trace middle last op output _ ih hstep
      have hstepped := ih.step hstep
      rw [List.countP_append, List.countP_singleton, ← Nat.add_assoc]
      cases hreports : op.reports fd direction <;> simpa [hreports] using hstepped
  have hpaid := htried.paid
  have hstarted := last.future.started_le_one
  refine ⟨htried.named, htried.blocked, by omega, fun faults waker hnot => ?_⟩
  obtain ⟨source, hget⟩ := htried.sound.live htried.named
  exact poll_settles (by simp [hget]) htried.blocked hnot

end Runs

/-- The first read would block, and then there is something to read. -/
def secondRead (call : Nat) : Except Error Nat :=
  if call = 0 then .error (.os EAGAIN) else .ok 100

/-- The kernel reports the socket while the future awaits. -/
def reportedRead : List (Op Nat) :=
  [.poll 7 [], .sockets { op := .poll none (.ok [(5, EPOLLIN)]) }]

theorem doIo_settles_reported :
    ∃ (last : Session FreeSlab Nat) (outcome : LoopOutcome FreeSlab Nat Nat),
      last.future.Blocked secondRead ∧ last.future = .awaiting 1 ∧ outcome.calls = 2 ∧
        outcome.poll = .ready (.ok 100) ∧
        Async.Settled [] (Async.mk 0) .read secondRead 8 outcome := by
  have hfirst : Sockets.system.exec (Sockets.new : Sockets FreeSlab Nat)
      [{ op := .make 0 5 (.ok ()) }] = some (_, _) := rfl
  obtain ⟨-, hblocked, -, hpoll⟩ := doIo_settles (System.exec_run hfirst) rfl rfl <|
    System.exec_run (show (system 0 .read secondRead).exec _ reportedRead = some (_, _) from rfl)
  have hawaiting : ∀ calls, DoIo.awaiting 1 ≠ .returned calls := by simp
  obtain ⟨outcome, hloop, hcalls, hsettled⟩ := hpoll [] 8 hawaiting
  exact ⟨_, outcome, hblocked, rfl, hcalls rfl, by cases hloop 0; rfl, hsettled⟩

end DoIo

end Platoon.Net
