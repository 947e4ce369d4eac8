import Platoon.Net.Readiness

/-!
# `TcpStream::connect`

The future of `connect` makes a socket that is still connecting, registers it, awaits
its readiness for writing and then asks for its error.  Until it returns a stream it
owns it, and drops it on every other way out.
-/

namespace Platoon.Net

open Platoon.Foundation Platoon.Rust Platoon.Sys Platoon.Runtime

def EINPROGRESS : Errno := .other 115

/-- The connection may still be going on. -/
def sysConnect : Except Errno Unit → Except Errno Unit
  | .ok () => .ok ()
  | .error errno =>
      if errno = EINPROGRESS ∨ (Error.os errno).kind = .WouldBlock then .ok () else .error errno

/-- Where the future stands: it finishes when it returns or is dropped. -/
inductive Connect where
  | start
  /-- In the `await` for readiness. -/
  | awaiting (stream : Socket)
  | finished

namespace Connect

/-- What the kernel answers: to the calls on the socket, and which calls of `epoll_ctl` fail
when the stream is made, polled and dropped. -/
structure Kernel where
  /-- The new descriptor. -/
  socket : Except Errno Nat
  connect : Except Errno Unit := .ok ()
  takeError : Except Errno (Option Errno) := .ok none
  onNew : Faults := []
  onPoll : Faults := []
  onDrop : Faults := []

/-- The sockets of a process, and the future. -/
structure Session (S : Type → Type) (W : Type) where
  sockets : Sockets S W
  future : Connect

structure Output (W : Type) where
  woken : List W := []
  handed : List W := []
  poll : Option (Poll (Except Errno Unit)) := none

variable {S : Type → Type} [Slab S] {W : Type}

/-- Return an error, where the stream is dropped. -/
def fail (kernel : Kernel) (name : Nat) (sockets : Sockets S W) (stream : Socket)
    (woken : List W) (errno : Errno) : Except Panic (Session S W × Output W) := do
  let sockets ← (sockets.own name none).asyncDrop kernel.onDrop stream
  .ok ({ sockets, future := .finished }, { woken, poll := some (.ready (.error errno)) })

/-- `connect` from its `await` on. -/
def await (kernel : Kernel) (name : Nat) (waker : W) (sockets : Sockets S W) (stream : Socket) :
    Except Panic (Session S W × Output W) := do
  let (reactor, woken, ready) ←
    sockets.reactor.pollReady kernel.onPoll stream.id .write waker
  let sockets := { sockets with reactor }
  match ready with
  | .pending =>
      .ok ({ sockets, future := .awaiting stream }, { woken, poll := some .pending })
  | .ready (.error errno) => fail kernel name sockets stream woken errno
  | .ready (.ok ()) =>
      match kernel.takeError with
      | .error errno => fail kernel name sockets stream woken errno
      | .ok (some errno) => fail kernel name sockets stream woken errno
      | .ok none =>
          .ok ({ sockets, future := .finished }, { woken, poll := some (.ready (.ok ())) })

/-- Poll the future, whose stream stands under the name that its client will use. -/
def poll (kernel : Kernel) (name : Nat) (waker : W) (session : Session S W) :
    Except Panic (Session S W × Output W) :=
  match session.future with
  | .start =>
      match kernel.socket with
      | .error errno =>
          .ok ({ session with future := .finished }, { poll := some (.ready (.error errno)) })
      | .ok fd =>
          let made := { session.sockets with
            opened := Function.update session.sockets.opened fd true }
          match made.register kernel.onNew fd (sysConnect kernel.connect) with
          | (sockets, .error errno) =>
              .ok ({ sockets, future := .finished }, { poll := some (.ready (.error errno)) })
          | (sockets, .ok stream) =>
              await kernel name waker (sockets.own name (some stream)) stream
  | .awaiting stream => await kernel name waker session.sockets stream
  | .finished => .error .resumedAfterCompletion

/-- Drop the future. -/
def drop (faults : Faults) (name : Nat) (session : Session S W) :
    Except Panic (Session S W) :=
  match session.future with
  | .awaiting stream => do
      let sockets ← (session.sockets.own name none).asyncDrop faults stream
      .ok { sockets, future := .finished }
  | .start | .finished => .ok { session with future := .finished }

inductive Op (W : Type) where
  | sockets (call : Sockets.Call W)
  | poll (waker : W) (kernel : Kernel)
  | drop (faults : Faults)

/-- The call is about the name. -/
def concerns (name : Nat) (call : Sockets.Call W) : Bool :=
  match call.op with
  | .fromStd other _ | .make other _ _ | .intoStd other | .drop other | .pollReady other _ _ =>
      decide (other = name)
  | .socket _ | .dropPlain _ | .poll _ _ => false

/-- The new descriptor is not open before. -/
def Kernel.possible (kernel : Kernel) (sockets : Sockets S W) : Bool :=
  match kernel.socket with
  | .error _ => true
  | .ok fd => !sockets.opened fd

/-- The future with the sockets of its process.  Nobody else uses the name, so that runs end
where the client gets the stream. -/
def system (name : Nat) : System Panic (Session S W) (Op W) (Output W) where
  step session op :=
    match op with
    | .sockets call =>
        .when (!concerns name call) <|
          (Sockets.system.step session.sockets call).andThen fun sockets output =>
            .next { session with sockets } { woken := output.woken, handed := output.handed }
    | .poll waker kernel =>
        .when (kernel.possible session.sockets) <| .ofExcept (poll kernel name waker session)
    | .drop faults => .ofExcept do
        let session ← drop faults name session
        .ok (session, {})

section Names

variable {name other : Nat} {sockets last : Sockets S W} {call : Sockets.Call W}
  {output : Sockets.Output W}

theorem asyncs_asyncDrop {faults : Faults} {socket : Socket}
    (hdrop : sockets.asyncDrop faults socket = .ok last) : last.asyncs = sockets.asyncs := by
  unfold Sockets.asyncDrop at hdrop
  split at hdrop
  · cases hdrop
    rfl
  · obtain ⟨result, -, rfl⟩ := ok_of_bind hdrop
    rfl

theorem asyncs_intoSys {faults : Faults} {socket : Socket} {result : Except Errno Nat}
    (hinto : sockets.intoSys faults socket = .ok (last, result)) :
    last.asyncs = sockets.asyncs := by
  unfold Sockets.intoSys at hinto
  split at hinto
  · cases hinto
  · cases hremove : sockets.reactor.removeSource faults socket.id with
    | error reason => simp [hremove] at hinto
    | ok removed =>
        simp only [hremove, ok_bind, Sockets.asyncDrop] at hinto
        split at hinto
        · cases hinto
          rfl
        · cases hinto
          rfl

omit [Slab S] in
theorem asyncs_own (hne : name ≠ other) (socket : Option Socket) :
    (sockets.own other socket).asyncs name = sockets.asyncs name :=
  Function.update_of_ne hne _ _

omit [Slab S] in
theorem asyncs_adopt (hne : name ≠ other) (result : Sockets S W × Except Errno Socket) :
    (Sockets.adopt other result).1.asyncs name = result.1.asyncs name := by
  obtain ⟨made, result⟩ := result
  cases result with
  | error errno => rfl
  | ok socket => exact asyncs_own hne _

theorem asyncs_asyncNew (faults : Faults) (fd : Nat) :
    (sockets.asyncNew faults fd).1.asyncs = sockets.asyncs := by
  unfold Sockets.asyncNew
  split <;> rfl

/-- A call about other names leaves the name alone. -/
theorem asyncs_step (hconcerns : concerns name call = false)
    (hstep : Sockets.system.step sockets call = .next last output) :
    last.asyncs name = sockets.asyncs name := by
  obtain ⟨op, faults⟩ := call
  cases op with
  | socket fd =>
      simp only [Sockets.system, Sockets.step, Outcome.when_eq_next, Outcome.next.injEq] at hstep
      obtain ⟨-, rfl, -⟩ := hstep
      rfl
  | dropPlain fd =>
      simp only [Sockets.system, Sockets.step, Outcome.when_eq_next, Outcome.next.injEq] at hstep
      obtain ⟨-, rfl, -⟩ := hstep
      rfl
  | fromStd other fd =>
      have hne : name ≠ other := Ne.symm (by simpa [concerns] using hconcerns)
      simp only [Sockets.system, Sockets.step, Outcome.when_eq_next, Outcome.next.injEq] at hstep
      obtain ⟨-, rfl, -⟩ := hstep
      rw [asyncs_adopt hne, asyncs_asyncNew]
  | make other fd prepared =>
      have hne : name ≠ other := Ne.symm (by simpa [concerns] using hconcerns)
      simp only [Sockets.system, Sockets.step, Outcome.when_eq_next, Outcome.next.injEq] at hstep
      obtain ⟨-, rfl, -⟩ := hstep
      rw [asyncs_adopt hne]
      cases prepared with
      | error errno => rfl
      | ok ready => rw [Sockets.register, asyncs_asyncNew]
  | intoStd other =>
      have hne : name ≠ other := Ne.symm (by simpa [concerns] using hconcerns)
      simp only [Sockets.system, Sockets.step] at hstep
      split at hstep
      · cases hstep
      · rw [Outcome.ofExcept_eq_next] at hstep
        obtain ⟨⟨given, result⟩, hinto, heq⟩ := ok_of_bind hstep
        have hgiven := asyncs_intoSys hinto
        cases result with
        | error errno =>
            cases heq
            rw [hgiven, asyncs_own hne]
        | ok fd =>
            cases heq
            exact (congrFun hgiven name).trans (asyncs_own hne _)
  | drop other =>
      have hne : name ≠ other := Ne.symm (by simpa [concerns] using hconcerns)
      simp only [Sockets.system, Sockets.step] at hstep
      split at hstep
      · cases hstep
      · rw [Outcome.ofExcept_eq_next] at hstep
        obtain ⟨dropped, hdrop, heq⟩ := ok_of_bind hstep
        cases heq
        rw [asyncs_asyncDrop hdrop, asyncs_own hne]
  | pollReady other direction waker =>
      simp only [Sockets.system, Sockets.step] at hstep
      split at hstep
      · cases hstep
      · obtain ⟨reactor, result, -, rfl, -⟩ := Sockets.react_eq_next hstep
        rfl
  | poll timeout answer =>
      obtain ⟨reactor, result, -, rfl, -⟩ := Sockets.react_eq_next hstep
      rfl

/-- A call about other names does not end the `Async` of this one. -/
theorem ends_of_concerns (hconcerns : concerns name call = false) : call.ends name = false := by
  obtain ⟨op, faults⟩ := call
  cases op <;> first | rfl | exact hconcerns

end Names

/-! ## Polls -/

/-- A call on the socket fails with the error, or a call of `epoll_ctl` does. -/
def Kernel.Fails (kernel : Kernel) (errno : Errno) : Prop :=
  kernel.socket = .error errno ∨ sysConnect kernel.connect = .error errno ∨
    kernel.takeError = .error errno ∨ kernel.takeError = .ok (some errno) ∨
    ∃ fd, kernel.onNew.lookup fd = some errno ∨ kernel.onPoll.lookup fd = some errno

/-- Only the name may have changed hands. -/
def Others (name : Nat) (before after : Sockets S W) : Prop :=
  after.plain = before.plain ∧
    ∀ other, other ≠ name → after.asyncs other = before.asyncs other

/-- What a poll leaves: a stream that waits, nothing, or a stream for the client. -/
inductive Polled (kernel : Kernel) (name : Nat) (waker : W) (reported : Nat → Prop)
    (last : Session S W) : Poll (Except Errno Unit) → Prop
  | pending {stream : Socket} : last.future = .awaiting stream →
      last.sockets.asyncs name = some stream →
      last.sockets.reactor.Waiting stream.id .write waker →
      ¬ Async.Marked last.sockets.reactor stream.id .write →
      Polled kernel name waker reported last .pending
  | failed {errno : Errno} : last.future = .finished → last.sockets.asyncs name = none →
      kernel.Fails errno → Polled kernel name waker reported last (.ready (.error errno))
  | connected {stream : Socket} {fd : Nat} : last.future = .finished →
      last.sockets.asyncs name = some stream → stream.sys = some fd → reported fd →
      kernel.takeError = .ok none → Polled kernel name waker reported last (.ready (.ok ()))

theorem Polled.mono {kernel : Kernel} {name : Nat} {waker : W} {reported reported' : Nat → Prop}
    {last : Session S W} {result : Poll (Except Errno Unit)}
    (hpolled : Polled kernel name waker reported last result)
    (himplies : ∀ fd, reported fd → reported' fd) :
    Polled kernel name waker reported' last result := by
  cases hpolled with
  | pending hfuture hlast hwaiting hgone => exact .pending hfuture hlast hwaiting hgone
  | failed hfuture hlast hfails => exact .failed hfuture hlast hfails
  | connected hfuture hlast hsys hreported herror =>
      exact .connected hfuture hlast hsys (himplies _ hreported) herror

section Polls

variable (kernel : Kernel) {name fd : Nat} (waker : W) {plain : List Nat}
  {sockets : Sockets S W} {stream : Socket}

omit waker in
/-- Dropping the stream leaves nothing of it. -/
theorem fail_spec (hsound : Sockets.Sound plain sockets)
    (hname : sockets.asyncs name = some stream) (woken : List W) (errno : Errno) :
    ∃ last, fail kernel name sockets stream woken errno =
        .ok (last, { woken, poll := some (.ready (.error errno)) }) ∧
      Sockets.Sound plain last.sockets ∧ Others name sockets last.sockets ∧
      last.future = .finished ∧ last.sockets.asyncs name = none := by
  obtain ⟨raw, reactor, result, -, hdrop, -, hclosed, -⟩ := hsound.removed kernel.onDrop hname
  refine ⟨_, by rw [fail, hdrop, ok_bind], hclosed, ⟨rfl, fun other hne => ?_⟩, rfl, ?_⟩
  · exact Function.update_of_ne hne _ _
  · exact Function.update_self _ _ _

theorem await_spec (hsound : Sockets.Sound plain sockets)
    (hname : sockets.asyncs name = some stream) (hsys : stream.sys = some fd) :
    ∃ last output result, await kernel name waker sockets stream = .ok (last, output) ∧
      Sockets.Sound plain last.sockets ∧ Others name sockets last.sockets ∧
      output.poll = some result ∧
      Polled kernel name waker
        (fun raw => raw = fd ∧ Async.Marked sockets.reactor stream.id .write) last result ∧
      ∀ awaited, last.future = .awaiting awaited → awaited = stream := by
  obtain ⟨source, hget⟩ := hsound.live hname
  obtain ⟨⟨reactor, woken, ready⟩, hpoll⟩ :=
    Reactor.pollReady_ok kernel.onPoll hget .write waker
  have hkept : Sockets.Sound plain { sockets with reactor } :=
    hsound.react (Reactor.keeps_pollReady hsound.linked hpoll)
  have hfails : ∀ errno, kernel.Fails errno →
      ∃ last output result, fail kernel name { sockets with reactor } stream woken errno =
          .ok (last, output) ∧
        Sockets.Sound plain last.sockets ∧ Others name sockets last.sockets ∧
        output.poll = some result ∧
        Polled kernel name waker
          (fun raw => raw = fd ∧ Async.Marked sockets.reactor stream.id .write) last result ∧
        ∀ awaited, last.future = .awaiting awaited → awaited = stream := by
    intro errno hfail
    obtain ⟨last, hlast, hsound', hothers, hfinished, hgone⟩ :=
      fail_spec kernel hkept hname woken errno
    exact ⟨last, _, _, hlast, hsound', hothers, rfl, .failed hfinished hgone hfail,
      by simp [hfinished]⟩
  simp only [await, hpoll, ok_bind]
  cases ready with
  | pending =>
      have hgone : ¬ Async.Marked reactor stream.id .write := fun hmarked =>
        (Async.marked_pollReady hpoll hmarked).2 ⟨rfl, rfl⟩
      exact ⟨_, _, _, rfl, hkept, ⟨rfl, fun _ _ => rfl⟩, rfl,
        .pending rfl hname (Reactor.waiting_of_pending hpoll) hgone,
        fun _ hawaiting => by cases hawaiting; rfl⟩
  | ready answer =>
      cases answer with
      | error errno =>
          obtain ⟨raw, -, hheld⟩ := hsound.held hname
          have hfault := Reactor.pollReady_failure hsound.linked hheld hpoll
          exact hfails errno (.inr (.inr (.inr (.inr ⟨raw, .inr hfault⟩))))
      | ok done =>
          cases herror : kernel.takeError with
          | error errno => exact hfails errno (.inr (.inr (.inl herror)))
          | ok found =>
              cases found with
              | some errno => exact hfails errno (.inr (.inr (.inr (.inl herror))))
              | none =>
                  have hmark : Async.Marked sockets.reactor stream.id .write := by
                    by_contra hunmarked
                    obtain ⟨_, _, _, hasked, hne⟩ := Async.pollReady_unmarked kernel.onPoll waker
                      (by simp [hget]) hunmarked
                    rw [hpoll] at hasked
                    cases hasked
                    exact hne rfl
                  exact ⟨_, _, _, rfl, hkept, ⟨rfl, fun _ _ => rfl⟩, rfl,
                    .connected rfl hname hsys ⟨rfl, hmark⟩ herror, by simp⟩

/-- The first poll finds no mark, so that it never returns a stream. -/
theorem start_spec (hsound : Sockets.Sound sockets.plain sockets)
    (hname : sockets.asyncs name = none) (hpossible : kernel.possible sockets = true) :
    ∃ last output result, poll kernel name waker ⟨sockets, .start⟩ = .ok (last, output) ∧
      Sockets.Sound sockets.plain last.sockets ∧ Others name sockets last.sockets ∧
      output.poll = some result ∧ Polled kernel name waker (fun _ => False) last result ∧
      ∀ awaited, last.future = .awaiting awaited →
        ∃ fd, kernel.socket = .ok fd ∧ awaited.sys = some fd := by
  cases hsocket : kernel.socket with
  | error errno =>
      simp only [poll, hsocket]
      exact ⟨_, _, _, rfl, hsound, ⟨rfl, fun _ _ => rfl⟩, rfl,
        .failed rfl hname (.inl hsocket), by simp⟩
  | ok fd =>
      have hclosed : sockets.opened fd = false := by
        simpa [Kernel.possible, hsocket] using hpossible
      have hmade := hsound.openFd hclosed
      cases hconnect : sysConnect kernel.connect with
      | error errno =>
          simp only [poll, hsocket, hconnect, Sockets.register]
          exact ⟨_, _, _, rfl, hmade.close, ⟨rfl, fun _ _ => rfl⟩, rfl,
            .failed rfl hname (.inr (.inl hconnect)), by simp⟩
      | ok connecting =>
          have hadopt := hmade.adopt kernel.onNew hname
          rcases hinsert : sockets.reactor.insertSource kernel.onNew fd with ⟨reactor, result⟩
          simp only [poll, hsocket, hconnect, Sockets.register, Sockets.asyncNew, hinsert]
          simp only [Sockets.asyncNew, hinsert] at hadopt
          rcases Reactor.insertSource_cases hinsert with ⟨errno, rfl, rfl, hfault⟩ |
            ⟨key, rfl, -, -, -, -⟩
          · have hlookup : kernel.onNew.lookup fd = some errno :=
              hfault.resolve_right (by simp [(hsound.unknown_of_closed hclosed).2])
            exact ⟨_, _, _, rfl, hadopt, ⟨rfl, fun _ _ => rfl⟩, rfl,
              .failed rfl hname (.inr (.inr (.inr (.inr ⟨fd, .inl hlookup⟩)))), by simp⟩
          · obtain ⟨last, output, result, hawait, hkept, hothers, hresult, hpolled, hsame⟩ :=
              await_spec kernel waker hadopt
                (Function.update_self _ _ _) rfl
            refine ⟨last, output, result, hawait, hkept, ?_, hresult, ?_, ?_⟩
            · exact ⟨hothers.1, fun other hne =>
                (hothers.2 other hne).trans (Function.update_of_ne hne _ _)⟩
            · exact hpolled.mono fun raw hmark =>
                Async.unmarked_insertSource hinsert hmark.2
            · intro awaited hawaiting
              exact ⟨fd, rfl, by rw [hsame awaited hawaiting]⟩

end Polls

/-! ## Runs -/

/-- The operation reports the descriptor as writable. -/
def Op.reports (fd : Nat) : Op W → Bool
  | .sockets call => call.reports fd .write
  | .poll _ _ | .drop _ => false

/-- A poll made the descriptor, and `later` came after it. -/
def Made (fd : Nat) (trace later : List (Op W × Output W)) : Prop :=
  ∃ before waker kernel output, trace = before ++ (.poll waker kernel, output) :: later ∧
    kernel.socket = .ok fd

/-- The kernel reported the descriptor as writable after a poll made it. -/
def Reported (fd : Nat) (trace : List (Op W × Output W)) : Prop :=
  ∃ later, Made fd trace later ∧ ∃ event ∈ later, event.1.reports fd = true

theorem Made.snoc {fd : Nat} {trace later : List (Op W × Output W)} (hmade : Made fd trace later)
    (event : Op W × Output W) : Made fd (trace ++ [event]) (later ++ [event]) := by
  obtain ⟨before, waker, kernel, output, rfl, hsocket⟩ := hmade
  exact ⟨before, waker, kernel, output, by simp, hsocket⟩

/-- What holds of the future in a run. -/
def Stage (name : Nat) (trace : List (Op W × Output W)) (session : Session S W) : Prop :=
  match session.future with
  | .start => session.sockets.asyncs name = none
  | .awaiting stream => session.sockets.asyncs name = some stream ∧
      ∃ fd later, stream.sys = some fd ∧ Made fd trace later ∧
        (Async.Marked session.sockets.reactor stream.id .write →
          ∃ event ∈ later, event.1.reports fd = true)
  | .finished => True

section Runs

variable {name : Nat} {sockets : Sockets S W} {session last : Session S W} {op : Op W}
  {output : Output W} {trace : List (Op W × Output W)}

/-- The future that is not polled keeps its stage. -/
theorem stage_sockets {call : Sockets.Call W}
    (hsound : Sockets.Sound session.sockets.plain session.sockets)
    (hstage : Stage name trace session) (hconcerns : concerns name call = false)
    {result : Sockets.Output W}
    (hstep : Sockets.system.step session.sockets call = .next sockets result) :
    Stage name (trace ++ [(.sockets call, output)]) { session with sockets } := by
  obtain ⟨first, future⟩ := session
  cases future with
  | finished => trivial
  | start => exact (asyncs_step hconcerns hstep).trans hstage
  | awaiting stream =>
      obtain ⟨hname, fd, later, hsys, hmade, hreported⟩ := hstage
      obtain ⟨hkept, hmarked⟩ := hsound.marked_step .write hname hsys hstep
        (ends_of_concerns hconcerns)
      refine ⟨hkept, fd, _, hsys, hmade.snoc _, fun hmark => ?_⟩
      rcases hmarked hmark with hbefore | hreports
      · obtain ⟨event, hmem, hevent⟩ := hreported hbefore
        exact ⟨event, List.mem_append_left _ hmem, hevent⟩
      · exact ⟨_, List.mem_append_right _ (List.mem_singleton_self _), hreports⟩

/-- A poll of a future that has not finished comes to its end. -/
theorem stage_poll (waker : W) {kernel : Kernel}
    (hsound : Sockets.Sound session.sockets.plain session.sockets)
    (hstage : Stage name trace session) (hpossible : kernel.possible session.sockets = true)
    (hnot : session.future ≠ .finished) :
    ∃ last output result, poll kernel name waker session = .ok (last, output) ∧
      Sockets.Sound last.sockets.plain last.sockets ∧
      Others name session.sockets last.sockets ∧ output.poll = some result ∧
      Polled kernel name waker (fun fd => Reported fd trace) last result ∧
      Stage name (trace ++ [(.poll waker kernel, output)]) last := by
  obtain ⟨sockets, future⟩ := session
  have hstage' : ∀ {reported : Nat → Prop} {last : Session S W} {output : Output W}
      {result : Poll (Except Errno Unit)}, Polled kernel name waker reported last result →
      (∀ awaited, last.future = .awaiting awaited → ∃ fd later, awaited.sys = some fd ∧
        Made fd (trace ++ [(.poll waker kernel, output)]) later) →
      Stage name (trace ++ [(.poll waker kernel, output)]) last := by
    intro reported last output result hpolled hmade
    cases hpolled with
    | pending hfuture hlast hwaiting hgone =>
        obtain ⟨fd, later, hsys, hmade⟩ := hmade _ hfuture
        rw [Stage, hfuture]
        exact ⟨hlast, fd, later, hsys, hmade, fun hmarked => absurd hmarked hgone⟩
    | failed hfuture hlast hfails =>
        rw [Stage, hfuture]
        trivial
    | connected hfuture hlast hsys hmark herror =>
        rw [Stage, hfuture]
        trivial
  cases future with
  | finished => exact absurd rfl hnot
  | start =>
      obtain ⟨last, output, result, hpoll, hkept, hothers, hresult, hpolled, hawaiting⟩ :=
        start_spec kernel waker hsound hstage hpossible
      refine ⟨last, output, result, hpoll, hothers.1 ▸ hkept, hothers, hresult, ?_,
        hstage' hpolled fun awaited hfuture => ?_⟩
      · exact hpolled.mono fun fd hfalse => hfalse.elim
      · obtain ⟨fd, hsocket, hsys⟩ := hawaiting awaited hfuture
        exact ⟨fd, [], hsys, trace, waker, kernel, output, rfl, hsocket⟩
  | awaiting stream =>
      obtain ⟨hname, fd, later, hsys, hmade, hreported⟩ := hstage
      obtain ⟨last, output, result, hpoll, hkept, hothers, hresult, hpolled, hsame⟩ :=
        await_spec kernel waker hsound hname hsys
      refine ⟨last, output, result, hpoll, hothers.1 ▸ hkept, hothers, hresult, ?_,
        hstage' hpolled fun awaited hfuture => ?_⟩
      · refine hpolled.mono fun raw hmark => ?_
        rw [hmark.1]
        exact ⟨later, hmade, hreported hmark.2⟩
      · rw [hsame awaited hfuture]
        exact ⟨fd, _, hsys, hmade.snoc _⟩

/-- Dropping the future leaves nothing of its stream. -/
theorem drop_spec (faults : Faults) (hsound : Sockets.Sound session.sockets.plain session.sockets)
    (hstage : Stage name trace session) (hnot : session.future ≠ .finished) :
    ∃ last, drop faults name session = .ok last ∧
      Sockets.Sound last.sockets.plain last.sockets ∧
      Others name session.sockets last.sockets ∧ last.future = .finished ∧
      last.sockets.asyncs name = none := by
  obtain ⟨sockets, future⟩ := session
  cases future with
  | finished => exact absurd rfl hnot
  | start => exact ⟨_, rfl, hsound, ⟨rfl, fun _ _ => rfl⟩, rfl, hstage⟩
  | awaiting stream =>
      obtain ⟨raw, reactor, result, -, hdrop, -, hclosed, -⟩ := hsound.removed faults hstage.1
      simp only [drop, hdrop, ok_bind]
      refine ⟨_, rfl, hclosed, ⟨rfl, fun other hne => ?_⟩, rfl, ?_⟩
      · exact Function.update_of_ne hne _ _
      · exact Function.update_self _ _ _

theorem stage_step (hsound : Sockets.Sound session.sockets.plain session.sockets)
    (hstage : Stage name trace session)
    (hstep : (system name).step session op = .next last output) :
    Sockets.Sound last.sockets.plain last.sockets ∧ Stage name (trace ++ [(op, output)]) last := by
  cases op with
  | sockets call =>
      simp only [system, Outcome.when_eq_next, Bool.not_eq_true', Outcome.andThen_eq_next,
        Outcome.next.injEq] at hstep
      obtain ⟨hconcerns, sockets, inner, hinner, rfl, -⟩ := hstep
      exact ⟨hsound.step hinner, stage_sockets hsound hstage hconcerns hinner⟩
  | poll waker kernel =>
      simp only [system, Outcome.when_eq_next, Outcome.ofExcept_eq_next] at hstep
      obtain ⟨hpossible, hpoll⟩ := hstep
      have hnot : session.future ≠ .finished := by
        intro hfinished
        simp [poll, hfinished] at hpoll
      obtain ⟨_, _, _, hpolled, hkept, -, -, -, hlast⟩ :=
        stage_poll waker hsound hstage hpossible hnot
      rw [hpoll] at hpolled
      cases hpolled
      exact ⟨hkept, hlast⟩
  | drop faults =>
      simp only [system, Outcome.ofExcept_eq_next] at hstep
      obtain ⟨dropped, hdrop, heq⟩ := ok_of_bind hstep
      cases heq
      by_cases hfinished : session.future = .finished
      · simp only [drop, hfinished] at hdrop
        cases hdrop
        exact ⟨hsound, trivial⟩
      · obtain ⟨_, hdropped, hkept, -, hlast, -⟩ := drop_spec faults hsound hstage hfinished
        rw [hdrop] at hdropped
        cases hdropped
        refine ⟨hkept, ?_⟩
        rw [Stage, hlast]
        trivial

/-- Over every run of a process with a future of `connect`, whatever the kernel answers: a poll
of a future that has not finished comes to its end.  It returns a stream only when the kernel
reported its descriptor as writable since it was made, and it has no error; it returns an error
only when a call on the socket or on its registration failed, and then, as when the future is
dropped, nothing of the stream is left; and otherwise the stream waits with the last waker. -/
theorem connect_settles {before : List (Sockets.Call W × Sockets.Output W)}
    (hfirst : Sockets.system.Run (Sockets.new : Sockets S W) before sockets)
    (hfree : sockets.asyncs name = none)
    (hrun : (system name).Run ⟨sockets, .start⟩ trace session)
    (hnot : session.future ≠ .finished) :
    Sockets.Sound session.sockets.plain session.sockets ∧
      (∀ waker kernel, kernel.possible session.sockets = true →
        ∃ last output result, (system name).step session (.poll waker kernel) =
            .next last output ∧ output.poll = some result ∧
          Sockets.Sound last.sockets.plain last.sockets ∧
          Others name session.sockets last.sockets ∧
          Polled kernel name waker (fun fd => Reported fd trace) last result) ∧
      ∀ faults, ∃ last output, (system name).step session (.drop faults) = .next last output ∧
        Sockets.Sound last.sockets.plain last.sockets ∧
        Others name session.sockets last.sockets ∧ last.sockets.asyncs name = none := by
  have hinvariant : Sockets.Sound session.sockets.plain session.sockets ∧
      Stage name trace session := by
    refine hrun.invariant (fun trace session =>
      Sockets.Sound session.sockets.plain session.sockets ∧ Stage name trace session)
      ⟨?_, hfree⟩ fun _ ih hstep => stage_step ih.1 ih.2 hstep
    exact hfirst.preserves (fun sockets => Sockets.Sound sockets.plain sockets) Sockets.Sound.new
      fun hsound hstep => hsound.step hstep
  obtain ⟨hsound, hstage⟩ := hinvariant
  refine ⟨hsound, fun waker kernel hpossible => ?_, fun faults => ?_⟩
  · obtain ⟨last, output, result, hpoll, hkept, hothers, hresult, hpolled, -⟩ :=
      stage_poll waker hsound hstage hpossible hnot
    refine ⟨last, output, result, ?_, hresult, hkept, hothers, hpolled⟩
    simp [system, hpossible, hpoll, Outcome.when, Outcome.ofExcept]
  · obtain ⟨last, hdrop, hkept, hothers, -, hgone⟩ := drop_spec faults hsound hstage hnot
    refine ⟨last, {}, ?_, hkept, hothers, hgone⟩
    simp [system, hdrop, Outcome.ofExcept]

end Runs

/-- The connection is going on, and then the kernel reports its descriptor. -/
def reportedConnect : List (Op Nat) :=
  [.poll 7 { socket := .ok 5, connect := .error EINPROGRESS },
    .sockets { op := .poll none (.ok [(5, EPOLLOUT)]) }]

theorem connect_settles_reported :
    ∃ (trace : List (Op Nat × Output Nat)) (last : Session FreeSlab Nat),
      trace.map Prod.fst = reportedConnect ∧
        Polled { socket := .ok 6 } 0 8 (fun fd => Reported fd trace) last (.ready (.ok ())) := by
  have hexec : (system 0).exec (Session.mk (Sockets.new : Sockets FreeSlab Nat) .start)
      reportedConnect = some (_, _) := rfl
  have hawaiting : Connect.awaiting ⟨⟨0⟩, some 5⟩ ≠ .finished := by simp
  obtain ⟨-, hpoll, -⟩ := connect_settles .refl rfl (System.exec_run hexec) hawaiting
  obtain ⟨last, output, result, hstep, hresult, -, -, hpolled⟩ := hpoll 8 { socket := .ok 6 } rfl
  cases hstep
  cases hresult
  exact ⟨_, _, rfl, hpolled⟩

end Connect

end Platoon.Net
