import Platoon.Runtime.Reactor
import Platoon.Sys.Epoll

/-!
# The reactor on epoll

A failed call of `epoll_ctl` leaves the table of the kernel, so an operation whose call
fails changes no more than the sources.
-/

namespace Platoon.Runtime

open Platoon.Foundation Platoon.Rust Platoon.Sys

/-- The bit by which epoll knows a direction. -/
def Direction.bit : Direction → BitVec 32
  | .read => EPOLLIN
  | .write => EPOLLOUT

namespace Reactor

variable {S : Type → Type} [Slab S] {W : Type} (faults : Faults) (reactor : Reactor Epoll S W)

theorem insertSource_epoll (raw : Nat) :
    reactor.insertSource faults raw =
      match Epoll.add faults reactor.poller raw
          { key := Slab.vacantKey reactor.sources, readable := false, writable := false } with
      | .error errno => (reactor, .error errno)
      | .ok poller =>
          ({ poller, sources := Slab.insert reactor.sources { raw, reader := {}, writer := {} } },
            .ok (Slab.vacantKey reactor.sources)) := by
  simp only [insertSource, Poller.add]
  cases Epoll.add faults reactor.poller raw _ <;> rfl

theorem removeSource_epoll (key : Nat) :
    reactor.removeSource faults key =
      (index reactor.sources key >>= fun source =>
        let sources := Slab.remove reactor.sources key
        match Epoll.delete faults reactor.poller source.raw with
        | .error errno => .ok ({ reactor with sources }, .error errno)
        | .ok poller => .ok ({ poller, sources }, .ok ())) := by
  simp only [removeSource, Poller.delete]
  refine congrArg _ (funext fun source => ?_)
  cases Epoll.delete faults reactor.poller source.raw <;> rfl

theorem pollReady_epoll (key : Nat) (direction : Direction) (waker : W) :
    reactor.pollReady faults key direction waker =
      match Slab.get? reactor.sources key with
      | none => .error .unwrapNone
      | some source =>
          let interest := source.interest direction
          if interest.woke then
            let source := source.setInterest direction { interest with woke := false }
            let sources := Slab.set reactor.sources key source
            .ok ({ reactor with sources }, [], .ready (.ok ()))
          else
            let source := source.setInterest direction { interest with poller := some waker }
            let sources := Slab.set reactor.sources key source
            match interest.poller with
            | some replaced => .ok ({ reactor with sources }, [replaced], .pending)
            | none =>
                match Epoll.update faults reactor.poller source.raw (source.event key) with
                | .error errno => .ok ({ reactor with sources }, [], .ready (.error errno))
                | .ok poller => .ok ({ poller, sources }, [], .pending) := by
  simp only [pollReady, updateInterest, Poller.update]
  cases Slab.get? reactor.sources key with
  | none => rfl
  | some source =>
      dsimp only
      cases Epoll.update faults reactor.poller _ _ <;> rfl

theorem handleEvent_epoll (e : Event) (wakers : List W) :
    reactor.handleEvent faults e wakers =
      match Slab.get? reactor.sources e.key with
      | none => (reactor, wakers, .ok ())
      | some source =>
          let (source, wakers) := source.takeIf e.readable .read wakers
          let (source, wakers) := source.takeIf e.writable .write wakers
          let sources := Slab.set reactor.sources e.key source
          if source.reader.hasPoller || source.writer.hasPoller then
            match Epoll.update faults reactor.poller source.raw (source.event e.key) with
            | .error errno => ({ reactor with sources }, wakers, .error errno)
            | .ok poller => ({ poller, sources }, wakers, .ok ())
          else ({ reactor with sources }, wakers, .ok ()) := by
  simp only [handleEvent, updateInterest, Poller.update]
  cases Slab.get? reactor.sources e.key with
  | none => rfl
  | some source =>
      dsimp only
      cases Epoll.update faults reactor.poller _ _ <;> rfl

theorem poll_epoll (waited : Except Errno (List SysEvent)) (wakers : List W) :
    reactor.poll faults waited wakers =
      match waited with
      | .ok events => reactor.handleEvents faults wakers (events.map Event.fromSys)
      | .error .EINTR => (reactor, wakers, .ok ())
      | .error errno => (reactor, wakers, .error errno) := by
  cases waited with
  | ok events => rfl
  | error errno => cases errno <;> rfl

end Reactor

end Platoon.Runtime
