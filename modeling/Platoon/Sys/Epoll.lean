import Mathlib.Logic.Function.Basic
import Platoon.Sys.Poller

/-!
# The epoll poller

The `Poller` of Linux and the kernel table behind it.  A registered descriptor
carries the event it was registered with and is reported until it is disarmed;
a registration with `EPOLLONESHOT` is disarmed by its report and re-armed by
`EPOLL_CTL_MOD`.  Every call of `epoll_ctl` may fail: `faults` names the
descriptors whose calls do, and a failed call changes nothing.
-/

namespace Platoon.Sys

def EPOLLIN : BitVec 32 := 0x001
def EPOLLPRI : BitVec 32 := 0x002
def EPOLLOUT : BitVec 32 := 0x004
def EPOLLERR : BitVec 32 := 0x008
def EPOLLHUP : BitVec 32 := 0x010
def EPOLLRDHUP : BitVec 32 := 0x2000
def EPOLLONESHOT : BitVec 32 := 0x40000000

/-- `events & flags != 0`. -/
def hasAny (events flags : BitVec 32) : Bool := events &&& flags != 0

/-- `libc::epoll_event`. -/
structure SysEvent where
  events : BitVec 32
  u64 : Nat
  deriving DecidableEq, Repr

/-- `impl From<&SysEvent> for Event`. -/
def Event.fromSys (sys : SysEvent) : Event where
  key := sys.u64
  readable := hasAny sys.events (EPOLLIN ||| EPOLLPRI)
  writable := hasAny sys.events EPOLLOUT

/-- `impl From<Event> for SysEvent`. -/
def SysEvent.fromEvent (event : Event) : SysEvent where
  events :=
    let flags := EPOLLONESHOT
    let flags := if event.readable then flags ||| EPOLLIN ||| EPOLLRDHUP else flags
    if event.writable then flags ||| EPOLLOUT else flags
  u64 := event.key

namespace SysEvent

@[simp]
theorem u64_fromEvent (event : Event) : (fromEvent event).u64 = event.key := rfl

/-- The interest in reading is the `EPOLLIN` of the registration. -/
@[simp]
theorem in_fromEvent (event : Event) :
    hasAny (fromEvent event).events EPOLLIN = event.readable := by
  obtain ⟨key, readable, writable⟩ := event
  cases readable <;> cases writable <;>
    simp [hasAny, fromEvent, EPOLLIN, EPOLLOUT, EPOLLRDHUP, EPOLLONESHOT]

/-- The interest in writing is the `EPOLLOUT` of the registration. -/
@[simp]
theorem out_fromEvent (event : Event) :
    hasAny (fromEvent event).events EPOLLOUT = event.writable := by
  obtain ⟨key, readable, writable⟩ := event
  cases readable <;> cases writable <;>
    simp [hasAny, fromEvent, EPOLLIN, EPOLLOUT, EPOLLRDHUP, EPOLLONESHOT]

@[simp]
theorem oneShot_fromEvent (event : Event) :
    hasAny (fromEvent event).events EPOLLONESHOT = true := by
  obtain ⟨key, readable, writable⟩ := event
  cases readable <;> cases writable <;>
    simp [hasAny, fromEvent, EPOLLIN, EPOLLOUT, EPOLLRDHUP, EPOLLONESHOT]

end SysEvent

/-- A descriptor in the kernel's table. -/
structure Registration where
  event : SysEvent
  armed : Bool
  deriving DecidableEq, Repr

namespace Registration

/-- Some of the bits are armed. -/
def interested (registration : Registration) (bits : BitVec 32) : Bool :=
  registration.armed && hasAny registration.event.events bits

/-- The bits that may be reported: the requested ones, errors and hang-ups. -/
def reportable (registration : Registration) : BitVec 32 :=
  (registration.event.events &&& ~~~EPOLLONESHOT) ||| EPOLLERR ||| EPOLLHUP

/-- The registration after its report. -/
def report (registration : Registration) : Registration :=
  if hasAny registration.event.events EPOLLONESHOT then
    { registration with armed := false }
  else registration

/-- A report keeps the event of the registration. -/
@[simp]
theorem report_event (registration : Registration) :
    registration.report.event = registration.event := by
  unfold report
  split <;> rfl

theorem report_armed {registration : Registration}
    (honeShot : hasAny registration.event.events EPOLLONESHOT = true) :
    registration.report.armed = false := by
  simp [report, honeShot]

end Registration

/-- Descriptors whose `epoll_ctl` calls fail, with the error. -/
abbrev Faults := List (Nat × Errno)

/-- The table of one epoll instance. -/
structure Epoll where
  table : Nat → Option Registration

namespace Epoll

def new : Epoll where
  table := fun _ => none

def set (epoll : Epoll) (fd : Nat) (registration : Option Registration) : Epoll where
  table := Function.update epoll.table fd registration

@[simp]
theorem table_set (epoll : Epoll) (fd other : Nat) (registration : Option Registration) :
    (epoll.set fd registration).table other =
      if other = fd then registration else epoll.table other := by
  simp [set, Function.update_apply]

/-- `epoll_ctl` with `EPOLL_CTL_ADD`. -/
def ctlAdd (epoll : Epoll) (fd : Nat) (event : SysEvent) : Except Errno Epoll :=
  match epoll.table fd with
  | some _ => .error .EEXIST
  | none => .ok (epoll.set fd (some { event, armed := true }))

/-- `epoll_ctl` with `EPOLL_CTL_MOD`. -/
def ctlMod (epoll : Epoll) (fd : Nat) (event : SysEvent) : Except Errno Epoll :=
  match epoll.table fd with
  | some _ => .ok (epoll.set fd (some { event, armed := true }))
  | none => .error .ENOENT

/-- `epoll_ctl` with `EPOLL_CTL_DEL`. -/
def ctlDel (epoll : Epoll) (fd : Nat) : Except Errno Epoll :=
  match epoll.table fd with
  | some _ => .ok (epoll.set fd none)
  | none => .error .ENOENT

/-- Report a batch of descriptors with the bits that are ready, when the kernel can:
each is registered, armed, and ready in something that may be reported. -/
def report (epoll : Epoll) : List (Nat × BitVec 32) → Option (Epoll × List SysEvent)
  | [] => some (epoll, [])
  | (fd, ready) :: rest =>
      match epoll.table fd with
      | none => none
      | some registration =>
          if registration.armed && (ready != 0) &&
              (ready &&& registration.reportable == ready) &&
              decide (fd ∉ rest.map Prod.fst) then
            ((epoll.set fd (some registration.report)).report rest).map
              fun (epoll, events) =>
                (epoll, { events := ready, u64 := registration.event.u64 } :: events)
          else none

/-! ## `Poller` -/

def add (faults : Faults) (epoll : Epoll) (fd : Nat) (event : Event) : Except Errno Epoll :=
  match faults.lookup fd with
  | some errno => .error errno
  | none => epoll.ctlAdd fd (.fromEvent event)

def update (faults : Faults) (epoll : Epoll) (fd : Nat) (event : Event) :
    Except Errno Epoll :=
  match faults.lookup fd with
  | some errno => .error errno
  | none => epoll.ctlMod fd (.fromEvent event)

def delete (faults : Faults) (epoll : Epoll) (fd : Nat) : Except Errno Epoll :=
  match faults.lookup fd with
  | some errno => .error errno
  | none => epoll.ctlDel fd

/-- The `timeout` argument of `epoll_wait`: `as_millis() as c_int`, or `-1`. -/
def timeout (duration : Option Nat) : Int :=
  match duration with
  | some duration => (BitVec.ofNat 32 (duration / 10 ^ 6)).toInt
  | none => -1

/-- `epoll_wait` where the kernel answers with an error or a batch it can report. -/
def poll (epoll : Epoll) (answer : Except Errno (List (Nat × BitVec 32))) :
    Option (Epoll × Except Errno (List SysEvent)) :=
  match answer with
  | .error errno => some (epoll, .error errno)
  | .ok batch => (epoll.report batch).map fun (epoll, events) => (epoll, .ok events)

/-- A failed call leaves the table as it is. -/
def settle (epoll : Epoll) : Except Errno Epoll → Epoll × Except Errno Unit
  | .error errno => (epoll, .error errno)
  | .ok epoll => (epoll, .ok ())

instance : Poller Epoll where
  Faults := Faults
  SysEvent := SysEvent
  Ready := Nat × BitVec 32
  Timeout := Int
  faultless := []
  new := .new
  add faults epoll fd event := epoll.settle (add faults epoll fd event)
  update faults epoll fd event := epoll.settle (update faults epoll fd event)
  delete faults epoll fd := epoll.settle (delete faults epoll fd)
  fromSys := Event.fromSys
  timeout := timeout
  poll := poll

end Epoll

end Platoon.Sys
