import Platoon.Rust.Prelude

/-!
# Pollers

What every platform gives to the reactor.  `sys` compiles in one `Poller`, on epoll or on
kqueue; the reactor above is the same.
-/

namespace Platoon.Sys

/-- The `errno` of a failed system call. -/
inductive Errno where
  | EEXIST
  | ENOENT
  | EINTR
  | other (code : Nat)
  deriving DecidableEq, Repr

structure Event where
  key : Nat
  readable : Bool
  writable : Bool
  deriving DecidableEq, Repr

/-- A `Poller` with the kernel behind it.  Every operation takes the system calls that fail
while it runs; a poll takes the answer of the kernel, an error or what it finds ready. -/
class Poller (P : Type) where
  Faults : Type
  SysEvent : Type
  Ready : Type
  Timeout : Type
  faultless : Faults
  new : P
  add : Faults → P → Nat → Event → P × Except Errno Unit
  update : Faults → P → Nat → Event → P × Except Errno Unit
  delete : Faults → P → Nat → P × Except Errno Unit
  fromSys : SysEvent → Event
  timeout : Option Nat → Timeout
  poll : P → Except Errno (List Ready) → Option (P × Except Errno (List SysEvent))

end Platoon.Sys
