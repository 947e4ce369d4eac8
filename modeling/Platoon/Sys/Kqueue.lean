import Platoon.Sys.Poller

/-!
# The kqueue poller

The `Poller` of the BSDs and of macOS.  The kernel keeps a note for each descriptor and
filter.  A note made with `EV_ONESHOT` is deleted when it is reported.  A call of `kevent`
applies its changes one by one and, with `EV_RECEIPT`, writes a receipt over each;
`faults` says which fail.
-/

namespace Platoon.Sys

/-- `EVFILT_READ` and `EVFILT_WRITE`. -/
inductive Filter where
  | read
  | write
  deriving DecidableEq, Repr

/-- The notes of one kqueue: under a descriptor and a filter, the `udata` and whether the
note is deleted by its report. -/
structure Kqueue where
  notes : Nat → Filter → Option (Nat × Bool)

namespace Kqueue

def EV_ADD : BitVec 16 := 0x0001
def EV_DELETE : BitVec 16 := 0x0002
def EV_ONESHOT : BitVec 16 := 0x0010
def EV_RECEIPT : BitVec 16 := 0x0040
def EV_ERROR : BitVec 16 := 0x4000
def EV_EOF : BitVec 16 := 0x8000

def EPIPE : Errno := .other 32

/-- `flags & bits != 0`. -/
def hasAny (flags bits : BitVec 16) : Bool := flags &&& bits != 0

/-- `libc::kevent`.  The `data` of a receipt is an `errno`, or zero. -/
structure SysEvent where
  ident : Nat
  filter : Filter
  flags : BitVec 16
  data : Option Errno
  udata : Nat
  deriving DecidableEq, Repr

/-- `impl From<&SysEvent> for Event`. -/
def fromSys (sys : SysEvent) : Event where
  key := sys.udata
  readable := decide (sys.filter = .read)
  writable := decide (sys.filter = .write) ||
    (decide (sys.filter = .read) && hasAny sys.flags EV_EOF)

def kchange (fd : Nat) (interested : Bool) (filter : Filter) (key : Nat) : SysEvent where
  ident := fd
  filter := filter
  flags := EV_RECEIPT ||| if interested then EV_ADD ||| EV_ONESHOT else EV_DELETE
  data := none
  udata := key

/-- Which calls of `kevent` fail, and which changes of the others. -/
structure Faults where
  call : Option Errno := none
  changes : List ((Nat × Filter) × Errno) := []
  deriving DecidableEq, Repr

def new : Kqueue where
  notes := fun _ _ => none

def set (kqueue : Kqueue) (fd : Nat) (filter : Filter) (note : Option (Nat × Bool)) :
    Kqueue where
  notes := fun other filter' =>
    if other = fd ∧ filter' = filter then note else kqueue.notes other filter'

@[simp]
theorem notes_set (kqueue : Kqueue) (fd other : Nat) (filter filter' : Filter)
    (note : Option (Nat × Bool)) :
    (kqueue.set fd filter note).notes other filter' =
      if other = fd ∧ filter' = filter then note else kqueue.notes other filter' := rfl

/-- One change, with the `errno` of its receipt. -/
def change (faults : Faults) (kqueue : Kqueue) (event : SysEvent) : Kqueue × Option Errno :=
  match faults.changes.lookup (event.ident, event.filter) with
  | some errno => (kqueue, some errno)
  | none =>
      if hasAny event.flags EV_ADD then
        (kqueue.set event.ident event.filter
          (some (event.udata, hasAny event.flags EV_ONESHOT)), none)
      else if hasAny event.flags EV_DELETE then
        match kqueue.notes event.ident event.filter with
        | none => (kqueue, some .ENOENT)
        | some _ => (kqueue.set event.ident event.filter none, none)
      else (kqueue, none)

/-- `kevent` with a list of changes and room for their receipts. -/
def kevent (faults : Faults) (kqueue : Kqueue) : List SysEvent → Kqueue × List SysEvent
  | [] => (kqueue, [])
  | event :: changes =>
      let (kqueue, data) := kqueue.change faults event
      let (kqueue, receipts) := kqueue.kevent faults changes
      (kqueue, { event with flags := event.flags ||| EV_ERROR, data } :: receipts)

/-- `kevent` without changes: report a batch of notes, each with the flags of its event. -/
def report (kqueue : Kqueue) :
    List (Nat × Filter × BitVec 16) → Option (Kqueue × List SysEvent)
  | [] => some (kqueue, [])
  | (fd, filter, flags) :: rest =>
      match kqueue.notes fd filter with
      | none => none
      | some (udata, oneShot) =>
          (report (if oneShot then kqueue.set fd filter none else kqueue) rest).map
            fun (kqueue, events) =>
              (kqueue, { ident := fd, filter, flags, data := none, udata } :: events)

/-! ## `Poller` -/

/-- The loop over the receipts in `update`. -/
def checkReceipts : List SysEvent → Except Errno Unit
  | [] => .ok ()
  | event :: changes =>
      match event.data with
      | some errno =>
          -- the event we tried to modify wasn't found, which is fine
          if hasAny event.flags EV_ERROR ∧ errno ≠ .ENOENT ∧ errno ≠ EPIPE then .error errno
          else checkReceipts changes
      | none => checkReceipts changes

def update (faults : Faults) (kqueue : Kqueue) (fd : Nat) (event : Event) :
    Kqueue × Except Errno Unit :=
  let changes :=
    [kchange fd event.readable .read event.key, kchange fd event.writable .write event.key]
  match faults.call with
  | some errno => (kqueue, .error errno)
  | none =>
      let (kqueue, changes) := kqueue.kevent faults changes
      (kqueue, checkReceipts changes)

def add (faults : Faults) (kqueue : Kqueue) (fd : Nat) (event : Event) :
    Kqueue × Except Errno Unit :=
  kqueue.update faults fd event

def delete (faults : Faults) (kqueue : Kqueue) (fd : Nat) : Kqueue × Except Errno Unit :=
  kqueue.update faults fd { key := 0, readable := false, writable := false }

/-- `poll` where the kernel answers with an error or a batch it can report. -/
def poll (kqueue : Kqueue) (answer : Except Errno (List (Nat × Filter × BitVec 16))) :
    Option (Kqueue × Except Errno (List SysEvent)) :=
  match answer with
  | .error errno => some (kqueue, .error errno)
  | .ok batch => (kqueue.report batch).map fun (kqueue, events) => (kqueue, .ok events)

/-- The `timespec` of a poll, in seconds and nanoseconds. -/
def timeout (duration : Option Nat) : Option (Nat × Nat) :=
  duration.map fun duration => (duration / 10 ^ 9, duration % 10 ^ 9)

instance : Poller Kqueue where
  Faults := Faults
  SysEvent := SysEvent
  Ready := Nat × Filter × BitVec 16
  Timeout := Option (Nat × Nat)
  faultless := {}
  new := .new
  add := add
  update := update
  delete := delete
  fromSys := fromSys
  timeout := timeout
  poll := poll

/-- Whether an event asks for a filter. -/
def wants (event : Event) : Filter → Bool
  | .read => event.readable
  | .write => event.writable

section Spec

variable (kqueue : Kqueue)

/-- Without faults a change fails only by deleting what is not there. -/
theorem change_receipt (event : SysEvent) :
    (kqueue.change {} event).2 = none ∨ (kqueue.change {} event).2 = some .ENOENT := by
  unfold change
  simp only [List.lookup_nil]
  split
  · exact .inl rfl
  · split
    · split
      · exact .inr rfl
      · exact .inl rfl
    · exact .inl rfl

theorem checkReceipts_kevent (changes : List SysEvent) :
    checkReceipts (kqueue.kevent {} changes).2 = .ok () := by
  induction changes generalizing kqueue with
  | nil => rfl
  | cons event changes ih =>
      simp only [kevent, checkReceipts]
      rcases kqueue.change_receipt event with hdata | hdata
      · simp only [hdata]
        exact ih _
      · simp only [hdata, ne_eq, not_true_eq_false, false_and, and_false, if_false]
        exact ih _

theorem notes_change (fd other : Nat) (interested : Bool) (filter filter' : Filter) (key : Nat) :
    (kqueue.change {} (kchange fd interested filter key)).1.notes other filter' =
      if other = fd ∧ filter' = filter then if interested then some (key, true) else none
      else kqueue.notes other filter' := by
  cases interested with
  | true =>
      have hadd : hasAny (EV_RECEIPT ||| (EV_ADD ||| EV_ONESHOT)) EV_ADD = true := by decide
      have honeShot : hasAny (EV_RECEIPT ||| (EV_ADD ||| EV_ONESHOT)) EV_ONESHOT = true := by
        decide
      simp [change, kchange, hadd, honeShot]
  | false =>
      have hadd : hasAny (EV_RECEIPT ||| EV_DELETE) EV_ADD = false := by decide
      have hdelete : hasAny (EV_RECEIPT ||| EV_DELETE) EV_DELETE = true := by decide
      simp only [change, kchange, List.lookup_nil, Bool.false_eq_true, if_false, hadd, hdelete,
        if_true]
      split
      · rename_i hnone
        split
        · rename_i hsame
          rw [hsame.1, hsame.2, hnone]
        · rfl
      · rfl

/-- A call without faults makes the notes of a descriptor those that the event asks for. -/
theorem update_spec (fd : Nat) (event : Event) :
    (Poller.update Poller.faultless kqueue fd event).2 = .ok () ∧
      ∀ other filter, (Poller.update Poller.faultless kqueue fd event).1.notes other filter =
        if other = fd then if wants event filter then some (event.key, true) else none
        else kqueue.notes other filter := by
  simp only [Poller.update, Poller.faultless, update]
  refine ⟨kqueue.checkReceipts_kevent _, fun other filter => ?_⟩
  simp only [kevent, notes_change]
  by_cases hfd : other = fd
  · subst hfd
    cases filter with
    | read =>
        simp only [reduceCtorEq, and_false, and_true, if_true, if_false]
        rfl
    | write =>
        simp only [and_true, if_true]
        rfl
  · simp [hfd]

theorem add_eq_update (faults : Faults) (fd : Nat) (event : Event) :
    Poller.add faults kqueue fd event = Poller.update faults kqueue fd event := rfl

theorem delete_eq_update (faults : Faults) (fd : Nat) :
    Poller.delete faults kqueue fd =
      Poller.update faults kqueue fd { key := 0, readable := false, writable := false } := rfl

end Spec

/-- A batch is reported note by note. -/
theorem report_cons {kqueue last : Kqueue} {fd : Nat} {filter : Filter} {flags : BitVec 16}
    {rest : List (Nat × Filter × BitVec 16)} {events : List SysEvent}
    (hreport : kqueue.report ((fd, filter, flags) :: rest) = some (last, events)) :
    ∃ udata oneShot others, kqueue.notes fd filter = some (udata, oneShot) ∧
      report (if oneShot then kqueue.set fd filter none else kqueue) rest = some (last, others) ∧
      events = { ident := fd, filter, flags, data := none, udata } :: others := by
  simp only [report] at hreport
  split at hreport
  · cases hreport
  · rename_i udata oneShot hnote
    obtain ⟨⟨_, others⟩, hrest, heq⟩ := Option.map_eq_some_iff.mp hreport
    cases heq
    exact ⟨udata, oneShot, others, hnote, hrest, rfl⟩

/-- The events are those of the batch, each with the `udata` of its note. -/
theorem report_spec {kqueue last : Kqueue} {batch : List (Nat × Filter × BitVec 16)}
    {events : List SysEvent} (hreport : kqueue.report batch = some (last, events)) :
    events.map (fun event => (event.ident, event.filter, event.flags)) = batch ∧
      ∀ event ∈ events, ∃ oneShot,
        kqueue.notes event.ident event.filter = some (event.udata, oneShot) := by
  induction batch generalizing kqueue events with
  | nil =>
      cases hreport
      exact ⟨rfl, by simp⟩
  | cons first rest ih =>
      obtain ⟨fd, filter, flags⟩ := first
      obtain ⟨udata, oneShot, others, hnote, hrest, rfl⟩ := report_cons hreport
      obtain ⟨hbatch, hnotes⟩ := ih hrest
      refine ⟨by simp [hbatch], fun event hmem => ?_⟩
      rcases List.mem_cons.mp hmem with rfl | hlater
      · exact ⟨oneShot, hnote⟩
      · obtain ⟨still, hstill⟩ := hnotes event hlater
        split at hstill
        · rw [notes_set] at hstill
          split at hstill
          · cases hstill
          · exact ⟨still, hstill⟩
        · exact ⟨still, hstill⟩

end Kqueue

end Platoon.Sys
