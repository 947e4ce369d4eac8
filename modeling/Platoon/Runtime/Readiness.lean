import Platoon.Runtime.ReactorRuns

/-!
# Failed registrations and events without a reader or a writer

Two ways in which a task can be left asleep: `poll_ready` stores the waker before
the system call that may fail, and `poll` takes no waker for the bits of an event
that are subscribed to but stand for neither direction.
-/

namespace Platoon.Runtime

open Platoon.Foundation Platoon.Rust Platoon.Sys

variable {S : Type → Type} [Slab S] {W : Type}

namespace Reactor

/-! ## A registration that fails -/

section Failed

variable {faults : Faults} {reactor last : Reactor Epoll S W} {key : Nat} {direction : Direction}
  {waker : W} {woken : List W} {errno : Errno}

/-- The source under the key has the reader and the writer it had before. -/
def Restored (before after : Reactor Epoll S W) (key : Nat) : Prop :=
  ∃ source source', Slab.get? before.sources key = some source ∧
    Slab.get? after.sources key = some source' ∧
    source'.reader = source.reader ∧ source'.writer = source.writer

/-- What a `poll_ready` that returns an error has done. -/
theorem pollReady_error
    (hpoll : reactor.pollReady faults key direction waker =
      .ok (last, woken, .ready (.error errno))) :
    ∃ source, Slab.get? reactor.sources key = some source ∧
      (source.interest direction).woke = false ∧ (source.interest direction).poller = none ∧
      last.poller = reactor.poller ∧
      Slab.get? last.sources key = some (source.setInterest direction
        { source.interest direction with poller := some waker }) := by
  simp only [pollReady_epoll] at hpoll
  split at hpoll
  · cases hpoll
  · rename_i source hget
    split at hpoll
    · cases hpoll
    · rename_i hwoke
      split at hpoll
      · cases hpoll
      · rename_i hnone
        split at hpoll
        · cases hpoll
          refine ⟨source, hget, Bool.eq_false_iff.mpr hwoke, hnone, rfl, ?_⟩
          rw [Slab.get?_set _ _ _ _ (by simp [hget]), if_pos rfl]
        · cases hpoll

/-- A stored waker makes `poll_ready` return `Pending` without a system call. -/
theorem pollReady_stored {source : Source W} {stored : W}
    (hget : Slab.get? reactor.sources key = some source)
    (hwoke : (source.interest direction).woke = false)
    (hpoller : (source.interest direction).poller = some stored) :
    ∃ after, reactor.pollReady faults key direction waker = .ok (after, [stored], .pending) ∧
      after.poller = reactor.poller := by
  simp [pollReady_epoll, hget, hwoke, hpoller]

/-- Whenever updating the interest fails, the waker stays behind, and the next
`poll_ready` of the direction returns `Pending` and leaves the kernel's table as it was
before the failed call. -/
theorem failed_update_kept
    (hpoll : reactor.pollReady faults key direction waker =
      .ok (last, woken, .ready (.error errno))) :
    ¬ Restored reactor last key ∧
      ∀ faults' waker', ∃ after,
        last.pollReady faults' key direction waker' = .ok (after, [waker], .pending) ∧
          after.poller = reactor.poller := by
  obtain ⟨source, hget, hwoke, hnone, htable, hlast⟩ := pollReady_error hpoll
  constructor
  · rintro ⟨before, after, hbefore, hafter, hreader, hwriter⟩
    rw [hget, Option.some.injEq] at hbefore
    rw [hlast, Option.some.injEq] at hafter
    subst hbefore
    subst hafter
    cases direction with
    | read =>
        have hsame := congrArg Interest.poller hreader
        simp only [Source.setInterest, Source.interest] at hsame hnone
        rw [hnone] at hsame
        cases hsame
    | write =>
        have hsame := congrArg Interest.poller hwriter
        simp only [Source.setInterest, Source.interest] at hsame hnone
        rw [hnone] at hsame
        cases hsame
  · intro faults' waker'
    rw [← htable]
    exact pollReady_stored hlast (by simp [hwoke]) (by simp)

end Failed

/-- A reactor with one source, which nobody polled yet. -/
def registered : Reactor Epoll FreeSlab Nat := (Reactor.new.insertSource [] 5).1

theorem registered_run :
    system.Run Reactor.new [({ op := .insertSource 5 }, { answer := .inserted (.ok 0) })]
      registered :=
  .single rfl

/-- The first registration for reading fails, for lack of memory. -/
theorem failed_update_kept_firstRead :
    ∃ last, registered.pollReady [(5, .other 12)] 0 .read 7 =
        .ok (last, [], .ready (.error (.other 12))) ∧ ¬ Restored registered last 0 := by
  have hpoll : registered.pollReady [(5, .other 12)] 0 .read 7 =
      .ok (_, [], .ready (.error (.other 12))) := rfl
  exact ⟨_, hpoll, (failed_update_kept hpoll).1⟩

/-- After that failure the next `poll_ready` returns `Pending` with the kernel not armed
for reading. -/
theorem pending_unarmed :
    ∃ reactor last : Reactor Epoll FreeSlab Nat,
      system.Run Reactor.new
          [({ op := .insertSource 5 }, { answer := .inserted (.ok 0) }),
            ({ op := .pollReady 0 .read 7, faults := [(5, .other 12)] },
              { answer := .polled (.ready (.error (.other 12))) })] reactor ∧
        system.step reactor { op := .pollReady 0 .read 7 } =
          .next last { woken := [7], answer := .polled .pending } ∧
        (last.poller.table 5).any (·.interested EPOLLIN) = false := by
  have hrun : system.Run (Reactor.new : Reactor Epoll FreeSlab Nat)
      ([({ op := .insertSource 5 }, { answer := .inserted (.ok 0) })] ++
        [({ op := .pollReady 0 .read 7, faults := [(5, .other 12)] },
          { answer := .polled (.ready (.error (.other 12))) })]) _ :=
    registered_run.snoc rfl
  exact ⟨_, _, hrun, rfl, by decide⟩

end Reactor

/-! ## Events and the wakers they stand for -/

section Bits

variable {bits mask : BitVec 32}

theorem hasAny_or (left right : BitVec 32) :
    hasAny bits (left ||| right) = (hasAny bits left || hasAny bits right) := by
  rw [Bool.eq_iff_iff]
  simp only [hasAny, BitVec.and_or_distrib_left, bne_iff_ne, Bool.or_eq_true, ne_eq,
    ← not_and_or]
  exact not_congr BitVec.or_eq_zero_iff

/-- Of bits within a mask only the flags in the mask matter. -/
theorem hasAny_of_subset (hsubset : bits &&& mask = bits) (flags : BitVec 32) :
    hasAny bits flags = hasAny bits (mask &&& flags) := by
  rw [hasAny, hasAny, ← BitVec.and_assoc, hsubset]

theorem hasAny_zero : hasAny bits 0 = false := by
  simp [hasAny]

end Bits

namespace Source

variable (source : Source W) (key : Nat) {bits : BitVec 32}

/-- The bits that epoll may report for the interest that `update_interest` arms. -/
def reportable : BitVec 32 :=
  Registration.reportable { event := .fromEvent (source.event key), armed := true }

/-- The armed bits among those that the code decodes. -/
theorem reportable_and :
    source.reportable key &&& EPOLLIN = (if source.reader.hasPoller then EPOLLIN else 0) ∧
      source.reportable key &&& EPOLLPRI = 0 ∧
      source.reportable key &&& EPOLLOUT = if source.writer.hasPoller then EPOLLOUT else 0 := by
  unfold reportable event
  cases source.reader.hasPoller <;> cases source.writer.hasPoller <;>
    simp [Registration.reportable, SysEvent.fromEvent, EPOLLIN, EPOLLPRI, EPOLLOUT, EPOLLERR,
      EPOLLHUP, EPOLLRDHUP, EPOLLONESHOT]

variable {source key}

/-- Bits that epoll may report are decoded as readable or writable only for a direction
with a stored waker, and only by `EPOLLIN` and `EPOLLOUT`. -/
theorem decoded (hallowed : bits &&& source.reportable key = bits) :
    (hasAny bits (EPOLLIN ||| EPOLLPRI) && source.reader.hasPoller ||
        hasAny bits EPOLLOUT && source.writer.hasPoller) =
      hasAny bits (EPOLLIN ||| EPOLLOUT) := by
  obtain ⟨hin, hpri, hout⟩ := source.reportable_and key
  have hread := hasAny_of_subset hallowed EPOLLIN
  have hwrite := hasAny_of_subset hallowed EPOLLOUT
  have hurgent := hasAny_of_subset hallowed EPOLLPRI
  rw [hin] at hread
  rw [hout] at hwrite
  rw [hpri, hasAny_zero] at hurgent
  rw [hasAny_or, hasAny_or, hurgent, Bool.or_false]
  cases hreader : source.reader.hasPoller with
  | false =>
      rw [hreader, if_neg Bool.false_ne_true, hasAny_zero] at hread
      cases hwriter : source.writer.hasPoller with
      | false =>
          rw [hwriter, if_neg Bool.false_ne_true, hasAny_zero] at hwrite
          simp [hread, hwrite]
      | true => simp [hread]
  | true =>
      cases hwriter : source.writer.hasPoller with
      | false =>
          rw [hwriter, if_neg Bool.false_ne_true, hasAny_zero] at hwrite
          simp [hwrite]
      | true => simp

end Source

namespace Reactor

/-- A waker that was stored for the source under the key is no longer stored. -/
def Released (before after : Reactor Epoll S W) (key : Nat) : Prop :=
  ∃ direction waker, before.Waiting key direction waker ∧
    ∀ other, ¬ after.Waiting key direction other

/-- Updating the interest of the source under the event's key does not fail, should a
waker remain that the event does not take. -/
def Rearms (faults : Faults) (reactor : Reactor Epoll S W) (e : Event) : Prop :=
  ∀ source, Slab.get? reactor.sources e.key = some source →
    (source.reader.hasPoller && !e.readable || source.writer.hasPoller && !e.writable) = true →
    faults.lookup source.raw = none ∧ (reactor.poller.table source.raw).isSome = true

section Handled

variable {faults : Faults} {reactor last : Reactor Epoll S W} {e : Event} {wakers handed : List W}
  {result : Except Errno Unit}

/-- What the body of the loop does to the kernel's table, and when it succeeds. -/
theorem handleEvent_spec {source : Source W}
    (hget : Slab.get? reactor.sources e.key = some source)
    (hevent : reactor.handleEvent faults e wakers = (last, handed, result)) :
    (∀ fd, (last.poller.table fd).isSome = (reactor.poller.table fd).isSome) ∧
      (result = .ok () ↔ Rearms faults reactor e) := by
  obtain ⟨hreader, hwriter⟩ := hasPoller_taken source e
  have hrearms : Rearms faults reactor e ↔
      ((taken source e).reader.hasPoller || (taken source e).writer.hasPoller) = true →
        faults.lookup source.raw = none ∧ (reactor.poller.table source.raw).isSome = true := by
    rw [hreader, hwriter, Rearms]
    constructor
    · intro hall
      exact hall source hget
    · intro hone other hother
      rw [hget, Option.some.injEq] at hother
      exact hother ▸ hone
  rw [hrearms]
  simp only [handleEvent_epoll, hget, takeIf_takeIf] at hevent
  split at hevent
  · rename_i hpollers
    rw [Epoll.update, raw_taken] at hevent
    cases hfault : faults.lookup source.raw with
    | some errno =>
        rw [hfault] at hevent
        cases hevent
        simp [hpollers]
    | none =>
        rw [hfault] at hevent
        simp only [Epoll.ctlMod] at hevent
        cases htable : reactor.poller.table source.raw with
        | none =>
            rw [htable] at hevent
            cases hevent
            simp [hpollers]
        | some registration =>
            rw [htable] at hevent
            cases hevent
            refine ⟨fun fd => ?_, by simp [hpollers]⟩
            rw [Epoll.table_set]
            split
            · rename_i heq
              simp [heq, htable]
            · rfl
  · rename_i hidle
    cases hevent
    exact ⟨fun fd => rfl, by simp [hidle]⟩

/-- An event releases a waker exactly when it carries a direction that has one. -/
theorem released_handleEvent {source : Source W}
    (hget : Slab.get? reactor.sources e.key = some source)
    (hevent : reactor.handleEvent faults e wakers = (last, handed, result)) :
    Released reactor last e.key ↔
      (e.readable && source.reader.hasPoller || e.writable && source.writer.hasPoller) = true := by
  have hlast := get?_handled hget hevent
  obtain ⟨hreader, hwriter⟩ := poller_taken source e
  constructor
  · rintro ⟨direction, waker, ⟨before, hbefore, hstored⟩, hgone⟩
    rw [hget, Option.some.injEq] at hbefore
    subst hbefore
    have hnone : ∀ other, ((taken source e).interest direction).poller ≠ some other :=
      fun other hother => hgone other ⟨_, hlast, hother⟩
    cases direction with
    | read =>
        simp only [Source.interest] at hstored hnone
        rw [hreader] at hnone
        cases hcarried : e.readable with
        | true => simp [Interest.hasPoller, hstored]
        | false => simp [hcarried, hstored] at hnone
    | write =>
        simp only [Source.interest] at hstored hnone
        rw [hwriter] at hnone
        cases hcarried : e.writable with
        | true => simp [Interest.hasPoller, hstored]
        | false => simp [hcarried, hstored] at hnone
  · intro hcarries
    rw [Bool.or_eq_true, Bool.and_eq_true, Bool.and_eq_true] at hcarries
    rcases hcarries with ⟨hcarried, hpoller⟩ | ⟨hcarried, hpoller⟩
    · obtain ⟨waker, hwaker⟩ := Option.isSome_iff_exists.mp hpoller
      refine ⟨.read, waker, ⟨source, hget, hwaker⟩, ?_⟩
      rintro other ⟨after, hafter, hother⟩
      rw [hlast, Option.some.injEq] at hafter
      subst hafter
      simp [Source.interest, hreader, hcarried] at hother
    · obtain ⟨waker, hwaker⟩ := Option.isSome_iff_exists.mp hpoller
      refine ⟨.write, waker, ⟨source, hget, hwaker⟩, ?_⟩
      rintro other ⟨after, hafter, hother⟩
      rw [hlast, Option.some.injEq] at hafter
      subst hafter
      simp [Source.interest, hwriter, hcarried] at hother

end Handled

section Batch

variable {faults : Faults} {reactor last : Reactor Epoll S W} {wakers handed : List W}
  {result : Except Errno Unit}

/-- The event carries a direction of its source that has a stored waker. -/
def Carries (reactor : Reactor Epoll S W) (e : Event) : Prop :=
  ∃ source, Slab.get? reactor.sources e.key = some source ∧
    (e.readable && source.reader.hasPoller || e.writable && source.writer.hasPoller) = true

theorem released_congr {before before' after after' : Reactor Epoll S W} {key : Nat}
    (hbefore : Slab.get? before.sources key = Slab.get? before'.sources key)
    (hafter : Slab.get? after.sources key = Slab.get? after'.sources key) :
    Released before after key ↔ Released before' after' key := by
  simp only [Released, Waiting, hbefore, hafter]

theorem not_released_self {key : Nat} : ¬ Released reactor reactor key := by
  rintro ⟨direction, waker, hwaiting, hgone⟩
  exact hgone waker hwaiting

/-- The loop leaves the sources alone that have no event. -/
theorem get?_handleEvents {events : List Event}
    (hevents : reactor.handleEvents faults wakers events = (last, handed, result)) {key : Nat}
    (hother : key ∉ events.map Event.key) :
    Slab.get? last.sources key = Slab.get? reactor.sources key := by
  induction events generalizing reactor wakers with
  | nil =>
      cases hevents
      rfl
  | cons e events ih =>
      rw [List.map_cons, List.mem_cons, not_or] at hother
      simp only [handleEvents] at hevents
      split at hevents
      · rename_i hevent
        cases hevents
        exact get?_handleEvent hevent hother.1
      · rename_i hevent
        rw [ih hevents hother.2, get?_handleEvent hevent hother.1]

theorem carries_congr {before before' : Reactor Epoll S W}
    (hsame : Slab.get? before.sources e.key = Slab.get? before'.sources e.key) :
    Carries before e ↔ Carries before' e := by
  rw [Carries, hsame, Carries]

theorem rearms_congr {before before' : Reactor Epoll S W}
    (hsame : Slab.get? before.sources e.key = Slab.get? before'.sources e.key)
    (htable : ∀ fd, (before.poller.table fd).isSome = (before'.poller.table fd).isSome) :
    Rearms faults before e ↔ Rearms faults before' e := by
  simp only [Rearms, hsame, htable]

theorem carries_iff {source : Source W}
    (hget : Slab.get? reactor.sources e.key = some source) :
    Carries reactor e ↔
      (e.readable && source.reader.hasPoller || e.writable && source.writer.hasPoller) = true := by
  simp [Carries, hget]

/-- A batch that stops with an error at its first event releases no waker for the others. -/
theorem released_of_stopped {source : Source W} {rest : List Event} {errno : Errno}
    (hget : Slab.get? reactor.sources e.key = some source)
    (hne : ∀ other ∈ rest, other.key ≠ e.key)
    (hevent : reactor.handleEvent faults e wakers = (last, handed, .error errno)) :
    (∀ other ∈ e :: rest, Released reactor last other.key) ↔
      (∀ other ∈ e :: rest, Carries reactor other) ∧
        ∀ other ∈ (e :: rest).dropLast, Rearms faults reactor other := by
  have hreleased := released_handleEvent hget hevent
  have hfails : ¬ Rearms faults reactor e := by
    intro hrearms
    cases (handleEvent_spec hget hevent).2.mpr hrearms
  cases rest with
  | nil => simp [hreleased, carries_iff hget]
  | cons next others =>
      have hlost : ¬ Released reactor last next.key := by
        rw [released_congr rfl (get?_handleEvent hevent (hne next List.mem_cons_self))]
        exact not_released_self
      constructor
      · intro hall
        exact absurd (hall next (by simp)) hlost
      · rintro ⟨-, hall⟩
        exact absurd (hall e (by simp)) hfails

/-- Events for distinct live sources all release a waker exactly when each carries one,
and no update of an interest fails before the last event. -/
theorem released_handleEvents {events : List Event} (hdistinct : (events.map Event.key).Nodup)
    (hlive : ∀ e ∈ events, ∃ source, Slab.get? reactor.sources e.key = some source)
    (hevents : reactor.handleEvents faults wakers events = (last, handed, result)) :
    (∀ e ∈ events, Released reactor last e.key) ↔
      (∀ e ∈ events, Carries reactor e) ∧ ∀ e ∈ events.dropLast, Rearms faults reactor e := by
  induction events generalizing reactor wakers with
  | nil => simp
  | cons e rest ih =>
      obtain ⟨hfresh, hrest⟩ := List.nodup_cons.mp hdistinct
      have hne : ∀ other ∈ rest, other.key ≠ e.key := by
        intro other hother heq
        exact hfresh (heq ▸ List.mem_map_of_mem hother)
      obtain ⟨source, hget⟩ := hlive e List.mem_cons_self
      simp only [handleEvents] at hevents
      split at hevents
      · rename_i hevent
        cases hevents
        exact released_of_stopped hget hne hevent
      · rename_i first woken hevent
        have hframe : ∀ other ∈ rest,
            Slab.get? first.sources other.key = Slab.get? reactor.sources other.key :=
          fun other hother => get?_handleEvent hevent (hne other hother)
        obtain ⟨htable, hresult⟩ := handleEvent_spec hget hevent
        have hfirst : Released reactor last e.key ↔ Carries reactor e := by
          rw [carries_iff hget, ← released_handleEvent hget hevent]
          exact released_congr rfl (get?_handleEvents hevents hfresh)
        have hothers : (∀ other ∈ rest, Released reactor last other.key) ↔
            ∀ other ∈ rest, Released first last other.key :=
          forall₂_congr fun other hother => released_congr (hframe other hother).symm rfl
        have hcarry : (∀ other ∈ rest, Carries first other) ↔
            ∀ other ∈ rest, Carries reactor other :=
          forall₂_congr fun other hother => carries_congr (hframe other hother)
        have hrearm : (∀ other ∈ rest.dropLast, Rearms faults first other) ↔
            ∀ other ∈ rest.dropLast, Rearms faults reactor other :=
          forall₂_congr fun other hother =>
            rearms_congr (hframe other (List.dropLast_subset _ hother)) htable
        have hlater := ih hrest (fun other hother => by
          rw [hframe other hother]
          exact hlive other (List.mem_cons_of_mem _ hother)) hevents
        rw [hcarry, hrearm] at hlater
        rw [List.forall_mem_cons, List.forall_mem_cons, hfirst, hothers, hlater]
        cases rest with
        | nil => simp
        | cons next others =>
            rw [List.dropLast_cons_cons, List.forall_mem_cons (a := e),
              and_iff_right (hresult.mp rfl), and_assoc]

/-- A waker that was stored for the source under the key was taken and handed out. -/
def HandsOut (before after : Reactor Epoll S W) (handed : List W) (key : Nat) : Prop :=
  ∃ direction waker, before.Waiting key direction waker ∧
    (∀ other, ¬ after.Waiting key direction other) ∧ waker ∈ handed

/-- The event is one that epoll may report for what the code armed: its source is live and
has a stored waker, and it carries some of the bits subscribed to, errors or hang-ups. -/
def Reported (reactor : Reactor Epoll S W) (e : SysEvent) : Prop :=
  ∃ source, Slab.get? reactor.sources e.u64 = some source ∧
    (source.reader.hasPoller || source.writer.hasPoller) = true ∧
    e.events ≠ 0 ∧ e.events &&& source.reportable e.u64 = e.events

/-- A batch, which has at most one event for each source, makes progress on every event
exactly when each carries `EPOLLIN` or `EPOLLOUT` and no update of an interest fails before
the last: `EPOLLRDHUP`, `EPOLLERR` and `EPOLLHUP` alone wake nobody. -/
theorem events_progress_iff {events : List SysEvent}
    (hdistinct : (events.map SysEvent.u64).Nodup) (hreported : ∀ e ∈ events, Reported reactor e)
    (hpoll : reactor.poll faults (.ok events) wakers = (last, handed, result)) :
    (∀ e ∈ events, HandsOut reactor last handed e.u64) ↔
      (∀ e ∈ events, hasAny e.events (EPOLLIN ||| EPOLLOUT) = true) ∧
        ∀ e ∈ events.dropLast, Rearms faults reactor (.fromSys e) := by
  simp only [poll] at hpoll
  have hkeys : (events.map Event.fromSys).map Event.key = events.map SysEvent.u64 := by
    rw [List.map_map]
    rfl
  have hlive : ∀ e ∈ events.map Event.fromSys, ∃ source,
      Slab.get? reactor.sources e.key = some source := by
    intro e hmem
    obtain ⟨sys, hsys, rfl⟩ := List.mem_map.mp hmem
    obtain ⟨source, hget, -⟩ := hreported sys hsys
    exact ⟨source, hget⟩
  have hbatch := released_handleEvents (hkeys ▸ hdistinct) hlive hpoll
  rw [List.forall_mem_map, List.forall_mem_map, ← List.map_dropLast, List.forall_mem_map]
    at hbatch
  have hhands : ∀ e ∈ events, HandsOut reactor last handed e.u64 ↔
      Released reactor last (Event.fromSys e).key := by
    intro e hmem
    constructor
    · rintro ⟨direction, waker, hwaiting, hgone, -⟩
      exact ⟨direction, waker, hwaiting, hgone⟩
    · rintro ⟨direction, waker, hwaiting, hgone⟩
      refine ⟨direction, waker, hwaiting, hgone, ?_⟩
      exact (waiting_handleEvents hwaiting hpoll).resolve_left (hgone waker)
  have hdecoded : ∀ e ∈ events, Carries reactor (.fromSys e) ↔
      hasAny e.events (EPOLLIN ||| EPOLLOUT) = true := by
    intro e hmem
    obtain ⟨source, hget, -, -, hallowed⟩ := hreported e hmem
    rw [← Source.decoded hallowed, Carries]
    constructor
    · rintro ⟨other, hother, hcarries⟩
      rw [Event.fromSys, hget, Option.some.injEq] at hother
      exact hother ▸ hcarries
    · intro hcarries
      exact ⟨source, hget, hcarries⟩
  rw [forall₂_congr hhands, hbatch, forall₂_congr hdecoded]

end Batch

/-- The source of `registered` after a reader was left pending. -/
def readerWaits : Reactor Epoll FreeSlab Nat :=
  match registered.pollReady [] 0 .read 7 with
  | .ok (reactor, _, _) => reactor
  | .error _ => registered

example :
    system.Run Reactor.new
      ([({ op := .insertSource 5 }, { answer := .inserted (.ok 0) })] ++
        [({ op := .pollReady 0 .read 7 }, { answer := .polled .pending })]) readerWaits :=
  registered_run.snoc rfl

theorem events_progress_readerWaits :
    ∃ last handed result,
      readerWaits.poll [] (.ok [SysEvent.mk (EPOLLIN ||| EPOLLRDHUP) 0]) [] =
          (last, handed, result) ∧
        HandsOut readerWaits last handed 0 := by
  have hdistinct : ([SysEvent.mk (EPOLLIN ||| EPOLLRDHUP) 0].map SysEvent.u64).Nodup :=
    List.nodup_singleton 0
  have hreported : ∀ e ∈ [SysEvent.mk (EPOLLIN ||| EPOLLRDHUP) 0], Reported readerWaits e := by
    simp only [List.forall_mem_singleton]
    exact ⟨⟨5, { poller := some 7 }, {}⟩, rfl, rfl, by decide, by decide⟩
  have hcarries : ∀ e ∈ [SysEvent.mk (EPOLLIN ||| EPOLLRDHUP) 0],
      hasAny e.events (EPOLLIN ||| EPOLLOUT) = true := by
    simp only [List.forall_mem_singleton]
    decide
  obtain ⟨last, handed, result, hpoll⟩ : ∃ last handed result,
      readerWaits.poll [] (.ok [SysEvent.mk (EPOLLIN ||| EPOLLRDHUP) 0]) [] =
        (last, handed, result) := ⟨_, _, _, rfl⟩
  have hprogress := (events_progress_iff hdistinct hreported hpoll).mpr ⟨hcarries, by simp⟩
  exact ⟨last, handed, result, hpoll, hprogress _ List.mem_cons_self⟩

/-- The peer shuts down its side while the reader waits: epoll reports `EPOLLRDHUP`, which
is subscribed to, and the poll hands out nobody and arms the same interest again. -/
theorem hangUp_wakes_nobody :
    ∃ last, system.step readerWaits { op := .poll none (.ok [(5, EPOLLRDHUP)]) } =
        .next last { answer := .waited (-1 : Int) (.ok ()) } ∧
      last.Waiting 0 .read 7 ∧ last.Armed 0 .read ∧
      Reported readerWaits ⟨EPOLLRDHUP, 0⟩ := by
  refine ⟨_, rfl, ⟨_, rfl, rfl⟩, ⟨_, _, rfl, rfl, rfl, rfl⟩, ?_⟩
  exact ⟨⟨5, { poller := some 7 }, {}⟩, rfl, rfl, by decide, by decide⟩

end Reactor

end Platoon.Runtime
