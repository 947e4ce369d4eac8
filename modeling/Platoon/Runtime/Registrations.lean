import Platoon.Foundation.Pairing
import Platoon.Runtime.ReactorRuns
import Platoon.Runtime.Readiness

/-!
# What is registered

The slab of the sources and the kernel's table index each other: a source stores its
descriptor, and the registration of a descriptor carries the key of its source.
Polls never change who is registered, whatever calls of `epoll_ctl` fail.
-/

namespace Platoon.Runtime.Reactor

open Platoon.Foundation Platoon.Rust Platoon.Sys

variable {S : Type → Type} [Slab S] {W : Type}

/-- The descriptor of the source under a key. -/
def rawOf (reactor : Reactor Epoll S W) (key : Nat) : Option Nat :=
  (Slab.get? reactor.sources key).map Source.raw

/-- The key that the registration of a descriptor carries. -/
def keyOf (reactor : Reactor Epoll S W) (raw : Nat) : Option Nat :=
  (reactor.poller.table raw).map fun registration => registration.event.u64

/-- Sources and registrations index each other. -/
def Linked (reactor : Reactor Epoll S W) : Prop := Paired reactor.rawOf reactor.keyOf

/-- The kernel forgets a descriptor that is closed. -/
def close (reactor : Reactor Epoll S W) (raw : Nat) : Reactor Epoll S W :=
  { reactor with poller := reactor.poller.set raw none }

section Tables

variable {faults : Faults} {reactor last : Reactor Epoll S W} {key raw : Nat}

omit [Slab S] in
@[simp]
theorem keyOf_close : (reactor.close raw).keyOf = Function.update reactor.keyOf raw none := by
  funext fd
  rw [keyOf, close, Epoll.table_set, Function.update_apply]
  split
  · rfl
  · rfl

omit [Slab S] in
@[simp]
theorem close_close : (reactor.close raw).close raw = reactor.close raw := by
  simp [close, Epoll.set]

theorem new_linked : Linked (new : Reactor Epoll S W) := by
  intro key raw
  simp [rawOf, keyOf, new, Poller.new, Epoll.new]

/-- A write that keeps the descriptor of the source. -/
theorem rawOf_set {source source' : Source W} (hget : Slab.get? reactor.sources key = some source)
    (hraw : source'.raw = source.raw) (poller : Epoll) :
    rawOf { poller, sources := Slab.set reactor.sources key source' } = reactor.rawOf := by
  funext other
  rw [rawOf, Slab.get?_set _ _ _ _ (by simp [hget])]
  split
  · rename_i heq
    simp [rawOf, heq, hget, hraw]
  · rfl

omit [Slab S] in
/-- Registering another interest keeps the key. -/
theorem keyOf_update {poller : Epoll} {source : Source W} {sources : S (Source W)}
    (hupdate : Epoll.update faults reactor.poller source.raw (source.event key) = .ok poller)
    (hkey : reactor.keyOf source.raw = some key) : keyOf { poller, sources } = reactor.keyOf := by
  simp only [Epoll.update] at hupdate
  cases hfault : faults.lookup source.raw with
  | some errno => simp [hfault] at hupdate
  | none =>
      obtain ⟨registration, htable, hold⟩ := Option.map_eq_some_iff.mp hkey
      simp only [hfault, Epoll.ctlMod, htable, Except.ok.injEq] at hupdate
      subst hupdate
      funext fd
      rw [keyOf, Epoll.table_set, keyOf]
      split
      · rename_i heq
        simp [heq, htable, hold, Source.event]
      · rfl

/-- Nobody is registered or forgotten. -/
structure Keeps (before after : Reactor Epoll S W) : Prop where
  raw : after.rawOf = before.rawOf
  key : after.keyOf = before.keyOf

theorem Keeps.refl : Keeps reactor reactor := ⟨rfl, rfl⟩

theorem Keeps.trans {middle : Reactor Epoll S W} (hfirst : Keeps reactor middle)
    (hsecond : Keeps middle last) : Keeps reactor last :=
  ⟨hsecond.raw.trans hfirst.raw, hsecond.key.trans hfirst.key⟩

theorem Keeps.linked (hkeeps : Keeps reactor last) (hlinked : reactor.Linked) : last.Linked := by
  rw [Linked, hkeeps.raw, hkeeps.key]
  exact hlinked

/-- A registered source is written back, and its interests may be registered anew. -/
theorem keeps_of_update (faults : Faults) (hlinked : reactor.Linked)
    {source source' : Source W} {poller : Epoll}
    (hget : Slab.get? reactor.sources key = some source) (hraw : source'.raw = source.raw)
    (hpoller : poller = reactor.poller ∨
      Epoll.update faults reactor.poller source'.raw (source'.event key) = .ok poller) :
    Keeps reactor { poller, sources := Slab.set reactor.sources key source' } := by
  refine ⟨rawOf_set hget hraw poller, ?_⟩
  rcases hpoller with rfl | hupdate
  · rfl
  · refine keyOf_update hupdate ?_
    rw [hraw, ← hlinked]
    simp [rawOf, hget]

theorem keeps_pollReady (hlinked : reactor.Linked) {direction : Direction} {waker : W}
    {woken : List W} {result : Poll (Except Errno Unit)}
    (hpoll : reactor.pollReady faults key direction waker = .ok (last, woken, result)) :
    Keeps reactor last := by
  cases hget : Slab.get? reactor.sources key with
  | none => simp [pollReady_epoll, hget] at hpoll
  | some source =>
      simp only [pollReady_epoll, hget] at hpoll
      split at hpoll
      · cases hpoll
        exact keeps_of_update faults hlinked hget (by simp) (.inl rfl)
      · split at hpoll
        · cases hpoll
          exact keeps_of_update faults hlinked hget (by simp) (.inl rfl)
        · split at hpoll
          · cases hpoll
            exact keeps_of_update faults hlinked hget (by simp) (.inl rfl)
          · rename_i poller hupdate
            cases hpoll
            exact keeps_of_update faults hlinked hget (by simp) (.inr hupdate)

theorem keeps_handleEvent (hlinked : reactor.Linked) {e : Event} {wakers handed : List W}
    {result : Except Errno Unit}
    (hevent : reactor.handleEvent faults e wakers = (last, handed, result)) :
    Keeps reactor last := by
  cases hget : Slab.get? reactor.sources e.key with
  | none =>
      rw [handleEvent_unknown hget] at hevent
      cases hevent
      exact Keeps.refl
  | some source =>
      simp only [handleEvent_epoll, hget] at hevent
      split at hevent
      · split at hevent
        · cases hevent
          exact keeps_of_update faults hlinked hget (by simp) (.inl rfl)
        · rename_i poller hupdate
          cases hevent
          exact keeps_of_update faults hlinked hget (by simp) (.inr hupdate)
      · cases hevent
        exact keeps_of_update faults hlinked hget (by simp) (.inl rfl)

theorem keeps_handleEvents (hlinked : reactor.Linked) {events : List Event}
    {wakers handed : List W} {result : Except Errno Unit}
    (hevents : reactor.handleEvents faults wakers events = (last, handed, result)) :
    Keeps reactor last := by
  induction events generalizing reactor wakers with
  | nil =>
      cases hevents
      exact Keeps.refl
  | cons e events ih =>
      rcases hevent : reactor.handleEvent faults e wakers with ⟨middle, taken, answer⟩
      have hfirst := keeps_handleEvent hlinked hevent
      simp only [handleEvents, hevent] at hevents
      cases answer with
      | error errno =>
          cases hevents
          exact hfirst
      | ok done => exact hfirst.trans (ih (hfirst.linked hlinked) hevents)

omit [Slab S] in
/-- A report disarms registrations and keeps their keys. -/
theorem keyOf_report {batch : List (Nat × BitVec 32)} {poller : Epoll} {events : List SysEvent}
    (hreport : reactor.poller.report batch = some (poller, events)) :
    keyOf { reactor with poller } = reactor.keyOf ∧
      ∀ e ∈ events, ∃ raw, (raw, e.events) ∈ batch ∧ reactor.keyOf raw = some e.u64 := by
  induction batch generalizing reactor poller events with
  | nil =>
      cases hreport
      exact ⟨rfl, by simp⟩
  | cons first rest ih =>
      obtain ⟨fd, ready⟩ := first
      simp only [Epoll.report] at hreport
      split at hreport
      · cases hreport
      · rename_i registration htable
        split at hreport
        · obtain ⟨⟨table, later⟩, hrest, heq⟩ := Option.map_eq_some_iff.mp hreport
          cases heq
          have hsame : keyOf { reactor with
              poller := reactor.poller.set fd (some registration.report) } = reactor.keyOf := by
            funext other
            rw [keyOf, Epoll.table_set, keyOf]
            split
            · rename_i heq
              simp [heq, htable]
            · rfl
          obtain ⟨hkeys, hevents⟩ := ih (show Epoll.report ({ reactor with
            poller := reactor.poller.set fd (some registration.report) } : Reactor Epoll S W).poller
              rest = some (_, _) from hrest)
          refine ⟨hkeys.trans hsame, ?_⟩
          intro e hmem
          rcases List.mem_cons.mp hmem with rfl | hlater
          · exact ⟨fd, by simp, by simp [keyOf, htable]⟩
          · obtain ⟨raw, hraw, hkey⟩ := hevents e hlater
            rw [hsame] at hkey
            exact ⟨raw, List.mem_cons_of_mem _ hraw, hkey⟩
        · cases hreport

/-- Waiting for events and handling them registers and forgets nobody. -/
theorem keeps_poll (hlinked : reactor.Linked) {timeout : Option Nat}
    {answer : Except Errno (List (Nat × BitVec 32))} {output : Output Epoll W}
    (htransition : Transition faults reactor (.poll timeout answer) last output) :
    Keeps reactor last := by
  cases htransition with
  | @poll _ _ poller waited _ handed result hanswer hpoll =>
      have hreported : Keeps reactor { reactor with poller } := by
        cases answer with
        | error errno =>
            cases hanswer
            exact Keeps.refl
        | ok batch =>
            obtain ⟨⟨table, events⟩, hreport, heq⟩ := Option.map_eq_some_iff.mp hanswer
            cases heq
            exact ⟨rfl, (keyOf_report hreport).1⟩
      rcases poll_cases hpoll with ⟨rfl, -⟩ | ⟨events, hevents⟩
      · exact hreported
      · exact hreported.trans (keeps_handleEvents (hreported.linked hlinked) hevents)

/-- `poll_ready` finds the source of its key, if there is one. -/
theorem pollReady_ok (faults : Faults) {source : Source W}
    (hget : Slab.get? reactor.sources key = some source) (direction : Direction) (waker : W) :
    ∃ result, reactor.pollReady faults key direction waker = .ok result := by
  simp only [pollReady_epoll, hget]
  split
  · exact ⟨_, rfl⟩
  · split
    · exact ⟨_, rfl⟩
    · split
      · exact ⟨_, rfl⟩
      · exact ⟨_, rfl⟩

omit [Slab S] in
/-- Registering another interest fails only when the call of `epoll_ctl` does. -/
theorem update_failure {source : Source W} {errno : Errno}
    (hupdate : Epoll.update faults reactor.poller source.raw (source.event key) = .error errno)
    (hkey : reactor.keyOf source.raw = some key) : faults.lookup source.raw = some errno := by
  obtain ⟨registration, htable, -⟩ := Option.map_eq_some_iff.mp hkey
  simp only [Epoll.update] at hupdate
  split at hupdate
  · cases hupdate
    assumption
  · simp [Epoll.ctlMod, htable] at hupdate

/-- Arming a registered descriptor fails only when the call of `epoll_ctl` does. -/
theorem pollReady_failure {direction : Direction} {waker : W} {woken : List W}
    {errno : Errno} (hlinked : reactor.Linked) (hraw : reactor.rawOf key = some raw)
    (hpoll : reactor.pollReady faults key direction waker =
      .ok (last, woken, .ready (.error errno))) : faults.lookup raw = some errno := by
  obtain ⟨source, hget, rfl⟩ := Option.map_eq_some_iff.mp hraw
  have hkey := (hlinked _ _).mp hraw
  simp only [pollReady_epoll, hget] at hpoll
  split at hpoll
  · cases hpoll
  · split at hpoll
    · cases hpoll
    · split at hpoll
      · rename_i hupdate
        cases hpoll
        rw [← Source.raw_setInterest source direction] at hkey
        rw [← Source.raw_setInterest source direction]
        exact update_failure hupdate hkey
      · cases hpoll

theorem handleEvent_failure {e : Event} {wakers handed : List W} {errno : Errno}
    (hlinked : reactor.Linked)
    (hevent : reactor.handleEvent faults e wakers = (last, handed, .error errno)) :
    ∃ raw, faults.lookup raw = some errno := by
  cases hget : Slab.get? reactor.sources e.key with
  | none =>
      simp only [handleEvent_epoll, hget] at hevent
      cases hevent
  | some source =>
      have hkey : reactor.keyOf source.raw = some e.key :=
        (hlinked _ _).mp (by simp [rawOf, hget])
      simp only [handleEvent_epoll, hget] at hevent
      split at hevent
      · split at hevent
        · rename_i hupdate
          cases hevent
          exact ⟨_, update_failure hupdate (by simpa using hkey)⟩
        · cases hevent
      · cases hevent

theorem handleEvents_failure {events : List Event} {wakers handed : List W} {errno : Errno}
    (hlinked : reactor.Linked)
    (hevents : reactor.handleEvents faults wakers events = (last, handed, .error errno)) :
    ∃ raw, faults.lookup raw = some errno := by
  induction events generalizing reactor wakers with
  | nil => cases hevents
  | cons e events ih =>
      rcases hevent : reactor.handleEvent faults e wakers with ⟨middle, taken, answer⟩
      simp only [handleEvents, hevent] at hevents
      cases answer with
      | error other =>
          cases hevents
          exact handleEvent_failure hlinked hevent
      | ok done => exact ih ((keeps_handleEvent hlinked hevent).linked hlinked) hevents

/-- A poll fails only when `epoll_wait` or a call of `epoll_ctl` does. -/
theorem poll_failure {timeout : Option Nat} {answer : Except Errno (List (Nat × BitVec 32))}
    {output : Output Epoll W} {errno : Errno} (hlinked : reactor.Linked)
    (htransition : Transition faults reactor (.poll timeout answer) last output)
    (hfailure : output.answer.failure = some errno) :
    answer = .error errno ∨ ∃ raw, faults.lookup raw = some errno := by
  cases htransition with
  | @poll _ _ poller waited _ handed result hanswer hpoll =>
      obtain rfl : result = .error errno := by
        cases result with
        | error other => simpa [Answer.failure] using hfailure
        | ok done => simp [Answer.failure] at hfailure
      cases answer with
      | error other =>
          cases hanswer
          -- an interrupted wait is a success
          cases other <;> cases hpoll <;> exact .inl rfl
      | ok batch =>
          obtain ⟨⟨table, events⟩, hreport, heq⟩ := Option.map_eq_some_iff.mp hanswer
          cases heq
          have hreported : Keeps reactor { reactor with poller } :=
            ⟨rfl, (keyOf_report hreport).1⟩
          exact .inr (handleEvents_failure (hreported.linked hlinked) hpoll)

/-- A source is registered under a new key, unless the call of `epoll_ctl` fails. -/
theorem insertSource_cases {result : Except Errno Nat}
    (hinsert : reactor.insertSource faults raw = (last, result)) :
    (∃ errno, result = .error errno ∧ last = reactor ∧
      (faults.lookup raw = some errno ∨ reactor.keyOf raw ≠ none)) ∨
    ∃ key, result = .ok key ∧ reactor.rawOf key = none ∧ reactor.keyOf raw = none ∧
      last.rawOf = Function.update reactor.rawOf key (some raw) ∧
      last.keyOf = Function.update reactor.keyOf raw (some key) := by
  simp only [insertSource_epoll, Epoll.add] at hinsert
  cases hfault : faults.lookup raw with
  | some errno =>
      rw [hfault] at hinsert
      cases hinsert
      exact .inl ⟨errno, rfl, rfl, .inl rfl⟩
  | none =>
      cases htable : reactor.poller.table raw with
      | some registration =>
          simp only [hfault, Epoll.ctlAdd, htable] at hinsert
          cases hinsert
          exact .inl ⟨.EEXIST, rfl, rfl, .inr (by simp [keyOf, htable])⟩
      | none =>
          simp only [hfault, Epoll.ctlAdd, htable] at hinsert
          cases hinsert
          refine .inr ⟨Slab.vacantKey reactor.sources, rfl, by simp [rawOf],
            by simp [keyOf, htable], ?_, ?_⟩
          · funext other
            rw [rawOf, Slab.get?_insert, Function.update_apply]
            split
            · rfl
            · rfl
          · funext other
            rw [keyOf, Epoll.table_set, Function.update_apply]
            split
            · rfl
            · rfl

/-- A registered source is always removed from the slab; the kernel may keep its side. -/
theorem removeSource_spec (faults : Faults) (hraw : reactor.rawOf key = some raw) :
    ∃ last result, reactor.removeSource faults key = .ok (last, result) ∧
      last.rawOf = Function.update reactor.rawOf key none ∧
      ((result = .ok () ∧ last.keyOf = Function.update reactor.keyOf raw none) ∨
        ∃ errno, result = .error errno ∧ last.keyOf = reactor.keyOf ∧
          (faults.lookup raw = some errno ∨ reactor.keyOf raw = none)) := by
  obtain ⟨source, hget, rfl⟩ := Option.map_eq_some_iff.mp hraw
  have hsources : ∀ poller, rawOf { poller, sources := Slab.remove reactor.sources key } =
      Function.update reactor.rawOf key none := by
    intro poller
    funext other
    rw [rawOf, Slab.get?_remove _ _ _ (by simp [hget]), Function.update_apply]
    split
    · rfl
    · rfl
  cases hfault : faults.lookup source.raw with
  | some errno =>
      exact ⟨_, _,
        by simp only [removeSource_epoll, index_of_get? hget, ok_bind, Epoll.delete, hfault],
        hsources _, .inr ⟨errno, rfl, rfl, .inl rfl⟩⟩
  | none =>
      cases htable : reactor.poller.table source.raw with
      | none =>
          exact ⟨_, _, by simp only [removeSource_epoll, index_of_get? hget, ok_bind, Epoll.delete,
            hfault, Epoll.ctlDel, htable], hsources _,
            .inr ⟨.ENOENT, rfl, rfl, .inr (by simp [keyOf, htable])⟩⟩
      | some registration =>
          have hremove : reactor.removeSource faults key =
              .ok ({ poller := reactor.poller.set source.raw none
                     sources := Slab.remove reactor.sources key }, .ok ()) := by
            simp only [removeSource_epoll, index_of_get? hget, ok_bind, Epoll.delete, hfault,
              Epoll.ctlDel, htable]
          refine ⟨_, _, hremove, hsources _, .inl ⟨rfl, ?_⟩⟩
          funext other
          rw [keyOf, Epoll.table_set, Function.update_apply]
          split
          · rfl
          · rfl

end Tables

end Platoon.Runtime.Reactor
