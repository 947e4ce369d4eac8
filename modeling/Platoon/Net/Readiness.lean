import Platoon.Net.Lifecycle

/-!
# Marks of readiness

A source has a mark for each direction.  Events leave it, and one call of `poll_ready`
takes it back.  Nothing else leaves a mark for an `Async`.
-/

namespace Platoon.Net

open Platoon.Foundation Platoon.Rust Platoon.Sys Platoon.Runtime

variable {S : Type → Type} [Slab S] {W : Type}

/-- The bits that an event carries for a direction. -/
def carries (bits : BitVec 32) : Direction → Bool
  | .read => hasAny bits (EPOLLIN ||| EPOLLPRI)
  | .write => hasAny bits EPOLLOUT

theorem carriesEvent_fromSys (sys : SysEvent) (direction : Direction) :
    Reactor.carriesEvent (.fromSys sys) direction = carries sys.events direction := by
  cases direction <;> rfl

namespace Async

section Marks

variable {faults : Faults} {reactor last : Reactor Epoll S W} {key : Nat} {direction : Direction}

instance : Decidable (Marked reactor key direction) :=
  decidable_of_iff
    ((Slab.get? reactor.sources key).any (fun source => (source.interest direction).woke) = true)
    (by simp [Marked, Option.any_eq_true])

/-- How many marks there are for the direction. -/
def marks (reactor : Reactor Epoll S W) (key : Nat) (direction : Direction) : Nat :=
  if Marked reactor key direction then 1 else 0

theorem marks_le {flag : Bool}
    (hmarked : Marked last key direction → Marked reactor key direction ∨ flag = true) :
    marks last key direction ≤ marks reactor key direction + flag.toNat := by
  unfold marks
  split
  · rename_i hlast
    rcases hmarked hlast with hbefore | rfl
    · rw [if_pos hbefore]
      omega
    · exact Nat.le_add_left _ _
  · exact Nat.zero_le _

/-- A mark is what the stored source says. -/
theorem marked_congr (hsame : Slab.get? last.sources key = Slab.get? reactor.sources key) :
    Marked last key direction ↔ Marked reactor key direction := by
  rw [Marked, Marked, hsame]

/-- Writing a source moves the marks of its key only. -/
theorem marked_set {target : Nat} {source source' : Source W} {poller : Epoll}
    (hget : Slab.get? reactor.sources target = some source)
    (hmarked : Marked { poller, sources := Slab.set reactor.sources target source' } key
      direction) :
    (key = target ∧ (source'.interest direction).woke = true) ∨
      (key ≠ target ∧ Marked reactor key direction) := by
  obtain ⟨stored, hstored, hwoke⟩ := hmarked
  rw [Slab.get?_set _ _ _ _ (by simp [hget])] at hstored
  split at hstored
  · rename_i heq
    cases hstored
    exact .inl ⟨heq, hwoke⟩
  · rename_i hne
    exact .inr ⟨hne, stored, hstored, hwoke⟩

/-- A new source has no mark. -/
theorem unmarked_insertSource {raw : Nat}
    (hinsert : reactor.insertSource faults raw = (last, .ok key)) :
    ¬ Marked last key direction := by
  rintro ⟨stored, hstored, hwoke⟩
  simp only [Reactor.insertSource_epoll] at hinsert
  split at hinsert
  · cases hinsert
  · cases hinsert
    rw [Slab.get?_insert, if_pos rfl, Option.some.injEq] at hstored
    subst hstored
    cases direction <;> cases hwoke

/-- `poll_ready` leaves no mark. -/
theorem marked_pollReady {target : Nat} {polled : Direction} {waker : W} {woken : List W}
    {result : Poll (Except Errno Unit)}
    (hpoll : reactor.pollReady faults target polled waker = .ok (last, woken, result))
    (hmarked : Marked last key direction) :
    Marked reactor key direction ∧ ¬ (key = target ∧ direction = polled) := by
  cases hget : Slab.get? reactor.sources target with
  | none => simp [Reactor.pollReady_epoll, hget] at hpoll
  | some source =>
      have hstores : ∀ {poller : Epoll} {interest : Interest W}, interest.woke = false →
          Marked ⟨poller, Slab.set reactor.sources target (source.setInterest polled interest)⟩
            key direction →
          Marked reactor key direction ∧ ¬ (key = target ∧ direction = polled) := by
        intro poller interest hclear hstored
        rcases marked_set hget hstored with ⟨rfl, hwoke⟩ | ⟨hne, hbefore⟩
        · rw [Source.interest_setInterest] at hwoke
          split at hwoke
          · rw [hclear] at hwoke
            cases hwoke
          · rename_i hdirection
            exact ⟨⟨source, hget, hwoke⟩, fun hboth => hdirection hboth.2⟩
        · exact ⟨hbefore, fun hboth => hne hboth.1⟩
      simp only [Reactor.pollReady_epoll, hget] at hpoll
      split at hpoll
      · cases hpoll
        exact hstores rfl hmarked
      · rename_i hclear
        have hnothing : ({ source.interest polled with poller := some waker } :
            Interest W).woke = false := by simpa using hclear
        split at hpoll
        · cases hpoll
          exact hstores hnothing hmarked
        · split at hpoll <;> cases hpoll <;> exact hstores hnothing hmarked

/-- `poll_ready` lets its caller go on exactly when it takes a mark back. -/
theorem marks_pollReady {waker : W} {woken : List W} {result : Poll (Except Errno Unit)}
    (hpoll : reactor.pollReady faults key direction waker = .ok (last, woken, result)) :
    marks last key direction = 0 ∧
      marks reactor key direction = if result = .ready (.ok ()) then 1 else 0 := by
  have hafter : ¬ Marked last key direction := fun hmarked =>
    (marked_pollReady hpoll hmarked).2 ⟨rfl, rfl⟩
  refine ⟨if_neg hafter, ?_⟩
  by_cases hmark : Marked reactor key direction
  · obtain ⟨taken, htaken, -⟩ := pollReady_marked faults waker hmark
    rw [hpoll] at htaken
    cases htaken
    rw [marks, if_pos hmark, if_pos rfl]
  · have hlive : (Slab.get? reactor.sources key).isSome := by
      cases hget : Slab.get? reactor.sources key with
      | none => simp [Reactor.pollReady_epoll, hget] at hpoll
      | some source => rfl
    obtain ⟨asked, woken', result', hasked, hne⟩ := pollReady_unmarked faults waker hlive hmark
    rw [hpoll] at hasked
    cases hasked
    rw [marks, if_neg hmark, if_neg hne]

/-- Handling events leaves marks only for what they carry. -/
theorem marked_handleEvents {events : List Event} {wakers handed : List W}
    {result : Except Errno Unit}
    (hevents : reactor.handleEvents faults wakers events = (last, handed, result))
    (hmarked : Marked last key direction) :
    Marked reactor key direction ∨
      ∃ e ∈ events, e.key = key ∧ Reactor.carriesEvent e direction = true := by
  induction events generalizing reactor wakers with
  | nil =>
      cases hevents
      exact .inl hmarked
  | cons e events ih =>
      rcases hevent : reactor.handleEvent faults e wakers with ⟨middle, taken, answer⟩
      have hmiddle : Marked middle key direction →
          Marked reactor key direction ∨
            (e.key = key ∧ Reactor.carriesEvent e direction = true) := by
        intro hmark
        by_cases heq : key = e.key
        · subst heq
          cases hget : Slab.get? reactor.sources e.key with
          | none =>
              rw [Reactor.handleEvent_unknown hget] at hevent
              cases hevent
              exact .inl hmark
          | some source =>
              obtain ⟨stored, hstored, hwoke⟩ := hmark
              rw [Reactor.get?_handled hget hevent, Option.some.injEq] at hstored
              rw [← hstored, Reactor.interest_taken] at hwoke
              split at hwoke
              · rename_i hcarries
                exact .inr ⟨rfl, hcarries⟩
              · exact .inl ⟨source, hget, hwoke⟩
        · exact .inl ((marked_congr (Reactor.get?_handleEvent hevent heq)).mp hmark)
      simp only [Reactor.handleEvents, hevent] at hevents
      cases answer with
      | error errno =>
          cases hevents
          rcases hmiddle hmarked with hbefore | hcarried
          · exact .inl hbefore
          · exact .inr ⟨e, List.mem_cons_self, hcarried⟩
      | ok done =>
          rcases ih hevents with hmark | ⟨later, hmem, hcarried⟩
          · rcases hmiddle hmark with hbefore | hcarried
            · exact .inl hbefore
            · exact .inr ⟨e, List.mem_cons_self, hcarried⟩
          · exact .inr ⟨later, List.mem_cons_of_mem _ hmem, hcarried⟩

/-- A poll leaves a mark only for a report that carries the direction. -/
theorem marked_poll {timeout : Option Nat} {answer : Except Errno (List (Nat × BitVec 32))}
    {output : Reactor.Output Epoll W}
    (htransition : Reactor.Transition faults reactor (.poll timeout answer) last output)
    (hmarked : Marked last key direction) :
    Marked reactor key direction ∨
      ∃ batch raw bits, answer = .ok batch ∧ (raw, bits) ∈ batch ∧
        reactor.keyOf raw = some key ∧ carries bits direction = true := by
  cases htransition with
  | @poll _ _ poller waited _ handed result hanswer hpoll =>
      cases answer with
      | error errno =>
          cases hanswer
          cases errno <;> cases hpoll <;> exact .inl hmarked
      | ok batch =>
          obtain ⟨⟨table, reported⟩, hreport, heq⟩ := Option.map_eq_some_iff.mp hanswer
          cases heq
          rcases marked_handleEvents hpoll hmarked with hbefore | ⟨e, hmem, rfl, hcarried⟩
          · exact .inl hbefore
          · obtain ⟨sys, hsys, rfl⟩ := List.mem_map.mp hmem
            obtain ⟨raw, hbatch, hkey⟩ := (Reactor.keyOf_report hreport).2 sys hsys
            have hbits := (carriesEvent_fromSys sys direction).symm.trans hcarried
            exact .inr ⟨batch, raw, sys.events, rfl, hbatch, hkey, hbits⟩

end Marks

end Async

namespace Sockets

/-- The call reports the descriptor as ready in the direction. -/
def Call.reports (fd : Nat) (direction : Direction) (call : Call W) : Bool :=
  match call.op with
  | .poll _ (.ok batch) => batch.any fun (raw, bits) => decide (raw = fd) && carries bits direction
  | _ => false

/-- The call gives the `Async` back or drops it. -/
def Call.ends (name : Nat) (call : Call W) : Bool :=
  match call.op with
  | .intoStd ended | .drop ended => decide (ended = name)
  | _ => false

section Steps

variable {sockets last : Sockets S W} {call : Call W} {output : Output W} {name fd : Nat}
  {socket : Socket} {direction : Direction}

/-- Making another `Async` touches neither the name nor the source of this one. -/
theorem Sound.untouched_adopt {plain : List Nat} {faults : Faults} {other raw : Nat}
    (hsound : Sound plain sockets) (hname : sockets.asyncs name = some socket)
    (hother : sockets.asyncs other = none) :
    (Sockets.adopt other (sockets.asyncNew faults raw)).1.asyncs name = some socket ∧
      Slab.get? (Sockets.adopt other (sockets.asyncNew faults raw)).1.reactor.sources socket.id =
        Slab.get? sockets.reactor.sources socket.id := by
  obtain ⟨source, hget⟩ := hsound.live hname
  have hlive : (Slab.get? sockets.reactor.sources socket.id).isSome := by simp [hget]
  have hne : name ≠ other := by
    rintro rfl
    rw [hname] at hother
    cases hother
  rcases hinsert : sockets.reactor.insertSource faults raw with ⟨reactor, result⟩
  have hkept := Reactor.get?_insertSource hinsert hlive
  cases result with
  | error errno =>
      simp only [asyncNew, hinsert, Sockets.adopt]
      exact ⟨hname, hkept⟩
  | ok id =>
      simp only [asyncNew, hinsert, Sockets.adopt, own]
      exact ⟨by rw [Function.update_of_ne hne, hname], hkept⟩

/-- Removing the source of another `Async` leaves this one alone. -/
theorem Sound.untouched_remove {plain : List Nat} {faults : Faults} {other : Nat}
    {socket' : Socket} {reactor : Reactor Epoll S W} {result : Except Errno Unit}
    (hsound : Sound plain sockets) (hname : sockets.asyncs name = some socket)
    (hother : sockets.asyncs other = some socket') (hne : other ≠ name)
    (hremove : sockets.reactor.removeSource faults socket'.id = .ok (reactor, result)) :
    ({ sockets with reactor }.own other none).asyncs name = some socket ∧
      Slab.get? reactor.sources socket.id = Slab.get? sockets.reactor.sources socket.id := by
  refine ⟨?_, Reactor.get?_removeSource hremove fun heq =>
    hne (hsound.single hother hname heq.symm)⟩
  simp only [own]
  rw [Function.update_of_ne (Ne.symm hne), hname]

/-- An `Async` stays until it is given back or dropped, and gets a mark only from the kernel. -/
theorem Sound.marked_step (direction : Direction) (hsound : Sound sockets.plain sockets)
    (hname : sockets.asyncs name = some socket) (hsys : socket.sys = some fd)
    (hstep : system.step sockets call = .next last output) (hends : call.ends name = false) :
    last.asyncs name = some socket ∧
      (Async.Marked last.reactor socket.id direction →
        Async.Marked sockets.reactor socket.id direction ∨
          call.reports fd direction = true) := by
  have huntouched : last.asyncs name = some socket ∧
      Slab.get? last.reactor.sources socket.id = Slab.get? sockets.reactor.sources socket.id →
      last.asyncs name = some socket ∧ (Async.Marked last.reactor socket.id direction →
        Async.Marked sockets.reactor socket.id direction ∨ call.reports fd direction = true) :=
    fun hsame => ⟨hsame.1, fun hmarked => .inl ((Async.marked_congr hsame.2).mp hmarked)⟩
  obtain ⟨op, faults⟩ := call
  cases op with
  | socket opened =>
      simp only [system, Sockets.step, Outcome.when_eq_next, Outcome.next.injEq] at hstep
      obtain ⟨-, rfl, rfl⟩ := hstep
      exact huntouched ⟨hname, rfl⟩
  | dropPlain dropped =>
      simp only [system, Sockets.step, Outcome.when_eq_next, Outcome.next.injEq] at hstep
      obtain ⟨-, rfl, rfl⟩ := hstep
      exact huntouched ⟨hname, rfl⟩
  | fromStd other raw =>
      simp only [system, Sockets.step, Outcome.when_eq_next, Outcome.next.injEq, Bool.and_eq_true,
        Option.isNone_iff_eq_none] at hstep
      obtain ⟨⟨hfree, -⟩, rfl, rfl⟩ := hstep
      exact huntouched ((hsound.setPlain _).untouched_adopt hname hfree)
  | make other raw prepared =>
      simp only [system, Sockets.step, Outcome.when_eq_next, Outcome.next.injEq, Bool.and_eq_true,
        Option.isNone_iff_eq_none, Bool.not_eq_true'] at hstep
      obtain ⟨⟨hfree, hclosed⟩, rfl, rfl⟩ := hstep
      cases prepared with
      | error errno => exact huntouched ⟨hname, rfl⟩
      | ok ready => exact huntouched ((hsound.openFd hclosed).untouched_adopt hname hfree)
  | intoStd other =>
      have hne : other ≠ name := by simpa [Call.ends] using hends
      simp only [system, Sockets.step] at hstep
      split at hstep
      · cases hstep
      · rename_i socket' hother
        obtain ⟨closed, reactor, result, hremove, -, hinto, -⟩ := hsound.removed faults hother
        rw [hinto, ok_bind, Outcome.ofExcept_eq_next] at hstep
        cases result with
        | error errno =>
            cases hstep
            exact huntouched (hsound.untouched_remove hname hother hne hremove)
        | ok done =>
            cases hstep
            exact huntouched (hsound.untouched_remove hname hother hne hremove)
  | drop other =>
      have hne : other ≠ name := by simpa [Call.ends] using hends
      simp only [system, Sockets.step] at hstep
      split at hstep
      · cases hstep
      · rename_i socket' hother
        obtain ⟨closed, reactor, result, hremove, hdrop, -⟩ := hsound.removed faults hother
        rw [hdrop, ok_bind, Outcome.ofExcept_eq_next] at hstep
        cases hstep
        exact huntouched (hsound.untouched_remove hname hother hne hremove)
  | pollReady other polled waker =>
      simp only [system, Sockets.step] at hstep
      split at hstep
      · cases hstep
      · rename_i socket' hother
        obtain ⟨reactor, result, hinner, rfl, -⟩ := react_eq_next hstep
        refine ⟨hname, fun hmarked => .inl ?_⟩
        cases Reactor.step_transition hinner with
        | pollReady hpoll => exact (Async.marked_pollReady hpoll hmarked).1
  | poll timeout answer =>
      obtain ⟨reactor, result, hinner, rfl, -⟩ := react_eq_next hstep
      refine ⟨hname, fun hmarked => ?_⟩
      rcases Async.marked_poll (Reactor.step_transition hinner) hmarked with
        hbefore | ⟨batch, raw, bits, rfl, hmem, hkey, hcarried⟩
      · exact .inl hbefore
      · obtain ⟨owned, hsys', hheld⟩ := hsound.held hname
        rw [hsys, Option.some.injEq] at hsys'
        subst hsys'
        rw [← hsound.linked, hheld, Option.some.injEq] at hkey
        subst hkey
        refine .inr (List.any_eq_true.mpr ⟨(fd, bits), hmem, ?_⟩)
        simp [hcarried]

end Steps

end Sockets

end Platoon.Net
