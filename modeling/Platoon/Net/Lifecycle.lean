import Platoon.Net.Sockets

/-!
# No socket is lost

Every `Async` owns one open descriptor, one source and one registration that carries
its key, and nothing else is open, stored or registered.  This holds whatever calls of
`epoll_ctl` fail: where the kernel keeps a registration, the descriptor is closed.
-/

namespace Platoon.Net.Sockets

open Platoon.Foundation Platoon.Rust Platoon.Sys Platoon.Runtime

variable {S : Type → Type} [Slab S] {W : Type}

/-- Who owns what, where `plain` are the descriptors outside of `Async`s. -/
structure Sound (plain : List Nat) (sockets : Sockets S W) : Prop where
  linked : sockets.reactor.Linked
  held : ∀ {name socket}, sockets.asyncs name = some socket →
    ∃ fd, socket.sys = some fd ∧ sockets.reactor.rawOf socket.id = some fd
  named : ∀ {key fd}, sockets.reactor.rawOf key = some fd →
    ∃ name socket, sockets.asyncs name = some socket ∧ socket.id = key
  single : ∀ {name other socket socket'}, sockets.asyncs name = some socket →
    sockets.asyncs other = some socket' → socket.id = socket'.id → name = other
  nodup : plain.Nodup
  apart : ∀ fd ∈ plain, sockets.reactor.keyOf fd = none
  opened : ∀ fd, sockets.opened fd = true ↔ fd ∈ plain ∨ sockets.reactor.keyOf fd ≠ none

namespace Sound

variable {faults : Faults} {plain : List Nat} {sockets : Sockets S W} {name fd : Nat}
  {socket : Socket}

theorem new : Sound [] (Sockets.new : Sockets S W) where
  linked := Reactor.new_linked
  held hname := by cases hname
  named hraw := by
    rw [Sockets.new, Reactor.rawOf] at hraw
    simp [Reactor.new] at hraw
  single hname := by cases hname
  nodup := List.nodup_nil
  apart := by simp
  opened fd := by simp [Sockets.new, Reactor.keyOf, Reactor.new, Poller.new, Epoll.new]

/-- The list of the plain descriptors that clients see may lag behind. -/
theorem setPlain (hsound : Sound plain sockets) (listed : List Nat) :
    Sound plain { sockets with plain := listed } :=
  ⟨hsound.linked, hsound.held, hsound.named, hsound.single, hsound.nodup, hsound.apart,
    hsound.opened⟩

/-- The order of the plain descriptors does not matter. -/
theorem perm {plain' : List Nat} (hsound : Sound plain sockets) (hperm : plain.Perm plain') :
    Sound plain' sockets where
  linked := hsound.linked
  held := hsound.held
  named := hsound.named
  single := hsound.single
  nodup := hperm.nodup hsound.nodup
  apart fd hmem := hsound.apart fd (hperm.mem_iff.mpr hmem)
  opened fd := by rw [hsound.opened, hperm.mem_iff]

/-- Only its owners know a descriptor. -/
theorem unknown_of_closed (hsound : Sound plain sockets) (hclosed : sockets.opened fd = false) :
    fd ∉ plain ∧ sockets.reactor.keyOf fd = none := by
  have hneither := mt (hsound.opened fd).mpr (by simp [hclosed])
  rw [not_or, not_not] at hneither
  exact hneither

/-- A closed descriptor is opened. -/
theorem openFd (hsound : Sound plain sockets) (hclosed : sockets.opened fd = false) :
    Sound (fd :: plain)
      { sockets with opened := Function.update sockets.opened fd true } where
  linked := hsound.linked
  held := hsound.held
  named := hsound.named
  single := hsound.single
  nodup := List.nodup_cons.mpr ⟨(hsound.unknown_of_closed hclosed).1, hsound.nodup⟩
  apart other hmem := by
    rcases List.mem_cons.mp hmem with rfl | hmem
    · exact (hsound.unknown_of_closed hclosed).2
    · exact hsound.apart other hmem
  opened other := by
    simp only [Function.update_apply, List.mem_cons]
    by_cases heq : other = fd
    · simp [heq]
    · simp [heq, hsound.opened other]

/-- A plain descriptor is closed. -/
theorem close (hsound : Sound (fd :: plain) sockets) : Sound plain (sockets.close fd) where
  linked := by
    have hnone := hsound.apart fd List.mem_cons_self
    have hsame : (sockets.close fd).reactor.keyOf = sockets.reactor.keyOf := by
      rw [Sockets.close, Reactor.keyOf_close, Function.update_eq_self_iff, hnone]
    rw [Reactor.Linked, hsame]
    exact hsound.linked
  held := hsound.held
  named := hsound.named
  single := hsound.single
  nodup := (List.nodup_cons.mp hsound.nodup).2
  apart other hmem := by
    rw [Sockets.close, Reactor.keyOf_close, Function.update_apply]
    split
    · rfl
    · exact hsound.apart other (List.mem_cons_of_mem _ hmem)
  opened other := by
    have hopened := hsound.opened other
    have hfresh := (List.nodup_cons.mp hsound.nodup).1
    simp only [Sockets.close, Reactor.keyOf_close, Function.update_apply]
    by_cases heq : other = fd
    · subst heq
      simp [hfresh]
    · simpa [heq] using hopened

/-- A plain descriptor becomes that of a new `Async`. -/
theorem register (hsound : Sound (fd :: plain) sockets) {key : Nat} {reactor : Reactor Epoll S W}
    (hname : sockets.asyncs name = none) (hfree : sockets.reactor.rawOf key = none)
    (hnone : sockets.reactor.keyOf fd = none)
    (hraw : reactor.rawOf = Function.update sockets.reactor.rawOf key (some fd))
    (hkey : reactor.keyOf = Function.update sockets.reactor.keyOf fd (some key)) :
    Sound plain ({ sockets with reactor }.own name (some { id := key, sys := some fd })) where
  linked := by
    simp only [own, Reactor.Linked, hraw, hkey]
    exact hsound.linked.insert hfree hnone
  held {other socket} hother := by
    simp only [own, Function.update_apply] at hother
    simp only [own, hraw, Function.update_apply]
    split at hother
    · cases hother
      exact ⟨fd, rfl, if_pos rfl⟩
    · obtain ⟨raw, hsys, hheld⟩ := hsound.held hother
      have hne : socket.id ≠ key := by
        intro heq
        rw [heq, hfree] at hheld
        cases hheld
      exact ⟨raw, hsys, by rw [if_neg hne, hheld]⟩
  named {other raw} hother := by
    simp only [own, hraw, Function.update_apply] at hother
    simp only [own, Function.update_apply]
    split at hother
    · rename_i heq
      exact ⟨name, _, if_pos rfl, heq.symm⟩
    · obtain ⟨owner, socket, howner, hid⟩ := hsound.named hother
      have hne : owner ≠ name := by
        rintro rfl
        rw [hname] at howner
        cases howner
      exact ⟨owner, socket, by rw [if_neg hne, howner], hid⟩
  single {left right socket socket'} hleft hright hid := by
    simp only [own, Function.update_apply] at hleft hright
    have hfresh : ∀ {owner socket}, sockets.asyncs owner = some socket → socket.id ≠ key := by
      intro owner socket howner heq
      obtain ⟨raw, -, hheld⟩ := hsound.held howner
      rw [heq, hfree] at hheld
      cases hheld
    split at hleft
    · split at hright
      · simp [*]
      · cases hleft
        exact absurd hid.symm (hfresh hright)
    · split at hright
      · cases hright
        exact absurd hid (hfresh hleft)
      · exact hsound.single hleft hright hid
  nodup := (List.nodup_cons.mp hsound.nodup).2
  apart other hmem := by
    have hne : other ≠ fd := by
      rintro rfl
      exact (List.nodup_cons.mp hsound.nodup).1 hmem
    simp only [own, hkey, Function.update_apply]
    rw [if_neg hne]
    exact hsound.apart other (List.mem_cons_of_mem _ hmem)
  opened other := by
    have hopened := hsound.opened other
    simp only [own, hkey, Function.update_apply]
    by_cases heq : other = fd
    · simp [heq, (hsound.opened fd).mpr (.inl List.mem_cons_self)]
    · simpa [heq] using hopened

/-- An `Async` is made of a plain descriptor and handed to its client. -/
theorem adopt (faults : Faults) (hsound : Sound (fd :: plain) sockets)
    (hname : sockets.asyncs name = none) :
    Sound plain (Sockets.adopt name (sockets.asyncNew faults fd)).1 := by
  rcases hinsert : sockets.reactor.insertSource faults fd with ⟨reactor, result⟩
  rcases Reactor.insertSource_cases hinsert with ⟨errno, rfl, rfl, -⟩ |
    ⟨key, rfl, hfree, hnone, hraw, hkey⟩
  · simp only [asyncNew, hinsert, Sockets.adopt]
    exact hsound.close
  · simp only [asyncNew, hinsert, Sockets.adopt]
    exact hsound.register hname hfree hnone hraw hkey

/-- The descriptor of an `Async` that is forgotten becomes a plain one. -/
theorem release (hsound : Sound plain sockets) {reactor : Reactor Epoll S W}
    (hname : sockets.asyncs name = some socket) (hsys : socket.sys = some fd)
    (hraw : reactor.rawOf = Function.update sockets.reactor.rawOf socket.id none)
    (hkey : reactor.keyOf = Function.update sockets.reactor.keyOf fd none) :
    Sound (fd :: plain) ({ sockets with reactor }.own name none) := by
  obtain ⟨raw, hsys', hheld⟩ := hsound.held hname
  rw [hsys, Option.some.injEq] at hsys'
  subst hsys'
  have hregistered : sockets.reactor.keyOf fd = some socket.id := (hsound.linked _ _).mp hheld
  have hother : ∀ {owner socket'}, owner ≠ name → sockets.asyncs owner = some socket' →
      socket'.id ≠ socket.id :=
    fun hne howner heq => hne (hsound.single howner hname heq)
  exact
    { linked := by
        simp only [own, Reactor.Linked, hraw, hkey]
        exact hsound.linked.erase hheld
      held := fun {owner socket'} howner => by
        simp only [own, Function.update_apply] at howner
        simp only [own, hraw, Function.update_apply]
        split at howner
        · cases howner
        · rename_i hne
          rw [if_neg (hother hne howner)]
          exact hsound.held howner
      named := fun {key raw} hkept => by
        simp only [own, hraw, Function.update_apply] at hkept
        simp only [own, Function.update_apply]
        split at hkept
        · cases hkept
        · rename_i hkept'
          obtain ⟨owner, socket', howner, hid⟩ := hsound.named hkept
          have hne : owner ≠ name := by
            rintro rfl
            rw [hname, Option.some.injEq] at howner
            exact hkept' (howner ▸ hid.symm)
          exact ⟨owner, socket', by rw [if_neg hne, howner], hid⟩
      single := fun {left right socket' socket''} hleft hright hid => by
        simp only [own, Function.update_apply] at hleft hright
        split at hleft
        · cases hleft
        · split at hright
          · cases hright
          · exact hsound.single hleft hright hid
      nodup := by
        refine List.nodup_cons.mpr ⟨fun hmem => ?_, hsound.nodup⟩
        rw [hsound.apart fd hmem] at hregistered
        cases hregistered
      apart := fun other hmem => by
        simp only [own, hkey, Function.update_apply]
        split
        · rfl
        · rename_i hne
          exact hsound.apart other ((List.mem_cons.mp hmem).resolve_left hne)
      opened := fun other => by
        have hopened := hsound.opened other
        simp only [own, hkey, Function.update_apply, List.mem_cons]
        by_cases heq : other = fd
        · subst heq
          simpa [hregistered] using hopened
        · simpa [heq] using hopened }

/-- Closing the descriptor of an `Async` makes up for a registration that the kernel kept. -/
theorem release_close (hsound : Sound plain sockets) {reactor : Reactor Epoll S W}
    (hname : sockets.asyncs name = some socket) (hsys : socket.sys = some fd)
    (hraw : reactor.rawOf = Function.update sockets.reactor.rawOf socket.id none)
    (hkey : reactor.keyOf = sockets.reactor.keyOf ∨
      reactor.keyOf = Function.update sockets.reactor.keyOf fd none) :
    Sound plain (({ sockets with reactor }.own name none).close fd) := by
  have hforgotten :
      (reactor.close fd).keyOf = Function.update sockets.reactor.keyOf fd none := by
    rw [Reactor.keyOf_close]
    rcases hkey with hkey | hkey
    · rw [hkey]
    · rw [hkey, Function.update_idem]
  have hfreed : (reactor.close fd).rawOf = _ := hraw
  have hclosed := (hsound.release hname hsys hfreed hforgotten).close
  have hsame : (({ sockets with reactor := reactor.close fd } : Sockets S W).own name none).close fd
      = (({ sockets with reactor } : Sockets S W).own name none).close fd := by
    simp [Sockets.close, own]
  rwa [hsame] at hclosed

/-- What dropping an `Async` and `into_sys` make of its source and its descriptor. -/
theorem removed (hsound : Sound plain sockets) (faults : Faults)
    (hname : sockets.asyncs name = some socket) :
    ∃ fd reactor result, sockets.reactor.removeSource faults socket.id = .ok (reactor, result) ∧
      (sockets.own name none).asyncDrop faults socket =
        .ok (({ sockets with reactor }.own name none).close fd) ∧
      (sockets.own name none).intoSys faults socket =
        .ok (match result with
          | .error errno => (({ sockets with reactor }.own name none).close fd, .error errno)
          | .ok () => ({ sockets with reactor }.own name none, .ok fd)) ∧
      Sound plain (({ sockets with reactor }.own name none).close fd) ∧
      ((result = .ok () ∧ Sound (fd :: plain) ({ sockets with reactor }.own name none)) ∨
        ∃ errno, result = .error errno ∧ faults.lookup fd = some errno) := by
  obtain ⟨fd, hsys, hheld⟩ := hsound.held hname
  obtain ⟨reactor, result, hremove, hraw, hkey⟩ := Reactor.removeSource_spec faults hheld
  refine ⟨fd, reactor, result, hremove, ?_, ?_, hsound.release_close hname hsys hraw ?_, ?_⟩
  · simp only [asyncDrop, hsys]
    exact congrArg (· >>= _) hremove
  · simp only [intoSys, hsys]
    refine (congrArg (· >>= _) hremove).trans ?_
    cases result <;> rfl
  · rcases hkey with ⟨-, hkey⟩ | ⟨errno, -, hkey, -⟩
    · exact .inr hkey
    · exact .inl hkey
  · rcases hkey with ⟨hdone, hkey⟩ | ⟨errno, hfailed, -, hfault⟩
    · exact .inl ⟨hdone, hsound.release hname hsys hraw hkey⟩
    · refine .inr ⟨errno, hfailed, hfault.resolve_right ?_⟩
      rw [(hsound.linked _ _).mp hheld]
      simp

/-- The reactor works on the sources that are registered. -/
theorem react (hsound : Sound plain sockets) {reactor : Reactor Epoll S W}
    (hkeeps : Reactor.Keeps sockets.reactor reactor) : Sound plain { sockets with reactor } where
  linked := hkeeps.linked hsound.linked
  held hname := by
    rw [hkeeps.raw]
    exact hsound.held hname
  named hraw := by
    rw [hkeeps.raw] at hraw
    exact hsound.named hraw
  single := hsound.single
  nodup := hsound.nodup
  apart other hmem := by
    rw [hkeeps.key]
    exact hsound.apart other hmem
  opened other := by
    rw [hkeeps.key]
    exact hsound.opened other

/-- The source of an `Async` is there. -/
theorem live (hsound : Sound plain sockets) (hname : sockets.asyncs name = some socket) :
    ∃ source, Slab.get? sockets.reactor.sources socket.id = some source := by
  obtain ⟨fd, -, hheld⟩ := hsound.held hname
  obtain ⟨source, hget, -⟩ := Option.map_eq_some_iff.mp hheld
  exact ⟨source, hget⟩

/-- The plain descriptors are open and may be taken from the list. -/
theorem take (hsound : Sound plain sockets) (hmem : fd ∈ plain) :
    Sound (fd :: plain.erase fd) sockets :=
  hsound.perm (List.perm_cons_erase hmem)

end Sound

section Steps

variable {sockets last : Sockets S W} {call : Call W} {output : Output W}

omit [Slab S] in
theorem adopt_plain (name : Nat) (result : Sockets S W × Except Errno Socket) :
    (adopt name result).1.plain = result.1.plain := by
  obtain ⟨made, result⟩ := result
  cases result <;> rfl

theorem asyncNew_plain (faults : Faults) (fd : Nat) :
    (sockets.asyncNew faults fd).1.plain = sockets.plain := by
  unfold asyncNew
  split <;> rfl

/-- One step of the reactor under its sockets. -/
theorem react_eq_next {inner : Reactor.Call Epoll W}
    (hreact : sockets.react inner = .next last output) :
    ∃ reactor result, Reactor.system.step sockets.reactor inner = .next reactor result ∧
      last = { sockets with reactor } ∧ output.answer = .reactor result.answer := by
  simp only [react, Outcome.andThen_eq_next, Outcome.next.injEq] at hreact
  obtain ⟨reactor, result, hstep, rfl, rfl⟩ := hreact
  exact ⟨reactor, result, hstep, rfl, rfl⟩

theorem panic_of_react {inner : Reactor.Call Epoll W} {reason : Panic}
    (hreact : sockets.react inner = .panic reason) :
    Reactor.system.step sockets.reactor inner = .panic reason := by
  rcases Outcome.andThen_eq_panic.mp hreact with hinner | ⟨reactor, result, -, hnext⟩
  · exact hinner
  · cases hnext

/-- Every step keeps the owners of everything apart and known. -/
theorem Sound.step (hsound : Sound sockets.plain sockets)
    (hstep : system.step sockets call = .next last output) : Sound last.plain last := by
  obtain ⟨op, faults⟩ := call
  cases op with
  | socket fd =>
      simp only [system, Sockets.step, Outcome.when_eq_next, Outcome.next.injEq,
        Bool.not_eq_true'] at hstep
      obtain ⟨hclosed, rfl, rfl⟩ := hstep
      exact (hsound.openFd hclosed).setPlain _
  | dropPlain fd =>
      simp only [system, Sockets.step, Outcome.when_eq_next, Outcome.next.injEq,
        decide_eq_true_eq] at hstep
      obtain ⟨hmem, rfl, rfl⟩ := hstep
      exact (hsound.take hmem).close.setPlain _
  | fromStd name fd =>
      simp only [system, Sockets.step, Outcome.when_eq_next, Outcome.next.injEq, Bool.and_eq_true,
        Option.isNone_iff_eq_none, decide_eq_true_eq] at hstep
      obtain ⟨⟨hname, hmem⟩, rfl, rfl⟩ := hstep
      rw [adopt_plain, asyncNew_plain]
      have htaken : Sound (fd :: sockets.plain.erase fd)
          { sockets with plain := sockets.plain.erase fd } := (hsound.take hmem).setPlain _
      exact htaken.adopt faults hname
  | make name fd prepared =>
      simp only [system, Sockets.step, Outcome.when_eq_next, Outcome.next.injEq, Bool.and_eq_true,
        Option.isNone_iff_eq_none, Bool.not_eq_true'] at hstep
      obtain ⟨⟨hname, hclosed⟩, rfl, rfl⟩ := hstep
      have hmade := hsound.openFd hclosed
      cases prepared with
      | error errno => exact hmade.close
      | ok ready =>
          rw [adopt_plain, Sockets.register, asyncNew_plain]
          exact hmade.adopt faults hname
  | intoStd name =>
      simp only [system, Sockets.step] at hstep
      split at hstep
      · cases hstep
      · rename_i socket hname
        obtain ⟨fd, reactor, result, -, -, hinto, hclosed, hresult⟩ := hsound.removed faults hname
        rw [hinto, ok_bind, Outcome.ofExcept_eq_next] at hstep
        rcases hresult with ⟨rfl, hgiven⟩ | ⟨errno, rfl, -⟩
        · cases hstep
          exact hgiven.setPlain _
        · cases hstep
          exact hclosed
  | drop name =>
      simp only [system, Sockets.step] at hstep
      split at hstep
      · cases hstep
      · rename_i socket hname
        obtain ⟨fd, reactor, result, -, hdrop, -, hclosed, -⟩ := hsound.removed faults hname
        rw [hdrop, ok_bind, Outcome.ofExcept_eq_next] at hstep
        cases hstep
        exact hclosed
  | pollReady name direction waker =>
      simp only [system, Sockets.step] at hstep
      split at hstep
      · cases hstep
      · rename_i socket hname
        obtain ⟨reactor, result, hinner, rfl, -⟩ := react_eq_next hstep
        refine hsound.react ?_
        cases Reactor.step_transition hinner with
        | pollReady hpoll => exact Reactor.keeps_pollReady hsound.linked hpoll
  | poll timeout answer =>
      obtain ⟨reactor, result, hinner, rfl, -⟩ := react_eq_next hstep
      exact hsound.react (Reactor.keeps_poll hsound.linked (Reactor.step_transition hinner))

/-- No operation panics: every key that an `Async` uses is that of its source. -/
theorem Sound.no_panic (hsound : Sound sockets.plain sockets) {reason : Panic} :
    system.step sockets call ≠ .panic reason := by
  obtain ⟨op, faults⟩ := call
  intro hpanic
  cases op with
  | intoStd name =>
      simp only [system, Sockets.step] at hpanic
      split at hpanic
      · cases hpanic
      · rename_i socket hname
        obtain ⟨fd, reactor, result, -, -, hinto, -⟩ := hsound.removed faults hname
        simp [hinto] at hpanic
  | drop name =>
      simp only [system, Sockets.step] at hpanic
      split at hpanic
      · cases hpanic
      · rename_i socket hname
        obtain ⟨fd, reactor, result, -, hdrop, -⟩ := hsound.removed faults hname
        simp [hdrop] at hpanic
  | pollReady name direction waker =>
      simp only [system, Sockets.step] at hpanic
      split at hpanic
      · cases hpanic
      · rename_i socket hname
        obtain ⟨source, hget⟩ := hsound.live hname
        obtain ⟨result, hpoll⟩ := Reactor.pollReady_ok faults hget direction waker
        have hinner := panic_of_react hpanic
        simp [Reactor.system, Reactor.step, hpoll] at hinner
  | poll timeout answer =>
      have hinner := panic_of_react hpanic
      simp only [Reactor.system, Reactor.step] at hinner
      split at hinner <;> cases hinner
  | _ => simp [system, Sockets.step] at hpanic

/-- An `Async` fails to be made only when the kernel fails. -/
theorem Sound.adopt_failure {plain : List Nat} {name fd : Nat} {errno : Errno} {faults : Faults}
    (hsound : Sound (fd :: plain) sockets)
    (hfailure : (Sockets.adopt name (sockets.asyncNew faults fd)).2.answer.failure = some errno) :
    faults.lookup fd = some errno := by
  rcases hinsert : sockets.reactor.insertSource faults fd with ⟨reactor, result⟩
  rcases Reactor.insertSource_cases hinsert with ⟨errno', rfl, rfl, hfault⟩ |
    ⟨key, rfl, hfree, hnone, hraw, hkey⟩
  · simp only [asyncNew, hinsert, Sockets.adopt, Answer.failure, Option.some.injEq] at hfailure
    exact hfailure ▸ hfault.resolve_right (by simp [hsound.apart fd List.mem_cons_self])
  · simp only [asyncNew, hinsert, Sockets.adopt, Answer.failure] at hfailure
    cases hfailure

/-- An operation returns an error only when the kernel fails: never because a descriptor was
registered before or was not. -/
theorem Sound.failure (hsound : Sound sockets.plain sockets)
    (hstep : system.step sockets call = .next last output) {errno : Errno}
    (hfailure : output.answer.failure = some errno) : call.Fails errno := by
  obtain ⟨op, faults⟩ := call
  cases op with
  | socket fd =>
      simp only [system, Sockets.step, Outcome.when_eq_next, Outcome.next.injEq] at hstep
      obtain ⟨-, -, rfl⟩ := hstep
      cases hfailure
  | dropPlain fd =>
      simp only [system, Sockets.step, Outcome.when_eq_next, Outcome.next.injEq] at hstep
      obtain ⟨-, -, rfl⟩ := hstep
      cases hfailure
  | fromStd name fd =>
      simp only [system, Sockets.step, Outcome.when_eq_next, Outcome.next.injEq, Bool.and_eq_true,
        decide_eq_true_eq] at hstep
      obtain ⟨⟨-, hmem⟩, -, rfl⟩ := hstep
      have htaken : Sound (fd :: sockets.plain.erase fd)
          { sockets with plain := sockets.plain.erase fd } := (hsound.take hmem).setPlain _
      exact .inl ⟨fd, htaken.adopt_failure hfailure⟩
  | make name fd prepared =>
      simp only [system, Sockets.step, Outcome.when_eq_next, Outcome.next.injEq, Bool.and_eq_true,
        Bool.not_eq_true'] at hstep
      obtain ⟨⟨-, hclosed⟩, -, rfl⟩ := hstep
      cases prepared with
      | error errno' =>
          cases hfailure
          exact .inr (.inl ⟨name, fd, rfl⟩)
      | ok ready => exact .inl ⟨fd, (hsound.openFd hclosed).adopt_failure hfailure⟩
  | intoStd name =>
      simp only [system, Sockets.step] at hstep
      split at hstep
      · cases hstep
      · rename_i socket hname
        obtain ⟨fd, reactor, result, -, -, hinto, -, hresult⟩ := hsound.removed faults hname
        rw [hinto, ok_bind, Outcome.ofExcept_eq_next] at hstep
        rcases hresult with ⟨rfl, -⟩ | ⟨errno', rfl, hfault⟩
        · cases hstep
          cases hfailure
        · cases hstep
          cases hfailure
          exact .inl ⟨fd, hfault⟩
  | drop name =>
      simp only [system, Sockets.step] at hstep
      split at hstep
      · cases hstep
      · rename_i socket hname
        obtain ⟨fd, reactor, result, -, hdrop, -⟩ := hsound.removed faults hname
        rw [hdrop, ok_bind, Outcome.ofExcept_eq_next] at hstep
        cases hstep
        cases hfailure
  | pollReady name direction waker =>
      simp only [system, Sockets.step] at hstep
      split at hstep
      · cases hstep
      · rename_i socket hname
        obtain ⟨reactor, result, hinner, -, hanswer⟩ := react_eq_next hstep
        rw [hanswer] at hfailure
        obtain ⟨fd, -, hheld⟩ := hsound.held hname
        cases Reactor.step_transition hinner with
        | @pollReady _ _ _ _ _ polled hpoll =>
            obtain rfl : polled = .ready (.error errno) := by
              cases polled with
              | pending => cases hfailure
              | ready polled =>
                  cases polled with
                  | error other => simpa [Answer.failure, Reactor.Answer.failure] using hfailure
                  | ok done => cases hfailure
            exact .inl ⟨fd, Reactor.pollReady_failure hsound.linked hheld hpoll⟩
  | poll timeout answer =>
      obtain ⟨reactor, result, hinner, -, hanswer⟩ := react_eq_next hstep
      rw [hanswer] at hfailure
      rcases Reactor.poll_failure hsound.linked (Reactor.step_transition hinner) hfailure with
        rfl | hfault
      · exact .inr (.inr ⟨timeout, rfl⟩)
      · exact .inl hfault

/-- The events that the kernel reports carry the keys of the `Async`s whose descriptors are
ready. -/
theorem Sound.reported (hsound : Sound sockets.plain sockets) {batch : List (Nat × BitVec 32)}
    {poller : Epoll} {events : List SysEvent}
    (hreport : sockets.reactor.poller.report batch = some (poller, events)) :
    ∀ e ∈ events, ∃ name socket fd, sockets.asyncs name = some socket ∧ socket.id = e.u64 ∧
      socket.sys = some fd ∧ (fd, e.events) ∈ batch := by
  intro e hmem
  obtain ⟨fd, hbatch, hkey⟩ := (Reactor.keyOf_report hreport).2 e hmem
  have hraw := (hsound.linked e.u64 fd).mpr hkey
  obtain ⟨name, socket, hname, hid⟩ := hsound.named hraw
  obtain ⟨raw, hsys, hheld⟩ := hsound.held hname
  rw [hid, hraw, Option.some.injEq] at hheld
  exact ⟨name, socket, fd, hname, hid, hheld ▸ hsys, hbatch⟩

end Steps

section Runs

variable {trace : List (Call W × Output W)} {sockets : Sockets S W}

/-- Over every run, whatever calls of `epoll_ctl` fail: each `Async` owns one open descriptor,
one source and one registration, and nothing else is open, stored or registered; no operation
uses a key that is not in the slab or a socket that was given away, and none returns an error
unless the kernel fails with it; and each reported event reaches the `Async` whose descriptor is
ready. -/
theorem sockets_owned (hrun : system.Run (new : Sockets S W) trace sockets) :
    Sound sockets.plain sockets ∧
      (∀ call, system.step sockets call ≠ .panic .invalidKey ∧
        system.step sockets call ≠ .panic .unwrapNone) ∧
      (∀ call last output errno, system.step sockets call = .next last output →
        output.answer.failure = some errno → call.Fails errno) ∧
      ∀ batch poller events, sockets.reactor.poller.report batch = some (poller, events) →
        ∀ e ∈ events, ∃ name socket fd, sockets.asyncs name = some socket ∧ socket.id = e.u64 ∧
          socket.sys = some fd ∧ (fd, e.events) ∈ batch := by
  have hsound : Sound sockets.plain sockets :=
    hrun.preserves (fun sockets => Sound sockets.plain sockets) Sound.new
      fun hsound hstep => hsound.step hstep
  exact ⟨hsound, fun call => ⟨hsound.no_panic, hsound.no_panic⟩,
    fun call last output errno hstep hfailure => hsound.failure hstep hfailure,
    fun batch poller events hreport => hsound.reported hreport⟩

/-- The kernel keeps a registration, and its descriptor is used for the next socket. -/
def failingDelete : List (Call Nat) :=
  [{ op := .make 0 5 (.ok ()) }, { op := .drop 0, faults := [(5, .other 9)] },
    { op := .make 1 5 (.ok ()) }]

theorem sockets_owned_failingDelete :
    ∃ sockets : Sockets FreeSlab Nat, (sockets.asyncs 1).isSome ∧ sockets.opened 5 = true ∧
      Sound sockets.plain sockets := by
  have hexec : system.exec (new : Sockets FreeSlab Nat) failingDelete = some (_, _) := rfl
  exact ⟨_, rfl, rfl, (sockets_owned (System.exec_run hexec)).1⟩

end Runs

end Platoon.Net.Sockets
