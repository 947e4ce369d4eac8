import Platoon.Runtime.Reactor

/-!
# Stored wakers

What the operations of a reactor do to the wakers of its sources, on any poller and
whatever calls of it fail.  A stored waker stays stored until it is displaced, taken by an
event or removed with its source, and the first two release it.
-/

namespace Platoon.Runtime

open Platoon.Foundation Platoon.Rust Platoon.Sys

variable {P : Type} [Poller P] {S : Type → Type} [Slab S] {W : Type}

namespace Reactor

/-- A source after its wakers were taken by an event. -/
def taken (source : Source W) (e : Event) : Source W :=
  ((source.takeIf e.readable .read []).1.takeIf e.writable .write []).1

/-- What the body of the loop hands out for a source. -/
def takenWakers (source : Source W) (e : Event) : List W :=
  (if e.readable then source.reader.poller.toList else []) ++
    if e.writable then source.writer.poller.toList else []

theorem takeIf_takeIf (source : Source W) (e : Event) (wakers : List W) :
    (source.takeIf e.readable .read wakers).1.takeIf e.writable .write
        (source.takeIf e.readable .read wakers).2 =
      (taken source e, wakers ++ takenWakers source e) := by
  unfold taken Source.takeIf takenWakers
  cases e.readable <;> cases e.writable <;>
    simp [Interest.take, Source.setInterest, Source.interest]

theorem hasPoller_taken (source : Source W) (e : Event) :
    ((taken source e).reader.hasPoller = (source.reader.hasPoller && !e.readable)) ∧
      ((taken source e).writer.hasPoller = (source.writer.hasPoller && !e.writable)) := by
  unfold taken Source.takeIf
  cases e.readable <;> cases e.writable <;>
    simp [Source.setInterest, Source.interest, Interest.take, Interest.hasPoller]

theorem poller_taken (source : Source W) (e : Event) :
    ((taken source e).reader.poller = if e.readable then none else source.reader.poller) ∧
      (taken source e).writer.poller = if e.writable then none else source.writer.poller := by
  unfold taken Source.takeIf
  cases e.readable <;> cases e.writable <;>
    simp [Source.setInterest, Source.interest, Interest.take]

theorem raw_taken (source : Source W) (e : Event) : (taken source e).raw = source.raw := by
  simp [taken]

/-- The decoded event carries the direction. -/
def carriesEvent (e : Event) : Direction → Bool
  | .read => e.readable
  | .write => e.writable

/-- An event takes the waker of each direction that it carries, and leaves a mark. -/
theorem interest_taken (source : Source W) (e : Event) (direction : Direction) :
    (taken source e).interest direction =
      if carriesEvent e direction then { poller := none, woke := true }
      else source.interest direction := by
  unfold taken Source.takeIf carriesEvent
  cases direction <;> cases e.readable <;> cases e.writable <;>
    simp [Source.setInterest, Source.interest, Interest.take]

theorem mem_takenWakers {source : Source W} {e : Event} {waker : W} :
    waker ∈ takenWakers source e ↔ ∃ direction, carriesEvent e direction = true ∧
      (source.interest direction).poller = some waker := by
  constructor
  · intro hmem
    rcases List.mem_append.mp hmem with hread | hwrite
    · split at hread
      · rename_i hcarries
        exact ⟨.read, hcarries, by simpa [Source.interest] using hread⟩
      · cases hread
    · split at hwrite
      · rename_i hcarries
        exact ⟨.write, hcarries, by simpa [Source.interest] using hwrite⟩
      · cases hwrite
  · rintro ⟨direction, hcarries, hpoller⟩
    cases direction with
    | read =>
        have hreadable : e.readable = true := hcarries
        have hreader : source.reader.poller = some waker := hpoller
        simp [takenWakers, hreadable, hreader]
    | write =>
        have hwritable : e.writable = true := hcarries
        have hwriter : source.writer.poller = some waker := hpoller
        simp [takenWakers, hwritable, hwriter]

/-- The waker is stored for a direction of the source under the key. -/
def Waiting (reactor : Reactor P S W) (key : Nat) (direction : Direction) (waker : W) : Prop :=
  ∃ source, Slab.get? reactor.sources key = some source ∧
    (source.interest direction).poller = some waker

variable {faults : Poller.Faults P} {reactor last : Reactor P S W} {key : Nat}
  {direction : Direction} {waker : W}

section Events

variable {e : Event} {events : List Event} {wakers handed : List W} {result : Except Errno Unit}

theorem handleEvent_unknown (hget : Slab.get? reactor.sources e.key = none) :
    reactor.handleEvent faults e wakers = (reactor, wakers, .ok ()) := by
  simp only [handleEvent, hget]

/-- The body of the loop takes what the event carries from its source, and from no other. -/
theorem handleEvent_sources {source : Source W}
    (hget : Slab.get? reactor.sources e.key = some source)
    (hevent : reactor.handleEvent faults e wakers = (last, handed, result)) :
    last.sources = Slab.set reactor.sources e.key (taken source e) ∧
      handed = wakers ++ takenWakers source e := by
  simp only [handleEvent, hget, takeIf_takeIf] at hevent
  split at hevent <;> cases hevent <;> exact ⟨rfl, rfl⟩

/-- The source of an event after the body of the loop. -/
theorem get?_handled {source : Source W} (hget : Slab.get? reactor.sources e.key = some source)
    (hevent : reactor.handleEvent faults e wakers = (last, handed, result)) :
    Slab.get? last.sources e.key = some (taken source e) := by
  rw [(handleEvent_sources hget hevent).1, Slab.get?_set _ _ _ _ (by simp [hget]), if_pos rfl]

/-- The body of the loop leaves the other sources alone. -/
theorem get?_handleEvent
    (hevent : reactor.handleEvent faults e wakers = (last, handed, result))
    (hne : key ≠ e.key) : Slab.get? last.sources key = Slab.get? reactor.sources key := by
  cases hget : Slab.get? reactor.sources e.key with
  | none =>
      rw [handleEvent_unknown hget] at hevent
      cases hevent
      rfl
  | some source =>
      rw [(handleEvent_sources hget hevent).1, Slab.get?_set _ _ _ _ (by simp [hget]), if_neg hne]

theorem wakers_subset_handleEvent
    (hevent : reactor.handleEvent faults e wakers = (last, handed, result)) :
    wakers ⊆ handed := by
  cases hget : Slab.get? reactor.sources e.key with
  | none =>
      rw [handleEvent_unknown hget] at hevent
      cases hevent
      exact List.Subset.refl wakers
  | some source =>
      rw [(handleEvent_sources hget hevent).2]
      exact List.subset_append_left wakers _

/-- An event keeps a stored waker or hands it out. -/
theorem waiting_handleEvent (hwaiting : reactor.Waiting key direction waker)
    (hevent : reactor.handleEvent faults e wakers = (last, handed, result)) :
    last.Waiting key direction waker ∨ waker ∈ handed := by
  obtain ⟨source, hget, hpoller⟩ := hwaiting
  by_cases hkey : key = e.key
  · subst hkey
    by_cases hcarries : carriesEvent e direction = true
    · right
      rw [(handleEvent_sources hget hevent).2]
      exact List.mem_append_right _ (mem_takenWakers.mpr ⟨direction, hcarries, hpoller⟩)
    · left
      refine ⟨_, get?_handled hget hevent, ?_⟩
      rw [interest_taken, if_neg hcarries, hpoller]
  · exact .inl ⟨source, (get?_handleEvent hevent hkey).trans hget, hpoller⟩

theorem wakers_subset_handleEvents
    (hevents : reactor.handleEvents faults wakers events = (last, handed, result)) :
    wakers ⊆ handed := by
  induction events generalizing reactor wakers with
  | nil =>
      cases hevents
      exact List.Subset.refl _
  | cons e events ih =>
      simp only [handleEvents] at hevents
      split at hevents
      · rename_i hevent
        cases hevents
        exact wakers_subset_handleEvent hevent
      · rename_i hevent
        exact List.Subset.trans (wakers_subset_handleEvent hevent) (ih hevents)

/-- A batch of events, handled in full or up to an error, keeps a stored waker or hands
it out. -/
theorem waiting_handleEvents (hwaiting : reactor.Waiting key direction waker)
    (hevents : reactor.handleEvents faults wakers events = (last, handed, result)) :
    last.Waiting key direction waker ∨ waker ∈ handed := by
  induction events generalizing reactor wakers with
  | nil =>
      cases hevents
      exact .inl hwaiting
  | cons e events ih =>
      simp only [handleEvents] at hevents
      split at hevents
      · rename_i hevent
        cases hevents
        exact waiting_handleEvent hwaiting hevent
      · rename_i hevent
        rcases waiting_handleEvent hwaiting hevent with hmiddle | hmem
        · exact ih hmiddle hevents
        · exact .inr (wakers_subset_handleEvents hevents hmem)

/-- A poll handles a batch of events or does nothing. -/
theorem poll_cases {waited : Except Errno (List (Poller.SysEvent P))}
    (hpoll : reactor.poll faults waited wakers = (last, handed, result)) :
    (last = reactor ∧ handed = wakers) ∨
      ∃ events, reactor.handleEvents faults wakers events = (last, handed, result) := by
  cases waited with
  | ok events => exact .inr ⟨_, hpoll⟩
  | error errno => cases errno <;> cases hpoll <;> exact .inl ⟨rfl, rfl⟩

end Events

theorem waiting_pollReady (hwaiting : reactor.Waiting key direction waker) {target : Nat}
    {polled : Direction} {polling : W} {woken : List W} {result : Poll (Except Errno Unit)}
    (hpoll : reactor.pollReady faults target polled polling = .ok (last, woken, result)) :
    last.Waiting key direction waker ∨ waker ∈ woken := by
  obtain ⟨stored, hstored, hpoller⟩ := hwaiting
  -- what writing one interest of the polled source does to the stored waker
  have hwrite : ∀ (source : Source W) (interest : Interest W),
      Slab.get? reactor.sources target = some source →
      (interest.poller = some waker ∨ (source.interest polled).poller ≠ some waker) →
      ∃ source', Slab.get? (Slab.set reactor.sources target
          (source.setInterest polled interest)) key = some source' ∧
        (source'.interest direction).poller = some waker := by
    intro source interest hget hinterest
    rw [Slab.get?_set _ _ _ _ (by simp [hget])]
    by_cases heq : key = target
    · subst heq
      rw [hget] at hstored
      cases hstored
      refine ⟨_, if_pos rfl, ?_⟩
      rw [Source.interest_setInterest]
      split
      · rename_i hsame
        subst hsame
        exact hinterest.resolve_right (fun hne => hne hpoller)
      · exact hpoller
    · exact ⟨stored, by rw [if_neg heq, hstored], hpoller⟩
  simp only [pollReady] at hpoll
  split at hpoll
  · cases hpoll
  · rename_i source hget
    split at hpoll
    · cases hpoll
      refine .inl (hwrite source _ hget ?_)
      by_cases hsame : (source.interest polled).poller = some waker
      · exact .inl hsame
      · exact .inr hsame
    · split at hpoll
      · rename_i replaced hreplaced
        cases hpoll
        by_cases hsame : replaced = waker
        · exact .inr (by simp [hsame])
        · exact .inl (hwrite source _ hget (.inr (by simp [hreplaced, hsame])))
      · rename_i hnone
        have hkept := hwrite source { source.interest polled with poller := some polling } hget
          (.inr (by simp [hnone]))
        split at hpoll <;> cases hpoll <;> exact .inl hkept

/-- Registering a source leaves those alone that are registered. -/
theorem get?_insertSource {raw : Nat} {result : Except Errno Nat}
    (hinsert : reactor.insertSource faults raw = (last, result))
    (hlive : (Slab.get? reactor.sources key).isSome) :
    Slab.get? last.sources key = Slab.get? reactor.sources key := by
  have hne : key ≠ Slab.vacantKey reactor.sources := by
    rintro rfl
    simp at hlive
  simp only [insertSource] at hinsert
  split at hinsert
  · cases hinsert
    rfl
  · cases hinsert
    rw [Slab.get?_insert, if_neg hne]

/-- Removing a source leaves the others alone. -/
theorem get?_removeSource {target : Nat} {result : Except Errno Unit}
    (hremove : reactor.removeSource faults target = .ok (last, result)) (hne : key ≠ target) :
    Slab.get? last.sources key = Slab.get? reactor.sources key := by
  simp only [removeSource] at hremove
  cases hget : Slab.get? reactor.sources target with
  | none => simp [index, hget] at hremove
  | some source =>
      have hother : Slab.get? (Slab.remove reactor.sources target) key =
          Slab.get? reactor.sources key := by
        rw [Slab.get?_remove _ _ _ (by simp [hget]), if_neg hne]
      rw [index_of_get? hget, ok_bind] at hremove
      cases hremove
      exact hother

/-- A step keeps a stored waker or releases it, unless it removes the source. -/
theorem waiting_step (hwaiting : reactor.Waiting key direction waker) {call : Call P W}
    {output : Output P W} (hstep : reactor.step call = .next last output)
    (hkeep : call.op ≠ .removeSource key) :
    last.Waiting key direction waker ∨ waker ∈ output.released := by
  have htransition := step_transition hstep
  generalize call.op = op at htransition hkeep
  cases htransition with
  | insertSource hinsert =>
      obtain ⟨stored, hstored, hpoller⟩ := hwaiting
      refine .inl ⟨stored, ?_, hpoller⟩
      rw [get?_insertSource hinsert (by simp [hstored]), hstored]
  | @removeSource target _ _ hremove =>
      obtain ⟨stored, hstored, hpoller⟩ := hwaiting
      have hne : key ≠ target := by
        rintro rfl
        exact hkeep rfl
      exact .inl ⟨stored, by rw [get?_removeSource hremove hne, hstored], hpoller⟩
  | pollReady hpoll =>
      rcases waiting_pollReady hwaiting hpoll with hkept | hmem
      · exact .inl hkept
      · exact .inr (by simp [Output.released, hmem])
  | @poll _ _ poller _ _ handed _ hanswer hpoll =>
      have hmiddle : ({ reactor with poller } : Reactor P S W).Waiting key direction waker :=
        hwaiting
      rcases poll_cases hpoll with ⟨rfl, -⟩ | ⟨events, hevents⟩
      · exact .inl hmiddle
      · simpa [Output.released] using waiting_handleEvents hmiddle hevents

/-- A pending `poll_ready` stores the waker. -/
theorem waiting_of_pending {woken : List W}
    (hpoll : reactor.pollReady faults key direction waker = .ok (last, woken, .pending)) :
    last.Waiting key direction waker := by
  simp only [pollReady] at hpoll
  split at hpoll
  · cases hpoll
  · rename_i source hget
    have hstored : ∃ source', Slab.get? (Slab.set reactor.sources key
        (source.setInterest direction { source.interest direction with poller := some waker }))
          key = some source' ∧ (source'.interest direction).poller = some waker :=
      ⟨_, by rw [Slab.get?_set _ _ _ _ (by simp [hget]), if_pos rfl], by simp⟩
    split at hpoll
    · cases hpoll
    · split at hpoll
      · cases hpoll
        exact hstored
      · split at hpoll
        · cases hpoll
        · cases hpoll
          exact hstored

end Reactor

end Platoon.Runtime
