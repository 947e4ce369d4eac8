import Platoon.Runtime.KqueueReactor
import Platoon.Runtime.Waiters

/-!
# Waiters and notes

Each direction with a waiter has a note of its own in the kernel, and each note is that of
a source.  A poll deletes the notes that it reports and takes their waiters; the note of
whoever still waits at the same descriptor is made anew.
-/

namespace Platoon.Runtime

open Platoon.Foundation Platoon.Rust Platoon.Sys

namespace KqueueReactor

variable {S : Type → Type} [Slab S] {W : Type}

/-- One of the events carries the direction of the source. -/
def Carried (events : List Event) (key : Nat) (direction : Direction) : Prop :=
  ∃ e ∈ events, e.key = key ∧ Reactor.carriesEvent e direction = true

/-- Each event carries the direction of its filter; the end of a stream is one for writers
as well. -/
theorem carriesEvent_fromSys (sys : Kqueue.SysEvent) (direction : Direction) :
    Reactor.carriesEvent (Kqueue.fromSys sys) direction = true ↔
      sys.filter = direction.filter ∨ direction = .write ∧ sys.filter = .read ∧
        Kqueue.hasAny sys.flags Kqueue.EV_EOF = true := by
  cases direction with
  | read => simp [Reactor.carriesEvent, Kqueue.fromSys, Direction.filter]
  | write => simp [Reactor.carriesEvent, Kqueue.fromSys, Direction.filter]

/-- Whoever waits has a note or an event that is not handled yet, and every note is that
of a source. -/
structure Sound (rest : List Event) (reactor : Reactor Kqueue S W) (owned : List Nat) :
    Prop where
  listed : ∀ {key : Nat} {source : Source W}, Slab.get? reactor.sources key = some source →
    source.raw ∈ owned
  distinct : ∀ {key other : Nat} {source source' : Source W},
    Slab.get? reactor.sources key = some source →
    Slab.get? reactor.sources other = some source' → source'.raw = source.raw → other = key
  armed : ∀ {key : Nat} {source : Source W} (direction : Direction),
    Slab.get? reactor.sources key = some source →
    (source.interest direction).hasPoller = true →
    reactor.poller.notes source.raw direction.filter = some (key, true) ∨
      Carried rest key direction
  noted : ∀ {fd udata : Nat} {filter : Filter} {oneShot : Bool},
    reactor.poller.notes fd filter = some (udata, oneShot) →
    oneShot = true ∧ ∃ source, Slab.get? reactor.sources udata = some source ∧ source.raw = fd

namespace Sound

variable {reactor last : Reactor Kqueue S W} {owned : List Nat} {rest rest' : List Event}
  {key raw : Nat} {source : Source W}

theorem new : Sound [] (Reactor.new : Reactor Kqueue S W) [] where
  listed hget := by simp [Reactor.new] at hget
  distinct hget := by simp [Reactor.new] at hget
  armed _ hget := by simp [Reactor.new] at hget
  noted hnote := by cases hnote

/-- The notes of a source carry its key. -/
theorem udata_eq (hsound : Sound rest reactor owned)
    (hget : Slab.get? reactor.sources key = some source) {udata : Nat} {filter : Filter}
    {oneShot : Bool} (hnote : reactor.poller.notes source.raw filter = some (udata, oneShot)) :
    udata = key ∧ oneShot = true := by
  obtain ⟨honeShot, stored, hstored, hraw⟩ := hsound.noted hnote
  exact ⟨hsound.distinct hget hstored hraw, honeShot⟩

/-- Change one source and the notes of its descriptor. -/
theorem write (hsound : Sound rest reactor owned)
    (hget : Slab.get? reactor.sources key = some source) {source' : Source W} {poller : Kqueue}
    (hraw : source'.raw = source.raw)
    (hrest : ∀ e ∈ rest, e.key ≠ key → e ∈ rest')
    (hothers : ∀ fd filter, fd ≠ source.raw →
      poller.notes fd filter = reactor.poller.notes fd filter)
    (harmed : ∀ direction, (source'.interest direction).hasPoller = true →
      poller.notes source.raw direction.filter = some (key, true) ∨ Carried rest' key direction)
    (hnotes : ∀ filter udata oneShot,
      poller.notes source.raw filter = some (udata, oneShot) → udata = key ∧ oneShot = true) :
    Sound rest' { poller, sources := Slab.set reactor.sources key source' } owned where
  listed {other stored} hstored := by
    rw [Slab.get?_set _ _ _ _ (by simp [hget])] at hstored
    split at hstored
    · cases hstored
      exact hraw ▸ hsound.listed hget
    · exact hsound.listed hstored
  distinct {left right stored stored'} hleft hright hsame := by
    rw [Slab.get?_set _ _ _ _ (by simp [hget])] at hleft hright
    split at hleft
    · rename_i heq
      cases hleft
      split at hright
      · rename_i heq'
        exact heq'.trans heq.symm
      · exact heq ▸ hsound.distinct hget hright (hsame.trans hraw)
    · split at hright
      · rename_i heq'
        cases hright
        exact heq' ▸ hsound.distinct hleft hget (hraw.symm.trans hsame)
      · exact hsound.distinct hleft hright hsame
  armed {other stored} direction hstored hpoller := by
    rw [Slab.get?_set _ _ _ _ (by simp [hget])] at hstored
    split at hstored
    · rename_i heq
      cases hstored
      subst heq
      rw [hraw]
      exact harmed direction hpoller
    · rename_i hne
      have hfd : stored.raw ≠ source.raw := fun heq => hne (hsound.distinct hget hstored heq)
      rcases hsound.armed direction hstored hpoller with hnote | ⟨e, hmem, hkey, hcarries⟩
      · exact .inl ((hothers _ _ hfd).trans hnote)
      · exact .inr ⟨e, hrest e hmem (hkey ▸ hne), hkey, hcarries⟩
  noted {fd udata filter oneShot} hnote := by
    by_cases hfd : fd = source.raw
    · subst hfd
      obtain ⟨rfl, honeShot⟩ := hnotes _ _ _ hnote
      exact ⟨honeShot, source', by rw [Slab.get?_set _ _ _ _ (by simp [hget]), if_pos rfl], hraw⟩
    · rw [hothers _ _ hfd] at hnote
      obtain ⟨honeShot, stored, hstored, hsame⟩ := hsound.noted hnote
      have hne : udata ≠ key := by
        rintro rfl
        rw [hget] at hstored
        cases hstored
        exact hfd hsame.symm
      refine ⟨honeShot, stored, ?_, hsame⟩
      rw [Slab.get?_set _ _ _ _ (by simp [hget]), if_neg hne, hstored]

/-- The source keeps its notes. -/
theorem keep (hsound : Sound rest reactor owned)
    (hget : Slab.get? reactor.sources key = some source) {source' : Source W}
    (hraw : source'.raw = source.raw)
    (hrest : ∀ e ∈ rest, e.key ≠ key → e ∈ rest')
    (harmed : ∀ direction, (source'.interest direction).hasPoller = true →
      reactor.poller.notes source.raw direction.filter = some (key, true) ∨
        Carried rest' key direction) :
    Sound rest' { reactor with sources := Slab.set reactor.sources key source' } owned :=
  hsound.write hget hraw hrest (fun _ _ _ => rfl) harmed
    fun _ _ _ hnote => hsound.udata_eq hget hnote

/-- The notes of the source are made anew. -/
theorem update (hsound : Sound rest reactor owned)
    (hget : Slab.get? reactor.sources key = some source) {source' : Source W}
    (hraw : source'.raw = source.raw)
    (hrest : ∀ e ∈ rest, e.key ≠ key → e ∈ rest') :
    Sound rest'
      { poller := (Reactor.updateInterest Poller.faultless reactor.poller key source').1
        sources := Slab.set reactor.sources key source' } owned := by
  obtain ⟨-, hnotes⟩ := reactor.poller.update_spec source'.raw (source'.event key)
  refine hsound.write hget hraw hrest ?_ ?_ ?_
  · intro fd filter hne
    rw [Reactor.updateInterest, hnotes, if_neg (hraw ▸ hne)]
  · intro direction hpoller
    left
    rw [Reactor.updateInterest, hnotes, if_pos hraw.symm]
    cases direction with
    | read =>
        have hwants : Kqueue.wants (source'.event key) .read = true := hpoller
        rw [Direction.filter, hwants]
        rfl
    | write =>
        have hwants : Kqueue.wants (source'.event key) .write = true := hpoller
        rw [Direction.filter, hwants]
        rfl
  · intro filter udata oneShot hnote
    rw [Reactor.updateInterest, hnotes, if_pos hraw.symm] at hnote
    split at hnote
    · cases hnote
      exact ⟨rfl, rfl⟩
    · cases hnote

theorem insertSource (hsound : Sound [] reactor owned) (hfree : raw ∉ owned) :
    ∃ last, reactor.insertSource Poller.faultless raw =
        (last, .ok (Slab.vacantKey reactor.sources)) ∧
      Sound [] last (raw :: owned) := by
  obtain ⟨hok, hnotes⟩ := reactor.poller.update_spec raw
    { key := Slab.vacantKey reactor.sources, readable := false, writable := false }
  have hbare : ∀ fd filter, (Poller.update Poller.faultless reactor.poller raw
      { key := Slab.vacantKey reactor.sources, readable := false, writable := false }).1.notes
        fd filter = reactor.poller.notes fd filter := by
    intro fd filter
    rw [hnotes]
    split
    · rename_i heq
      have hnone : reactor.poller.notes fd filter = none := by
        by_contra hnote
        obtain ⟨⟨udata, oneShot⟩, hnote⟩ := Option.ne_none_iff_exists'.mp hnote
        obtain ⟨-, stored, hstored, hraw⟩ := hsound.noted hnote
        exact hfree (heq ▸ hraw ▸ hsound.listed hstored)
      rw [hnone]
      cases filter <;> rfl
    · rfl
  simp only [Reactor.insertSource, Kqueue.add_eq_update]
  generalize Poller.update Poller.faultless reactor.poller raw _ = updated at hok hbare
  obtain ⟨poller, result⟩ := updated
  cases hok
  refine ⟨_, rfl, ?_⟩
  have hvacant : ∀ {key source}, Slab.get? reactor.sources key = some source →
      key ≠ Slab.vacantKey reactor.sources := by
    rintro key source hget rfl
    simp at hget
  constructor
  · intro key source hget
    rw [Slab.get?_insert] at hget
    split at hget
    · cases hget
      exact List.mem_cons_self
    · exact List.mem_cons_of_mem _ (hsound.listed hget)
  · intro left right stored stored' hleft hright hsame
    rw [Slab.get?_insert] at hleft hright
    split at hleft
    · rename_i heq
      cases hleft
      split at hright
      · rename_i heq'
        exact heq'.trans heq.symm
      · have hraw : stored'.raw = raw := hsame
        exact absurd (hraw ▸ hsound.listed hright) hfree
    · split at hright
      · cases hright
        have hraw : raw = stored.raw := hsame
        exact absurd (hraw ▸ hsound.listed hleft) hfree
      · exact hsound.distinct hleft hright hsame
  · intro key source direction hget hpoller
    rw [Slab.get?_insert] at hget
    split at hget
    · cases hget
      cases direction <;> cases hpoller
    · rcases hsound.armed direction hget hpoller with hnote | ⟨e, hmem, -⟩
      · exact .inl ((hbare _ _).trans hnote)
      · cases hmem
  · intro fd udata filter oneShot hnote
    rw [hbare] at hnote
    obtain ⟨honeShot, source, hget, hraw⟩ := hsound.noted hnote
    exact ⟨honeShot, source, by rw [Slab.get?_insert, if_neg (hvacant hget), hget], hraw⟩

theorem removeSource (hsound : Sound [] reactor owned)
    (hget : Slab.get? reactor.sources key = some source) (hnodup : owned.Nodup) :
    ∃ last, reactor.removeSource Poller.faultless key = .ok (last, .ok ()) ∧
      Sound [] last (owned.erase source.raw) ∧
      ∀ filter, last.poller.notes source.raw filter = none := by
  obtain ⟨hok, hnotes⟩ := reactor.poller.update_spec source.raw
    { key := 0, readable := false, writable := false }
  simp only [Reactor.removeSource, index_of_get? hget, ok_bind, Kqueue.delete_eq_update]
  generalize Poller.update Poller.faultless reactor.poller source.raw _ = updated at hok hnotes
  obtain ⟨poller, result⟩ := updated
  cases hok
  have hgone : ∀ filter, poller.notes source.raw filter = none := by
    intro filter
    rw [hnotes, if_pos rfl]
    cases filter <;> rfl
  have hother : ∀ {other stored}, Slab.get? reactor.sources other = some stored →
      other ≠ key → stored.raw ≠ source.raw := fun hstored hne heq =>
    hne (hsound.distinct hget hstored heq)
  refine ⟨_, rfl, ?_, hgone⟩
  constructor
  · intro other stored hstored
    rw [Slab.get?_remove _ _ _ (by simp [hget])] at hstored
    split at hstored
    · cases hstored
    · rename_i hne
      exact (hnodup.mem_erase_iff).mpr ⟨hother hstored hne, hsound.listed hstored⟩
  · intro left right stored stored' hleft hright hsame
    rw [Slab.get?_remove _ _ _ (by simp [hget])] at hleft hright
    split at hleft
    · cases hleft
    · split at hright
      · cases hright
      · exact hsound.distinct hleft hright hsame
  · intro other stored direction hstored hpoller
    rw [Slab.get?_remove _ _ _ (by simp [hget])] at hstored
    split at hstored
    · cases hstored
    · rename_i hne
      rcases hsound.armed direction hstored hpoller with hnote | ⟨e, hmem, -⟩
      · left
        rw [hnotes, if_neg (hother hstored hne), hnote]
      · cases hmem
  · intro fd udata filter oneShot hnote
    rw [hnotes] at hnote
    split at hnote
    · cases filter <;> cases hnote
    · rename_i hfd
      obtain ⟨honeShot, stored, hstored, hraw⟩ := hsound.noted hnote
      have hne : udata ≠ key := by
        rintro rfl
        rw [hget] at hstored
        cases hstored
        exact hfd hraw.symm
      refine ⟨honeShot, stored, ?_, hraw⟩
      rw [Slab.get?_remove _ _ _ (by simp [hget]), if_neg hne, hstored]

theorem pollReady (hsound : Sound [] reactor owned) {direction : Direction} {waker : W}
    {woken : List W} {result : Poll (Except Errno Unit)}
    (hpoll : reactor.pollReady Poller.faultless key direction waker = .ok (last, woken, result)) :
    Sound [] last owned := by
  simp only [Reactor.pollReady] at hpoll
  split at hpoll
  · cases hpoll
  · rename_i source hget
    have hstill : ∀ {source' : Source W}, source'.raw = source.raw →
        (∀ other, (source'.interest other).hasPoller = true →
          (source.interest other).hasPoller = true) →
        Sound [] { reactor with sources := Slab.set reactor.sources key source' } owned :=
      fun hraw hsame => hsound.keep hget hraw (by simp) fun other hpoller =>
        hsound.armed other hget (hsame other hpoller)
    split at hpoll
    · cases hpoll
      refine hstill (Source.raw_setInterest _ _ _) fun other hpoller => ?_
      rw [Source.interest_setInterest] at hpoller
      split at hpoller
      · rename_i heq
        exact heq ▸ hpoller
      · exact hpoller
    · split at hpoll
      · rename_i replaced hreplaced
        cases hpoll
        refine hstill (Source.raw_setInterest _ _ _) fun other hpoller => ?_
        rw [Source.interest_setInterest] at hpoller
        split at hpoller
        · rename_i heq
          simp [heq, Interest.hasPoller, hreplaced]
        · exact hpoller
      · have hupdate : Sound [] ⟨(Reactor.updateInterest Poller.faultless reactor.poller key
            (source.setInterest direction
              { source.interest direction with poller := some waker })).1,
            Slab.set reactor.sources key (source.setInterest direction
              { source.interest direction with poller := some waker })⟩ owned :=
          hsound.update hget (Source.raw_setInterest _ _ _) (by simp)
        split at hpoll
        · rename_i poller errno hmade
          cases hpoll
          rwa [hmade] at hupdate
        · rename_i poller hmade
          cases hpoll
          rwa [hmade] at hupdate

end Sound

/-! ## Events -/

section Events

variable {reactor last : Reactor Kqueue S W} {owned : List Nat} {rest events : List Event}
  {e : Event} {wakers handed : List W} {result : Except Errno Unit}

/-- The body of the loop succeeds, and the note of whoever still waits is made anew. -/
theorem handleEvent_spec (hsound : Sound (e :: rest) reactor owned)
    {source : Source W} (hget : Slab.get? reactor.sources e.key = some source)
    (hevent : reactor.handleEvent Poller.faultless e wakers = (last, handed, result)) :
    result = .ok () ∧ Sound rest last owned := by
  have hrest : ∀ later ∈ e :: rest, later.key ≠ e.key → later ∈ rest := by
    intro later hmem hne
    rcases List.mem_cons.mp hmem with rfl | hlater
    · exact absurd rfl hne
    · exact hlater
  simp only [Reactor.handleEvent, hget, Reactor.takeIf_takeIf] at hevent
  split at hevent
  · have hok := (reactor.poller.update_spec (Reactor.taken source e).raw
      ((Reactor.taken source e).event e.key)).1
    cases hevent
    exact ⟨hok, hsound.update hget (Reactor.raw_taken source e) hrest⟩
  · rename_i hidle
    cases hevent
    refine ⟨rfl, hsound.keep hget (Reactor.raw_taken source e) hrest ?_⟩
    intro direction hpoller
    refine absurd ?_ hidle
    rw [Bool.or_eq_true]
    cases direction with
    | read => exact .inl hpoller
    | write => exact .inr hpoller

theorem carried_cons {key : Nat} {direction : Direction} : Carried (e :: events) key direction ↔
    (e.key = key ∧ Reactor.carriesEvent e direction = true) ∨ Carried events key direction := by
  simp [Carried]

/-- What the events do to a source. -/
structure Settled (events : List Event) (key : Nat) (source source' : Source W) : Prop where
  raw : source'.raw = source.raw
  carried : ∀ {direction : Direction}, Carried events key direction →
    source'.interest direction = { poller := none, woke := true }
  spared : ∀ {direction : Direction}, ¬ Carried events key direction →
    source'.interest direction = source.interest direction

omit [Slab S] in
/-- The first event takes what it carries, the others the rest. -/
theorem Settled.cons {key : Nat} {source middle source' : Source W}
    (hsettled : Settled events key middle source') (hraw : middle.raw = source.raw)
    (hfirst : ∀ direction, middle.interest direction =
      if e.key = key ∧ Reactor.carriesEvent e direction = true then
        { poller := none, woke := true }
      else source.interest direction) :
    Settled (e :: events) key source source' where
  raw := hsettled.raw.trans hraw
  carried {direction} hcarried := by
    by_cases hlater : Carried events key direction
    · exact hsettled.carried hlater
    · rw [hsettled.spared hlater, hfirst, if_pos]
      exact (carried_cons.mp hcarried).resolve_right hlater
  spared {direction} hspared := by
    rw [carried_cons, not_or] at hspared
    rw [hsettled.spared hspared.2, hfirst, if_neg hspared.1]

/-- The loop over the events succeeds; it hands out exactly the wakers of the directions that
the events carry, and leaves everybody else with a note. -/
theorem handleEvents_spec (hsound : Sound events reactor owned)
    (hkeys : ∀ e ∈ events, (Slab.get? reactor.sources e.key).isSome = true)
    (hevents : reactor.handleEvents Poller.faultless wakers events = (last, handed, result)) :
    result = .ok () ∧ Sound [] last owned ∧
      (∀ {key source}, Slab.get? reactor.sources key = some source →
        ∃ source', Slab.get? last.sources key = some source' ∧
          Settled events key source source') ∧
      ∀ waker, waker ∈ handed ↔ waker ∈ wakers ∨ ∃ key source direction,
        Slab.get? reactor.sources key = some source ∧ Carried events key direction ∧
          (source.interest direction).poller = some waker := by
  induction events generalizing reactor wakers with
  | nil =>
      cases hevents
      refine ⟨rfl, hsound, fun {key source} hget => ⟨source, hget, rfl, ?_, fun _ => rfl⟩, ?_⟩
      · rintro direction ⟨e, hmem, -⟩
        cases hmem
      · simp [Carried]
  | cons e events ih =>
      obtain ⟨source, hget⟩ := Option.isSome_iff_exists.mp (hkeys e List.mem_cons_self)
      rcases hevent : reactor.handleEvent Poller.faultless e wakers with ⟨middle, taken, answer⟩
      obtain ⟨rfl, hmiddle⟩ := handleEvent_spec hsound hget hevent
      obtain ⟨hsources, rfl⟩ := Reactor.handleEvent_sources hget hevent
      simp only [Reactor.handleEvents, hevent] at hevents
      have hwritten : ∀ key, Slab.get? middle.sources key =
          if key = e.key then some (Reactor.taken source e)
          else Slab.get? reactor.sources key := by
        intro key
        rw [hsources, Slab.get?_set _ _ _ _ (by simp [hget])]
      have hlater : ∀ later ∈ events, (Slab.get? middle.sources later.key).isSome = true := by
        intro later hmem
        rw [hwritten]
        split
        · rfl
        · exact hkeys later (List.mem_cons_of_mem _ hmem)
      obtain ⟨hok, hlast, hsettled, hhanded⟩ := ih hmiddle hlater hevents
      refine ⟨hok, hlast, ?_, fun waker => ?_⟩
      · intro key stored hstored
        by_cases hkey : key = e.key
        · subst hkey
          rw [hget] at hstored
          cases hstored
          obtain ⟨source', hget', hlaw⟩ := hsettled ((hwritten e.key).trans (if_pos rfl))
          refine ⟨source', hget', hlaw.cons (Reactor.raw_taken _ _) fun direction => ?_⟩
          simp [Reactor.interest_taken]
        · obtain ⟨source', hget', hlaw⟩ :=
            hsettled ((hwritten key).trans ((if_neg hkey).trans hstored))
          refine ⟨source', hget', hlaw.cons rfl fun direction => ?_⟩
          rw [if_neg fun hfirst => hkey hfirst.1.symm]
      · rw [hhanded, List.mem_append, Reactor.mem_takenWakers, or_assoc]
        refine or_congr_right ⟨?_, ?_⟩
        · rintro (⟨direction, hcarries, hpoller⟩ |
            ⟨key, stored, direction, hstored, hcarried, hpoller⟩)
          · exact ⟨e.key, source, direction, hget, carried_cons.mpr (.inl ⟨rfl, hcarries⟩), hpoller⟩
          · rw [hwritten] at hstored
            split at hstored
            · rename_i hkey
              cases hstored
              rw [Reactor.interest_taken] at hpoller
              split at hpoller
              · cases hpoller
              · exact ⟨key, source, direction, hkey ▸ hget, carried_cons.mpr (.inr hcarried),
                  hpoller⟩
            · exact ⟨key, stored, direction, hstored, carried_cons.mpr (.inr hcarried), hpoller⟩
        · rintro ⟨key, stored, direction, hstored, hcarried, hpoller⟩
          by_cases hfirst : e.key = key ∧ Reactor.carriesEvent e direction = true
          · obtain ⟨rfl, hcarries⟩ := hfirst
            rw [hget] at hstored
            cases hstored
            exact .inl ⟨direction, hcarries, hpoller⟩
          · have hcarried := (carried_cons.mp hcarried).resolve_left hfirst
            right
            by_cases hkey : key = e.key
            · subst hkey
              rw [hget] at hstored
              cases hstored
              refine ⟨e.key, _, direction, (hwritten e.key).trans (if_pos rfl), hcarried, ?_⟩
              rw [Reactor.interest_taken, if_neg fun hcarries => hfirst ⟨rfl, hcarries⟩]
              exact hpoller
            · exact ⟨key, stored, direction, (hwritten key).trans ((if_neg hkey).trans hstored),
                hcarried, hpoller⟩

/-- A report leaves an event for each note that it deletes. -/
theorem Sound.report (hsound : Sound rest reactor owned)
    {batch : List (Nat × Filter × BitVec 16)} {poller : Kqueue} {reported : List Kqueue.SysEvent}
    (hreport : reactor.poller.report batch = some (poller, reported)) :
    Sound (rest ++ reported.map Kqueue.fromSys) { reactor with poller } owned := by
  induction batch generalizing reactor rest reported with
  | nil =>
      cases hreport
      simpa using hsound
  | cons first batch ih =>
      obtain ⟨fd, filter, flags⟩ := first
      obtain ⟨udata, oneShot, others, hnote, hrest, rfl⟩ := Kqueue.report_cons hreport
      obtain ⟨rfl, source, hget, hraw⟩ := hsound.noted hnote
      have hdeleted : Sound (rest ++ [Kqueue.fromSys
          { ident := fd, filter, flags, data := none, udata }])
          { reactor with poller := reactor.poller.set fd filter none } owned := by
        refine { listed := hsound.listed, distinct := hsound.distinct, armed := ?_, noted := ?_ }
        · intro key stored direction hstored hpoller
          rcases hsound.armed direction hstored hpoller with harmed | ⟨e, hmem, hcarries⟩
          · rw [Kqueue.notes_set]
            split
            · rename_i hsame
              rw [hsame.1, hsame.2, hnote] at harmed
              cases harmed
              refine .inr ⟨_, List.mem_append_right _ List.mem_cons_self, rfl, ?_⟩
              exact (carriesEvent_fromSys _ _).mpr (.inl hsame.2.symm)
            · exact .inl harmed
          · exact .inr ⟨e, List.mem_append_left _ hmem, hcarries⟩
        · intro other udata' filter' oneShot' hother
          rw [Kqueue.notes_set] at hother
          split at hother
          · cases hother
          · exact hsound.noted hother
      have hlast := ih hdeleted hrest
      simpa using hlast

end Events

/-! ## Runs -/

section Runs

variable {reactor next : Reactor Kqueue S W} {owned : List Nat} {shared last : Shared S W}
  {trace : List (Reactor.Call Kqueue W × Reactor.Output Kqueue W)} {call : Reactor.Call Kqueue W}
  {output : Reactor.Output Kqueue W}

/-- The poll of a sound reactor, by the batch that the kernel reports. -/
theorem Sound.poll (hsound : Sound [] reactor owned) {timeout : Option Nat}
    {batch : List (Nat × Filter × BitVec 16)}
    (htransition : Reactor.Transition Poller.faultless reactor (.poll timeout (.ok batch)) next
      output) :
    ∃ poller events, reactor.poller.report batch = some (poller, events) ∧
      output.answer = .waited (Kqueue.timeout timeout) (.ok ()) ∧ Sound [] next owned ∧
      (∀ {key source}, Slab.get? reactor.sources key = some source →
        ∃ source', Slab.get? next.sources key = some source' ∧
          Settled (events.map Kqueue.fromSys) key source source') ∧
      ∀ waker, waker ∈ output.handed ↔ ∃ key source direction,
        Slab.get? reactor.sources key = some source ∧
          Carried (events.map Kqueue.fromSys) key direction ∧
          (source.interest direction).poller = some waker := by
  cases htransition with
  | @poll _ _ poller waited _ handed result hanswer hpoll =>
      obtain ⟨⟨_, events⟩, hreport, heq⟩ := Option.map_eq_some_iff.mp hanswer
      cases heq
      have hreported := hsound.report hreport
      rw [List.nil_append] at hreported
      have hkeys : ∀ e ∈ events.map Kqueue.fromSys,
          (Slab.get? reactor.sources e.key).isSome = true := by
        intro e hmem
        obtain ⟨sys, hsys, rfl⟩ := List.mem_map.mp hmem
        obtain ⟨oneShot, hnote⟩ := (Kqueue.report_spec hreport).2 sys hsys
        obtain ⟨-, source, hget, -⟩ := hsound.noted hnote
        exact Option.isSome_iff_exists.mpr ⟨source, hget⟩
      obtain ⟨rfl, hnext, hsettled, hhanded⟩ := handleEvents_spec hreported hkeys hpoll
      exact ⟨poller, events, hreport, rfl, hnext, hsettled, by simpa using hhanded⟩

theorem sound_step (hsound : Sound [] shared.reactor shared.owned) (hnodup : shared.owned.Nodup)
    (hfaults : call.faults = Poller.faultless)
    (hstep : system.step shared call = .next last output) :
    Sound [] last.reactor last.owned ∧ last.owned.Nodup := by
  obtain ⟨hallows, hinner, howned⟩ := step_eq_next.mp hstep
  have htransition := Reactor.step_transition hinner
  obtain ⟨op, faults⟩ := call
  obtain ⟨next, owned⟩ := last
  cases hfaults
  cases howned
  cases htransition with
  | insertSource hinsert =>
      have hfree := of_decide_eq_true hallows
      obtain ⟨reactor, hinserted, hlast⟩ := hsound.insertSource hfree
      cases hinserted.symm.trans hinsert
      exact ⟨hlast, List.nodup_cons.mpr ⟨hfree, hnodup⟩⟩
  | @removeSource key _ result hremove =>
      cases hget : Slab.get? shared.reactor.sources key with
      | none => simp [Reactor.removeSource, index, hget] at hremove
      | some source =>
          obtain ⟨reactor, hremoved, hlast, -⟩ := hsound.removeSource hget hnodup
          cases hremoved.symm.trans hremove
          simp only [hget]
          exact ⟨hlast, hnodup.erase _⟩
  | pollReady hpoll => exact ⟨hsound.pollReady hpoll, hnodup⟩
  | @poll timeout answer poller waited _ handed result hanswer hpoll =>
      cases answer with
      | error errno =>
          cases hanswer
          cases errno <;> cases hpoll <;> exact ⟨hsound, hnodup⟩
      | ok batch =>
          have hpolled : Reactor.Transition Poller.faultless shared.reactor
              (.poll timeout (.ok batch)) next _ := .poll hanswer hpoll
          obtain ⟨_, _, -, -, hlast, -⟩ := hsound.poll hpolled
          exact ⟨hlast, hnodup⟩

theorem run_sound (hrun : system.Run (new : Shared S W) trace shared)
    (hfaults : ∀ event ∈ trace, event.1.faults = Poller.faultless) :
    Sound [] shared.reactor shared.owned := by
  refine (hrun.invariant
    (fun trace shared => (∀ event ∈ trace, event.1.faults = Poller.faultless) →
      Sound [] shared.reactor shared.owned ∧ shared.owned.Nodup)
    (fun _ => ⟨Sound.new, List.nodup_nil⟩) ?_ hfaults).1
  intro trace middle last call output _ ih hstep hfaults
  obtain ⟨hsound, hnodup⟩ := ih fun event hmem => hfaults event (List.mem_append_left _ hmem)
  exact sound_step hsound hnodup (hfaults (call, output) (by simp)) hstep

/-- Over every run on kqueue whose calls of `kevent` succeed: whoever waits has a note under
the key of its source, and every note is that of a source.  A poll takes the wakers of all
directions that the kernel reports, whatever the flags, and of nobody else, save that the
end of a stream wakes its writer as well. -/
theorem kqueue_forgets_nobody (hrun : system.Run (new : Shared S W) trace shared)
    (hfaults : ∀ event ∈ trace, event.1.faults = Poller.faultless) :
    (∀ key source direction, Slab.get? shared.reactor.sources key = some source →
        (source.interest direction).hasPoller = true →
        shared.reactor.poller.notes source.raw direction.filter = some (key, true)) ∧
      (∀ fd filter udata oneShot,
        shared.reactor.poller.notes fd filter = some (udata, oneShot) →
        ∃ source, Slab.get? shared.reactor.sources udata = some source ∧ source.raw = fd) ∧
      ∀ timeout batch last output,
        system.step shared { op := .poll timeout (.ok batch) } = .next last output →
        output.answer = .waited (Kqueue.timeout timeout) (.ok ()) ∧
          (∀ fd filter flags, (fd, filter, flags) ∈ batch →
            ∃ key source source', Slab.get? shared.reactor.sources key = some source ∧
              source.raw = fd ∧ Slab.get? last.reactor.sources key = some source' ∧
              ∀ direction : Direction, direction.filter = filter →
                source'.interest direction = { poller := none, woke := true } ∧
                ∀ waker, (source.interest direction).poller = some waker →
                  waker ∈ output.handed) ∧
          ∀ waker ∈ output.handed, ∃ key source direction filter flags,
            Slab.get? shared.reactor.sources key = some source ∧
              (source.interest direction).poller = some waker ∧
              (source.raw, filter, flags) ∈ batch ∧
              (filter = direction.filter ∨ direction = .write ∧ filter = .read ∧
                Kqueue.hasAny flags Kqueue.EV_EOF = true) := by
  have hsound := run_sound hrun hfaults
  refine ⟨fun key source direction hget hpoller => ?_, fun fd filter udata oneShot hnote =>
    (hsound.noted hnote).2, fun timeout batch last output hstep => ?_⟩
  · rcases hsound.armed direction hget hpoller with hnote | ⟨e, hmem, -⟩
    · exact hnote
    · cases hmem
  · obtain ⟨poller, events, hreport, hanswer, -, hsettled, hhanded⟩ :=
      hsound.poll (Reactor.step_transition (step_eq_next.mp hstep).2.1)
    obtain ⟨hbatch, hnotes⟩ := Kqueue.report_spec hreport
    refine ⟨hanswer, fun fd filter flags hmem => ?_, fun waker hmem => ?_⟩
    · rw [← hbatch, List.mem_map] at hmem
      obtain ⟨sys, hsys, heq⟩ := hmem
      cases heq
      obtain ⟨oneShot, hnote⟩ := hnotes sys hsys
      obtain ⟨-, source, hget, hraw⟩ := hsound.noted hnote
      obtain ⟨source', hget', hlaw⟩ := hsettled hget
      refine ⟨sys.udata, source, source', hget, hraw, hget', fun direction hfilter => ?_⟩
      have hcarried : Carried (events.map Kqueue.fromSys) sys.udata direction :=
        ⟨_, List.mem_map_of_mem hsys, rfl, (carriesEvent_fromSys _ _).mpr (.inl hfilter.symm)⟩
      exact ⟨hlaw.carried hcarried, fun waker hpoller =>
        (hhanded waker).mpr ⟨sys.udata, source, direction, hget, hcarried, hpoller⟩⟩
    · obtain ⟨key, source, direction, hget, ⟨e, hevent, rfl, hcarries⟩, hpoller⟩ :=
        (hhanded waker).mp hmem
      obtain ⟨sys, hsys, rfl⟩ := List.mem_map.mp hevent
      obtain ⟨oneShot, hnote⟩ := hnotes sys hsys
      obtain ⟨-, stored, hstored, hraw⟩ := hsound.noted hnote
      have hsame : stored = source := Option.some.inj (hstored.symm.trans hget)
      subst hsame
      refine ⟨_, stored, direction, sys.filter, sys.flags, hget, hpoller, ?_,
        (carriesEvent_fromSys _ _).mp hcarries⟩
      rw [← hbatch, hraw]
      exact List.mem_map_of_mem hsys

/-- A reader and a writer of one socket. -/
def bothWait : List (Reactor.Call Kqueue Nat) :=
  [{ op := .insertSource 3 }, { op := .pollReady 0 .read 7 }, { op := .pollReady 0 .write 8 }]

theorem kqueue_forgets_nobody_bothWait :
    ∃ (trace : List (Reactor.Call Kqueue Nat × Reactor.Output Kqueue Nat))
      (shared last : Shared FreeSlab Nat) (output : Reactor.Output Kqueue Nat),
      system.Run new trace shared ∧ trace.map Prod.fst = bothWait ∧
      system.step shared { op := .poll none (.ok [(3, .read, Kqueue.EV_EOF)]) } =
        .next last output ∧
      shared.reactor.poller.notes 3 .read = some (0, true) ∧
      output.answer = .waited (none : Option (Nat × Nat)) (.ok ()) ∧ output.handed = [7, 8] := by
  have hexec : system.exec (new : Shared FreeSlab Nat) bothWait = some (_, _) := rfl
  have hrun := System.exec_run hexec
  obtain ⟨harmed, -, hreports⟩ := kqueue_forgets_nobody hrun (by simp)
  refine ⟨_, _, _, _, hrun, rfl, rfl, harmed 0 _ .read rfl rfl, ?_, rfl⟩
  exact (hreports none [(3, .read, Kqueue.EV_EOF)] _ _ rfl).1

end Runs

end KqueueReactor

end Platoon.Runtime
