import Platoon.Runtime.EpollReactor

/-!
# The kernel's interests and the stored wakers

`Agrees` relates the slab of the sources to the kernel's table.  While a batch
of events is handled, the sources of the remaining events are disarmed; all
others are armed for exactly the directions that have a stored waker.
-/

namespace Platoon.Runtime

open Platoon.Foundation Platoon.Rust Platoon.Sys

variable {S : Type → Type} [Slab S] {W : Type}

/-- How the registration of a source follows its wakers: disarmed as long as its event
is `unhandled`, else armed for the directions that have a waker. -/
def Follows (unhandled : List Nat) (key : Nat) (source : Source W)
    (registration : Registration) : Prop :=
  if key ∈ unhandled then registration.armed = false
  else ∀ direction,
    registration.interested direction.bit = (source.interest direction).hasPoller

/-- Sources and registrations are in bijection, by key and descriptor, and the
registrations follow the wakers. -/
structure Agrees (unhandled : List Nat) (poller : Epoll) (sources : S (Source W)) : Prop where
  registered : ∀ {key : Nat} {source : Source W}, Slab.get? sources key = some source →
    ∃ registration, poller.table source.raw = some registration ∧
      registration.event.u64 = key ∧ Follows unhandled key source registration
  owned : ∀ {fd : Nat} {registration : Registration},
    poller.table fd = some registration →
    ∃ source, Slab.get? sources registration.event.u64 = some source ∧ source.raw = fd
  oneShot : ∀ {fd : Nat} {registration : Registration},
    poller.table fd = some registration →
    hasAny registration.event.events EPOLLONESHOT = true

/-- The registration that `update_interest` makes follows the wakers. -/
theorem follows_event (unhandled : List Nat) (key : Nat) (source : Source W)
    (hhandled : key ∉ unhandled) :
    Follows unhandled key source
      { event := .fromEvent (source.event key), armed := true } := by
  rw [Follows, if_neg hhandled]
  intro direction
  cases direction with
  | read => simp [Registration.interested, Direction.bit, Source.event, Source.interest]
  | write => simp [Registration.interested, Direction.bit, Source.event, Source.interest]

/-- A disarmed registration follows a source without wakers. -/
theorem follows_disarmed {unhandled : List Nat} {key : Nat} {source : Source W}
    {registration : Registration} (harmed : registration.armed = false)
    (hidle : (source.reader.hasPoller || source.writer.hasPoller) = false) :
    Follows unhandled key source registration := by
  obtain ⟨hreader, hwriter⟩ := Bool.or_eq_false_iff.mp hidle
  rw [Follows]
  split
  · exact harmed
  · intro direction
    cases direction <;>
      simp [Registration.interested, harmed, Source.interest, hreader, hwriter]

namespace Agrees

variable {unhandled : List Nat} {poller : Epoll} {sources : S (Source W)}

theorem new : Agrees [] Epoll.new (Slab.empty : S (Source W)) where
  registered hget := by simp at hget
  owned htable := by cases htable
  oneShot htable := by cases htable

/-- Only the members of the list of unhandled keys matter. -/
theorem of_mem_iff (hagrees : Agrees unhandled poller sources) {others : List Nat}
    (hmem : ∀ key, key ∈ others ↔ key ∈ unhandled) : Agrees others poller sources where
  registered hget := by
    obtain ⟨registration, htable, hkey, hfollows⟩ := hagrees.registered hget
    refine ⟨registration, htable, hkey, ?_⟩
    simpa only [Follows, hmem] using hfollows
  owned := hagrees.owned
  oneShot := hagrees.oneShot

/-- Two live keys have different descriptors. -/
theorem key_unique (hagrees : Agrees unhandled poller sources) {key other : Nat}
    {source source' : Source W} (hget : Slab.get? sources key = some source)
    (hother : Slab.get? sources other = some source') (hraw : source'.raw = source.raw) :
    other = key := by
  obtain ⟨registration, htable, hkey, -⟩ := hagrees.registered hget
  obtain ⟨registration', htable', hkey', -⟩ := hagrees.registered hother
  rw [hraw, htable] at htable'
  cases htable'
  rw [← hkey, ← hkey']

/-- A new source occupies the vacant key; it is registered without interests. -/
theorem insert (hagrees : Agrees [] poller sources) {raw : Nat}
    (hfree : poller.table raw = none) :
    Agrees []
      (poller.set raw (some
        { event := .fromEvent ⟨Slab.vacantKey sources, false, false⟩
          armed := true }))
      (Slab.insert sources { raw, reader := {}, writer := {} }) where
  registered {key source} hget := by
    rw [Slab.get?_insert] at hget
    split at hget
    · rename_i heq
      cases hget
      subst heq
      refine ⟨_, if_pos rfl, rfl, ?_⟩
      exact follows_event [] _ { raw, reader := {}, writer := {} } List.not_mem_nil
    · obtain ⟨registration, htable, hkey, hfollows⟩ := hagrees.registered hget
      have hne : source.raw ≠ raw := by
        intro heq
        rw [heq, hfree] at htable
        cases htable
      exact ⟨registration, by simp [hne, htable], hkey, hfollows⟩
  owned {fd registration} htable := by
    rw [Epoll.table_set] at htable
    split at htable
    · rename_i heq
      cases htable
      exact ⟨{ raw, reader := {}, writer := {} }, by simp, heq.symm⟩
    · obtain ⟨source, hget, hraw⟩ := hagrees.owned htable
      have hne : registration.event.u64 ≠ Slab.vacantKey sources := by
        intro heq
        simp [heq] at hget
      exact ⟨source, by simp [hne, hget], hraw⟩
  oneShot {fd registration} htable := by
    rw [Epoll.table_set] at htable
    split at htable
    · cases htable
      exact SysEvent.oneShot_fromEvent _
    · exact hagrees.oneShot htable

/-- A removed source leaves both tables. -/
theorem remove (hagrees : Agrees unhandled poller sources) {key : Nat} {source : Source W}
    (hget : Slab.get? sources key = some source) :
    Agrees unhandled (poller.set source.raw none) (Slab.remove sources key) where
  registered {other source'} hother := by
    rw [Slab.get?_remove _ _ _ (by simp [hget])] at hother
    split at hother
    · cases hother
    · rename_i hne
      obtain ⟨registration, htable, hkey, hfollows⟩ := hagrees.registered hother
      have hraw : source'.raw ≠ source.raw := fun heq =>
        hne (hagrees.key_unique hget hother heq)
      exact ⟨registration, by simp [hraw, htable], hkey, hfollows⟩
  owned {fd registration} htable := by
    rw [Epoll.table_set] at htable
    split at htable
    · cases htable
    · rename_i hne
      obtain ⟨source', hother, hraw⟩ := hagrees.owned htable
      refine ⟨source', ?_, hraw⟩
      rw [Slab.get?_remove _ _ _ (by simp [hget]), if_neg, hother]
      rintro heq
      rw [heq, hget] at hother
      cases hother
      exact hne hraw.symm
  oneShot {fd registration} htable := by
    rw [Epoll.table_set] at htable
    split at htable
    · cases htable
    · exact hagrees.oneShot htable

/-- Change one source and its registration; the keys before and after may differ in
whether the event of this source is handled. -/
theorem write (hagrees : Agrees unhandled poller sources) {key : Nat} {source source' : Source W}
    {registration : Registration} {poller' : Epoll} {sources' : S (Source W)} {rest : List Nat}
    (hget : Slab.get? sources key = some source) (hraw : source'.raw = source.raw)
    (hpoller : ∀ fd, poller'.table fd =
      if fd = source.raw then some registration else poller.table fd)
    (hsources : ∀ other, Slab.get? sources' other =
      if other = key then some source' else Slab.get? sources other)
    (hkey : registration.event.u64 = key)
    (honeShot : hasAny registration.event.events EPOLLONESHOT = true)
    (hfollows : Follows rest key source' registration)
    (hrest : ∀ other, other ≠ key → (other ∈ rest ↔ other ∈ unhandled)) :
    Agrees rest poller' sources' where
  registered {other stored} hstored := by
    rw [hsources] at hstored
    split at hstored
    · rename_i heq
      cases hstored
      subst heq
      exact ⟨registration, by simp [hpoller, hraw], hkey, hfollows⟩
    · rename_i hne
      obtain ⟨registration', htable, hkey', hfollows'⟩ := hagrees.registered hstored
      have hother : stored.raw ≠ source.raw := fun heq =>
        hne (hagrees.key_unique hget hstored heq)
      refine ⟨registration', by simp [hpoller, hother, htable], hkey', ?_⟩
      simpa only [Follows, hrest other hne] using hfollows'
  owned {fd registration'} htable := by
    rw [hpoller] at htable
    rw [hsources]
    split at htable
    · rename_i heq
      cases htable
      exact ⟨source', by simp [hkey], hraw.trans heq.symm⟩
    · rename_i hne
      obtain ⟨stored, hstored, hraw'⟩ := hagrees.owned htable
      have hother : registration'.event.u64 ≠ key := by
        intro heq
        rw [heq, hget] at hstored
        cases hstored
        exact hne hraw'.symm
      exact ⟨stored, by rw [if_neg hother, hstored], hraw'⟩
  oneShot {fd registration'} htable := by
    rw [hpoller] at htable
    split at htable
    · cases htable
      exact honeShot
    · exact hagrees.oneShot htable

/-- Change one source and keep its registration. -/
theorem writeSource (hagrees : Agrees unhandled poller sources) {key : Nat}
    {source source' : Source W} {rest : List Nat}
    (hget : Slab.get? sources key = some source) (hraw : source'.raw = source.raw)
    (hfollows : ∀ registration, Follows unhandled key source registration →
      Follows rest key source' registration)
    (hrest : ∀ other, other ≠ key → (other ∈ rest ↔ other ∈ unhandled)) :
    Agrees rest poller (Slab.set sources key source') := by
  obtain ⟨registration, htable, hkey, hold⟩ := hagrees.registered hget
  refine hagrees.write hget hraw (fun fd => ?_)
    (fun other => Slab.get?_set _ _ _ _ (by simp [hget])) hkey (hagrees.oneShot htable)
    (hfollows registration hold) hrest
  split
  · rename_i heq
    rw [heq, htable]
  · rfl

/-- Change one registration and keep its source. -/
theorem writeTable (hagrees : Agrees unhandled poller sources) {key : Nat} {source : Source W}
    {registration : Registration} {rest : List Nat}
    (hget : Slab.get? sources key = some source) (hkey : registration.event.u64 = key)
    (honeShot : hasAny registration.event.events EPOLLONESHOT = true)
    (hfollows : Follows rest key source registration)
    (hrest : ∀ other, other ≠ key → (other ∈ rest ↔ other ∈ unhandled)) :
    Agrees rest (poller.set source.raw (some registration)) sources := by
  refine hagrees.write hget rfl (fun fd => Epoll.table_set _ _ _ _) (fun other => ?_)
    hkey honeShot hfollows hrest
  split
  · rename_i heq
    rw [heq, hget]
  · rfl

/-- Without faults `update_interest` re-arms the registration of a live source. -/
theorem update_ok (hagrees : Agrees unhandled poller sources) {key : Nat}
    {source source' : Source W} (hget : Slab.get? sources key = some source)
    (hraw : source'.raw = source.raw) :
    Epoll.update [] poller source'.raw (source'.event key) = .ok (poller.set source.raw
      (some { event := .fromEvent (source'.event key), armed := true })) := by
  obtain ⟨registration, htable, -⟩ := hagrees.registered hget
  simp [Epoll.update, Epoll.ctlMod, hraw, htable]

/-- Store the interests of a source and re-arm it. -/
theorem rearm (hagrees : Agrees unhandled poller sources) {key : Nat}
    {source source' : Source W} (hget : Slab.get? sources key = some source)
    {rest : List Nat} (hraw : source'.raw = source.raw) (hhandled : key ∉ rest)
    (hrest : ∀ other, other ≠ key → (other ∈ rest ↔ other ∈ unhandled)) :
    Agrees rest
      (poller.set source.raw
        (some { event := .fromEvent (source'.event key), armed := true }))
      (Slab.set sources key source') :=
  hagrees.write hget hraw (fun _ => Epoll.table_set _ _ _ _)
    (fun _ => Slab.get?_set _ _ _ _ (by simp [hget])) rfl (SysEvent.oneShot_fromEvent _)
    (follows_event rest key source' hhandled) hrest

/-! ## The operations -/

theorem insertSource (hagrees : Agrees [] poller sources) (raw : Nat) {reactor : Reactor Epoll S W}
    {result : Except Errno Nat}
    (hinsert : Reactor.insertSource [] { poller, sources } raw = (reactor, result)) :
    Agrees [] reactor.poller reactor.sources := by
  cases htable : poller.table raw with
  | some registration =>
      simp only [Reactor.insertSource_epoll, Epoll.add, Epoll.ctlAdd, List.lookup_nil, htable]
        at hinsert
      cases hinsert
      exact hagrees
  | none =>
      simp only [Reactor.insertSource_epoll, Epoll.add, Epoll.ctlAdd, List.lookup_nil, htable]
        at hinsert
      cases hinsert
      exact hagrees.insert htable

theorem removeSource (hagrees : Agrees [] poller sources) {key : Nat} {reactor : Reactor Epoll S W}
    {result : Except Errno Unit}
    (hremove : Reactor.removeSource [] { poller, sources } key = .ok (reactor, result)) :
    Agrees [] reactor.poller reactor.sources := by
  cases hget : Slab.get? sources key with
  | none => simp [Reactor.removeSource_epoll, index, hget] at hremove
  | some source =>
      obtain ⟨registration, htable, -⟩ := hagrees.registered hget
      simp only [Reactor.removeSource_epoll, index_of_get? hget, ok_bind, Epoll.delete,
        List.lookup_nil, Epoll.ctlDel, htable] at hremove
      cases hremove
      exact hagrees.remove hget

theorem pollReady (hagrees : Agrees [] poller sources) {key : Nat} {direction : Direction}
    {waker : W} {reactor : Reactor Epoll S W} {woken : List W} {result : Poll (Except Errno Unit)}
    (hpoll : Reactor.pollReady [] { poller, sources } key direction waker =
      .ok (reactor, woken, result)) :
    Agrees [] reactor.poller reactor.sources := by
  simp only [Reactor.pollReady_epoll] at hpoll
  split at hpoll
  · cases hpoll
  · rename_i source hget
    split at hpoll
    · cases hpoll
      refine hagrees.writeSource hget (by simp) (fun registration hfollows => ?_) (by simp)
      simp only [Follows, List.not_mem_nil, ↓reduceIte] at hfollows ⊢
      intro other
      rw [hfollows, Source.interest_setInterest]
      split <;> rename_i heq <;> simp [heq, Interest.hasPoller]
    · split at hpoll
      · rename_i replaced hreplaced
        cases hpoll
        refine hagrees.writeSource hget (by simp) (fun registration hfollows => ?_) (by simp)
        simp only [Follows, List.not_mem_nil, ↓reduceIte] at hfollows ⊢
        intro other
        rw [hfollows, Source.interest_setInterest]
        split <;> rename_i heq <;> simp [heq, Interest.hasPoller, hreplaced]
      · rw [hagrees.update_ok hget (by simp)] at hpoll
        cases hpoll
        exact hagrees.rearm hget (by simp) List.not_mem_nil (by simp)

/-- The kernel reports only sources whose events are handled, and disarms them. -/
theorem reportOne (hagrees : Agrees unhandled poller sources) {fd : Nat}
    {registration : Registration} (htable : poller.table fd = some registration)
    (harmed : registration.armed = true) :
    registration.event.u64 ∉ unhandled ∧
      Agrees (registration.event.u64 :: unhandled)
        (poller.set fd (some registration.report)) sources := by
  obtain ⟨source, hget, rfl⟩ := hagrees.owned htable
  have honeShot := hagrees.oneShot htable
  constructor
  · intro hmem
    obtain ⟨stored, hstored, -, hfollows⟩ := hagrees.registered hget
    rw [htable] at hstored
    cases hstored
    rw [Follows, if_pos hmem, harmed] at hfollows
    cases hfollows
  · apply hagrees.writeTable hget
    · rw [registration.report_event]
    · rw [registration.report_event]
      exact honeShot
    · simp [Follows, Registration.report_armed honeShot]
    · simp +contextual

/-- The kernel disarms what it reports, and reports no source twice. -/
theorem report (hagrees : Agrees unhandled poller sources) {batch : List (Nat × BitVec 32)}
    {poller' : Epoll} {events : List SysEvent}
    (hreport : poller.report batch = some (poller', events)) :
    Agrees (events.map SysEvent.u64 ++ unhandled) poller' sources ∧
      (events.map SysEvent.u64).Nodup ∧
      ∀ key ∈ events.map SysEvent.u64, key ∉ unhandled := by
  induction batch generalizing poller unhandled events with
  | nil =>
      cases hreport
      exact ⟨hagrees, List.nodup_nil, by simp⟩
  | cons ready batch ih =>
      obtain ⟨fd, bits⟩ := ready
      simp only [Epoll.report] at hreport
      split at hreport
      · cases hreport
      · rename_i registration htable
        split at hreport
        · rename_i hready
          obtain ⟨⟨last, tail⟩, htail, heq⟩ := Option.map_eq_some_iff.mp hreport
          cases heq
          have harmed : registration.armed = true := by
            simp only [Bool.and_eq_true] at hready
            exact hready.1.1.1
          obtain ⟨hfresh, hdisarm⟩ := hagrees.reportOne htable harmed
          obtain ⟨hagrees', hnodup, hdisjoint⟩ := ih hdisarm htail
          refine ⟨hagrees'.of_mem_iff ?_, ?_, ?_⟩
          · intro key
            simp only [List.map_cons, List.mem_append, List.mem_cons]
            tauto
          · exact List.nodup_cons.mpr
              ⟨fun hmem => hdisjoint _ hmem List.mem_cons_self, hnodup⟩
          · intro key hkey
            rcases List.mem_cons.mp hkey with rfl | hmem
            · exact hfresh
            · exact fun h => hdisjoint key hmem (List.mem_cons_of_mem _ h)
        · cases hreport

/-- An event whose source is disarmed leaves it armed for the wakers that remain. -/
theorem handleEvent {key : Nat} {rest : List Nat} (hagrees : Agrees (key :: rest) poller sources)
    (hfresh : key ∉ rest) (readable writable : Bool) (wakers : List W) :
    ∃ reactor handed,
      Reactor.handleEvent [] { poller, sources } { key, readable, writable } wakers =
        (reactor, handed, .ok ()) ∧ Agrees rest reactor.poller reactor.sources := by
  have hrest : ∀ other, other ≠ key → (other ∈ rest ↔ other ∈ key :: rest) := by
    simp +contextual
  simp only [Reactor.handleEvent_epoll]
  split
  · rename_i hnone
    refine ⟨_, _, rfl, fun {other source} hget => ?_, hagrees.owned, hagrees.oneShot⟩
    have hne : other ≠ key := by
      rintro rfl
      rw [hnone] at hget
      cases hget
    obtain ⟨registration, htable, hkey, hfollows⟩ := hagrees.registered hget
    exact ⟨registration, htable, hkey, by simpa only [Follows, hrest other hne] using hfollows⟩
  · rename_i source hget
    let first := source.takeIf readable .read wakers
    let second := first.1.takeIf writable .write first.2
    have hraw : second.1.raw = source.raw := by simp [second, first]
    split
    · rw [hagrees.update_ok hget hraw]
      exact ⟨_, _, rfl, hagrees.rearm hget hraw hfresh hrest⟩
    · rename_i hidle
      refine ⟨_, _, rfl, hagrees.writeSource hget hraw (fun registration hfollows => ?_) hrest⟩
      rw [Follows, if_pos List.mem_cons_self] at hfollows
      exact follows_disarmed hfollows (Bool.eq_false_iff.mpr hidle)

/-- Once all reported events are handled, the kernel is armed for the stored wakers. -/
theorem handleEvents {events : List Event} (hnodup : (events.map Event.key).Nodup)
    (hagrees : Agrees (events.map Event.key) poller sources) (wakers : List W) :
    ∃ reactor handed,
      Reactor.handleEvents [] { poller, sources } wakers events = (reactor, handed, .ok ()) ∧
        Agrees [] reactor.poller reactor.sources := by
  induction events generalizing poller sources wakers with
  | nil => exact ⟨_, _, rfl, hagrees⟩
  | cons event events ih =>
      obtain ⟨hfresh, hnodup⟩ := List.nodup_cons.mp hnodup
      obtain ⟨middle, handed, hevent, hmiddle⟩ :=
        hagrees.handleEvent hfresh event.readable event.writable wakers
      obtain ⟨last, all, hrest, hlast⟩ := ih hnodup hmiddle handed
      refine ⟨last, all, ?_, hlast⟩
      simp only [Reactor.handleEvents, hevent]
      exact hrest

theorem poll (hagrees : Agrees [] poller sources)
    {answer : Except Errno (List (Nat × BitVec 32))} {poller' : Epoll}
    {waited : Except Errno (List SysEvent)}
    (hanswer : Epoll.poll poller answer = some (poller', waited)) (wakers : List W) :
    Agrees [] (Reactor.poll [] { poller := poller', sources } waited wakers).1.poller
      (Reactor.poll [] { poller := poller', sources } waited wakers).1.sources := by
  cases answer with
  | error errno =>
      cases hanswer
      cases errno <;> exact hagrees
  | ok batch =>
      obtain ⟨⟨last, events⟩, hreport, heq⟩ := Option.map_eq_some_iff.mp hanswer
      cases heq
      obtain ⟨hlast, hnodup, -⟩ := hagrees.report hreport
      have hkeys : (events.map Event.fromSys).map Event.key = events.map SysEvent.u64 := by
        rw [List.map_map]
        rfl
      rw [List.append_nil, ← hkeys] at hlast
      rw [← hkeys] at hnodup
      obtain ⟨reactor, handed, hevents, hdone⟩ := hlast.handleEvents hnodup wakers
      simp only [Reactor.poll_epoll, hevents]
      exact hdone

end Agrees

end Platoon.Runtime
