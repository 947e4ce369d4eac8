import Platoon.Sync.SemaphoreRuns

/-!
# Who may obtain permits before whom

Permits are given out when a woken future is polled, in any order among the
woken ones.  Since the woken waiters are a prefix of the line, nobody obtains
permits before an older waiter was promised its own.
-/

namespace Platoon.Sync

open Platoon.Foundation Platoon.Rust

namespace Fifo

open Semaphore

variable {W : Type}

/-- The future waits and is marked as woken. -/
def State.Promised (state : State W) (future : Nat) : Prop :=
  ∃ entry ∈ state.queue, entry.id = future ∧ entry.woke = true

variable [Wakes W] {profile : Profile} {state last : State W} {op : Op W} {output : Output W}
  {future : Nat}

/-- A promise stands until its future is polled or dropped. -/
theorem Transition.promise_stands (htransition : Transition profile state op last output)
    (henrolled : Enrolled state) (hpromised : state.Promised future)
    (hpoll : ∀ waker, op ≠ .poll future waker) (hdrop : op ≠ .drop future) :
    last.Promised future := by
  obtain ⟨old, hold, rfl, hwoke⟩ := hpromised
  have hwaits := (henrolled.waiting old.id).mp (List.mem_map_of_mem hold)
  have hstill := htransition.waits_on hwaits hdrop fun waker heq => absurd heq (hpoll waker)
  obtain ⟨entry, hentry, hid⟩ :=
    List.mem_map.mp (((htransition.enrolled henrolled).waiting old.id).mpr hstill)
  exact ⟨entry, hentry, hid, htransition.woke_stays henrolled hold hentry hid hwoke⟩

/-- A promise can be claimed at once. -/
theorem promise_claimed (henrolled : Enrolled state)
    (hkept : Line.Kept state.permits state.queue) (hpromised : state.Promised future)
    (waker : W) :
    ∃ entry last output, Line.find? future state.queue = some entry ∧
      (Fifo.system profile).step state (.poll future waker) = .next last output ∧
      output.obtained = some entry.required := by
  obtain ⟨entry, hentry, rfl, hwoke⟩ := hpromised
  have hwaits := (henrolled.waiting entry.id).mp (List.mem_map_of_mem hentry)
  have hfind := Line.find?_of_mem henrolled.nodup hentry
  have hfits := hkept.required_le hfind hwoke
  refine ⟨entry, ?_⟩
  simp [Fifo.system, State.step, State.poll, hwaits, hfind, hwoke, hfits]

/-- Permits are obtained past an empty line, or by a promised future behind promised ones. -/
theorem Transition.obtains_in_turn (htransition : Transition profile state op last output)
    (hkept : Line.Kept state.permits state.queue) {amount : Nat}
    (hobtained : output.obtained = some amount) (hpos : 1 ≤ amount) :
    state.queue = [] ∨ ∃ future waker older entry younger, op = .poll future waker ∧
      state.queue = older ++ entry :: younger ∧ entry.id = future ∧
      ∀ ahead ∈ older, ahead.woke = true := by
  cases htransition with
  | take hidle hcan =>
      cases hobtained
      exact .inl (queue_eq_nil_of_canTake hcan hpos)
  | tryTake hcan =>
      cases hobtained
      exact .inl (queue_eq_nil_of_canTake hcan hpos)
  | @grant future waker entry hwaits hfind hwoke hfits =>
      obtain ⟨hmem, hid⟩ := Line.find?_mem hfind
      obtain ⟨older, younger, hqueue⟩ := List.append_of_mem hmem
      obtain ⟨front, back, hsplit⟩ := hkept.promised
      rw [hqueue] at hsplit
      have holder := (hsplit.older_woke hwoke).subset
      refine .inr ⟨future, waker, older, entry, younger, rfl, hqueue, hid, ?_⟩
      intro ahead hahead
      exact hsplit.front_woke ahead (holder (List.mem_append_left _ hahead))
  | _ => cases hobtained

end Fifo

namespace Semaphore

variable {S : Type → Type} [Slab S] {W : Type}

/-- The future waits for `permits` and is marked as woken. -/
def State.Woken (state : State S W) (future permits : Nat) : Prop :=
  ∃ key waiter, state.futures future = some (.running { state := .waiting key, permits }) ∧
    Slab.get? state.inner.waiters key = some waiter ∧ waiter.woke = true

/-- `earlier` was left pending before `later` was, if `later` was at all. -/
def StartedBefore (trace : List (Op W × Output W)) (earlier later : Nat) : Prop :=
  ∀ older younger, arrivals trace = older ++ later :: younger → earlier ∈ older

/-- The operation asks for permits, and `earlier` started waiting before it did. -/
def Op.AsksAfter (trace : List (Op W × Output W)) (earlier : Nat) : Op W → Prop
  | .poll future _ => StartedBefore trace earlier future
  | .tryAcquire _ => True
  | _ => False

/-- A first poll or a `try_acquire`, which obtain permits without waiting. -/
def Op.FastPath (state : State S W) : Op W → Prop
  | .poll future _ =>
      ∃ permits, state.futures future = some (.running { state := .idle, permits })
  | .tryAcquire _ => True
  | _ => False

section Represented

variable {cells : List (Entry Nat W)} {owner : Nat → Nat} {state : State S W}
  {spec : Fifo.State W} {future permits : Nat}

/-- The woken futures are the promised ones of the abstract line. -/
theorem woken_promised (hvia : Fifo.Via cells owner state spec)
    (hwoken : state.Woken future permits) :
    ∃ entry ∈ spec.queue, entry.id = future ∧ entry.woke = true ∧ entry.required = permits := by
  obtain ⟨key, waiter, hfuture, hget, hwoke⟩ := hwoken
  rcases hvia.running future _ hfuture with hidle | ⟨cell, hcell, rfl, hwaits⟩
  · cases hidle
  · obtain ⟨stored, hstored, hentry⟩ := hvia.holds.entries cell hcell
    have howned := hvia.owned cell hcell
    rw [hfuture, Option.some.injEq, AcquireFuture.running.injEq, Acquire.mk.injEq] at howned
    obtain ⟨hkey, hpermits⟩ := howned
    cases hkey
    rw [hget, Option.some.injEq] at hstored
    subst hstored
    refine ⟨cell.rename owner, ?_, rfl, ?_, hpermits.symm⟩
    · rw [hvia.queue]
      exact List.mem_map_of_mem hcell
    · rw [Entry.rename_woke, ← hentry]
      exact hwoke

theorem promised_woken (hvia : Fifo.Via cells owner state spec) {entry : Entry Nat W}
    (hentry : entry ∈ spec.queue) (hwoke : entry.woke = true) :
    state.Woken entry.id entry.required := by
  rw [hvia.queue] at hentry
  obtain ⟨cell, hcell, rfl⟩ := List.mem_map.mp hentry
  obtain ⟨waiter, hget, hcellEq⟩ := hvia.holds.entries cell hcell
  refine ⟨cell.id, waiter, hvia.owned cell hcell, hget, ?_⟩
  rw [Entry.rename_woke, ← hcellEq] at hwoke
  exact hwoke

end Represented

section Runs

variable [Wakes W] {profile : Profile} {initial : Nat}
variable {trace : List (Op W × Output W)} {state : State S W}

/-- A woken future stays woken, for the same permits, until it is polled or dropped. -/
theorem woken_stays {last : State S W} {later : List (Op W × Output W)} {future permits : Nat}
    (hrun : (system profile : System _ (State S W) _ _).Run (State.new initial) trace state)
    (hwoken : state.Woken future permits)
    (hlater : (system profile : System _ (State S W) _ _).Run state later last)
    (hpoll : ∀ waker output, (Op.poll future waker, output) ∉ later)
    (hdrop : ∀ output, (Op.drop future, output) ∉ later) : last.Woken future permits := by
  refine hlater.invariant (fun part reached => (∀ event ∈ part, event ∈ later) →
    reached.Woken future permits) (fun _ => hwoken) ?_ fun _ => id
  intro part middle next op output hpart ih hstep hevents
  have hmiddle := ih fun event h => hevents event (List.mem_append_left _ h)
  have hevent := hevents (op, output) (by simp)
  obtain ⟨spec, cells, owner, hspec, hvia⟩ := run_represented (hrun.trans hpart)
  obtain ⟨specNext, hspecStep, cells', owner', hvia'⟩ :=
    (Fifo.refines op ⟨cells, owner, hvia⟩).forward hstep
  obtain ⟨entry, hentry, hid, hwoke, -⟩ := woken_promised hvia hmiddle
  obtain ⟨entry', hentry', hid', hwoke'⟩ :=
    (Fifo.step_transition hspecStep).promise_stands (Fifo.enrolled hspec)
      ⟨entry, hentry, hid, hwoke⟩ (fun waker heq => hpoll waker output (heq ▸ hevent))
      (fun heq => hdrop output (heq ▸ hevent))
  have hnext := promised_woken hvia' hentry' hwoke'
  rw [hid'] at hnext
  -- the amount is the one the future was made for
  obtain ⟨key, waiter, hfuture, -⟩ := hmiddle
  obtain ⟨key', waiter', hfuture', hstored'⟩ := hnext
  rcases (step_amounts hstep).1 future _ hfuture' with heq | ⟨before, hbefore, hsame⟩
  · subst heq
    simp [system, State.step, hfuture, Outcome.when] at hstep
  · rw [hfuture, Option.some.injEq, AcquireFuture.running.injEq] at hbefore
    subst hbefore
    subst hsame
    exact ⟨key', waiter', hfuture', hstored'⟩

/-- Polling a woken future obtains its permits. -/
theorem woken_obtains {future permits : Nat}
    (hrun : (system profile : System _ (State S W) _ _).Run (State.new initial) trace state)
    (htotal : initial + added trace ≤ profile.usizeMax) (hwoken : state.Woken future permits)
    (waker : W) :
    ∃ last output, (system profile).step state (.poll future waker) = .next last output ∧
      output.obtained = some permits := by
  obtain ⟨spec, cells, owner, hspec, hvia⟩ := run_represented hrun
  obtain ⟨entry, hentry, rfl, hwoke, rfl⟩ := woken_promised hvia hwoken
  have henrolled := Fifo.enrolled hspec
  have hpromised : spec.Promised entry.id := ⟨entry, hentry, rfl, hwoke⟩
  have hkept := (Fifo.sound hspec htotal).kept
  obtain ⟨found, specLast, output, hfind, hspecStep, hobtained⟩ :
      ∃ found specLast output, Line.find? entry.id spec.queue = some found ∧
        (Fifo.system profile).step spec (.poll entry.id waker) = .next specLast output ∧
        output.obtained = some found.required :=
    Fifo.promise_claimed henrolled hkept hpromised waker
  rw [Line.find?_of_mem henrolled.nodup hentry, Option.some.injEq] at hfind
  subst hfind
  obtain ⟨last, hstep, -⟩ :=
    (Fifo.refines (.poll entry.id waker) ⟨cells, owner, hvia⟩).backward hspecStep
  exact ⟨last, output, hstep, hobtained⟩

/-- Permits are obtained only when every earlier waiter has been woken, and at once
only when nobody waits. -/
theorem obtains_behind_woken {last : State S W} {op : Op W} {output : Output W} {amount : Nat}
    (hrun : (system profile : System _ (State S W) _ _).Run (State.new initial) trace state)
    (htotal : initial + added trace ≤ profile.usizeMax)
    (hstep : (system profile).step state op = .next last output)
    (hobtained : output.obtained = some amount) (hpos : 0 < amount) :
    (∀ earlier, state.Waits earlier → op.AsksAfter trace earlier →
        ∃ permits, state.Woken earlier permits) ∧
      (op.FastPath state → ∀ other, ¬ state.Waits other) := by
  obtain ⟨spec, cells, owner, hspec, hvia⟩ := run_represented hrun
  obtain ⟨specLast, hspecStep, -⟩ := (Fifo.refines op ⟨cells, owner, hvia⟩).forward hstep
  have hkept := (Fifo.sound hspec htotal).kept
  have henrolled := Fifo.enrolled hspec
  have hrecorded := Fifo.recorded hspec
  have hlisted : ∀ other, state.Waits other → other ∈ spec.queue.map Entry.id :=
    fun other hwaits => (henrolled.waiting other).mpr ((waits_iff hvia other).mp hwaits)
  rcases (Fifo.step_transition hspecStep).obtains_in_turn hkept hobtained hpos with
    hempty | ⟨future, waker, older, entry, younger, rfl, hqueue, rfl, holder⟩
  · have hnobody : ∀ other, ¬ state.Waits other := by
      intro other hwaits
      simpa [hempty] using hlisted other hwaits
    exact ⟨fun earlier hwaits => absurd hwaits (hnobody earlier), fun _ => hnobody⟩
  · have hentry : entry.id ∈ spec.queue.map Entry.id := by simp [hqueue]
    constructor
    · intro earlier hwaits hbefore
      obtain ⟨before, after, harrivals⟩ := List.append_of_mem (hrecorded.arrived.subset hentry)
      have hearly := hbefore before after harrivals
      have hdistinct := hrecorded.distinct
      have harrived := hrecorded.arrived
      rw [harrivals] at hdistinct harrived
      have hlate : entry.id ∉ before := fun hmem =>
        (List.nodup_append.mp hdistinct).2.2 _ hmem _ List.mem_cons_self rfl
      have hahead := Fifo.ahead_of_late harrived hdistinct hearly hlate
        (show _ = older.map Entry.id ++ entry.id :: younger.map Entry.id by simp [hqueue])
        (hlisted earlier hwaits)
      obtain ⟨ahead, hmem, rfl⟩ := List.mem_map.mp hahead
      have hqueued : ahead ∈ spec.queue := by
        rw [hqueue]
        exact List.mem_append_left _ hmem
      exact ⟨ahead.required, promised_woken hvia hqueued (holder ahead hmem)⟩
    · rintro ⟨permits, hidle⟩
      have hwaiting := (henrolled.waiting entry.id).mp hentry
      rw [hvia.futures, hidle] at hwaiting
      cases hwaiting

/-- Nobody overtakes in the semaphore: permits are obtained only when every earlier waiter
has been woken, and at once only when nobody waits; and a woken waiter can take its permits
whenever it is polled, until it is polled or dropped. -/
theorem no_overtaking
    (hrun : (system profile : System _ (State S W) _ _).Run (State.new initial) trace state)
    (htotal : initial + added trace ≤ profile.usizeMax) :
    (∀ op last output amount, (system profile).step state op = .next last output →
        output.obtained = some amount → 0 < amount →
        (∀ earlier, state.Waits earlier → op.AsksAfter trace earlier →
            ∃ permits, state.Woken earlier permits) ∧
          (op.FastPath state → ∀ other, ¬ state.Waits other)) ∧
      ∀ future permits later last, state.Woken future permits →
        (system profile : System _ (State S W) _ _).Run state later last →
        initial + added (trace ++ later) ≤ profile.usizeMax →
        (∀ waker output, (Op.poll future waker, output) ∉ later) →
        (∀ output, (Op.drop future, output) ∉ later) →
        last.Woken future permits ∧
          ∀ waker, ∃ after output,
            (system profile).step last (.poll future waker) = .next after output ∧
              output.obtained = some permits := by
  constructor
  · intro op last output amount hstep hobtained hpos
    exact obtains_behind_woken hrun htotal hstep hobtained hpos
  · intro future permits later last hwoken hlater hfits hpoll hdrop
    have hstays := woken_stays hrun hwoken hlater hpoll hdrop
    exact ⟨hstays, woken_obtains (hrun.trans hlater) hfits hstays⟩

/-- Two futures wait, the older is woken, and another client tries to get in between. -/
def barging : List (Op Nat) :=
  [.acquire 0 2, .poll 0 10, .acquire 1 1, .poll 1 11, .addPermits 2]

theorem no_overtaking_barging :
    ∃ (trace : List (Op Nat × Output Nat)) (state : State FreeSlab Nat),
      (system Profile.release).Run (State.new 0) trace state ∧ state.Woken 0 2 ∧
      (∀ last output amount, (system Profile.release).step state (.tryAcquire 1) =
          .next last output → output.obtained = some amount → 0 < amount →
          ∀ other, ¬ state.Waits other) ∧
      ∀ waker, ∃ after output,
        (system Profile.release).step state (.poll 0 waker) = .next after output ∧
          output.obtained = some 2 := by
  have hcheck : ((system Profile.release).exec (State.new 0 : State FreeSlab Nat)
      barging).any (fun result => decide (added result.1 = 2) &&
        decide (result.2.futures 0 = some (.running { state := .waiting 0, permits := 2 })) &&
        (Slab.get? result.2.inner.waiters 0).any Waiter.woke) = true := by decide
  obtain ⟨trace, state, hrun, hpass⟩ := System.exec_check hcheck
  simp only [Bool.and_eq_true, decide_eq_true_eq, Option.any_eq_true_iff_get] at hpass
  obtain ⟨⟨hadded, hfuture⟩, hsome, hwoke⟩ := hpass
  have hwoken : state.Woken 0 2 := ⟨0, _, hfuture, (Option.some_get hsome).symm, hwoke⟩
  have htotal : 0 + added trace ≤ Profile.release.usizeMax := by
    rw [hadded]
    decide
  obtain ⟨hturn, hstands⟩ := no_overtaking hrun htotal
  refine ⟨trace, state, hrun, hwoken, ?_, ?_⟩
  · intro last output amount hstep hobtained hpos
    exact (hturn _ last output amount hstep hobtained hpos).2 trivial
  · exact (hstands 0 2 [] state hwoken .refl (by rwa [List.append_nil]) (by simp) (by simp)).2

end Runs

end Semaphore

end Platoon.Sync
