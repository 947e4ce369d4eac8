import Platoon.Sync.FifoInvariant

/-!
# What a trace tells about the line

The trace of a run determines the order of the line, up to those who left, and
the wakers stored in it.  Hence the waiters wait in turn.
-/

namespace Platoon.Sync.Fifo

open Platoon.Foundation Platoon.Rust Platoon.Sync.Semaphore

variable {W : Type} [Wakes W]
variable {profile : Profile} {state last : State W} {op : Op W} {output : Output W}

/-! ## Wakers and arrivals -/

/-- The stored waker wakes the task of the most recent poll. -/
def Polled (trace : List (Op W × Output W)) (entry : Entry Nat W) : Prop :=
  ∃ stored polled, entry.waker = some stored ∧ lastPoll entry.id trace = some polled ∧
    Wakes.Equivalent stored polled

/-- The line as the trace tells it. -/
structure Recorded (trace : List (Op W × Output W)) (state : State W) : Prop where
  polled : ∀ entry ∈ state.queue, Polled trace entry
  arrived : (state.queue.map Entry.id).Sublist (arrivals trace)
  distinct : (arrivals trace).Nodup
  begun : ∀ future ∈ arrivals trace, ∃ value, state.futures future = some value ∧
    ∀ permits, value ≠ .idle permits

/-- A waker is not touched by operations on other futures. -/
theorem Polled.snoc {trace : List (Op W × Output W)} {old entry : Entry Nat W}
    (hpolled : Polled trace old) (hid : entry.id = old.id) (hwaker : entry.waker = old.waker)
    (hother : op.polls old.id = none) : Polled (trace ++ [(op, output)]) entry := by
  obtain ⟨stored, polled, hstored, hlast, hequivalent⟩ := hpolled
  refine ⟨stored, polled, hwaker.trans hstored, ?_, hequivalent⟩
  rw [lastPoll_snoc, hid, hother, Option.none_or, hlast]

/-- A poll stores a waker for its own task. -/
theorem Polled.now {trace : List (Op W × Output W)} {entry : Entry Nat W} {polling : W}
    (stored : Option W) (hwaker : entry.waker = some (Line.refreshed stored polling))
    (hpolls : op.polls entry.id = some polling) : Polled (trace ++ [(op, output)]) entry := by
  refine ⟨_, polling, hwaker, ?_, ?_⟩
  · rw [lastPoll_snoc, hpolls, Option.some_or]
  · cases stored with
    | none => exact Wakes.Equivalent.refl polling
    | some stored => exact Wakes.refresh_equivalent stored polling

omit [Wakes W] in
/-- Only a poll of the future itself names its waker. -/
theorem polls_eq_none {future other : Nat} {waker : W} (hne : other ≠ future) :
    (Op.poll future waker).polls other = none := by
  simp [Op.polls, Ne.symm hne]

/-- A step that leaves no future pending only lets waiters leave. -/
theorem Recorded.leave {trace : List (Op W × Output W)} (hrecorded : Recorded trace state)
    (hqueue : ∀ entry ∈ last.queue, ∃ old ∈ state.queue,
      entry.id = old.id ∧ entry.waker = old.waker ∧ op.polls old.id = none)
    (hsub : (last.queue.map Entry.id).Sublist (state.queue.map Entry.id))
    (hpending : leftPending (op, output) = none)
    (hbegun : ∀ future value, state.futures future = some value →
      (∀ permits, value ≠ .idle permits) →
      ∃ value', last.futures future = some value' ∧ ∀ permits, value' ≠ .idle permits) :
    Recorded (trace ++ [(op, output)]) last := by
  have harrivals : arrivals (trace ++ [(op, output)]) = arrivals trace := by
    rw [arrivals_snoc, hpending]
  refine ⟨?_, ?_, ?_, ?_⟩
  · intro entry hentry
    obtain ⟨old, hold, hid, hwaker, hother⟩ := hqueue entry hentry
    exact (hrecorded.polled old hold).snoc hid hwaker hother
  · rw [harrivals]
    exact hsub.trans hrecorded.arrived
  · rw [harrivals]
    exact hrecorded.distinct
  · intro future hfuture
    rw [harrivals] at hfuture
    obtain ⟨value, hvalue, hrest⟩ := hrecorded.begun future hfuture
    exact hbegun future value hvalue hrest

omit [Wakes W] in
theorem serve_old {permits : Nat} {queue : List (Entry Nat W)} {entry : Entry Nat W}
    (hmem : entry ∈ Line.serve permits queue) :
    ∃ old ∈ queue, entry.id = old.id ∧ entry.waker = old.waker := by
  obtain ⟨old, hold, rfl | rfl⟩ := Line.mem_serve hmem
  · exact ⟨entry, hold, rfl, rfl⟩
  · exact ⟨old, hold, rfl, rfl⟩

omit [Wakes W] in
theorem serve_remove_old {permits id : Nat} {queue : List (Entry Nat W)} {entry : Entry Nat W}
    (hmem : entry ∈ Line.serve permits (Line.remove id queue)) :
    ∃ old ∈ queue, entry.id = old.id ∧ entry.waker = old.waker ∧ old.id ≠ id := by
  obtain ⟨old, hold, hid, hwaker⟩ := serve_old hmem
  obtain ⟨hin, hne⟩ := List.mem_filter.mp hold
  exact ⟨old, hin, hid, hwaker, by simpa using hne⟩

omit [Wakes W] in
theorem serve_remove_sublist (permits id : Nat) (queue : List (Entry Nat W)) :
    ((Line.serve permits (Line.remove id queue)).map Entry.id).Sublist
      (queue.map Entry.id) := by
  rw [Line.serve_map_id, map_id_remove]
  exact List.filter_sublist

omit [Wakes W] in
/-- A future that has begun stays so when some future changes to a later stage. -/
theorem begun_setFuture {future : Nat} {value : Request}
    (hvalue : (∀ permits, value ≠ .idle permits) ∨ state.futures future = none)
    (other : Nat) (value' : Request) (hother : state.futures other = some value')
    (hbegun : ∀ permits, value' ≠ .idle permits) :
    ∃ value'', (state.setFuture future value).futures other = some value'' ∧
      ∀ permits, value'' ≠ .idle permits := by
  by_cases heq : other = future
  · subst heq
    rcases hvalue with hvalue | hnone
    · exact ⟨value, State.setFuture_same _ _ _, hvalue⟩
    · rw [hnone] at hother
      cases hother
  · exact ⟨value', by rw [State.setFuture_ne _ _ _ heq, hother], hbegun⟩

/-- The line stays as the trace tells it. -/
theorem Transition.recorded (htransition : Transition profile state op last output)
    {trace : List (Op W × Output W)} (henrolled : Enrolled state)
    (hrecorded : Recorded trace state) : Recorded (trace ++ [(op, output)]) last := by
  have hidleOut : ∀ {future permits : Nat}, state.futures future = some (.idle permits) →
      ∀ entry ∈ state.queue, entry.id ≠ future := by
    intro future permits hidle entry hentry heq
    have hwaiting := (henrolled.waiting entry.id).mp (List.mem_map_of_mem hentry)
    rw [heq, hidle] at hwaiting
    cases hwaiting
  cases htransition with
  | @acquire future permits hfresh =>
      exact hrecorded.leave (fun entry hentry => ⟨entry, hentry, rfl, rfl, rfl⟩)
        (List.Sublist.refl _) rfl (begun_setFuture (.inr hfresh))
  | @take future permits waker hidle hcan =>
      refine hrecorded.leave (fun entry hentry => ⟨entry, hentry, rfl, rfl, ?_⟩)
        (List.Sublist.refl _) rfl (begun_setFuture (.inl (by simp)))
      exact polls_eq_none (hidleOut hidle entry hentry)
  | @wait future permits waker hidle hcannot =>
      have hfresh : future ∉ arrivals trace := by
        intro hseen
        obtain ⟨value, hvalue, hbegun⟩ := hrecorded.begun future hseen
        rw [hidle, Option.some.injEq] at hvalue
        exact hbegun permits hvalue.symm
      have harrivals : arrivals (trace ++ [(.poll future waker, ({} : Output W))]) =
          arrivals trace ++ [future] := by
        simp [arrivals_snoc, leftPending, arrive, hfresh]
      refine ⟨?_, ?_, ?_, ?_⟩
      · intro entry hentry
        rcases List.mem_append.mp hentry with hold | hnew
        · exact (hrecorded.polled entry hold).snoc rfl rfl
            (polls_eq_none (hidleOut hidle entry hold))
        · rw [List.mem_singleton.mp hnew]
          exact Polled.now none rfl (by simp [Op.polls])
      · rw [harrivals, State.setFuture_queue, State.enqueue, List.map_append]
        exact hrecorded.arrived.append (List.Sublist.refl _)
      · rw [harrivals, List.nodup_append]
        refine ⟨hrecorded.distinct, by simp, ?_⟩
        intro seen hseen new hnew heq
        rw [heq, List.mem_singleton.mp hnew] at hseen
        exact hfresh hseen
      · intro seen hseen
        rw [harrivals, List.mem_append, List.mem_singleton] at hseen
        rcases hseen with hold | rfl
        · obtain ⟨value, hvalue, hbegun⟩ := hrecorded.begun seen hold
          have henqueued : (state.enqueue future waker permits).futures seen = some value :=
            hvalue
          exact begun_setFuture (.inl (by simp)) seen value henqueued hbegun
        · exact ⟨_, State.setFuture_same _ _ _, by simp⟩
  | @refresh future waker entry hwaits hfind hwoke =>
      have hmem : future ∈ arrivals trace :=
        hrecorded.arrived.subset ((henrolled.waiting future).mpr hwaits)
      have harrivals :
          arrivals (trace ++ [(.poll future waker, ({} : Output W))]) = arrivals trace := by
        simp [arrivals_snoc, leftPending, arrive, hmem]
      refine ⟨?_, ?_, ?_, ?_⟩
      · intro polled hpolled
        obtain ⟨old, hold, hid, -, -, hwaker⟩ := Line.mem_refresh hpolled
        by_cases heq : old.id = future
        · rw [if_pos heq] at hwaker
          exact Polled.now old.waker hwaker (by simp [Op.polls, hid, heq])
        · rw [if_neg heq] at hwaker
          exact (hrecorded.polled old hold).snoc hid hwaker (polls_eq_none heq)
      · rw [harrivals, Line.refresh_map_id]
        exact hrecorded.arrived
      · rw [harrivals]
        exact hrecorded.distinct
      · rw [harrivals]
        exact hrecorded.begun
  | @grant future waker entry hwaits hfind hwoke hfitting =>
      refine hrecorded.leave (fun served hserved => ?_) (serve_remove_sublist _ _ _) rfl
        (begun_setFuture (.inl (by simp)))
      obtain ⟨old, hold, hid, hwaker, hne⟩ := serve_remove_old hserved
      exact ⟨old, hold, hid, hwaker, polls_eq_none hne⟩
  | cancel hwaits =>
      refine hrecorded.leave (fun served hserved => ?_) (serve_remove_sublist _ _ _) rfl
        (begun_setFuture (.inl (by simp)))
      obtain ⟨old, hold, hid, hwaker, -⟩ := serve_remove_old hserved
      exact ⟨old, hold, hid, hwaker, rfl⟩
  | discard hvalue hrests =>
      exact hrecorded.leave (fun entry hentry => ⟨entry, hentry, rfl, rfl, rfl⟩)
        (List.Sublist.refl _) rfl (begun_setFuture (.inl (by simp)))
  | addSome hsome hsum =>
      refine hrecorded.leave (fun served hserved => ?_) (by simp [State.serve]) rfl
        fun other value hvalue hbegun => ⟨value, hvalue, hbegun⟩
      obtain ⟨old, hold, hid, hwaker⟩ := serve_old hserved
      exact ⟨old, hold, hid, hwaker, rfl⟩
  | returnSome hheld hsome hsum =>
      refine hrecorded.leave (fun served hserved => ?_) (by simp [State.serve]) rfl
        fun other value hvalue hbegun => ⟨value, hvalue, hbegun⟩
      obtain ⟨old, hold, hid, hwaker⟩ := serve_old hserved
      exact ⟨old, hold, hid, hwaker, rfl⟩
  | _ =>
      exact hrecorded.leave (fun entry hentry => ⟨entry, hentry, rfl, rfl, rfl⟩)
        (List.Sublist.refl _) rfl fun other value hvalue hbegun => ⟨value, hvalue, hbegun⟩

theorem recorded {initial : Nat} {trace : List (Op W × Output W)}
    (hrun : (Fifo.system profile).Run (State.new initial) trace last) :
    Recorded trace last := by
  refine hrun.invariant Recorded ?_ ?_
  · exact ⟨by simp [State.new], List.Sublist.refl _, List.nodup_nil, by simp⟩
  · intro trace middle last op output hprefix hrecorded hstep
    exact (step_transition hstep).recorded (enrolled hprefix) hrecorded

/-! ## Waiting in turn -/

/-- A waiting future waits until it is dropped or its poll obtains its permits. -/
theorem Transition.waits_on (htransition : Transition profile state op last output)
    {future : Nat} (hwaiting : state.futures future = some .waiting)
    (hkept : op ≠ .drop future)
    (hunserved : ∀ waker, op = .poll future waker → output.obtained = none) :
    last.futures future = some .waiting := by
  have hother : ∀ {base : State W} {changed : Nat} (value : Request),
      base.futures = state.futures → changed ≠ future →
      (base.setFuture changed value).futures future = some .waiting := by
    intro base changed value hbase hne
    rw [State.setFuture_ne _ _ _ (Ne.symm hne), hbase, hwaiting]
  cases htransition with
  | acquire hfresh =>
      refine hother _ rfl ?_
      rintro rfl
      simp [hfresh] at hwaiting
  | take hidle hcan =>
      refine hother _ rfl ?_
      rintro rfl
      simp [hidle] at hwaiting
  | wait hidle hcannot =>
      refine hother _ rfl ?_
      rintro rfl
      simp [hidle] at hwaiting
  | grant hwaits hfind hwoke hfitting =>
      refine hother _ rfl ?_
      rintro rfl
      simpa using hunserved _ rfl
  | cancel hwaits =>
      refine hother _ rfl ?_
      rintro rfl
      exact hkept rfl
  | discard hvalue hrests =>
      refine hother _ rfl ?_
      rintro rfl
      exact hkept rfl
  | _ => exact hwaiting

/-- A poll that obtains nothing leaves its future waiting. -/
theorem Transition.pending_waits {future : Nat} {waker : W}
    (htransition : Transition profile state (.poll future waker) last output)
    (hpending : output.obtained = none) : last.futures future = some .waiting := by
  cases htransition with
  | take hidle hcan => cases hpending
  | wait hidle hcannot => exact State.setFuture_same _ _ _
  | refresh hwaits hfind hwoke => exact hwaits
  | grant hwaits hfind hwoke hfitting => cases hpending

omit [Wakes W] in
theorem queue_eq_nil_of_canTake {permits : Nat} (hcan : state.canTake permits = true)
    (hpos : 1 ≤ permits) : state.queue = [] := by
  rcases (permits_le_of_canTake hcan).2 with hempty | hzero
  · exact hempty
  · omega

/-- `try_acquire` obtains permits only past an empty line. -/
theorem Transition.try_obtains {permits amount : Nat}
    (htransition : Transition profile state (.tryAcquire permits) last output)
    (hobtained : output.obtained = some amount) (hpos : 1 ≤ permits) : state.queue = [] := by
  cases htransition with
  | tryTake hcan => exact queue_eq_nil_of_canTake hcan hpos
  | tryFail hcannot => cases hobtained

/-- A poll obtains permits past an empty line or for a woken waiter. -/
theorem Transition.poll_obtains {future amount : Nat} {waker : W}
    (htransition : Transition profile state (.poll future waker) last output)
    (hobtained : output.obtained = some amount) (hpos : 1 ≤ amount) :
    state.queue = [] ∨
      ∃ entry ∈ state.queue, entry.id = future ∧ entry.woke = true := by
  cases htransition with
  | take hidle hcan =>
      cases hobtained
      exact .inl (queue_eq_nil_of_canTake hcan hpos)
  | wait hidle hcannot => cases hobtained
  | refresh hwaits hfind hwoke => cases hobtained
  | grant hwaits hfind hwoke hfitting =>
      obtain ⟨hmem, hid⟩ := Line.find?_mem hfind
      exact .inr ⟨_, hmem, hid, hwoke⟩

/-- The permits given out and not dropped, as the operation leaves them. -/
theorem Transition.held_eq (htransition : Transition profile state op last output) :
    last.held = output.obtained.toList ++ op.keeps state.held ∧
      last.leaked = op.leaks ++ state.leaked := by
  cases htransition <;> exact ⟨rfl, rfl⟩

/-- In a list that keeps the order of arrival, an early arrival precedes a late one. -/
theorem ahead_of_late {early later queue older younger : List Nat} {first second : Nat}
    (hsub : queue.Sublist (early ++ later)) (hdistinct : (early ++ later).Nodup)
    (hearly : first ∈ early) (hlate : second ∉ early)
    (hqueue : queue = older ++ second :: younger) (hmem : first ∈ queue) : first ∈ older := by
  rw [hqueue, List.mem_append, List.mem_cons] at hmem
  rcases hmem with holder | rfl | hyounger
  · exact holder
  · exact absurd hearly hlate
  · have hpair : [second, first].Sublist (early ++ later) := by
      refine List.Sublist.trans ?_ hsub
      rw [hqueue]
      refine List.Sublist.trans ?_ (List.sublist_append_right _ _)
      exact (List.singleton_sublist.mpr hyounger).cons_cons second
    obtain ⟨head, tail, hsplit, hhead, htail⟩ := List.sublist_append_iff.mp hpair
    cases head with
    | nil =>
        rw [List.nil_append] at hsplit
        have hafter : first ∈ later := htail.subset (by simp [← hsplit])
        exact absurd rfl ((List.nodup_append.mp hdistinct).2.2 _ hearly _ hafter)
    | cons id rest =>
        rw [List.cons_append, List.cons.injEq] at hsplit
        exact absurd (hhead.subset (by simp [hsplit.1])) hlate

omit [Wakes W] in
/-- The arrivals up to a pending poll of `first` do not include a future that was
not polled before. -/
theorem arrived_early {before : List (Op W × Output W)} {first second : Nat} {waker : W}
    {pending : Output W} (hpending : pending.obtained = none) (hne : first ≠ second)
    (hlate : ∀ waker output, (Op.poll second waker, output) ∉ before) :
    first ∈ arrivals (before ++ [(.poll first waker, pending)]) ∧
      second ∉ arrivals (before ++ [(.poll first waker, pending)]) := by
  have hleft : leftPending (.poll first waker, pending) = some first := by
    simp [leftPending, hpending]
  constructor
  · exact (mem_arrivals _).mpr ⟨_, List.mem_append_right _ (List.mem_singleton_self _), hleft⟩
  · intro hearly
    obtain ⟨⟨op, output⟩, hevent, hsecond⟩ := (mem_arrivals _).mp hearly
    rcases List.mem_append.mp hevent with hold | hnew
    · cases op with
      | poll polled waker' =>
          simp only [leftPending, Option.ite_none_right_eq_some, Option.some.injEq] at hsecond
          obtain ⟨-, rfl⟩ := hsecond
          exact hlate _ _ hold
      | _ => cases hsecond
    · rw [List.mem_singleton.mp hnew, hleft, Option.some.injEq] at hsecond
      exact hne hsecond

section Pending

variable {initial : Nat} {before mid : List (Op W × Output W)} {first : Nat} {waker : W}
variable {pending : Output W}

/-- A future that was left pending waits until it obtains its permits or is dropped. -/
theorem still_waiting
    (hrun : (Fifo.system profile).Run (State.new initial)
      (before ++ (.poll first waker, pending) :: mid) last)
    (hpending : pending.obtained = none) (hkept : ∀ output, (Op.drop first, output) ∉ mid)
    (hunserved : ∀ waker output, (Op.poll first waker, output) ∈ mid → output.obtained = none) :
    last.futures first = some .waiting := by
  rw [List.append_cons] at hrun
  obtain ⟨middle, hfirst, hrest⟩ := hrun.split
  obtain ⟨start, -, hstep⟩ := hfirst.last_step
  have hbegun := (step_transition hstep).pending_waits hpending
  refine hrest.invariant (fun trace state => (∀ event ∈ trace, event ∈ mid) →
    state.futures first = some .waiting) (fun _ => hbegun) ?_ fun _ => id
  intro trace reached next op output _ ih hnext hevents
  refine (step_transition hnext).waits_on (ih fun event h => hevents event (by simp [h])) ?_ ?_
  · rintro rfl
    exact hkept output (hevents _ (by simp))
  · rintro waker rfl
    exact hunserved waker output (hevents _ (by simp))

/-- A future that was left pending before another was first polled, and still
waits, stands before it in the line. -/
theorem queued_before {second : Nat}
    (hrun : (Fifo.system profile).Run (State.new initial)
      (before ++ (.poll first waker, pending) :: mid) last)
    (hpending : pending.obtained = none) (hne : first ≠ second)
    (hlate : ∀ waker output, (Op.poll second waker, output) ∉ before)
    (hwaiting : last.futures first = some .waiting) {older younger : List (Entry Nat W)}
    {entry : Entry Nat W} (hqueue : last.queue = older ++ entry :: younger)
    (hsecond : entry.id = second) : ∃ ahead ∈ older, ahead.id = first := by
  subst hsecond
  rw [List.append_cons] at hrun
  obtain ⟨later, hlater⟩ := arrivals_append (before ++ [(.poll first waker, pending)]) mid
  obtain ⟨hearly, hnotEarly⟩ := arrived_early (W := W) hpending hne hlate
  have harrived := (recorded hrun).arrived
  have hdistinct := (recorded hrun).distinct
  rw [← hlater] at harrived hdistinct
  have holder := ahead_of_late harrived hdistinct hearly hnotEarly
    (show _ = older.map Entry.id ++ entry.id :: younger.map Entry.id by simp [hqueue])
    (((enrolled hrun).waiting first).mpr hwaiting)
  exact List.mem_map.mp holder

end Pending

end Platoon.Sync.Fifo
