import Platoon.Sync.UnwokenWaiters

/-!
# Bounded waiting

Whoever waits has a claim: the permits that it and those before it in line require.
Nobody who comes later adds to it, and every permit that is returned goes towards it.
So a waiter waits for as many permits as its claim was when it began to wait, and then
only for the poll of a waiter before it that is woken already.
-/

namespace Platoon.Sync

open Platoon.Foundation Platoon.Rust

namespace Line

variable {ι W : Type} [DecidableEq ι] {id other : ι} {line front back : List (Entry ι W)}
  {entry : Entry ι W}

/-- The permits that a waiter and those before it require. -/
def claim (id : ι) : List (Entry ι W) → Nat
  | [] => 0
  | entry :: rest => entry.required + if entry.id = id then 0 else claim id rest

/-- The claim depends on who waits and for how many permits. -/
theorem claim_map {f : Entry ι W → Entry ι W} (hid : ∀ entry, (f entry).id = entry.id)
    (hrequired : ∀ entry, (f entry).required = entry.required) :
    claim id (line.map f) = claim id line := by
  induction line with
  | nil => rfl
  | cons entry rest ih => simp only [List.map_cons, claim, hid, hrequired, ih]

@[simp]
theorem claim_refresh [Wakes W] (waker : W) :
    claim id (refresh other waker line) = claim id line := by
  refine claim_map (fun entry => ?_) (fun entry => ?_)
  · split <;> rfl
  · split <;> rfl

@[simp]
theorem claim_serve (permits : Nat) : claim id (serve permits line) = claim id line := by
  induction line generalizing permits with
  | nil => rfl
  | cons entry rest ih =>
      by_cases hfits : entry.required ≤ permits
      · rw [serve_cons_of_le hfits, claim, claim, ih]
        rfl
      · rw [serve_cons_of_lt (Nat.lt_of_not_le hfits)]

theorem claim_append_of_mem (hmem : id ∈ front.map Entry.id) :
    claim id (front ++ back) = claim id front := by
  induction front with
  | nil => cases hmem
  | cons entry rest ih =>
      simp only [List.cons_append, claim]
      split
      · rfl
      · rename_i hne
        rw [List.map_cons, List.mem_cons] at hmem
        rw [ih (hmem.resolve_left (Ne.symm hne))]

theorem claim_append_of_not_mem (hnot : id ∉ front.map Entry.id) :
    claim id (front ++ back) = totalCost Entry.required front + claim id back := by
  induction front with
  | nil => simp
  | cons entry rest ih =>
      rw [List.map_cons, List.mem_cons, not_or] at hnot
      rw [List.cons_append, claim, if_neg (Ne.symm hnot.1), ih hnot.2, totalCost_cons,
        Nat.add_assoc]

/-- Nobody who leaves adds to a claim. -/
theorem claim_remove_le (line : List (Entry ι W)) (hne : other ≠ id) :
    claim id (remove other line) ≤ claim id line := by
  induction line with
  | nil => exact Nat.le_refl _
  | cons entry rest ih =>
      by_cases hother : entry.id = other
      · simp only [remove, ne_eq, hother, not_true_eq_false, decide_false, Bool.false_eq_true,
          not_false_eq_true, List.filter_cons_of_neg, claim, hne, ↓reduceIte] at ih ⊢
        exact ih.trans (Nat.le_add_left _ _)
      · simp only [remove, ne_eq, hother, not_false_eq_true, decide_true,
          List.filter_cons_of_pos, claim] at ih ⊢
        split
        · exact Nat.le_refl _
        · exact Nat.add_le_add_left ih _

/-- A waiter that leaves takes its part of the claims behind it along. -/
theorem claim_remove (hnodup : ((front ++ entry :: back).map Entry.id).Nodup)
    (hbehind : id ∈ back.map Entry.id) :
    claim id (remove entry.id (front ++ entry :: back)) + entry.required =
      claim id (front ++ entry :: back) := by
  have hfront : id ∉ front.map Entry.id := by
    intro hmem
    rw [List.map_append, List.map_cons] at hnodup
    exact (List.nodup_append.mp hnodup).2.2 id hmem id (List.mem_cons_of_mem _ hbehind) rfl
  have hself : entry.id ≠ id := by
    rintro rfl
    obtain ⟨behind, hmem, hid⟩ := List.mem_map.mp hbehind
    exact id_ne_of_mem hnodup (List.mem_append_right _ hmem) hid
  rw [remove_middle hnodup, claim_append_of_not_mem hfront, claim_append_of_not_mem hfront, claim,
    if_neg hself]
  omega

theorem required_le_claim (id : ι) (hhead : line.head? = some entry) :
    entry.required ≤ claim id line := by
  cases line with
  | nil => cases hhead
  | cons first rest =>
      obtain rfl : first = entry := by simpa using hhead
      exact Nat.le_add_right _ _

end Line

/-! ## The abstract line -/

namespace Fifo

open Semaphore

variable {W : Type}

/-- The future waits and is not marked as woken. -/
def State.Pending (state : State W) (future : Nat) : Prop :=
  ∃ entry ∈ state.queue, entry.id = future ∧ entry.woke = false

/-- The future was polled. -/
def State.Started (state : State W) (future : Nat) : Prop :=
  ∃ request, state.futures future = some request ∧ ∀ permits, request ≠ .idle permits

theorem State.Pending.mem {state : State W} {future : Nat} (hpending : state.Pending future) :
    future ∈ state.queue.map Entry.id := by
  obtain ⟨entry, hmem, rfl, -⟩ := hpending
  exact List.mem_map_of_mem hmem

/-- Serving the line marks waiters but takes no mark back. -/
theorem State.Pending.of_serve {state : State W} {future : Nat}
    (hpending : state.serve.Pending future) : state.Pending future := by
  obtain ⟨entry, hmem, hid, hwoke⟩ := hpending
  obtain ⟨old, hold, rfl | rfl⟩ := Line.mem_serve hmem
  · exact ⟨_, hold, hid, hwoke⟩
  · cases hwoke

theorem State.Pending.of_leave {state : State W} {future other : Nat}
    (hpending : (state.leave other).Pending future) :
    state.Pending future ∧ future ≠ other := by
  obtain ⟨entry, hmem, rfl, hwoke⟩ := hpending
  obtain ⟨hstays, hne⟩ := List.mem_filter.mp hmem
  exact ⟨⟨entry, hstays, rfl, hwoke⟩, by simpa using hne⟩

/-- The permits that operations put on the counter. -/
def returned (trace : List (Op W × Output W)) : Nat :=
  (trace.map (·.1.puts.getD 0)).sum

variable [Wakes W] {profile : Profile} {state last : State W} {op : Op W} {output : Output W}
  {future : Nat}

theorem Transition.started (htransition : Transition profile state op last output)
    (hstarted : state.Started future) : last.Started future := by
  have hset : ∀ {state : State W} {other : Nat} {request : Request}, state.Started future →
      (∀ permits, request ≠ .idle permits) → (state.setFuture other request).Started future := by
    intro state other request hstarted hrequest
    by_cases heq : future = other
    · subst heq
      exact ⟨request, State.setFuture_same _ _ _, hrequest⟩
    · obtain ⟨before, hbefore, hidle⟩ := hstarted
      exact ⟨before, by rw [State.setFuture_ne _ _ _ heq, hbefore], hidle⟩
  cases htransition with
  | @acquire other permits hfresh =>
      obtain ⟨before, hbefore, hidle⟩ := hstarted
      have hne : future ≠ other := by
        rintro rfl
        simp [hfresh] at hbefore
      exact ⟨before, by rw [State.setFuture_ne _ _ _ hne, hbefore], hidle⟩
  | take hidle hcan => exact hset hstarted (by simp)
  | wait hidle hcannot => exact hset hstarted (by simp)
  | grant hwaits hfind hwoke hfits => exact hset hstarted (by simp)
  | cancel hwaits => exact hset hstarted (by simp)
  | discard hvalue hrests => exact hset hstarted (by simp)
  | _ => exact hstarted

/-- A future that was polled and waits unmarked did so before. -/
theorem Transition.pending_before (htransition : Transition profile state op last output)
    (hstarted : state.Started future) (hafter : last.Pending future) : state.Pending future := by
  cases htransition with
  | @wait other permits waker hidle hcannot =>
      obtain ⟨entry, hmem, hid, hwoke⟩ := hafter
      rcases List.mem_append.mp hmem with hbefore | hnew
      · exact ⟨entry, hbefore, hid, hwoke⟩
      · rw [List.mem_singleton] at hnew
        subst hnew
        subst hid
        obtain ⟨request, hrequest, hnot⟩ := hstarted
        rw [hidle, Option.some.injEq] at hrequest
        exact absurd hrequest.symm (hnot permits)
  | refresh hwaits hfind hwoke =>
      obtain ⟨entry, hmem, rfl, hmark⟩ := hafter
      obtain ⟨old, hold, hid, -, hsame, -⟩ := Line.mem_refresh hmem
      exact ⟨old, hold, hid.symm, hsame ▸ hmark⟩
  | @grant other waker entry hwaits hfind hwoke hfits =>
      have hleft : ((state.take entry.required).leave other).serve.Pending future := hafter
      exact hleft.of_serve.of_leave.1
  | @cancel other hwaits =>
      have hleft : (state.leave other).serve.Pending future := hafter
      exact hleft.of_serve.of_leave.1
  | @addSome permits sum hsome hsum =>
      have hserved : ({ state with permits := sum } : State W).serve.Pending future := hafter
      exact hserved.of_serve
  | @returnSome permits sum hheld hsome hsum =>
      have hserved : ({ state with held := state.held.erase permits, permits := sum } :
        State W).serve.Pending future := hafter
      exact hserved.of_serve
  | _ => exact hafter

/-- Each permit that is returned goes towards the claim of a waiter that is not marked. -/
theorem Transition.claim_step (htransition : Transition profile state op last output)
    (hroom : op.fits profile state.permits = true) (henrolled : Enrolled state)
    (hkept : Line.Kept state.permits state.queue) (hstarted : state.Started future)
    (hafter : last.Pending future) :
    Line.claim future last.queue + state.permits + op.puts.getD 0 ≤
      Line.claim future state.queue + last.permits := by
  have hbefore := htransition.pending_before hstarted hafter
  cases htransition with
  | @take other permits waker hidle hcan =>
      -- the line is not empty, so that nothing was asked for
      have hnone : permits = 0 := (permits_le_of_canTake hcan).2.resolve_left fun hempty => by
        simpa [hempty] using hbefore.mem
      simp [State.take, Op.puts, hnone]
  | @tryTake permits hcan =>
      have hnone : permits = 0 := (permits_le_of_canTake hcan).2.resolve_left fun hempty => by
        simpa [hempty] using hbefore.mem
      simp [State.take, Op.puts, hnone]
  | wait hidle hcannot =>
      simp [State.enqueue, Op.puts, Line.claim_append_of_mem hbefore.mem]
  | refresh hwaits hfind hwoke => simp [Op.puts]
  | @grant other waker entry hwaits hfind hwoke hfits =>
      -- the woken waiters stand before those that are not
      obtain ⟨front, back, hsplit⟩ := hkept.promised
      obtain ⟨hmem, rfl⟩ := Line.find?_mem hfind
      obtain ⟨older, younger, hfront⟩ := List.append_of_mem (hsplit.mem_front hmem hwoke)
      obtain ⟨waiter, hwaiter, hid, hunwoken⟩ := hbefore
      have hbehind : future ∈ (younger ++ back).map Entry.id := by
        rw [hsplit.line_eq, List.mem_append] at hwaiter
        rcases hwaiter with hwoken | hback
        · rw [hsplit.front_woke waiter hwoken] at hunwoken
          cases hunwoken
        · exact hid ▸ List.mem_map_of_mem (List.mem_append_right _ hback)
      have hline : state.queue = older ++ entry :: (younger ++ back) := by
        rw [hsplit.line_eq, hfront, List.append_assoc, List.cons_append]
      have hnodup := henrolled.nodup
      rw [hline] at hnodup
      have hclaim := Line.claim_remove hnodup hbehind
      simp only [State.setFuture_queue, State.serve, State.leave, State.take,
        State.setFuture_permits, Line.claim_serve, Op.puts, Option.getD_none, hline]
      omega
  | @cancel other hwaits =>
      have hne : other ≠ future := by
        have hleft : (state.leave other).serve.Pending future := hafter
        exact Ne.symm hleft.of_serve.of_leave.2
      have hle := Line.claim_remove_le state.queue hne
      simp only [State.setFuture_queue, State.serve, State.leave, State.setFuture_permits,
        Line.claim_serve, Op.puts, Option.getD_none]
      omega
  | addSome hsome hsum =>
      rw [Profile.add_of_le (by simpa [Op.fits, Op.puts] using hroom), Except.ok.injEq] at hsum
      simp only [State.serve, Line.claim_serve, Op.puts, Option.getD_some, ← hsum]
      omega
  | returnSome hheld hsome hsum =>
      rw [Profile.add_of_le (by simpa [Op.fits, Op.puts] using hroom), Except.ok.injEq] at hsum
      simp only [State.serve, Line.claim_serve, Op.puts, Option.getD_some, ← hsum]
      omega
  | _ => simp [Op.puts]

variable {initial : Nat} {trace rest : List (Op W × Output W)}

/-- Over a run in which the permits returned cover the claim, a waiter that is still not
marked stands behind one that is. -/
theorem pending_claim (hrun : (Fifo.system profile).Run (State.new initial) trace state)
    (hrest : (Fifo.system profile).Run state rest last)
    (htotal : initial + added (trace ++ rest) ≤ profile.usizeMax)
    (hstarted : state.Started future) (hpending : last.Pending future) :
    (∃ oldest, last.queue.head? = some oldest ∧ oldest.woke = true) ∨
      state.permits + returned rest < Line.claim future state.queue := by
  have hpaid : last.Started future ∧ (last.Pending future →
      Line.claim future last.queue + state.permits + returned rest ≤
        Line.claim future state.queue + last.permits) := by
    refine hrest.invariant (fun rest last => initial + added (trace ++ rest) ≤ profile.usizeMax →
      last.Started future ∧ (last.Pending future →
        Line.claim future last.queue + state.permits + returned rest ≤
          Line.claim future state.queue + last.permits))
      (fun _ => ⟨hstarted, fun _ => by simp [returned]⟩) ?_ htotal
    intro rest middle last op output hprefix ih hstep htotal
    rw [← List.append_assoc, added_snoc] at htotal
    obtain ⟨hmiddle, hsum⟩ := ih (by omega)
    have htransition := step_transition hstep
    have hsound := sound (hrun.trans hprefix) (by omega)
    have hroom := htransition.fits_of_total (by have := hsound.total_le; omega)
    refine ⟨htransition.started hmiddle, fun hlast => ?_⟩
    have hclaim := htransition.claim_step hroom (enrolled (hrun.trans hprefix)) hsound.kept
      hmiddle hlast
    have hbefore := hsum (htransition.pending_before hmiddle hlast)
    simp only [returned, List.map_append, List.map_cons, List.map_nil, List.sum_append,
      List.sum_singleton] at hbefore ⊢
    omega
  have hkept := (sound (hrun.trans hrest) htotal).kept
  cases hhead : last.queue.head? with
  | none =>
      rw [List.head?_eq_none_iff] at hhead
      simpa [hhead] using hpending.mem
  | some oldest =>
      rcases hkept.oldest oldest hhead with hwoke | hlt
      · exact .inl ⟨oldest, rfl, hwoke⟩
      · have hle := Line.required_le_claim future hhead
        have hsum := hpaid.2 hpending
        exact .inr (by omega)

end Fifo

/-! ## The semaphore -/

namespace Semaphore

variable {S : Type → Type} [Slab S] {W : Type} [Wakes W] {profile : Profile} {initial : Nat}
  {trace rest : List (Op W × Output W)} {state last : State S W} {future : Nat}

/-- The waiter at which the wake pass begins is marked as woken. -/
def State.OldestWoken (state : State S W) : Prop :=
  ∃ key waiter, state.inner.tail = some key ∧
    Slab.get? state.inner.waiters key = some waiter ∧ waiter.woke = true

omit [Wakes W] in
/-- Only one list names the waiting futures in their order. -/
theorem lists_unique {cells queue : List (Entry Nat W)} {owner : Nat → Nat} {spec : Fifo.State W}
    (hvia : Fifo.Via cells owner state spec) (hlists : state.Lists queue) :
    queue = spec.queue := by
  refine Relator.RightUnique.forall₂ ?_ hlists.stored (lists_queue hvia).stored
  rintro cell entry other ⟨hentry, hwaker, hrequired, hwoke⟩ ⟨hother, hwaker', hrequired', hwoke'⟩
  have hid := key_injective hvia hentry hother
  obtain ⟨id, waker, required, woke⟩ := entry
  obtain ⟨id', waker', required', woke'⟩ := other
  simp only at hid hwaker hwaker' hrequired hrequired' hwoke hwoke'
  rw [hid, hwaker, hwaker', hrequired, hrequired', hwoke, hwoke']

/-- Nobody starves: from any reachable state on, whoever arrives later and whatever else is
done, a waiting future is marked as woken, or dropped, once the permits returned cover what it
and those before it require, except behind a waiter that is marked and was not polled yet. -/
theorem waits_bounded {queue : List (Entry Nat W)}
    (hrun : (system profile : System _ (State S W) _ _).Run (State.new initial) trace state)
    (hrest : (system profile : System _ (State S W) _ _).Run state rest last)
    (htotal : initial + added (trace ++ rest) ≤ profile.usizeMax) (hwaits : state.Waits future)
    (hlists : state.Lists queue)
    (hreturned : Line.claim future queue ≤ state.inner.permits + Fifo.returned rest)
    {permits : Nat} {waker : W} (hunwoken : last.Unwoken future permits waker) :
    last.OldestWoken := by
  obtain ⟨spec, cells, owner, hspec, hvia⟩ := run_represented hrun
  obtain ⟨specLast, hspecRest, cells', owner', hvia'⟩ := Fifo.refines.run ⟨_, _, hvia⟩ hrest
  rw [lists_unique hvia hlists, ← hvia.permits] at hreturned
  have hstarted : spec.Started future := ⟨.waiting, (waits_iff hvia future).mp hwaits, by simp⟩
  obtain ⟨entry, hmem, hid, -, hwoke⟩ := (unwoken_iff hvia').mp ⟨permits, hunwoken⟩
  rcases Fifo.pending_claim hspec hspecRest htotal hstarted ⟨entry, hmem, hid, hwoke⟩ with
    ⟨oldest, hhead, hmark⟩ | hlt
  · rw [hvia'.queue] at hhead
    cases cells' with
    | nil => cases hhead
    | cons first others =>
        obtain rfl : first.rename owner' = oldest := by simpa using hhead
        obtain ⟨waiter, hget, hentry⟩ := hvia'.holds.entries first List.mem_cons_self
        refine ⟨first.id, waiter, by rw [hvia'.holds.tail]; rfl, hget, ?_⟩
        rw [← hentry] at hmark
        exact hmark
  · omega

/-- The line of a semaphore is read off the abstract one after the same operations. -/
theorem lists_of_exec {ops : List (Op W)} {spec : Fifo.State W}
    (hexec : (system profile : System _ (State S W) _ _).exec (State.new initial) ops =
      some (trace, state))
    (habstract : (Fifo.system profile).exec (Fifo.State.new initial) ops = some (trace, spec)) :
    state.Lists spec.queue := by
  obtain ⟨abstract, cells, owner, hspec, hvia⟩ := run_represented (System.exec_run hexec)
  obtain rfl := hspec.unique (System.exec_run habstract)
  exact lists_queue hvia

/-- A waiter arrives behind one that is woken. -/
def behindWoken : List (Op Nat) :=
  [.acquire 1 1, .poll 1 11, .addPermits 3, .acquire 2 1, .poll 2 12]

def thirdArrives : List (Op Nat) := [.acquire 3 2, .poll 3 13]

/-- Two waiters, and nothing for them. -/
def twoWait : List (Op Nat) := [.acquire 1 1, .poll 1 11, .acquire 2 1, .poll 2 12]

/-- One permit goes through the hands of both, past the third. -/
def permitPassed : List (Op Nat) :=
  thirdArrives ++ [.addPermits 1, .poll 1 11, .dropPermit 1, .poll 2 12]

/-- Where the oldest waiter was not polled since it was woken, a waiter behind it stays as it
is; where everybody is polled, a permit that is passed on leaves nobody but the last. -/
theorem waits_bounded_behindWoken :
    (∃ (rest : List (Op Nat × Output Nat)) (state last : State FreeSlab Nat),
      (system Profile.release).Run state rest last ∧ rest.map Prod.fst = thirdArrives ∧
      last.Unwoken 2 1 12 ∧ last.inner.permits = 3 ∧ last.OldestWoken) ∧
    ∃ (rest : List (Op Nat × Output Nat)) (state last : State FreeSlab Nat),
      (system Profile.release).Run state rest last ∧ rest.map Prod.fst = permitPassed ∧
      state.Unwoken 2 1 12 ∧ last.Unwoken 3 2 13 ∧
      ∀ permits waker, ¬ last.Unwoken 2 permits waker := by
  constructor
  · obtain ⟨trace, state, rest, last, spec, hfront, habstract, hlater, hops, hwaits, htotal,
        hclaim, hunwoken, hpermits⟩ :
        ∃ (trace : _) (state : State FreeSlab Nat) (rest : _) (last : State FreeSlab Nat)
          (spec : Fifo.State Nat),
          (system Profile.release).exec (State.new 0) behindWoken = some (trace, state) ∧
          (Fifo.system Profile.release).exec (Fifo.State.new 0) behindWoken = some (trace, spec) ∧
          (system Profile.release).exec state thirdArrives = some (rest, last) ∧
          rest.map Prod.fst = thirdArrives ∧ state.Waits 2 ∧
          0 + added (trace ++ rest) ≤ Profile.release.usizeMax ∧
          Line.claim 2 spec.queue ≤ state.inner.permits + Fifo.returned rest ∧
          last.Unwoken 2 1 12 ∧ last.inner.permits = 3 :=
      ⟨_, _, _, _, _, rfl, rfl, rfl, rfl, ⟨1, 1, rfl⟩, by decide, by decide,
        ⟨1, _, rfl, rfl, rfl, rfl⟩, rfl⟩
    have hrest := System.exec_run hlater
    exact ⟨rest, state, last, hrest, hops, hunwoken, hpermits,
      waits_bounded (System.exec_run hfront) hrest htotal hwaits
        (lists_of_exec hfront habstract) hclaim hunwoken⟩
  · obtain ⟨trace, state, rest, last, spec, hfront, habstract, hlater, hops, hwaits, htotal,
        hclaim, hbefore, hafter, holdest⟩ :
        ∃ (trace : _) (state : State FreeSlab Nat) (rest : _) (last : State FreeSlab Nat)
          (spec : Fifo.State Nat),
          (system Profile.release).exec (State.new 0) twoWait = some (trace, state) ∧
          (Fifo.system Profile.release).exec (Fifo.State.new 0) twoWait = some (trace, spec) ∧
          (system Profile.release).exec state permitPassed = some (rest, last) ∧
          rest.map Prod.fst = permitPassed ∧ state.Waits 2 ∧
          0 + added (trace ++ rest) ≤ Profile.release.usizeMax ∧
          Line.claim 2 spec.queue ≤ state.inner.permits + Fifo.returned rest ∧
          state.Unwoken 2 1 12 ∧ last.Unwoken 3 2 13 ∧ ¬ last.OldestWoken := by
      refine ⟨_, _, _, _, _, rfl, rfl, rfl, rfl, ⟨1, 1, rfl⟩, by decide, by decide,
        ⟨1, _, rfl, rfl, rfl, rfl⟩, ⟨2, _, rfl, rfl, rfl, rfl⟩, ?_⟩
      rintro ⟨key, waiter, htail, hget, hwoke⟩
      cases htail
      cases hget
      cases hwoke
    have hrest := System.exec_run hlater
    exact ⟨rest, state, last, hrest, hops, hbefore, hafter, fun permits waker hunwoken =>
      holdest (waits_bounded (System.exec_run hfront) hrest htotal hwaits
        (lists_of_exec hfront habstract) hclaim hunwoken)⟩

end Semaphore

end Platoon.Sync
