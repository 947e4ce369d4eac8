import Platoon.Runtime.World

/-!
# Borrows from within a borrow

An operation of a semaphore, a clock or a reactor that drops the last reference
to a task drops what the task owns while it holds its cell.  If the destructor of
that borrows the cell, it panics.  This is the only way to such a panic.
-/

namespace Platoon.Runtime

open Platoon.Foundation Platoon.Rust Platoon.Sync Platoon.Time

/-- The cell that the destructor of an item borrows. -/
def Item.needs : Item → Option Cell
  | .rc _ => none
  | .permit semaphore permits => if permits = 0 then none else some (.semaphore semaphore)
  | .acquire semaphore { state := .waiting _, .. } => some (.semaphore semaphore)
  | .acquire _ _ => none
  | .sleep runtime { alarm := some _, .. } => some (.clock runtime)
  | .sleep _ _ => none
  | .async runtime _ => some (.reactor runtime)

namespace World

variable {S : Type → Type}

/-- What is dropped in the place of an item: the contents of an allocation, if the item is the
last reference to it. -/
def freed (world : World S) : Item → List Item
  | .rc node =>
      match world.store.allocs node with
      | some alloc => if alloc.strong ≤ 1 then alloc.contents else []
      | none => []
  | _ => []

/-- While calls hold cells, the step drops no last reference to something that owns an item
whose destructor borrows one of these cells. -/
def harmless (world : World S) : Op → Bool
  | .advance _ =>
      match world.calls with
      | { todo := item :: _, .. } :: _ =>
          (world.freed item).all fun content =>
            !decide (Holding.Blocked Item.needs (Holding.cells world.calls) content)
      | _ => true
  | _ => true

/-- An item that is still to be dropped clashes with a call that holds its cell. -/
def Clash (world : World S) : Prop := Holding.Clash Item.needs world.calls

/-! ## What a drop does to the calls -/

section Calls

variable {world last : World S} {cell other : Cell}

@[simp]
theorem cells_discard (items : List Item) :
    Holding.cells (world.discard items).calls = Holding.cells world.calls := by
  unfold discard
  split
  · rename_i hcalls
    rw [hcalls]
  · rename_i call calls hcalls
    rw [hcalls]
    rfl

theorem clash_discard (items : List Item) :
    (world.discard items).Clash ↔
      (∃ item ∈ items, Holding.Blocked Item.needs (Holding.cells world.calls) item) ∨
        world.Clash := by
  unfold discard Clash
  split
  · rename_i hcalls
    simp [hcalls, Holding.Clash, Holding.Blocked]
  · rename_i call calls hcalls
    rw [hcalls]
    exact Holding.clash_append_iff items

theorem freed_last {node : Nat} {alloc : Alloc} (halloc : world.store.allocs node = some alloc)
    (hlast : alloc.strong ≤ 1) : world.freed (.rc node) = alloc.contents := by
  simp [freed, halloc, hlast]

theorem freed_none {node : Nat}
    (hshared : ∀ alloc, world.store.allocs node = some alloc → ¬ alloc.strong ≤ 1) :
    world.freed (.rc node) = [] := by
  cases halloc : world.store.allocs node with
  | none => simp [freed, halloc]
  | some alloc => simp [freed, halloc, hshared alloc halloc]

theorem clash_release (node : Nat) :
    (world.release node).Clash ↔
      (∃ content ∈ world.freed (.rc node),
        Holding.Blocked Item.needs (Holding.cells world.calls) content) ∨ world.Clash := by
  unfold release
  split
  · rename_i hnone
    have hfreed : world.freed (.rc node) = [] := by simp [freed, hnone]
    simp [hfreed]
  · rename_i alloc halloc
    split
    · rename_i hlast
      rw [freed_last halloc hlast, clash_discard]
      rfl
    · rename_i hshared
      have hnone : world.freed (.rc node) = [] := by
        apply freed_none
        intro other hother
        rw [halloc, Option.some.injEq] at hother
        exact hother ▸ hshared
      rw [hnone]
      simp only [List.not_mem_nil, false_and, exists_false, false_or]
      rfl

/-- A call has only wakers to drop when it begins. -/
theorem clash_within {effect : Except Panic (Effect S)}
    (hwithin : world.within cell effect = .ok last) : last.Clash ↔ world.Clash := by
  unfold within at hwithin
  split at hwithin
  · cases hwithin
  · split at hwithin
    · cases hwithin
    · cases hwithin
      apply Holding.clash_cons_iff
      intro item hmem
      obtain ⟨waker, -, rfl⟩ := List.mem_map.mp hmem
      rfl

theorem within_reentered {effect : Except Panic (Effect S)} :
    world.within cell effect = .error (.reentered other) ↔
      cell = other ∧ cell ∈ Holding.cells world.calls := by
  unfold within
  split
  · rename_i hheld
    simp [hheld]
  · rename_i hfree
    split <;> simp [hfree]

end Calls

section Drops

variable [Slab S] {profile : Profile} {faults : Sys.Faults} {world last : World S} {item : Item}
  {cell : Cell}

/-- Dropping an item clashes exactly with what it frees. -/
theorem clash_dropItem (hdrop : world.dropItem profile faults item = .ok last) :
    last.Clash ↔
      (∃ content ∈ world.freed item,
        Holding.Blocked Item.needs (Holding.cells world.calls) content) ∨ world.Clash := by
  cases item with
  | rc node =>
      cases hdrop
      exact clash_release node
  | permit semaphore permits =>
      simp only [freed, List.not_mem_nil, false_and, exists_false, false_or]
      simp only [dropItem] at hdrop
      split at hdrop
      · cases hdrop
        rfl
      · exact clash_within hdrop
  | acquire semaphore acquire =>
      simp only [freed, List.not_mem_nil, false_and, exists_false, false_or]
      simp only [dropItem] at hdrop
      split at hdrop
      · exact clash_within hdrop
      · cases hdrop
        rfl
  | sleep runtime sleep =>
      simp only [freed, List.not_mem_nil, false_and, exists_false, false_or]
      simp only [dropItem] at hdrop
      split at hdrop
      · rw [clash_within hdrop, clash_discard]
        simp [Holding.Blocked, Item.needs]
      · cases hdrop
        rfl
  | async runtime key =>
      simp only [freed, List.not_mem_nil, false_and, exists_false, false_or]
      exact clash_within hdrop

/-- A drop panics on a borrowed cell exactly if it needs one that is held. -/
theorem dropItem_reentered :
    world.dropItem profile faults item = .error (.reentered cell) ↔
      item.needs = some cell ∧ cell ∈ Holding.cells world.calls := by
  cases item with
  | rc node => simp [dropItem, Item.needs]
  | permit semaphore permits =>
      simp only [dropItem, Item.needs]
      split
      · simp
      · rw [within_reentered, Option.some.injEq]
        exact and_congr_right fun hsame => hsame ▸ Iff.rfl
  | acquire semaphore acquire =>
      obtain ⟨state, permits⟩ := acquire
      cases state with
      | waiting key =>
          simp only [dropItem, Item.needs]
          rw [within_reentered, Option.some.injEq]
          exact and_congr_right fun hsame => hsame ▸ Iff.rfl
      | idle => simp [dropItem, Item.needs]
      | done => simp [dropItem, Item.needs]
  | sleep runtime sleep =>
      obtain ⟨deadline, alarm⟩ := sleep
      cases alarm with
      | none => simp [dropItem, Item.needs]
      | some alarm =>
          simp only [dropItem, Item.needs]
          rw [within_reentered, cells_discard, Option.some.injEq]
          exact and_congr_right fun hsame => hsame ▸ Iff.rfl
  | async runtime key =>
      simp only [dropItem, Item.needs]
      rw [within_reentered, Option.some.injEq]
      exact and_congr_right fun hsame => hsame ▸ Iff.rfl

/-- An item that could be dropped was not blocked. -/
theorem not_blocked_of_dropped (hdrop : world.dropItem profile faults item = .ok last) :
    ¬ Holding.Blocked Item.needs (Holding.cells world.calls) item := by
  rintro ⟨cell, hheld, hneeds⟩
  rw [dropItem_reentered.mpr ⟨hneeds, hheld⟩] at hdrop
  cases hdrop

end Drops

/-! ## Steps -/

/-- An operation finds no cell held, and nothing clashes after its first step. -/
structure Opens (outcome : Outcome Crash (World S) Unit) : Prop where
  keeps : ∀ last, outcome = .next last () → ¬ last.Clash
  borrows : ∀ cell, outcome ≠ .panic (.reentered cell)

section Opens

variable {world last : World S} {outcome : Outcome Crash (World S) Unit}

theorem clash_nil (hcalls : world.calls = []) : ¬ world.Clash := by
  simp [Clash, hcalls, Holding.Clash]

theorem ends_eq_next {result : Except Crash (World S)} :
    ends result = .next last () ↔ result = .ok last := by
  cases result <;> simp [ends]

theorem ends_eq_panic {result : Except Crash (World S)} {crash : Crash} :
    ends result = .panic crash ↔ result = .error crash := by
  cases result <;> simp [ends]

namespace Opens

theorem next (hcalls : last.calls = []) : Opens (.next last ()) where
  keeps other hnext := by
    cases hnext
    exact clash_nil hcalls
  borrows cell := by simp

theorem disabled : Opens (.disabled : Outcome Crash (World S) Unit) where
  keeps last hnext := by cases hnext
  borrows cell := by simp

theorem when {guard : Bool} (hopens : Opens outcome) : Opens (.when guard outcome) where
  keeps last hnext := hopens.keeps last (Outcome.when_eq_next.mp hnext).2
  borrows cell hpanic := hopens.borrows cell (Outcome.when_eq_panic.mp hpanic).2

/-- No cell is held where code runs outside of all calls. -/
theorem outside {items : List Item} (hopens : world.calls = [] → Opens outcome) :
    Opens (world.outside items outcome) := by
  cases hcalls : world.calls with
  | nil => exact (hopens hcalls).when
  | cons call calls =>
      simp only [World.outside, hcalls, List.isEmpty_cons, Bool.false_and]
      exact disabled

theorem within {cell : Cell} {effect : Except Panic (Effect S)} (hcalls : world.calls = []) :
    Opens (ends (world.within cell effect)) where
  keeps last hnext := by
    rw [clash_within (ends_eq_next.mp hnext)]
    exact clash_nil hcalls
  borrows other hpanic := by
    obtain ⟨-, hheld⟩ := within_reentered.mp (ends_eq_panic.mp hpanic)
    rw [hcalls] at hheld
    cases hheld

theorem dropItem [Slab S] {profile : Profile} {faults : Sys.Faults} {item : Item}
    (hcalls : world.calls = []) : Opens (ends (world.dropItem profile faults item)) where
  keeps last hnext := by
    rw [clash_dropItem (ends_eq_next.mp hnext), not_or]
    refine ⟨?_, clash_nil hcalls⟩
    rintro ⟨content, -, cell, hheld, -⟩
    rw [hcalls] at hheld
    cases hheld
  borrows cell hpanic := by
    obtain ⟨-, hheld⟩ := dropItem_reentered.mp (ends_eq_panic.mp hpanic)
    rw [hcalls] at hheld
    cases hheld

end Opens
end Opens

section Advance

variable {world : World S} {faults : Sys.Faults} {call : Holding Cell Item (List Nat)}
  {calls : List (Holding Cell Item (List Nat))}

theorem harmless_of_done (hcalls : world.calls = call :: calls) (htodo : call.todo = []) :
    world.harmless (.advance faults) = true := by
  obtain ⟨cell, todo, rest⟩ := call
  subst htodo
  simp [harmless, hcalls]

theorem harmless_eq_false {item : Item} {todo : List Item} (hcalls : world.calls = call :: calls)
    (htodo : call.todo = item :: todo) :
    world.harmless (.advance faults) = false ↔
      ∃ content ∈ world.freed item,
        Holding.Blocked Item.needs (Holding.cells world.calls) content := by
  obtain ⟨cell, todo, rest⟩ := call
  subst htodo
  simp [harmless, hcalls]

end Advance

section Steps

variable [Slab S] {profile : Profile} {faults : Sys.Faults} {world last : World S} {op : Op}

/-- Every step but those of the calls is taken where no cell is held. -/
theorem step_opens (hop : ∀ faults, op ≠ .advance faults) : Opens (world.step profile op) := by
  cases op with
  | advance faults => exact absurd rfl (hop faults)
  | alloc node => exact .outside fun hcalls => .when (.next hcalls)
  | spawn node => exact .outside fun hcalls => .when (.next hcalls)
  | run =>
      refine .outside fun hcalls => ?_
      split
      · exact .disabled
      · exact .next hcalls
  | finish node => exact .outside fun hcalls => .next hcalls
  | clone node => exact .outside fun hcalls => .next hcalls
  | wakeByRef node => exact .outside fun hcalls => .next hcalls
  | put node item => exact .outside fun hcalls => .when (.next hcalls)
  | take node item => exact .outside fun hcalls => .when (.next hcalls)
  | drop item faults => exact .outside fun hcalls => .dropItem hcalls
  | forget item => exact .outside fun hcalls => .next hcalls
  | tryAcquire semaphore permits => exact .outside fun hcalls => .within hcalls
  | addPermits semaphore permits =>
      refine .outside fun hcalls => ?_
      split
      · exact .next hcalls
      · exact .within hcalls
  | acquire semaphore permits => exact .outside fun hcalls => .next hcalls
  | pollAcquire semaphore acquire waker => exact .outside fun hcalls => .within hcalls
  | sleepUntil runtime deadline => exact .outside fun hcalls => .next hcalls
  | pollSleep runtime sleep now waker =>
      refine .outside fun hcalls => ?_
      split
      · exact .next hcalls
      · exact .within hcalls
  | resetSleep runtime sleep deadline =>
      refine .outside fun hcalls => ?_
      split
      · exact .next hcalls
      · exact .within hcalls
  | insertSource runtime raw faults => exact .outside fun hcalls => .within hcalls
  | pollReady runtime key direction waker faults => exact .outside fun hcalls => .within hcalls
  | park runtime now answer faults =>
      refine .outside fun hcalls => ?_
      unfold park
      split
      split
      · exact .next hcalls
      · exact .disabled

theorem calls_nil (hop : ∀ faults, op ≠ .advance faults)
    (hstep : world.step profile op = .next last ()) : world.calls = [] := by
  cases op with
  | advance faults => exact absurd rfl (hop faults)
  | _ =>
      simp only [step, outside, Outcome.when_eq_next, Bool.and_eq_true,
        List.isEmpty_iff] at hstep
      exact hstep.1.1

/-- What clashes after a step of a call did so before, or is freed by it. -/
theorem clash_advance (hstep : world.advance profile faults = .next last ()) :
    last.Clash ↔ world.Clash ∨ world.harmless (.advance faults) = false := by
  unfold advance at hstep
  split at hstep
  · cases hstep
  · rename_i call calls hcalls
    split at hstep
    · rename_i hdone
      cases hstep
      have hnothing : ∀ item ∈ call.todo, item.needs = none := by simp [hdone]
      rw [harmless_of_done hcalls hdone, Clash, Clash, hcalls, Holding.clash_cons_iff hnothing]
      simp
    · rename_i item todo htodo
      rw [ends_eq_next] at hstep
      have hfree := not_blocked_of_dropped hstep
      have hcells : Holding.cells ({ call with todo } :: calls) = Holding.cells world.calls := by
        rw [hcalls]
        rfl
      rw [clash_dropItem hstep, harmless_eq_false hcalls htodo, or_comm]
      apply or_congr
      · rw [hcells] at hfree
        rw [Clash, Clash, hcalls, Holding.clash_todo_iff htodo, ← hcalls, or_iff_right hfree]
      · rw [hcells]
        rfl

/-- A step of a call panics on a borrowed cell only if something clashes. -/
theorem clash_of_reentered {cell : Cell}
    (hpanic : world.advance profile faults = .panic (.reentered cell)) : world.Clash := by
  unfold advance at hpanic
  split at hpanic
  · cases hpanic
  · rename_i call calls hcalls
    split at hpanic
    · cases hpanic
    · rename_i item todo htodo
      obtain ⟨hneeds, hheld⟩ := dropItem_reentered.mp (ends_eq_panic.mp hpanic)
      rw [Clash, hcalls, Holding.clash_todo_iff htodo]
      exact .inl ⟨cell, hheld, hneeds⟩

/-- A step leaves a clash exactly if there was one or the step is not harmless. -/
theorem clash_step (hstep : world.step profile op = .next last ()) :
    last.Clash ↔ world.Clash ∨ world.harmless op = false := by
  by_cases hadvance : ∃ faults, op = .advance faults
  · obtain ⟨faults, rfl⟩ := hadvance
    exact clash_advance hstep
  · have hop : ∀ faults, op ≠ .advance faults := fun faults heq => hadvance ⟨faults, heq⟩
    have hlast := (step_opens hop).keeps last hstep
    have hworld := clash_nil (calls_nil hop hstep)
    have hharmless : world.harmless op = true := by
      cases op with
      | advance faults => exact absurd rfl (hop faults)
      | _ => rfl
    simp [hlast, hworld, hharmless]

/-- A step panics on a borrowed cell only if something clashes. -/
theorem clash_of_step {cell : Cell}
    (hpanic : world.step profile op = .panic (.reentered cell)) : world.Clash := by
  by_cases hadvance : ∃ faults, op = .advance faults
  · obtain ⟨faults, rfl⟩ := hadvance
    exact clash_of_reentered hpanic
  · have hop : ∀ faults, op ≠ .advance faults := fun faults heq => hadvance ⟨faults, heq⟩
    exact absurd hpanic ((step_opens hop).borrows cell)

end Steps

/-! ## Runs -/

section Runs

variable [Slab S] {profile : Profile} {world : World S} {permits : Nat → Nat}
  {trace : List (Op × Unit)}

/-- Nothing clashes after exactly the runs of harmless steps. -/
theorem no_clash_iff (hrun : (system profile).Run (World.new permits : World S) trace world) :
    ¬ world.Clash ↔
      ((system profile).restrict harmless).Run (World.new permits) trace world := by
  induction hrun with
  | refl => exact ⟨fun _ => .refl, fun _ => clash_nil rfl⟩
  | @snoc trace middle last op output hprefix hstep ih =>
      rw [clash_step hstep, not_or, ih, Bool.not_eq_false, hprefix.restrict_snoc_iff hstep]

/-- While the steps of a run are harmless, no destructor borrows a cell that an operation of a
semaphore, a clock or a reactor holds.  From a step that is not harmless no run gets to where
all operations have returned. -/
theorem no_reentry (hrun : (system profile).Run (World.new permits : World S) trace world) :
    (((system profile).restrict harmless).Run (World.new permits) trace world →
      ∀ op cell, (system profile).step world op ≠ .panic (.reentered cell)) ∧
    (¬ ((system profile).restrict harmless).Run (World.new permits) trace world →
      ∀ rest last, (system profile).Run world rest last → last.calls ≠ []) := by
  constructor
  · intro hharmless op cell hpanic
    exact (no_clash_iff hrun).mpr hharmless (clash_of_step hpanic)
  · intro hharmful rest last hrest hcalls
    have hwhole := (no_clash_iff (hrun.trans hrest)).mp (clash_nil hcalls)
    obtain ⟨middle, hmiddle, -⟩ := hwhole.split
    rw [← hmiddle.of_restrict.unique hrun] at hharmful
    exact hharmful hmiddle

end Runs

/-- A task polls an `Acquire` of semaphore 0 that is not its own, and is left to the waker
stored for it; it owns a permit of the given semaphore. -/
def leftToWaker (semaphore : Nat) : List Op :=
  [.tryAcquire 0 1, .advance [], .tryAcquire 1 1, .advance [], .acquire 0 1, .spawn 5,
    .put 5 (.permit semaphore 1), .run, .pollAcquire 0 { state := .idle, permits := 1 } 5,
    .advance [], .drop (.rc 5) [], .drop (.rc 5) [],
    .drop (.acquire 0 { state := .waiting 0, permits := 1 }) []]

/-- One permit for every semaphore. -/
def onePermit : World FreeSlab := World.new fun _ => 1

theorem no_reentry_otherSemaphore :
    ∃ trace world, (system .release).Run onePermit trace world ∧
      world.calls = [] ∧ world.contents 5 = [] ∧
      ∀ op cell, (system .release).step world op ≠ .panic (.reentered cell) := by
  have hcheck : (((system .release).restrict harmless).exec onePermit
      (leftToWaker 1 ++ [.advance [], .advance [], .advance [], .advance []])).any (fun result =>
        decide (result.2.calls = [] ∧ result.2.contents 5 = [])) = true := by decide +kernel
  obtain ⟨trace, world, hrun, hpass⟩ := System.exec_check hcheck
  obtain ⟨hcalls, hcontents⟩ := of_decide_eq_true hpass
  exact ⟨trace, world, hrun.of_restrict, hcalls, hcontents, (no_reentry hrun.of_restrict).1 hrun⟩

/-- `Acquire::drop` frees a task that owns a permit of the same semaphore, and `Async::drop` one
that owns another source of the same reactor. -/
theorem last_waker_reenters :
    (∃ trace world, (system .release).Run onePermit trace world ∧
      (system .release).step world (.advance []) = .panic (.reentered (.semaphore 0))) ∧
    ∃ trace world, (system .release).Run onePermit trace world ∧
      (system .release).step world (.advance []) = .panic (.reentered (.reactor 0)) := by
  have hsemaphore : ((system .release).exec onePermit (leftToWaker 0 ++ [.advance []])).any
      (fun result => decide (((system .release).step result.2 (.advance [])).reason? =
        some (.reentered (.semaphore 0)))) = true := by decide +kernel
  have hreactor : ((system .release).exec onePermit
      [.insertSource 0 3 [], .advance [], .insertSource 0 4 [], .advance [], .spawn 5,
        .put 5 (.async 0 1), .run, .pollReady 0 0 .read 5 [], .advance [], .drop (.rc 5) [],
        .drop (.rc 5) [], .drop (.async 0 0) [], .advance []]).any
      (fun result => decide (((system .release).step result.2 (.advance [])).reason? =
        some (.reentered (.reactor 0)))) = true := by decide +kernel
  constructor
  · obtain ⟨trace, world, hrun, hpass⟩ := System.exec_check hsemaphore
    exact ⟨trace, world, hrun, Outcome.reason?_eq_some.mp (of_decide_eq_true hpass)⟩
  · obtain ⟨trace, world, hrun, hpass⟩ := System.exec_check hreactor
    exact ⟨trace, world, hrun, Outcome.reason?_eq_some.mp (of_decide_eq_true hpass)⟩

end World

end Platoon.Runtime
