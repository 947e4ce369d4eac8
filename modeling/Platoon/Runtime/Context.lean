import Platoon.Foundation.Transition
import Platoon.Rust.Prelude

/-!
# The runtime of a thread

`RUNTIME` of one thread, and the guards alive on it.  A guard saves the runtime
that it finds and writes it back when it is dropped.  `block_on` keeps a guard of
its own until it returns or unwinds; clients drop theirs in any order.
-/

namespace Platoon.Runtime

open Platoon.Foundation Platoon.Rust

/-- A `Guard` with the runtime that it entered; `old` is its field. -/
structure Guard (R : Type) where
  name : Nat
  runtime : R
  old : Option R
  deriving DecidableEq, Repr

/-- `RUNTIME`, the guards alive, most recently entered first, and the guards of the calls of
`block_on`, innermost first. -/
structure Context (R : Type) where
  runtime : Option R
  guards : List (Guard R)
  calls : List Nat
  deriving DecidableEq, Repr

namespace Context

/-- What code on the thread does.  Guards are named by the caller. -/
inductive Op (R : Type) where
  | enter (guard : Nat) (runtime : R)
  | dropGuard (guard : Nat)
  | blockOn (guard : Nat) (runtime : R)
  /-- The innermost `block_on` returns or unwinds. -/
  | leave
  | current
  | unwrapCurrent
  deriving DecidableEq, Repr

variable {R : Type}

/-- A thread before the first `enter`. -/
def new (runtime : Option R) : Context R where
  runtime := runtime
  guards := []
  calls := []

def find? (context : Context R) (name : Nat) : Option (Guard R) :=
  context.guards.find? fun guard => guard.name = name

/-- The other guards alive. -/
def others (context : Context R) (guard : Guard R) : List (Guard R) :=
  context.guards.filter fun other => other.name ≠ guard.name

/-- `Runtime::enter`. -/
def enter (context : Context R) (name : Nat) (runtime : R) : Context R :=
  { context with
    runtime := some runtime
    guards := { name, runtime, old := context.runtime } :: context.guards }

/-- `Guard::drop`. -/
def dropGuard (context : Context R) (guard : Guard R) : Context R :=
  { context with runtime := guard.old, guards := context.others guard }

/-- The guard that a step drops. -/
def dropped (context : Context R) : Op R → Option (Guard R)
  | .dropGuard name => if name ∈ context.calls then none else context.find? name
  | .leave => context.calls.head?.bind context.find?
  | _ => none

def step (context : Context R) : Op R → Outcome Panic (Context R) (Option R)
  | .enter name runtime =>
      .when (context.find? name).isNone <| .next (context.enter name runtime) none
  | .blockOn name runtime =>
      .when (context.find? name).isNone <|
        .next { context.enter name runtime with calls := name :: context.calls } none
  | .dropGuard name =>
      match context.dropped (.dropGuard name) with
      | none => .disabled
      | some guard => .next (context.dropGuard guard) none
  | .leave =>
      match context.dropped .leave with
      | none => .disabled
      | some guard =>
          .next { context.dropGuard guard with calls := context.calls.tail } none
  | .current => .next context context.runtime
  | .unwrapCurrent =>
      match context.runtime with
      | none => .panic .unwrapNone
      | some runtime => .next context (some runtime)

/-- One thread with all code on it. -/
def system : System Panic (Context R) (Op R) (Option R) where
  step := Context.step

/-! ## What the steps do to the guards -/

/-- A guard is entered or dropped, or the context is only read. -/
inductive Move (context : Context R) : Op R → Context R → Prop where
  | enter {op : Op R} {name : Nat} {runtime : R} {calls : List Nat}
      (hop : context.dropped op = none) (hfresh : context.find? name = none) :
      Move context op { context.enter name runtime with calls }
  | drop {op : Op R} {guard : Guard R} {calls : List Nat}
      (hop : context.dropped op = some guard) (halive : guard ∈ context.guards) :
      Move context op { context.dropGuard guard with calls }
  | read {op : Op R} (hop : context.dropped op = none) : Move context op context

section Moves

variable {context last : Context R} {op : Op R} {output : Option R}

theorem mem_of_find? {name : Nat} {guard : Guard R} (hfind : context.find? name = some guard) :
    guard ∈ context.guards :=
  List.mem_of_find?_eq_some hfind

theorem mem_of_dropped {guard : Guard R} (hdropped : context.dropped op = some guard) :
    guard ∈ context.guards := by
  cases op with
  | dropGuard name =>
      simp only [dropped] at hdropped
      split at hdropped
      · cases hdropped
      · exact mem_of_find? hdropped
  | leave =>
      obtain ⟨name, -, hfind⟩ := Option.bind_eq_some_iff.mp hdropped
      exact mem_of_find? hfind
  | enter name runtime => cases hdropped
  | blockOn name runtime => cases hdropped
  | current => cases hdropped
  | unwrapCurrent => cases hdropped

theorem step_move (hstep : context.step op = .next last output) : Move context op last := by
  cases op with
  | enter name runtime =>
      simp only [step, Outcome.when_eq_next, Option.isNone_iff_eq_none] at hstep
      obtain ⟨hfresh, hstep⟩ := hstep
      cases hstep
      exact .enter rfl hfresh
  | blockOn name runtime =>
      simp only [step, Outcome.when_eq_next, Option.isNone_iff_eq_none] at hstep
      obtain ⟨hfresh, hstep⟩ := hstep
      cases hstep
      exact .enter rfl hfresh
  | dropGuard name =>
      simp only [step] at hstep
      split at hstep
      · cases hstep
      · rename_i guard hdropped
        cases hstep
        exact .drop hdropped (mem_of_dropped hdropped)
  | leave =>
      simp only [step] at hstep
      split at hstep
      · cases hstep
      · rename_i guard hdropped
        cases hstep
        exact .drop hdropped (mem_of_dropped hdropped)
  | current =>
      cases hstep
      exact .read rfl
  | unwrapCurrent =>
      simp only [step] at hstep
      split at hstep
      · cases hstep
      · cases hstep
        exact .read rfl

end Moves

/-! ## The runtime that the guards call for -/

/-- The runtime of the most recently entered guard, or what there was before all of them. -/
def newest (before : Option R) : List (Guard R) → Option R
  | [] => before
  | guard :: _ => some guard.runtime

/-- The current runtime is the one that the guards alive call for. -/
def Follows (before : Option R) (context : Context R) : Prop :=
  context.runtime = newest before context.guards

/-- A guard that the step drops saved the runtime that the others call for. -/
def restores [DecidableEq R] (before : Option R) (context : Context R) (op : Op R) : Bool :=
  (context.dropped op).all fun guard => guard.old = newest before (context.others guard)

/-- A guard that the step drops is the most recently entered one. -/
def dropsNewest [DecidableEq R] (context : Context R) (op : Op R) : Bool :=
  (context.dropped op).all fun guard => context.guards.head? = some guard

section Steps

variable {before : Option R} {context last : Context R} {op : Op R}

/-- After a step the runtime follows the guards exactly if what it drops restores it. -/
theorem Follows.move [DecidableEq R] (hfollows : Follows before context)
    (hmove : Move context op last) :
    Follows before last ↔ restores before context op = true := by
  cases hmove with
  | enter hop hfresh => simp [Follows, restores, hop, enter, newest]
  | drop hop halive => simp [Follows, restores, hop, dropGuard]
  | read hop => simpa [restores, hop] using hfollows

/-- Every guard saved the runtime that the guards entered before it call for. -/
def Chained (before : Option R) : List (Guard R) → Prop
  | [] => True
  | guard :: rest => guard.old = newest before rest ∧ Chained before rest

/-- The guards are alive as they were entered, none missing in between. -/
structure Nested (before : Option R) (context : Context R) : Prop where
  names : (context.guards.map Guard.name).Nodup
  chained : Chained before context.guards
  follows : Follows before context

theorem Nested.new (before : Option R) : Nested before (Context.new before) where
  names := List.nodup_nil
  chained := trivial
  follows := rfl

/-- A saved runtime was there before, or an older guard entered it. -/
theorem Chained.old {guards : List (Guard R)} (hchained : Chained before guards) {guard : Guard R}
    (hmem : guard ∈ guards) :
    guard.old = before ∨ ∃ other ∈ guards, guard.old = some other.runtime := by
  induction guards with
  | nil => cases hmem
  | cons first rest ih =>
      obtain ⟨hold, hrest⟩ := hchained
      rcases List.mem_cons.mp hmem with rfl | htail
      · cases rest with
        | nil => exact .inl hold
        | cons second rest => exact .inr ⟨second, by simp, hold⟩
      · rcases ih hrest htail with hbefore | ⟨other, hother, holder⟩
        · exact .inl hbefore
        · exact .inr ⟨other, List.mem_cons_of_mem first hother, holder⟩

/-- Names tell the guards apart, so without the first one the rest is left. -/
theorem others_head {guard : Guard R} {rest : List (Guard R)}
    (hguards : context.guards = guard :: rest)
    (hnames : (context.guards.map Guard.name).Nodup) : context.others guard = rest := by
  rw [hguards, List.map_cons, List.nodup_cons] at hnames
  rw [others, hguards, List.filter_cons_of_neg (by simp), List.filter_eq_self]
  intro other hmem
  have hne : other.name ≠ guard.name := by
    intro hsame
    exact hnames.1 (List.mem_map.mpr ⟨other, hmem, hsame⟩)
  simpa using hne

/-- Dropping the most recently entered guard leaves the others nested. -/
theorem Nested.move [DecidableEq R] (hnested : Nested before context)
    (hmove : Move context op last) (hnewest : dropsNewest context op = true) :
    Nested before last := by
  cases hmove with
  | @enter name runtime calls hop hfresh =>
      have hunused : name ∉ context.guards.map Guard.name := by
        intro hmem
        obtain ⟨other, hother, hname⟩ := List.mem_map.mp hmem
        rw [find?, List.find?_eq_none] at hfresh
        exact hfresh other hother (by simpa using hname)
      exact
        { names := List.nodup_cons.mpr ⟨hunused, hnested.names⟩
          chained := ⟨hnested.follows, hnested.chained⟩
          follows := rfl }
  | @drop guard calls hop halive =>
      rw [dropsNewest, hop, Option.all_some, decide_eq_true_eq, List.head?_eq_some_iff] at hnewest
      obtain ⟨rest, hguards⟩ := hnewest
      have hothers := others_head hguards hnested.names
      have hnames := hnested.names
      have hchained := hnested.chained
      rw [hguards, List.map_cons, List.nodup_cons] at hnames
      rw [hguards] at hchained
      have hlast : ({ context.dropGuard guard with calls } : Context R).guards = rest := hothers
      refine ⟨?_, ?_, ?_⟩
      · rw [hlast]
        exact hnames.2
      · rw [hlast]
        exact hchained.2
      · rw [Follows, hlast]
        exact hchained.1
  | read hop => exact hnested

/-- No runtime is entered while it is current or entered already. -/
def Distinct (before : Option R) (context : Context R) : Prop :=
  (before.toList ++ context.guards.map Guard.runtime).Nodup

/-- With nested guards of distinct runtimes only the most recently entered one restores what
the others call for. -/
theorem Nested.newest_of_restores [DecidableEq R] (hnested : Nested before context)
    (hdistinct : Distinct before context) (hrestores : restores before context op = true)
    (hmove : Move context op last) : dropsNewest context op = true := by
  cases hmove with
  | enter hop hfresh => simp [dropsNewest, hop]
  | read hop => simp [dropsNewest, hop]
  | @drop guard calls hop halive =>
      rw [restores, hop, Option.all_some, decide_eq_true_eq] at hrestores
      rw [dropsNewest, hop, Option.all_some, decide_eq_true_eq]
      cases hguards : context.guards with
      | nil =>
          rw [hguards] at halive
          cases halive
      | cons head rest =>
          have hnames := hnested.names
          have hchained := hnested.chained
          rw [Distinct, hguards, List.map_cons] at hdistinct
          rw [hguards] at halive hchained
          rw [hguards, List.map_cons, List.nodup_cons] at hnames
          rcases List.mem_cons.mp halive with rfl | htail
          · rfl
          · -- an older guard brings back a runtime older than the one of `head`
            have hhead : head.name ≠ guard.name := by
              intro hsame
              exact hnames.1 (List.mem_map.mpr ⟨guard, htail, hsame.symm⟩)
            have hold : guard.old = some head.runtime := by
              rw [hrestores, others, hguards, List.filter_cons_of_pos (by simpa using hhead)]
              rfl
            rw [List.nodup_append] at hdistinct
            obtain ⟨-, hruntimes, hapart⟩ := hdistinct
            rcases hchained.2.old htail with hbefore | ⟨other, hother, holder⟩
            · have hsome : head.runtime ∈ before.toList := by
                rw [← hbefore, hold]
                simp
              exact absurd rfl (hapart _ hsome _ List.mem_cons_self)
            · rw [hold, Option.some.injEq] at holder
              have hagain : head.runtime ∈ rest.map Guard.runtime :=
                List.mem_map.mpr ⟨other, hother, holder.symm⟩
              exact absurd hagain (List.nodup_cons.mp hruntimes).1

end Steps

/-! ## Runs -/

section Runs

variable [DecidableEq R] {before : Option R} {context : Context R}
  {trace : List (Op R × Option R)}

/-- While the most recently entered guard is always dropped first, the guards are nested. -/
theorem nested_of_restrict
    (hrun : (system.restrict dropsNewest).Run (Context.new before) trace context) :
    Nested before context := by
  refine hrun.preserves (Nested before) (Nested.new before) ?_
  intro context last op output hnested hstep
  obtain ⟨hnewest, hstep⟩ := System.restrict_step.mp hstep
  exact hnested.move (step_move hstep) hnewest

/-- The current runtime follows the guards along exactly the runs in which every dropped guard
restores what the others call for. -/
theorem follows_iff_restores (hrun : system.Run (Context.new before) trace context) :
    system.Always (Context.new before) trace (fun _ context => Follows before context) ↔
      (system.restrict (restores before)).Run (Context.new before) trace context := by
  refine hrun.always_iff_restrict rfl ?_
  intro trace middle last op output hmiddle hstep
  have hfollows : Follows before middle := by
    refine hmiddle.preserves (Follows before) rfl ?_
    intro context last op output hfollows hguarded
    obtain ⟨hrestores, hstep⟩ := System.restrict_step.mp hguarded
    exact (hfollows.move (step_move hstep)).mpr hrestores
  exact hfollows.move (step_move hstep)

/-- Where no runtime is entered twice, the runtime follows the guards only if the most recently
entered one is always dropped first. -/
theorem newest_of_follows (hrun : system.Run (Context.new before) trace context)
    (hdistinct : system.Always (Context.new before) trace fun _ context => Distinct before context)
    (hfollows : system.Always (Context.new before) trace fun _ context => Follows before context) :
    (system.restrict dropsNewest).Run (Context.new before) trace context := by
  induction hrun with
  | refl => exact .refl
  | @snoc trace middle last op output hprefix hstep ih =>
      rw [System.always_snoc hprefix hstep] at hdistinct hfollows
      have hguarded := ih hdistinct.1 hfollows.1
      have hnested := nested_of_restrict hguarded
      have hmove := step_move hstep
      have hrestores := (hnested.follows.move hmove).mp hfollows.2
      have hmiddle := hdistinct.1 trace [] middle (by simp) hprefix
      rw [System.Run.restrict_snoc_iff hprefix hstep]
      exact ⟨hguarded, hnested.newest_of_restores hmiddle hrestores hmove⟩

theorem follows_of_newest
    (hrun : (system.restrict dropsNewest).Run (Context.new before) trace context) :
    system.Always (Context.new before) trace fun _ context => Follows before context := by
  intro front back middle htrace hfront
  rw [htrace] at hrun
  obtain ⟨state, hstate, -⟩ := hrun.split
  rw [hfront.unique hstate.of_restrict]
  exact (nested_of_restrict hstate).follows

/-- At every moment of a run the current runtime is the one of the most recently entered guard
alive, or what it was before the first `enter`, exactly if every guard that was dropped
restores what the others call for.  It is enough that the most recently entered guard is
always dropped first, and where no runtime is entered twice nothing else is. -/
theorem current_follows_guards (hrun : system.Run (Context.new before) trace context) :
    (system.Always (Context.new before) trace (fun _ context => Follows before context) ↔
      (system.restrict (restores before)).Run (Context.new before) trace context) ∧
    ((system.restrict dropsNewest).Run (Context.new before) trace context →
      system.Always (Context.new before) trace fun _ context => Follows before context) ∧
    (system.Always (Context.new before) trace (fun _ context => Distinct before context) →
      system.Always (Context.new before) trace (fun _ context => Follows before context) →
      (system.restrict dropsNewest).Run (Context.new before) trace context) :=
  ⟨follows_iff_restores hrun, follows_of_newest, newest_of_follows hrun⟩

end Runs

/-- A guard around a whole call of `block_on`. -/
theorem current_follows_guards_blockOn :
    ∃ trace context, system.Run (Context.new none) trace context ∧ context.guards = [] ∧
      system.Always (Context.new (none : Option Nat)) trace
        fun _ context => Follows none context := by
  have hcheck : ((system.restrict dropsNewest).exec (Context.new (none : Option Nat))
      [.enter 0 7, .blockOn 1 8, .current, .leave, .unwrapCurrent, .dropGuard 0]).any
        (fun result => decide (result.2.guards = [])) = true := by decide
  obtain ⟨trace, context, hrun, hpass⟩ := System.exec_check hcheck
  have hguards : context.guards = [] := by simpa using hpass
  obtain ⟨-, hnewest, -⟩ := current_follows_guards hrun.of_restrict
  exact ⟨trace, context, hrun.of_restrict, hguards, hnewest hrun⟩

/-- Two guards that are dropped in the order in which they were entered leave the first
runtime behind. -/
theorem stale_runtime_left :
    ∃ trace context, system.Run (Context.new (none : Option Nat)) trace context ∧
      context.guards = [] ∧ context.runtime = some 7 ∧
      ¬ system.Always (Context.new none) trace fun _ context => Follows none context := by
  have hcheck : (system.exec (Context.new (none : Option Nat))
      [.enter 0 7, .enter 1 8, .dropGuard 0, .dropGuard 1]).any
        (fun result => decide (result.2.guards = [] ∧ result.2.runtime = some 7)) = true := by
    decide
  obtain ⟨trace, context, hrun, hpass⟩ := System.exec_check hcheck
  obtain ⟨hguards, hruntime⟩ := of_decide_eq_true hpass
  refine ⟨trace, context, hrun, hguards, hruntime, ?_⟩
  intro halways
  have hfollows : Follows none context := halways trace [] context (by simp) hrun
  rw [Follows, hguards, hruntime] at hfollows
  cases hfollows

end Context

end Platoon.Runtime
