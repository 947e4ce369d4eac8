import Platoon.Runtime.AssemblyRuns
import Platoon.Runtime.Owed

/-!
# What the tasks share

Tasks share components such as locks and channels.  A component is used wherever the
executor runs code of its clients, and its operations invoke wakers on the spot.
What parks the loop does not matter here: it may hand out any wakers.
-/

namespace Platoon.Runtime

open Platoon.Foundation Platoon.Rust

/-- An executor beside a component of its clients. -/
structure Hosted (V τ : Type) where
  executor : Executor V
  component : τ

namespace Hosted

inductive Op (V ε : Type) where
  | executor (op : Executor.Op V)
  | component (op : ε)

inductive Output (V ο : Type) where
  | executor (events : List (Observation V))
  | component (output : ο)

variable {V τ ε ο : Type}

def new (component : τ) : Hosted V τ where
  executor := .new
  component := component

def step (part : System Panic τ ε ο) (woken : ο → List Waker) (hosted : Hosted V τ) :
    Op V ε → Outcome Panic (Hosted V τ) (Output V ο)
  | .executor op =>
      (Executor.system.step hosted.executor op).andThen fun executor events =>
        .next { hosted with executor } (.executor events)
  | .component op =>
      .when hosted.executor.userRuns <|
        (part.step hosted.component op).andThen fun component output =>
          .next { component, executor := hosted.executor.wakeAll (woken output) }
            (.component output)

/-- One executor whose clients share the component. -/
def system (part : System Panic τ ε ο) (woken : ο → List Waker) :
    System Panic (Hosted V τ) (Op V ε) (Output V ο) where
  step := step part woken

/-- The step of the executor, or the wakes that took place in one of the component. -/
def executorEvents (woken : ο → List Waker) :
    Op V ε × Output V ο → List (Executor.Op V × List (Observation V))
  | (.executor op, .executor events) => [(op, events)]
  | (.component _, .component output) =>
      (woken output).map fun waker => (.wake waker, [.invoked waker])
  | _ => []

def componentEvents : Op V ε × Output V ο → List (ε × ο)
  | (.component op, .component output) => [(op, output)]
  | _ => []

/-- All that the executor showed in a trace. -/
def history (woken : ο → List Waker) (trace : List (Op V ε × Output V ο)) :
    List (Observation V) :=
  Executor.history (trace.flatMap (executorEvents woken))

@[simp]
theorem history_append (woken : ο → List Waker) (before after : List (Op V ε × Output V ο)) :
    history woken (before ++ after) = history woken before ++ history woken after := by
  simp [history, Executor.history]

/-- The uses of the component in a trace. -/
def uses (trace : List (Op V ε × Output V ο)) : List (ε × ο) := trace.flatMap componentEvents

variable {part : System Panic τ ε ο} {woken : ο → List Waker} {hosted last : Hosted V τ}

/-- A step is one of the executor, or one of the component in code of the clients. -/
theorem step_cases {op : Op V ε} {output : Output V ο}
    (hstep : (system part woken).step hosted op = .next last output) :
    (∃ inner events executor, op = .executor inner ∧ output = .executor events ∧
      last = { hosted with executor } ∧
      Executor.system.step hosted.executor inner = .next executor events) ∨
    ∃ inner result component, op = .component inner ∧ output = .component result ∧
      last = { component, executor := hosted.executor.wakeAll (woken result) } ∧
      hosted.executor.userRuns = true ∧
      part.step hosted.component inner = .next component result := by
  cases op with
  | executor inner =>
      simp only [system, step, Outcome.andThen_eq_next, Outcome.next.injEq] at hstep
      obtain ⟨executor, events, hinner, rfl, rfl⟩ := hstep
      exact .inl ⟨inner, events, executor, rfl, rfl, rfl, hinner⟩
  | component inner =>
      simp only [system, step, Outcome.when_eq_next, Outcome.andThen_eq_next,
        Outcome.next.injEq] at hstep
      obtain ⟨huser, component, result, hinner, rfl, rfl⟩ := hstep
      exact .inr ⟨inner, result, component, rfl, rfl, rfl, huser, hinner⟩

/-- A run of the whole is one of its executor. -/
theorem projects_executor :
    System.Projects (system (V := V) part woken) Executor.system Hosted.executor
      (executorEvents woken) := by
  intro hosted last op output hstep
  rcases step_cases hstep with ⟨inner, events, executor, rfl, rfl, rfl, hinner⟩ |
    ⟨inner, result, component, rfl, rfl, rfl, huser, hinner⟩
  · exact .single hinner
  · exact Executor.wakeAll_run huser _

/-- A run of the whole is one of its component. -/
theorem projects_component :
    System.Projects (system (V := V) part woken) part Hosted.component componentEvents := by
  intro hosted last op output hstep
  rcases step_cases hstep with ⟨inner, events, executor, rfl, rfl, rfl, hinner⟩ |
    ⟨inner, result, component, rfl, rfl, rfl, huser, hinner⟩
  · exact .refl
  · exact .single hinner

section Runs

variable {initial : τ} {trace before after : List (Op V ε × Output V ο)} {waker : Waker}

theorem uses_split {op : ε} {output : ο}
    (htrace : trace = before ++ (.component op, .component output) :: after) :
    uses trace = uses before ++ (op, output) :: uses after := by
  subst htrace
  simp [uses, componentEvents]

/-- Nothing that the tasks share woke what is asleep when the loop is about to call `park`. -/
theorem not_woken_of_parks
    (hrun : (system part woken).Run (new initial : Hosted V τ) trace hosted)
    {frames : List (Frame V)} (hparks : hosted.executor.stack = .blockOn .park :: frames)
    (htrace : trace = before ++ after)
    (hasleep : hosted.executor.Asleep (history woken trace) (history woken after) waker) :
    ∀ event ∈ uses after, waker ∉ woken event.2 := by
  rintro event hmem hwoken
  subst htrace
  obtain ⟨middle, hbefore, hafter⟩ := hrun.split
  rw [history, List.flatMap_append] at hasleep
  refine Executor.not_invoked_of_parks (projects_executor.run hbefore)
    (projects_executor.run hafter) hparks hasleep ?_
  obtain ⟨⟨op, output⟩, hstep, hevent⟩ := List.mem_flatMap.mp hmem
  rw [Executor.history, List.mem_flatMap]
  refine ⟨(.wake waker, [.invoked waker]), List.mem_flatMap.mpr ⟨_, hstep, ?_⟩, by simp⟩
  cases op with
  | executor inner => cases output <;> cases hevent
  | component inner =>
      cases output with
      | executor events => cases hevent
      | component result =>
          obtain rfl := List.mem_singleton.mp hevent
          exact List.mem_map_of_mem hwoken

end Runs

end Hosted

end Platoon.Runtime
