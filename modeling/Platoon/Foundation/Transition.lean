import Mathlib.Data.List.Induction
import Mathlib.Tactic.Common

/-!
# Labelled systems that may panic

One attempted step of a system is not available, panics, or reaches a next
state with an output.  A run is a finite sequence of successful steps together
with the trace of its labels and outputs.  The rules below are the only
inductions over runs that the developments above this module perform.
-/

namespace Platoon.Foundation

/-- The result of attempting one labelled step. -/
inductive Outcome (π σ ο : Type) where
  | disabled
  | panic (reason : π)
  | next (state : σ) (output : ο)

namespace Outcome

variable {π σ τ ο : Type}

/-- Run fallible code whose result is the next state with its output. -/
def ofExcept : Except π (σ × ο) → Outcome π σ ο
  | .error reason => .panic reason
  | .ok (state, output) => .next state output

/-- A step that a caller can take only when `guard` holds. -/
def when (guard : Bool) (outcome : Outcome π σ ο) : Outcome π σ ο :=
  if guard then outcome else .disabled

/-- Run the rest of an operation after a part that may be unavailable or panic. -/
def andThen {τ ο' : Type} (outcome : Outcome π σ ο) (rest : σ → ο → Outcome π τ ο') :
    Outcome π τ ο' :=
  match outcome with
  | .disabled => .disabled
  | .panic reason => .panic reason
  | .next state output => rest state output

theorem andThen_eq_next {τ ο' : Type} {outcome : Outcome π σ ο}
    {rest : σ → ο → Outcome π τ ο'} {last : τ} {output : ο'} :
    outcome.andThen rest = .next last output ↔
      ∃ state inner, outcome = .next state inner ∧ rest state inner = .next last output := by
  cases outcome <;> simp [andThen]

theorem andThen_eq_panic {τ ο' : Type} {outcome : Outcome π σ ο}
    {rest : σ → ο → Outcome π τ ο'} {reason : π} :
    outcome.andThen rest = .panic reason ↔ outcome = .panic reason ∨
      ∃ state inner, outcome = .next state inner ∧ rest state inner = .panic reason := by
  cases outcome <;> simp [andThen]

@[simp]
theorem ofExcept_eq_next {result : Except π (σ × ο)} {state : σ} {output : ο} :
    ofExcept result = .next state output ↔ result = .ok (state, output) := by
  cases result with
  | error reason => simp [ofExcept]
  | ok pair => cases pair; simp [ofExcept]

@[simp]
theorem ofExcept_eq_panic {result : Except π (σ × ο)} {reason : π} :
    ofExcept result = .panic reason ↔ result = .error reason := by
  cases result with
  | error other => simp [ofExcept]
  | ok pair => cases pair; simp [ofExcept]

@[simp]
theorem when_eq_next {guard : Bool} {outcome : Outcome π σ ο} {state : σ} {output : ο} :
    when guard outcome = .next state output ↔
      guard = true ∧ outcome = .next state output := by
  cases guard <;> simp [when]

@[simp]
theorem when_eq_panic {guard : Bool} {outcome : Outcome π σ ο} {reason : π} :
    when guard outcome = .panic reason ↔
      guard = true ∧ outcome = .panic reason := by
  cases guard <;> simp [when]

/-- The reason of a panic. -/
def reason? : Outcome π σ ο → Option π
  | .panic reason => some reason
  | _ => none

theorem reason?_eq_some {outcome : Outcome π σ ο} {reason : π} :
    outcome.reason? = some reason ↔ outcome = .panic reason := by
  cases outcome <;> simp [reason?]

/-- Two outcomes of one label that agree up to a relation of the states. -/
inductive Related (rel : σ → τ → Prop) : Outcome π σ ο → Outcome π τ ο → Prop where
  | disabled : Related rel .disabled .disabled
  | panic (reason : π) : Related rel (.panic reason) (.panic reason)
  | next {state : σ} {spec : τ} {output : ο} (hrel : rel state spec) :
      Related rel (.next state output) (.next spec output)

namespace Related

variable {rel : σ → τ → Prop} {low : Outcome π σ ο} {high : Outcome π τ ο}

theorem forward (hrelated : Related rel low high) {state : σ} {output : ο}
    (hlow : low = .next state output) :
    ∃ spec, high = .next spec output ∧ rel state spec := by
  cases hrelated with
  | disabled => cases hlow
  | panic reason => cases hlow
  | next hrel =>
      cases hlow
      exact ⟨_, rfl, hrel⟩

theorem backward (hrelated : Related rel low high) {spec : τ} {output : ο}
    (hhigh : high = .next spec output) :
    ∃ state, low = .next state output ∧ rel state spec := by
  cases hrelated with
  | disabled => cases hhigh
  | panic reason => cases hhigh
  | next hrel =>
      cases hhigh
      exact ⟨_, rfl, hrel⟩

theorem panic_iff (hrelated : Related rel low high) (reason : π) :
    low = .panic reason ↔ high = .panic reason := by
  cases hrelated <;> simp

theorem when {guard : Bool} (hrelated : guard = true → Related rel low high) :
    Related rel (.when guard low) (.when guard high) := by
  cases guard with
  | false => exact .disabled
  | true => exact hrelated rfl

end Related

end Outcome

/-- A deterministic reaction to labels chosen by an environment. -/
structure System (π σ ε ο : Type) where
  step : σ → ε → Outcome π σ ο

namespace System

variable {π σ τ ε ε' ο ο' : Type}

/-- The same system for callers that only take steps allowed by `guard`. -/
def restrict (sys : System π σ ε ο) (guard : σ → ε → Bool) : System π σ ε ο where
  step state label := .when (guard state label) (sys.step state label)

/-- The steps of a restricted system are those that its guard allows. -/
theorem restrict_step {sys : System π σ ε ο} {guard : σ → ε → Bool} {state last : σ}
    {label : ε} {output : ο} :
    (sys.restrict guard).step state label = .next last output ↔
      guard state label = true ∧ sys.step state label = .next last output := by
  rw [restrict, Outcome.when_eq_next]

/-- `Run sys first trace last`: the successful steps in `trace` lead from
`first` to `last`. -/
inductive Run (sys : System π σ ε ο) (first : σ) : List (ε × ο) → σ → Prop where
  | refl : Run sys first [] first
  | snoc {trace : List (ε × ο)} {middle last : σ} {label : ε} {output : ο} :
      Run sys first trace middle → sys.step middle label = .next last output →
      Run sys first (trace ++ [(label, output)]) last

namespace Run

variable {sys : System π σ ε ο}

theorem single {first last : σ} {label : ε} {output : ο}
    (hstep : sys.step first label = .next last output) :
    sys.Run first [(label, output)] last :=
  .snoc .refl hstep

theorem trans {first middle last : σ} {front back : List (ε × ο)}
    (hfront : sys.Run first front middle) (hback : sys.Run middle back last) :
    sys.Run first (front ++ back) last := by
  induction hback with
  | refl => simpa using hfront
  | snoc hprefix hstep ih =>
      rw [← List.append_assoc]
      exact .snoc ih hstep

/-- A run along a concatenated trace passes through a state between the parts. -/
theorem split {first last : σ} {front back : List (ε × ο)}
    (hrun : sys.Run first (front ++ back) last) :
    ∃ middle, sys.Run first front middle ∧ sys.Run middle back last := by
  induction back using List.reverseRecOn generalizing last with
  | nil => exact ⟨last, by simpa using hrun, .refl⟩
  | append_singleton back event ih =>
      rw [← List.append_assoc] at hrun
      generalize hwhole : front ++ back ++ [event] = whole at hrun
      cases hrun with
      | refl => simp at hwhole
      | snoc hprefix hstep =>
          obtain ⟨htrace, hevent⟩ := List.append_inj' hwhole rfl
          cases hevent
          subst htrace
          obtain ⟨middle, hfront, hback⟩ := ih hprefix
          exact ⟨middle, hfront, .snoc hback hstep⟩

/-- A run with no steps stays where it is. -/
theorem run_nil {first last : σ} (hrun : sys.Run first [] last) : last = first := by
  generalize hwhole : ([] : List (ε × ο)) = whole at hrun
  cases hrun with
  | refl => rfl
  | snoc hprefix hstep => simp at hwhole

/-- The last step of a nonempty run. -/
theorem last_step {first last : σ} {trace : List (ε × ο)} {label : ε} {output : ο}
    (hrun : sys.Run first (trace ++ [(label, output)]) last) :
    ∃ middle, sys.Run first trace middle ∧
      sys.step middle label = .next last output := by
  generalize hwhole : trace ++ [(label, output)] = whole at hrun
  cases hrun with
  | refl => simp at hwhole
  | snoc hprefix hstep =>
      obtain ⟨htrace, hevent⟩ := List.append_inj' hwhole rfl
      cases hevent
      subst htrace
      exact ⟨_, hprefix, hstep⟩

/-- The first step of a nonempty run. -/
theorem first_step {first last : σ} {trace : List (ε × ο)} {label : ε} {output : ο}
    (hrun : sys.Run first ((label, output) :: trace) last) :
    ∃ middle, sys.step first label = .next middle output ∧
      sys.Run middle trace last := by
  have hsplit : sys.Run first ([(label, output)] ++ trace) last := hrun
  obtain ⟨middle, hhead, htail⟩ := hsplit.split
  have hnil : sys.Run first ([] ++ [(label, output)]) middle := hhead
  obtain ⟨start, hstart, hstep⟩ := hnil.last_step
  rw [run_nil hstart] at hstep
  exact ⟨middle, hstep, htail⟩

/-- A property of trace and state that every step preserves holds along runs. -/
theorem invariant {first last : σ} {trace : List (ε × ο)}
    (hrun : sys.Run first trace last) (inv : List (ε × ο) → σ → Prop)
    (hinit : inv [] first)
    (hstep : ∀ {trace middle last label output},
      sys.Run first trace middle → inv trace middle →
      sys.step middle label = .next last output →
      inv (trace ++ [(label, output)]) last) : inv trace last := by
  induction hrun with
  | refl => exact hinit
  | snoc hprefix hlast ih => exact hstep hprefix ih hlast

/-- A property of states that every step preserves holds along runs. -/
theorem preserves {first last : σ} {trace : List (ε × ο)}
    (hrun : sys.Run first trace last) (inv : σ → Prop) (hinit : inv first)
    (hstep : ∀ {state last label output}, inv state →
      sys.step state label = .next last output → inv last) : inv last := by
  induction hrun with
  | refl => exact hinit
  | snoc hprefix hlast ih => exact hstep ih hlast

/-- A run whose labels are all allowed is one of the restricted system. -/
theorem restrict_of_labels {allowed : ε → Bool} {first last : σ} {trace : List (ε × ο)}
    (hrun : sys.Run first trace last) (hlabels : ∀ event ∈ trace, allowed event.1 = true) :
    (sys.restrict fun _ label => allowed label).Run first trace last := by
  induction hrun with
  | refl => exact .refl
  | @snoc trace middle last label output hprefix hstep ih =>
      have hearlier := ih fun event hmem => hlabels event (List.mem_append_left _ hmem)
      exact .snoc hearlier (restrict_step.mpr ⟨hlabels (label, output) (by simp), hstep⟩)

/-- Steps of a restricted system are steps of the system itself. -/
theorem of_restrict {guard : σ → ε → Bool} {first last : σ} {trace : List (ε × ο)}
    (hrun : (sys.restrict guard).Run first trace last) :
    sys.Run first trace last := by
  induction hrun with
  | refl => exact .refl
  | snoc hprefix hstep ih =>
      exact .snoc ih (restrict_step.mp hstep).2

end Run

/-- Runs with the same trace reach the same state. -/
theorem Run.unique {sys : System π σ ε ο} {first last last' : σ} {trace : List (ε × ο)}
    (hrun : sys.Run first trace last) (hrun' : sys.Run first trace last') : last = last' := by
  induction hrun generalizing last' with
  | refl => exact hrun'.run_nil.symm
  | snoc hprefix hstep ih =>
      obtain ⟨middle, hmiddle, hstep'⟩ := hrun'.last_step
      rw [← ih hmiddle, hstep] at hstep'
      cases hstep'
      rfl

/-- `prop` holds wherever a run with this trace passes. -/
def Always (sys : System π σ ε ο) (first : σ) (trace : List (ε × ο))
    (prop : List (ε × ο) → σ → Prop) : Prop :=
  ∀ before rest middle, trace = before ++ rest → sys.Run first before middle →
    prop before middle

section Always

variable {sys : System π σ ε ο} {first middle last : σ} {trace : List (ε × ο)}
  {prop : List (ε × ο) → σ → Prop} {label : ε} {output : ο}

theorem always_nil : sys.Always first [] prop ↔ prop [] first := by
  constructor
  · intro hall
    exact hall [] [] first rfl .refl
  · intro hfirst before rest middle htrace hrun
    obtain ⟨rfl, rfl⟩ := List.append_eq_nil_iff.mp htrace.symm
    rw [hrun.run_nil]
    exact hfirst

theorem always_snoc (hrun : sys.Run first trace middle)
    (hstep : sys.step middle label = .next last output) :
    sys.Always first (trace ++ [(label, output)]) prop ↔
      sys.Always first trace prop ∧ prop (trace ++ [(label, output)]) last := by
  constructor
  · intro hall
    constructor
    · intro before rest state htrace hbefore
      exact hall before (rest ++ [(label, output)]) state (by simp [htrace]) hbefore
    · exact hall _ [] last (by simp) (hrun.snoc hstep)
  · rintro ⟨hall, hlast⟩ before rest state htrace hbefore
    rcases List.eq_nil_or_concat rest with rfl | ⟨init, event, rfl⟩
    · rw [List.append_nil] at htrace
      subst htrace
      rwa [← (hrun.snoc hstep).unique hbefore]
    · rw [List.concat_eq_append, ← List.append_assoc] at htrace
      exact hall before init state (List.append_inj' htrace rfl).1 hbefore

/-- The last step of the trace, if there is one, has the property. -/
def LastStep (sys : System π σ ε ο) (first : σ) (prop : σ → ε → σ → Prop)
    (trace : List (ε × ο)) (last : σ) : Prop :=
  ∀ before label output middle, trace = before ++ [(label, output)] →
    sys.Run first before middle → prop middle label last

theorem lastStep_nil {prop : σ → ε → σ → Prop} : sys.LastStep first prop [] last := by
  intro before label output middle htrace hrun
  simp at htrace

theorem lastStep_snoc {prop : σ → ε → σ → Prop} (hrun : sys.Run first trace middle) :
    sys.LastStep first prop (trace ++ [(label, output)]) last ↔ prop middle label last := by
  constructor
  · intro hlast
    exact hlast trace label output middle rfl hrun
  · intro hprop before label' output' middle' htrace hbefore
    obtain ⟨hsame, hevent⟩ := List.append_inj' htrace rfl
    subst hsame
    cases hevent
    rwa [← hrun.unique hbefore]

/-- A run keeps to the guard exactly if it does so before its last step and in it. -/
theorem Run.restrict_snoc_iff {guard : σ → ε → Bool} (hrun : sys.Run first trace middle)
    (hstep : sys.step middle label = .next last output) :
    (sys.restrict guard).Run first (trace ++ [(label, output)]) last ↔
      (sys.restrict guard).Run first trace middle ∧ guard middle label = true := by
  constructor
  · intro hguarded
    obtain ⟨state, hstate, hlast⟩ := hguarded.last_step
    have hsame := hstate.of_restrict.unique hrun
    subst hsame
    exact ⟨hstate, (restrict_step.mp hlast).1⟩
  · rintro ⟨hguarded, hallowed⟩
    exact .snoc hguarded (restrict_step.mpr ⟨hallowed, hstep⟩)

/-- When a step keeps `prop` exactly if its guard holds, `prop` holds everywhere on exactly
the runs that respect the guard. -/
theorem Run.always_iff_restrict {guard : σ → ε → Bool} (hrun : sys.Run first trace last)
    (hinit : prop [] first)
    (hexact : ∀ {trace middle last label output},
      (sys.restrict guard).Run first trace middle → sys.step middle label = .next last output →
      (prop (trace ++ [(label, output)]) last ↔ guard middle label = true)) :
    sys.Always first trace prop ↔ (sys.restrict guard).Run first trace last := by
  induction hrun with
  | refl => exact ⟨fun _ => .refl, fun _ => always_nil.mpr hinit⟩
  | snoc hprefix hstep ih =>
      rw [always_snoc hprefix hstep, hprefix.restrict_snoc_iff hstep, ih]
      exact and_congr_right fun hguarded => hexact hguarded hstep

end Always

/-- The same system keeping a log of what its steps are marked with. -/
def logged {μ : Type} (sys : System π σ ε ο) (mark : σ → ε → ο → List μ) :
    System π (σ × List μ) ε ο where
  step state label :=
    (sys.step state.1 label).andThen fun last output =>
      .next (last, state.2 ++ mark state.1 label output) output

section Logged

variable {μ : Type} {sys : System π σ ε ο} {mark : σ → ε → ο → List μ} {first last : σ}
  {before after : List μ} {trace : List (ε × ο)} {label : ε} {output : ο}

theorem logged_step :
    (sys.logged mark).step (first, before) label = .next (last, after) output ↔
      sys.step first label = .next last output ∧ after = before ++ mark first label output := by
  simp only [logged, Outcome.andThen_eq_next]
  constructor
  · rintro ⟨state, inner, hstep, hnext⟩
    cases hnext
    exact ⟨hstep, rfl⟩
  · rintro ⟨hstep, rfl⟩
    exact ⟨last, output, hstep, rfl⟩

/-- The log does not affect the run. -/
theorem Run.of_logged (hrun : (sys.logged mark).Run (first, before) trace (last, after)) :
    sys.Run first trace last := by
  generalize hstart : (first, before) = start at hrun
  generalize hend : (last, after) = finish at hrun
  induction hrun generalizing last after with
  | refl =>
      cases hstart
      cases hend
      exact .refl
  | @snoc trace middle finish label output hprefix hstep ih =>
      obtain ⟨state, log⟩ := middle
      subst hend
      rw [logged_step] at hstep
      exact .snoc (ih rfl) hstep.1

/-- Every run has a log. -/
theorem Run.logged (hrun : sys.Run first trace last) (before : List μ) :
    ∃ after, (sys.logged mark).Run (first, before) trace (last, after) := by
  induction hrun with
  | refl => exact ⟨before, .refl⟩
  | snoc hprefix hstep ih =>
      obtain ⟨log, hlog⟩ := ih
      exact ⟨_, .snoc hlog (logged_step.mpr ⟨hstep, rfl⟩)⟩

/-- A property of trace, state and log that every step preserves holds along runs. -/
theorem Run.logged_invariant
    (hrun : (sys.logged mark).Run (first, before) trace (last, after))
    (inv : List (ε × ο) → σ → List μ → Prop) (hinit : inv [] first before)
    (hstep : ∀ {trace middle last label output log},
      sys.Run first trace middle → inv trace middle log →
      sys.step middle label = .next last output →
      inv (trace ++ [(label, output)]) last (log ++ mark middle label output)) :
    inv trace last after := by
  refine hrun.invariant (fun trace state => inv trace state.1 state.2) hinit ?_
  rintro trace ⟨middle, log⟩ ⟨last, log'⟩ label output hprefix hinv hlast
  obtain ⟨hbase, rfl⟩ := logged_step.mp hlast
  exact hstep hprefix.of_logged hinv hbase

end Logged

/-- Every step of `low` is matched by a step of `high` whose label and output
are the image of the low ones. -/
def Simulates (low : System π σ ε ο) (high : System π τ ε' ο')
    (image : ε × ο → ε' × ο') (rel : σ → τ → Prop) : Prop :=
  ∀ {state : σ} {spec : τ} {label : ε} {last : σ} {output : ο}, rel state spec →
    low.step state label = .next last output →
    ∃ spec', high.step spec (image (label, output)).1 =
      .next spec' (image (label, output)).2 ∧ rel last spec'

/-- A simulation carries whole runs over, trace by trace. -/
theorem Simulates.run {low : System π σ ε ο} {high : System π τ ε' ο'}
    {image : ε × ο → ε' × ο'} {rel : σ → τ → Prop}
    (hsim : Simulates low high image rel) {first last : σ} {spec : τ}
    {trace : List (ε × ο)} (hrel : rel first spec) (hrun : low.Run first trace last) :
    ∃ spec', high.Run spec (trace.map image) spec' ∧ rel last spec' := by
  induction hrun with
  | refl => exact ⟨spec, .refl, hrel⟩
  | snoc hprefix hstep ih =>
      obtain ⟨middle, hmiddle, hmid⟩ := ih
      obtain ⟨spec', hhigh, hlast⟩ := hsim hmid hstep
      refine ⟨spec', ?_, hlast⟩
      rw [List.map_append]
      exact .snoc hmiddle hhigh

/-- Every step of `low` has the outcome of the same step of `high`. -/
def Refines (low : System π σ ε ο) (high : System π τ ε ο) (rel : σ → τ → Prop) : Prop :=
  ∀ {state : σ} {spec : τ} (label : ε), rel state spec →
    Outcome.Related rel (low.step state label) (high.step spec label)

/-- A refinement carries runs over with the same trace. -/
theorem Refines.run {low : System π σ ε ο} {high : System π τ ε ο} {rel : σ → τ → Prop}
    (hrefines : Refines low high rel) {first last : σ} {spec : τ}
    {trace : List (ε × ο)} (hrel : rel first spec) (hrun : low.Run first trace last) :
    ∃ spec', high.Run spec trace spec' ∧ rel last spec' := by
  induction hrun with
  | refl => exact ⟨spec, .refl, hrel⟩
  | snoc hprefix hstep ih =>
      obtain ⟨middle, hmiddle, hmid⟩ := ih
      obtain ⟨spec', hhigh, hlast⟩ := (hrefines _ hmid).forward hstep
      exact ⟨spec', .snoc hmiddle hhigh, hlast⟩

/-- Execute a list of labels, collecting the trace of a successful run. -/
def exec (sys : System π σ ε ο) (state : σ) : List ε → Option (List (ε × ο) × σ)
  | [] => some ([], state)
  | label :: rest =>
      match sys.step state label with
      | .next middle output =>
          (sys.exec middle rest).map fun (trace, last) => ((label, output) :: trace, last)
      | _ => none

/-- A successful execution is a run. -/
theorem exec_run {sys : System π σ ε ο} {first last : σ} {labels : List ε}
    {trace : List (ε × ο)} (hexec : sys.exec first labels = some (trace, last)) :
    sys.Run first trace last := by
  induction labels generalizing first trace with
  | nil =>
      simp only [exec, Option.some.injEq, Prod.mk.injEq] at hexec
      obtain ⟨rfl, rfl⟩ := hexec
      exact .refl
  | cons label rest ih =>
      simp only [exec] at hexec
      cases hstep : sys.step first label with
      | disabled => simp [hstep] at hexec
      | panic reason => simp [hstep] at hexec
      | next middle output =>
          simp only [hstep, Option.map_eq_some_iff, Prod.mk.injEq, Prod.exists] at hexec
          obtain ⟨tail, final, hrest, rfl, rfl⟩ := hexec
          exact Run.trans (Run.single hstep) (ih hrest)

/-- A computed property of an execution is one of a run. -/
theorem exec_check {sys : System π σ ε ο} {first : σ} {labels : List ε}
    {check : List (ε × ο) × σ → Bool} (hcheck : (sys.exec first labels).any check = true) :
    ∃ trace last, sys.Run first trace last ∧ check (trace, last) = true := by
  cases hexec : sys.exec first labels with
  | none => simp [hexec] at hcheck
  | some result =>
      obtain ⟨trace, last⟩ := result
      rw [hexec] at hcheck
      exact ⟨trace, last, exec_run hexec, hcheck⟩

end System

end Platoon.Foundation
