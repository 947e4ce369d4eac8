import Platoon.Runtime.Ownership
import Platoon.Runtime.ExecutorRuns
import Platoon.Runtime.Loops

/-!
# Runs of a runtime with its references

A task holds the executor, the executor holds the clock and what is queued, and
the clock holds the reactor, as long as they live.  So a task whose last
reference is in the queue, in an alarm or in a source holds itself.
-/

namespace Platoon.Runtime.Ownership

open Platoon.Foundation Platoon.Rust

variable {V : Type}

/-- The steps: of the executor, of the parker, or of clients. -/
inductive Move (ownership : Ownership V) :
    Op V → Ownership V → List (Observation V) → Prop where
  | run {op : Executor.Op V} {executor : Executor V} {heap : Heap Node Place}
      {events : List (Observation V)} (hallowed : allowed ownership.heap op = true)
      (hexecutor : ownership.executor.step op = .next executor events)
      (hexec : ownership.heap.exec (stepRefs ownership.executor op) = some heap) :
      Move ownership (.run op) { executor, heap } events
  | park {alarms sources : List Waker} {executor : Executor V} {heap : Heap Node Place}
      {events : List (Observation V)}
      (hexecutor : ownership.executor.step (.parkReturns (some (alarms ++ sources))) =
        .next executor events)
      (hexec : ownership.heap.exec (parkRefs alarms sources) = some heap) :
      Move ownership (.park alarms sources) { executor, heap } events
  | clone {node : Node} {heap : Heap Node Place}
      (hheap : ownership.heap.step (.clone ⟨none, .client, node⟩) = some heap) :
      Move ownership (.clone node) { ownership with heap } []
  | alloc {name : Nat} {heap : Heap Node Place}
      (hheap : ownership.heap.step (.alloc ⟨none, .client, .client name⟩) = some heap) :
      Move ownership (.alloc name) { ownership with heap } []
  | move {ref : Ref Node Place} {holder : Option Node} {place : Place} {heap : Heap Node Place}
      (hfrom : clients ref.holder ref.place ref.target = true)
      (hto : clients holder place ref.target = true)
      (hheap : ownership.heap.step (.move ref holder place) = some heap) :
      Move ownership (.move ref holder place) { ownership with heap } []
  | discard {place : Place} {node : Node} {heap : Heap Node Place}
      (hplace : place ≠ .frame ∧ place ≠ .waking)
      (hheap : ownership.heap.step (.discard ⟨none, place, node⟩) = some heap) :
      Move ownership (.discard place node) { ownership with heap } []

section Steps

variable {ownership last : Ownership V} {op : Op V} {events : List (Observation V)}

theorem useRefs_eq_next {refs : List (Heap.Op Node Place)} {executor : Executor V}
    {observed : List (Observation V)} :
    ownership.useRefs refs executor observed = .next last events ↔
      ∃ heap, ownership.heap.exec refs = some heap ∧ last = { executor, heap } ∧
        events = observed := by
  unfold useRefs
  cases ownership.heap.exec refs with
  | none => simp
  | some heap => simp [eq_comm]

theorem clientRefs_eq_next {ref : Heap.Op Node Place} :
    ownership.clientRefs ref = .next last events ↔
      ownership.executor.userRuns = true ∧ ∃ heap, ownership.heap.step ref = some heap ∧
        last = { ownership with heap } ∧ events = [] := by
  simp only [clientRefs, Outcome.when_eq_next, useRefs_eq_next, Heap.exec_singleton]

/-- Every step is one of the list. -/
theorem step_move (hstep : ownership.step op = .next last events) :
    Move ownership op last events := by
  cases op with
  | run op =>
      simp only [step, Outcome.when_eq_next, Outcome.andThen_eq_next, useRefs_eq_next] at hstep
      obtain ⟨hallowed, executor, observed, hstep, heap, hexec, rfl, rfl⟩ := hstep
      exact .run hallowed hstep hexec
  | park alarms sources =>
      simp only [step, Outcome.andThen_eq_next, useRefs_eq_next] at hstep
      obtain ⟨executor, observed, hstep, heap, hexec, rfl, rfl⟩ := hstep
      exact .park hstep hexec
  | clone node =>
      simp only [step, Outcome.when_eq_next, clientRefs_eq_next] at hstep
      obtain ⟨-, -, heap, hstep, rfl, rfl⟩ := hstep
      exact .clone hstep
  | alloc name =>
      simp only [step, clientRefs_eq_next] at hstep
      obtain ⟨-, heap, hstep, rfl, rfl⟩ := hstep
      exact .alloc hstep
  | move ref holder place =>
      simp only [step, Outcome.when_eq_next, Bool.and_eq_true, clientRefs_eq_next] at hstep
      obtain ⟨⟨hfrom, hto⟩, -, heap, hstep, rfl, rfl⟩ := hstep
      exact .move hfrom hto hstep
  | discard place node =>
      simp only [step, Outcome.when_eq_next, Bool.and_eq_true, decide_eq_true_eq,
        clientRefs_eq_next] at hstep
      obtain ⟨hplace, -, heap, hstep, rfl, rfl⟩ := hstep
      exact .discard hplace hstep

theorem counted_new : (new : Ownership V).heap.Counted := by
  constructor
  · intro node
    cases node <;> simp [new]
  · simp [new, Heap.holds]

/-- The step of the executor that a step is, if it is one. -/
def executorEvent :
    Op V × List (Observation V) → Option (Executor.Op V × List (Observation V))
  | (.run op, events) => some (op, events)
  | (.park alarms sources, events) => some (.parkReturns (some (alarms ++ sources)), events)
  | _ => none

/-- A run of the runtime is one of its executor. -/
theorem run_executor {trace : List (Op V × List (Observation V))}
    (hrun : system.Run new trace ownership) :
    Executor.system.Run .new (trace.filterMap executorEvent) ownership.executor := by
  refine hrun.invariant (fun trace ownership =>
    Executor.system.Run .new (trace.filterMap executorEvent) ownership.executor) .refl ?_
  intro trace middle last op events _ ih hstep
  rw [List.filterMap_append]
  cases step_move hstep with
  | run hallowed hexecutor hexec => exact ih.snoc hexecutor
  | park hexecutor hexec => exact ih.snoc hexecutor
  | _ => exact (List.append_nil (trace.filterMap executorEvent)).symm ▸ ih

end Steps

section Sparing

variable {executor : Executor V} {node target : Node} {place : Place} {ref : Heap.Op Node Place}

theorem spares_wakeRefs {waker : Waker} (hmem : ref ∈ wakeRefs executor waker) :
    ref.spares node place target = true := by
  unfold wakeRefs at hmem
  split at hmem
  · split at hmem
    · rw [List.mem_singleton.mp hmem]
      rfl
    · cases hmem
  · cases hmem

theorem spares_takenRefs {waker : Waker} (hmem : ref ∈ takenRefs executor waker) :
    ref.spares node place target = true := by
  rcases List.mem_append.mp hmem with hwake | hdiscard
  · exact spares_wakeRefs hwake
  · rw [List.mem_singleton.mp hdiscard]
    simp [Heap.Op.spares]

theorem spares_runEnds {task : Nat} (hmem : ref ∈ runEnds task) :
    ref.spares node place target = true := by
  simp only [runEnds, List.mem_cons, List.not_mem_nil, or_false, or_self] at hmem
  subst hmem
  simp [Heap.Op.spares]

theorem spares_runRefs {task : Nat} {repr : TaskRepr V}
    (hother : place ≠ .queue ∨ target ≠ .task task) (hmem : ref ∈ runRefs task repr) :
    ref.spares node place target = true := by
  rcases List.mem_append.mp hmem with hhead | htail
  · simp only [List.mem_cons, List.not_mem_nil, or_false] at hhead
    rcases hhead with rfl | rfl
    · simp only [Heap.Op.spares, ne_eq, Ref.mk.injEq, decide_eq_true_eq]
      rintro ⟨-, rfl, rfl⟩
      simp at hother
    · rfl
  · split at htail
    · cases htail
    · exact spares_runEnds htail

theorem spares_completeRefs {task : Nat} {repr : TaskRepr V} (hplace : place ≠ .awaiter)
    (hmem : ref ∈ completeRefs executor task repr) : ref.spares node place target = true := by
  unfold completeRefs at hmem
  split at hmem
  · rcases List.mem_cons.mp hmem with rfl | hrest
    · simp [Heap.Op.spares, hplace.symm]
    · rcases List.mem_append.mp hrest with htaken | hends
      · exact spares_takenRefs htaken
      · exact spares_runEnds hends
  · exact spares_runEnds hmem

theorem spares_pollOutputRefs {task : Nat} {repr : TaskRepr V} {waker : Waker}
    (hplace : place ≠ .client) (hmem : ref ∈ pollOutputRefs task repr waker) :
    ref.spares node place target = true := by
  unfold pollOutputRefs at hmem
  split at hmem
  · rw [List.mem_singleton.mp hmem]
    simp [Heap.Op.spares, hplace.symm]
  · cases hmem
  · simp only [List.mem_cons, List.not_mem_nil, or_false] at hmem
    rcases hmem with rfl | rfl <;> rfl

theorem spares_storeRefs {task : Nat} {repr : TaskRepr V} {waker : Waker}
    (hplace : place ≠ .awaiter) (hmem : ref ∈ storeRefs task repr waker) :
    ref.spares node place target = true := by
  rcases List.mem_cons.mp hmem with rfl | hold
  · simp [Heap.Op.spares]
  · split at hold
    · rw [List.mem_singleton.mp hold]
      simp [Heap.Op.spares, hplace.symm]
    · cases hold

theorem spares_cancelRefs {task : Nat} {repr : TaskRepr V} (hplace : place ≠ .client)
    (hmem : ref ∈ cancelRefs task repr) : ref.spares node place target = true := by
  rcases List.mem_cons.mp hmem with rfl | hrest
  · simp [Heap.Op.spares]
  · split at hrest <;>
      simp only [List.mem_cons, List.not_mem_nil, or_false] at hrest
    · rcases hrest with rfl | rfl
      · simp [Heap.Op.spares, hplace.symm]
      · simp [Heap.Op.spares]
    · subst hrest
      simp [Heap.Op.spares]
    · subst hrest
      simp [Heap.Op.spares, hplace.symm]

/-- Apart from the references of popped tasks, the executor touches neither its queue nor what
is in the fields of others. -/
theorem spares_stepRefs {op : Executor.Op V} (hplace : place ≠ .awaiter ∧ place ≠ .client)
    (hpopped : ∀ task ∈ Executor.popped executor op [], place ≠ .queue ∨ target ≠ .task task)
    (hspawn : ∀ task, op = .spawn task → node ≠ .task task)
    (hmem : ref ∈ stepRefs executor op) : ref.spares node place target = true := by
  cases op with
  | advance =>
      simp only [stepRefs, advanceRefs] at hmem
      split at hmem
      · rename_i hstack
        split at hmem
        · cases hmem
        · rename_i hqueue
          split at hmem
          · cases hmem
          · refine spares_runRefs (hpopped _ ?_) hmem
            simp [Executor.popped, hstack, hqueue]
      · exact spares_takenRefs hmem
      · rw [List.mem_singleton.mp hmem]
        simp [Heap.Op.spares]
      · split at hmem
        · cases hmem
        · exact spares_completeRefs hplace.1 hmem
      · rw [List.mem_singleton.mp hmem]
        simp [Heap.Op.spares]
      · rename_i task waker _ _
        cases htask : executor.tasks task with
        | none => simp [htask] at hmem
        | some repr =>
            rw [htask] at hmem
            exact spares_storeRefs hplace.1 hmem
      · rw [List.mem_singleton.mp hmem]
        simp [Heap.Op.spares]
      · cases hmem
  | parkReturns result => cases hmem
  | ret result =>
      simp only [stepRefs, retRefs] at hmem
      split at hmem
      · rw [List.mem_singleton.mp hmem]
        simp [Heap.Op.spares, hplace.2.symm]
      · exact spares_runEnds hmem
      · cases hmem
  | blockOn =>
      rw [List.mem_singleton.mp hmem]
      rfl
  | spawn task =>
      have hnode := hspawn task rfl
      simp only [stepRefs, spawnRefs, List.mem_cons, List.not_mem_nil, or_false] at hmem
      rcases hmem with rfl | rfl | rfl | rfl
      · rfl
      · simp [Heap.Op.spares, hnode.symm]
      · simp [Heap.Op.spares]
      · rfl
  | wake waker => exact spares_wakeRefs hmem
  | pollOutput task waker =>
      simp only [stepRefs] at hmem
      cases htask : executor.tasks task with
      | none => simp [htask] at hmem
      | some repr =>
          rw [htask] at hmem
          exact spares_pollOutputRefs hplace.2 hmem
  | cancel task =>
      simp only [stepRefs] at hmem
      cases htask : executor.tasks task with
      | none => simp [htask] at hmem
      | some repr =>
          rw [htask] at hmem
          exact spares_cancelRefs hplace.2 hmem
  | dropHandle task =>
      rw [List.mem_singleton.mp hmem]
      simp [Heap.Op.spares]

theorem spares_parkRefs {alarms sources : List Waker} (hplace : place ≠ .alarm ∧ place ≠ .source)
    (hmem : ref ∈ parkRefs alarms sources) : ref.spares node place target = true := by
  rcases List.mem_append.mp hmem with halarm | hsource
  · obtain ⟨waker, -, rfl⟩ := List.mem_map.mp halarm
    simp [Heap.Op.spares, hplace.1.symm]
  · obtain ⟨waker, -, rfl⟩ := List.mem_map.mp hsource
    simp [Heap.Op.spares, hplace.2.symm]

end Sparing

section Queue

variable {executor last : Executor V} {task : Nat}

/-- A task that waking pushes on the queue is referred to from there. -/
theorem clone_of_wake {waker : Waker} (hmem : task ∈ (executor.wake waker).queue) :
    task ∈ executor.queue ∨
      .clone ⟨some .executor, .queue, .task task⟩ ∈ wakeRefs executor waker := by
  cases waker with
  | task woken =>
      cases hwoken : executor.tasks woken with
      | none =>
          left
          simpa [Executor.wake, hwoken] using hmem
      | some repr =>
          cases hstate : repr.state with
          | idle =>
              rw [Executor.wake, hwoken] at hmem
              simp only [hstate, List.mem_append, List.mem_singleton] at hmem
              refine hmem.imp_right ?_
              rintro rfl
              obtain ⟨awaiter, state, payload, borrow, handle⟩ := repr
              subst hstate
              simp [wakeRefs, hwoken]
          | _ =>
              left
              simpa [Executor.wake, hwoken, hstate] using hmem
  | _ =>
      left
      exact hmem

/-- Only the state of a task decides whether waking pushes it. -/
theorem wakeRefs_set {repr repr' : TaskRepr V} {waker : Waker} {ref : Heap.Op Node Place}
    (hmem : ref ∈ wakeRefs (last.set task repr) waker) (hstate : repr.state = repr'.state)
    (htasks : last.tasks = executor.tasks) :
    ref ∈ wakeRefs (executor.set task repr') waker := by
  cases waker with
  | task woken =>
      simp only [wakeRefs, Executor.set, htasks] at hmem ⊢
      by_cases hsame : woken = task
      · obtain ⟨awaiter, state, payload, borrow, handle⟩ := repr
        obtain ⟨awaiter', state', payload', borrow', handle'⟩ := repr'
        cases hstate
        simp only [hsame, Function.update_self] at hmem ⊢
        cases state with
        | idle => exact hmem
        | _ => cases hmem
      · simpa only [Function.update_of_ne hsame] using hmem
  | _ => cases hmem

/-- What is queued after a step was queued before and is not popped, or has been pushed. -/
theorem queued_of_step {op : Executor.Op V} {events : List (Observation V)}
    (hnodup : executor.queue.Nodup) (hstep : executor.step op = .next last events)
    (hmem : task ∈ last.queue) :
    task ∉ Executor.popped executor op [] ∧ (task ∈ executor.queue ∨
      .clone ⟨some .executor, .queue, .task task⟩ ∈ stepRefs executor op) := by
  cases Executor.step_move hstep with
  | loop hstack hgoto =>
      refine ⟨?_, .inl hmem⟩
      cases hgoto with
      | park hqueue => simp [Executor.popped, hqueue]
      | _ => simp [Executor.popped, hstack]
  | run hstack hqueue htask hborrow hpayload =>
      rw [hqueue] at hnodup
      refine ⟨?_, .inl (hqueue ▸ List.mem_cons_of_mem _ hmem)⟩
      rintro hpopped
      simp only [Executor.popped, hstack, hqueue, List.mem_singleton] at hpopped
      exact (List.nodup_cons.mp hnodup).1 (hpopped ▸ hmem)
  | skip hstack hqueue htask hborrow hpayload =>
      rw [hqueue] at hnodup
      refine ⟨?_, .inl (hqueue ▸ List.mem_cons_of_mem _ hmem)⟩
      rintro hpopped
      simp only [Executor.popped, hstack, hqueue, List.mem_singleton] at hpopped
      exact (List.nodup_cons.mp hnodup).1 (hpopped ▸ hmem)
  | handed hstack =>
      refine ⟨by simp [Executor.popped, hstack], ?_⟩
      refine (clone_of_wake hmem).imp_right fun hclone => ?_
      simp only [stepRefs, advanceRefs, hstack]
      exact List.mem_append_left _ hclone
  | complete hstack htask =>
      refine ⟨by simp [Executor.popped, hstack], ?_⟩
      simp only [Executor.complete] at hmem
      split at hmem
      · rename_i waker hawaiter
        refine (clone_of_wake hmem).imp_right fun hclone => ?_
        simp only [stepRefs, advanceRefs, hstack, htask, completeRefs, hawaiter]
        refine List.mem_cons_of_mem _ (List.mem_append_left _ (List.mem_append_left _ ?_))
        exact wakeRefs_set hclone rfl rfl
      · exact .inl hmem
  | spawn huser htask =>
      refine ⟨by simp [Executor.popped], ?_⟩
      refine (List.mem_append.mp hmem).imp_right fun hnew => ?_
      rw [List.mem_singleton.mp hnew]
      simp [stepRefs, spawnRefs]
  | wake huser =>
      refine ⟨by simp [Executor.popped], ?_⟩
      exact clone_of_wake hmem
  | leave hstack => exact ⟨by simp [Executor.popped, hstack], .inl hmem⟩
  | endCancel hstack htask => exact ⟨by simp [Executor.popped, hstack], .inl hmem⟩
  | store hstack htask => exact ⟨by simp [Executor.popped, hstack], .inl hmem⟩
  | endJoin hstack htask => exact ⟨by simp [Executor.popped, hstack], .inl hmem⟩
  | _ => exact ⟨by simp [Executor.popped], .inl hmem⟩

end Queue

/-- Who holds whom for as long as it lives. -/
structure Wired (ownership : Ownership V) : Prop where
  counted : ownership.heap.Counted
  reactor : ownership.heap.Keeps .clock .field .reactor
  clock : ownership.heap.Keeps .executor .field .clock
  executor : ∀ task, ownership.heap.Keeps (.task task) .field .executor
  queue : ∀ task ∈ ownership.executor.queue,
    ownership.heap.Keeps .executor .queue (.task task)

namespace Wired

variable {ownership last : Ownership V} {op : Op V} {events : List (Observation V)}
  {heap : Heap Node Place}

theorem new : Wired (new : Ownership V) := by
  constructor
  · exact counted_new
  · intro _
    simp [Ownership.new]
  · intro _
    simp [Ownership.new]
  · intro task hlives
    simp [Ownership.new] at hlives
  · intro task hmem
    cases hmem

/-- Clients touch neither fields nor the queue. -/
theorem client (hwired : Wired ownership) {ref : Heap.Op Node Place}
    (hspares : ∀ node place target, (∀ name, node ≠ .client name) →
      place = .field ∨ place = .queue → ref.spares node place target = true)
    (hheap : ownership.heap.step ref = some heap) : Wired { ownership with heap } := by
  constructor
  · exact hwired.counted.step hheap
  · exact hwired.reactor.step (hspares _ _ _ (by simp) (.inl rfl)) hheap
  · exact hwired.clock.step (hspares _ _ _ (by simp) (.inl rfl)) hheap
  · intro task
    exact (hwired.executor task).step (hspares _ _ _ (by simp) (.inl rfl)) hheap
  · intro task hmem
    exact (hwired.queue task hmem).step (hspares _ _ _ (by simp) (.inr rfl)) hheap

theorem run (hwired : Wired ownership) (hnodup : ownership.executor.queue.Nodup)
    {op : Executor.Op V} {executor : Executor V}
    (hexecutor : ownership.executor.step op = .next executor events)
    (hexec : ownership.heap.exec (stepRefs ownership.executor op) = some heap) :
    Wired { executor, heap } := by
  have hfield : ∀ {node target}, (∀ task, op = .spawn task → node ≠ .task task) →
      ownership.heap.Keeps node .field target → heap.Keeps node .field target := by
    intro node target hspawn hkeeps
    refine hkeeps.exec (fun ref hmem => ?_) hexec
    exact spares_stepRefs (by decide) (fun _ _ => .inl (by decide)) hspawn hmem
  constructor
  · exact hwired.counted.exec hexec
  · exact hfield (by simp) hwired.reactor
  · exact hfield (by simp) hwired.clock
  · intro task
    by_cases hspawn : op = .spawn task
    · subst hspawn
      refine Heap.keeps_of_puts [_, _] [_] hexec ?_ ?_
      · simp [Heap.Op.puts]
      · simp [Heap.Op.spares]
    · refine hfield ?_ (hwired.executor task)
      rintro other hother hsame
      cases hsame
      exact hspawn hother
  · intro task hmem
    obtain ⟨hnot, hqueued⟩ := queued_of_step hnodup hexecutor hmem
    have hspares : ∀ ref ∈ stepRefs ownership.executor op,
        ref.spares .executor .queue (.task task) = true := by
      intro ref href
      refine spares_stepRefs (by decide) (fun other hother => .inr ?_) (by simp) href
      rintro hsame
      cases hsame
      exact hnot hother
    rcases hqueued with hbefore | hpushed
    · exact (hwired.queue task hbefore).exec hspares hexec
    · obtain ⟨front, back, hsplit⟩ := List.append_of_mem hpushed
      rw [hsplit] at hexec hspares
      refine Heap.keeps_of_puts _ _ hexec (by simp [Heap.Op.puts]) fun ref href => ?_
      exact hspares ref (List.mem_append_right _ (List.mem_cons_of_mem _ href))

theorem park (hwired : Wired ownership) (hnodup : ownership.executor.queue.Nodup)
    {alarms sources : List Waker} {executor : Executor V}
    (hexecutor : ownership.executor.step (.parkReturns (some (alarms ++ sources))) =
      .next executor events)
    (hexec : ownership.heap.exec (parkRefs alarms sources) = some heap) :
    Wired { executor, heap } := by
  constructor
  · exact hwired.counted.exec hexec
  · exact hwired.reactor.exec (fun _ hmem => spares_parkRefs (by decide) hmem) hexec
  · exact hwired.clock.exec (fun _ hmem => spares_parkRefs (by decide) hmem) hexec
  · intro task
    exact (hwired.executor task).exec (fun _ hmem => spares_parkRefs (by decide) hmem) hexec
  · intro task hmem
    obtain ⟨-, hqueued⟩ := queued_of_step hnodup hexecutor hmem
    have hbefore : task ∈ ownership.executor.queue := by simpa [stepRefs] using hqueued
    exact (hwired.queue task hbefore).exec
      (fun _ hmem => spares_parkRefs (by decide) hmem) hexec

theorem step (hwired : Wired ownership) (hnodup : ownership.executor.queue.Nodup)
    (hstep : ownership.step op = .next last events) : Wired last := by
  cases step_move hstep with
  | run hallowed hexecutor hexec => exact hwired.run hnodup hexecutor hexec
  | park hexecutor hexec => exact hwired.park hnodup hexecutor hexec
  | clone hheap => exact hwired.client (fun _ _ _ _ _ => rfl) hheap
  | alloc hheap =>
      refine hwired.client (fun node place target hnode _ => ?_) hheap
      simp [Heap.Op.spares, (hnode _).symm]
  | @move ref holder place heap hfrom hto hheap =>
      refine hwired.client (fun node place' target _ hplace => ?_) hheap
      simp only [Heap.Op.spares, decide_eq_true_eq]
      rintro rfl
      rcases hplace with rfl | rfl
      · cases node <;> cases hfrom
      · cases node <;> cases hfrom
  | discard hplace hheap =>
      refine hwired.client (fun node place target _ _ => ?_) hheap
      simp [Heap.Op.spares]

/-- After every run. -/
theorem of_run {trace : List (Op V × List (Observation V))}
    (hrun : system.Run Ownership.new trace ownership) : Wired ownership := by
  refine hrun.invariant (fun _ ownership => Wired ownership) new ?_
  intro trace middle last op events hprefix hwired hstep
  exact hwired.step (Executor.queue_nodup (Executor.run_tracks (run_executor hprefix))) hstep

/-- A task that lives holds all three allocations of the runtime. -/
theorem owns_of_lives (hwired : Wired ownership) {task : Nat}
    (hlives : 0 < ownership.heap.strong (.task task)) :
    ownership.heap.Owns (.task task) .executor ∧ ownership.heap.Owns .executor .clock ∧
      ownership.heap.Owns .clock .reactor := by
  have hexecutor := hwired.executor task hlives
  have hclock := hwired.clock (hwired.counted.strong_pos hexecutor)
  have hreactor := hwired.reactor (hwired.counted.strong_pos hclock)
  exact ⟨⟨.field, hexecutor⟩, ⟨.field, hclock⟩, ⟨.field, hreactor⟩⟩

/-- A task that is queued, or whose waker the clock or the reactor stores, holds itself. -/
theorem cyclic_of_stored (hwired : Wired ownership) {task : Nat}
    (hlives : 0 < ownership.heap.strong (.task task))
    (hstored : task ∈ ownership.executor.queue ∨
      ownership.heap.Owns .clock (.task task) ∨ ownership.heap.Owns .reactor (.task task)) :
    ownership.heap.Cyclic (.task task) := by
  obtain ⟨hexecutor, hclock, hreactor⟩ := hwired.owns_of_lives hlives
  refine ⟨.task task, ?_, .refl⟩
  rcases hstored with hqueued | halarm | hsource
  · have hqueue : ownership.heap.Owns .executor (.task task) := by
      obtain ⟨place, hheld⟩ := hexecutor
      exact ⟨.queue, hwired.queue task hqueued (hwired.counted.strong_pos hheld)⟩
    exact .tail (.single hexecutor) hqueue
  · exact .tail (.tail (.single hexecutor) hclock) halarm
  · exact .tail (.tail (.tail (.single hexecutor) hclock) hreactor) hsource

end Wired

section Leaks

variable {ownership last : Ownership V} {trace drops : List (Op V × List (Observation V))}

/-- Clients drop their values, and nothing else happens. -/
def dropsOnly (_ : Ownership V) : Op V → Bool
  | .discard _ _ | .run (.dropHandle _) => true
  | _ => false

theorem drops_of_run (hdrops : (system.restrict dropsOnly).Run ownership drops last) :
    ownership.heap.Drops last.heap := by
  refine hdrops.invariant (fun _ last => ownership.heap.Drops last.heap) (.refl _) ?_
  intro drops middle last op events _ hheap hstep
  obtain ⟨hop, hstep⟩ := System.restrict_step.mp hstep
  cases step_move hstep with
  | @run op executor heap events hallowed hexecutor hexec =>
      cases op with
      | dropHandle task => exact hheap.snoc rfl (Heap.exec_singleton.mp hexec)
      | _ => cases hop
  | discard hplace hdiscard => exact hheap.snoc rfl hdiscard
  | _ => cases hop

/-- Once clients have dropped what is left outside, the tasks that live are those that a cycle
of references held before. -/
theorem dropped_iff_not_cyclic (hrun : system.Run new trace ownership)
    (hdrops : (system.restrict dropsOnly).Run ownership drops last) (henclosed : last.heap.Enclosed)
    (task : Nat) : last.Dropped task ↔ ¬ ownership.heap.Cyclic (.task task) := by
  have hlives : 0 < last.heap.strong (.task task) ↔ ownership.heap.Cyclic (.task task) :=
    Heap.lives_iff_cyclic (Wired.of_run hrun).counted (drops_of_run hdrops) henclosed
  rw [← hlives, Dropped, Nat.pos_iff_ne_zero, not_not]

/-- A task that ran once and waits for nothing is dropped with its handle and the runtime. -/
example :
    ∃ trace ownership, system.Run (new : Ownership Nat) trace ownership ∧
      ownership.Unfinished 0 ∧ ¬ ownership.Dropped 0 ∧ ¬ ownership.heap.Cyclic (.task 0) := by
  have hcheck : (system.exec (new : Ownership Nat)
      [.run (.spawn 0), .run .blockOn, .run .advance, .run (.ret .pending), .run .advance,
        .run (.wake .main), .run (.ret .pending), .run .advance, .run .advance,
        .run (.ret (.ready 7)), .run .advance]).any (fun result =>
      decide (result.2.Unfinished 0) && decide (¬ result.2.Dropped 0) &&
        ((system.restrict dropsOnly).exec result.2
          [.run (.dropHandle 0), .discard .field .executor, .discard .client .executor,
            .discard .field .clock, .discard .client .clock, .discard .field .reactor,
            .discard .client .reactor]).any fun after =>
          decide (after.2.heap.Enclosed) && decide (after.2.Dropped 0)) = true := by decide
  obtain ⟨trace, ownership, hrun, hpass⟩ := System.exec_check hcheck
  simp only [Bool.and_eq_true, decide_eq_true_eq] at hpass
  obtain ⟨⟨hunfinished, hlives⟩, hafter⟩ := hpass
  obtain ⟨drops, last, hdrops, hlast⟩ := System.exec_check hafter
  simp only [Bool.and_eq_true, decide_eq_true_eq] at hlast
  refine ⟨trace, ownership, hrun, hunfinished, hlives, ?_⟩
  exact (dropped_iff_not_cyclic hrun hdrops hlast.1 0).mp hlast.2

/-- Over every run: once clients have dropped what is left outside, the futures of all
unfinished tasks have been dropped exactly if no cycle of references held one of them before;
and a task that is queued, or whose waker the clock or the reactor stores, is held by one. -/
theorem unfinished_dropped (hrun : system.Run (new : Ownership V) trace ownership) :
    (∀ drops last, (system.restrict dropsOnly).Run ownership drops last → last.heap.Enclosed →
      ((∀ task, ownership.Unfinished task → last.Dropped task) ↔
        ∀ task, ownership.Unfinished task → ¬ ownership.heap.Cyclic (.task task))) ∧
    ∀ task, ¬ ownership.Dropped task →
      task ∈ ownership.executor.queue ∨ ownership.heap.Owns .clock (.task task) ∨
        ownership.heap.Owns .reactor (.task task) →
      ownership.heap.Cyclic (.task task) := by
  constructor
  · intro drops last hdrops henclosed
    apply forall_congr'
    intro task
    rw [dropped_iff_not_cyclic hrun hdrops henclosed]
  · intro task hlives hstored
    exact (Wired.of_run hrun).cyclic_of_stored (Nat.pos_of_ne_zero hlives) hstored

/-- A `block_on` whose main future returns at once, with a task that was spawned before. -/
def neverRun : List (Op Nat) :=
  [.run (.spawn 0), .run .blockOn, .run .advance, .run (.ret (.ready 7)), .run .advance]

/-- The handle and the `Runtime` are dropped. -/
def dropRuntime : List (Op Nat) :=
  [.run (.dropHandle 0), .discard .client .executor, .discard .client .clock,
    .discard .client .reactor]

theorem neverRun_run :
    ∃ trace drops ownership last, system.Run (new : Ownership Nat) trace ownership ∧
      (system.restrict dropsOnly).Run ownership drops last ∧ last.heap.Enclosed ∧
      last.executor.stack = [] ∧ .returned 7 ∈ (trace ++ drops).flatMap Prod.snd ∧
      ownership.Unfinished 0 ∧ last.Unfinished 0 ∧ 0 ∈ ownership.executor.queue ∧
      ¬ ownership.Dropped 0 ∧ ¬ last.Dropped 0 := by
  have hcheck : (system.exec (new : Ownership Nat) neverRun).any (fun result =>
      decide (.returned 7 ∈ result.1.flatMap Prod.snd) && decide (result.2.Unfinished 0) &&
        decide (0 ∈ result.2.executor.queue) && decide (¬ result.2.Dropped 0) &&
        ((system.restrict dropsOnly).exec result.2 dropRuntime).any fun after =>
          decide (after.2.heap.Enclosed) && decide (after.2.executor.stack = []) &&
            decide (after.2.Unfinished 0) && decide (¬ after.2.Dropped 0)) = true := by decide
  obtain ⟨trace, ownership, hrun, hpass⟩ := System.exec_check hcheck
  simp only [Bool.and_eq_true, decide_eq_true_eq] at hpass
  obtain ⟨⟨⟨⟨hreturned, hunfinished⟩, hqueued⟩, hlives⟩, hafter⟩ := hpass
  obtain ⟨drops, last, hdrops, hlast⟩ := System.exec_check hafter
  simp only [Bool.and_eq_true, decide_eq_true_eq] at hlast
  obtain ⟨⟨⟨henclosed, hstack⟩, hstill⟩, hleft⟩ := hlast
  refine ⟨trace, drops, ownership, last, hrun, hdrops, henclosed, hstack, ?_, hunfinished,
    hstill, hqueued, hlives, hleft⟩
  rw [List.flatMap_append]
  exact List.mem_append_left _ hreturned

/-- The task is still queued, and holds itself through the executor. -/
theorem unfinished_dropped_neverRun :
    ∃ trace ownership, system.Run (new : Ownership Nat) trace ownership ∧
      ownership.Unfinished 0 ∧ ownership.heap.Cyclic (.task 0) := by
  obtain ⟨trace, drops, ownership, last, hrun, -, -, -, -, hunfinished, -, hqueued, hlives, -⟩ :=
    neverRun_run
  exact ⟨trace, ownership, hrun, hunfinished,
    (unfinished_dropped hrun).2 0 hlives (.inl hqueued)⟩

theorem neverRun_leaks :
    ¬ ∀ {trace : List (Op Nat × List (Observation Nat))} {ownership : Ownership Nat},
      system.Run new trace ownership →
      (∃ value, .returned value ∈ trace.flatMap Prod.snd) → ownership.executor.stack = [] →
      ownership.heap.Enclosed → ∀ task, ownership.Unfinished task → ownership.Dropped task := by
  intro hall
  obtain ⟨trace, drops, ownership, last, hrun, hdrops, henclosed, hstack, hreturned, -, hstill, -,
    -, hleft⟩ := neverRun_run
  exact hleft (hall (hrun.trans hdrops.of_restrict) ⟨7, hreturned⟩ hstack henclosed 0 hstill)

end Leaks

end Platoon.Runtime.Ownership
