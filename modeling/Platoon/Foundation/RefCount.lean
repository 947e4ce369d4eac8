import Mathlib.Data.Set.Finite.List
import Mathlib.Logic.Relation
import Mathlib.Order.WellFounded

/-!
# Reference-counted heaps

A heap has nodes with strong counts, and references to them.  A reference is
held at a place of a node or outside the heap.  When the last reference to a
node is discarded, the node is dropped, and what it held is outside from then
on: with the code that drops its contents.
-/

namespace Platoon.Foundation

/-- A reference to `target`, held at a `place` of a node or outside. -/
structure Ref (ν τ : Type) where
  holder : Option ν
  place : τ
  target : ν
  deriving DecidableEq, Repr

structure Heap (ν τ : Type) where
  refs : List (Ref ν τ)
  strong : ν → Nat

namespace Heap

/-- What code does with references. -/
inductive Op (ν τ : Type) where
  /-- Make a new node and the first reference to it. -/
  | alloc (ref : Ref ν τ)
  | clone (ref : Ref ν τ)
  | move (ref : Ref ν τ) (holder : Option ν) (place : τ)
  /-- Take everything out of a place of a node. -/
  | empty (holder : ν) (place : τ)
  | discard (ref : Ref ν τ)
  deriving DecidableEq, Repr

section Graph

variable {ν τ : Type}

/-- `node` holds a reference to `other`. -/
def Owns (heap : Heap ν τ) (node other : ν) : Prop :=
  ∃ place, ⟨some node, place, other⟩ ∈ heap.refs

/-- Nodes that hold each other hold the node, through others or not. -/
def Cyclic (heap : Heap ν τ) (node : ν) : Prop :=
  ∃ cycle, Relation.TransGen heap.Owns cycle cycle ∧ Relation.ReflTransGen heap.Owns cycle node

/-- No reference is left outside. -/
def Enclosed (heap : Heap ν τ) : Prop := ∀ ref ∈ heap.refs, ref.holder ≠ none

instance (heap : Heap ν τ) : Decidable heap.Enclosed :=
  inferInstanceAs (Decidable (∀ ref ∈ heap.refs, ref.holder ≠ none))

/-- Every node of a set is held by one of the set. -/
def Supports (heap : Heap ν τ) (nodes : Set ν) : Prop :=
  ∀ node ∈ nodes, ∃ holder ∈ nodes, heap.Owns holder node

theorem Cyclic.mono {heap last : Heap ν τ} {node : ν} (hcyclic : last.Cyclic node)
    (howns : ∀ node other, last.Owns node other → heap.Owns node other) : heap.Cyclic node := by
  obtain ⟨cycle, hcycle, hreach⟩ := hcyclic
  exact ⟨cycle, hcycle.lift id howns, hreach.lift id howns⟩

theorem supports_cyclic (heap : Heap ν τ) : heap.Supports {node | heap.Cyclic node} := by
  rintro node ⟨cycle, hcycle, hreach⟩
  rcases hreach.cases_tail with hsame | ⟨holder, hholder, howns⟩
  · obtain ⟨holder, hholder, howns⟩ := Relation.TransGen.tail'_iff.mp hcycle
    exact ⟨holder, ⟨cycle, hcycle, hholder⟩, hsame ▸ howns⟩
  · exact ⟨holder, ⟨cycle, hcycle, hholder⟩, howns⟩

end Graph

variable {ν τ : Type} [DecidableEq ν]

/-- Whether a holder can hold references: a node that has been dropped cannot. -/
def holds (heap : Heap ν τ) : Option ν → Bool
  | none => true
  | some node => decide (0 < heap.strong node)

/-- The references that satisfy `taken` leave their nodes. -/
def takeOut (heap : Heap ν τ) (taken : Ref ν τ → Bool) : Heap ν τ :=
  { heap with
    refs := heap.refs.map fun ref => if taken ref then { ref with holder := none } else ref }

/-- Drop the contents of a node that has no reference left. -/
def reclaim (heap : Heap ν τ) (node : ν) : Heap ν τ :=
  if heap.strong node = 0 then heap.takeOut fun ref => ref.holder = some node else heap

@[simp]
theorem strong_reclaim (heap : Heap ν τ) (node other : ν) :
    (heap.reclaim node).strong other = heap.strong other := by
  unfold reclaim
  split <;> rfl

def step [DecidableEq τ] (heap : Heap ν τ) : Op ν τ → Option (Heap ν τ)
  | .alloc ref =>
      if heap.strong ref.target = 0 ∧ heap.holds ref.holder = true then
        some { refs := ref :: heap.refs, strong := Function.update heap.strong ref.target 1 }
      else none
  | .clone ref =>
      if 0 < heap.strong ref.target ∧ heap.holds ref.holder = true then
        some
          { refs := ref :: heap.refs
            strong := Function.update heap.strong ref.target (heap.strong ref.target + 1) }
      else none
  | .move ref holder place =>
      if ref ∈ heap.refs ∧ heap.holds holder = true then
        some { heap with refs := ⟨holder, place, ref.target⟩ :: heap.refs.erase ref }
      else none
  | .empty holder place =>
      some (heap.takeOut fun ref => ref.holder = some holder && ref.place = place)
  | .discard ref =>
      if ref ∈ heap.refs then
        some <| reclaim
          { refs := heap.refs.erase ref
            strong := Function.update heap.strong ref.target (heap.strong ref.target - 1) }
          ref.target
      else none

def exec [DecidableEq τ] (heap : Heap ν τ) : List (Op ν τ) → Option (Heap ν τ)
  | [] => some heap
  | op :: ops => (heap.step op).bind fun last => last.exec ops

/-- The strong counts are the numbers of references, and no dropped node holds one. -/
structure Counted (heap : Heap ν τ) : Prop where
  counts : ∀ node, heap.strong node = heap.refs.countP fun ref => ref.target = node
  held : ∀ ref ∈ heap.refs, heap.holds ref.holder = true

/-- What the operations need, and what they leave. -/
inductive Uses [DecidableEq τ] (heap : Heap ν τ) : Op ν τ → Heap ν τ → Prop where
  | alloc {ref : Ref ν τ} (hnew : heap.strong ref.target = 0)
      (hholder : heap.holds ref.holder = true) :
      Uses heap (.alloc ref)
        { refs := ref :: heap.refs, strong := Function.update heap.strong ref.target 1 }
  | clone {ref : Ref ν τ} (hlives : 0 < heap.strong ref.target)
      (hholder : heap.holds ref.holder = true) :
      Uses heap (.clone ref)
        { refs := ref :: heap.refs
          strong := Function.update heap.strong ref.target (heap.strong ref.target + 1) }
  | move {ref : Ref ν τ} {holder : Option ν} {place : τ} (hmem : ref ∈ heap.refs)
      (hholder : heap.holds holder = true) :
      Uses heap (.move ref holder place)
        { heap with refs := ⟨holder, place, ref.target⟩ :: heap.refs.erase ref }
  | empty {holder : ν} {place : τ} :
      Uses heap (.empty holder place)
        (heap.takeOut fun ref => ref.holder = some holder && ref.place = place)
  | discard {ref : Ref ν τ} (hmem : ref ∈ heap.refs) :
      Uses heap (.discard ref) <| reclaim
        { refs := heap.refs.erase ref
          strong := Function.update heap.strong ref.target (heap.strong ref.target - 1) }
        ref.target

section Execution

variable [DecidableEq τ] {heap last : Heap ν τ} {op : Op ν τ} {ops : List (Op ν τ)}

/-- Every operation that goes on is one of the list. -/
theorem step_uses (hstep : heap.step op = some last) : Uses heap op last := by
  cases op with
  | alloc ref =>
      simp only [step, Option.ite_none_right_eq_some, Option.some.injEq] at hstep
      obtain ⟨⟨hnew, hholder⟩, rfl⟩ := hstep
      exact .alloc hnew hholder
  | clone ref =>
      simp only [step, Option.ite_none_right_eq_some, Option.some.injEq] at hstep
      obtain ⟨⟨hlives, hholder⟩, rfl⟩ := hstep
      exact .clone hlives hholder
  | move ref holder place =>
      simp only [step, Option.ite_none_right_eq_some, Option.some.injEq] at hstep
      obtain ⟨⟨hmem, hholder⟩, rfl⟩ := hstep
      exact .move hmem hholder
  | empty holder place =>
      cases hstep
      exact .empty
  | discard ref =>
      simp only [step, Option.ite_none_right_eq_some, Option.some.injEq] at hstep
      obtain ⟨hmem, rfl⟩ := hstep
      exact .discard hmem

theorem Uses.step (huses : Uses heap op last) : heap.step op = some last := by
  cases huses with
  | alloc hnew hholder => exact if_pos ⟨hnew, hholder⟩
  | clone hlives hholder => exact if_pos ⟨hlives, hholder⟩
  | move hmem hholder => exact if_pos ⟨hmem, hholder⟩
  | empty => rfl
  | discard hmem => exact if_pos hmem

@[simp]
theorem exec_cons :
    heap.exec (op :: ops) = some last ↔
      ∃ middle, heap.step op = some middle ∧ middle.exec ops = some last := by
  simp [exec, Option.bind_eq_some_iff]

theorem exec_append {front back : List (Op ν τ)} :
    heap.exec (front ++ back) = (heap.exec front).bind fun middle => middle.exec back := by
  induction front generalizing heap with
  | nil => rfl
  | cons op front ih => simp [exec, ih, Option.bind_assoc]

theorem exec_singleton : heap.exec [op] = some last ↔ heap.step op = some last := by
  simp [exec]

/-- What every operation of a list preserves, the list preserves. -/
theorem exec_preserves (hexec : heap.exec ops = some last) (inv : Heap ν τ → Prop)
    (hinit : inv heap)
    (hstep : ∀ op ∈ ops, ∀ {heap last : Heap ν τ}, inv heap → heap.step op = some last → inv last) :
    inv last := by
  induction ops generalizing heap with
  | nil =>
      cases hexec
      exact hinit
  | cons op ops ih =>
      obtain ⟨middle, hfirst, hrest⟩ := exec_cons.mp hexec
      apply ih hrest (hstep op List.mem_cons_self hinit hfirst)
      intro op hmem
      exact hstep op (List.mem_cons_of_mem _ hmem)

end Execution

/-- References that leave their nodes refer to the same nodes. -/
theorem countP_takeOut (heap : Heap ν τ) (taken : Ref ν τ → Bool) (node : ν) :
    ((heap.takeOut taken).refs.countP fun ref => ref.target = node) =
      heap.refs.countP fun ref => ref.target = node := by
  rw [takeOut, List.countP_map]
  apply List.countP_congr
  intro ref hmem
  simp only [Function.comp_apply]
  split <;> rfl

namespace Counted

variable {heap last : Heap ν τ} {ref : Ref ν τ} {node : ν}

theorem strong_pos (hcounted : heap.Counted) (hmem : ref ∈ heap.refs) :
    0 < heap.strong ref.target := by
  rw [hcounted.counts, List.countP_pos_iff]
  exact ⟨ref, hmem, by simp⟩

theorem exists_ref (hcounted : heap.Counted) (hlives : 0 < heap.strong node) :
    ∃ ref ∈ heap.refs, ref.target = node := by
  rw [hcounted.counts, List.countP_pos_iff] at hlives
  simpa using hlives

theorem takeOut (hcounted : heap.Counted) (taken : Ref ν τ → Bool) :
    (heap.takeOut taken).Counted := by
  constructor
  · intro node
    rw [countP_takeOut]
    exact hcounted.counts node
  · intro ref hmem
    obtain ⟨old, hold, rfl⟩ := List.mem_map.mp hmem
    split
    · rfl
    · exact hcounted.held old hold

/-- A new reference to a node with one more in its strong count. -/
theorem cons (hcounted : heap.Counted) (hholder : heap.holds ref.holder = true) {strong : ν → Nat}
    (hstrong : strong = Function.update heap.strong ref.target (heap.strong ref.target + 1)) :
    Counted { refs := ref :: heap.refs, strong } := by
  subst hstrong
  have hgrow : ∀ holder, heap.holds holder = true → Heap.holds
      { refs := ref :: heap.refs
        strong := Function.update heap.strong ref.target (heap.strong ref.target + 1) }
      holder = true := by
    rintro (_ | holder) hholds
    · rfl
    · simp only [holds, decide_eq_true_eq, Function.update_apply] at hholds ⊢
      split <;> omega
  constructor
  · intro node
    simp only [List.countP_cons, ← hcounted.counts, Function.update_apply, decide_eq_true_eq]
    by_cases htarget : ref.target = node
    · simp [htarget]
    · simp [htarget, Ne.symm htarget]
  · intro other hmem
    rcases List.mem_cons.mp hmem with rfl | hold
    · exact hgrow _ hholder
    · exact hgrow _ (hcounted.held other hold)

variable [DecidableEq τ]

/-- Without one of the references to it, a node has one reference less. -/
theorem countP_erase (hcounted : heap.Counted) (hmem : ref ∈ heap.refs) (node : ν) :
    ((heap.refs.erase ref).countP fun other => other.target = node) =
      Function.update heap.strong ref.target (heap.strong ref.target - 1) node := by
  have hperm := (List.perm_cons_erase hmem).countP_eq fun other => decide (other.target = node)
  rw [List.countP_cons, ← hcounted.counts] at hperm
  by_cases htarget : ref.target = node
  · subst htarget
    simp only [decide_true, ↓reduceIte] at hperm
    rw [Function.update_self]
    omega
  · simp only [htarget, decide_false, Bool.false_eq_true, ↓reduceIte] at hperm
    rw [Function.update_of_ne (Ne.symm htarget)]
    omega

theorem move (hcounted : heap.Counted) (hmem : ref ∈ heap.refs) {holder : Option ν} {place : τ}
    (hholder : heap.holds holder = true) :
    Counted { heap with refs := ⟨holder, place, ref.target⟩ :: heap.refs.erase ref } := by
  constructor
  · intro node
    rw [hcounted.counts, (List.perm_cons_erase hmem).countP_eq, List.countP_cons, List.countP_cons]
  · intro other hother
    rcases List.mem_cons.mp hother with rfl | hold
    · exact hholder
    · exact hcounted.held other (List.mem_of_mem_erase hold)

/-- The contents of a node leave it with the last reference to it. -/
theorem discard (hcounted : heap.Counted) (hmem : ref ∈ heap.refs) :
    Counted <| reclaim
      { refs := heap.refs.erase ref
        strong := Function.update heap.strong ref.target (heap.strong ref.target - 1) }
      ref.target := by
  have hshrink : ∀ holder, holder ≠ some ref.target → heap.holds holder = true → Heap.holds
      { refs := heap.refs.erase ref
        strong := Function.update heap.strong ref.target (heap.strong ref.target - 1) }
      holder = true := by
    rintro (_ | holder) hother hholds
    · rfl
    · simp only [holds, decide_eq_true_eq] at hholds ⊢
      rwa [Function.update_of_ne (fun hsame => hother (congrArg some hsame))]
  unfold reclaim
  split
  · constructor
    · intro node
      rw [countP_takeOut, hcounted.countP_erase hmem]
      rfl
    · intro other hother
      obtain ⟨old, hold, rfl⟩ := List.mem_map.mp hother
      split
      · rfl
      · rename_i hheld
        exact hshrink _ (by simpa using hheld) (hcounted.held old (List.mem_of_mem_erase hold))
  · rename_i hlives
    constructor
    · intro node
      exact (hcounted.countP_erase hmem node).symm
    · intro other hother
      by_cases hsame : other.holder = some ref.target
      · rw [hsame]
        exact decide_eq_true (Nat.pos_of_ne_zero hlives)
      · exact hshrink _ hsame (hcounted.held other (List.mem_of_mem_erase hother))

theorem step (hcounted : heap.Counted) {op : Op ν τ} (hstep : heap.step op = some last) :
    last.Counted := by
  cases step_uses hstep with
  | @alloc ref hnew hholder =>
      exact hcounted.cons hholder (by rw [hnew])
  | @clone ref hlives hholder =>
      exact hcounted.cons hholder rfl
  | @move ref holder place hmem hholder =>
      exact hcounted.move hmem hholder
  | @empty holder place =>
      exact hcounted.takeOut _
  | @discard ref hmem =>
      exact hcounted.discard hmem

theorem exec (hcounted : heap.Counted) {ops : List (Op ν τ)} (hexec : heap.exec ops = some last) :
    last.Counted :=
  exec_preserves hexec Counted hcounted fun _ _ _ _ hcounted => hcounted.step

end Counted

section Cycles

variable {heap : Heap ν τ} {node : ν} {nodes : Set ν}

theorem Supports.strong_pos (hsupports : heap.Supports nodes) (hcounted : heap.Counted)
    (hmem : node ∈ nodes) : 0 < heap.strong node := by
  obtain ⟨holder, -, place, hheld⟩ := hsupports node hmem
  exact hcounted.strong_pos hheld

/-- The nodes with references are finitely many. -/
theorem Counted.finite (hcounted : heap.Counted) : {node | 0 < heap.strong node}.Finite := by
  apply (heap.refs.map Ref.target).finite_toSet.subset
  intro node hlives
  obtain ⟨ref, hmem, rfl⟩ := hcounted.exists_ref hlives
  exact List.mem_map_of_mem hmem

/-- When no reference is outside, each node that lives hangs on a cycle: its holder lives, the
holder's holder too, and there are only finitely many. -/
theorem Counted.cyclic_of_enclosed (hcounted : heap.Counted) (henclosed : heap.Enclosed)
    (hlives : 0 < heap.strong node) : heap.Cyclic node := by
  by_contra hacyclic
  let Above := {holder // 0 < heap.strong holder ∧ Relation.ReflTransGen heap.Owns holder node}
  have hfinite : Finite Above := (hcounted.finite.subset fun holder hholder => hholder.1).to_subtype
  let before : Above → Above → Prop := fun above below =>
    Relation.TransGen heap.Owns above.1 below.1
  have htrans : IsTrans Above before := ⟨fun _ _ _ hfirst hsecond => hfirst.trans hsecond⟩
  have hirrefl : Std.Irrefl before :=
    ⟨fun above hcycle => hacyclic ⟨above.1, hcycle, above.2.2⟩⟩
  obtain ⟨first, -, hfirst⟩ := (Finite.wellFounded_of_trans_of_irrefl before).has_min Set.univ
    ⟨⟨node, hlives, .refl⟩, trivial⟩
  obtain ⟨⟨holder, place, target⟩, hmem, htarget⟩ := hcounted.exists_ref first.2.1
  cases holder with
  | none => exact henclosed _ hmem rfl
  | some holder =>
      have howns : heap.Owns holder first.1 := ⟨place, htarget ▸ hmem⟩
      have hholder : 0 < heap.strong holder := by simpa [holds] using hcounted.held _ hmem
      exact hfirst ⟨holder, hholder, .head howns first.2.2⟩ trivial (.single howns)

end Cycles

section Drops

variable [DecidableEq τ] {heap last : Heap ν τ} {ref : Ref ν τ} {node other : ν} {nodes : Set ν}

/-- Some references that are held outside are discarded. -/
def Drops (heap last : Heap ν τ) : Prop :=
  ∃ refs : List (Ref ν τ), (∀ ref ∈ refs, ref.holder = none) ∧
    heap.exec (refs.map .discard) = some last

/-- What is discarded outside does not take a node out of a set whose nodes hold each other. -/
theorem Supports.discard (hsupports : heap.Supports nodes) (hcounted : heap.Counted)
    (houtside : ref.holder = none) (hstep : heap.step (.discard ref) = some last) :
    last.Supports nodes := by
  cases step_uses hstep with
  | discard hmem =>
      have hleft : ∀ holder place target, ⟨some holder, place, target⟩ ∈ heap.refs →
          ⟨some holder, place, target⟩ ∈ heap.refs.erase ref := by
        intro holder place target hheld
        refine (List.mem_erase_of_ne ?_).mpr hheld
        rintro rfl
        cases houtside
      intro node hnode
      obtain ⟨holder, hholder, place, hheld⟩ := hsupports node hnode
      refine ⟨holder, hholder, place, ?_⟩
      unfold reclaim
      split
      · rename_i hdead
        refine List.mem_map.mpr ⟨_, hleft _ _ _ hheld, if_neg ?_⟩
        simp only [Option.some.injEq, decide_eq_true_eq]
        rintro rfl
        obtain ⟨above, -, place', hlives⟩ := hsupports _ hholder
        have hcount := (hcounted.countP_erase hmem ref.target).trans hdead
        rw [List.countP_eq_zero] at hcount
        exact hcount _ (hleft _ _ _ hlives) (by simp)
      · exact hleft _ _ _ hheld

/-- Discarding a reference makes no node hold another one. -/
theorem owns_of_discard (hstep : heap.step (.discard ref) = some last)
    (howns : last.Owns node other) : heap.Owns node other := by
  cases step_uses hstep
  obtain ⟨place, hheld⟩ := howns
  refine ⟨place, List.mem_of_mem_erase ?_ (b := ref)⟩
  unfold reclaim at hheld
  split at hheld
  · obtain ⟨old, hold, hsame⟩ := List.mem_map.mp hheld
    split at hsame
    · cases hsame
    · rwa [← hsame]
  · exact hheld

theorem Drops.refl (heap : Heap ν τ) : heap.Drops heap := ⟨[], by simp, rfl⟩

theorem Drops.snoc {middle : Heap ν τ} (hdrops : heap.Drops middle)
    (houtside : ref.holder = none) (hstep : middle.step (.discard ref) = some last) :
    heap.Drops last := by
  obtain ⟨refs, hrefs, hexec⟩ := hdrops
  refine ⟨refs ++ [ref], ?_, ?_⟩
  · intro other hmem
    rcases List.mem_append.mp hmem with hold | hnew
    · exact hrefs other hold
    · rwa [List.mem_singleton.mp hnew]
  · rw [List.map_append, exec_append, hexec]
    exact exec_singleton.mpr hstep

theorem Drops.counted (hdrops : heap.Drops last) (hcounted : heap.Counted) : last.Counted := by
  obtain ⟨refs, -, hexec⟩ := hdrops
  exact hcounted.exec hexec

theorem Drops.owns (hdrops : heap.Drops last) (howns : last.Owns node other) :
    heap.Owns node other := by
  obtain ⟨refs, -, hexec⟩ := hdrops
  refine exec_preserves hexec (fun middle => middle.Owns node other → heap.Owns node other)
    id ?_ howns
  intro op hop middle next hinv hstep hnext
  obtain ⟨ref, -, rfl⟩ := List.mem_map.mp hop
  exact hinv (owns_of_discard hstep hnext)

theorem Drops.supports (hdrops : heap.Drops last) (hcounted : heap.Counted)
    (hsupports : heap.Supports nodes) : last.Supports nodes := by
  obtain ⟨refs, houtside, hexec⟩ := hdrops
  refine (exec_preserves hexec (fun middle => middle.Counted ∧ middle.Supports nodes)
    ⟨hcounted, hsupports⟩ ?_).2
  rintro op hop middle next ⟨hmiddle, hinv⟩ hstep
  obtain ⟨ref, hmem, rfl⟩ := List.mem_map.mp hop
  exact ⟨hmiddle.step hstep, hinv.discard hmiddle (houtside ref hmem) hstep⟩

/-- When the last reference outside has been discarded, the nodes that live are those that
hung on a cycle before. -/
theorem lives_iff_cyclic (hcounted : heap.Counted) (hdrops : heap.Drops last)
    (henclosed : last.Enclosed) : 0 < last.strong node ↔ heap.Cyclic node := by
  constructor
  · intro hlives
    exact ((hdrops.counted hcounted).cyclic_of_enclosed henclosed hlives).mono
      fun _ _ => hdrops.owns
  · intro hcyclic
    have hsupports := hdrops.supports hcounted heap.supports_cyclic
    exact hsupports.strong_pos (hdrops.counted hcounted) hcyclic

end Drops

section Keeping

variable [DecidableEq τ] {heap last : Heap ν τ} {node target : ν} {place : τ}

/-- The reference stays where it is as long as its holder lives. -/
def Keeps (heap : Heap ν τ) (node : ν) (place : τ) (target : ν) : Prop :=
  0 < heap.strong node → ⟨some node, place, target⟩ ∈ heap.refs

/-- The operation touches neither the reference nor, by making it anew, its holder. -/
def Op.spares (node : ν) (place : τ) (target : ν) : Op ν τ → Bool
  | .alloc ref => ref.target ≠ node
  | .clone _ => true
  | .move ref _ _ => ref ≠ ⟨some node, place, target⟩
  | .empty holder emptied => holder ≠ node || emptied ≠ place
  | .discard ref => ref ≠ ⟨some node, place, target⟩

theorem Keeps.step (hkeeps : heap.Keeps node place target) {op : Op ν τ}
    (hspares : op.spares node place target = true) (hstep : heap.step op = some last) :
    last.Keeps node place target := by
  intro hlives
  cases step_uses hstep with
  | @alloc ref hnew hholder =>
      have hother : ref.target ≠ node := by simpa [Op.spares] using hspares
      simp only [Function.update_of_ne (Ne.symm hother)] at hlives
      exact List.mem_cons_of_mem _ (hkeeps hlives)
  | @clone ref hlives hholder =>
      apply List.mem_cons_of_mem _ (hkeeps _)
      by_cases hnode : node = ref.target
      · rwa [hnode]
      · simpa only [Function.update_of_ne hnode] using hlives
  | @move ref holder place' hmem hholder =>
      have hother : ref ≠ ⟨some node, place, target⟩ := by simpa [Op.spares] using hspares
      exact List.mem_cons_of_mem _ ((List.mem_erase_of_ne hother.symm).mpr (hkeeps hlives))
  | @empty holder emptied =>
      refine List.mem_map.mpr ⟨_, hkeeps hlives, if_neg ?_⟩
      simp only [Op.spares, Bool.or_eq_true, decide_eq_true_eq] at hspares
      simp only [Option.some.injEq, Bool.and_eq_true, decide_eq_true_eq, not_and]
      rintro rfl rfl
      simp at hspares
  | @discard ref hmem =>
      have hother : ref ≠ ⟨some node, place, target⟩ := by simpa [Op.spares] using hspares
      have hbefore : 0 < heap.strong node := by
        simp only [strong_reclaim, Function.update_apply] at hlives
        split at hlives
        · rename_i hsame
          rw [hsame]
          omega
        · exact hlives
      have hleft := (List.mem_erase_of_ne hother.symm).mpr (hkeeps hbefore)
      unfold reclaim at hlives ⊢
      split
      · rename_i hdead
        rw [if_pos hdead] at hlives
        refine List.mem_map.mpr ⟨_, hleft, if_neg ?_⟩
        simp only [Option.some.injEq, decide_eq_true_eq]
        rintro rfl
        exact hlives.ne' hdead
      · exact hleft

/-- A reference that a list of operations spares stays where it is. -/
theorem Keeps.exec (hkeeps : heap.Keeps node place target) {ops : List (Op ν τ)}
    (hspares : ∀ op ∈ ops, op.spares node place target = true)
    (hexec : heap.exec ops = some last) : last.Keeps node place target :=
  exec_preserves hexec (fun heap => heap.Keeps node place target) hkeeps
    fun op hmem _ _ hkeeps hstep => hkeeps.step (hspares op hmem) hstep

/-- The operation puts the reference there. -/
def Op.puts (node : ν) (place : τ) (target : ν) : Op ν τ → Bool
  | .alloc ref | .clone ref => ref = ⟨some node, place, target⟩
  | .move ref holder place' => (⟨holder, place', ref.target⟩ : Ref ν τ) = ⟨some node, place, target⟩
  | _ => false

/-- A reference that is put there stays, if the operations that follow spare it. -/
theorem keeps_of_puts (before after : List (Op ν τ)) {op : Op ν τ}
    (hexec : heap.exec (before ++ op :: after) = some last)
    (hputs : op.puts node place target = true)
    (hspares : ∀ op ∈ after, op.spares node place target = true) :
    last.Keeps node place target := by
  induction before generalizing heap with
  | nil =>
      obtain ⟨middle, hstep, hrest⟩ := exec_cons.mp hexec
      have hput : middle.Keeps node place target := by
        intro _
        cases step_uses hstep with
        | alloc hnew hholder =>
            simp only [Op.puts, decide_eq_true_eq] at hputs
            exact hputs ▸ List.mem_cons_self
        | clone hsame hholder =>
            simp only [Op.puts, decide_eq_true_eq] at hputs
            exact hputs ▸ List.mem_cons_self
        | move hmem hholder =>
            simp only [Op.puts, decide_eq_true_eq] at hputs
            exact hputs ▸ List.mem_cons_self
        | empty => cases hputs
        | discard hmem => cases hputs
      exact hput.exec hspares hrest
  | cons first before ih =>
      obtain ⟨middle, -, hrest⟩ := exec_cons.mp hexec
      exact ih hrest

end Keeping

section Counting

variable [DecidableEq τ] {heap last : Heap ν τ} {node : ν} {op : Op ν τ}

/-- How often the operation puts the reference there. -/
def Op.gain (ref : Ref ν τ) : Op ν τ → Nat
  | .alloc new | .clone new => if new = ref then 1 else 0
  | .move old holder place => if (⟨holder, place, old.target⟩ : Ref ν τ) = ref then 1 else 0
  | _ => 0

/-- How often the operation takes the reference away. -/
def Op.loss (ref : Ref ν τ) : Op ν τ → Nat
  | .move old _ _ | .discard old => if old = ref then 1 else 0
  | _ => 0

/-- No node holds references at the place. -/
def Apart (heap : Heap ν τ) (place : τ) : Prop :=
  ∀ ref ∈ heap.refs, ref.place = place → ref.holder = none

theorem count_takeOut {ref : Ref ν τ} {taken : Ref ν τ → Bool}
    (htaken : ∀ other ∈ heap.refs, taken other = true →
      { other with holder := none } ≠ ref ∧ other ≠ ref) :
    (heap.takeOut taken).refs.count ref = heap.refs.count ref := by
  rw [takeOut, List.count_eq_countP, List.count_eq_countP, List.countP_map]
  apply List.countP_congr
  intro other hmem
  simp only [Function.comp_apply, beq_iff_eq]
  split
  · rename_i hother
    obtain ⟨hout, hin⟩ := htaken other hmem hother
    simp [hout, hin]
  · rfl

/-- What a node that is dropped held is not counted, where no node holds references. -/
theorem count_reclaim (ref : Ref ν τ) (hholds : (heap.reclaim node).holds ref.holder = true)
    (hapart : ref.holder = none → heap.Apart ref.place) :
    (heap.reclaim node).refs.count ref = heap.refs.count ref := by
  unfold reclaim
  split
  · rename_i hdead
    apply count_takeOut
    intro other hmem hother
    have hholder : other.holder = some node := by simpa using hother
    constructor
    · rintro rfl
      have hnone := hapart rfl other hmem rfl
      rw [hnone] at hholder
      cases hholder
    · rintro rfl
      simp [hholder, holds, hdead] at hholds
  · rfl

/-- An operation adds what it puts there and removes what it takes away. -/
theorem count_of_uses (huses : heap.Uses op last) (ref : Ref ν τ)
    (hholds : last.holds ref.holder = true) (hapart : ref.holder = none → heap.Apart ref.place)
    (hempty : ∀ holder, op ≠ .empty holder ref.place) :
    last.refs.count ref + op.loss ref = heap.refs.count ref + op.gain ref := by
  cases huses with
  | alloc hnew hholder => simp [Op.loss, Op.gain, List.count_cons]
  | clone hlives hholder => simp [Op.loss, Op.gain, List.count_cons]
  | @move old holder place hmem hholder =>
      have hperm := (List.perm_cons_erase hmem).count_eq ref
      simp only [Op.loss, Op.gain, List.count_cons, beq_iff_eq] at hperm ⊢
      omega
  | @empty holder place =>
      rw [count_takeOut]
      · rfl
      · intro other hmem hother
        simp only [Bool.and_eq_true, decide_eq_true_eq] at hother
        constructor
        · rintro rfl
          exact hempty holder (by rw [← hother.2])
        · rintro rfl
          exact hempty holder (by rw [← hother.2])
  | @discard old hmem =>
      rw [count_reclaim ref hholds]
      · have hperm := (List.perm_cons_erase hmem).count_eq ref
        simp only [Op.loss, Op.gain, List.count_cons, beq_iff_eq] at hperm ⊢
        omega
      · intro hnone other hother
        exact hapart hnone other (List.mem_of_mem_erase hother)

/-- The operation puts nothing at the place of a node. -/
def Op.leavesApart (place : τ) : Op ν τ → Bool
  | .alloc ref | .clone ref => ref.place ≠ place || ref.holder.isNone
  | .move _ holder place' => place' ≠ place || holder.isNone
  | _ => true

omit [DecidableEq ν] in
theorem Apart.cons {place : τ} {refs : List (Ref ν τ)} {strong : ν → Nat}
    (hapart : heap.Apart place) (ref : Ref ν τ)
    (href : (ref.place ≠ place || ref.holder.isNone) = true)
    (hrefs : ∀ other ∈ refs, other ∈ heap.refs) : Apart { refs := ref :: refs, strong } place := by
  intro other hmem hplace
  rcases List.mem_cons.mp hmem with rfl | hold
  · simpa [hplace] using href
  · exact hapart other (hrefs other hold) hplace

omit [DecidableEq ν] [DecidableEq τ] in
theorem Apart.takeOut {place : τ} (hapart : heap.Apart place) (taken : Ref ν τ → Bool) :
    (heap.takeOut taken).Apart place := by
  intro ref hmem hplace
  obtain ⟨old, hold, rfl⟩ := List.mem_map.mp hmem
  split
  · rfl
  · rename_i hkept
    rw [if_neg hkept] at hplace
    exact hapart old hold hplace

theorem Apart.uses {place : τ} (hapart : heap.Apart place) (hop : op.leavesApart place = true)
    (huses : heap.Uses op last) : last.Apart place := by
  cases huses with
  | alloc hnew hholder => exact hapart.cons _ hop fun _ hmem => hmem
  | clone hlives hholder => exact hapart.cons _ hop fun _ hmem => hmem
  | move hmem hholder => exact hapart.cons _ hop fun _ => List.mem_of_mem_erase
  | empty => exact hapart.takeOut _
  | @discard ref hmem =>
      have herased : ∀ strong : ν → Nat,
          Apart { refs := heap.refs.erase ref, strong } place :=
        fun _ other hother => hapart other (List.mem_of_mem_erase hother)
      unfold reclaim
      split
      · exact (herased _).takeOut _
      · exact herased _

/-- Only a discarded reference makes a strong count smaller. -/
theorem strong_le_of_uses (huses : heap.Uses op last) (hop : ∀ ref, op ≠ .discard ref) (node : ν) :
    heap.strong node ≤ last.strong node := by
  cases huses with
  | alloc hnew hholder =>
      simp only [Function.update_apply]
      split
      · rename_i hsame
        rw [hsame, hnew]
        exact Nat.zero_le 1
      · exact le_rfl
  | clone hlives hholder =>
      simp only [Function.update_apply]
      split
      · rename_i hsame
        rw [hsame]
        exact Nat.le_succ _
      · exact le_rfl
  | move hmem hholder => exact le_rfl
  | empty => exact le_rfl
  | @discard ref hmem => exact absurd rfl (hop ref)

/-- Only an allocation makes a node live. -/
theorem unallocated_of_uses (hzero : heap.strong node = 0) (huses : heap.Uses op last)
    (hop : ∀ ref, op = .alloc ref → ref.target ≠ node) : last.strong node = 0 := by
  cases huses with
  | alloc hnew hholder =>
      simpa only [Function.update_of_ne (Ne.symm (hop _ rfl))] using hzero
  | clone hlives hholder =>
      rw [← hzero]
      apply Function.update_of_ne
      rintro rfl
      exact hlives.ne' hzero
  | move hmem hholder => exact hzero
  | empty => exact hzero
  | discard hmem =>
      simp only [strong_reclaim, Function.update_apply]
      split
      · rename_i hsame
        rw [← hsame, hzero]
      · exact hzero

end Counting

section Success

variable [DecidableEq τ] {heap : Heap ν τ} {op : Op ν τ} {front back ops : List (Op ν τ)}
  {middle post : Heap ν τ → Prop}

/-- The operations succeed one after the other, and what they leave satisfies `post`. -/
def Succeeds (heap : Heap ν τ) (ops : List (Op ν τ)) (post : Heap ν τ → Prop) : Prop :=
  ∃ last, heap.exec ops = some last ∧ post last

theorem Succeeds.nil (hpost : post heap) : heap.Succeeds [] post := ⟨heap, rfl, hpost⟩

/-- What holds of everything that the operations may leave, holds in addition. -/
theorem Succeeds.and {other : Heap ν τ → Prop} (hops : heap.Succeeds ops post)
    (hother : ∀ last, heap.exec ops = some last → other last) :
    heap.Succeeds ops fun last => post last ∧ other last := by
  obtain ⟨last, hexec, hpost⟩ := hops
  exact ⟨last, hexec, hpost, hother last hexec⟩

/-- No node dies by an operation that discards nothing. -/
theorem Succeeds.grows (hsucceeds : heap.Succeeds [op] post) (hop : ∀ ref, op ≠ .discard ref) :
    heap.Succeeds [op] fun last => post last ∧ ∀ node, heap.strong node ≤ last.strong node :=
  hsucceeds.and fun _ hexec node =>
    strong_le_of_uses (step_uses (exec_singleton.mp hexec)) hop node

theorem Succeeds.append (hfront : heap.Succeeds front middle)
    (hback : ∀ between, middle between → between.Succeeds back post) :
    heap.Succeeds (front ++ back) post := by
  obtain ⟨between, hexec, hmiddle⟩ := hfront
  obtain ⟨last, hrest, hpost⟩ := hback between hmiddle
  exact ⟨last, by rw [exec_append, hexec]; exact hrest, hpost⟩

theorem Succeeds.cons (hop : heap.Succeeds [op] middle)
    (hops : ∀ between, middle between → between.Succeeds ops post) :
    heap.Succeeds (op :: ops) post :=
  hop.append hops

end Success

end Heap

end Platoon.Foundation
