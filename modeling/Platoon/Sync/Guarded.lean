import Platoon.Sync.LockRuns

/-!
# The value behind a lock

Clients reach the value of a `Mutex` or an `RwLock` through their guards: each guard
reads it, and one that borrows it exclusively writes it.  While a guard is alive, it
sees the value that it found and its own writes.
-/

namespace Platoon.Sync

open Platoon.Foundation Platoon.Rust

/-- A lock with its value, and the guards that clients own by name. -/
structure Guarded (S : Type → Type) (W T : Type) where
  lock : Lock.State S W
  data : T
  names : List (Nat × Mode)

namespace Guarded

/-- What clients do. -/
inductive Op (W T : Type) where
  /-- A method of the lock: the guard that it hands out gets the name. -/
  | lock (name : Nat) (op : Lock.Op W)
  /-- `Deref` and `DerefMut` of a guard. -/
  | read (name : Nat)
  | write (name : Nat) (data : T)
  | dropGuard (name : Nat)
  | leakGuard (name : Nat)
  /-- Write through `get_mut`, which borrows the lock itself. -/
  | getMut (data : T)

/-- The wakers that an operation invoked, the mode of the guard it handed out, and the value
that it saw. -/
structure Output (W T : Type) where
  woken : List W := []
  granted : Option Mode := none
  seen : Option T := none

variable {S : Type → Type} [Slab S] {W T : Type}

def new (lock : Lock) (data : T) : Guarded S W T where
  lock := .new lock
  data := data
  names := []

/-- The operation is one on the lock, not on a guard. -/
def onLock : Lock.Op W → Bool
  | .request _ _ | .poll _ _ | .dropFuture _ | .tryLock _ => true
  | .dropGuard _ | .leakGuard _ => false

/-- The guards that clients own once an operation handed out another one. -/
def granted (name : Nat) (names : List (Nat × Mode)) : Option Mode → List (Nat × Mode)
  | some mode => (name, mode) :: names
  | none => names

def step [Wakes W] (profile : Profile) (lock : Lock) (state : Guarded S W T) :
    Op W T → Outcome Panic (Guarded S W T) (Output W T)
  | .lock name op =>
      .when (onLock op && (state.names.lookup name).isNone) <|
        ((Lock.system profile lock).step state.lock op).andThen fun inner output =>
          .next { state with lock := inner, names := granted name state.names output.granted }
            { woken := output.woken, granted := output.granted }
  | .read name =>
      match state.names.lookup name with
      | none => .disabled
      | some _ => .next state { seen := some state.data }
  | .write name data =>
      match state.names.lookup name with
      | none => .disabled
      | some mode =>
          -- only the guards of `lock` and `write` implement `DerefMut`
          .when (decide (mode.access = .exclusive)) (.next { state with data } {})
  | .dropGuard name =>
      match state.names.lookup name with
      | none => .disabled
      | some mode =>
          ((Lock.system profile lock).step state.lock (.dropGuard mode)).andThen
            fun inner output =>
              .next { state with lock := inner, names := state.names.erase (name, mode) }
                { woken := output.woken }
  | .leakGuard name =>
      match state.names.lookup name with
      | none => .disabled
      | some mode =>
          ((Lock.system profile lock).step state.lock (.leakGuard mode)).andThen
            fun inner output =>
              .next { state with lock := inner, names := state.names.erase (name, mode) }
                { woken := output.woken }
  | .getMut data => .when state.names.isEmpty (.next { state with data } {})

/-- One lock with its value and all its clients. -/
def system [Wakes W] (profile : Profile) (lock : Lock) :
    System Panic (Guarded S W T) (Op W T) (Output W T) where
  step := step profile lock

/-- The operation is the last one on the guard of the name. -/
def Op.ends (name : Nat) : Op W T → Bool
  | .dropGuard ended | .leakGuard ended => decide (ended = name)
  | _ => false

/-- What an operation writes through the guard of the name. -/
def Op.writes (name : Nat) : Op W T → Option T
  | .write writer data => if writer = name then some data else none
  | _ => none

/-- The last value that was written through the guard of the name. -/
def lastWrite (name : Nat) (trace : List (Op W T × Output W T)) : Option T :=
  (trace.filterMap (·.1.writes name)).getLast?

/-! ## Guards and their names -/

section Steps

variable [Wakes W] {profile : Profile} {lock : Lock}

/-- Methods of the lock add the guard that they hand out. -/
theorem guards_onLock {state last : Lock.State S W} {op : Lock.Op W} {output : Lock.Output W}
    (hstep : (Lock.system profile lock).step state op = .next last output)
    (honLock : onLock op = true) : last.guards = output.granted.toList ++ state.guards := by
  cases Lock.step_transition hstep with
  | dropGuard hguard hinner => cases honLock
  | leakGuard hguard hinner => cases honLock
  | _ => rfl

theorem guards_dropGuard {state last : Lock.State S W} {mode : Mode} {output : Lock.Output W}
    (hstep : (Lock.system profile lock).step state (.dropGuard mode) = .next last output) :
    last.guards = state.guards.erase mode := by
  cases Lock.step_transition hstep
  rfl

theorem guards_leakGuard {state last : Lock.State S W} {mode : Mode} {output : Lock.Output W}
    (hstep : (Lock.system profile lock).step state (.leakGuard mode) = .next last output) :
    last.guards = state.guards.erase mode := by
  cases Lock.step_transition hstep
  rfl

variable {state last : Guarded S W T} {op : Op W T} {output : Output W T} {name : Nat}
  {mode : Mode}

/-- The names of clients are those of the guards that they own. -/
structure Owned (profile : Profile) (lock : Lock) (state : Guarded S W T) : Prop where
  run : ∃ trace, (Lock.system profile lock).Run (Lock.State.new lock) trace state.lock
  guards : (state.names.map Prod.snd).Perm state.lock.guards
  distinct : (state.names.map Prod.fst).Nodup

theorem mem_of_lookup {names : List (Nat × Mode)} (hname : names.lookup name = some mode) :
    (name, mode) ∈ names := by
  obtain ⟨front, back, rfl, -⟩ := List.lookup_eq_some_iff.mp hname
  exact List.mem_append_right _ List.mem_cons_self

/-- A guard that borrows the value exclusively is the only one. -/
theorem Owned.alone (howned : Owned profile lock state) {other : Nat} {mode' : Mode}
    (hname : (name, mode) ∈ state.names) (hother : (other, mode') ∈ state.names)
    (hexclusive : mode'.access = .exclusive) : other = name := by
  obtain ⟨trace, hrun⟩ := howned.run
  have hguard : mode' ∈ state.lock.guards :=
    howned.guards.mem_iff.mp (List.mem_map_of_mem (f := Prod.snd) hother)
  have hlength : state.names.length ≤ 1 := by
    rcases (Lock.consistent hrun).borrowed.exclusion with hshared | ⟨sole, halone, -⟩
    · have haccess := hshared mode' (List.mem_append_left _ hguard)
      rw [hexclusive] at haccess
      cases haccess
    · have hsame := howned.guards.length_eq
      have hall := congrArg List.length halone
      rw [Lock.State.alive, List.length_append, List.length_singleton] at hall
      rw [List.length_map] at hsame
      omega
  cases hnames : state.names with
  | nil => simp [hnames] at hname
  | cons only rest =>
      have hnil : rest = [] := by
        rw [hnames, List.length_cons] at hlength
        exact List.length_eq_zero_iff.mp (by omega)
      rw [hnames, hnil, List.mem_singleton] at hname hother
      rw [← hname, Prod.mk.injEq] at hother
      exact hother.1

/-- A guard that is dropped or leaked leaves. -/
theorem Owned.leave (howned : Owned profile lock state) {inner : Lock.State S W}
    (hrun : ∃ trace, (Lock.system profile lock).Run (Lock.State.new lock) trace inner)
    (hname : (name, mode) ∈ state.names) (hguards : inner.guards = state.lock.guards.erase mode) :
    Owned profile lock { state with lock := inner, names := state.names.erase (name, mode) } where
  run := hrun
  guards := by
    have hcons : (state.names.map Prod.snd).Perm
        (mode :: (state.names.erase (name, mode)).map Prod.snd) :=
      (List.perm_cons_erase hname).map Prod.snd
    have herase := (hcons.symm.trans howned.guards).erase mode
    rw [List.erase_cons_head] at herase
    exact hguards ▸ herase
  distinct := ((List.erase_sublist).map Prod.fst).nodup howned.distinct

theorem Owned.step (howned : Owned profile lock state)
    (hstep : (system profile lock).step state op = .next last output) :
    Owned profile lock last := by
  obtain ⟨trace, hrun⟩ := howned.run
  cases op with
  | lock other op =>
      simp only [system, Guarded.step, Outcome.when_eq_next, Bool.and_eq_true,
        Option.isNone_iff_eq_none, Outcome.andThen_eq_next, Outcome.next.injEq] at hstep
      obtain ⟨⟨honLock, hfree⟩, inner, result, hinner, rfl, -⟩ := hstep
      refine ⟨⟨_, hrun.snoc hinner⟩, ?_, ?_⟩
      · rw [guards_onLock hinner honLock]
        cases result.granted with
        | none => exact howned.guards
        | some mode => exact howned.guards.cons mode
      · cases result.granted with
        | none => exact howned.distinct
        | some mode =>
            rw [granted, List.map_cons, List.nodup_cons]
            refine ⟨fun hmem => ?_, howned.distinct⟩
            obtain ⟨named, hnamed, hsame⟩ := List.mem_map.mp hmem
            simpa [hsame] using List.lookup_eq_none_iff.mp hfree named hnamed
  | read other =>
      simp only [system, Guarded.step] at hstep
      split at hstep
      · cases hstep
      · cases hstep
        exact howned
  | write other data =>
      simp only [system, Guarded.step] at hstep
      split at hstep
      · cases hstep
      · simp only [Outcome.when_eq_next, Outcome.next.injEq] at hstep
        obtain ⟨-, rfl, -⟩ := hstep
        exact ⟨howned.run, howned.guards, howned.distinct⟩
  | dropGuard other =>
      simp only [system, Guarded.step] at hstep
      split at hstep
      · cases hstep
      · rename_i mode hname
        simp only [Outcome.andThen_eq_next, Outcome.next.injEq] at hstep
        obtain ⟨inner, result, hinner, rfl, -⟩ := hstep
        exact howned.leave ⟨_, hrun.snoc hinner⟩ (mem_of_lookup hname) (guards_dropGuard hinner)
  | leakGuard other =>
      simp only [system, Guarded.step] at hstep
      split at hstep
      · cases hstep
      · rename_i mode hname
        simp only [Outcome.andThen_eq_next, Outcome.next.injEq] at hstep
        obtain ⟨inner, result, hinner, rfl, -⟩ := hstep
        exact howned.leave ⟨_, hrun.snoc hinner⟩ (mem_of_lookup hname) (guards_leakGuard hinner)
  | getMut data =>
      simp only [system, Guarded.step, Outcome.when_eq_next, Outcome.next.injEq] at hstep
      obtain ⟨-, rfl, -⟩ := hstep
      exact ⟨howned.run, howned.guards, howned.distinct⟩

/-- While a guard is alive it stays known, and only its own writes change the value. -/
theorem Owned.isolated_step (howned : Owned profile lock state)
    (hname : (name, mode) ∈ state.names)
    (hstep : (system profile lock).step state op = .next last output)
    (hends : op.ends name = false) :
    (name, mode) ∈ last.names ∧ last.data = (op.writes name).getD state.data := by
  cases op with
  | lock other op =>
      simp only [system, Guarded.step, Outcome.when_eq_next, Outcome.andThen_eq_next,
        Outcome.next.injEq] at hstep
      obtain ⟨-, inner, result, -, rfl, -⟩ := hstep
      refine ⟨?_, rfl⟩
      cases result.granted with
      | none => exact hname
      | some mode' => exact List.mem_cons_of_mem _ hname
  | read other =>
      simp only [system, Guarded.step] at hstep
      split at hstep
      · cases hstep
      · cases hstep
        exact ⟨hname, rfl⟩
  | write other data =>
      simp only [system, Guarded.step] at hstep
      split at hstep
      · cases hstep
      · rename_i mode' hother
        simp only [Outcome.when_eq_next, decide_eq_true_eq, Outcome.next.injEq] at hstep
        obtain ⟨hexclusive, rfl, -⟩ := hstep
        obtain rfl := howned.alone hname (mem_of_lookup hother) hexclusive
        exact ⟨hname, by simp [Op.writes]⟩
  | dropGuard other =>
      have hne : other ≠ name := by simpa [Op.ends] using hends
      simp only [system, Guarded.step] at hstep
      split at hstep
      · cases hstep
      · simp only [Outcome.andThen_eq_next, Outcome.next.injEq] at hstep
        obtain ⟨inner, result, -, rfl, -⟩ := hstep
        refine ⟨?_, rfl⟩
        rwa [List.mem_erase_of_ne (by simp [Ne.symm hne])]
  | leakGuard other =>
      have hne : other ≠ name := by simpa [Op.ends] using hends
      simp only [system, Guarded.step] at hstep
      split at hstep
      · cases hstep
      · simp only [Outcome.andThen_eq_next, Outcome.next.injEq] at hstep
        obtain ⟨inner, result, -, rfl, -⟩ := hstep
        refine ⟨?_, rfl⟩
        rwa [List.mem_erase_of_ne (by simp [Ne.symm hne])]
  | getMut data =>
      simp only [system, Guarded.step, Outcome.when_eq_next, List.isEmpty_iff] at hstep
      simp [hstep.1] at hname

/-! ## Runs -/

omit [Wakes W] in
theorem lastWrite_snoc (trace : List (Op W T × Output W T)) (op : Op W T)
    (output : Output W T) :
    lastWrite name (trace ++ [(op, output)]) = (op.writes name).or (lastWrite name trace) := by
  simp only [lastWrite, List.filterMap_append, List.filterMap_cons, List.filterMap_nil]
  cases op.writes name <;> simp

/-- Over every run of a `Mutex` or an `RwLock` with its value: from the moment a guard is
granted until it is dropped or leaked, it sees the value that was there at that moment, or
what was last written through itself, whatever the other clients do. -/
theorem guards_isolate {data : T} {before after : List (Op W T × Output W T)}
    {start : Guarded S W T} {op : Lock.Op W}
    (hbefore : (system profile lock).Run (Guarded.new lock data) before state)
    (hgrant : (system profile lock).step state (.lock name op) = .next start output)
    (hgranted : output.granted = some mode)
    (hafter : (system profile lock).Run start after last)
    (hkeep : ∀ event ∈ after, event.1.ends name = false) :
    start.data = state.data ∧
      (system profile lock).step last (.read name) =
        .next last { seen := some ((lastWrite name after).getD state.data) } := by
  have howned : Owned profile lock state :=
    hbefore.preserves (Owned profile lock)
      ⟨⟨[], .refl⟩, List.Perm.nil, List.nodup_nil⟩ fun howned hstep => howned.step hstep
  have hstart := howned.step hgrant
  simp only [system, Guarded.step, Outcome.when_eq_next, Outcome.andThen_eq_next,
    Outcome.next.injEq] at hgrant
  obtain ⟨-, inner, result, -, rfl, rfl⟩ := hgrant
  simp only at hgranted
  have hlast : Owned profile lock last ∧ (name, mode) ∈ last.names ∧
      last.data = (lastWrite name after).getD state.data := by
    refine hafter.invariant (fun after last => (∀ event ∈ after, event.1.ends name = false) →
      Owned profile lock last ∧ (name, mode) ∈ last.names ∧
        last.data = (lastWrite name after).getD state.data) (fun _ => ?_) ?_ hkeep
    · refine ⟨hstart, ?_, rfl⟩
      rw [hgranted]
      exact List.mem_cons_self
    · intro after middle last op output _ ih hstep hkeep
      obtain ⟨hmiddle, hname, hdata⟩ := ih fun event hmem =>
        hkeep event (List.mem_append_left _ hmem)
      obtain ⟨hstays, hwritten⟩ := hmiddle.isolated_step hname hstep (hkeep (op, output) (by simp))
      refine ⟨hmiddle.step hstep, hstays, ?_⟩
      rw [hwritten, hdata, lastWrite_snoc]
      cases op.writes name <;> rfl
  obtain ⟨-, hname, hdata⟩ := hlast
  refine ⟨rfl, ?_⟩
  cases hlookup : last.names.lookup name with
  | none => simpa using List.lookup_eq_none_iff.mp hlookup _ hname
  | some found => simp only [system, Guarded.step, hlookup, hdata]

end Steps

/-- A writer leaves 20, and then there are two readers. -/
def writerThenReaders : List (Op Nat Nat) :=
  [.lock 0 (.tryLock (RwLock.tryWrite Profile.release)), .write 0 20, .dropGuard 0]

theorem guards_isolate_writerThenReaders :
    ∃ last : Guarded FreeSlab Nat Nat,
      (system Profile.release (RwLock Profile.release)).step last (.read 1) =
        .next last { seen := some 20 } ∧ last.names.length = 2 := by
  have hbefore : (system Profile.release (RwLock Profile.release)).exec
      (Guarded.new (RwLock Profile.release) 10 : Guarded FreeSlab Nat Nat) writerThenReaders =
      some (_, _) := rfl
  exact ⟨_, (guards_isolate (System.exec_run hbefore)
    (show (system Profile.release (RwLock Profile.release)).step _
      (.lock 1 (.tryLock RwLock.tryRead)) = .next _ _ from rfl) rfl
    (System.exec_run (show (system Profile.release (RwLock Profile.release)).exec _
      [.lock 2 (.tryLock RwLock.tryRead)] = some (_, _) from rfl))
    (by simp [Op.ends])).2, rfl⟩

end Guarded

end Platoon.Sync
