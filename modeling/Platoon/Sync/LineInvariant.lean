import Platoon.Sync.WaiterLine

/-!
# Woken waiters at the front of a line

The woken waiters form a prefix of the line, and the available permits suffice
for all of them at once.  `Kept` is the invariant of every operation, `Served`
the sharper fact after an operation that runs the wake pass.
-/

namespace Platoon.Sync.Line

open Platoon.Foundation Platoon.Rust

variable {ι W : Type}

/-- The line is a woken front, for which `permits` suffice, and an unwoken back. -/
structure Split (permits : Nat) (line front back : List (Entry ι W)) : Prop where
  line_eq : line = front ++ back
  front_woke : ∀ entry ∈ front, entry.woke = true
  back_unwoken : ∀ entry ∈ back, entry.woke = false
  fits : totalCost Entry.required front ≤ permits

/-- All woken waiters can be served, and the oldest waiter is not kept waiting. -/
structure Kept (permits : Nat) (line : List (Entry ι W)) : Prop where
  promised : ∃ front back, Split permits line front back
  oldest : ∀ entry, line.head? = some entry → entry.woke = true ∨ permits < entry.required

/-- Exactly the longest prefix that fits is woken. -/
structure Served (permits : Nat) (line front back : List (Entry ι W)) : Prop where
  line_eq : line = front ++ back
  front_woke : ∀ entry ∈ front, entry.woke = true
  back_unwoken : ∀ entry ∈ back, entry.woke = false
  longest : IsLongestFitting Entry.required permits front back

namespace Split

variable {permits : Nat} {line front back : List (Entry ι W)}

theorem filter_woke (hsplit : Split permits line front back) :
    line.filter Entry.woke = front := by
  have hfront : front.filter Entry.woke = front :=
    List.filter_eq_self.mpr hsplit.front_woke
  have hback : back.filter Entry.woke = [] := by
    rw [List.filter_eq_nil_iff]
    intro entry hentry
    simp [hsplit.back_unwoken entry hentry]
  rw [hsplit.line_eq, List.filter_append, hfront, hback, List.append_nil]

theorem mono (hsplit : Split permits line front back) {more : Nat} (hle : permits ≤ more) :
    Split more line front back :=
  { hsplit with fits := hsplit.fits.trans hle }

/-- A woken waiter stands in the front. -/
theorem mem_front (hsplit : Split permits line front back) {entry : Entry ι W}
    (hmem : entry ∈ line) (hwoke : entry.woke = true) : entry ∈ front := by
  rw [← hsplit.filter_woke]
  exact List.mem_filter.mpr ⟨hmem, hwoke⟩

/-- Everyone older than a woken waiter is woken as well. -/
theorem older_woke {older younger : List (Entry ι W)} {entry : Entry ι W}
    (hsplit : Split permits (older ++ entry :: younger) front back)
    (hwoke : entry.woke = true) : older ++ [entry] <+: front := by
  have hprefix : older ++ [entry] <+: front ++ back := by
    rw [← hsplit.line_eq]
    exact ⟨younger, by simp⟩
  rcases List.prefix_or_prefix_of_prefix hprefix (List.prefix_append front back) with
    hshort | hlong
  · exact hshort
  · obtain ⟨extra, hextra⟩ := hlong
    rcases List.eq_nil_or_concat extra with rfl | ⟨rest, last, rfl⟩
    · rw [List.append_nil] at hextra
      exact hextra ▸ List.prefix_refl _
    · rw [List.concat_eq_append, ← List.append_assoc] at hextra
      have hlast : last = entry := by simpa using (List.append_inj' hextra rfl).2
      have hback : last ∈ back := by
        rw [← hextra, List.append_assoc] at hprefix
        exact ((List.prefix_append_right_inj front).mp hprefix).subset (by simp)
      have hunwoken := hsplit.back_unwoken last hback
      rw [hlast, hwoke] at hunwoken
      cases hunwoken

/-- Marking the longest prefix that fits marks every waiter woken before. -/
theorem serve (hsplit : Split permits line front back) :
    ∃ front' back', Served permits (Line.serve permits line) front' back' := by
  have happend := splitFitting_append Entry.required permits line
  have hlongest := splitFitting_isLongest Entry.required permits line
  refine ⟨(splitFitting Entry.required permits line).1.map Entry.mark,
    (splitFitting Entry.required permits line).2, rfl, by simp, ?_, ?_⟩
  · intro entry hentry
    have hprefix : front <+: (splitFitting Entry.required permits line).1 := by
      refine hlongest.prefix_of_fits ?_ hsplit.fits
      rw [happend, hsplit.line_eq]
      exact List.prefix_append front back
    obtain ⟨more, hmore⟩ := hprefix
    apply hsplit.back_unwoken
    have hline := hsplit.line_eq
    rw [← happend, ← hmore, List.append_assoc, List.append_cancel_left_eq] at hline
    exact hline ▸ List.mem_append_right _ hentry
  · have hcost : totalCost Entry.required
        ((splitFitting Entry.required permits line).1.map Entry.mark) =
        totalCost Entry.required (splitFitting Entry.required permits line).1 :=
      totalCost_map Entry.mark_required _
    exact ⟨hcost ▸ hlongest.fits, hcost ▸ hlongest.exceeds⟩

end Split

namespace Served

variable {permits : Nat} {line front back : List (Entry ι W)}

/-- What the wake pass establishes implies the invariant. -/
theorem kept (hserved : Served permits line front back) : Kept permits line where
  promised := ⟨front, back, hserved.line_eq, hserved.front_woke, hserved.back_unwoken,
    hserved.longest.fits⟩
  oldest entry hentry := by
    rw [hserved.line_eq] at hentry
    cases front with
    | nil => exact .inr (by simpa using hserved.longest.exceeds entry (by simpa using hentry))
    | cons first rest =>
        have hfirst : first = entry := by simpa using hentry
        exact .inl (hserved.front_woke entry (by simp [hfirst]))

end Served

section Remove

variable [DecidableEq ι] {permits : Nat} {line front back : List (Entry ι W)}

theorem Split.remove (hsplit : Split permits line front back) (id : ι) :
    Split permits (Line.remove id line) (Line.remove id front) (Line.remove id back) where
  line_eq := by rw [hsplit.line_eq, Line.remove, List.filter_append]; rfl
  front_woke entry hentry := hsplit.front_woke entry (List.mem_of_mem_filter hentry)
  back_unwoken entry hentry := hsplit.back_unwoken entry (List.mem_of_mem_filter hentry)
  fits := (totalCost_le_of_sublist List.filter_sublist).trans hsplit.fits

/-- Removing a waiter frees at least what it required. -/
theorem totalCost_remove {entry : Entry ι W} (hmem : entry ∈ line) :
    totalCost Entry.required (Line.remove entry.id line) + entry.required ≤
      totalCost Entry.required line := by
  obtain ⟨older, younger, rfl⟩ := List.append_of_mem hmem
  have holder : totalCost Entry.required (Line.remove entry.id older) ≤
      totalCost Entry.required older := totalCost_le_of_sublist List.filter_sublist
  have hyounger : totalCost Entry.required (Line.remove entry.id younger) ≤
      totalCost Entry.required younger := totalCost_le_of_sublist List.filter_sublist
  have hremove : Line.remove entry.id (older ++ entry :: younger) =
      Line.remove entry.id older ++ Line.remove entry.id younger := by
    simp [Line.remove]
  rw [hremove, totalCost_append, totalCost_append, totalCost_cons]
  omega

theorem find?_mem {id : ι} {entry : Entry ι W} (hfind : Line.find? id line = some entry) :
    entry ∈ line ∧ entry.id = id := by
  refine ⟨List.mem_of_find?_eq_some hfind, ?_⟩
  simpa using List.find?_some hfind

/-- A woken waiter that takes its permits leaves enough for the others. -/
theorem Split.grant (hsplit : Split permits line front back) {id : ι} {entry : Entry ι W}
    (hfind : Line.find? id line = some entry) (hwoke : entry.woke = true) :
    entry.required ≤ permits ∧
      Split (permits - entry.required) (Line.remove id line) (Line.remove id front)
        (Line.remove id back) := by
  obtain ⟨hmem, rfl⟩ := find?_mem hfind
  have hcost := totalCost_remove (hsplit.mem_front hmem hwoke)
  have hfits := hsplit.fits
  refine ⟨by omega, { hsplit.remove entry.id with fits := by omega }⟩

theorem mem_refresh [Wakes W] {id : ι} {waker : W} {entry : Entry ι W}
    (hmem : entry ∈ Line.refresh id waker line) :
    ∃ old ∈ line, entry.id = old.id ∧ entry.required = old.required ∧
      entry.woke = old.woke ∧
      entry.waker =
        if old.id = id then some (Line.refreshed old.waker waker) else old.waker := by
  obtain ⟨old, hold, rfl⟩ := List.mem_map.mp hmem
  refine ⟨old, hold, ?_⟩
  split <;> simp

@[simp]
theorem refresh_map_id [Wakes W] (id : ι) (waker : W) (line : List (Entry ι W)) :
    (Line.refresh id waker line).map Entry.id = line.map Entry.id := by
  rw [Line.refresh, List.map_map]
  refine List.map_congr_left fun entry _ => ?_
  simp only [Function.comp_apply]
  split <;> rfl

theorem Split.refresh [Wakes W] (hsplit : Split permits line front back) (id : ι) (waker : W) :
    Split permits (Line.refresh id waker line) (Line.refresh id waker front)
      (Line.refresh id waker back) where
  line_eq := by rw [hsplit.line_eq, Line.refresh, List.map_append]; rfl
  front_woke entry hentry := by
    obtain ⟨old, hold, -, -, hwoke, -⟩ := mem_refresh hentry
    rw [hwoke]
    exact hsplit.front_woke old hold
  back_unwoken entry hentry := by
    obtain ⟨old, hold, -, -, hwoke, -⟩ := mem_refresh hentry
    rw [hwoke]
    exact hsplit.back_unwoken old hold
  fits := by
    have hcost : totalCost Entry.required (Line.refresh id waker front) =
        totalCost Entry.required front :=
      totalCost_map (fun entry => by split <;> rfl) front
    exact hcost ▸ hsplit.fits

end Remove

namespace Kept

variable {permits : Nat} {line : List (Entry ι W)}

theorem nil (permits : Nat) : Kept permits ([] : List (Entry ι W)) where
  promised := ⟨[], [], rfl, by simp, by simp, Nat.zero_le _⟩
  oldest := by simp

/-- The woken waiters require at most the available permits. -/
theorem woken_fit (hkept : Kept permits line) :
    totalCost Entry.required (line.filter Entry.woke) ≤ permits := by
  obtain ⟨front, back, hsplit⟩ := hkept.promised
  rw [hsplit.filter_woke]
  exact hsplit.fits

/-- Running the wake pass with at least the promised permits. -/
theorem serve (hkept : Kept permits line) {more : Nat} (hle : permits ≤ more) :
    ∃ front back, Served more (Line.serve more line) front back := by
  obtain ⟨front, back, hsplit⟩ := hkept.promised
  exact (hsplit.mono hle).serve

/-- Running the wake pass after a waiter left. -/
theorem serve_remove [DecidableEq ι] (hkept : Kept permits line) (id : ι) :
    ∃ front back, Served permits (Line.serve permits (Line.remove id line)) front back := by
  obtain ⟨front, back, hsplit⟩ := hkept.promised
  exact (hsplit.remove id).serve

/-- Running the wake pass after a woken waiter took its permits. -/
theorem serve_grant [DecidableEq ι] (hkept : Kept permits line) {id : ι} {entry : Entry ι W}
    (hfind : Line.find? id line = some entry) (hwoke : entry.woke = true) :
    ∃ front back, Served (permits - entry.required)
      (Line.serve (permits - entry.required) (Line.remove id line)) front back := by
  obtain ⟨front, back, hsplit⟩ := hkept.promised
  exact (hsplit.grant hfind hwoke).2.serve

/-- A woken waiter can always be granted its permits. -/
theorem required_le [DecidableEq ι] (hkept : Kept permits line) {id : ι} {entry : Entry ι W}
    (hfind : Line.find? id line = some entry) (hwoke : entry.woke = true) :
    entry.required ≤ permits := by
  obtain ⟨front, back, hsplit⟩ := hkept.promised
  exact (hsplit.grant hfind hwoke).1

/-- Taking permits past an empty line, or taking none. -/
theorem take (hkept : Kept permits line) {amount : Nat} (hfree : line = [] ∨ amount = 0) :
    Kept (permits - amount) line := by
  rcases hfree with rfl | rfl
  · exact Kept.nil _
  · exact hkept

/-- A waiter arrives that cannot be served at once. -/
theorem push (hkept : Kept permits line) {entry : Entry ι W} (hwoke : entry.woke = false)
    (hlong : line = [] → permits < entry.required) : Kept permits (line ++ [entry]) where
  promised := by
    obtain ⟨front, back, hsplit⟩ := hkept.promised
    refine ⟨front, back ++ [entry], ?_, hsplit.front_woke, ?_, hsplit.fits⟩
    · rw [hsplit.line_eq, List.append_assoc]
    · intro other hother
      rcases List.mem_append.mp hother with hold | hnew
      · exact hsplit.back_unwoken other hold
      · rw [List.mem_singleton.mp hnew, hwoke]
  oldest other hother := by
    cases line with
    | nil =>
        have heq : entry = other := by simpa using hother
        exact .inr (heq ▸ hlong rfl)
    | cons first rest => exact hkept.oldest other (by simpa using hother)

theorem refresh [DecidableEq ι] [Wakes W] (hkept : Kept permits line) (id : ι) (waker : W) :
    Kept permits (Line.refresh id waker line) where
  promised := by
    obtain ⟨front, back, hsplit⟩ := hkept.promised
    exact ⟨_, _, hsplit.refresh id waker⟩
  oldest entry hentry := by
    cases line with
    | nil => simp [Line.refresh] at hentry
    | cons first rest =>
        have hfirst := hkept.oldest first rfl
        simp only [Line.refresh, List.map_cons, List.head?_cons, Option.some.injEq] at hentry
        subst hentry
        split <;> simpa using hfirst

/-- When a waiter is woken, the waiters up to it require at most the permits. -/
theorem older_fit (hkept : Kept permits line) {older younger : List (Entry ι W)}
    {entry : Entry ι W} (hline : line = older ++ entry :: younger)
    (hwoke : entry.woke = true) :
    totalCost Entry.required older + entry.required ≤ permits := by
  subst hline
  obtain ⟨front, back, hsplit⟩ := hkept.promised
  obtain ⟨more, hmore⟩ := hsplit.older_woke hwoke
  have hfits := hsplit.fits
  rw [← hmore, totalCost_append, totalCost_append, totalCost_cons, totalCost_nil] at hfits
  omega

end Kept

/-! ## Who is woken by a step -/

section NewlyWoken

variable [DecidableEq ι] {before after line : List (Entry ι W)}

theorem find?_of_mem (hnodup : (line.map Entry.id).Nodup) {entry : Entry ι W}
    (hmem : entry ∈ line) : Line.find? entry.id line = some entry := by
  obtain ⟨older, younger, rfl⟩ := List.append_of_mem hmem
  exact find?_middle hnodup

/-- The wakers of the entries that are woken now and were not woken before. -/
def newlyWoken (before after : List (Entry ι W)) : List W :=
  (after.filter fun entry => entry.woke && (Line.find? entry.id before).any (! ·.woke)).flatMap
    (·.waker.toList)

/-- Nobody is newly woken when every woken entry was woken or absent before. -/
theorem newlyWoken_eq_nil
    (hold : ∀ entry ∈ after, entry.woke = true → ∀ old,
      Line.find? entry.id before = some old → old.woke = true) :
    newlyWoken before after = [] := by
  have hnone : after.filter (fun entry => entry.woke &&
      (Line.find? entry.id before).any (! ·.woke)) = [] := by
    rw [List.filter_eq_nil_iff]
    intro entry hentry
    cases hfind : Line.find? entry.id before with
    | none => simp
    | some old =>
        simp only [Option.any_some, Bool.and_eq_true, Bool.not_eq_true', not_and,
          Bool.not_eq_false]
        exact fun hwoke => hold entry hentry hwoke old hfind
  rw [newlyWoken, hnone, List.flatMap_nil]

/-- The wake pass over waiters that stay invokes the wakers of the newly woken ones. -/
theorem woken_eq_newlyWoken (hnodup : (before.map Entry.id).Nodup)
    (hstay : ∀ entry ∈ line, entry ∈ before) (permits : Nat) :
    Line.woken permits line = newlyWoken before (Line.serve permits line) := by
  have happend := splitFitting_append Entry.required permits line
  have hfind : ∀ entry ∈ line, Line.find? entry.id before = some entry :=
    fun entry hentry => find?_of_mem hnodup (hstay entry hentry)
  have hmarked : ((splitFitting Entry.required permits line).1.map Entry.mark).filter
        (fun entry => entry.woke && (Line.find? entry.id before).any (! ·.woke)) =
      ((splitFitting Entry.required permits line).1.filter (! ·.woke)).map Entry.mark := by
    rw [List.filter_map]
    congr 1
    refine List.filter_congr fun entry hentry => ?_
    simp [hfind entry (happend ▸ List.mem_append_left _ hentry)]
  have hrest : (splitFitting Entry.required permits line).2.filter
      (fun entry => entry.woke && (Line.find? entry.id before).any (! ·.woke)) = [] := by
    rw [List.filter_eq_nil_iff]
    intro entry hentry
    simp [hfind entry (happend ▸ List.mem_append_right _ hentry)]
  rw [newlyWoken, Line.serve, List.filter_append, hmarked, hrest, List.append_nil,
    List.flatMap_map]
  rfl

end NewlyWoken

end Platoon.Sync.Line
