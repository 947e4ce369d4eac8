import Platoon.Foundation.Budget
import Platoon.Foundation.Chain
import Platoon.Sync.Semaphore

/-!
# The waiter store is a line

`Inner` keeps its waiters in a slab, linked by keys.  `Holds inner cells` says
that the slab stores exactly the waiters `cells`, in arrival order, and that
the links, `head` and `tail` are those of this list.  Each method of `Inner`
gets one specification in terms of the list.
-/

namespace Platoon.Sync

open Platoon.Foundation Platoon.Rust

/-- A waiter without its links; `id` is what the line knows it by. -/
structure Entry (ι W : Type) where
  id : ι
  waker : Option W
  required : Nat
  woke : Bool
  deriving DecidableEq, Repr

namespace Entry

variable {ι κ W : Type}

def mark (entry : Entry ι W) : Entry ι W := { entry with woke := true }

def rename (f : ι → κ) (entry : Entry ι W) : Entry κ W :=
  { id := f entry.id, waker := entry.waker, required := entry.required, woke := entry.woke }

@[simp] theorem mark_id (entry : Entry ι W) : entry.mark.id = entry.id := rfl
@[simp] theorem mark_waker (entry : Entry ι W) : entry.mark.waker = entry.waker := rfl
@[simp] theorem mark_required (entry : Entry ι W) : entry.mark.required = entry.required := rfl
@[simp] theorem mark_woke (entry : Entry ι W) : entry.mark.woke = true := rfl

@[simp]
theorem rename_id (f : ι → κ) (entry : Entry ι W) : (entry.rename f).id = f entry.id := rfl

@[simp]
theorem rename_required (f : ι → κ) (entry : Entry ι W) :
    (entry.rename f).required = entry.required := rfl

@[simp]
theorem rename_woke (f : ι → κ) (entry : Entry ι W) : (entry.rename f).woke = entry.woke := rfl

@[simp]
theorem rename_waker (f : ι → κ) (entry : Entry ι W) :
    (entry.rename f).waker = entry.waker := rfl

@[simp]
theorem rename_mark (f : ι → κ) (entry : Entry ι W) :
    entry.mark.rename f = (entry.rename f).mark := rfl

end Entry

theorem mem_middle {α : Type} {item other : α} {front back : List α} :
    other ∈ front ++ item :: back ↔ other = item ∨ other ∈ front ++ back := by
  simp only [List.mem_append, List.mem_cons]
  exact or_left_comm

/-- The other cells of a line have other keys. -/
theorem id_ne_of_mem {ι W : Type} {front back : List (Entry ι W)} {cell other : Entry ι W}
    (hnodup : ((front ++ cell :: back).map Entry.id).Nodup) (hmem : other ∈ front ++ back) :
    other.id ≠ cell.id := by
  simp only [List.map_append, List.map_cons, List.nodup_append, List.nodup_cons] at hnodup
  rcases List.mem_append.mp hmem with hfront | hback
  · exact hnodup.2.2 other.id (List.mem_map_of_mem hfront) cell.id (by simp)
  · exact fun heq => hnodup.2.1.1 (heq ▸ List.mem_map_of_mem hback)

/-! ## Operations on a line -/

namespace Line

variable {ι κ W : Type}

/-- Mark the longest prefix whose requirements fit in `permits`. -/
def serve (permits : Nat) (line : List (Entry ι W)) : List (Entry ι W) :=
  (splitFitting Entry.required permits line).1.map Entry.mark ++
    (splitFitting Entry.required permits line).2

/-- The wakers invoked while marking: those of the entries not marked before. -/
def woken (permits : Nat) (line : List (Entry ι W)) : List W :=
  ((splitFitting Entry.required permits line).1.filter (! ·.woke)).flatMap (·.waker.toList)

@[simp] theorem serve_nil (permits : Nat) : serve permits ([] : List (Entry ι W)) = [] := rfl
@[simp] theorem woken_nil (permits : Nat) : woken permits ([] : List (Entry ι W)) = [] := rfl

theorem serve_cons_of_le {permits : Nat} {entry : Entry ι W} {rest : List (Entry ι W)}
    (hle : entry.required ≤ permits) :
    serve permits (entry :: rest) = entry.mark :: serve (permits - entry.required) rest := by
  simp [serve, splitFitting, hle]

theorem serve_cons_of_lt {permits : Nat} {entry : Entry ι W} {rest : List (Entry ι W)}
    (hlt : permits < entry.required) : serve permits (entry :: rest) = entry :: rest := by
  simp [serve, splitFitting, Nat.not_le.mpr hlt]

theorem woken_cons_of_le {permits : Nat} {entry : Entry ι W} {rest : List (Entry ι W)}
    (hle : entry.required ≤ permits) :
    woken permits (entry :: rest) =
      (if entry.woke then [] else entry.waker.toList) ++
        woken (permits - entry.required) rest := by
  cases hwoke : entry.woke <;> simp [woken, splitFitting, hle, hwoke]

theorem woken_cons_of_lt {permits : Nat} {entry : Entry ι W} {rest : List (Entry ι W)}
    (hlt : permits < entry.required) : woken permits (entry :: rest) = [] := by
  simp [woken, splitFitting, Nat.not_le.mpr hlt]

@[simp]
theorem serve_map_id (permits : Nat) (line : List (Entry ι W)) :
    (serve permits line).map Entry.id = line.map Entry.id := by
  conv_rhs => rw [← splitFitting_append Entry.required permits line]
  simp [serve, Function.comp_def]

/-- Serving only marks entries. -/
theorem mem_serve {permits : Nat} {entry : Entry ι W} {line : List (Entry ι W)}
    (hmem : entry ∈ serve permits line) :
    ∃ old ∈ line, entry = old ∨ entry = old.mark := by
  have happend := splitFitting_append Entry.required permits line
  rcases List.mem_append.mp hmem with hfront | hback
  · obtain ⟨old, hold, rfl⟩ := List.mem_map.mp hfront
    exact ⟨old, happend ▸ List.mem_append_left _ hold, .inr rfl⟩
  · exact ⟨entry, happend ▸ List.mem_append_right _ hback, .inl rfl⟩

theorem serve_rename (f : ι → κ) (permits : Nat) (line : List (Entry ι W)) :
    serve permits (line.map (Entry.rename f)) = (serve permits line).map (Entry.rename f) := by
  simp [serve, splitFitting_map (Entry.rename_required f), Function.comp_def]

theorem woken_rename (f : ι → κ) (permits : Nat) (line : List (Entry ι W)) :
    woken permits (line.map (Entry.rename f)) = woken permits line := by
  simp [woken, splitFitting_map (Entry.rename_required f), List.filter_map,
    List.flatMap_map, Function.comp_def]

variable [DecidableEq ι]

def find? (id : ι) (line : List (Entry ι W)) : Option (Entry ι W) :=
  line.find? fun entry => entry.id = id

def remove (id : ι) (line : List (Entry ι W)) : List (Entry ι W) :=
  line.filter fun entry => entry.id ≠ id

/-- The waker kept for a waiter that is polled again. -/
def refreshed [Wakes W] (stored : Option W) (polling : W) : W :=
  match stored with
  | some stored => Wakes.refresh stored polling
  | none => polling

def refresh [Wakes W] (id : ι) (waker : W) (line : List (Entry ι W)) : List (Entry ι W) :=
  line.map fun entry =>
    if entry.id = id then { entry with waker := some (refreshed entry.waker waker) } else entry

section Middle

variable {front back : List (Entry ι W)} {entry : Entry ι W}
variable (hnodup : ((front ++ entry :: back).map Entry.id).Nodup)
include hnodup

theorem find?_middle : find? entry.id (front ++ entry :: back) = some entry := by
  have hfront : front.find? (fun other => decide (other.id = entry.id)) = none := by
    simpa using fun other hother => id_ne_of_mem hnodup (List.mem_append_left _ hother)
  simp [find?, List.find?_append, hfront]

theorem remove_middle : remove entry.id (front ++ entry :: back) = front ++ back := by
  have hrest : (front ++ back).filter (fun other => decide (other.id ≠ entry.id)) =
      front ++ back := by
    simpa only [List.filter_eq_self, decide_eq_true_eq] using
      fun other hother => id_ne_of_mem hnodup hother
  rw [List.filter_append] at hrest
  rw [remove, List.filter_append, List.filter_cons_of_neg (by simp), hrest]

theorem refresh_middle [Wakes W] (waker : W) :
    refresh entry.id waker (front ++ entry :: back) =
      front ++ { entry with waker := some (refreshed entry.waker waker) } :: back := by
  have hothers : ∀ part : List (Entry ι W), (∀ other ∈ part, other ∈ front ++ back) →
      part.map (fun other => if other.id = entry.id then
        { other with waker := some (refreshed other.waker waker) } else other) = part := by
    intro part hpart
    refine (List.map_congr_left fun other hother => ?_).trans (List.map_id part)
    exact if_neg (id_ne_of_mem hnodup (hpart other hother))
  rw [refresh, List.map_append, List.map_cons, if_pos rfl,
    hothers front fun other h => List.mem_append_left _ h,
    hothers back fun other h => List.mem_append_right _ h]

end Middle

end Line

variable {S : Type → Type} [Slab S] {W : Type}

/-- A stored waiter as a cell of the line. -/
def Waiter.entry (key : Nat) (waiter : Waiter W) : Entry Nat W :=
  { id := key, waker := waiter.waker, required := waiter.required, woke := waiter.woke }

def linksOf (waiters : S (Waiter W)) (key : Nat) : Option (Links Nat) :=
  (Slab.get? waiters key).map fun waiter => ⟨waiter.next, waiter.prev⟩

/-- The slab stores exactly `cells`, linked in this order. -/
structure Stores (waiters : S (Waiter W)) (cells : List (Entry Nat W)) : Prop where
  nodup : (cells.map Entry.id).Nodup
  entries : ∀ cell ∈ cells, ∃ waiter,
    Slab.get? waiters cell.id = some waiter ∧ waiter.entry cell.id = cell
  occupied : ∀ key, (Slab.get? waiters key).isSome → key ∈ cells.map Entry.id
  linked : Segment (linksOf waiters) none (cells.map Entry.id) none

/-- The semaphore holds the waiters `cells`, oldest first. -/
structure Inner.Holds (inner : Inner S W) (cells : List (Entry Nat W)) : Prop extends
    Stores inner.waiters cells where
  tail : inner.tail = (cells.map Entry.id).head?
  head : inner.head = (cells.map Entry.id).getLast?

/-- The waiter that stores a cell with the given neighbours. -/
def Entry.waiter (cell : Entry Nat W) (next prev : Option Nat) : Waiter W :=
  { waker := cell.waker, next, prev, required := cell.required, woke := cell.woke }

@[simp]
theorem Entry.waiter_entry (cell : Entry Nat W) (next prev : Option Nat) :
    (cell.waiter next prev).entry cell.id = cell := rfl

namespace Stores

variable {waiters : S (Waiter W)} {cells front back : List (Entry Nat W)}
variable {cell : Entry Nat W}

theorem mem_iff (hstores : Stores waiters cells) (key : Nat) :
    key ∈ cells.map Entry.id ↔ (Slab.get? waiters key).isSome := by
  constructor
  · intro hmem
    obtain ⟨cell, hcell, rfl⟩ := List.mem_map.mp hmem
    obtain ⟨waiter, hget, -⟩ := hstores.entries cell hcell
    simp [hget]
  · exact hstores.occupied key

theorem len_eq (hstores : Stores waiters cells) : Slab.len waiters = cells.length := by
  rw [Slab.len_eq waiters _ hstores.nodup hstores.mem_iff, List.length_map]

theorem isEmpty_iff (hstores : Stores waiters cells) :
    Slab.isEmpty waiters = true ↔ cells = [] := by
  rw [Slab.isEmpty_iff_of_keys hstores.nodup hstores.mem_iff, List.map_eq_nil_iff]

/-- What the slab stores under the key of a cell. -/
theorem get (hstores : Stores waiters (front ++ cell :: back)) :
    Slab.get? waiters cell.id =
      some (cell.waiter (front.map Entry.id).getLast? (back.map Entry.id).head?) := by
  obtain ⟨waiter, hget, hentry⟩ := hstores.entries cell (by simp)
  have hlinked := hstores.linked
  rw [List.map_append, List.map_cons] at hlinked
  have hlinks := hlinked.links_eq
  simp only [linksOf, hget, Option.map_some, Option.or_none, Option.some.injEq,
    Links.mk.injEq] at hlinks
  have hwaiter : waiter = cell.waiter waiter.next waiter.prev := by
    rw [← hentry]
    rfl
  rw [hget, ← hlinks.1, ← hlinks.2, ← hwaiter]

/-- Changing a waiter without its links changes one cell. -/
theorem replace (hstores : Stores waiters (front ++ cell :: back)) {cell' : Entry Nat W}
    (hid : cell'.id = cell.id) :
    Stores (Slab.set waiters cell.id
        (cell'.waiter (front.map Entry.id).getLast? (back.map Entry.id).head?))
      (front ++ cell' :: back) := by
  have hget := hstores.get
  have hset := fun key => Slab.get?_set waiters cell.id
    (cell'.waiter (front.map Entry.id).getLast? (back.map Entry.id).head?) key (by simp [hget])
  have hids : (front ++ cell' :: back).map Entry.id = (front ++ cell :: back).map Entry.id := by
    simp [hid]
  refine ⟨hids ▸ hstores.nodup, ?_, ?_, ?_⟩
  · intro other hother
    rcases mem_middle.mp hother with rfl | hold
    · exact ⟨_, by rw [hset, if_pos hid], rfl⟩
    · rw [hset, if_neg (id_ne_of_mem hstores.nodup hold)]
      exact hstores.entries other (mem_middle.mpr (.inr hold))
  · intro key hkey
    rw [hids]
    apply hstores.occupied
    rw [hset] at hkey
    split at hkey
    · rename_i heq
      simp [heq, hget]
    · exact hkey
  · rw [hids]
    refine hstores.linked.congr fun key _ => ?_
    simp only [linksOf, hset]
    split
    · rename_i heq
      simp [heq, hget, Entry.waiter]
    · rfl

/-- Linking a new youngest waiter under a vacant key. -/
theorem push (hstores : Stores waiters cells) {waiters' : S (Waiter W)}
    (hvacant : Slab.get? waiters cell.id = none)
    (hkey : Slab.get? waiters' cell.id =
      some (cell.waiter (cells.map Entry.id).getLast? none))
    (hothers : ∀ key, key ≠ cell.id → Slab.get? waiters' key =
      (Slab.get? waiters key).map fun waiter =>
        if (cells.map Entry.id).getLast? = some key then { waiter with prev := some cell.id }
        else waiter) :
    Stores waiters' (cells ++ [cell]) := by
  have hfresh : cell.id ∉ cells.map Entry.id := by simp [hstores.mem_iff, hvacant]
  have hne : ∀ other ∈ cells, other.id ≠ cell.id :=
    fun other hother heq => hfresh (heq ▸ List.mem_map_of_mem hother)
  refine ⟨?_, ?_, ?_, ?_⟩
  · rw [List.map_append, List.nodup_append]
    refine ⟨hstores.nodup, by simp, ?_⟩
    intro key hkey other hother
    rw [List.map_singleton, List.mem_singleton] at hother
    rw [hother]
    exact fun heq => hfresh (heq ▸ hkey)
  · intro other hother
    rcases List.mem_append.mp hother with hold | hnew
    · obtain ⟨waiter, hget, hentry⟩ := hstores.entries other hold
      refine ⟨_, by rw [hothers other.id (hne other hold), hget]; rfl, ?_⟩
      rw [← hentry]
      split <;> rfl
    · rw [List.mem_singleton.mp hnew]
      exact ⟨_, hkey, rfl⟩
  · intro key hsome
    by_cases heq : key = cell.id
    · simp [heq]
    · rw [hothers key heq, Option.isSome_map] at hsome
      simpa using .inl (List.mem_map.mp (hstores.occupied key hsome))
  · rw [List.map_append, List.map_singleton]
    refine hstores.linked.push hstores.nodup (by simp [linksOf, hkey, Entry.waiter]) ?_ ?_
    · intro last hlast link hlink
      have hmem : last ∈ cells.map Entry.id := List.mem_of_mem_getLast? hlast
      have hnot : last ≠ cell.id := fun heq => hfresh (heq ▸ hmem)
      obtain ⟨waiter, hget, rfl⟩ := Option.map_eq_some_iff.mp hlink
      simp only [linksOf, hothers last hnot, hget, hlast, Option.map_some, ↓reduceIte]
    · intro other hmem hnot
      have hdiff : other ≠ cell.id := fun heq => hfresh (heq ▸ hmem)
      simp only [linksOf, hothers other hdiff, hnot, ↓reduceIte, Option.map_map]
      rfl

/-- Unlinking a waiter at any position. -/
theorem cut (hstores : Stores waiters (front ++ cell :: back)) {waiters' : S (Waiter W)}
    (hkey : Slab.get? waiters' cell.id = none)
    (hothers : ∀ key, key ≠ cell.id → Slab.get? waiters' key =
      (Slab.get? waiters key).map fun waiter =>
        { waiter with
          prev := if (front.map Entry.id).getLast? = some key
            then (back.map Entry.id).head? else waiter.prev
          next := if (back.map Entry.id).head? = some key
            then (front.map Entry.id).getLast? else waiter.next }) :
    Stores waiters' (front ++ back) := by
  have hnodup := hstores.nodup
  have hlinked := hstores.linked
  rw [List.map_append, List.map_cons] at hnodup hlinked
  have hmiddle : ∀ key, key ∈ front.map Entry.id ++ back.map Entry.id → key ≠ cell.id := by
    intro key hmem
    rw [← List.map_append] at hmem
    obtain ⟨other, hother, rfl⟩ := List.mem_map.mp hmem
    exact id_ne_of_mem hstores.nodup hother
  refine ⟨?_, ?_, ?_, ?_⟩
  · rw [List.map_append]
    exact hnodup.sublist (by simp)
  · intro other hother
    have hne := id_ne_of_mem hstores.nodup hother
    obtain ⟨waiter, hget, hentry⟩ := hstores.entries other (mem_middle.mpr (.inr hother))
    exact ⟨_, by rw [hothers other.id hne, hget]; rfl, by rw [← hentry]; rfl⟩
  · intro key hsome
    have hne : key ≠ cell.id := by
      rintro rfl
      simp [hkey] at hsome
    rw [hothers key hne, Option.isSome_map] at hsome
    obtain ⟨other, hother, hid⟩ := List.mem_map.mp (hstores.occupied key hsome)
    rcases mem_middle.mp hother with rfl | hmem
    · exact absurd hid.symm hne
    · exact List.mem_map.mpr ⟨other, hmem, hid⟩
  · rw [List.map_append]
    refine hlinked.cut hnodup ?_ ?_ ?_
    · intro last hlast link hlink
      have hmem : last ∈ front.map Entry.id := List.mem_of_mem_getLast? hlast
      have hnot : (back.map Entry.id).head? ≠ some last := by
        intro hhead
        exact (List.nodup_append.mp hnodup).2.2 last hmem last
          (List.mem_cons_of_mem _ (List.mem_of_mem_head? hhead)) rfl
      obtain ⟨waiter, hget, rfl⟩ := Option.map_eq_some_iff.mp hlink
      simp only [linksOf, hothers last (hmiddle last (List.mem_append_left _ hmem)), hget,
        hlast, hnot, Option.map_some, ↓reduceIte]
    · intro first hfirst link hlink
      have hmem : first ∈ back.map Entry.id := List.mem_of_mem_head? hfirst
      have hnot : (front.map Entry.id).getLast? ≠ some first := by
        intro hlast
        exact (List.nodup_append.mp hnodup).2.2 first (List.mem_of_mem_getLast? hlast) first
          (List.mem_cons_of_mem _ hmem) rfl
      obtain ⟨waiter, hget, rfl⟩ := Option.map_eq_some_iff.mp hlink
      simp only [linksOf, hothers first (hmiddle first (List.mem_append_right _ hmem)), hget,
        hfirst, hnot, Option.map_some, ↓reduceIte]
    · intro other hmem hnotLast hnotFirst
      simp only [linksOf, hothers other (hmiddle other hmem), hnotLast, hnotFirst,
        ↓reduceIte, Option.map_map]
      rfl

end Stores

/-! ## The methods of `Inner` -/

namespace Inner

theorem linkNext_spec (inner : Inner S W) (prev next : Option Nat)
    (hprev : ∀ key, prev = some key → (Slab.get? inner.waiters key).isSome) :
    ∃ inner', inner.linkNext prev next = .ok inner' ∧ inner'.permits = inner.permits ∧
      inner'.tail = inner.tail ∧
      inner'.head = (if prev.isNone then next else inner.head) ∧
      ∀ key, Slab.get? inner'.waiters key = (Slab.get? inner.waiters key).map fun waiter =>
        if prev = some key then { waiter with next } else waiter := by
  cases prev with
  | none => exact ⟨_, rfl, rfl, rfl, rfl, fun key => by simp⟩
  | some prev =>
      obtain ⟨other, hother⟩ := Option.isSome_iff_exists.mp (hprev prev rfl)
      simp only [linkNext, index_of_get? hother, ok_bind]
      refine ⟨_, rfl, rfl, rfl, rfl, fun key => ?_⟩
      simpa using Slab.get?_set_map (fun waiter => { waiter with next }) hother key

theorem linkPrev_spec (inner : Inner S W) (next prev : Option Nat)
    (hnext : ∀ key, next = some key → (Slab.get? inner.waiters key).isSome) :
    ∃ inner', inner.linkPrev next prev = .ok inner' ∧ inner'.permits = inner.permits ∧
      inner'.head = inner.head ∧
      inner'.tail = (if next.isNone then prev else inner.tail) ∧
      ∀ key, Slab.get? inner'.waiters key = (Slab.get? inner.waiters key).map fun waiter =>
        if next = some key then { waiter with prev } else waiter := by
  cases next with
  | none => exact ⟨_, rfl, rfl, rfl, rfl, fun key => by simp⟩
  | some next =>
      obtain ⟨other, hother⟩ := Option.isSome_iff_exists.mp (hnext next rfl)
      simp only [linkPrev, index_of_get? hother, ok_bind]
      refine ⟨_, rfl, rfl, rfl, rfl, fun key => ?_⟩
      simpa using Slab.get?_set_map (fun waiter => { waiter with prev }) hother key

end Inner

namespace Inner.Holds

variable {inner : Inner S W} {cells front back : List (Entry Nat W)} {cell : Entry Nat W}

/-- `add` appends a waiter as the youngest, under a key that was vacant. -/
theorem add (hholds : inner.Holds cells) (waker : W) (required : Nat) :
    ∃ inner' key, inner.add waker required = .ok (inner', key) ∧
      key ∉ cells.map Entry.id ∧ inner'.permits = inner.permits ∧
      inner'.Holds (cells ++ [⟨key, some waker, required, false⟩]) := by
  have hvacant := Slab.get?_vacantKey inner.waiters
  have hfresh : Slab.vacantKey inner.waiters ∉ cells.map Entry.id := by
    simp [hholds.mem_iff, hvacant]
  rcases List.eq_nil_or_concat cells with rfl | ⟨front, last, rfl⟩
  · have hhead : inner.head = none := hholds.head
    have htail : inner.tail = none := hholds.tail
    simp only [Inner.add, hhead, htail, ok_bind, pure_eq_ok]
    refine ⟨_, _, rfl, hfresh, rfl, hholds.toStores.push hvacant ?_ ?_, rfl, rfl⟩
    · rw [Slab.get?_insert, if_pos rfl]
      rfl
    · intro key hkey
      rw [Slab.get?_insert, if_neg hkey]
      simp
  · rw [List.concat_eq_append] at *
    have hhead : inner.head = some last.id := by simp [hholds.head]
    have htail : inner.tail.isNone = false := by
      rw [hholds.tail, List.map_append, List.head?_append]
      cases (front.map Entry.id).head? <;> rfl
    have hne : last.id ≠ Slab.vacantKey inner.waiters := by
      intro heq
      exact hfresh (by simp [heq])
    have hget := hholds.toStores.get
    have hindex := index_of_get? ((Slab.get?_insert inner.waiters
      ({ waker := some waker, required, woke := false, next := some last.id, prev := none } :
        Waiter W) last.id).trans (by rw [if_neg hne, hget]))
    simp only [Inner.add, hhead, htail, hindex, ok_bind, pure_eq_ok]
    refine ⟨_, _, rfl, hfresh, rfl, hholds.toStores.push hvacant ?_ ?_, ?_, ?_⟩
    · rw [Slab.get?_set _ _ _ _ (by simp [hne, hget]), if_neg hne.symm, Slab.get?_insert,
        if_pos rfl]
      simp [Entry.waiter]
    · intro key hkey
      rw [Slab.get?_set _ _ _ _ (by simp [hne, hget]), Slab.get?_insert, if_neg hkey]
      by_cases heq : key = last.id
      · subst heq
        simp [hget]
      · have hlast : last.id ≠ key := fun h => heq h.symm
        simp [heq, hlast]
    · simp only [Bool.false_eq_true, ↓reduceIte, hholds.tail, List.map_append,
        List.head?_append, List.map_singleton, List.head?_cons]
      cases (front.map Entry.id).head? <;> rfl
    · simp

/-- `remove` deletes one waiter at any position and keeps the order of the others. -/
theorem remove (hholds : inner.Holds (front ++ cell :: back)) :
    ∃ inner', inner.remove cell.id = .ok inner' ∧ inner'.permits = inner.permits ∧
      inner'.Holds (front ++ back) := by
  have hremove := fun key => Slab.get?_remove inner.waiters cell.id key
    (by simp [hholds.toStores.get])
  have hkept : ∀ key ∈ (front ++ back).map Entry.id,
      (Slab.get? (Slab.remove inner.waiters cell.id) key).isSome := by
    intro key hkey
    obtain ⟨other, hother, rfl⟩ := List.mem_map.mp hkey
    obtain ⟨waiter, hget, -⟩ := hholds.entries other (mem_middle.mpr (.inr hother))
    rw [hremove, if_neg (id_ne_of_mem hholds.nodup hother), hget]
    rfl
  obtain ⟨first, hfirst, hpermits₁, htail₁, hhead₁, hget₁⟩ := linkNext_spec
    { inner with waiters := Slab.remove inner.waiters cell.id }
    (back.map Entry.id).head? (front.map Entry.id).getLast?
    (fun key hkey => hkept key (by simp [List.mem_of_mem_head? hkey]))
  obtain ⟨second, hsecond, hpermits₂, hhead₂, htail₂, hget₂⟩ := linkPrev_spec first
    (front.map Entry.id).getLast? (back.map Entry.id).head?
    (fun key hkey => by
      rw [hget₁, Option.isSome_map]
      exact hkept key (by simp [List.mem_of_mem_getLast? hkey]))
  refine ⟨second, ?_, by rw [hpermits₂, hpermits₁], hholds.toStores.cut ?_ ?_, ?_, ?_⟩
  · simp only [Inner.remove, index_of_get? hholds.toStores.get, ok_bind, Entry.waiter, hfirst,
      hsecond]
  · simp [hget₂, hget₁, hremove]
  · intro key hkey
    rw [hget₂, hget₁, hremove, if_neg hkey, Option.map_map]
    congr 1
    funext waiter
    simp only [Function.comp_apply]
    split <;> split <;> rfl
  · rw [htail₂, htail₁, hholds.tail]
    cases front <;> simp
  · rw [hhead₂, hhead₁, hholds.head]
    cases back <;> simp

/-- The loop of `wake` over the not yet visited waiters `back`. -/
theorem wakeLoop_spec (profile : Profile) {waiters : S (Waiter W)} {fuel : Nat}
    (hstores : Stores waiters (front ++ back)) (hfuel : back.length ≤ fuel) (permits : Nat) :
    ∃ waiters', Inner.wakeLoop profile fuel waiters permits (back.map Entry.id).head? =
        .ok (waiters', Line.woken permits back) ∧
      Stores waiters' (front ++ Line.serve permits back) := by
  induction back generalizing front waiters fuel permits with
  | nil => exact ⟨waiters, by simp [Inner.wakeLoop], hstores⟩
  | cons cell rest ih =>
      obtain ⟨fuel, rfl⟩ := Nat.exists_eq_add_of_lt (Nat.lt_of_lt_of_le (Nat.succ_pos _) hfuel)
      simp only [Nat.zero_add, List.length_cons, Nat.add_le_add_iff_right] at hfuel ⊢
      simp only [List.map_cons, List.head?_cons, Inner.wakeLoop,
        index_of_get? hstores.get, ok_bind, Entry.waiter]
      by_cases hlt : permits < cell.required
      · rw [if_pos hlt, Line.serve_cons_of_lt hlt, Line.woken_cons_of_lt hlt]
        exact ⟨waiters, rfl, hstores⟩
      · have hle : cell.required ≤ permits := Nat.not_lt.mp hlt
        rw [if_neg hlt, Profile.sub_of_le hle, Line.serve_cons_of_le hle,
          Line.woken_cons_of_le hle]
        cases hwoke : cell.woke with
        | true =>
            have hmark : cell.mark = cell := by
              cases cell
              simp_all [Entry.mark]
            rw [List.append_cons] at hstores
            obtain ⟨waiters', hloop, hstores'⟩ := ih hstores hfuel (permits - cell.required)
            refine ⟨waiters', by simp only [ok_bind, hloop, ↓reduceIte, List.nil_append], ?_⟩
            simpa [hmark] using hstores'
        | false =>
            have hreplace := hstores.replace cell.mark_id
            rw [List.append_cons] at hreplace
            obtain ⟨waiters', hloop, hstores'⟩ := ih hreplace hfuel (permits - cell.required)
            simp only [Entry.waiter, Entry.mark_waker, Entry.mark_required,
              Entry.mark_woke] at hloop
            refine ⟨waiters',
              by simp only [ok_bind, hloop, Bool.false_eq_true, ↓reduceIte], ?_⟩
            simpa using hstores'

/-- `wake` terminates and marks the longest prefix that fits. -/
theorem wake (hholds : inner.Holds cells) (profile : Profile) :
    ∃ inner', inner.wake profile = .ok (inner', Line.woken inner.permits cells) ∧
      inner'.permits = inner.permits ∧ inner'.Holds (Line.serve inner.permits cells) := by
  have hstores : Stores inner.waiters ([] ++ cells) := hholds.toStores
  obtain ⟨waiters', hloop, hstores'⟩ := wakeLoop_spec profile hstores
    (Nat.le_of_eq hholds.len_eq.symm) inner.permits
  simp only [Inner.wake, hholds.tail, hloop, ok_bind, pure_eq_ok]
  exact ⟨_, rfl, rfl, hstores', by simp, by simp [hholds.head]⟩

theorem withPermits (hholds : inner.Holds cells) (permits : Nat) :
    { inner with permits }.Holds cells :=
  ⟨hholds.toStores, hholds.tail, hholds.head⟩

/-- Changing a waiter without its links changes one cell. -/
theorem replace (hholds : inner.Holds (front ++ cell :: back)) {cell' : Entry Nat W}
    (hid : cell'.id = cell.id) :
    { inner with
      waiters := Slab.set inner.waiters cell.id
        (cell'.waiter (front.map Entry.id).getLast? (back.map Entry.id).head?) }.Holds
      (front ++ cell' :: back) := by
  have hids : (front ++ cell' :: back).map Entry.id = (front ++ cell :: back).map Entry.id := by
    simp [hid]
  exact ⟨hholds.toStores.replace hid, hids ▸ hholds.tail, hids ▸ hholds.head⟩

/-- `try_acquire` takes permits only past an empty line, or takes none. -/
theorem tryAcquire (hholds : inner.Holds cells) (profile : Profile) (required : Nat) :
    inner.tryAcquire profile required =
      if required ≤ inner.permits ∧ (cells = [] ∨ required = 0) then
        .ok ({ inner with permits := inner.permits - required }, true)
      else .ok (inner, false) := by
  unfold Inner.tryAcquire
  simp only [ge_iff_le, hholds.isEmpty_iff]
  split
  · rename_i hcond
    rw [Profile.sub_of_le hcond.1]
    rfl
  · rfl

section PollAcquire

variable [Wakes W] (profile : Profile) (waker : W)

/-- A first poll that takes its permits at once. -/
theorem pollAcquire_take (hholds : inner.Holds cells) {permits : Nat}
    (htake : permits ≤ inner.permits ∧ (cells = [] ∨ permits = 0)) :
    inner.pollAcquire profile permits .idle waker =
      .ok ({ inner with permits := inner.permits - permits }, .idle, .ready (), []) := by
  simp [Inner.pollAcquire, hholds.tryAcquire, htake]

/-- A first poll that has to wait. -/
theorem pollAcquire_wait (hholds : inner.Holds cells) {permits : Nat}
    (hwait : ¬ (permits ≤ inner.permits ∧ (cells = [] ∨ permits = 0))) :
    ∃ inner' key, inner.pollAcquire profile permits .idle waker =
        .ok (inner', .waiting key, .pending, []) ∧
      key ∉ cells.map Entry.id ∧ inner'.permits = inner.permits ∧
      inner'.Holds (cells ++ [⟨key, some waker, permits, false⟩]) := by
  obtain ⟨inner', key, hadd, hfresh, hpermits, hholds'⟩ := hholds.add waker permits
  refine ⟨inner', key, ?_, hfresh, hpermits, hholds'⟩
  simp [Inner.pollAcquire, hholds.tryAcquire, hwait, hadd]

/-- A poll of a woken waiter takes its permits, unlinks it and passes the rest on. -/
theorem pollAcquire_grant (hholds : inner.Holds (front ++ cell :: back)) (permits : Nat)
    (hwoke : cell.woke = true) (hle : cell.required ≤ inner.permits) :
    ∃ inner', inner.pollAcquire profile permits (.waiting cell.id) waker =
        .ok (inner', .done, .ready (),
          Line.woken (inner.permits - cell.required) (front ++ back)) ∧
      inner'.permits = inner.permits - cell.required ∧
      inner'.Holds (Line.serve (inner.permits - cell.required) (front ++ back)) := by
  obtain ⟨removed, hremove, hpermits, hholds'⟩ :=
    (hholds.withPermits (inner.permits - cell.required)).remove
  obtain ⟨inner', hwake, hpermits', hserved⟩ := hholds'.wake profile
  rw [hpermits] at hwake hpermits' hserved
  refine ⟨inner', ?_, hpermits', hserved⟩
  simp [Inner.pollAcquire, index_of_get? hholds.toStores.get, Entry.waiter, hwoke, hle,
    Profile.sub_of_le hle, hremove, hwake]

/-- A poll of a woken waiter whose permits are gone fails its assertion. -/
theorem pollAcquire_assert (hholds : inner.Holds (front ++ cell :: back)) (permits : Nat)
    (hwoke : cell.woke = true) (hlt : ¬ cell.required ≤ inner.permits) :
    inner.pollAcquire profile permits (.waiting cell.id) waker = .error .assertionFailed := by
  simp [Inner.pollAcquire, index_of_get? hholds.toStores.get, Entry.waiter, hwoke, hlt]

/-- A poll of a waiter that is not woken only refreshes its waker. -/
theorem pollAcquire_refresh (hholds : inner.Holds (front ++ cell :: back)) (permits : Nat)
    (hwoke : cell.woke = false) :
    ∃ inner', inner.pollAcquire profile permits (.waiting cell.id) waker =
        .ok (inner', .waiting cell.id, .pending, []) ∧
      inner'.permits = inner.permits ∧
      inner'.Holds
        (front ++ { cell with waker := some (Line.refreshed cell.waker waker) } :: back) := by
  let polled : Entry Nat W := { cell with waker := some waker, woke := false }
  have hset : Inner.Holds _ (front ++ polled :: back) := hholds.replace rfl
  simp only [Inner.pollAcquire, index_of_get? hholds.toStores.get, ok_bind, Entry.waiter, hwoke,
    Bool.false_eq_true, ↓reduceIte]
  cases hstored : cell.waker with
  | none => exact ⟨_, rfl, rfl, hset⟩
  | some stored =>
      simp only [Line.refreshed, Wakes.refresh]
      by_cases hsame : Wakes.willWake stored waker = true
      · have hcell : ⟨cell.id, some stored, cell.required, false⟩ = cell := by
          rw [← hstored, ← hwoke]
        simp only [hsame, ↓reduceIte, hcell]
        exact ⟨inner, rfl, rfl, hholds⟩
      · simp only [hsame, Bool.false_eq_true, ↓reduceIte]
        exact ⟨_, rfl, rfl, hset⟩

end PollAcquire

end Inner.Holds

/-! ## Reading the line -/

namespace Inner

/-- Follow `prev` from a key for at most `fuel` waiters. -/
def walk (waiters : S (Waiter W)) : Nat → Option Nat → List (Entry Nat W)
  | fuel + 1, some key =>
      match Slab.get? waiters key with
      | some waiter => waiter.entry key :: walk waiters fuel waiter.prev
      | none => []
  | _, _ => []

/-- The waiters from the oldest to the youngest, read from `tail` along `prev`. -/
def line (inner : Inner S W) : List (Entry Nat W) :=
  walk inner.waiters (Slab.len inner.waiters) inner.tail

theorem walk_eq {waiters : S (Waiter W)} {front back : List (Entry Nat W)} {fuel : Nat}
    (hstores : Stores waiters (front ++ back)) (hfuel : back.length ≤ fuel) :
    walk waiters fuel (back.map Entry.id).head? = back := by
  induction back generalizing front fuel with
  | nil => cases fuel <;> rfl
  | cons cell rest ih =>
      obtain ⟨fuel, rfl⟩ := Nat.exists_eq_add_of_lt (Nat.lt_of_lt_of_le (Nat.succ_pos _) hfuel)
      simp only [Nat.zero_add, List.length_cons, Nat.add_le_add_iff_right] at hfuel ⊢
      have hshift : Stores waiters ((front ++ [cell]) ++ rest) := by simpa using hstores
      simp only [List.map_cons, List.head?_cons, walk, hstores.get, Entry.waiter_entry]
      rw [Entry.waiter, ih hshift hfuel]

theorem Holds.line_eq {inner : Inner S W} {cells : List (Entry Nat W)}
    (hholds : inner.Holds cells) : inner.line = cells := by
  have hstores : Stores inner.waiters ([] ++ cells) := hholds.toStores
  rw [line, hholds.tail]
  exact walk_eq hstores (Nat.le_of_eq hholds.len_eq.symm)

theorem new_holds (permits : Nat) : (Semaphore.new permits : Inner S W).Holds [] :=
  ⟨⟨List.nodup_nil, by simp, by simp [Semaphore.new], trivial⟩, rfl, rfl⟩

end Inner

end Platoon.Sync
