import Mathlib.Data.List.Basic
import Mathlib.Data.List.Nodup
import Mathlib.Tactic.Common

/-!
# Doubly linked chains

The links of a store are a partial function from keys to a `next` and a `prev`
key.  A chain is read from its tail along `prev`.  `Segment before keys after`
says that the links of `keys` agree with that reading, where `before` is the
key that the first one names as its `next` and `after` the key that the last
one names as its `prev`.  Appending a key and cutting one out of any position
are described by how the links change at the touched keys.
-/

namespace Platoon.Foundation

/-- The two neighbours recorded for a key. -/
structure Links (κ : Type) where
  next : Option κ
  prev : Option κ

variable {κ : Type}

/-- The links of `keys` form one chain segment between `before` and `after`. -/
def Segment (links : κ → Option (Links κ)) : Option κ → List κ → Option κ → Prop
  | _, [], _ => True
  | before, key :: rest, after =>
      links key = some ⟨before, rest.head?.or after⟩ ∧ Segment links (some key) rest after

namespace Segment

variable {links links' : κ → Option (Links κ)} {before before' after after' : Option κ}
variable {keys front back : List κ} {key : κ}

/-- A segment depends only on the links of its own keys. -/
theorem congr (hsegment : Segment links before keys after)
    (hsame : ∀ key ∈ keys, links' key = links key) : Segment links' before keys after := by
  induction keys generalizing before with
  | nil => trivial
  | cons key rest ih =>
      obtain ⟨hkey, hrest⟩ := hsegment
      refine ⟨?_, ih hrest fun other hother => hsame other (by simp [hother])⟩
      rw [hsame key (by simp), hkey]

theorem append_iff :
    Segment links before (front ++ back) after ↔
      Segment links before front (back.head?.or after) ∧
        Segment links (front.getLast?.or before) back after := by
  induction front generalizing before with
  | nil => simp [Segment]
  | cons key rest ih =>
      have hlast : (key :: rest).getLast?.or before = rest.getLast?.or (some key) := by
        rw [List.getLast?_cons]
        cases rest.getLast? <;> rfl
      have hhead : (rest ++ back).head?.or after = rest.head?.or (back.head?.or after) := by
        rw [List.head?_append, Option.or_assoc]
      simp only [List.cons_append, Segment, hhead, hlast, ih, and_assoc]

/-- The links of a key inside a segment name its two neighbours. -/
theorem links_eq (hsegment : Segment links before (front ++ key :: back) after) :
    links key = some ⟨front.getLast?.or before, back.head?.or after⟩ :=
  (append_iff.mp hsegment).2.1

/-- Redirecting the last key's `prev` changes where a segment ends. -/
theorem change_after (hsegment : Segment links before keys after) (hnodup : keys.Nodup)
    (hlast : ∀ last, keys.getLast? = some last →
      ∀ link, links last = some link → links' last = some { link with prev := after' })
    (hsame : ∀ key ∈ keys, keys.getLast? ≠ some key → links' key = links key) :
    Segment links' before keys after' := by
  rcases List.eq_nil_or_concat keys with rfl | ⟨front, last, rfl⟩
  · trivial
  · rw [List.concat_eq_append] at *
    obtain ⟨hfront, hend, -⟩ := append_iff.mp hsegment
    refine append_iff.mpr ⟨?_, ?_, trivial⟩
    · refine congr (by simpa using hfront) fun key hkey => hsame key (by simp [hkey]) ?_
      rintro hlast'
      simp only [List.getLast?_append, List.getLast?_singleton, Option.some_or,
        Option.some.injEq] at hlast'
      subst hlast'
      rw [List.nodup_append] at hnodup
      exact hnodup.2.2 last hkey last (by simp) rfl
    · rw [hlast last (by simp) _ hend]
      simp

/-- Redirecting the first key's `next` changes where a segment starts. -/
theorem change_before (hsegment : Segment links before keys after) (hnodup : keys.Nodup)
    (hfirst : ∀ first, keys.head? = some first →
      ∀ link, links first = some link → links' first = some { link with next := before' })
    (hsame : ∀ key ∈ keys, keys.head? ≠ some key → links' key = links key) :
    Segment links' before' keys after := by
  cases keys with
  | nil => trivial
  | cons first rest =>
      obtain ⟨hhead, hrest⟩ := hsegment
      refine ⟨by rw [hfirst first rfl _ hhead], congr hrest fun key hkey => ?_⟩
      refine hsame key (by simp [hkey]) ?_
      intro heq
      cases heq
      exact (List.nodup_cons.mp hnodup).1 hkey

/-- Appending a key: the old last key points to it, and it closes the chain. -/
theorem push (hsegment : Segment links none keys none) (hnodup : keys.Nodup)
    (hkey : links' key = some ⟨keys.getLast?, none⟩)
    (hlast : ∀ last, keys.getLast? = some last →
      ∀ link, links last = some link → links' last = some { link with prev := some key })
    (hsame : ∀ other ∈ keys, keys.getLast? ≠ some other → links' other = links other) :
    Segment links' none (keys ++ [key]) none := by
  refine append_iff.mpr ⟨?_, ?_, trivial⟩
  · exact change_after hsegment hnodup hlast hsame
  · simpa using hkey

/-- Cutting a key out of any position: its two neighbours now name each other. -/
theorem cut (hsegment : Segment links none (front ++ key :: back) none)
    (hnodup : (front ++ key :: back).Nodup)
    (hprev : ∀ last, front.getLast? = some last →
      ∀ link, links last = some link → links' last = some { link with prev := back.head? })
    (hnext : ∀ first, back.head? = some first →
      ∀ link, links first = some link →
        links' first = some { link with next := front.getLast? })
    (hsame : ∀ other ∈ front ++ back, front.getLast? ≠ some other →
      back.head? ≠ some other → links' other = links other) :
    Segment links' none (front ++ back) none := by
  obtain ⟨hfront, -, hback⟩ := append_iff.mp hsegment
  obtain ⟨hnodupFront, hnodupRest, hdisjoint⟩ := List.nodup_append.mp hnodup
  have hnodupBack := hnodupRest.of_cons
  have hapart : ∀ other ∈ front, back.head? ≠ some other := by
    intro other hother hhead
    exact hdisjoint other hother other (by simp [List.mem_of_mem_head? hhead]) rfl
  have hapart' : ∀ other ∈ back, front.getLast? ≠ some other := by
    intro other hother hlast
    exact hdisjoint other (List.mem_of_mem_getLast? hlast) other (by simp [hother]) rfl
  refine append_iff.mpr ⟨?_, ?_⟩
  · refine change_after hfront hnodupFront ?_ ?_
    · simpa using hprev
    · exact fun other hother hne => hsame other (by simp [hother]) hne (hapart other hother)
  · refine change_before hback hnodupBack ?_ ?_
    · simpa using hnext
    · exact fun other hother hne => hsame other (by simp [hother]) (hapart' other hother) hne

/-- Neighbours name each other: `prev` is inverted by `next`. -/
theorem next_of_prev (hsegment : Segment links none keys none) {link : Links κ} {other : κ}
    (hmem : key ∈ keys) (hlink : links key = some link) (hprev : link.prev = some other) :
    other ∈ keys ∧ ∃ link', links other = some link' ∧ link'.next = some key := by
  obtain ⟨front, back, rfl⟩ := List.append_of_mem hmem
  rw [links_eq hsegment, Option.some.injEq] at hlink
  subst hlink
  cases back with
  | nil => simp at hprev
  | cons first rest =>
      simp only [List.head?_cons, Option.some_or, Option.some.injEq] at hprev
      subst hprev
      have hsplit : Segment links none ((front ++ [key]) ++ first :: rest) none := by
        simpa using hsegment
      have hnext := hsplit.links_eq
      exact ⟨by simp, _, hnext, by simp⟩

/-- Neighbours name each other: `next` is inverted by `prev`. -/
theorem prev_of_next (hsegment : Segment links none keys none) {link : Links κ} {other : κ}
    (hmem : key ∈ keys) (hlink : links key = some link) (hnext : link.next = some other) :
    other ∈ keys ∧ ∃ link', links other = some link' ∧ link'.prev = some key := by
  obtain ⟨front, back, rfl⟩ := List.append_of_mem hmem
  rw [links_eq hsegment, Option.some.injEq] at hlink
  subst hlink
  rcases List.eq_nil_or_concat front with rfl | ⟨rest, last, rfl⟩
  · simp at hnext
  · rw [List.concat_eq_append] at *
    simp only [List.getLast?_append, List.getLast?_singleton, Option.some_or,
      Option.some.injEq] at hnext
    subst hnext
    have hsplit : Segment links none (rest ++ last :: key :: back) none := by
      simpa using hsegment
    have hprev := hsplit.links_eq
    exact ⟨by simp, _, hprev, by simp⟩

end Segment

end Platoon.Foundation
