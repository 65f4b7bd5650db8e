import Mathlib.Data.List.Basic
import Mathlib.Data.List.Perm.Basic
import Mathlib.Order.Lattice

/-!
# The first of the newest

A fold over items that arrive one after another keeps one of them: the next item replaces it when
its version is greater. What is kept at the end is the first one of those with the greatest version.
Beside it stand the items that arrived since.
-/

namespace RssDisk.Lib

open List

variable {α V : Type} [LinearOrder V] (version : α → V)

/-- The item that is kept, and what arrived since, it included. -/
def pick : Option (α × List α) → α → Option (α × List α)
  | none, a => some (a, [a])
  | some (best, since), a =>
    if version best < version a then some (a, [a]) else some (best, since ++ [a])

/-- What is kept of some items. -/
def newest (items : List α) : Option (α × List α) := items.foldl (pick version) none

variable {version}

/-- What is kept splits the items: older ones in front, and none newer behind. -/
structure Newest (version : α → V) (items : List α) (best : α) (since : List α) : Prop where
  split : ∃ front, items = front ++ since ∧ ∀ a ∈ front, version a < version best
  head : ∃ back, since = best :: back
  le : ∀ a ∈ since, version a ≤ version best

namespace Newest

variable {items : List α} {best : α} {since : List α}

theorem single (a : α) : Newest version [a] a [a] :=
  ⟨⟨[], rfl, by simp⟩, ⟨[], rfl⟩, by simp⟩

section

variable {a : α} (kept : Newest version items best since)

include kept

theorem newer (lt : version best < version a) : Newest version (items ++ [a]) a [a] := by
  obtain ⟨front, rfl, older⟩ := kept.split
  refine ⟨⟨front ++ since, rfl, ?_⟩, ⟨[], rfl⟩, by simp⟩
  intro other member
  rcases mem_append.mp member with before | among
  · exact (older other before).trans lt
  · exact (kept.le other among).trans_lt lt

theorem not_newer (le : ¬ version best < version a) :
    Newest version (items ++ [a]) best (since ++ [a]) := by
  obtain ⟨front, parts, older⟩ := kept.split
  obtain ⟨back, first⟩ := kept.head
  refine ⟨⟨front, by rw [parts, append_assoc], older⟩, ⟨back ++ [a], by rw [first]; rfl⟩, ?_⟩
  intro other member
  rcases mem_append.mp member with among | last
  · exact kept.le other among
  · grind

theorem mem : best ∈ items := by
  obtain ⟨front, rfl, -⟩ := kept.split
  obtain ⟨back, rfl⟩ := kept.head
  exact mem_append_right _ mem_cons_self

theorem le_best (member : a ∈ items) : version a ≤ version best := by
  obtain ⟨front, rfl, older⟩ := kept.split
  rcases mem_append.mp member with before | among
  · exact (older a before).le
  · exact kept.le a among

end

theorem of_first {a : α} (kept : Newest version (a :: items) best since)
    (le : ∀ b ∈ items, version b ≤ version a) : best = a ∧ since = a :: items := by
  have isBest : version best ≤ version a := by
    rcases mem_cons.mp kept.mem with rfl | behind
    · exact le_rfl
    · exact le best behind
  obtain ⟨front, parts, older⟩ := kept.split
  obtain ⟨back, rfl⟩ := kept.head
  cases front with
  | nil =>
    grind
  | cons first front =>
    grind

end Newest

theorem foldl_pick {items more : List α} {best : α} {since : List α}
    (kept : Newest version items best since) :
    ∃ best' since', more.foldl (pick version) (some (best, since)) = some (best', since') ∧
      Newest version (items ++ more) best' since' := by
  induction more generalizing items best since with
  | nil => exact ⟨best, since, rfl, by rwa [append_nil]⟩
  | cons a more ih =>
    have parts : items ++ a :: more = items ++ [a] ++ more := by simp
    rw [foldl_cons, pick, parts]
    by_cases lt : version best < version a
    · rw [if_pos lt]
      exact ih (kept.newer lt)
    · rw [if_neg lt]
      exact ih (kept.not_newer lt)

theorem newest_spec {items : List α} (some_ : items ≠ []) :
    ∃ best since, newest version items = some (best, since) ∧ Newest version items best since := by
  cases items with
  | nil => exact absurd rfl some_
  | cons a more => exact foldl_pick (Newest.single a)

theorem newest_append (items : List α) (a : α) :
    newest version (items ++ [a]) = pick version (newest version items) a := by
  rw [newest, foldl_append]
  rfl

theorem newest_eq_some {items : List α} {best : α} {since : List α}
    (kept : newest version items = some (best, since)) : Newest version items best since := by
  have some_ : items ≠ [] := by
    rintro rfl
    cases kept
  obtain ⟨best', since', kept', spec⟩ := @newest_spec _ _ _ version items some_
  rw [kept] at kept'
  cases kept'
  exact spec

theorem newest_eq_none {items : List α} : newest version items = none ↔ items = [] := by
  constructor
  · intro nothing
    by_contra some_
    obtain ⟨best, since, kept, -⟩ := @newest_spec _ _ _ version items some_
    grind
  · rintro rfl
    rfl

end RssDisk.Lib
