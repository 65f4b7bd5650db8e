import Mathlib.Data.List.Basic
import Mathlib.Order.Lattice

/-!
# Sorted multimaps

Entries in the order of their keys, those of one key in the order in which they were inserted. The
entries before a key are the first ones, so a walk from the beginning can stop at the first entry
that is not before it.
-/

namespace RssDisk.Lib

open List

/-- Entries sorted by their keys. -/
structure Multimap (κ α : Type) [LinearOrder κ] where
  entries : List (κ × α)
  sorted : entries.Pairwise (fun a b => a.1 ≤ b.1)

namespace Multimap

variable {κ α : Type} [LinearOrder κ]

instance : EmptyCollection (Multimap κ α) := ⟨⟨[], .nil⟩⟩

instance : Inhabited (Multimap κ α) := ⟨∅⟩

instance : Membership (κ × α) (Multimap κ α) := ⟨fun m entry => entry ∈ m.entries⟩

/-- Put an entry behind those whose keys are not greater. -/
def place (entry : κ × α) : List (κ × α) → List (κ × α)
  | [] => [entry]
  | first :: rest =>
    if entry.1 < first.1 then entry :: first :: rest else first :: place entry rest

theorem mem_place {entry other : κ × α} {entries : List (κ × α)} :
    other ∈ place entry entries ↔ other = entry ∨ other ∈ entries := by
  induction entries with
  | nil => simp [place]
  | cons first rest ih =>
    rw [place]
    split
    · exact mem_cons
    · grind

theorem place_sorted (entry : κ × α) {entries : List (κ × α)}
    (sorted : entries.Pairwise (fun a b => a.1 ≤ b.1)) :
    (place entry entries).Pairwise (fun a b => a.1 ≤ b.1) := by
  induction entries with
  | nil => exact pairwise_singleton _ _
  | cons first rest ih =>
    obtain ⟨least, sorted⟩ := pairwise_cons.mp sorted
    rw [place]
    split
    · rename_i before
      refine pairwise_cons.mpr ⟨fun other member => ?_, pairwise_cons.mpr ⟨least, sorted⟩⟩
      rcases mem_cons.mp member with rfl | later
      · exact before.le
      · exact before.le.trans (least other later)
    · rename_i behind
      refine pairwise_cons.mpr ⟨fun other member => ?_, ih sorted⟩
      rcases mem_place.mp member with rfl | there
      · exact not_lt.mp behind
      · exact least other there

/-- `std::multimap::insert`. -/
def insert (m : Multimap κ α) (entry : κ × α) : Multimap κ α :=
  ⟨place entry m.entries, place_sorted entry m.sorted⟩

@[simp]
theorem mem_insert {m : Multimap κ α} {entry other : κ × α} :
    other ∈ m.insert entry ↔ other = entry ∨ other ∈ m := mem_place

/-- The entries before a key. -/
def before (m : Multimap κ α) (key : κ) : List (κ × α) :=
  m.entries.takeWhile (fun entry => entry.1 < key)

/-- Erase the entries before a key. -/
def eraseBefore (m : Multimap κ α) (key : κ) : Multimap κ α :=
  ⟨m.entries.dropWhile (fun entry => entry.1 < key),
    m.sorted.sublist (dropWhile_sublist _)⟩

theorem mem_before {m : Multimap κ α} {key : κ} {entry : κ × α} :
    entry ∈ m.before key ↔ entry ∈ m ∧ entry.1 < key := by
  obtain ⟨entries, sorted⟩ := m
  show entry ∈ entries.takeWhile _ ↔ entry ∈ entries ∧ entry.1 < key
  induction entries with
  | nil => simp
  | cons first rest ih =>
    obtain ⟨least, sorted⟩ := pairwise_cons.mp sorted
    by_cases early : first.1 < key
    · rw [takeWhile_cons_of_pos (by simpa using early), mem_cons, mem_cons,
        ih sorted]
      constructor
      · rintro (rfl | ⟨there, low⟩)
        · exact ⟨.inl rfl, early⟩
        · exact ⟨.inr there, low⟩
      · rintro ⟨rfl | there, low⟩
        · exact .inl rfl
        · exact .inr ⟨there, low⟩
    · rw [takeWhile_cons_of_neg (by simpa using early)]
      refine ⟨fun member => absurd member not_mem_nil, fun ⟨there, low⟩ => ?_⟩
      rcases mem_cons.mp there with rfl | later
      · exact absurd low early
      · exact absurd ((least entry later).trans_lt low) early

theorem mem_eraseBefore_of_le {m : Multimap κ α} {key : κ} {entry : κ × α} (there : entry ∈ m)
    (late : key ≤ entry.1) : entry ∈ m.eraseBefore key := by
  have split : m.entries = m.before key ++ (m.eraseBefore key).entries :=
    takeWhile_append_dropWhile.symm
  have member : entry ∈ m.before key ++ (m.eraseBefore key).entries := split ▸ there
  rcases mem_append.mp member with early | kept
  · exact absurd (mem_before.mp early).2 (not_lt.mpr late)
  · exact kept

end Multimap

end RssDisk.Lib
