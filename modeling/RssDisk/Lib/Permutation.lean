import Mathlib.Data.List.Perm.Basic

/-!
# Lists up to their order

Facts about permutations of lists that are mapped, filtered or selected in groups. Two filters of
one list keep the same elements, in any order, exactly when they agree on the list; groups that are
left out change nothing exactly when nothing in them would be kept.
-/

namespace RssDisk.Lib

open List

theorem exists_perm_map {α β : Type} {f : α → β} {values : List β} {members : List α}
    (perm : values.Perm (members.map f)) :
    ∃ ordered : List α, ordered.Perm members ∧ values = ordered.map f := by
  obtain ⟨ordered, related, same⟩ :=
    perm_comp_forall₂ (r := fun value member => value = f member)
    perm (forall₂_map_left_iff.mpr (forall₂_same.mpr fun _ _ => rfl))
  refine ⟨ordered, same, ?_⟩
  clear perm same
  induction related with
  | nil => rfl
  | cons head _ ih => rw [map_cons, head, ih]

theorem filter_perm_filter_iff {α : Type} {members : List α} {p q : α → Bool} :
    (members.filter p).Perm (members.filter q) ↔
      ∀ member ∈ members, (p member = true ↔ q member = true) := by
  constructor
  · intro perm member present
    have kept := perm.mem_iff (a := member)
    simpa [mem_filter, present] using kept
  · intro agree
    have same : members.filter p = members.filter q :=
      filter_congr (fun member present => Bool.eq_iff_iff.mpr (agree member present))
    rw [same]

theorem filter_groups_perm_iff {α β : Type} {groups : List β} {selected : β → Bool}
    {elements : β → List α} {keep : α → Bool} :
    (((groups.filter selected).flatMap elements).filter keep).Perm
        ((groups.flatMap elements).filter keep) ↔
      ∀ group ∈ groups, (∃ element ∈ elements group, keep element = true) →
        selected group = true := by
  have parts := (filter_append_perm selected groups).flatMap_right elements
  rw [flatMap_append] at parts
  have kept := parts.filter keep
  rw [filter_append] at kept
  constructor
  · intro perm group present
    rintro ⟨element, inside, keeps⟩
    by_contra left
    have lengths := kept.length_eq
    rw [length_append, perm.length_eq] at lengths
    have none :
        ((groups.filter (fun group => !selected group)).flatMap elements).filter keep = [] :=
      eq_nil_of_length_eq_zero (by omega)
    have there : element ∈ ((groups.filter (fun group => !selected group)).flatMap
        elements).filter keep :=
      mem_filter.mpr ⟨mem_flatMap.mpr ⟨group, mem_filter.mpr
        ⟨present, by simpa using left⟩, inside⟩, keeps⟩
    grind
  · intro covered
    have none : ((groups.filter (fun group => !selected group)).flatMap elements).filter keep =
        [] := by
      rw [filter_eq_nil_iff]
      intro element inside keeps
      obtain ⟨group, unselected, within⟩ := mem_flatMap.mp inside
      obtain ⟨present, left⟩ := mem_filter.mp unselected
      simp [covered group present ⟨element, within, keeps⟩] at left
    grind

end RssDisk.Lib
