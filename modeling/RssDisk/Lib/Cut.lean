import Mathlib.Data.List.Infix

/-!
# The first occurrence of a pattern

`std::string::find` gives the place of the first occurrence of a pattern. Cutting a text there
leaves what stands before the occurrence and what stands behind it.
-/

namespace RssDisk.Lib

open List Option

variable {α : Type} [DecidableEq α]

/-- What stands before and behind the first occurrence of a pattern. -/
def cut (pattern : List α) : List α → Option (List α × List α)
  | [] => if pattern = [] then some ([], []) else none
  | c :: text =>
    if pattern <+: c :: text then some ([], (c :: text).drop pattern.length)
    else (cut pattern text).map (fun parts => (c :: parts.1, parts.2))

variable {pattern text before behind : List α}

theorem cut_eq (found : cut pattern text = some (before, behind)) :
    text = before ++ (pattern ++ behind) := by
  induction text generalizing before with
  | nil =>
    rw [cut] at found
    split at found
    · rename_i empty
      grind
    · cases found
  | cons c text ih =>
    rw [cut] at found
    split at found
    · rename_i starts
      cases found
      obtain ⟨rest, whole⟩ := starts
      grind
    · obtain ⟨parts, later, same⟩ := map_eq_some_iff.mp found
      grind

theorem cut_eq_none (absent : ¬ pattern <:+: text) : cut pattern text = none := by
  induction text with
  | nil =>
    have some : pattern ≠ [] := fun empty => absent (empty ▸ nil_infix)
    rw [cut, if_neg some]
  | cons c text ih =>
    have later : ¬ pattern <:+: text := fun inside =>
      absent (inside.trans (suffix_cons c text).isInfix)
    rw [cut, if_neg (fun starts => absent starts.isInfix), ih later]
    rfl

theorem not_infix_of_cut (nowhere : cut pattern text = none) : ¬ pattern <:+: text := by
  induction text with
  | nil =>
    intro inside
    rw [cut, if_pos (infix_nil.mp inside)] at nowhere
    cases nowhere
  | cons c text ih =>
    intro inside
    rw [cut] at nowhere
    split at nowhere
    · cases nowhere
    · rename_i notHere
      rcases infix_cons_iff.mp inside with here | later
      · exact notHere here
      · exact ih (map_eq_none_iff.mp nowhere) later

theorem cut_first (first : ∀ place < before.length,
      ¬ pattern <+: (before ++ (pattern ++ behind)).drop place) :
    cut pattern (before ++ (pattern ++ behind)) = some (before, behind) := by
  induction before with
  | nil =>
    rw [nil_append]
    cases whole : pattern ++ behind with
    | nil =>
      obtain ⟨rfl, rfl⟩ := append_eq_nil_iff.mp whole
      rfl
    | cons c text =>
      rw [cut, if_pos (whole ▸ prefix_append pattern behind), ← whole, drop_left]
  | cons b before ih =>
    have notHere : ¬ pattern <+: b :: (before ++ (pattern ++ behind)) := first 0 (Nat.succ_pos _)
    have later := ih (fun place low => first (place + 1) (Nat.succ_lt_succ low))
    rw [cons_append, cut, if_neg notHere, later]
    rfl

theorem first_of_cut (found : cut pattern text = some (before, behind)) :
    ∀ place < before.length, ¬ pattern <+: text.drop place := by
  induction text generalizing before with
  | nil =>
    rw [cut] at found
    split at found
    · grind
    · cases found
  | cons c text ih =>
    rw [cut] at found
    split at found
    · grind
    · rename_i notHere
      obtain ⟨parts, later, same⟩ := map_eq_some_iff.mp found
      cases same
      intro place low
      cases place with
      | zero => exact notHere
      | succ place => exact ih later place (Nat.lt_of_succ_lt_succ low)

theorem cut_drop {start : Nat} (low : start ≤ text.length)
    (nowhere : ∀ place < start, ¬ pattern <+: text.drop place) :
    cut pattern text =
      (cut pattern (text.drop start)).map (fun parts => (text.take start ++ parts.1, parts.2)) := by
  induction start generalizing text with
  | zero =>
    rw [drop_zero, take_zero]
    exact map_id'.symm
  | succ start ih =>
    cases text with
    | nil => cases low
    | cons c text =>
      have notHere : ¬ pattern <+: c :: text := nowhere 0 (Nat.succ_pos start)
      have later := ih (Nat.le_of_succ_le_succ low)
        (fun place below => nowhere (place + 1) (Nat.succ_lt_succ below))
      rw [cut, if_neg notHere, later, Option.map_map]
      rfl

/-- A pattern whose first symbol does not come again does not overlap itself, so a text without it
ends where it follows. -/
theorem cut_append {c : α} {rest : List α} (once : c ∉ rest) (absent : ¬ c :: rest <:+: before)
    (behind : List α) :
    cut (c :: rest) (before ++ (c :: rest ++ behind)) = some (before, behind) := by
  induction before with
  | nil =>
    rw [nil_append, cons_append, cut, if_pos ⟨behind, rfl⟩, ← cons_append,
      drop_left]
  | cons b before ih =>
    have later : ¬ c :: rest <:+: before := fun inside =>
      absent (inside.trans (suffix_cons b before).isInfix)
    have notHere : ¬ c :: rest <+: b :: (before ++ (c :: rest ++ behind)) := by
      intro starts
      obtain ⟨rfl, more⟩ := cons_prefix_cons.mp starts
      have outside : ¬ rest <+: before := fun inside =>
        absent (cons_prefix_cons.mpr ⟨rfl, inside⟩).isInfix
      rcases prefix_or_prefix_of_prefix more (prefix_append before _) with
        inside | ⟨others, whole⟩
      · exact outside inside
      · rw [← whole, prefix_append_right_inj] at more
        cases others with
        | nil =>
          rw [append_nil] at whole
          exact outside (whole ▸ prefix_rfl)
        | cons other others =>
          obtain ⟨rfl, _⟩ := cons_prefix_cons.mp more
          rw [← whole] at once
          exact once (by simp)
    rw [cons_append, cut, if_neg notHere, ih later]
    rfl

end RssDisk.Lib
