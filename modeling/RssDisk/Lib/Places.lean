import Mathlib.Data.List.Basic
import Mathlib.Logic.Function.Basic

/-!
# Places of a list and of a function

What is left of a list when the element at a place is taken away or replaced, and what this does to
the elements with a key; what is left of a partial function when one of its values changes.
-/

namespace RssDisk.Lib

open List

variable {α β κ : Type} {xs : List α} {place : Nat} {a : α}

theorem split_place (found : xs[place]? = some a) :
    ∃ front back, xs = front ++ a :: back ∧ xs.eraseIdx place = front ++ back ∧
      ∀ other, xs.set place other = front ++ other :: back := by
  obtain ⟨low, rfl⟩ := List.getElem?_eq_some_iff.mp found
  refine ⟨xs.take place, xs.drop (place + 1), ?_, ?_, ?_⟩
  · rw [List.getElem_cons_drop, List.take_append_drop]
  · exact List.eraseIdx_eq_take_drop_succ ..
  · intro other
    rw [List.set_eq_take_append_cons_drop, if_pos low]

/-- The elements with a key, of which there is at most one, when the element at a place is taken
away or replaced by one with the same key. -/
theorem filter_place [DecidableEq κ] (key : α → κ) (found : xs[place]? = some a) (k : κ)
    (one : (xs.filter (key · = k)).length ≤ 1) :
    (k = key a → xs.filter (key · = k) = [a]) ∧
      (xs.eraseIdx place).filter (key · = k) =
        (if k = key a then [] else xs.filter (key · = k)) ∧
      ∀ b, key b = key a → (xs.set place b).filter (key · = k) =
        if k = key a then [b] else xs.filter (key · = k) := by
  obtain ⟨front, back, whole, erased, replaced⟩ := split_place found
  by_cases same : k = key a
  · subst same
    rw [whole, filter_append, filter_cons_of_pos (by simp), length_append,
      length_cons] at one
    have before : front.filter (key · = key a) = [] := length_eq_zero_iff.mp (by omega)
    have behind : back.filter (key · = key a) = [] := length_eq_zero_iff.mp (by omega)
    refine ⟨fun _ => ?_, ?_, fun b at_ => ?_⟩
    · simp [whole, before, behind]
    · simp [erased, before, behind]
    · simp [replaced, before, behind, at_]
  · have away {b : α} (at_ : key b = key a) : ¬ key b = k := fun here => same (here.symm.trans at_)
    refine ⟨fun at_ => absurd at_ same, ?_, fun b at_ => ?_⟩
    · grind
    · rw [replaced, if_neg same, whole]
      simp [away rfl, away at_]

theorem zip_eraseIdx (xs : List α) (ys : List β) (place : Nat) :
    (xs.eraseIdx place).zip (ys.eraseIdx place) = (xs.zip ys).eraseIdx place := by
  induction place generalizing xs ys with
  | zero => cases xs <;> cases ys <;> simp
  | succ place ih => cases xs <;> cases ys <;> simp [ih]

theorem zip_set (xs : List α) (ys : List β) (place : Nat) (a : α) (b : β) :
    (xs.set place a).zip (ys.set place b) = (xs.zip ys).set place (a, b) := by
  induction place generalizing xs ys with
  | zero => cases xs <;> cases ys <;> simp
  | succ place ih => cases xs <;> cases ys <;> simp [ih]

section

variable [DecidableEq κ] {f : κ → Option α} {k k' : κ} {b : α}

theorem update_none_eq_some :
    Function.update f k none k' = some a ↔ k' ≠ k ∧ f k' = some a := by
  by_cases same : k' = k
  · simp [same]
  · simp [same]

theorem update_some_eq_some :
    Function.update f k (some b) k' = some a ↔ k' = k ∧ a = b ∨ k' ≠ k ∧ f k' = some a := by
  by_cases same : k' = k
  · simp [same, eq_comm]
  · simp [same]

end

end RssDisk.Lib
