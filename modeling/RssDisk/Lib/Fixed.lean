import Mathlib.Data.List.Basic
import Mathlib.Tactic.Ring

/-!
# Sequences of records of one size

When every record is encoded in the same number of symbols, cutting the encoded sequence at a
multiple of that number cuts the sequence of records.
-/

namespace RssDisk.Lib

open List

variable {α β : Type} {encode : α → List β} {width : Nat}

section

variable (sized : ∀ record, (encode record).length = width) (records : List α)

include sized records

theorem flatMap_length_fixed : (records.flatMap encode).length = width * records.length := by
  induction records with
  | nil => simp
  | cons record records ih =>
    rw [flatMap_cons, length_append, sized, ih, length_cons]
    ring

theorem drop_flatMap_fixed (count : Nat) :
    (records.flatMap encode).drop (count * width) = (records.drop count).flatMap encode := by
  induction count generalizing records with
  | zero => simp
  | succ count ih =>
    cases records with
    | nil => simp
    | cons record records =>
      have next : (count + 1) * width = (encode record).length + count * width := by
        rw [sized]
        ring
      rw [flatMap_cons, next, ← drop_drop, drop_left]
      exact ih records

theorem take_flatMap_fixed (count : Nat) :
    (records.flatMap encode).take (count * width) = (records.take count).flatMap encode := by
  have whole := take_append_drop (count * width) (records.flatMap encode)
  have parts := congrArg (List.flatMap encode) (take_append_drop count records)
  rw [flatMap_append, ← drop_flatMap_fixed sized] at parts
  exact (append_cancel_right (parts.trans whole.symm)).symm

end

end RssDisk.Lib
