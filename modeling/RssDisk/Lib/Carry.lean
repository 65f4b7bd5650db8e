import Mathlib.Algebra.GroupWithZero.Nat
import RssDisk.Lib.Delimiter

/-!
# Pieces on the way

A stream that a machine is still to read carries the pieces that the machine will give out, and the
last of them is complete only with the last symbol. Pieces are put behind the stream, and the
machine takes a front part of it; so the pieces go through as through a queue.
-/

namespace RssDisk.Lib

open List

section

variable {σ α β : Type} {read : σ → α → σ × List β} {start s : σ}

/-- A stream that carries pieces to a machine, and leaves the machine at its start. -/
structure Carries (read : σ → α → σ × List β) (start s : σ) (stream : List α) (pieces : List β) :
    Prop where
  whole : feedAll read s stream = (start, pieces)
  last : ∀ front back, stream = front ++ back → back ≠ [] → (feedAll read s front).2 ≠ pieces

namespace Carries

variable {stream front back : List α} {pieces : List β}

theorem nil : Carries read start start [] [] := by
  constructor
  · rfl
  · intro front back whole filled
    exact absurd (append_eq_nil_iff.mp whole.symm).2 filled

theorem stream_eq_nil (carries : Carries read start s stream []) : stream = [] := by
  by_contra filled
  exact carries.last [] stream rfl filled rfl

theorem pieces_eq_nil (carries : Carries read start s [] pieces) : pieces = [] :=
  (congrArg Prod.snd carries.whole).symm

theorem take (carries : Carries read start s (front ++ back) pieces) :
    ∃ rest, pieces = (feedAll read s front).2 ++ rest ∧
      Carries read start (feedAll read s front).1 back rest := by
  have whole := carries.whole
  rw [feedAll_append] at whole
  refine ⟨(feedAll read (feedAll read s front).1 back).2, (congrArg Prod.snd whole).symm, ?_⟩
  constructor
  · grind
  · intro middle behind parts filled early
    apply carries.last (front ++ middle) behind (by rw [parts, append_assoc]) filled
    rw [feedAll_append, early]
    exact congrArg Prod.snd whole

theorem put {frame : List α} {piece : β} (carries : Carries read start s stream pieces)
    (passes : Carries read start start frame [piece]) :
    Carries read start s (stream ++ frame) (pieces ++ [piece]) := by
  constructor
  · rw [feedAll_append, carries.whole, passes.whole]
  · intro front back parts filled early
    obtain ⟨middle, rfl, ends⟩ | ⟨middle, rfl, ends⟩ := append_eq_append_iff.mp parts
    · -- the front part goes into the frame
      rw [feedAll_append, carries.whole] at early
      exact passes.last middle back ends filled (append_cancel_left early)
    · -- the front part is a part of the stream, so it gives out too little
      have whole := carries.whole
      rw [feedAll_append] at whole
      have given := congrArg (List.length ∘ Prod.snd) whole
      have counted := congrArg List.length early
      simp only [Function.comp_apply, length_append, length_singleton]
        at given counted
      omega

end Carries

end

section

variable {α : Type} [DecidableEq α] {delimiter text : List α}

/-- The symbols that an attempt holds. -/
def Attempt.size (a : Attempt α) : Nat :=
  a.before.length + a.matched.length

theorem restart_length (delimiter : List α) (a : Attempt α) (stream : List α) :
    ((feedAll (restart delimiter) a stream).2.map (fun text => text.length + delimiter.length)).sum
      ≤ a.size + stream.length := by
  induction stream generalizing a with
  | nil => exact Nat.zero_le _
  | cons c stream ih =>
    have held : ((a.advance delimiter c).before ++ (a.advance delimiter c).matched).length =
        (a.before ++ a.matched ++ [c]).length := congrArg List.length (a.advance_text c)
    simp only [length_append, length_singleton] at held
    simp only [feedAll, restart, length_cons]
    split
    · grind [Attempt.size]
    · rename_i complete
      have later := ih {}
      simp only [Attempt.size, length_nil] at later
      simp only [Attempt.size, piece]
      split
      · grind
      · grind

theorem carries_frame (filled : delimiter ≠ []) (passes : RestartPasses delimiter text) :
    Carries (restart delimiter) {} {} (delimiter ++ text ++ delimiter) [text] := by
  have delimited := restart_delimiter filled
  have through := restart_passes passes filled
  constructor
  · rw [append_assoc]
    exact feedAll_append_eq delimited through
  · intro front back parts open_ early
    rw [append_assoc] at parts
    obtain ⟨middle, rfl, ends⟩ | ⟨middle, whole, -⟩ := append_eq_append_iff.mp parts
    · rw [feedAll_append, delimited] at early
      have read := restart_length delimiter {} middle
      have sizes := congrArg List.length ends
      have rest := length_pos_iff.mpr open_
      simp only [nil_append] at early
      rw [early] at read
      grind [Attempt.size]
    · have silent : (feedAll (restart delimiter) {} (front ++ middle)).2 = [] := by
        rw [← whole, delimited]
      grind [feedAll_append]

end

end RssDisk.Lib
