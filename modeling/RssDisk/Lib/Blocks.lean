import Mathlib.Data.List.Basic

/-!
# Walks over blocks

A text that is made of blocks, one after another, is walked by a loop that holds a place in the text
and a state, with a bound on its rounds. When every round takes one block, the walk takes all of
them, and it is enough to know what one round does.
-/

namespace RssDisk.Lib.Blocks

open List

variable {α β σ ρ : Type}

/-- The items one after another. A round may look at the number of rounds that are left. -/
def foldRounds (next : Nat → σ → α → σ) : Nat → σ → List α → σ
  | _, state, [] => state
  | rounds, state, item :: items =>
    foldRounds next (rounds - 1) (next (rounds - 1) state item) items

theorem foldRounds_const (next : σ → α → σ) (rounds : Nat) (state : σ) (items : List α) :
    foldRounds (fun _ => next) rounds state items = items.foldl next state := by
  induction items generalizing rounds state with
  | nil => rfl
  | cons item items ih =>
    rw [foldRounds, ih]
    rfl

theorem foldl_append_flatMap (piece : α → List β) (front : List β) (items : List α) :
    items.foldl (fun front item => front ++ piece item) front = front ++ items.flatMap piece := by
  induction items generalizing front with
  | nil => exact (append_nil _).symm
  | cons item items ih => rw [foldl_cons, ih, flatMap_cons, append_assoc]

theorem length_le_flatMap {encode : α → List β} {items : List α} {item : α}
    (member : item ∈ items) : (encode item).length ≤ (items.flatMap encode).length := by
  obtain ⟨front, back, rfl⟩ := append_of_mem member
  rw [flatMap_append, flatMap_cons, length_append, length_append]
  omega

theorem drop_block {text : List β} {place : Nat} {block rest : List β}
    (parts : text.drop place = block ++ rest) : text.drop (place + block.length) = rest := by
  rw [← drop_drop, parts, drop_left]

theorem block_le {text : List β} {place : Nat} {block rest : List β} (inside : place ≤ text.length)
    (parts : text.drop place = block ++ rest) : place + block.length ≤ text.length := by
  have length := congrArg List.length parts
  rw [length_drop, length_append] at length
  omega

theorem walk {loop : Nat → Nat → σ → Option ρ} {text : List β} {encode : α → List β}
    {next : Nat → σ → α → σ} {finish : σ → ρ} {items : List α}
    (round : ∀ item ∈ items, ∀ place rest, text.drop place = encode item ++ rest →
      place + (encode item).length ≤ text.length → ∀ rounds state,
        loop (rounds + 1) place state =
          loop rounds (place + (encode item).length) (next rounds state item))
    (ends : ∀ rounds state, loop (rounds + 1) text.length state = some (finish state))
    {place : Nat} (inside : place ≤ text.length) (blocks : text.drop place = items.flatMap encode)
    {rounds : Nat} (enough : items.length < rounds) (state : σ) :
    loop rounds place state = some (finish (foldRounds next rounds state items)) := by
  induction items generalizing place rounds state with
  | nil =>
    have last : place = text.length := Nat.le_antisymm inside (drop_eq_nil_iff.mp blocks)
    rw [length_nil] at enough
    obtain ⟨rounds, rfl⟩ : ∃ k, rounds = k + 1 := ⟨rounds - 1, by omega⟩
    rw [last, ends]
    rfl
  | cons item items ih =>
    have parts : text.drop place = encode item ++ items.flatMap encode := blocks
    rw [length_cons] at enough
    obtain ⟨rounds, rfl⟩ : ∃ k, rounds = k + 1 := ⟨rounds - 1, by omega⟩
    have fits := block_le inside parts
    rw [round item mem_cons_self place _ parts fits,
      ih (fun other member => round other (mem_cons_of_mem _ member)) fits (drop_block parts)
        (by omega)]
    rfl

end RssDisk.Lib.Blocks
