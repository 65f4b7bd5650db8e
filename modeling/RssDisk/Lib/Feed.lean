import Mathlib.Data.List.Basic

/-!
# Machines that read a text in chunks

A machine reads one symbol after another and gives out results on the way. A program gets the same
text in chunks of any size. When one call of the program does to its state what the machine does
over the symbols of the chunk, the chunks do not matter.
-/

namespace RssDisk.Lib

open List

variable {σ τ α β : Type}

/-- The state after a text was read symbol by symbol, and all that was given out. -/
def feedAll (read : σ → α → σ × List β) : σ → List α → σ × List β
  | s, [] => (s, [])
  | s, c :: text =>
    let first := read s c
    let rest := feedAll read first.1 text
    (rest.1, first.2 ++ rest.2)

/-- The state after some chunks, and all that was given out; a chunk may fail. -/
def feedChunks (readChunk : σ → List α → Option (σ × List β)) :
    σ → List (List α) → Option (σ × List β)
  | s, [] => some (s, [])
  | s, chunk :: chunks => do
    let first ← readChunk s chunk
    let rest ← feedChunks readChunk first.1 chunks
    some (rest.1, first.2 ++ rest.2)

variable (read : σ → α → σ × List β)

theorem feedAll_append (s : σ) (front back : List α) :
    feedAll read s (front ++ back) =
      ((feedAll read (feedAll read s front).1 back).1,
        (feedAll read s front).2 ++ (feedAll read (feedAll read s front).1 back).2) := by
  induction front generalizing s with
  | nil => rfl
  | cons c front ih => simp only [cons_append, feedAll, ih, append_assoc]

variable {read}

theorem feedAll_append_eq {s t u : σ} {front back : List α} {early late : List β}
    (first : feedAll read s front = (t, early)) (second : feedAll read t back = (u, late)) :
    feedAll read s (front ++ back) = (u, early ++ late) := by
  rw [feedAll_append, first, second]

/-- When each part brings the machine back to where it was, a text of many parts gives out what
the parts give out. -/
theorem feedAll_flatMap {γ : Type} {s : σ} (text : γ → List α) (result : γ → β) (parts : List γ)
    (each : ∀ part ∈ parts, feedAll read s (text part) = (s, [result part])) :
    feedAll read s (parts.flatMap text) = (s, parts.map result) := by
  induction parts with
  | nil => rfl
  | cons part parts ih =>
    have first := each part (mem_cons_self ..)
    have rest := ih (fun other member => each other (mem_cons_of_mem _ member))
    rw [flatMap_cons, feedAll_append_eq first rest]
    rfl

/-- What holds of the start and is kept by every symbol holds at the end, and every result is given
out in a state with it. -/
theorem feedAll_invariant (kept : σ → Prop) (given : β → Prop)
    (preserved : ∀ s c, kept s → kept (read s c).1 ∧ ∀ result ∈ (read s c).2, given result)
    {s : σ} (initial : kept s) (text : List α) :
    kept (feedAll read s text).1 ∧ ∀ result ∈ (feedAll read s text).2, given result := by
  induction text generalizing s with
  | nil => exact ⟨initial, fun _ member => absurd member not_mem_nil⟩
  | cons c text ih =>
    have first := preserved s c initial
    have rest := ih first.1
    constructor
    · exact rest.1
    · intro result member
      rcases mem_append.mp member with early | late
      · exact first.2 result early
      · exact rest.2 result late

theorem feedAll_map {γ : Type} (change : β → γ) (s : σ) (text : List α) :
    feedAll (fun s c => ((read s c).1, (read s c).2.map change)) s text =
      ((feedAll read s text).1, (feedAll read s text).2.map change) := by
  induction text generalizing s with
  | nil => rfl
  | cons c text ih => simp only [feedAll, ih, map_append]

theorem feedAll_simulates {read' : τ → α → τ × List β} (related : σ → τ → Prop)
    (moves : ∀ s t c, related s t →
      related (read s c).1 (read' t c).1 ∧ (read s c).2 = (read' t c).2)
    {s : σ} {t : τ} (initial : related s t) (text : List α) :
    (feedAll read s text).2 = (feedAll read' t text).2 := by
  induction text generalizing s t with
  | nil => rfl
  | cons c text ih =>
    have first := moves s t c initial
    simp only [feedAll, first.2, ih first.1]

/-- A program that does over each chunk what a machine does over its symbols does over all chunks
what the machine does over the whole text. -/
theorem feedChunks_eq {readChunk : τ → List α → Option (τ × List β)} (related : τ → σ → Prop)
    {fits : List α → Prop}
    (moves : ∀ t s chunk, related t s → fits chunk →
      ∃ t', readChunk t chunk = some (t', (feedAll read s chunk).2) ∧
        related t' (feedAll read s chunk).1)
    {t : τ} {s : σ} (initial : related t s) (chunks : List (List α))
    (fit : ∀ chunk ∈ chunks, fits chunk) :
    ∃ t', feedChunks readChunk t chunks = some (t', (feedAll read s chunks.flatten).2) ∧
      related t' (feedAll read s chunks.flatten).1 := by
  induction chunks generalizing t s with
  | nil => exact ⟨t, rfl, initial⟩
  | cons chunk chunks ih =>
    obtain ⟨middle, first, between⟩ := moves t s chunk initial (fit chunk (mem_cons_self ..))
    obtain ⟨last, rest, there⟩ :=
      ih between (fun other member => fit other (mem_cons_of_mem _ member))
    rw [flatten_cons, feedAll_append]
    refine ⟨last, ?_, there⟩
    simp only [feedChunks, first, rest, Option.bind_eq_bind, Option.bind_some]

/-- A fold whose steps add to logs: when what a step adds depends only on what the steps keep, each
log gets what the steps add to it from the start on. -/
theorem foldl_log {κ : Type} {step : σ → α → σ} {frame : σ → σ → Prop} (log : σ → κ → List β)
    (gain : σ → α → κ → List β) (refl : ∀ s, frame s s)
    (trans : ∀ {s t u}, frame s t → frame t u → frame s u)
    (each : ∀ s c, frame s (step s c) ∧ ∀ k, log (step s c) k = log s k ++ gain s c k)
    (same : ∀ {s t}, frame s t → gain t = gain s) (s : σ) (text : List α) :
    frame s (text.foldl step s) ∧
      ∀ k, log (text.foldl step s) k = log s k ++ text.flatMap (fun c => gain s c k) := by
  induction text generalizing s with
  | nil => exact ⟨refl s, fun k => (append_nil _).symm⟩
  | cons c text ih =>
    obtain ⟨kept, first⟩ := each s c
    obtain ⟨rest, more⟩ := ih (step s c)
    refine ⟨trans kept rest, fun k => ?_⟩
    rw [foldl_cons, more, first, same kept, flatMap_cons, append_assoc]

end RssDisk.Lib
