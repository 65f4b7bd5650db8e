import RssDisk.JManager.Text

/-!
# Pieces of the data

The body of a database file is a sequence of segments. Each segment holds a chunk of records: one
record behind a comma, or the compressed text of a block. A piece is what an index entry points
to, the offset of a segment with the size that `fetch` reads there.
-/

namespace RssDisk.JManager

open Lib BTree List

/-- The records of one segment, with the indexes that were declared when it was written. -/
structure Chunk where
  records : List Json
  fields : UMap Bytes BaseType

/-- A segment of the data: its offset, the size that an index entry holds, and its records. -/
structure Piece where
  offset : Nat
  /-- How much `fetch` reads. -/
  size : Nat
  chunk : Chunk

variable (env : Env) (block : Bool)

def Chunk.text (chunk : Chunk) : Bytes := commaJoin (chunk.records.map env.text)

/-- The bytes of a chunk in the body. -/
def segment (chunk : Chunk) : Bytes :=
  if block then env.compress (chunk.text env) else 44 :: chunk.text env

/-- The size of a chunk that an index entry holds. -/
def pieceSize (chunk : Chunk) : Nat :=
  if block then (env.compress (chunk.text env)).length else (chunk.text env).length

def bodyOf (chunks : List Chunk) : Bytes := chunks.flatMap (segment env block)

/-- The pieces of chunks that are laid out from an offset. -/
def pieces : Nat → List Chunk → List Piece
  | _, [] => []
  | start, chunk :: chunks =>
    ⟨start, pieceSize env block chunk, chunk⟩ ::
      pieces (start + (segment env block chunk).length) chunks

def recordsOf (chunks : List Chunk) : List Json := chunks.flatMap Chunk.records

variable {env block} {chunks : List Chunk}

theorem bodyOf_append (left right : List Chunk) :
    bodyOf env block (left ++ right) = bodyOf env block left ++ bodyOf env block right := by
  simp [bodyOf]

theorem recordsOf_append (left right : List Chunk) :
    recordsOf (left ++ right) = recordsOf left ++ recordsOf right := by
  simp [recordsOf]

theorem pieces_append (start : Nat) (left right : List Chunk) :
    pieces env block start (left ++ right) =
      pieces env block start left ++
        pieces env block (start + (bodyOf env block left).length) right := by
  induction left generalizing start with
  | nil => rfl
  | cons chunk left ih =>
    rw [cons_append, pieces, ih, pieces, cons_append]
    simp [bodyOf, Nat.add_assoc]

theorem pieces_map_chunk (env : Env) (block : Bool) (start : Nat) (chunks : List Chunk) :
    (pieces env block start chunks).map Piece.chunk = chunks := by
  induction chunks generalizing start with
  | nil => rfl
  | cons chunk chunks ih => rw [pieces, map_cons, ih]

theorem pieces_length (start : Nat) (chunks : List Chunk) :
    (pieces env block start chunks).length = chunks.length := by
  have := congrArg List.length (pieces_map_chunk env block start chunks)
  simpa using this

theorem pieces_records (start : Nat) (chunks : List Chunk) :
    (pieces env block start chunks).flatMap (fun p => p.chunk.records) = recordsOf chunks := by
  have chunked := pieces_map_chunk env block start chunks
  conv_rhs => rw [recordsOf, ← chunked, flatMap_map]

theorem pieces_bounds {start : Nat} {p : Piece} (present : p ∈ pieces env block start chunks) :
    p.size = pieceSize env block p.chunk ∧ start ≤ p.offset ∧
      p.offset + (segment env block p.chunk).length ≤ start + (bodyOf env block chunks).length := by
  induction chunks generalizing start with
  | nil => cases present
  | cons chunk chunks ih =>
    have whole : (bodyOf env block (chunk :: chunks)).length =
        (segment env block chunk).length + (bodyOf env block chunks).length := by
      simp [bodyOf]
    rcases mem_cons.mp present with rfl | later
    · exact ⟨rfl, le_rfl, by simp only; omega⟩
    · grind

theorem pieces_segment {start : Nat} {p : Piece} (present : p ∈ pieces env block start chunks)
    (before : Bytes) (at_start : before.length = start) (after : Bytes) :
    ((before ++ bodyOf env block chunks ++ after).drop p.offset).take
      (segment env block p.chunk).length = segment env block p.chunk := by
  induction chunks generalizing start before with
  | nil => cases present
  | cons chunk chunks ih =>
    rcases mem_cons.mp present with rfl | later
    · simp only
      rw [append_assoc, drop_left' at_start, bodyOf, flatMap_cons,
        append_assoc, take_left' rfl]
    · have moved := ih later (before ++ segment env block chunk) (by simp [at_start])
      rw [bodyOf, flatMap_cons, ← append_assoc before]
      exact moved

theorem pieces_pairwise (env : Env) (block : Bool) (chunks : List Chunk)
    (inhabited : ∀ chunk ∈ chunks, segment env block chunk ≠ []) (start : Nat) :
    (pieces env block start chunks).Pairwise (fun p q => p.offset < q.offset) := by
  induction chunks generalizing start with
  | nil => exact List.Pairwise.nil
  | cons chunk chunks ih =>
    rw [pieces, pairwise_cons]
    refine ⟨?_, ih (fun other there => inhabited other (mem_cons_of_mem _ there)) _⟩
    intro q there
    have after := (pieces_bounds there).2.1
    have positive := length_pos_iff.mpr (inhabited chunk mem_cons_self)
    simp only
    omega

/-- A chunk that holds records, all of them objects. -/
structure Chunk.Ok (env : Env) (chunk : Chunk) : Prop where
  inhabited : chunk.records ≠ []
  records : Records env chunk.records

theorem Chunk.Ok.text_ne_nil {chunk : Chunk} (ok : chunk.Ok env) : chunk.text env ≠ [] := by
  obtain ⟨inhabited, records⟩ := ok
  unfold Chunk.text
  cases held : chunk.records with
  | nil => exact absurd held inhabited
  | cons record rest =>
    have object := records.objects record (by rw [held]; exact mem_cons_self)
    have some := text_ne_nil_of_isObject env object
    simp [commaJoin, some]

theorem Chunk.Ok.segment_ne_nil {chunk : Chunk} (ok : chunk.Ok env) (zlib : env.ZlibInverse)
    (block : Bool) : segment env block chunk ≠ [] := by
  unfold segment
  cases block with
  | false => simp
  | true =>
    simp only [↓reduceIte]
    intro empty
    have inverse := zlib (chunk.text env)
    rw [empty] at inverse
    exact ok.text_ne_nil (by simpa [Env.decompressString] using inverse.symm)

theorem commaJoin_chunks (ok : ∀ chunk ∈ chunks, chunk.Ok env) :
    commaJoin (chunks.map (Chunk.text env)) = commaJoin ((recordsOf chunks).map env.text) := by
  have runs := commaJoin_flatten (chunks.map (fun chunk => chunk.records.map env.text)) (by
    intro run present
    obtain ⟨chunk, there, rfl⟩ := mem_map.mp present
    have := (ok chunk there).inhabited
    simpa using this)
  rw [map_map] at runs
  rw [show chunks.map (Chunk.text env) =
    chunks.map (commaJoin ∘ fun chunk => chunk.records.map env.text) from rfl, runs, recordsOf,
    map_flatMap, List.flatMap]

theorem bodyOf_plain (ok : ∀ chunk ∈ chunks, chunk.Ok env) :
    bodyOf env false chunks = if chunks = [] then [] else
      44 :: commaJoin ((recordsOf chunks).map env.text) := by
  split
  · rename_i none
    rw [none]
    rfl
  · rename_i some
    rw [← commaJoin_chunks ok, ← flatMap_comma _ (by simpa using some), flatMap_map]
    rfl

end RssDisk.JManager
