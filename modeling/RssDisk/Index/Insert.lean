import RssDisk.Index.Cursor

/-!
# Adding to an index

`addToIndex` puts an entry behind the smaller keys of a sorted blob: among equal keys before all of
them, or behind the first one when nothing is smaller.
-/

namespace RssDisk.IndexUtility

open Bitbase BTree Lib List

variable {entries : List IndexEntry}

/-- The position at which an entry is inserted. -/
def insertPosition (entries : List IndexEntry) (key : Int64) : Nat :=
  if 0 < below entries key then below entries key
  else if 0 < upTo entries key then 1
  else 0

theorem addToIndex_eq (sorted : Sorted entries) (small : entries.length < 2 ^ 60)
    (idx : IndexEntry) :
    addToIndex (encodeEntries entries) idx =
      encodeEntries (entries.take (insertPosition entries idx.i) ++
        idx :: entries.drop (insertPosition entries idx.i)) := by
  have split : ∀ position,
      (encodeEntries entries).take (position * indexDataSize) ++ encodeEntry idx ++
        (encodeEntries entries).drop (position * indexDataSize) =
      encodeEntries (entries.take position ++ idx :: entries.drop position) := by
    intro position
    rw [take_encodeEntries, drop_encodeEntries, encodeEntries_append, append_assoc]
    rfl
  rcases eq_or_ne entries [] with rfl | inhabited
  · rfl
  obtain ⟨found, placed⟩ := retrieveCursor_upper sorted small idx.i
    (show TypeSearchIndex.lt.isUpperBound = true from rfl)
  simp only [bound, reduceCtorEq, false_and, ↓reduceIte] at found placed
  unfold addToIndex insertPosition
  by_cases some : 0 < below entries idx.i
  · have next : below entries idx.i - 1 + 1 = below entries idx.i := by omega
    simp only [found, some, decide_true, Bool.true_or, ↓reduceIte, (placed some).1, next]
    exact split _
  · have none : below entries idx.i = 0 := by omega
    obtain ⟨lower, ultima, cursor⟩ :=
      retrieveCursor_lt_foundUltima sorted small inhabited idx.i none
    by_cases equal : 0 < upTo entries idx.i
    · have atFirst := cursor (by rw [ultima]; exact decide_eq_true equal)
      simp only [found, some, decide_false, ultima, equal, decide_true, Bool.or_true, ↓reduceIte,
        atFirst, Nat.zero_add]
      exact split 1
    · have atStart : upTo entries idx.i = 0 := by omega
      simp only [found, some, decide_false, ultima, ↓reduceIte, lower, atStart, decide_true]
      simpa using split 0

theorem insertPosition_bounds (entries : List IndexEntry) (key : Int64) :
    below entries key ≤ insertPosition entries key ∧
      insertPosition entries key ≤ upTo entries key := by
  have counts := below_le_upTo entries key
  unfold insertPosition
  split
  · exact ⟨le_rfl, counts⟩
  · split <;> exact ⟨by omega, by omega⟩

theorem Sorted.insert (sorted : Sorted entries) (idx : IndexEntry) :
    Sorted (entries.take (insertPosition entries idx.i) ++
      idx :: entries.drop (insertPosition entries idx.i)) := by
  obtain ⟨behind, before⟩ := insertPosition_bounds entries idx.i
  have counted := upTo_le_length entries idx.i
  generalize insertPosition entries idx.i = position at behind before
  have lower : ∀ e ∈ entries.take position, e.i ≤ idx.i := by
    intro e present
    obtain ⟨cursor, inside, rfl⟩ := getElem_of_mem present
    rw [length_take] at inside
    rw [getElem_take, ← entryAt_eq_getElem (by omega)]
    exact (sorted.le_iff idx.i (by omega)).mpr (by omega)
  have upper : ∀ e ∈ entries.drop position, idx.i ≤ e.i := by
    intro e present
    obtain ⟨cursor, inside, rfl⟩ := getElem_of_mem present
    rw [length_drop] at inside
    rw [getElem_drop, ← entryAt_eq_getElem (by omega), ← Int64.not_lt]
    rw [sorted.lt_iff idx.i (by omega)]
    omega
  rw [Sorted, pairwise_append, pairwise_cons]
  refine ⟨sorted.sublist (take_sublist _ _),
    ⟨upper, sorted.sublist (drop_sublist _ _)⟩, ?_⟩
  intro a inLeft b inRight
  rcases mem_cons.mp inRight with rfl | later
  · exact lower a inLeft
  · exact Int64.le_trans (lower a inLeft) (upper b later)

/-- The insertion puts the new entry between two parts of the blob, and leaves a sorted blob that is
one entry longer. -/
theorem addToIndex_between (entries : List IndexEntry) (sorted : Sorted entries)
    (sized : (encodeEntries entries).length < 2 ^ 64) (idx : IndexEntry) :
    ∃ front back, front ++ back = entries ∧
      addToIndex (encodeEntries entries) idx = encodeEntries (front ++ idx :: back) ∧
      Sorted (front ++ idx :: back) ∧
      (addToIndex (encodeEntries entries) idx).length =
        (encodeEntries entries).length + indexDataSize := by
  have small : entries.length < 2 ^ 60 := by
    rw [encodeEntries_length] at sized
    omega
  have added := addToIndex_eq sorted small idx
  refine ⟨_, _, take_append_drop _ _, added, sorted.insert idx, ?_⟩
  rw [added, encodeEntries_append, length_append]
  have parts := congrArg (fun entries => (encodeEntries entries).length)
    (take_append_drop (insertPosition entries idx.i) entries)
  simp only [encodeEntries_length, length_cons, indexDataSize, length_append] at parts ⊢
  omega

/-- An entry whose key fills the start of the blob goes behind the first one with its key. -/
theorem addToIndex_between_equal :
    Sorted [⟨3, 0, 1⟩, ⟨3, 1, 1⟩] ∧ ∃ front back : List IndexEntry,
      front ++ back = [⟨3, 0, 1⟩, ⟨3, 1, 1⟩] ∧
      addToIndex (encodeEntries [⟨3, 0, 1⟩, ⟨3, 1, 1⟩]) ⟨3, 2, 1⟩ =
        encodeEntries (front ++ ⟨3, 2, 1⟩ :: back) ∧
      Sorted (front ++ ⟨3, 2, 1⟩ :: back) ∧
      (addToIndex (encodeEntries [⟨3, 0, 1⟩, ⟨3, 1, 1⟩]) ⟨3, 2, 1⟩).length =
        (encodeEntries [⟨3, 0, 1⟩, ⟨3, 1, 1⟩]).length + indexDataSize :=
  ⟨by decide, addToIndex_between _ (by decide) (by decide) ⟨3, 2, 1⟩⟩

theorem addToIndex_foldl (sorted : Sorted entries) (new : List IndexEntry)
    (small : entries.length + new.length < 2 ^ 60) :
    ∃ grown, new.foldl addToIndex (encodeEntries entries) = encodeEntries grown ∧ Sorted grown ∧
      grown.Perm (entries ++ new) := by
  induction new generalizing entries with
  | nil => exact ⟨entries, rfl, sorted, by simp⟩
  | cons idx new ih =>
    simp only [length_cons] at small
    have added : (entries.take (insertPosition entries idx.i) ++
        idx :: entries.drop (insertPosition entries idx.i)).Perm (idx :: entries) := by
      refine perm_middle.trans (List.Perm.cons idx ?_)
      rw [take_append_drop]
    obtain ⟨grown, blob, stays, perm⟩ :=
      ih (sorted.insert idx) (by rw [added.length_eq]; simp; omega)
    refine ⟨grown, ?_, stays, perm.trans ?_⟩
    · rw [foldl_cons, addToIndex_eq sorted (by omega), blob]
    · exact (added.append_right new).trans perm_middle.symm

theorem addToIndex_foldl_last (new : List IndexEntry) (sorted : Sorted entries)
    (small : entries.length + new.length < 2 ^ 60)
    (last : (entries ++ new).Pairwise (fun a b => a.i < b.i)) :
    new.foldl addToIndex (encodeEntries entries) = encodeEntries (entries ++ new) := by
  induction new generalizing entries with
  | nil => simp
  | cons idx new ih =>
    simp only [length_cons] at small
    have all : ∀ e ∈ entries, e.i < idx.i := fun e present =>
      (pairwise_append.mp last).2.2 e present idx mem_cons_self
    have full : below entries idx.i = entries.length := by
      grind [below, countP_eq_length]
    have position : insertPosition entries idx.i = entries.length := by
      have bounds := insertPosition_bounds entries idx.i
      have := upTo_le_length entries idx.i
      omega
    have whole : entries ++ idx :: new = (entries ++ [idx]) ++ new := by simp
    have step := addToIndex_eq sorted (by omega) idx
    rw [position, take_length, drop_length] at step
    have stays := sorted.insert idx
    rw [position, take_length, drop_length] at stays
    rw [foldl_cons, step, ih stays (by simp; omega) (by rwa [← whole]), whole]

end RssDisk.IndexUtility
