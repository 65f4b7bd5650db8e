import RssDisk.Index.IndexUtility
import RssDisk.Lib.Fixed

/-!
# Entries of an index blob

A blob is read at a cursor by position alone, so on a blob of whole entries `extractIndex` is
the lookup in the sequence of entries, with the zero entry past the end. In a sequence sorted by
key the entries below a key, and those up to it, are counted by where they end.
-/

namespace RssDisk.IndexUtility

open Bitbase BTree Lib List Int64

/-- The entries are in non-decreasing order of their keys. -/
def Sorted (entries : List IndexEntry) : Prop := entries.Pairwise (fun a b => a.i ≤ b.i)

instance (entries : List IndexEntry) : Decidable (Sorted entries) :=
  inferInstanceAs (Decidable (entries.Pairwise (fun a b => a.i ≤ b.i)))

/-- The entry at a cursor; the zero entry past the end. -/
def entryAt (entries : List IndexEntry) (cursor : Nat) : IndexEntry := entries.getD cursor {}

/-- Number of entries whose key is below a value. -/
def below (entries : List IndexEntry) (val : Int64) : Nat := entries.countP (fun e => e.i < val)

/-- Number of entries whose key is a value or below it. -/
def upTo (entries : List IndexEntry) (val : Int64) : Nat := entries.countP (fun e => e.i ≤ val)

@[simp] theorem encodeEntry_length (entry : IndexEntry) : (encodeEntry entry).length = 16 := by
  simp [encodeEntry]

@[simp] theorem encodeEntries_length (entries : List IndexEntry) :
    (encodeEntries entries).length = 16 * entries.length :=
  flatMap_length_fixed encodeEntry_length entries

@[simp] theorem encodeEntries_length_div (entries : List IndexEntry) :
    (encodeEntries entries).length / indexDataSize = entries.length := by
  rw [encodeEntries_length, indexDataSize]
  omega

@[simp] theorem encodeEntries_eq_nil {entries : List IndexEntry} :
    encodeEntries entries = [] ↔ entries = [] := by
  rw [← length_eq_zero_iff, encodeEntries_length, ← length_eq_zero_iff]
  omega

theorem encodeEntries_append (left right : List IndexEntry) :
    encodeEntries (left ++ right) = encodeEntries left ++ encodeEntries right := by
  simp [encodeEntries]

theorem decodeEntry_encodeEntry (entry : IndexEntry) : decodeEntry (encodeEntry entry) = entry := by
  have key : (encodeEntry entry).take 8 = i64ToChars entry.i := by
    simp [encodeEntry, append_assoc]
  have offset : ((encodeEntry entry).drop 8).take 4 = u32ToChars entry.offset := by
    simp [encodeEntry, append_assoc]
  have size : ((encodeEntry entry).drop 12).take 4 = u32ToChars entry.size := by
    rw [encodeEntry, drop_left' (by simp)]
    exact take_of_length_le (by simp)
  simp [decodeEntry, key, offset, size]

theorem drop_encodeEntries (entries : List IndexEntry) (cursor : Nat) :
    (encodeEntries entries).drop (cursor * indexDataSize) =
      encodeEntries (entries.drop cursor) :=
  drop_flatMap_fixed encodeEntry_length entries cursor

theorem take_encodeEntries (entries : List IndexEntry) (cursor : Nat) :
    (encodeEntries entries).take (cursor * indexDataSize) =
      encodeEntries (entries.take cursor) :=
  take_flatMap_fixed encodeEntry_length entries cursor

theorem extractIndex_encodeEntries (entries : List IndexEntry) (cursor : Nat) (d : SearchIndex) :
    extractIndex (encodeEntries entries) cursor d =
      { d with toIndexEntry := entryAt entries cursor } := by
  have decoded : decodeEntry (((encodeEntries entries).drop (cursor * indexDataSize)).take
      indexDataSize) = entryAt entries cursor := by
    rw [drop_encodeEntries, entryAt]
    cases rest : entries.drop cursor with
    | nil =>
      rw [getD_eq_getElem?_getD, getElem?_eq_none (drop_eq_nil_iff.mp rest)]
      rfl
    | cons entry others =>
      have found : entries[cursor]? = some entry := by
        rw [← head?_drop, rest]
        rfl
      rw [getD_eq_getElem?_getD, found, encodeEntries, flatMap_cons]
      have first : (encodeEntry entry ++ others.flatMap encodeEntry).take indexDataSize =
          encodeEntry entry := by
        rw [show indexDataSize = (encodeEntry entry).length by simp [indexDataSize]]
        exact take_left
      rw [first]
      exact decodeEntry_encodeEntry entry
  rw [extractIndex, decoded]

variable {cursor : Nat}

theorem getElem_iff_lt_countP {α : Type} (p : α → Bool) {members : List α}
    (first : members.Pairwise (fun a b => p b = true → p a = true))
    (inside : cursor < members.length) :
    p members[cursor] = true ↔ cursor < members.countP p := by
  induction members generalizing cursor with
  | nil => simp at inside
  | cons member members ih =>
    rw [pairwise_cons] at first
    cases cursor with
    | zero =>
      by_cases holds : p member = true
      · simp [holds]
      · have none : members.countP p = 0 := by
          rw [countP_eq_zero]
          intro other present meets
          exact holds (first.1 other present meets)
        simp [holds, none]
    | succ cursor =>
      have shorter : cursor < members.length := by simpa using inside
      rw [getElem_cons_succ, ih first.2 shorter, countP_cons]
      by_cases holds : p member = true
      · simp [holds]
      · have none : members.countP p = 0 := by
          rw [countP_eq_zero]
          intro other present meets
          exact holds (first.1 other present meets)
        simp [holds, none]

variable {entries : List IndexEntry}

theorem entryAt_eq_getElem (inside : cursor < entries.length) :
    entryAt entries cursor = entries[cursor] := by
  rw [entryAt, getD_eq_getElem?_getD, getElem?_eq_getElem inside, Option.getD_some]

theorem entryAt_mem (inside : cursor < entries.length) : entryAt entries cursor ∈ entries := by
  rw [entryAt_eq_getElem inside]
  exact getElem_mem inside

section

variable (sorted : Sorted entries) (val : Int64) (inside : cursor < entries.length)

include sorted val inside

theorem Sorted.lt_iff : (entryAt entries cursor).i < val ↔ cursor < below entries val := by
  have first :
      entries.Pairwise (fun a b => decide (b.i < val) = true → decide (a.i < val) = true) :=
    sorted.imp (fun {a b} ordered smaller => by
      simp only [decide_eq_true_eq, lt_iff_toInt_lt] at smaller ⊢
      rw [le_iff_toInt_le] at ordered
      omega)
  rw [entryAt_eq_getElem inside, below, ← getElem_iff_lt_countP _ first inside, decide_eq_true_eq]

theorem Sorted.le_iff : (entryAt entries cursor).i ≤ val ↔ cursor < upTo entries val := by
  have first :
      entries.Pairwise (fun a b => decide (b.i ≤ val) = true → decide (a.i ≤ val) = true) :=
    sorted.imp (fun {a b} ordered smaller => by
      simp only [decide_eq_true_eq, le_iff_toInt_le] at smaller ordered ⊢
      omega)
  rw [entryAt_eq_getElem inside, upTo, ← getElem_iff_lt_countP _ first inside, decide_eq_true_eq]

theorem Sorted.eq_iff :
    (entryAt entries cursor).i = val ↔ below entries val ≤ cursor ∧ cursor < upTo entries val := by
  rw [← sorted.le_iff val inside, ← not_lt, ← sorted.lt_iff val inside]
  rw [lt_iff_toInt_lt, le_iff_toInt_le, ← toInt_inj]
  omega

end

theorem below_le_upTo (entries : List IndexEntry) (val : Int64) :
    below entries val ≤ upTo entries val := by
  apply countP_mono_left
  intro entry _ smaller
  simp only [decide_eq_true_eq, lt_iff_toInt_lt, le_iff_toInt_le] at smaller ⊢
  omega

theorem upTo_le_length (entries : List IndexEntry) (val : Int64) :
    upTo entries val ≤ entries.length := countP_le_length

end RssDisk.IndexUtility
