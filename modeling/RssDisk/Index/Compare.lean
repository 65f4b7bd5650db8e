import RssDisk.Index.Insert
import RssDisk.Index.Range

/-!
# Comparisons

For each wanted key a comparison starts on an entry with that key and walks over the equal ones on
both sides, so on a sorted blob it visits exactly the entries whose key is wanted.
-/

namespace RssDisk.IndexUtility

open Bitbase BTree Lib List BasefuncStd

variable {entries : List IndexEntry}

theorem compareUp_eq (sorted : Sorted entries) (readed : Option (UMap UInt32 UInt32)) (s : Int64)
    {fuel cursor : Nat} (left : cursor + fuel = entries.length) (started : below entries s ≤ cursor)
    (ret : UMap UInt32 UInt32) :
    compareUp readed (encodeEntries entries) s fuel cursor ret =
      ((entries.take (upTo entries s)).drop cursor).foldl (fAdd readed) ret := by
  have counted := upTo_le_length entries s
  induction fuel generalizing cursor ret with
  | zero =>
    rw [compareUp, drop_eq_nil_of_le (by rw [length_take]; omega), foldl_nil]
  | succ fuel ih =>
    have inside : cursor < entries.length := by omega
    have equal := sorted.eq_iff s inside
    rw [compareUp, extractIndex_encodeEntries]
    by_cases more : cursor < upTo entries s
    · have same : (entryAt entries cursor).i = s := equal.mpr ⟨started, more⟩
      simp only [same, ↓reduceIte]
      rw [ih (by omega) (by omega), between_cons more counted, foldl_cons]
    · have differs : (entryAt entries cursor).i ≠ s := fun same => more (equal.mp same).2
      simp only [differs, ↓reduceIte]
      rw [drop_eq_nil_of_le (by rw [length_take]; omega), foldl_nil]

theorem compareDown_eq (sorted : Sorted entries) (readed : Option (UMap UInt32 UInt32)) (s : Int64)
    {cursor : Nat} (inside : cursor ≤ upTo entries s) (ret : UMap UInt32 UInt32) :
    compareDown readed (encodeEntries entries) s cursor ret =
      ((entries.take cursor).drop (below entries s)).reverse.foldl (fAdd readed) ret := by
  have counted := upTo_le_length entries s
  induction cursor generalizing ret with
  | zero => simp [compareDown]
  | succ cursor ih =>
    have equal := sorted.eq_iff s (show cursor < entries.length by omega)
    rw [compareDown, extractIndex_encodeEntries]
    by_cases more : below entries s ≤ cursor
    · have same : (entryAt entries cursor).i = s := equal.mpr ⟨more, by omega⟩
      have concat := between_concat entries (show below entries s < cursor + 1 by omega) (by omega)
      rw [Nat.add_sub_cancel] at concat
      simp only [same, ↓reduceIte]
      grind
    · have differs : (entryAt entries cursor).i ≠ s := fun same => more (equal.mp same).1
      simp only [differs, ↓reduceIte]
      rw [drop_eq_nil_of_le (by rw [length_take]; omega)]
      rfl

theorem compareOne_eq (sorted : Sorted entries) (small : entries.length < 2 ^ 60)
    (readed : Option (UMap UInt32 UInt32)) (s : Int64) (ret : UMap UInt32 UInt32) :
    ∃ visited : List IndexEntry,
      compareOne readed (encodeEntries entries) ret s = visited.foldl (fAdd readed) ret ∧
        ∀ e, e ∈ visited ↔ e ∈ entries ∧ e.i = s := by
  have counted := upTo_le_length entries s
  have among : ∀ e, e ∈ (entries.take (upTo entries s)).drop (below entries s) ↔
      e ∈ entries ∧ e.i = s := by
    intro e
    rw [mem_between]
    constructor
    · rintro ⟨cursor, atLeast, atMost, inside, rfl⟩
      exact ⟨entryAt_mem inside, (sorted.eq_iff s inside).mpr ⟨atLeast, atMost⟩⟩
    · rintro ⟨present, same⟩
      obtain ⟨cursor, inside, rfl⟩ := getElem_of_mem present
      rw [← entryAt_eq_getElem inside] at same ⊢
      obtain ⟨atLeast, atMost⟩ := (sorted.eq_iff s inside).mp same
      exact ⟨cursor, atLeast, atMost, inside, rfl⟩
  obtain ⟨count, found, placed⟩ := retrieveCursor_compare sorted small s
  by_cases occurs : below entries s < upTo entries s
  · rw [decide_eq_true occurs] at found
    obtain ⟨atLeast, atMost, decoded⟩ := placed found
    refine ⟨(retrieveCursor (encodeEntries entries) s .compare).toIndexEntry ::
      ((entries.take (upTo entries s)).drop
        ((retrieveCursor (encodeEntries entries) s .compare).cursor + 1)) ++
      ((entries.take (retrieveCursor (encodeEntries entries) s .compare).cursor).drop
        (below entries s)).reverse, ?_, ?_⟩
    · simp only [compareOne, found, ↓reduceIte, count]
      rw [compareUp_eq sorted readed s (by omega) (by omega),
        compareDown_eq sorted readed s (by omega), foldl_append, foldl_cons]
    · intro e
      rw [← among e, mem_between, mem_append, mem_cons, mem_between, mem_reverse,
        mem_between, decoded]
      constructor
      · rintro ((rfl | ⟨cursor, low, high, inside, rfl⟩) | ⟨cursor, low, high, inside, rfl⟩)
        · exact ⟨_, atLeast, atMost, by omega, rfl⟩
        · exact ⟨cursor, by omega, high, inside, rfl⟩
        · exact ⟨cursor, low, by omega, inside, rfl⟩
      · rintro ⟨cursor, low, high, inside, rfl⟩
        rcases Nat.lt_trichotomy cursor (retrieveCursor (encodeEntries entries) s .compare).cursor
          with before | same | after
        · exact .inr ⟨cursor, low, before, inside, rfl⟩
        · exact .inl (.inl (by rw [same]))
        · exact .inl (.inr ⟨cursor, by omega, high, inside, rfl⟩)
  · rw [decide_eq_false occurs] at found
    refine ⟨[], by simp [compareOne, found], fun e => ?_⟩
    rw [← among e, mem_between]
    constructor
    · intro none
      cases none
    · grind

/-- The keys that a comparison looks for. -/
def wantedKeys (srch : Search) : List Int64 :=
  srch.i.map (fun it => (stol it.indexed).getD 0)

theorem fetchIndexedData_compare (sorted : Sorted entries) (small : entries.length < 2 ^ 60)
    (consistent : ∀ a ∈ entries, ∀ b ∈ entries, a.offset = b.offset → a.size = b.size)
    {srch : Search} (compare : srch.op = .compare) (readed : Option (UMap UInt32 UInt32))
    (offset size : UInt32) :
    (fetchIndexedData srch (encodeEntries entries) readed).lookup offset = some size ↔
      ∃ e ∈ entries, e.i ∈ wantedKeys srch ∧ passes readed offset = true ∧ e.offset = offset ∧
        e.size = size := by
  have visits : ∀ (wanted : List ValSearch) (ret : UMap UInt32 UInt32),
      ∃ visited : List IndexEntry,
        wanted.foldl (fun ret it => compareOne readed (encodeEntries entries) ret
          ((stol it.indexed).getD 0)) ret = visited.foldl (fAdd readed) ret ∧
        ∀ e, e ∈ visited ↔ e ∈ entries ∧
          e.i ∈ wanted.map (fun it => (stol it.indexed).getD 0) := by
    intro wanted
    induction wanted with
    | nil => exact fun ret => ⟨[], rfl, by simp⟩
    | cons it wanted ih =>
      intro ret
      obtain ⟨first, step, those⟩ := compareOne_eq sorted small readed
        ((stol it.indexed).getD 0) ret
      obtain ⟨rest, steps, these⟩ := ih (first.foldl (fAdd readed) ret)
      refine ⟨first ++ rest, by rw [foldl_cons, step, steps, foldl_append], fun e => ?_⟩
      rw [mem_append, those e, these e, map_cons, mem_cons]
      tauto
  obtain ⟨visited, selected, members⟩ := visits srch.i ∅
  have unfolded : fetchIndexedData srch (encodeEntries entries) readed =
      visited.foldl (fAdd readed) ∅ := by
    rw [← selected, fetchIndexedData, compare]
  have looked := lookup_foldl_fAdd readed visited ∅ offset
  rw [AList.lookup_empty, Option.none_or] at looked
  rw [unfolded, looked]
  constructor
  · intro there
    split at there
    · rename_i pass
      obtain ⟨e, found, rfl⟩ := Option.map_eq_some_iff.mp there
      have inside := (members e).mp (mem_of_find?_eq_some found)
      exact ⟨e, inside.1, inside.2, pass, by simpa using find?_some found, rfl⟩
    · cases there
  · rintro ⟨e, present, wanted, pass, rfl, rfl⟩
    obtain ⟨f, found⟩ : ∃ f, visited.find? (fun v => v.offset = e.offset) = some f :=
      Option.isSome_iff_exists.mp (find?_isSome.mpr
        ⟨e, (members e).mpr ⟨present, wanted⟩, by simp⟩)
    have inside := (members f).mp (mem_of_find?_eq_some found)
    have same : f.offset = e.offset := by simpa using find?_some found
    rw [if_pos pass, found, Option.map_some, consistent f inside.1 e present same]

theorem wantedKeys_eq {srch : Search} {keys : List Int64}
    (wanted : srch.i.map ValSearch.indexed =
      keys.map (fun key => BasefuncStd.toString key.toInt)) : wantedKeys srch = keys := by
  have read : ∀ key : Int64,
      (BasefuncStd.stol (BasefuncStd.toString key.toInt)).getD 0 = key := by
    intro key
    have low := key.le_toInt
    have high := key.toInt_lt
    rw [BasefuncStd.stol, BasefuncStd.strtol_toString]
    simp only [low, high, and_self, ↓reduceIte, Option.getD_some, Int64.ofInt_toInt]
  calc wantedKeys srch
      = (srch.i.map ValSearch.indexed).map (fun text => (BasefuncStd.stol text).getD 0) := by
        rw [wantedKeys, map_map]
        rfl
    _ = keys.map id := by
        rw [wanted, map_map]
        exact map_congr_left (fun key _ => read key)
    _ = keys := map_id keys

/-- A comparison with a list of integers selects exactly the pieces of the entries whose key is in
the list and whose offset passes the filter. -/
theorem fetchIndexedData_wanted_iff (entries : List IndexEntry) (sorted : Sorted entries)
    (sized : (encodeEntries entries).length < 2 ^ 64)
    (consistent : ∀ a ∈ entries, ∀ b ∈ entries, a.offset = b.offset → a.size = b.size)
    (keys : List Int64) (srch : Search) (compare : srch.op = .compare)
    (wanted : srch.i.map ValSearch.indexed =
      keys.map (fun key => BasefuncStd.toString key.toInt))
    (readed : Option (UMap UInt32 UInt32)) (offset size : UInt32) :
    (fetchIndexedData srch (encodeEntries entries) readed).lookup offset = some size ↔
      ∃ e ∈ entries, e.i ∈ keys ∧ passes readed offset = true ∧ e.offset = offset ∧
        e.size = size := by
  have small : entries.length < 2 ^ 60 := by
    rw [encodeEntries_length] at sized
    omega
  rw [fetchIndexedData_compare sorted small consistent compare, wantedKeys_eq wanted]

/-- Seven entries with runs of equal keys. -/
def runEntries : List IndexEntry :=
  [⟨-4, 0, 5⟩, ⟨2, 5, 5⟩, ⟨2, 10, 5⟩, ⟨2, 15, 5⟩, ⟨7, 20, 5⟩, ⟨7, 25, 5⟩, ⟨9, 30, 5⟩]

/-- Two wanted keys among seven entries, with a filter. -/
theorem fetchIndexedData_wanted_runs :
    Sorted runEntries ∧ ∀ offset size,
      (fetchIndexedData { i := [{ indexed := [50] }, { indexed := [45, 52] }] }
          (encodeEntries runEntries) (some (AList.singleton 10 5))).lookup offset = some size ↔
        ∃ e ∈ runEntries, e.i ∈ [2, -4] ∧ passes (some (AList.singleton 10 5)) offset = true ∧
          e.offset = offset ∧ e.size = size :=
  ⟨by decide, fetchIndexedData_wanted_iff runEntries (by decide) (by decide) (by decide) [2, -4]
    { i := [{ indexed := [50] }, { indexed := [45, 52] }] } rfl (by decide)
    (some (AList.singleton 10 5))⟩

/-- Whatever entries are added to a sorted index, a comparison selects exactly the pieces of the old
and the new ones with a wanted key that pass the filter. -/
theorem fetchIndexedData_addToIndex (entries : List IndexEntry) (sorted : Sorted entries)
    (new : List IndexEntry) (small : entries.length + new.length < 2 ^ 60)
    (consistent : ∀ a ∈ entries ++ new, ∀ b ∈ entries ++ new, a.offset = b.offset → a.size = b.size)
    (srch : Search) (compare : srch.op = .compare) (readed : Option (UMap UInt32 UInt32))
    (offset size : UInt32) :
    (fetchIndexedData srch (new.foldl addToIndex (encodeEntries entries)) readed).lookup offset =
        some size ↔
      ∃ e ∈ entries ++ new, e.i ∈ wantedKeys srch ∧ passes readed offset = true ∧
        e.offset = offset ∧ e.size = size := by
  obtain ⟨grown, blob, sorted, same⟩ := addToIndex_foldl sorted new small
  have sized : grown.length < 2 ^ 60 := by
    rw [same.length_eq, length_append]
    exact small
  simp only [← same.mem_iff] at consistent ⊢
  rw [blob, fetchIndexedData_compare sorted sized consistent compare]

/-- Two of three entries that are added have the wanted key. -/
theorem fetchIndexedData_addToIndex_three :
    (fetchIndexedData { i := [{ indexed := [50] }] }
      ([⟨2, 0, 5⟩, ⟨-4, 5, 5⟩, ⟨2, 10, 5⟩].foldl addToIndex []) none).lookup 10 = some 5 :=
  (fetchIndexedData_addToIndex [] .nil [⟨2, 0, 5⟩, ⟨-4, 5, 5⟩, ⟨2, 10, 5⟩] (by decide) (by decide)
    { i := [{ indexed := [50] }] } rfl none 10 5).mpr ⟨⟨2, 10, 5⟩, by decide⟩

end RssDisk.IndexUtility
