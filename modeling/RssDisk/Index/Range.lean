import RssDisk.Index.Cursor

/-!
# Range searches

A range search adds the decoded entry at its cursor and then every entry up to the other end. Its
positions are those of the bounds, so on a sorted blob it visits the entries inside the bounds,
apart from the entry that a step of the cursor search left decoded: that one is added in the place
of the entry at the cursor. A two-sided range whose upper key fills the end of the blob may also
read one entry behind it.
-/

namespace RssDisk.IndexUtility

open Bitbase BTree Lib List

/-- The search has a lower bound, and its key must lie above it. -/
def hasLower (op : TypeOperation) : Bool :=
  match op with
  | .compare | .lt | .lte => false
  | _ => true

def hasUpper (op : TypeOperation) : Bool :=
  match op with
  | .compare | .gt | .gte => false
  | _ => true

/-- Position of the first entry inside the bounds. -/
def firstInside (srch : Search) (entries : List IndexEntry) : Nat :=
  if hasLower srch.op then bound (lowerSide srch.op) entries srch.min else 0

/-- Position after the last entry inside the bounds. -/
def endInside (srch : Search) (entries : List IndexEntry) : Nat :=
  if hasUpper srch.op then bound (upperSide srch.op) entries srch.max else entries.length

/-- The search starts with the entry before the first one inside the bounds. -/
def startsBefore (srch : Search) (entries : List IndexEntry) : Bool :=
  hasLower srch.op && staleLower entries srch.min &&
    firstInside srch entries < endInside srch entries

/-- The search starts with the entry after the last one inside the bounds. -/
def startsAfter (srch : Search) (entries : List IndexEntry) : Bool :=
  !hasLower srch.op && hasUpper srch.op && staleUpper entries srch.max &&
    firstInside srch entries < endInside srch entries

/-- The search reads one entry behind the blob. -/
def readsBehind (srch : Search) (entries : List IndexEntry) : Bool :=
  hasLower srch.op && upperSide srch.op = .lte && hasUpper srch.op && overrun entries srch.max &&
    firstInside srch entries < endInside srch entries

/-- What a range search adds from outside its bounds: an entry next to them, or the zero entry
behind the blob. -/
def strayEntries (srch : Search) (entries : List IndexEntry) : List IndexEntry :=
  (if startsBefore srch entries then [entryAt entries (firstInside srch entries - 1)] else []) ++
  (if startsAfter srch entries then [entryAt entries (endInside srch entries)] else []) ++
  (if readsBehind srch entries then [⟨0, 0, 0⟩] else [])

/-- The entries inside the bounds that a range search does not add. -/
def skippedEntries (srch : Search) (entries : List IndexEntry) : List IndexEntry :=
  (if startsBefore srch entries then [entryAt entries (firstInside srch entries)] else []) ++
  (if startsAfter srch entries then [entryAt entries (endInside srch entries - 1)] else [])

/-- The entries inside the bounds that a range search adds. -/
def keptEntries (srch : Search) (entries : List IndexEntry) : List IndexEntry :=
  (entries.take (endInside srch entries - if startsAfter srch entries then 1 else 0)).drop
    (firstInside srch entries + if startsBefore srch entries then 1 else 0)

/-- The offset was selected before, or nothing was. -/
def passes (readed : Option (UMap UInt32 UInt32)) (offset : UInt32) : Bool :=
  match readed with
  | none => true
  | some selected => (selected.lookup offset).isSome

section

variable (readed : Option (UMap UInt32 UInt32)) (entries : List IndexEntry)

theorem lookup_foldl_fAdd (visited : List IndexEntry) (ret : UMap UInt32 UInt32) (offset : UInt32) :
    (visited.foldl (fAdd readed) ret).lookup offset =
      (ret.lookup offset).or (if passes readed offset then
        (visited.find? (fun e => e.offset = offset)).map (·.size) else none) := by
  induction visited generalizing ret with
  | nil => simp
  | cons entry visited ih =>
    have added : (fAdd readed ret entry).lookup offset = (ret.lookup offset).or
        (if passes readed offset ∧ entry.offset = offset then some entry.size else none) := by
      have step : fAdd readed ret entry =
          if passes readed entry.offset then ret.emplace entry.offset entry.size else ret := by
        cases readed <;> rfl
      rw [step]
      by_cases same : entry.offset = offset
      · subst same
        by_cases pass : passes readed entry.offset = true
        · simp only [UMap.lookup_emplace, pass, and_self, ↓reduceIte]
          cases ret.lookup entry.offset <;> rfl
        · simp [pass]
      · simp only [same, and_false, ↓reduceIte, Option.or_none]
        split
        · rw [UMap.lookup_emplace, if_neg (Ne.symm same)]
        · rfl
    rw [foldl_cons, ih, added, Option.or_assoc]
    congr 1
    by_cases pass : passes readed offset = true
    · by_cases same : entry.offset = offset
      · simp [pass, same]
      · simp [pass, same]
    · simp [pass]

theorem addUp_eq {fuel cursor : Nat} (left : cursor + fuel = entries.length)
    (ret : UMap UInt32 UInt32) :
    addUp readed (encodeEntries entries) fuel cursor ret =
      (entries.drop cursor).foldl (fAdd readed) ret := by
  induction fuel generalizing cursor ret with
  | zero => rw [addUp, drop_eq_nil_of_le (by omega), foldl_nil]
  | succ fuel ih =>
    have inside : cursor < entries.length := by omega
    rw [addUp, ih (by omega), drop_eq_getElem_cons inside, foldl_cons,
      extractIndex_encodeEntries, ← entryAt_eq_getElem inside]

theorem addDown_eq {cursor : Nat} (inside : cursor ≤ entries.length) (ret : UMap UInt32 UInt32) :
    addDown readed (encodeEntries entries) cursor ret =
      (entries.take cursor).reverse.foldl (fAdd readed) ret := by
  induction cursor generalizing ret with
  | zero => rfl
  | succ cursor ih =>
    have before : cursor < entries.length := by omega
    rw [addDown, ih (by omega), take_succ_eq_append_getElem before, reverse_append,
      foldl_append, extractIndex_encodeEntries, entryAt_eq_getElem before]
    rfl

theorem addRange_eq (fuel : Nat) (f : SearchIndex) (ret : UMap UInt32 UInt32) :
    addRange readed (encodeEntries entries) (fuel + 1) f ret =
      (f.toIndexEntry :: (List.range' (f.cursor + 1) fuel).map (entryAt entries)).foldl
        (fAdd readed) ret := by
  induction fuel generalizing f ret with
  | zero => rfl
  | succ fuel ih =>
    rw [addRange, ih, extractIndex_encodeEntries, range'_succ]
    rfl

end

variable {srch : Search} {entries : List IndexEntry}

theorem inRange_iff (sorted : Sorted entries) (range : srch.op ≠ .compare) {cursor : Nat}
    (inside : cursor < entries.length) :
    inRange srch (entryAt entries cursor).i = true ↔
      firstInside srch entries ≤ cursor ∧ cursor < endInside srch entries := by
  have above := not_congr (sorted.le_iff srch.min inside)
  have atLeast := not_congr (sorted.lt_iff srch.min inside)
  rw [Int64.not_le, not_lt] at above
  rw [Int64.not_lt, not_lt] at atLeast
  have under := sorted.lt_iff srch.max inside
  have atMost := sorted.le_iff srch.max inside
  unfold inRange firstInside endInside
  cases op : srch.op with
  | compare => exact absurd op range
  | _ =>
    simp only [hasLower, hasUpper, lowerSide, upperSide, bound, ↓reduceIte, Bool.false_eq_true,
      Bool.and_eq_true, decide_eq_true_eq, above, atLeast, under, atMost]
    try omega

theorem mem_between {first last : Nat} {entry : IndexEntry} :
    entry ∈ (entries.take last).drop first ↔
      ∃ cursor, first ≤ cursor ∧ cursor < last ∧ cursor < entries.length ∧
        entryAt entries cursor = entry := by
  rw [mem_iff_getElem]
  constructor
  · rintro ⟨index, inside, found⟩
    rw [length_drop, length_take] at inside
    refine ⟨first + index, by omega, by omega, by omega, ?_⟩
    rw [getElem_drop, getElem_take] at found
    rw [entryAt_eq_getElem (by omega), found]
  · rintro ⟨cursor, atLeast, atMost, inside, found⟩
    refine ⟨cursor - first, by rw [length_drop, length_take]; omega, ?_⟩
    rw [getElem_drop, getElem_take, ← found, entryAt_eq_getElem inside]
    congr 1
    omega

/-- What a walk over a blob visits, against the entries it should select: apart from entries that
are all the same at its end, it visits entries of the blob, namely the stray and the kept ones. -/
structure Visit (entries wanted stray skipped kept visited : List IndexEntry) : Prop where
  split : ∃ first last, visited = first ++ last ∧ first ⊆ entries ∧
    ∀ a ∈ last, ∀ b ∈ last, a = b
  visits : ∀ entry, entry ∈ visited ↔ entry ∈ stray ∨ entry ∈ kept
  wants : ∀ entry, entry ∈ wanted ↔ entry ∈ skipped ∨ entry ∈ kept
  wanted_mem : wanted ⊆ entries

/-- A walk selects the pieces of the wanted entries exactly when every stray piece is also that of
a wanted entry and every skipped one also that of a visited entry. -/
theorem Visit.exact_iff {wanted stray skipped kept visited : List IndexEntry}
    (visit : Visit entries wanted stray skipped kept visited)
    (consistent : ∀ a ∈ entries, ∀ b ∈ entries, a.offset = b.offset → a.size = b.size)
    (readed : Option (UMap UInt32 UInt32)) :
    (∀ offset size, (visited.foldl (fAdd readed) ∅).lookup offset = some size ↔
        ∃ e ∈ wanted, passes readed offset = true ∧ e.offset = offset ∧ e.size = size) ↔
      (∀ e ∈ stray, passes readed e.offset = true → ∃ e' ∈ wanted, e'.offset = e.offset) ∧
        ∀ e ∈ skipped, passes readed e.offset = true →
          ∃ e' ∈ kept ++ stray, e'.offset = e.offset ∧ e'.size = e.size := by
  obtain ⟨⟨first, last, parts, blob, uniform⟩, visits, wants, wanted_mem⟩ := visit
  have selected : ∀ offset, (visited.foldl (fAdd readed) ∅).lookup offset =
      if passes readed offset then
        (visited.find? (fun e => e.offset = offset)).map (·.size) else none := fun offset => by
    rw [lookup_foldl_fAdd]
    rfl
  -- the first visited entry at an offset has the size of every blob entry there, unless it is at
  -- the end, where all visited entries are the same
  have agrees : ∀ {f v : IndexEntry}, v ∈ visited →
      visited.find? (fun e => e.offset = v.offset) = some f →
      (∀ e ∈ entries, e.offset = v.offset → e.size = v.size) → f.size = v.size := by
    intro f v present found same
    rw [parts, find?_append] at found
    cases early : first.find? (fun e => e.offset = v.offset) with
    | some g =>
      rw [early] at found
      obtain rfl : g = f := by simpa using found
      have atOffset := find?_some early
      exact same g (blob (mem_of_find?_eq_some early)) (by simpa using atOffset)
    | none =>
      rw [early] at found
      have late : v ∈ last := by
        rw [parts, mem_append] at present
        rcases present with inFirst | inLast
        · grind
        · exact inLast
      have foundLate : f ∈ last := mem_of_find?_eq_some (by simpa using found)
      rw [uniform f foundLate v late]
  constructor
  · intro right
    constructor
    · intro e isStray pass
      obtain ⟨f, found⟩ : ∃ f, visited.find? (fun v => v.offset = e.offset) = some f :=
        Option.isSome_iff_exists.mp (find?_isSome.mpr
          ⟨e, (visits e).mpr (.inl isStray), by simp⟩)
      obtain ⟨e', isWanted, _, atOffset, _⟩ := (right e.offset f.size).mp (by
        rw [selected, if_pos pass, found]
        rfl)
      exact ⟨e', isWanted, atOffset⟩
    · intro e isSkipped pass
      have there := (right e.offset e.size).mpr ⟨e, (wants e).mpr (.inl isSkipped), pass, rfl, rfl⟩
      rw [selected, if_pos pass, Option.map_eq_some_iff] at there
      obtain ⟨f, found, sized⟩ := there
      grind
  · rintro ⟨strays, skips⟩ offset size
    -- every wanted entry that passes has a visited entry with its piece
    have covered : ∀ e ∈ wanted, passes readed e.offset = true →
        ∃ v ∈ visited, v.offset = e.offset ∧ v.size = e.size := by
      intro e isWanted pass
      rcases (wants e).mp isWanted with isSkipped | isKept
      · obtain ⟨v, there, piece⟩ := skips e isSkipped pass
        exact ⟨v, (visits v).mpr (mem_append.mp there).symm, piece⟩
      · exact ⟨e, (visits e).mpr (.inr isKept), rfl, rfl⟩
    have settled : ∀ e ∈ wanted, passes readed e.offset = true → ∀ f,
        visited.find? (fun v => v.offset = e.offset) = some f → f.size = e.size := by
      intro e isWanted pass f found
      obtain ⟨v, isVisited, atOffset, sized⟩ := covered e isWanted pass
      rw [← atOffset] at found
      rw [← sized]
      refine agrees isVisited found fun b inBlob same => ?_
      rw [sized]
      exact consistent b inBlob e (wanted_mem isWanted) (same.trans atOffset)
    rw [selected]
    constructor
    · intro there
      split at there
      · rename_i pass
        obtain ⟨f, found, rfl⟩ := Option.map_eq_some_iff.mp there
        have atOffset : f.offset = offset := by simpa using find?_some found
        subst atOffset
        obtain ⟨e, isWanted, same⟩ : ∃ e ∈ wanted, e.offset = f.offset := by
          rcases (visits f).mp (mem_of_find?_eq_some found) with isStray | isKept
          · exact strays f isStray pass
          · exact ⟨f, (wants f).mpr (.inr isKept), rfl⟩
        rw [← same] at found pass
        exact ⟨e, isWanted, same ▸ pass, same, (settled e isWanted pass f found).symm⟩
      · cases there
    · rintro ⟨e, isWanted, pass, rfl, rfl⟩
      obtain ⟨v, isVisited, atOffset, _⟩ := covered e isWanted pass
      obtain ⟨f, found⟩ : ∃ f, visited.find? (fun v => v.offset = e.offset) = some f :=
        Option.isSome_iff_exists.mp (find?_isSome.mpr ⟨v, isVisited, by simpa using atOffset⟩)
      rw [if_pos pass, found, Option.map_some, settled e isWanted pass f found]

/-- What a range search may visit. -/
def RangeVisit (srch : Search) (entries visited : List IndexEntry) : Prop :=
  Visit entries (entries.filter (fun e => inRange srch e.i)) (strayEntries srch entries)
    (skippedEntries srch entries) (keptEntries srch entries) visited

/-- A search adds what a range search may visit. -/
def Walked (srch : Search) (entries : List IndexEntry) (readed : Option (UMap UInt32 UInt32)) :
    Prop :=
  ∃ visited, fetchIndexedData srch (encodeEntries entries) readed =
    visited.foldl (fAdd readed) ∅ ∧ RangeVisit srch entries visited

theorem endInside_le (srch : Search) (entries : List IndexEntry) :
    endInside srch entries ≤ entries.length := by
  unfold endInside
  split
  · unfold bound
    split
    · exact upTo_le_length entries _
    · exact upTo_le_length entries _
    · exact (below_le_upTo entries _).trans (upTo_le_length entries _)
  · exact le_rfl

theorem between_cons {first last : Nat} (ordered : first < last) (inside : last ≤ entries.length) :
    (entries.take last).drop first =
      entryAt entries first :: (entries.take last).drop (first + 1) := by
  have room : first < (entries.take last).length := by
    rw [length_take]
    omega
  rw [drop_eq_getElem_cons room, getElem_take, entryAt_eq_getElem (by omega)]

theorem between_concat (entries : List IndexEntry) {first last : Nat} (ordered : first < last)
    (inside : last ≤ entries.length) :
    (entries.take last).drop first =
      (entries.take (last - 1)).drop first ++ [entryAt entries (last - 1)] := by
  have whole : last = last - 1 + 1 := by omega
  rw [whole, take_succ_eq_append_getElem (by omega), Nat.add_sub_cancel,
    drop_append_of_le_length (by rw [length_take]; omega),
    entryAt_eq_getElem (by omega)]

theorem map_entryAt_range' {first count : Nat} (inside : first + count ≤ entries.length) :
    (List.range' first count).map (entryAt entries) =
      (entries.take (first + count)).drop first := by
  induction count generalizing first with
  | zero => simp
  | succ count ih =>
    rw [range'_succ, map_cons, ih (by omega), between_cons (by omega) inside]
    congr 3
    omega

theorem stale_inside {val : Int64}
    (stale : staleLower entries val = true ∨ staleUpper entries val = true) (op : TypeSearchIndex) :
    0 < bound op entries val ∧ bound op entries val < entries.length := by
  have between : Between entries val :=
    stale.elim (fun lower => (of_decide_eq_true lower).1) (fun upper => (of_decide_eq_true upper).1)
  rw [bound_of_same rfl between.1.symm op]
  exact between.2

theorem overrun_spec {val : Int64} (passed : overrun entries val = true) :
    staleUpper entries val = false ∧ upTo entries val = entries.length := by
  obtain ⟨full, -⟩ := of_decide_eq_true passed
  refine ⟨decide_eq_false (fun stale => ?_), full⟩
  have between := stale.1
  unfold Between at between
  omega

theorem startsAfter_inside (after : startsAfter srch entries = true) :
    endInside srch entries < entries.length ∧
      firstInside srch entries < endInside srch entries := by
  simp only [startsAfter, Bool.and_eq_true, decide_eq_true_eq] at after
  refine ⟨?_, after.2⟩
  unfold endInside
  rw [if_pos after.1.1.2]
  exact (stale_inside (.inr after.1.2) _).2

theorem startsAfter_of_hasLower (lower : hasLower srch.op = true) :
    startsAfter srch entries = false := by
  simp [startsAfter, lower]

section

variable (sorted : Sorted entries)

include sorted

section

variable (range : srch.op ≠ .compare)

include range

theorem mem_wanted {entry : IndexEntry} :
    entry ∈ entries.filter (fun e => inRange srch e.i) ↔
      entry ∈ (entries.take (endInside srch entries)).drop (firstInside srch entries) := by
  rw [mem_filter, mem_between]
  constructor
  · rintro ⟨present, within⟩
    obtain ⟨cursor, inside, rfl⟩ := getElem_of_mem present
    rw [← entryAt_eq_getElem inside] at within ⊢
    obtain ⟨atLeast, atMost⟩ := (inRange_iff sorted range inside).mp within
    exact ⟨cursor, atLeast, atMost, inside, rfl⟩
  · rintro ⟨cursor, atLeast, atMost, inside, rfl⟩
    exact ⟨entryAt_mem inside, (inRange_iff sorted range inside).mpr ⟨atLeast, atMost⟩⟩

theorem visit_up (lower : hasLower srch.op = true)
    (ordered : firstInside srch entries < endInside srch entries) :
    RangeVisit srch entries
      (entryAt entries (if startsBefore srch entries then firstInside srch entries - 1
          else firstInside srch entries) ::
        (entries.take (endInside srch entries)).drop (firstInside srch entries + 1) ++
        if readsBehind srch entries then [⟨0, 0, 0⟩] else []) := by
  have after : startsAfter srch entries = false := startsAfter_of_hasLower lower
  have counted := endInside_le srch entries
  have cons := between_cons ordered counted
  refine ⟨⟨_, _, rfl, ?_, ?_⟩, ?_, ?_, filter_subset_self _⟩
  · intro entry present
    rcases mem_cons.mp present with rfl | later
    · apply entryAt_mem
      split <;> omega
    · exact mem_of_mem_take (mem_of_mem_drop later)
  · intro a isLast b isLast'
    split at isLast
    · rw [if_pos ‹_›, mem_singleton] at isLast'
      rw [mem_singleton.mp isLast, isLast']
    · cases isLast
  · intro entry
    simp only [strayEntries, keptEntries, after, Bool.false_eq_true, ↓reduceIte, Nat.sub_zero,
      append_nil]
    cases startsBefore srch entries with
    | true => simp [or_comm, or_left_comm]
    | false =>
      simp only [Bool.false_eq_true, ↓reduceIte, Nat.add_zero, cons]
      simp [or_comm, or_left_comm, or_assoc]
  · intro entry
    rw [mem_wanted sorted range, cons]
    simp only [skippedEntries, keptEntries, after, Bool.false_eq_true, ↓reduceIte, Nat.sub_zero,
      append_nil]
    cases startsBefore srch entries with
    | true => simp
    | false => simp [cons]

theorem visit_down (lower : hasLower srch.op = false)
    (ordered : firstInside srch entries < endInside srch entries) {cursor : Nat}
    (placed : cursor = endInside srch entries - 1 ∨
      startsAfter srch entries = false ∧ cursor = endInside srch entries) :
    RangeVisit srch entries
      (entryAt entries (if startsAfter srch entries then endInside srch entries
          else endInside srch entries - 1) :: (entries.take cursor).reverse) := by
  have before : startsBefore srch entries = false := by simp [startsBefore, lower]
  have behind : readsBehind srch entries = false := by simp [readsBehind, lower]
  have start : firstInside srch entries = 0 := by simp [firstInside, lower]
  have counted := endInside_le srch entries
  have concat := between_concat entries ordered counted
  rw [start, drop_zero, drop_zero] at concat
  have wants : ∀ entry, entry ∈ entries.filter (fun e => inRange srch e.i) ↔
      entry ∈ entries.take (endInside srch entries) := by
    intro entry
    rw [mem_wanted sorted range, start, drop_zero]
  refine ⟨⟨_, [], (append_nil _).symm, ?_, by simp⟩, ?_, ?_, filter_subset_self _⟩
  · intro entry present
    rcases mem_cons.mp present with rfl | later
    · apply entryAt_mem
      cases after : startsAfter srch entries with
      | true => simpa using (startsAfter_inside after).1
      | false => simp only [Bool.false_eq_true, ↓reduceIte]; omega
    · exact mem_of_mem_take (mem_reverse.mp later)
  · intro entry
    simp only [strayEntries, keptEntries, before, behind, start, Bool.false_eq_true, ↓reduceIte,
      Nat.add_zero, drop_zero, append_nil, nil_append]
    rcases placed with atLast | ⟨after, atEnd⟩
    · cases startsAfter srch entries with
      | true => simp [atLast]
      | false =>
        simp only [Bool.false_eq_true, ↓reduceIte, Nat.sub_zero, concat, atLast]
        simp [or_comm]
    · simp only [after, Bool.false_eq_true, ↓reduceIte, Nat.sub_zero, concat, atEnd,
        mem_cons, mem_reverse, mem_append, not_mem_nil, or_false, false_or]
      tauto
  · intro entry
    rw [wants, concat]
    simp only [skippedEntries, keptEntries, before, start, Bool.false_eq_true, ↓reduceIte,
      Nat.add_zero, drop_zero, nil_append]
    cases startsAfter srch entries with
    | true => simp [or_comm]
    | false => simp [concat]

theorem visit_nothing (none : ¬ firstInside srch entries < endInside srch entries) :
    RangeVisit srch entries [] := by
  have before : startsBefore srch entries = false := by simp [startsBefore, none]
  have after : startsAfter srch entries = false := by simp [startsAfter, none]
  have behind : readsBehind srch entries = false := by simp [readsBehind, none]
  have nothing : (entries.take (endInside srch entries)).drop (firstInside srch entries) = [] := by
    apply drop_eq_nil_of_le
    rw [length_take]
    omega
  refine ⟨⟨[], [], rfl, by simp, by simp⟩, ?_, ?_, filter_subset_self _⟩
  · simp [strayEntries, keptEntries, before, after, behind, nothing]
  · intro entry
    rw [mem_wanted sorted range]
    simp [skippedEntries, keptEntries, before, after]

end

variable (small : entries.length < 2 ^ 60) (readed : Option (UMap UInt32 UInt32))

include small

theorem fetchIndexedData_lower (oneSided : srch.op = .gt ∨ srch.op = .gte) :
    Walked srch entries readed := by
  have range : srch.op ≠ .compare := by rcases oneSided with op | op <;> simp [op]
  have lower : hasLower srch.op = true := by rcases oneSided with op | op <;> simp [op, hasLower]
  have upper : hasUpper srch.op = false := by rcases oneSided with op | op <;> simp [op, hasUpper]
  have side : (lowerSide srch.op).isLowerBound = true := by
    rcases oneSided with op | op <;> rw [op] <;> rfl
  have start : bound (lowerSide srch.op) entries srch.min = firstInside srch entries := by
    rw [firstInside, if_pos lower]
  have stop : endInside srch entries = entries.length := by simp [endInside, upper]
  have behind : readsBehind srch entries = false := by simp [readsBehind, upper]
  have searched : fetchIndexedData srch (encodeEntries entries) readed =
      (let f := retrieveCursor (encodeEntries entries) srch.min (lowerSide srch.op)
      if f.found then
        addUp readed (encodeEntries entries) (f.maxCursor - (f.cursor + 1)) (f.cursor + 1)
          (fAdd readed ∅ f.toIndexEntry)
      else ∅) := by
    unfold fetchIndexedData
    rcases oneSided with op | op <;> rw [op]
  obtain ⟨count, found, placed⟩ := retrieveCursor_lower sorted small srch.min side
  rw [start] at found placed
  by_cases room : firstInside srch entries < entries.length
  · obtain ⟨cursor, decoded⟩ := placed room
    have ordered : firstInside srch entries < endInside srch entries := by omega
    have before : startsBefore srch entries = staleLower entries srch.min := by
      simp [startsBefore, lower, ordered]
    have visit := visit_up sorted range lower ordered
    rw [behind, before, stop, take_length] at visit
    refine ⟨_, ?_, visit⟩
    rw [searched]
    simp only [found, room, decide_true, ↓reduceIte, count, cursor, decoded, Bool.false_eq_true,
      append_nil]
    rw [addUp_eq readed entries (by omega)]
    rfl
  · refine ⟨[], ?_, visit_nothing sorted range (by omega)⟩
    rw [searched]
    simp only [found, room, decide_false, Bool.false_eq_true, ↓reduceIte]
    rfl

theorem fetchIndexedData_upper (oneSided : srch.op = .lt ∨ srch.op = .lte) :
    Walked srch entries readed := by
  have range : srch.op ≠ .compare := by rcases oneSided with op | op <;> simp [op]
  have lower : hasLower srch.op = false := by rcases oneSided with op | op <;> simp [op, hasLower]
  have upper : hasUpper srch.op = true := by rcases oneSided with op | op <;> simp [op, hasUpper]
  have side : (upperSide srch.op).isUpperBound = true := by
    rcases oneSided with op | op <;> rw [op] <;> rfl
  have start : firstInside srch entries = 0 := by simp [firstInside, lower]
  have stop : bound (upperSide srch.op) entries srch.max = endInside srch entries := by
    rw [endInside, if_pos upper]
  have searched : fetchIndexedData srch (encodeEntries entries) readed =
      (let f := retrieveCursor (encodeEntries entries) srch.max (upperSide srch.op)
      if f.found then addDown readed (encodeEntries entries) f.cursor (fAdd readed ∅ f.toIndexEntry)
      else ∅) := by
    unfold fetchIndexedData
    rcases oneSided with op | op <;> rw [op]
  have counted := endInside_le srch entries
  obtain ⟨found, placed⟩ := retrieveCursor_upper sorted small srch.max side
  rw [stop] at found placed
  by_cases room : 0 < endInside srch entries
  · obtain ⟨cursor, decoded⟩ := placed room
    have ordered : firstInside srch entries < endInside srch entries := by omega
    have after : startsAfter srch entries = staleUpper entries srch.max := by
      simp [startsAfter, lower, upper, ordered]
    have atLast : (retrieveCursor (encodeEntries entries) srch.max (upperSide srch.op)).cursor =
        endInside srch entries - 1 ∨ startsAfter srch entries = false ∧
          (retrieveCursor (encodeEntries entries) srch.max (upperSide srch.op)).cursor =
            endInside srch entries := by
      rw [cursor]
      split
      · rename_i passed
        obtain ⟨hit, full⟩ := overrun_spec passed.2
        right
        rw [after, hit, ← stop, passed.1]
        exact ⟨rfl, full.symm⟩
      · exact .inl rfl
    have visit := visit_down sorted range lower ordered atLast
    rw [after] at visit
    refine ⟨_, ?_, visit⟩
    rw [searched]
    simp only [found, room, decide_true, ↓reduceIte, decoded]
    rw [addDown_eq readed entries (by omega)]
    rfl
  · refine ⟨[], ?_, visit_nothing sorted range (by omega)⟩
    rw [searched]
    simp only [found, room, decide_false, Bool.false_eq_true, ↓reduceIte]
    rfl

theorem fetchIndexedData_twoSided (lower : hasLower srch.op = true)
    (upper : hasUpper srch.op = true) : Walked srch entries readed := by
  have range : srch.op ≠ .compare := by
    intro op
    rw [op] at lower
    exact Bool.noConfusion lower
  have lowSide : (lowerSide srch.op).isLowerBound = true := by
    cases op : srch.op <;> rfl
  have upSide : (upperSide srch.op).isUpperBound = true := by
    cases op : srch.op <;> rfl
  have start : bound (lowerSide srch.op) entries srch.min = firstInside srch entries := by
    rw [firstInside, if_pos lower]
  have stop : bound (upperSide srch.op) entries srch.max = endInside srch entries := by
    rw [endInside, if_pos upper]
  have searched : fetchIndexedData srch (encodeEntries entries) readed =
      (let f := retrieveCursor (encodeEntries entries) srch.min (lowerSide srch.op)
      let f2 := retrieveCursor (encodeEntries entries) srch.max (upperSide srch.op)
      if f.found && f2.found then
        addRange readed (encodeEntries entries) (f2.cursor + 1 - f.cursor) f ∅
      else ∅) := by
    unfold fetchIndexedData
    cases op : srch.op <;> simp [op, hasLower, hasUpper] at lower upper ⊢
  have counted := endInside_le srch entries
  obtain ⟨_, found, placed⟩ := retrieveCursor_lower sorted small srch.min lowSide
  obtain ⟨found2, placed2⟩ := retrieveCursor_upper sorted small srch.max upSide
  rw [start] at found placed
  rw [stop] at found2 placed2
  by_cases ordered : firstInside srch entries < endInside srch entries
  · have room : firstInside srch entries < entries.length := by omega
    have some : 0 < endInside srch entries := by omega
    obtain ⟨cursor, decoded⟩ := placed room
    obtain ⟨cursor2, _⟩ := placed2 some
    have before : startsBefore srch entries = staleLower entries srch.min := by
      simp [startsBefore, lower, ordered]
    have behind : readsBehind srch entries =
        decide (upperSide srch.op = .lte ∧ overrun entries srch.max = true) := by
      simp [readsBehind, lower, upper, ordered]
    refine ⟨_, ?_, visit_up sorted range lower ordered⟩
    rw [searched, before, behind]
    simp only [found, found2, room, some, decide_true, Bool.and_self, ↓reduceIte, cursor, cursor2]
    by_cases passed : upperSide srch.op = .lte ∧ overrun entries srch.max = true
    · have full : endInside srch entries = entries.length := by
        rw [← stop, passed.1]
        exact (overrun_spec passed.2).2
      have fuel : entries.length + 1 - firstInside srch entries =
          entries.length - (firstInside srch entries + 1) + 1 + 1 := by omega
      have past : entryAt entries entries.length = ⟨0, 0, 0⟩ := by
        rw [entryAt, getD_eq_getElem?_getD, getElem?_eq_none le_rfl]
        rfl
      rw [if_pos passed, fuel, addRange_eq, cursor, decoded, range'_concat, map_append,
        map_entryAt_range' (by omega), full]
      have atEnd : firstInside srch entries + 1 +
          (entries.length - (firstInside srch entries + 1)) = entries.length := by omega
      simp [passed, atEnd, past]
    · have fuel : endInside srch entries - 1 + 1 - firstInside srch entries =
          endInside srch entries - (firstInside srch entries + 1) + 1 := by omega
      have atEnd : firstInside srch entries + 1 +
          (endInside srch entries - (firstInside srch entries + 1)) = endInside srch entries := by
        omega
      rw [if_neg passed, fuel, addRange_eq, cursor, decoded, map_entryAt_range' (by omega), atEnd]
      simp [passed]
  · refine ⟨[], ?_, visit_nothing sorted range ordered⟩
    rw [searched]
    by_cases both : firstInside srch entries < entries.length ∧ 0 < endInside srch entries
    · obtain ⟨cursor, _⟩ := placed both.1
      obtain ⟨cursor2, _⟩ := placed2 both.2
      have inside : ¬ (upperSide srch.op = .lte ∧ overrun entries srch.max = true) := by
        intro passed
        have full : endInside srch entries = entries.length := by
          rw [← stop, passed.1]
          exact (overrun_spec passed.2).2
        omega
      have fuel : endInside srch entries - 1 + 1 - firstInside srch entries = 0 := by omega
      simp only [found, found2, both.1, both.2, decide_true, Bool.and_self, ↓reduceIte, cursor,
        cursor2, if_neg inside, fuel]
      rfl
    · have missed : ((retrieveCursor (encodeEntries entries) srch.min (lowerSide srch.op)).found &&
          (retrieveCursor (encodeEntries entries) srch.max (upperSide srch.op)).found) = false := by
        rw [found, found2, ← Bool.decide_and]
        exact decide_eq_false both
      simp only [missed, Bool.false_eq_true, ↓reduceIte]
      rfl

end

/-- A range search selects exactly the pieces of the entries inside its bounds that pass the
filter if and only if the stray entries that pass share their offset with such an entry, and the
skipped ones that pass share their piece with an entry that is added. -/
theorem fetchIndexedData_range_iff (srch : Search) (range : srch.op ≠ .compare)
    (entries : List IndexEntry) (sorted : Sorted entries)
    (sized : (encodeEntries entries).length < 2 ^ 64)
    (consistent : ∀ a ∈ entries, ∀ b ∈ entries, a.offset = b.offset → a.size = b.size)
    (readed : Option (UMap UInt32 UInt32)) :
    (∀ offset size, (fetchIndexedData srch (encodeEntries entries) readed).lookup offset =
        some size ↔ ∃ e ∈ entries, inRange srch e.i = true ∧ passes readed offset = true ∧
          e.offset = offset ∧ e.size = size) ↔
      (∀ e ∈ strayEntries srch entries, passes readed e.offset = true →
        ∃ e' ∈ entries, inRange srch e'.i = true ∧ e'.offset = e.offset) ∧
      ∀ e ∈ skippedEntries srch entries, passes readed e.offset = true →
        ∃ e' ∈ keptEntries srch entries ++ strayEntries srch entries,
          e'.offset = e.offset ∧ e'.size = e.size := by
  have small : entries.length < 2 ^ 60 := by
    rw [encodeEntries_length] at sized
    omega
  obtain ⟨visited, selected, visit⟩ : Walked srch entries readed := by
    cases op : srch.op with
    | compare => exact absurd op range
    | gt => exact fetchIndexedData_lower sorted small readed (.inl op)
    | gte => exact fetchIndexedData_lower sorted small readed (.inr op)
    | lt => exact fetchIndexedData_upper sorted small readed (.inl op)
    | lte => exact fetchIndexedData_upper sorted small readed (.inr op)
    | _ => exact fetchIndexedData_twoSided sorted small readed (by rw [op]; rfl) (by rw [op]; rfl)
  have exact_iff := visit.exact_iff consistent readed
  simp only [mem_filter, and_assoc] at exact_iff
  rw [selected]
  exact exact_iff

/-- Three entries with odd keys. -/
def oddEntries : List IndexEntry := [⟨1, 0, 9⟩, ⟨3, 10, 9⟩, ⟨5, 20, 9⟩]

/-- With the key of an entry as the bound nothing is stray or skipped. -/
theorem fetchIndexedData_range_at_key :
    Sorted oddEntries ∧ ∀ offset size,
      (fetchIndexedData { op := .gte, min := 3 } (encodeEntries oddEntries) none).lookup offset =
        some size ↔ ∃ e ∈ oddEntries, inRange { op := .gte, min := 3 } e.i = true ∧
          passes none offset = true ∧ e.offset = offset ∧ e.size = size :=
  ⟨by decide, (fetchIndexedData_range_iff { op := .gte, min := 3 } (by decide) oddEntries
    (by decide) (by decide) (by decide) none).mpr ⟨by decide, by decide⟩⟩

/-- With a bound between two keys the search selects the piece of the entry below the bound and
misses the first one above it. -/
theorem fetchIndexedData_range_between_keys :
    Sorted oddEntries ∧
      (∀ a ∈ oddEntries, ∀ b ∈ oddEntries, a.offset = b.offset → a.size = b.size) ∧
      ¬ ∀ offset size,
        (fetchIndexedData { op := .gte, min := 2 } (encodeEntries oddEntries) none).lookup offset =
          some size ↔ ∃ e ∈ oddEntries, inRange { op := .gte, min := 2 } e.i = true ∧
            passes none offset = true ∧ e.offset = offset ∧ e.size = size := by
  refine ⟨by decide, by decide, fun right => ?_⟩
  have selected := (right 0 9).mp (by decide)
  exact absurd selected (by decide)

end RssDisk.IndexUtility
