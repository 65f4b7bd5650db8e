import RssDisk.Index.Entries
import RssDisk.Lib.Probe

/-!
# Where a cursor is placed

On a sorted blob the main loop of `retrieveCursor` compares as a probe of the sequence of keys
does (`retrieveCursorLoop_eq`), so its exits are the exits of that probe. For each side of a
search the cursor that comes out is then stated by the counts of entries below the key and up to
it. The decoded entry that comes with it is the entry at the cursor except after two exits: a
step down for a lower bound and a step up for an upper bound leave the entry of the last
comparison, on the other side of the bound.
-/

namespace RssDisk.IndexUtility

open Bitbase BTree Lib List

/-- The probe that the main loop of `retrieveCursor` runs. -/
def probe (entries : List IndexEntry) (val : Int64) : Probe.Exit :=
  Probe.run 5 entries.length (below entries val) (upTo entries val) 10000 (entries.length / 2) 0
    false false

/-- What the main loop of `retrieveCursor` returns at each exit of its probe. -/
def cursorAtExit (entries : List IndexEntry) (op : TypeSearchIndex) (f : SearchIndex) :
    Probe.Exit → SearchIndex × Bool
  | .hit cursor => ({ f with toIndexEntry := entryAt entries cursor, cursor, found := true }, true)
  | .stepDown cursor =>
    let f := { f with toIndexEntry := entryAt entries cursor }
    if op.isLowerBound then ({ f with cursor := cursor + 1, found := true }, false)
    else if op.isUpperBound then ({ f with cursor, found := true }, false)
    else (f, false)
  | .stepUp cursor =>
    let f := { f with toIndexEntry := entryAt entries cursor }
    if op.isUpperBound then ({ f with cursor := cursor - 1, found := true }, false)
    else if op.isLowerBound then ({ f with cursor, found := true }, false)
    else (f, false)
  | .top =>
    let f := { f with toIndexEntry := entryAt entries (entries.length - 1) }
    if op.isUpperBound then ({ f with cursor := entries.length - 1, found := true }, false)
    else (f, false)
  | .bottom =>
    let f := { f with toIndexEntry := entryAt entries 0, isLower := true }
    if op.isLowerBound then ({ f with cursor := 0, found := true }, false) else (f, false)
  | .exhausted => (f, false)

variable {entries : List IndexEntry}

section

variable {cursor fuel : Nat} {f : SearchIndex} (sorted : Sorted entries)

include sorted

theorem compare_cases (val : Int64) (inside : cursor < entries.length) :
    (cursor < below entries val ∧ (entryAt entries cursor).i ≠ val ∧
        (entryAt entries cursor).i < val) ∨
      (below entries val ≤ cursor ∧ cursor < upTo entries val ∧
        (entryAt entries cursor).i = val) ∨
      (upTo entries val ≤ cursor ∧ (entryAt entries cursor).i ≠ val ∧
        ¬ (entryAt entries cursor).i < val) := by
  have smaller := sorted.lt_iff val inside
  have equal := sorted.eq_iff val inside
  have counts := below_le_upTo entries val
  rcases Nat.lt_or_ge cursor (below entries val) with isBelow | notBelow
  · exact .inl ⟨isBelow, fun same => by have := equal.mp same; omega, smaller.mpr isBelow⟩
  · rcases Nat.lt_or_ge cursor (upTo entries val) with isUpTo | isAbove
    · exact .inr (.inl ⟨notBelow, isUpTo, equal.mpr ⟨notBelow, isUpTo⟩⟩)
    · exact .inr (.inr ⟨isAbove, fun same => by have := equal.mp same; omega,
        fun less => by have := smaller.mp less; omega⟩)

/-- On a sorted blob the main loop compares as the probe does and returns what its exit says. The
decoded entry it starts with is overwritten before it is used. -/
theorem retrieveCursorLoop_eq (small : entries.length < 2 ^ 60) (val : Int64) (op : TypeSearchIndex)
    {prev : Nat} {up down : Bool} {f' : SearchIndex}
    (probing : Probe.Probing 5 entries.length (below entries val) (upTo entries val) cursor prev
      up down)
    (same : ∀ entry, { f with toIndexEntry := entry } = { f' with toIndexEntry := entry })
    (ended : Probe.run 5 entries.length (below entries val) (upTo entries val) fuel cursor prev
      up down ≠ .exhausted) :
    retrieveCursorLoop (encodeEntries entries) val op entries.length fuel cursor prev up down f =
      cursorAtExit entries op f' (Probe.run 5 entries.length (below entries val)
        (upTo entries val) fuel cursor prev up down) := by
  induction fuel generalizing cursor prev up down f with
  | zero => exact absurd rfl ended
  | succ fuel ih =>
    have inside := probing.inside
    have again : ∀ entry, { { f' with toIndexEntry := entryAt entries cursor } with
        toIndexEntry := entry } = { f' with toIndexEntry := entry } := fun _ => rfl
    have toEnd : sizeSub entries.length cursor = entries.length - cursor :=
      sizeSub_eq (by omega) (by omega)
    have toPrev : sizeSub cursor prev = cursor - prev :=
      sizeSub_eq probing.remembered (by omega)
    unfold retrieveCursorLoop
    unfold Probe.run at ended ⊢
    simp only [extractIndex_encodeEntries, same, toEnd, toPrev]
    rcases compare_cases sorted val inside with ⟨lower, differs, less⟩ | ⟨lower, upper, equal⟩ |
      ⟨upper, differs, notLess⟩
    · simp only [if_pos lower, if_neg differs, if_pos less] at ended ⊢
      by_cases walking : down = true
      · simp only [if_pos walking, cursorAtExit]
      · simp only [if_neg walking] at ended ⊢
        by_cases far : 5 < entries.length - cursor
        · simp only [if_pos far] at ended ⊢
          exact ih (probing.halveUp lower walking far) again ended
        · simp only [if_neg far] at ended ⊢
          by_cases last : cursor + 1 = entries.length
          · have atLast : entries.length - 1 = cursor := by omega
            simp only [if_pos last, cursorAtExit, atLast]
          · simp only [if_neg last] at ended ⊢
            exact ih (probing.walkUp lower walking far last) again ended
    · have notLower : ¬ cursor < below entries val := by omega
      simp only [if_neg notLower, if_pos upper, if_pos equal, cursorAtExit]
    · have notLower : ¬ cursor < below entries val := by
        have := below_le_upTo entries val
        omega
      have notEqual : ¬ cursor < upTo entries val := by omega
      simp only [if_neg notLower, if_neg notEqual, if_neg differs, if_neg notLess] at ended ⊢
      by_cases walking : up = true
      · simp only [if_pos walking, cursorAtExit]
      · simp only [if_neg walking] at ended ⊢
        by_cases wide : 5 < cursor - prev
        · simp only [if_pos wide] at ended ⊢
          exact ih (probing.halveDown walking wide) again ended
        · simp only [if_neg wide] at ended ⊢
          by_cases first : cursor = 0
          · simp only [first, ↓reduceIte, cursorAtExit]
          · simp only [if_neg first] at ended ⊢
            exact ih (probing.walkDown notLower notEqual walking wide first) again ended

/-- The walk down over equal keys ends at the first of them, or for `lt` before it when an entry
is left there. -/
theorem equalRunDown_eq (val : Int64) (op : TypeSearchIndex) (placed : f.cursor = cursor)
    (decoded : f.toIndexEntry = entryAt entries cursor) (lower : below entries val ≤ cursor)
    (upper : cursor < upTo entries val) :
    equalRunDown (encodeEntries entries) val op cursor f =
      { f with
        toIndexEntry := entryAt entries
          (if op = .gte then below entries val else below entries val - 1)
        cursor := if op = .gte then below entries val else below entries val - 1 } := by
  have counted := upTo_le_length entries val
  induction cursor generalizing f with
  | zero =>
    have none : below entries val = 0 := by omega
    have here : (if op = .gte then 0 else 0 - 1) = 0 := by simp
    rw [equalRunDown, none, here, ← decoded, ← placed]
  | succ cursor ih =>
    rw [equalRunDown]
    simp only [extractIndex_encodeEntries]
    have equal := sorted.eq_iff val (show cursor < entries.length by omega)
    by_cases more : below entries val ≤ cursor
    · have same : (entryAt entries cursor).i = val := equal.mpr ⟨more, by omega⟩
      rw [if_neg (by simp [same])]
      exact ih rfl rfl more (by omega)
    · have first : below entries val = cursor + 1 := by omega
      have differs : (entryAt entries cursor).i ≠ val := fun same => more (equal.mp same).1
      rw [if_pos differs, first]
      by_cases isGte : op = .gte
      · simp [isGte]
      · simp [isGte]

/-- The walk up over equal keys ends after the last of them, at the entry there; for `lte` it
steps back onto the last one, unless the walk passed the end of the blob. -/
theorem equalRunUp_eq (val : Int64) (op : TypeSearchIndex) (whole : f.maxCursor = entries.length)
    (left : f.cursor + fuel = entries.length) (started : below entries val < f.cursor)
    (decoded : f.toIndexEntry = entryAt entries (f.cursor - 1))
    (upper : f.cursor ≤ upTo entries val) :
    equalRunUp (encodeEntries entries) val op fuel f =
      { f with
        toIndexEntry := entryAt entries
          (if op = .lte ∨ upTo entries val = entries.length then upTo entries val - 1
            else upTo entries val)
        cursor := if op = .lte ∧ upTo entries val < entries.length then upTo entries val - 1
          else upTo entries val } := by
  have counted := upTo_le_length entries val
  induction fuel generalizing f with
  | zero =>
    have atEnd : upTo entries val = f.cursor := by omega
    have noRoom : ¬ f.cursor < entries.length := by omega
    have passed : f.cursor = entries.length := by omega
    rw [equalRunUp, atEnd]
    simp only [passed, or_true, ↓reduceIte, lt_irrefl, and_false]
    rw [← passed, ← decoded]
  | succ fuel ih =>
    have inside : f.cursor < entries.length := by omega
    rw [equalRunUp, if_pos (by omega)]
    simp only [extractIndex_encodeEntries]
    have equal := sorted.eq_iff val inside
    by_cases more : f.cursor < upTo entries val
    · have same : (entryAt entries f.cursor).i = val := equal.mpr ⟨by omega, more⟩
      rw [if_neg (by simp [same])]
      exact ih whole (by simp only; omega) (by simp only; omega) rfl (by simp only; omega)
    · have last : upTo entries val = f.cursor := by omega
      have differs : (entryAt entries f.cursor).i ≠ val := fun same => more (equal.mp same).2
      rw [if_pos differs, last]
      by_cases isLte : op = .lte
      · simp [isLte, inside]
      · simp [isLte, inside.ne]

end

/-- Where a side of a search begins: the number of entries on the lower side of the bound. -/
def bound (op : TypeSearchIndex) (entries : List IndexEntry) (val : Int64) : Nat :=
  match op with
  | .lte | .gt => upTo entries val
  | _ => below entries val

/-- The key is absent, and there are entries below and above it. -/
def Between (entries : List IndexEntry) (val : Int64) : Prop :=
  below entries val = upTo entries val ∧ 0 < below entries val ∧ below entries val < entries.length

instance (entries : List IndexEntry) (val : Int64) : Decidable (Between entries val) := by
  unfold Between
  infer_instance

/-- The main loop leaves the entry below a lower bound decoded: the key is absent, and as many
entries as the halving of their number to at most five leaves are above it. -/
def staleLower (entries : List IndexEntry) (val : Int64) : Bool :=
  Between entries val ∧ below entries val + Probe.tail 5 entries.length ≤ entries.length

/-- The main loop leaves the entry above an upper bound decoded: the key is absent, and fewer
entries than the halving of their number to at most five leaves are above it. -/
def staleUpper (entries : List IndexEntry) (val : Int64) : Bool :=
  Between entries val ∧ entries.length < below entries val + Probe.tail 5 entries.length

/-- The walk over equal keys passes the end of the blob, so that the cursor is left behind it: the
key is that of the last two entries, of more than two. -/
def overrun (entries : List IndexEntry) (val : Int64) : Bool :=
  upTo entries val = entries.length ∧ below entries val + 1 < entries.length ∧ 2 < entries.length

theorem probe_spec (small : entries.length < 2 ^ 60) (inhabited : entries ≠ []) (val : Int64) :
    probe entries val ≠ .exhausted ∧
      Probe.ExitSpec entries.length (below entries val) (upTo entries val) (probe entries val) :=
  Probe.run_start (by decide) (below_le_upTo entries val) (upTo_le_length entries val)
    (length_pos_iff.mpr inhabited) small (by decide)

section

variable (small : entries.length < 2 ^ 60) (inhabited : entries ≠ [])

include small inhabited

theorem staleLower_eq (val : Int64) : staleLower entries val = (probe entries val).isDown := by
  have spec := (probe_spec small inhabited val).2
  have positive : 0 < entries.length := length_pos_iff.mpr inhabited
  cases exit : probe entries val with
  | stepDown cursor =>
    obtain ⟨next, same, room⟩ := exit ▸ spec
    refine decide_eq_true ⟨⟨same, by omega, room⟩, ?_⟩
    by_contra short
    exact (Probe.run_of_tail (by decide) same positive (by omega) cursor).1
      (by rw [Nat.sub_zero]; omega) exit
  | stepUp cursor =>
    obtain ⟨_, same, _, room⟩ := exit ▸ spec
    refine decide_eq_false (fun stale => ?_)
    exact (Probe.run_of_tail (by decide) same positive (by omega) cursor).2 stale.2 exit
  | exhausted => exact absurd exit (probe_spec small inhabited val).1
  | _ =>
    rw [exit, Probe.ExitSpec] at spec
    exact decide_eq_false (fun stale => by have := stale.1; unfold Between at this; omega)

theorem staleUpper_eq (val : Int64) : staleUpper entries val = (probe entries val).isUp := by
  have spec := (probe_spec small inhabited val).2
  have positive : 0 < entries.length := length_pos_iff.mpr inhabited
  cases exit : probe entries val with
  | stepDown cursor =>
    obtain ⟨_, same, _⟩ := exit ▸ spec
    refine decide_eq_false (fun stale => ?_)
    exact (Probe.run_of_tail (by decide) same positive (by omega) cursor).1 stale.2 exit
  | stepUp cursor =>
    obtain ⟨_, same, some, room⟩ := exit ▸ spec
    refine decide_eq_true ⟨⟨same, some, room⟩, ?_⟩
    by_contra long
    exact (Probe.run_of_tail (by decide) same positive (by omega) cursor).2
      (by rw [Nat.sub_zero]; omega) exit
  | exhausted => exact absurd exit (probe_spec small inhabited val).1
  | _ =>
    rw [exit, Probe.ExitSpec] at spec
    exact decide_eq_false (fun stale => by have := stale.1; unfold Between at this; omega)

theorem overrun_eq (val : Int64) :
    overrun entries val =
      (decide (upTo entries val = entries.length) &&
        (probe entries val).isBefore entries.length) := by
  obtain ⟨ended, spec⟩ := probe_spec small inhabited val
  rw [overrun, Bool.decide_and]
  by_cases full : upTo entries val = entries.length
  swap
  · rw [decide_eq_false full, Bool.false_and, Bool.false_and]
  congr 1
  by_cases many : below entries val + 1 < entries.length ∧ 2 < entries.length
  · obtain ⟨cursor, exit, -⟩ := Probe.hit_of_occurs spec (by omega) ended
    have before := Probe.run_hit_lt (by decide) full many.1 (by omega) exit
    rw [exit]
    exact (decide_eq_true many).trans (decide_eq_true before).symm
  · rw [decide_eq_false many]
    cases exit : probe entries val with
    | hit cursor =>
      obtain ⟨atLeast, atMost⟩ := exit ▸ spec
      refine (decide_eq_false (fun before => ?_)).symm
      -- Of two entries the probe looks at the last one first.
      rw [probe, show 10000 = 9999 + 1 from rfl, Probe.run, if_neg (by omega),
        if_pos (by omega)] at exit
      cases exit
      omega
    | _ => rfl

end

theorem retrieveCursorLoop_start (sorted : Sorted entries) (small : entries.length < 2 ^ 60)
    (inhabited : entries ≠ []) (val : Int64) (op : TypeSearchIndex) (f : SearchIndex) :
    retrieveCursorLoop (encodeEntries entries) val op entries.length 10000 (entries.length / 2) 0
      false false f = cursorAtExit entries op f (probe entries val) := by
  have positive : 0 < entries.length := length_pos_iff.mpr inhabited
  exact retrieveCursorLoop_eq sorted small val op
    ⟨by omega, by omega, .inl rfl, by simp, by simp⟩ (fun _ => rfl)
    (probe_spec small inhabited val).1

theorem retrieveCursor_eq (sorted : Sorted entries) (small : entries.length < 2 ^ 60)
    (inhabited : entries ≠ []) (val : Int64) (op : TypeSearchIndex) :
    retrieveCursor (encodeEntries entries) val op =
      let placed := cursorAtExit entries op { maxCursor := entries.length } (probe entries val)
      if placed.2 then equalRun (encodeEntries entries) val op placed.1 else placed.1 := by
  have started := retrieveCursorLoop_start sorted small inhabited val op
    { maxCursor := entries.length }
  have present : encodeEntries entries ≠ [] := fun none => inhabited (encodeEntries_eq_nil.mp none)
  simp only [retrieveCursor, encodeEntries_length_div, if_neg present, started]

section

variable (sorted : Sorted entries) (val : Int64) {f : SearchIndex}
  (decoded : f.toIndexEntry = entryAt entries f.cursor)
  (lower : below entries val ≤ f.cursor) (upper : f.cursor < upTo entries val)

include sorted decoded lower upper

theorem equalRun_gte :
    equalRun (encodeEntries entries) val .gte f =
      { f with toIndexEntry := entryAt entries (below entries val)
               cursor := below entries val } := by
  have walked := equalRunDown_eq sorted val .gte rfl decoded lower upper
  simp only [↓reduceIte] at walked
  simp only [equalRun, walked, reduceCtorEq, or_self, ↓reduceIte, or_false, false_and]

theorem equalRun_lt :
    equalRun (encodeEntries entries) val .lt f =
      { f with toIndexEntry := entryAt entries (below entries val - 1)
               cursor := below entries val - 1
               found := if below entries val = 0 then false else f.found
               foundUltima := if below entries val = 0 then true else f.foundUltima } := by
  have counted := upTo_le_length entries val
  have walked := equalRunDown_eq sorted val .lt rfl decoded lower upper
  simp only [reduceCtorEq, ↓reduceIte] at walked
  simp only [equalRun, walked, reduceCtorEq, or_self, ↓reduceIte, or_true, true_and]
  have equal := sorted.eq_iff val (show below entries val - 1 < entries.length by omega)
  by_cases none : below entries val = 0
  · have same : (entryAt entries (below entries val - 1)).i = val := equal.mpr (by omega)
    simp only [if_pos same, if_pos none]
  · have differs : (entryAt entries (below entries val - 1)).i ≠ val := by
      grind
    simp only [if_neg differs, if_neg none]

variable (whole : f.maxCursor = entries.length)

include whole

theorem equalRunUp_hit (op : TypeSearchIndex) (more : f.cursor + 1 < entries.length) :
    equalRunUp (encodeEntries entries) val op (f.maxCursor - (f.cursor + 1))
        { f with cursor := f.cursor + 1 } =
      { f with
        toIndexEntry := entryAt entries
          (if op = .lte ∨ upTo entries val = entries.length then upTo entries val - 1
            else upTo entries val)
        cursor := if op = .lte ∧ upTo entries val < entries.length then upTo entries val - 1
          else upTo entries val } :=
  equalRunUp_eq (f := { f with cursor := f.cursor + 1 }) sorted val op whole
    (by simp only; omega) (by simp only; omega) decoded (by simp only; omega)

theorem equalRun_gt :
    ∃ cursor, equalRun (encodeEntries entries) val .gt f =
      if upTo entries val = entries.length then
        { f with toIndexEntry := entryAt entries (entries.length - 1), cursor
                 found := false, foundUltima := true }
      else
        { f with
          toIndexEntry := entryAt entries (upTo entries val), cursor := upTo entries val } := by
  have counted := upTo_le_length entries val
  by_cases more : f.cursor + 1 < entries.length
  · have walked := equalRunUp_hit sorted val decoded lower upper whole .gt more
    simp only [reduceCtorEq, false_or, false_and, ↓reduceIte, whole] at walked
    refine ⟨upTo entries val, ?_⟩
    simp only [equalRun, or_true, ↓reduceIte, whole, if_pos more, true_and, walked]
    by_cases full : upTo entries val = entries.length
    · have same : (entryAt entries (entries.length - 1)).i = val :=
        (sorted.eq_iff val (by omega)).mpr (by omega)
      simp only [full, ↓reduceIte, same]
    · have differs : (entryAt entries (upTo entries val)).i ≠ val := fun same => by
        have := (sorted.eq_iff val (show upTo entries val < entries.length by omega)).mp same
        omega
      simp only [if_neg full, if_neg differs]
  · have full : upTo entries val = entries.length := by omega
    have last : f.cursor = entries.length - 1 := by omega
    have same : (entryAt entries f.cursor).i = val :=
      (sorted.eq_iff val (by omega)).mpr ⟨lower, upper⟩
    refine ⟨f.cursor, ?_⟩
    simp only [equalRun, or_true, ↓reduceIte, whole, if_neg more, true_and, if_pos full,
      Nat.add_sub_cancel, decoded, ← last, same]

/-- From a hit the cursor for `lte` goes to the last equal entry, or behind the blob when the walk
started before the last entry and met only equal ones. -/
theorem equalRun_lte :
    equalRun (encodeEntries entries) val .lte f =
      { f with toIndexEntry := entryAt entries (upTo entries val - 1)
               cursor := if upTo entries val = entries.length ∧ f.cursor + 1 < entries.length
                 then entries.length else upTo entries val - 1 } := by
  have counted := upTo_le_length entries val
  by_cases more : f.cursor + 1 < entries.length
  · have walked := equalRunUp_hit sorted val decoded lower upper whole .lte more
    simp only [true_or, true_and, ↓reduceIte, whole] at walked
    simp only [equalRun, true_or, ↓reduceIte, whole, reduceCtorEq, false_and, walked, more,
      and_true]
    by_cases full : upTo entries val = entries.length
    · simp only [full, lt_irrefl, ↓reduceIte]
    · simp only [if_neg full, if_pos (lt_of_le_of_ne counted full)]
  · have last : upTo entries val - 1 = f.cursor := by omega
    simp only [equalRun, true_or, ↓reduceIte, whole, reduceCtorEq, false_and, more, and_false,
      last, Nat.add_sub_cancel, ← decoded]

end

theorem bound_of_same {val : Int64} {cursor : Nat} (lower : below entries val = cursor)
    (upper : upTo entries val = cursor) (op : TypeSearchIndex) : bound op entries val = cursor := by
  cases op <;> assumption

section

variable {op : TypeSearchIndex} (sorted : Sorted entries) (small : entries.length < 2 ^ 60)

include sorted small

/-- A cursor for a lower bound stands at the first entry inside the bound, if there is one. The
decoded entry is that entry, or the one before it after a step down. -/
theorem retrieveCursor_lower (val : Int64) (lower : op.isLowerBound = true) :
    let f := retrieveCursor (encodeEntries entries) val op
    f.maxCursor = entries.length ∧ f.found = decide (bound op entries val < entries.length) ∧
      (bound op entries val < entries.length → f.cursor = bound op entries val ∧
        f.toIndexEntry = entryAt entries
          (if staleLower entries val then bound op entries val - 1 else bound op entries val)) := by
  rcases eq_or_ne entries [] with rfl | inhabited
  · exact ⟨rfl, by cases op <;> rfl, fun room => absurd room (Nat.not_lt_zero _)⟩
  have notUpper : op.isUpperBound = false := by cases op <;> first | rfl | cases lower
  have positive : 0 < entries.length := length_pos_iff.mpr inhabited
  have counted := upTo_le_length entries val
  obtain ⟨ended, spec⟩ := probe_spec small inhabited val
  rw [retrieveCursor_eq sorted small inhabited, staleLower_eq small inhabited]
  cases exit : probe entries val with
  | hit cursor =>
    rw [exit] at spec
    obtain ⟨atLeast, atMost⟩ := spec
    have hit : cursorAtExit entries op { maxCursor := entries.length } (.hit cursor) =
      (⟨entryAt entries cursor, cursor, entries.length, true, false, false⟩, true) := rfl
    rw [hit]
    cases op with
    | gte =>
      have room : below entries val < entries.length := by omega
      rw [if_pos rfl, equalRun_gte sorted val rfl atLeast atMost]
      exact ⟨rfl, (decide_eq_true room).symm, fun _ => ⟨rfl, rfl⟩⟩
    | gt =>
      obtain ⟨left, settled⟩ := equalRun_gt (f := ⟨entryAt entries cursor, cursor, entries.length,
        true, false, false⟩) sorted val rfl atLeast atMost rfl
      rw [if_pos rfl, settled]
      by_cases full : upTo entries val = entries.length
      · have noRoom : ¬ upTo entries val < entries.length := by omega
        rw [if_pos full]
        exact ⟨rfl, (decide_eq_false noRoom).symm, fun room => absurd room noRoom⟩
      · have room : upTo entries val < entries.length := by omega
        rw [if_neg full]
        exact ⟨rfl, (decide_eq_true room).symm, fun _ => ⟨rfl, rfl⟩⟩
    | _ => cases lower
  | stepDown cursor =>
    rw [exit] at spec
    obtain ⟨next, same, room⟩ := spec
    rw [bound_of_same next.symm (by omega) op]
    simp only [cursorAtExit, lower, ↓reduceIte, Bool.false_eq_true]
    exact ⟨trivial, (decide_eq_true (by omega)).symm, fun _ => ⟨trivial, rfl⟩⟩
  | stepUp cursor =>
    rw [exit] at spec
    obtain ⟨next, same, _, room⟩ := spec
    rw [bound_of_same next.symm (by omega) op]
    simp only [cursorAtExit, Probe.Exit.isDown, lower, notUpper, ↓reduceIte, Bool.false_eq_true]
    exact ⟨trivial, (decide_eq_true (by omega)).symm, fun _ => ⟨trivial, trivial⟩⟩
  | top =>
    rw [exit] at spec
    rw [bound_of_same spec.1 spec.2 op]
    simp only [cursorAtExit, notUpper, ↓reduceIte, Bool.false_eq_true]
    exact ⟨trivial, (decide_eq_false (lt_irrefl _)).symm, fun room => absurd room (lt_irrefl _)⟩
  | bottom =>
    rw [exit] at spec
    rw [bound_of_same spec.1 spec.2 op]
    simp only [cursorAtExit, Probe.Exit.isDown, lower, ↓reduceIte, Bool.false_eq_true]
    exact ⟨trivial, (decide_eq_true positive).symm, fun _ => ⟨trivial, trivial⟩⟩
  | exhausted => exact absurd exit ended

/-- A cursor for an upper bound stands at the last entry inside the bound, if there is one, or
behind the blob when the walk over equal keys passed its end. The decoded entry is that last
entry, or the one after it after a step up. -/
theorem retrieveCursor_upper (val : Int64) (upper : op.isUpperBound = true) :
    let f := retrieveCursor (encodeEntries entries) val op
    f.found = decide (0 < bound op entries val) ∧
      (0 < bound op entries val →
        f.cursor = (if op = .lte ∧ overrun entries val = true then entries.length
            else bound op entries val - 1) ∧
        f.toIndexEntry = entryAt entries
          (if staleUpper entries val then bound op entries val else bound op entries val - 1)) := by
  rcases eq_or_ne entries [] with rfl | inhabited
  · have none : bound op [] val = 0 := by cases op <;> rfl
    rw [none]
    exact ⟨by cases op <;> rfl, fun some => absurd some (lt_irrefl _)⟩
  have notLower : op.isLowerBound = false := by cases op <;> first | rfl | cases upper
  have positive : 0 < entries.length := length_pos_iff.mpr inhabited
  obtain ⟨ended, spec⟩ := probe_spec small inhabited val
  rw [retrieveCursor_eq sorted small inhabited, staleUpper_eq small inhabited,
    overrun_eq small inhabited]
  cases exit : probe entries val with
  | hit cursor =>
    rw [exit] at spec
    obtain ⟨atLeast, atMost⟩ := spec
    have hit : cursorAtExit entries op { maxCursor := entries.length } (.hit cursor) =
      (⟨entryAt entries cursor, cursor, entries.length, true, false, false⟩, true) := rfl
    rw [hit]
    cases op with
    | lte =>
      have some : 0 < upTo entries val := by omega
      rw [if_pos rfl, equalRun_lte sorted val rfl atLeast atMost rfl]
      exact ⟨(decide_eq_true some).symm, fun _ => ⟨by simp [bound, Probe.Exit.isBefore], rfl⟩⟩
    | lt =>
      rw [if_pos rfl, equalRun_lt sorted val rfl atLeast atMost]
      refine ⟨?_, fun _ => ⟨rfl, rfl⟩⟩
      by_cases none : below entries val = 0
      · simp [bound, none]
      · simp [bound, none, Nat.pos_of_ne_zero none]
    | _ => cases upper
  | stepDown cursor =>
    rw [exit] at spec
    obtain ⟨next, same, room⟩ := spec
    rw [bound_of_same next.symm (by omega) op]
    simp only [cursorAtExit, Probe.Exit.isUp, Probe.Exit.isBefore,
      upper, notLower, ↓reduceIte, Bool.false_eq_true, Bool.and_false, and_false,
      Nat.add_sub_cancel]
    exact ⟨(decide_eq_true (by omega)).symm, fun _ => ⟨trivial, trivial⟩⟩
  | stepUp cursor =>
    rw [exit] at spec
    obtain ⟨next, same, above, room⟩ := spec
    rw [bound_of_same next.symm (by omega) op]
    simp only [cursorAtExit, Probe.Exit.isUp, Probe.Exit.isBefore,
      upper, ↓reduceIte, Bool.false_eq_true, Bool.and_false, and_false]
    exact ⟨(decide_eq_true (by omega)).symm, fun _ => ⟨trivial, trivial⟩⟩
  | top =>
    rw [exit] at spec
    rw [bound_of_same spec.1 spec.2 op]
    simp only [cursorAtExit, Probe.Exit.isUp, Probe.Exit.isBefore,
      upper, ↓reduceIte, Bool.false_eq_true, Bool.and_false, and_false]
    exact ⟨(decide_eq_true positive).symm, fun _ => ⟨trivial, trivial⟩⟩
  | bottom =>
    rw [exit] at spec
    rw [bound_of_same spec.1 spec.2 op]
    simp only [cursorAtExit, Probe.Exit.isUp, Probe.Exit.isBefore,
      notLower, ↓reduceIte, Bool.false_eq_true]
    exact ⟨(decide_eq_false (lt_irrefl _)).symm, fun none => absurd none (lt_irrefl _)⟩
  | exhausted => exact absurd exit ended

theorem retrieveCursor_compare (val : Int64) :
    let f := retrieveCursor (encodeEntries entries) val .compare
    f.maxCursor = entries.length ∧
      f.found = decide (below entries val < upTo entries val) ∧
      (f.found = true → below entries val ≤ f.cursor ∧ f.cursor < upTo entries val ∧
        f.toIndexEntry = entryAt entries f.cursor) := by
  rcases eq_or_ne entries [] with rfl | inhabited
  · exact ⟨rfl, rfl, fun found => Bool.noConfusion found⟩
  obtain ⟨ended, spec⟩ := probe_spec small inhabited val
  rw [retrieveCursor_eq sorted small inhabited]
  by_cases occurs : below entries val < upTo entries val
  · obtain ⟨cursor, exit, atLeast, atMost⟩ := Probe.hit_of_occurs spec occurs ended
    rw [exit]
    exact ⟨rfl, (decide_eq_true occurs).symm, fun _ => ⟨atLeast, atMost, rfl⟩⟩
  · rw [decide_eq_false occurs]
    cases exit : probe entries val with
    | hit cursor =>
      rw [exit] at spec
      exact absurd (lt_of_le_of_lt spec.1 spec.2) occurs
    | exhausted => exact absurd exit ended
    | _ => exact ⟨rfl, rfl, fun found => Bool.noConfusion found⟩

theorem retrieveCursor_lt_foundUltima (inhabited : entries ≠ []) (val : Int64)
    (none : below entries val = 0) :
    let f := retrieveCursor (encodeEntries entries) val .lt
    f.isLower = decide (upTo entries val = 0) ∧
      f.foundUltima = decide (0 < upTo entries val) ∧ (f.foundUltima = true → f.cursor = 0) := by
  obtain ⟨ended, spec⟩ := probe_spec small inhabited val
  have positive : 0 < entries.length := length_pos_iff.mpr inhabited
  rw [retrieveCursor_eq sorted small inhabited]
  cases exit : probe entries val with
  | hit cursor =>
    rw [exit] at spec
    obtain ⟨atLeast, atMost⟩ := spec
    have hit : cursorAtExit entries .lt { maxCursor := entries.length } (.hit cursor) =
      (⟨entryAt entries cursor, cursor, entries.length, true, false, false⟩, true) := rfl
    rw [hit, if_pos rfl, equalRun_lt sorted val rfl atLeast atMost, none]
    exact ⟨(decide_eq_false (by omega)).symm, (decide_eq_true (by omega)).symm, fun _ => rfl⟩
  | stepDown cursor =>
    rw [exit] at spec
    exact absurd none (by have := spec.1; omega)
  | stepUp cursor =>
    rw [exit] at spec
    exact absurd none (by have := spec.2.2.1; omega)
  | top =>
    rw [exit] at spec
    exact absurd none (by have := spec.1; omega)
  | bottom =>
    rw [exit] at spec
    rw [spec.2]
    exact ⟨rfl, rfl, fun found => Bool.noConfusion found⟩
  | exhausted => exact absurd exit ended

end

end RssDisk.IndexUtility
