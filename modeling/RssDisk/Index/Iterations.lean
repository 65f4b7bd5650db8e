import RssDisk.Index.Cursor

/-!
# The iterations of `retrieveCursor`

The main loop of `retrieveCursor` stops after 10000 iterations. On a sorted blob it breaks long
before, so that the cap never decides a result, and on its way it stays inside the blob.
-/

namespace RssDisk.IndexUtility

open Bitbase BTree Lib

/-- What the main loop of `retrieveCursor` did. -/
structure CursorTrace where
  /-- The cursors at which an entry was extracted, one for each iteration. -/
  extracts : List Nat := []
  decrements : List Nat := []
  /-- Whether the loop ended with a `break`. -/
  broke : Bool := false

/-- An iteration before the others. -/
def CursorTrace.after (t : CursorTrace) (cursor : Nat) (decrements : List Nat) : CursorTrace where
  extracts := cursor :: t.extracts
  decrements := decrements ++ t.decrements
  broke := t.broke

/-- The main loop of `retrieveCursor`, for what it does instead of what it finds. -/
def cursorTrace (index : Bytes) (val : Int64) (op : TypeSearchIndex) (maxCursor : Nat) :
    Nat → Nat → Nat → Bool → Bool → SearchIndex → CursorTrace
  | 0, _, _, _, _, _ => {}
  | fuel + 1, cursor, prevCursor, stepUp, stepDown, f =>
    let f := extractIndex index cursor f
    let break' : CursorTrace := { broke := true }
    if f.i = val then break'.after cursor []
    else if f.i < val then
      if stepDown then break'.after cursor []
      else if 5 < sizeSub maxCursor cursor then
        (cursorTrace index val op maxCursor fuel (cursor + sizeSub maxCursor cursor / 2) cursor
          stepUp stepDown f).after cursor []
      else if cursor + 1 = maxCursor then
        break'.after cursor (if op.isUpperBound then [cursor + 1] else [])
      else
        (cursorTrace index val op maxCursor fuel (cursor + 1) cursor true stepDown f).after
          cursor []
    else
      if stepUp then break'.after cursor (if op.isUpperBound then [cursor] else [])
      else if 5 < sizeSub cursor prevCursor then
        (cursorTrace index val op maxCursor fuel (prevCursor + sizeSub cursor prevCursor / 2)
          prevCursor stepUp stepDown f).after cursor []
      else if cursor = 0 then break'.after cursor []
      else
        (cursorTrace index val op maxCursor fuel (cursor - 1) prevCursor stepUp true f).after cursor
          [cursor]

/-- The main loop as `retrieveCursor` enters it. -/
def mainLoop (index : Bytes) (val : Int64) (op : TypeSearchIndex) : Option CursorTrace :=
  let maxCursor := index.length / indexDataSize
  if index = [] then none
  else some (cursorTrace index val op maxCursor 10000 (maxCursor / 2) 0 false false { maxCursor })

/-- A loop that breaks within a number of iterations, and stays inside of so many entries. -/
structure CursorTrace.Breaks (count fuel : Nat) (t : CursorTrace) : Prop where
  /-- It ends with a `break`. -/
  broke : t.broke = true
  iterations : t.extracts.length ≤ fuel
  inside : ∀ cursor ∈ t.extracts, cursor < count
  positive : ∀ cursor ∈ t.decrements, 0 < cursor

theorem CursorTrace.Breaks.after {count fuel : Nat} {t : CursorTrace} (breaks : t.Breaks count fuel)
    {cursor : Nat} (inside : cursor < count) {decrements : List Nat}
    (positive : ∀ other ∈ decrements, 0 < other) :
    (t.after cursor decrements).Breaks count (fuel + 1) where
  broke := breaks.broke
  iterations := Nat.succ_le_succ breaks.iterations
  inside := List.forall_mem_cons.mpr ⟨inside, breaks.inside⟩
  positive := List.forall_mem_append.mpr ⟨positive, breaks.positive⟩

theorem CursorTrace.Breaks.last {count fuel cursor : Nat} (inside : cursor < count)
    {decrements : List Nat} (positive : ∀ other ∈ decrements, 0 < other) :
    (({ broke := true } : CursorTrace).after cursor decrements).Breaks count (fuel + 1) :=
  after ⟨rfl, Nat.zero_le _, by simp, by simp⟩ inside positive

variable {entries : List IndexEntry}

theorem cursorTrace_breaks (sorted : Sorted entries) (small : entries.length < 2 ^ 60)
    (val : Int64) (op : TypeSearchIndex) (more : Nat) {fuel cursor prev : Nat} {up down : Bool}
    {f : SearchIndex}
    (probing : Probe.Probing 5 entries.length (below entries val) (upTo entries val) cursor prev
      up down)
    (ended : Probe.run 5 entries.length (below entries val) (upTo entries val) fuel cursor prev
      up down ≠ .exhausted) :
    (cursorTrace (encodeEntries entries) val op entries.length (fuel + more) cursor prev up down
        f).Breaks entries.length fuel ∧
      retrieveCursorLoop (encodeEntries entries) val op entries.length (fuel + more) cursor prev
          up down f =
        retrieveCursorLoop (encodeEntries entries) val op entries.length fuel cursor prev
          up down f := by
  induction fuel generalizing cursor prev up down f with
  | zero => exact absurd rfl ended
  | succ fuel ih =>
    have inside := probing.inside
    have toEnd : sizeSub entries.length cursor = entries.length - cursor :=
      sizeSub_eq (by omega) (by omega)
    have toPrev : sizeSub cursor prev = cursor - prev :=
      sizeSub_eq probing.remembered (by omega)
    have none : ∀ other ∈ ([] : List Nat), 0 < other := by simp
    rw [Nat.succ_add]
    unfold cursorTrace retrieveCursorLoop
    unfold Probe.run at ended
    simp only [extractIndex_encodeEntries, toEnd, toPrev]
    rcases compare_cases sorted val inside with ⟨lower, differs, less⟩ | ⟨lower, upper, equal⟩ |
      ⟨upper, differs, notLess⟩
    · simp only [if_pos lower, if_neg differs, if_pos less] at ended ⊢
      by_cases walking : down = true
      · simp only [if_pos walking]
        exact ⟨.last inside none, trivial⟩
      · simp only [if_neg walking] at ended ⊢
        by_cases far : 5 < entries.length - cursor
        · simp only [if_pos far] at ended ⊢
          exact (ih (probing.halveUp lower walking far) ended).imp_left (·.after inside none)
        · simp only [if_neg far] at ended ⊢
          by_cases last : cursor + 1 = entries.length
          · simp only [if_pos last]
            exact ⟨.last inside (by split <;> simp), trivial⟩
          · simp only [if_neg last] at ended ⊢
            exact (ih (probing.walkUp lower walking far last) ended).imp_left (·.after inside none)
    · simp only [if_pos equal]
      exact ⟨.last inside none, trivial⟩
    · have notLower : ¬ cursor < below entries val := by
        have := below_le_upTo entries val
        omega
      have notEqual : ¬ cursor < upTo entries val := by omega
      simp only [if_neg notLower, if_neg notEqual, if_neg differs, if_neg notLess] at ended ⊢
      by_cases walking : up = true
      · have positive := (probing.upward walking).1
        simp only [if_pos walking]
        exact ⟨.last inside (by split <;> simp [positive]), trivial⟩
      · simp only [if_neg walking] at ended ⊢
        by_cases wide : 5 < cursor - prev
        · simp only [if_pos wide] at ended ⊢
          exact (ih (probing.halveDown walking wide) ended).imp_left (·.after inside none)
        · simp only [if_neg wide] at ended ⊢
          by_cases first : cursor = 0
          · simp only [if_pos first]
            exact ⟨.last inside none, trivial⟩
          · simp only [if_neg first] at ended ⊢
            exact (ih (probing.walkDown notLower notEqual walking wide first) ended).imp_left
              (·.after inside (by simp; omega))

/-- On a sorted blob of fewer than `2 ^ 28` entries the main loop of `retrieveCursor` breaks
before its iterations are used up, extracts entries of the blob only and decrements no cursor that
is zero. A greater cap would not change what it returns. -/
theorem retrieveCursor_breaks (sorted : Sorted entries) (few : entries.length < 2 ^ 28)
    (val : Int64) (op : TypeSearchIndex) :
    ∀ t ∈ mainLoop (encodeEntries entries) val op,
      t.broke = true ∧ t.extracts.length < 10000 ∧
        (∀ cursor ∈ t.extracts, cursor < entries.length) ∧
        (∀ cursor ∈ t.decrements, 0 < cursor) ∧
        ∀ cap, 10000 ≤ cap → ∀ f,
          retrieveCursorLoop (encodeEntries entries) val op entries.length cap
              (entries.length / 2) 0 false false f =
            retrieveCursorLoop (encodeEntries entries) val op entries.length 10000
              (entries.length / 2) 0 false false f := by
  intro t entered
  rw [mainLoop, encodeEntries_length_div] at entered
  by_cases empty : encodeEntries entries = []
  · rw [if_pos empty] at entered
    cases entered
  · rw [if_neg empty] at entered
    obtain rfl := Option.some.inj entered
    have inhabited : 0 < entries.length := by
      apply List.length_pos_of_ne_nil
      rintro rfl
      exact empty rfl
    have started := fun more f => cursorTrace_breaks (f := f) sorted (by omega) val op more
      ⟨by omega, Nat.zero_le _, .inl rfl, by simp, by simp⟩
      (Probe.run_start (by decide) (below_le_upTo entries val) (upTo_le_length entries val)
        inhabited few (show 28 * (28 + 2) + 5 + 2 ≤ 847 by decide)).1
    have breaks := (started 9153 { maxCursor := entries.length }).1
    refine ⟨breaks.broke, breaks.iterations.trans_lt (by decide), breaks.inside, breaks.positive,
      fun cap enough f => ?_⟩
    have capped := (started (cap - 847) f).2
    rw [show 847 + (cap - 847) = cap by omega] at capped
    rw [capped, (started 9153 f).2]

/-- A key between the last two of three entries takes two iterations, and the cursor goes back. -/
theorem retrieveCursor_breaks_three :
    Sorted [⟨1, 0, 5⟩, ⟨3, 5, 5⟩, ⟨8, 10, 5⟩] ∧
      ∃ t ∈ mainLoop (encodeEntries [⟨1, 0, 5⟩, ⟨3, 5, 5⟩, ⟨8, 10, 5⟩]) 5 .lte,
        t.extracts = [1, 2] ∧ t.decrements = [2] ∧ t.broke = true := by
  have entered : mainLoop (encodeEntries [⟨1, 0, 5⟩, ⟨3, 5, 5⟩, ⟨8, 10, 5⟩]) 5 .lte =
      some { extracts := [1, 2], decrements := [2], broke := true } := by rfl
  exact ⟨by decide, _, entered, rfl, rfl,
    (retrieveCursor_breaks (by decide) (by decide) 5 .lte _ entered).1⟩

end RssDisk.IndexUtility
