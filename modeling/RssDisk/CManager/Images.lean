import RssDisk.CManager.Serialize

/-!
# Images that no server wrote

`deserialize` reads its image with signed sizes and `std::size_t` places. A size that is negative
passes the checks as long as it does not lead before the start: the substring it stands for reaches
behind the end of the image, and a negative size of a block leads back, so that the loop may read
the same blocks for ever.
-/

namespace RssDisk.CManager

open Bitbase MapTime List Option

/-- A substring that is taken: the length of the whole, the place, and the count. -/
structure Taken where
  whole : Nat
  place : Nat
  /-- The count, as the `std::size_t` that is passed. -/
  count : Nat

/-- The substring lies inside of the whole. -/
def Taken.Inside (t : Taken) : Prop := t.place + t.count ≤ t.whole

/-- The size in four bytes at a place. -/
def sizeAt (d : Bytes) (place : Nat) : Int := (charsToI32 ((d.drop place).take 4)).toInt

/-- The substrings that `deserialize_function` takes of a block. -/
def blockTaken (d : Bytes) : List Taken :=
  if 4 < d.length then
    let start := toSize (4 + sizeAt d 0)
    ⟨d.length, 0, 4⟩ ::
      if start ≤ d.length then
        ⟨d.length, 4, toSize (sizeAt d 0)⟩ ::
          if toSize (start + 28) < d.length then
            [⟨d.length, start, 8⟩, ⟨d.length, start + 8, 8⟩, ⟨d.length, start + 16, 8⟩,
              ⟨d.length, start + 24, 4⟩] ++
              if toSize (start + 28 + sizeAt d (start + 24)) ≤ d.length then
                [⟨d.length, start + 28, toSize (sizeAt d (start + 24))⟩]
              else []
          else []
      else []
  else []

/-- The substrings that the loop of `deserialize` takes; `none` when it does not end within some
rounds. -/
def loopTaken (data : Bytes) : Nat → Nat → Option (List Taken)
  | 0, _ => none
  | rounds + 1, start =>
    if start + 4 ≤ data.length then
      let stop := toSize (start + 4 + sizeAt data start)
      if stop ≤ data.length then
        (loopTaken data rounds stop).map (fun rest =>
          ⟨data.length, start, 4⟩ :: ⟨data.length, start + 4, toSize (sizeAt data start)⟩ ::
            (blockTaken ((data.drop (start + 4)).take (toSize (sizeAt data start))) ++ rest))
      else some [⟨data.length, start, 4⟩]
    else some []

theorem deserializeLoop_isSome (read : Nat → Bytes → Option (Bytes × TimedVal Item))
    (data : Bytes) (rounds start : Nat) (m : DataStore) :
    (deserializeLoop read data rounds start m).isSome = (loopTaken data rounds start).isSome := by
  induction rounds generalizing start m with
  | zero => rfl
  | succ rounds ih =>
    have size : (charsToI32 ((data.drop start).take 4)).toInt = sizeAt data start := rfl
    rw [deserializeLoop, loopTaken, size]
    dsimp only
    split
    · split
      · grind
      · rfl
    · rfl

/-- A size that is negative and passes the check at a place. -/
def Backward (place : Nat) (size : Int) : Prop := -(place : Int) ≤ size ∧ size < 0

/-- No size of a block leads back. -/
def SoundBlock (d : Bytes) : Prop :=
  4 < d.length → ¬ Backward 4 (sizeAt d 0) ∧
    ∀ key : Nat, sizeAt d 0 = key → 4 + key + 28 < d.length →
      ¬ Backward (4 + key + 28) (sizeAt d (4 + key + 24))

/-- The places of the blocks of an image, one behind another. -/
inductive Reached (data : Bytes) : Nat → Prop where
  | first : Reached data 0
  | next {start : Nat} (reached : Reached data start) (size : Nat)
      (sized : sizeAt data start = size) (inside : start + 4 + size ≤ data.length) :
      Reached data (start + 4 + size)

/-- An image in whose blocks no size leads back. -/
def SoundImage (data : Bytes) : Prop :=
  ∀ start, Reached data start → start + 4 ≤ data.length →
    ¬ Backward (start + 4) (sizeAt data start) ∧
      ∀ size : Nat, sizeAt data start = size → start + 4 + size ≤ data.length →
        SoundBlock ((data.drop (start + 4)).take size)

theorem sizeAt_range (d : Bytes) (place : Nat) :
    -2 ^ 31 ≤ sizeAt d place ∧ sizeAt d place < 2 ^ 31 :=
  ⟨Int32.le_toInt _, Int32.toInt_lt _⟩

theorem taken_inside_iff {place whole : Nat} {size : Int} (near : place ≤ whole)
    (long : whole < 2 ^ 63) (range : -2 ^ 31 ≤ size ∧ size < 2 ^ 31) (rest : List Taken) :
    (∀ t ∈ if toSize (place + size) ≤ whole then ⟨whole, place, toSize size⟩ :: rest else [],
        t.Inside) ↔
      ¬ Backward place size ∧ ∀ n : Nat, size = n → place + n ≤ whole → ∀ t ∈ rest, t.Inside := by
  have checked : toSize (place + size) ≤ whole ↔ -place ≤ size ∧ place + size ≤ whole := by
    unfold toSize
    omega
  have inside : (⟨whole, place, toSize size⟩ : Taken).Inside ↔ 0 ≤ size ∧ place + size ≤ whole := by
    unfold Taken.Inside toSize
    dsimp only
    omega
  unfold Backward
  split
  · rename_i passes
    have passes := checked.mp passes
    rw [forall_mem_cons, inside]
    constructor
    · grind
    · rintro ⟨forward, others⟩
      exact ⟨by omega, others size.toNat (by omega) (by omega)⟩
  · rename_i fails
    rw [checked] at fails
    refine iff_of_true (by simp) ⟨by omega, ?_⟩
    rintro n rfl fits
    omega

theorem blockTaken_inside_iff {d : Bytes} (long : d.length < 2 ^ 63) :
    (∀ t ∈ blockTaken d, t.Inside) ↔ SoundBlock d := by
  unfold blockTaken SoundBlock
  by_cases big : 4 < d.length
  · have size : (⟨d.length, 0, 4⟩ : Taken).Inside := by
      unfold Taken.Inside
      dsimp only
      omega
    have key := taken_inside_iff (show 4 ≤ d.length by omega) long (sizeAt_range d 0)
    rw [Nat.cast_ofNat] at key
    simp only [big, ↓reduceIte, forall_mem_cons, size, true_and, forall_const, key]
    refine and_congr_right (fun _ => forall_congr' (fun key => imp_congr_right (fun sized => ?_)))
    by_cases fits : 4 + key + 28 < d.length
    · have start : toSize (4 + sizeAt d 0) = 4 + key := by
        unfold toSize
        omega
      have header : ((4 + key : Nat) : Int) + 28 = ((4 + key + 28 : Nat) : Int) := by omega
      have fixed : ∀ t ∈ [(⟨d.length, 4 + key, 8⟩ : Taken), ⟨d.length, 4 + key + 8, 8⟩,
          ⟨d.length, 4 + key + 16, 8⟩, ⟨d.length, 4 + key + 24, 4⟩], t.Inside := by
        simp only [forall_mem_cons, Taken.Inside, not_mem_nil, false_imp_iff,
          implies_true, and_true]
        omega
      have content := taken_inside_iff (show 4 + key + 28 ≤ d.length by omega) long
        (sizeAt_range d (4 + key + 24)) []
      simp only [not_mem_nil, false_imp_iff, implies_true, and_true] at content
      rw [start, header, toSize_natCast (by omega), if_pos fits, forall_mem_append, content]
      exact ⟨fun holds _ => (holds (by omega)).2, fun holds _ => ⟨fixed, holds fits⟩⟩
    · refine iff_of_true (fun near => ?_) (fun more => absurd more fits)
      have start : toSize (toSize (4 + sizeAt d 0) + 28) = 4 + key + 28 := by
        unfold toSize
        omega
      rw [start, if_neg fits]
      simp
  · simp [big]

/-- `deserializeData` ends on an image, and every substring that it takes lies inside. -/
def ReadsInside (data : Bytes) : Prop :=
  ∃ rounds, (∀ ahead readings store,
      (deserializeData ahead readings store rounds data).isSome = true) ∧
    (4 < data.length → ∃ taken, loopTaken data rounds 0 = some taken ∧ ∀ t ∈ taken, t.Inside)

section

variable {data : Bytes} (long : data.length < 2 ^ 63)

include long

theorem loopTaken_succ {start : Nat} (inside : start + 4 ≤ data.length) (rounds : Nat) :
    (∃ taken, loopTaken data (rounds + 1) start = some taken ∧ ∀ t ∈ taken, t.Inside) ↔
      ¬ Backward (start + 4) (sizeAt data start) ∧
        ∀ size : Nat, sizeAt data start = size → start + 4 + size ≤ data.length →
          SoundBlock ((data.drop (start + 4)).take size) ∧
            ∃ taken, loopTaken data rounds (start + 4 + size) = some taken ∧
              ∀ t ∈ taken, t.Inside := by
  have range := sizeAt_range data start
  have size : (⟨data.length, start, 4⟩ : Taken).Inside := inside
  have place : (start : Int) + 4 = ((start + 4 : Nat) : Int) := by omega
  have block := taken_inside_iff inside long range
  rw [loopTaken, if_pos inside, place]
  by_cases passes : toSize ((start + 4 : Nat) + sizeAt data start) ≤ data.length
  · simp only [if_pos passes] at block ⊢
    by_cases forward : Backward (start + 4) (sizeAt data start)
    · refine iff_of_false ?_ (fun holds => holds.1 forward)
      rintro ⟨taken, ended, all⟩
      obtain ⟨rest, -, rfl⟩ := map_eq_some_iff.mp ended
      exact ((block _).mp (forall_mem_cons.mp all).2).1 forward
    · obtain ⟨n, sized, fits⟩ : ∃ n : Nat, sizeAt data start = n ∧ start + 4 + n ≤ data.length := by
        unfold Backward at forward
        unfold toSize at passes
        exact ⟨(sizeAt data start).toNat, by omega, by omega⟩
      have stop : toSize ((start + 4 : Nat) + sizeAt data start) = start + 4 + n := by
        unfold toSize
        omega
      have count : toSize (sizeAt data start) = n := by
        unfold toSize
        omega
      have whole : ((data.drop (start + 4)).take n).length < 2 ^ 63 := by
        rw [length_take, length_drop]
        omega
      rw [stop, count]
      constructor
      · rintro ⟨taken, ended, all⟩
        obtain ⟨rest, found, rfl⟩ := map_eq_some_iff.mp ended
        simp only [forall_mem_cons, forall_mem_append] at all
        refine ⟨forward, fun other same _ => ?_⟩
        obtain rfl : other = n := by omega
        exact ⟨(blockTaken_inside_iff whole).mp all.2.2.1, rest, found, all.2.2.2⟩
      · rintro ⟨-, holds⟩
        obtain ⟨sound, rest, found, others⟩ := holds n sized fits
        refine ⟨_, by rw [found]; rfl, ?_⟩
        simp only [forall_mem_cons, forall_mem_append]
        exact ⟨size, fits, (blockTaken_inside_iff whole).mpr sound, others⟩
  · simp only [if_neg passes, not_mem_nil, false_imp_iff, implies_true, true_iff] at block ⊢
    refine iff_of_true ⟨_, rfl, by simpa using size⟩ ⟨(block []).1, fun n sized fits => ?_⟩
    unfold toSize at passes
    omega

theorem loopTaken_of_sound (sound : SoundImage data) (left : Nat) {start : Nat}
    (reached : Reached data start) (near : data.length < start + 4 + left) :
    ∃ rounds taken, loopTaken data rounds start = some taken ∧ ∀ t ∈ taken, t.Inside := by
  induction left using Nat.strong_induction_on generalizing start with
  | _ left ih =>
    by_cases inside : start + 4 ≤ data.length
    · obtain ⟨forward, blocks⟩ := sound start reached inside
      by_cases goes : ∃ size : Nat, sizeAt data start = size ∧ start + 4 + size ≤ data.length
      · obtain ⟨size, sized, fits⟩ := goes
        obtain ⟨rounds, rest⟩ := ih (left - 4) (by omega) (.next reached size sized fits) (by omega)
        refine ⟨rounds + 1, (loopTaken_succ long inside rounds).mpr
          ⟨forward, fun other same fits => ?_⟩⟩
        obtain rfl : other = size := by omega
        exact ⟨blocks other sized fits, rest⟩
      · exact ⟨1, (loopTaken_succ long inside 0).mpr
          ⟨forward, fun size sized fits => absurd ⟨size, sized, fits⟩ goes⟩⟩
    · refine ⟨1, [], ?_, by simp⟩
      rw [loopTaken, if_neg inside]

theorem loopTaken_reached {rounds : Nat} {taken : List Taken}
    (ended : loopTaken data rounds 0 = some taken) (all : ∀ t ∈ taken, t.Inside) {start : Nat}
    (reached : Reached data start) :
    ∃ rounds taken, loopTaken data (rounds + 1) start = some taken ∧ ∀ t ∈ taken, t.Inside := by
  have positive : ∀ {start rounds taken}, loopTaken data rounds start = some taken →
      (∀ t ∈ taken, t.Inside) →
      ∃ rounds taken, loopTaken data (rounds + 1) start = some taken ∧ ∀ t ∈ taken, t.Inside := by
    intro start rounds taken ended all
    cases rounds with
    | zero => cases ended
    | succ rounds => exact ⟨rounds, taken, ended, all⟩
  induction reached with
  | first => exact positive ended all
  | next reached size sized fits ih =>
    obtain ⟨rounds, found⟩ := ih
    obtain ⟨-, blocks⟩ := (loopTaken_succ long (by omega) rounds).mp found
    obtain ⟨-, taken, rest, others⟩ := blocks size sized fits
    exact positive rest others

end

/-- `deserializeData` ends on an image and takes only substrings that lie inside, exactly if no size
in its blocks leads back. -/
theorem deserialize_inside_iff (data : Bytes) (long : data.length < 2 ^ 63) :
    ReadsInside data ↔ (4 < data.length → SoundImage data) := by
  have ends : ∀ ahead readings store rounds,
      (deserializeData ahead readings store rounds data).isSome =
        (decide (data.length ≤ 4) || (loopTaken data rounds 0).isSome) := by
    intro ahead readings store rounds
    rw [deserializeData, deserialize]
    split
    · rename_i big
      rw [deserializeLoop_isSome, decide_eq_false (by omega), Bool.false_or]
    · rename_i small
      grind
  constructor
  · rintro ⟨rounds, -, inside⟩ big start reached fits
    obtain ⟨taken, ended, all⟩ := inside big
    obtain ⟨rounds, found⟩ := loopTaken_reached long ended all reached
    obtain ⟨forward, blocks⟩ := (loopTaken_succ long fits rounds).mp found
    exact ⟨forward, fun size sized fits => (blocks size sized fits).1⟩
  · intro sound
    by_cases big : 4 < data.length
    · obtain ⟨rounds, taken, ended, all⟩ :=
        loopTaken_of_sound long (sound big) data.length .first (by omega)
      refine ⟨rounds, fun ahead readings store => ?_, fun _ => ⟨taken, ended, all⟩⟩
      rw [ends, ended, isSome_some, Bool.or_true]
    · refine ⟨0, fun ahead readings store => ?_, fun more => absurd more big⟩
      rw [ends, decide_eq_true (by omega), Bool.true_or]

/-- An image of a block without bytes is read. -/
theorem deserialize_inside_empty_block : ReadsInside (i32ToChars 0 ++ [0]) := by
  refine (deserialize_inside_iff _ (by decide)).mpr (fun _ start reached inside => ?_)
  have first : start = 0 := by
    cases reached with
    | first => rfl
    | next _ size _ fits =>
      have short : (i32ToChars 0 ++ [0]).length = 5 := rfl
      omega
  subst first
  refine ⟨by unfold Backward; decide, fun size sized _ big => ?_⟩
  rw [length_take, length_drop] at big
  have short : (i32ToChars 0 ++ [0]).length = 5 := rfl
  omega

/-- On an image that begins with the size -4 `deserializeData` reads this size again and again. -/
theorem deserialize_spins :
    ¬ ReadsInside (i32ToChars (-4) ++ [0]) ∧ ∀ ahead readings store rounds,
      deserializeData ahead readings store rounds (i32ToChars (-4) ++ [0]) = none := by
  have spins (rounds : Nat) : loopTaken (i32ToChars (-4) ++ [0]) rounds 0 = none := by
    induction rounds with
    | zero => rfl
    | succ rounds ih =>
      have back : toSize (((0 : Nat) : Int) + 4 + sizeAt (i32ToChars (-4) ++ [0]) 0) = 0 := by
        decide
      rw [loopTaken, if_pos (by decide), back, if_pos (by decide), ih]
      rfl
  refine ⟨?_, fun ahead readings store rounds => ?_⟩
  · rintro ⟨rounds, -, inside⟩
    obtain ⟨taken, ended, -⟩ := inside (by decide)
    exact absurd (spins rounds) (by simp [ended])
  have ends := deserializeLoop_isSome (fun k => deserializeFunction ahead (readings k))
    (i32ToChars (-4) ++ [0]) rounds 0 store
  rw [spins] at ends
  exact isNone_iff_eq_none.mp (isSome_eq_false_iff.mp ends)

end RssDisk.CManager
