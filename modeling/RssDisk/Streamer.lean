import Mathlib.Data.Nat.Bitwise
import RssDisk.Bitbase

/-!
# Tuples in a stream

`streamer` writes a tuple as flag bytes and data: a bit for each field says that the field is empty,
and only the others are written. Reading leaves a field whose bit is set as it was, and reads no
flag byte for a tuple without fields although one is written.
-/

namespace RssDisk.Streamer

open Bitbase List

/-- `bitbase::setBit` on a flag byte. -/
def setBit (num : UInt8) (bit : Nat) : UInt8 := num ||| 1 <<< UInt8.ofNat bit

/-- `bitbase::isBitSetted` on a flag byte. -/
def isBitSetted (num : UInt8) (bit : Nat) : Bool := num &&& 1 <<< UInt8.ofNat bit ≠ 0

/-- A field of a tuple: an integer of some bytes, by its bits, or a string. -/
inductive Field where
  | int (size : Nat) (value : BitVec (8 * size))
  | str (text : Bytes)
deriving DecidableEq

namespace Field

/-- The number of bytes of an integer; `none` for a string. -/
def kind : Field → Option Nat
  | int size _ => some size
  | str _ => none

/-- `is_empty_tuple_item`. -/
def isEmpty : Field → Bool
  | int _ value => value = 0
  | str text => text = []

variable (strSize : Nat)

/-- `operator<<` of a field, for the number of bytes of the size of a string. -/
def write : Field → Bytes
  | int size value => numericToChars value.toNat size
  | str text =>
    let maxSz := 256 ^ strSize - 1
    numericToChars (min text.length maxSz) strSize ++ text.take maxSz

/-- `operator>>` of a field: the field and `read_pos` afterwards. -/
def read (data : Bytes) (readPos : Nat) : Field → Field × Nat
  | int size value =>
    if readPos + size ≤ data.length then
      (int size (BitVec.ofNat _ (charsToNumeric ((data.drop readPos).take size))), readPos + size)
    else (int size value, readPos)
  | str text =>
    let szStr := charsToNumeric ((data.drop readPos).take strSize)
    if readPos + strSize ≤ data.length ∧ readPos + strSize + szStr ≤ data.length then
      (str ((data.drop (readPos + strSize)).take szStr), readPos + strSize + szStr)
    else (str text, readPos)

end Field

variable (strSize : Nat)

/-- `pack_tuple` from a field on: the flag bytes and the data. -/
def packTuple : Nat → UInt8 → List Field → Bytes × Bytes
  | _, byte, [] => ([byte], [])
  | i, byte, field :: fields =>
    let flush := i ≠ 0 ∧ i % 8 = 0
    let byte' := if flush then 0 else byte
    let rest :=
      if field.isEmpty then packTuple (i + 1) (setBit byte' (i % 8)) fields
      else packTuple (i + 1) byte' fields
    ((if flush then [byte] else []) ++ rest.1,
      (if field.isEmpty then [] else field.write strSize) ++ rest.2)

/-- `operator<<` of a tuple: what is appended. -/
def insert (fields : List Field) : Bytes :=
  (packTuple strSize 0 0 fields).1 ++ (packTuple strSize 0 0 fields).2

/-- `unpack_tuple` from a field on. -/
def unpackTuple (bytes data : Bytes) : Nat → Nat → List Field → List Field × Nat
  | _, readPos, [] => ([], readPos)
  | i, readPos, field :: fields =>
    let next :=
      if isBitSetted (bytes.getD (i / 8) 0) (i % 8) then (field, readPos)
      else field.read strSize data readPos
    let rest := unpackTuple bytes data (i + 1) next.2 fields
    (next.1 :: rest.1, rest.2)

/-- `operator>>` of a tuple, into fields that hold something: the fields and `read_pos` afterwards.
The flag bytes are taken as zero where the data end before them. -/
def extract (data : Bytes) (readPos : Nat) (fields : List Field) : List Field × Nat :=
  let szBytes := (fields.length + 7) / 8
  unpackTuple strSize ((data.drop readPos).take szBytes) data 0
    (min (readPos + szBytes) data.length) fields

section

variable {bit : Nat} (low : bit < 8)

include low

theorem toNat_one_shiftLeft : (1 <<< UInt8.ofNat bit : UInt8).toNat = 2 ^ bit := by
  have each : ∀ b < 8, (1 <<< UInt8.ofNat b : UInt8).toNat = 2 ^ b := by decide
  exact each bit low

theorem isBitSetted_eq (num : UInt8) : isBitSetted num bit = num.toNat.testBit bit := by
  have masked : (num &&& 1 <<< UInt8.ofNat bit).toNat =
      (num.toNat.testBit bit).toNat * 2 ^ bit := by
    rw [UInt8.toNat_and, toNat_one_shiftLeft low, Nat.and_two_pow]
  rw [isBitSetted, Bool.eq_iff_iff, decide_eq_true_eq, Ne, ← UInt8.toNat_inj, masked]
  cases num.toNat.testBit bit <;> simp

theorem isBitSetted_setBit (num : UInt8) {other : Nat} (near : other < 8) :
    isBitSetted (setBit num bit) other = (isBitSetted num other || decide (bit = other)) := by
  rw [isBitSetted_eq near, isBitSetted_eq near, setBit, UInt8.toNat_or, toNat_one_shiftLeft low,
    Nat.testBit_or, Nat.testBit_two_pow]

end

/-- The flag of a field in some flag bytes. -/
def flag (bytes : Bytes) (i : Nat) : Bool := isBitSetted (bytes.getD (i / 8) 0) (i % 8)

theorem flag_append_zero (bytes : Bytes) (j : Nat) : flag (bytes ++ [0]) j = flag bytes j := by
  have same : (bytes ++ [0]).getD (j / 8) 0 = bytes.getD (j / 8) 0 := by
    rcases Nat.lt_or_ge (j / 8) bytes.length with inside | behind
    · simp [getElem?_append_left inside]
    · simp [getElem?_append_right behind, getElem?_eq_none behind]
  rw [flag, same, flag]

theorem flag_setBit {bytes : Bytes} {byte : UInt8} {i : Nat} (place : bytes.length = i / 8)
    (j : Nat) : flag (bytes ++ [setBit byte (i % 8)]) j =
      (flag (bytes ++ [byte]) j || decide (i = j)) := by
  unfold flag
  by_cases here : j / 8 = i / 8
  · have last (b : UInt8) : (bytes ++ [b]).getD (j / 8) 0 = b := by
      rw [here, ← place]
      simp
    rw [last, last, isBitSetted_setBit (by omega) byte (by omega)]
    grind
  · have other (b : UInt8) : (bytes ++ [b]).getD (j / 8) 0 = bytes.getD (j / 8) 0 := by
      rcases Nat.lt_or_ge (j / 8) bytes.length with inside | behind
      · simp [getElem?_append_left inside]
      · have outside : (bytes ++ [b]).length ≤ j / 8 := by
          grind
        simp [getElem?_eq_none behind, getElem?_eq_none outside]
    have apart : i ≠ j := fun same => here (by rw [same])
    rw [other, other, decide_eq_false apart, Bool.or_false]

theorem flag_packTuple (fields : List Field) {i : Nat} {byte : UInt8} {written : Bytes}
    (place : written.length = (i - 1) / 8)
    (clear : ∀ j, i ≤ j → flag (written ++ [byte]) j = false) :
    (∀ j, flag (written ++ (packTuple strSize i byte fields).1) j =
        if j < i then flag (written ++ [byte]) j else (fields[j - i]?).any Field.isEmpty) ∧
      written.length + (packTuple strSize i byte fields).1.length =
        (i + fields.length - 1) / 8 + 1 := by
  induction fields generalizing i byte written with
  | nil =>
    refine ⟨fun j => ?_, by simp [packTuple, place]⟩
    split
    · rfl
    · rename_i behind
      exact clear j (Nat.le_of_not_lt behind)
  | cons field fields ih =>
    -- a byte that is full goes to the others, and a new one starts without flags
    obtain ⟨written', byte', place', same, next⟩ : ∃ written' byte', written'.length = i / 8 ∧
        (∀ j, flag (written' ++ [byte']) j = flag (written ++ [byte]) j) ∧
        written ++ (packTuple strSize i byte (field :: fields)).1 = written' ++
          (packTuple strSize (i + 1)
            (if field.isEmpty then setBit byte' (i % 8) else byte') fields).1 := by
      by_cases flush : i ≠ 0 ∧ i % 8 = 0
      · refine ⟨written ++ [byte], 0, ?_, flag_append_zero _, ?_⟩
        · grind
        · simp only [packTuple, if_pos flush, append_assoc]
          split <;> rfl
      · refine ⟨written, byte, by omega, fun _ => rfl, ?_⟩
        simp only [packTuple, if_neg flush, nil_append]
        split <;> rfl
    have marked (j : Nat) : flag (written' ++
        [if field.isEmpty then setBit byte' (i % 8) else byte']) j =
          (flag (written ++ [byte]) j || (field.isEmpty && decide (i = j))) := by
      rw [← same]
      split
      · rename_i empty
        rw [flag_setBit place', empty, Bool.true_and]
      · grind
    obtain ⟨flags, count⟩ := ih (i := i + 1) place' (fun j behind => by
      rw [marked, clear j (by omega), decide_eq_false (by omega), Bool.and_false]
      rfl)
    have length := congrArg List.length next
    rw [length_append, length_append, count] at length
    refine ⟨fun j => ?_, by rw [length, length_cons]; congr 2; omega⟩
    rw [next, flags, marked]
    rcases Nat.lt_trichotomy j i with before | rfl | behind
    · rw [if_pos (by omega), if_pos before, decide_eq_false (by omega), Bool.and_false,
        Bool.or_false]
    · rw [if_pos (by omega), if_neg (by omega), clear j (le_refl j)]
      simp
    · rw [if_neg (by omega), if_neg (by omega), show j - i = j - (i + 1) + 1 by omega,
        getElem?_cons_succ]

/-- The length of a string can be written. -/
def Field.Fits : Field → Prop
  | int _ _ => True
  | str text => text.length < 256 ^ strSize

/-- The data of a tuple: those of its fields that are not empty. -/
def payload (fields : List Field) : Bytes :=
  fields.flatMap (fun field => if field.isEmpty then [] else field.write strSize)

theorem packTuple_data (fields : List Field) (i : Nat) (byte : UInt8) :
    (packTuple strSize i byte fields).2 = payload strSize fields := by
  induction fields generalizing i byte with
  | nil => rfl
  | cons field fields ih =>
    rw [payload, flatMap_cons, ← payload]
    simp only [packTuple, apply_ite Prod.snd, ih, ite_self]

variable {strSize}

theorem Field.empty_eq {v t : Field} (kind : v.kind = t.kind) (empty : v.isEmpty = true) :
    t.isEmpty = true ↔ t = v := by
  cases v with
  | int size value =>
    cases t with
    | str text => cases kind
    | int size' value' =>
      cases Option.some.inj kind
      have zero : value = 0 := by simpa [isEmpty] using empty
      simp [isEmpty, zero]
  | str text =>
    cases t with
    | int size value => cases kind
    | str text' =>
      have nothing : text = [] := by simpa [isEmpty] using empty
      simp [isEmpty, nothing]

theorem Field.read_write {v t : Field} (kind : v.kind = t.kind) (fits : v.Fits strSize)
    {data rest : Bytes} {pos : Nat} (inside : pos ≤ data.length)
    (parts : data.drop pos = v.write strSize ++ rest) :
    t.read strSize data pos = (v, pos + (v.write strSize).length) := by
  have length := congrArg List.length parts
  rw [length_drop, length_append] at length
  cases v with
  | int size value =>
    cases t with
    | str text => cases kind
    | int size' value' =>
      cases Option.some.inj kind
      have count : (numericToChars value.toNat size).length = size := numericToChars_length _ _
      simp only [write, count] at parts length ⊢
      rw [read, if_pos (by omega), parts, take_left' count, charsToNumeric_numericToChars,
        show (256 : Nat) ^ size = 2 ^ (8 * size) from (Nat.pow_mul 2 8 size).symm,
        Nat.mod_eq_of_lt value.isLt, BitVec.ofNat_toNat, BitVec.setWidth_eq]
  | str text =>
    cases t with
    | int size value => cases kind
    | str text' =>
      have fits : text.length < 256 ^ strSize := fits
      have count (n : Nat) : (numericToChars n strSize).length = strSize :=
        numericToChars_length _ _
      have written : (str text).write strSize = numericToChars text.length strSize ++ text := by
        rw [write, Nat.min_eq_left (by omega), take_of_length_le (by omega)]
      rw [written, append_assoc] at parts
      rw [written, length_append, count] at length ⊢
      have size : charsToNumeric ((data.drop pos).take strSize) = text.length := by
        rw [parts, take_left' (count _), charsToNumeric_numericToChars,
          Nat.mod_eq_of_lt fits]
      rw [read, size, if_pos ⟨by omega, by omega⟩, ← drop_drop, parts, drop_left' (count _),
        take_left, Nat.add_assoc]

theorem unpackTuple_eq {bytes data rest : Bytes} {vs ts : List Field} {i pos : Nat}
    (kinds : vs.map Field.kind = ts.map Field.kind) (fits : ∀ v ∈ vs, v.Fits strSize)
    (flags : ∀ k, flag bytes (i + k) = (vs[k]?).any Field.isEmpty) (inside : pos ≤ data.length)
    (parts : data.drop pos = payload strSize vs ++ rest) :
    unpackTuple strSize bytes data i pos ts =
      (List.zipWith (fun v t => if v.isEmpty then t else v) vs ts,
        pos + (payload strSize vs).length) := by
  induction vs generalizing ts i pos with
  | nil =>
    cases ts with
    | nil => rfl
    | cons t ts => cases kinds
  | cons v vs ih =>
    cases ts with
    | nil => cases kinds
    | cons t ts =>
      rw [map_cons, map_cons, List.cons.injEq] at kinds
      obtain ⟨first, later⟩ := forall_mem_cons.mp fits
      have here : flag bytes i = v.isEmpty := by simpa using flags 0
      have next (k : Nat) : flag bytes (i + 1 + k) = (vs[k]?).any Field.isEmpty := by
        rw [Nat.add_assoc, Nat.add_comm 1 k, flags (k + 1), getElem?_cons_succ]
      rw [payload, flatMap_cons, ← payload] at parts ⊢
      rw [unpackTuple, ← flag, here, zipWith_cons_cons]
      by_cases empty : v.isEmpty = true
      · rw [if_pos empty, nil_append] at parts
        simp only [if_pos empty, nil_append, ih kinds.2 later next inside parts]
      · rw [if_neg empty, append_assoc] at parts
        have length := congrArg List.length parts
        rw [length_drop, length_append] at length
        have behind : data.drop (pos + (v.write strSize).length) = payload strSize vs ++ rest := by
          rw [← drop_drop, parts, drop_left]
        simp only [if_neg empty, Field.read_write kinds.1 first inside parts,
          ih kinds.2 later next (by omega) behind, length_append, Nat.add_assoc]

theorem kept_eq_iff {vs ts : List Field} (kinds : vs.map Field.kind = ts.map Field.kind) :
    List.zipWith (fun v t => if v.isEmpty then t else v) vs ts = vs ↔
      ∀ pair ∈ vs.zip ts, pair.1.isEmpty = true → pair.2.isEmpty = true := by
  induction vs generalizing ts with
  | nil => simp
  | cons v vs ih =>
    cases ts with
    | nil => cases kinds
    | cons t ts =>
      rw [map_cons, map_cons, List.cons.injEq] at kinds
      rw [zipWith_cons_cons, List.cons.injEq, zip_cons_cons, forall_mem_cons,
        ih kinds.2]
      refine and_congr_left (fun _ => ?_)
      by_cases empty : v.isEmpty = true
      · rw [if_pos empty, ← Field.empty_eq kinds.1 empty]
        exact ⟨fun holds _ => holds, fun holds => holds empty⟩
      · rw [if_neg empty]
        exact iff_of_true rfl (fun holds => absurd holds empty)

/-- A tuple that was written between other bytes is read back into fields that hold something, and
all of its bytes are consumed, exactly if it has a field and those that are empty in it are empty in
the fields that hold something. -/
theorem extract_insert_iff {vs ts : List Field} (kinds : vs.map Field.kind = ts.map Field.kind)
    (fits : ∀ v ∈ vs, v.Fits strSize) (before rest : Bytes) :
    extract strSize (before ++ (insert strSize vs ++ rest)) before.length ts =
        (vs, before.length + (insert strSize vs).length) ↔
      vs ≠ [] ∧ ∀ pair ∈ vs.zip ts, pair.1.isEmpty = true → pair.2.isEmpty = true := by
  have lengths : vs.length = ts.length := by simpa using congrArg List.length kinds
  by_cases none : vs = []
  · subst none
    obtain rfl : ts = [] := eq_nil_of_length_eq_zero lengths.symm
    refine iff_of_false (fun same => ?_) (fun holds => holds.1 rfl)
    have consumed := congrArg Prod.snd same
    simp [extract, unpackTuple, insert, packTuple] at consumed
  · have clear (j : Nat) : flag ([] ++ [0]) j = false := by
      rw [flag_append_zero, flag, isBitSetted_eq (by omega)]
      simp
    obtain ⟨flags, count⟩ := @flag_packTuple strSize vs 0 0 [] rfl (fun j _ => clear j)
    have some := length_pos_iff.mpr none
    have parts : insert strSize vs = (packTuple strSize 0 0 vs).1 ++ payload strSize vs := by
      rw [insert, packTuple_data]
    rw [extract, parts]
    simp only [nil_append, Nat.not_lt_zero, ↓reduceIte, Nat.sub_zero, length_nil,
      Nat.zero_add] at flags count
    generalize (packTuple strSize 0 0 vs).1 = bytes at flags count
    have size : (ts.length + 7) / 8 = bytes.length := by omega
    rw [size, append_assoc, drop_left, take_left,
      Nat.min_eq_left (by simp only [length_append]; omega)]
    rw [unpackTuple_eq kinds fits (fun k => by rw [Nat.zero_add]; exact flags k)
      (by simp only [length_append]; omega)
      (by rw [← drop_drop, drop_left, drop_left]), Prod.mk.injEq, kept_eq_iff kinds]
    simp only [length_append, Nat.add_assoc, and_true, ne_eq, none, not_false_eq_true,
      true_and]

/-- A tuple with an empty field is read back where this field is empty. -/
theorem extract_insert_sample :
    extract 8 ([7] ++ (insert 8 [.int 4 9, .str []] ++ [])) 1 [.int 4 5, .str []] =
      ([.int 4 9, .str []], 1 + (insert 8 [.int 4 9, .str []]).length) :=
  (extract_insert_iff (by decide) (by simp [Field.Fits]) [7] []).mpr (by decide)

/-- The second of two tuples, read into the variable of the first, keeps a text of it. -/
theorem extract_insert_reused :
    let data := insert 8 [.int 4 9, .str [97]] ++ insert 8 [.int 4 9, .str []]
    let first := extract 8 data 0 [.int 4 0, .str []]
    first.1 = [.int 4 9, .str [97]] ∧
      (extract 8 data first.2 first.1).1 = [.int 4 9, .str [97]] := by
  decide

end RssDisk.Streamer
