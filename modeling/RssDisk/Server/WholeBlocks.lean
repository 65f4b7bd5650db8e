import Mathlib.Algebra.BigOperators.Group.Finset.Basic
import RssDisk.DirSize
import RssDisk.JManager.MemoryMappedItem

/-!
# Whole blocks of the files of a name

The whole blocks of a file and of its data file, without the limits of the types in which the
program counts them, and how they compare with what the program counts. Behind a size, bytes take
their own whole blocks, and one more when the rests fill one.
-/

namespace RssDisk.Server

open Lib JManager Disk Finset

/-- The whole blocks of a size, always with a last block. -/
def blocks (fsBlockSize size : Nat) : Nat := (size / fsBlockSize + 1) * fsBlockSize

section

variable {fsBlockSize k size other n : Nat}

theorem blocks_add (positive : 0 < fsBlockSize) (size n : Nat) :
    blocks fsBlockSize (size + n) = blocks fsBlockSize size + n / fsBlockSize * fsBlockSize +
      if fsBlockSize ≤ size % fsBlockSize + n % fsBlockSize then fsBlockSize else 0 := by
  rw [blocks, blocks, Nat.add_div positive]
  split
  · ring
  · ring

theorem blocks_le (power : fsBlockSize = 2 ^ k) (small : size < 2 ^ 31) :
    fsBlockSize ≤ blocks fsBlockSize size ∧
      (blocks fsBlockSize size ≤ 2 ^ 31 ∨ blocks fsBlockSize size = fsBlockSize) := by
  constructor
  · exact Nat.le_mul_of_pos_left _ (Nat.succ_pos _)
  · by_cases wide : 31 < k
    · right
      have large : 2 ^ 31 < fsBlockSize := by
        rw [power]
        exact Nat.pow_lt_pow_right (by decide) wide
      rw [blocks, Nat.div_eq_of_lt (by omega), zero_add, one_mul]
    · left
      have whole : 2 ^ 31 = 2 ^ (31 - k) * fsBlockSize := by
        rw [power, ← pow_add]
        congr 1
        omega
      have few : size / fsBlockSize < 2 ^ (31 - k) := by
        rw [whole] at small
        exact Nat.div_lt_of_lt_mul (by rwa [mul_comm])
      rw [blocks, whole]
      exact Nat.mul_le_mul_right _ few

theorem blocks_sub_range (power : fsBlockSize = 2 ^ k) (small : size < 2 ^ 31)
    (small' : other < 2 ^ 31) :
    -2 ^ 31 ≤ (blocks fsBlockSize size - blocks fsBlockSize other : Int) ∧
      (blocks fsBlockSize size - blocks fsBlockSize other : Int) < 2 ^ 31 := by
  have positive : 0 < fsBlockSize := by
    grind
  have first := blocks_le power small
  have second := blocks_le power small'
  omega

theorem roundedSize_blocks (power : fsBlockSize = 2 ^ k) (filled : size ≠ 0) :
    (2 : Int) ^ 32 ∣ roundedSize size fsBlockSize - blocks fsBlockSize size := by
  have positive : fsBlockSize ≠ 0 := by
    grind
  have few : size / fsBlockSize ≤ size := Nat.div_le_self _ _
  have lost : (2 : Int) ^ 32 ∣ countBlocks size fsBlockSize - (size / fsBlockSize + 1 : Nat) := by
    rw [countBlocks, toInt32]
    generalize size / fsBlockSize = count at few ⊢
    omega
  rw [roundedSize, if_pos positive, if_pos filled, blocks, Nat.cast_mul, ← sub_mul]
  exact lost.mul_right _

theorem toInt32_eq_iff {x y : Int} (low : -2 ^ 31 ≤ y) (high : y < 2 ^ 31) :
    toInt32 x = y ↔ (2 : Int) ^ 32 ∣ x - y := by
  rw [toInt32]
  omega

theorem dvd_blockSize_iff (power : fsBlockSize = 2 ^ k) :
    (2 : Int) ^ 32 ∣ fsBlockSize ↔ 2 ^ 32 ≤ fsBlockSize := by
  have cast : (2 : Int) ^ 32 ∣ fsBlockSize ↔ 2 ^ 32 ∣ fsBlockSize := by
    exact_mod_cast Int.natCast_dvd_natCast (m := 2 ^ 32) (n := fsBlockSize)
  rw [cast, power, Nat.pow_dvd_pow_iff_le_right (by decide), Nat.pow_le_pow_iff_right (by decide)]

/-- What an append to a file is accounted for is what it adds to the blocks, exactly when nothing is
appended, the rests fill a block, or the size of a block is lost in 32 bits. -/
theorem roundedSize_append_iff (power : fsBlockSize = 2 ^ k) (small : size + n < 2 ^ 31) :
    toInt32 (roundedSize n fsBlockSize) =
        blocks fsBlockSize (size + n) - blocks fsBlockSize size ↔
      n = 0 ∨ 2 ^ 32 ≤ fsBlockSize ∨ fsBlockSize ≤ size % fsBlockSize + n % fsBlockSize := by
  have positive : 0 < fsBlockSize := by
    grind
  by_cases empty : n = 0
  · subst empty
    have nothing : roundedSize 0 fsBlockSize = 0 := by simp [roundedSize]
    rw [nothing]
    simp [toInt32]
  · have lost := roundedSize_blocks power empty
    have range := blocks_sub_range power small (show size < 2 ^ 31 by omega)
    have own : blocks fsBlockSize n = n / fsBlockSize * fsBlockSize + fsBlockSize := by
      rw [blocks, Nat.add_mul, one_mul]
    have split : roundedSize n fsBlockSize -
          (blocks fsBlockSize (size + n) - blocks fsBlockSize size) =
        (roundedSize n fsBlockSize - blocks fsBlockSize n) + (fsBlockSize - if
          fsBlockSize ≤ size % fsBlockSize + n % fsBlockSize then (fsBlockSize : Int) else 0) := by
      rw [blocks_add positive size n, own]
      push_cast
      ring
    rw [toInt32_eq_iff range.1 range.2, split, dvd_add_right lost]
    by_cases filled : fsBlockSize ≤ size % fsBlockSize + n % fsBlockSize
    · simp [filled]
    · simp only [filled, ↓reduceIte, sub_zero, dvd_blockSize_iff power, empty, or_false, false_or]

theorem append_blocks_iff (positive : 0 < fsBlockSize) :
    (n : Int) = blocks fsBlockSize (size + n) - blocks fsBlockSize size ↔ fsBlockSize ∣ n := by
  have grown := blocks_add positive size n
  have split := Nat.div_add_mod n fsBlockSize
  have rest := Nat.mod_lt n positive
  have rest' := Nat.mod_lt size positive
  rw [Nat.dvd_iff_mod_eq_zero, grown]
  rw [mul_comm] at split
  generalize n / fsBlockSize * fsBlockSize = whole at *
  split
  · push_cast
    omega
  · push_cast
    omega

end

/-- The whole blocks of a file; a missing one has none. -/
def blocksOf (fsBlockSize : Nat) (content : Option Bytes) : Int :=
  (content.map (fun c => (blocks fsBlockSize c.length : Int))).getD 0

/-- The whole blocks of a file and of its data file. With a zero byte in the name both are the same
file, which counts once. -/
def filesSize (fsBlockSize : Nat) (files : Files) (path : Bytes) : Int :=
  ∑ key ∈ ({cStr path, cStr (path ++ jExtensionName)} : Finset Bytes),
    blocksOf fsBlockSize (files.lookup key)

section

variable {fsBlockSize : Nat} {files after : Files} {path file : Bytes}

/-- One of the two files. -/
def IsOwn (path file : Bytes) : Prop := file = path ∨ file = path ++ jExtensionName

theorem filesSize_touched (own : IsOwn path file)
    (same : ∀ key, key ≠ cStr file → after.lookup key = files.lookup key) :
    filesSize fsBlockSize after path = filesSize fsBlockSize files path +
      (blocksOf fsBlockSize (after.read file) - blocksOf fsBlockSize (files.read file)) := by
  have present : cStr file ∈ ({cStr path, cStr (path ++ jExtensionName)} : Finset Bytes) := by
    rcases own with rfl | rfl
    · exact mem_insert_self _ _
    · exact mem_insert_of_mem (mem_singleton_self _)
  have others : ∀ key ∈ ({cStr path, cStr (path ++ jExtensionName)} : Finset Bytes).erase
      (cStr file), blocksOf fsBlockSize (after.lookup key) =
        blocksOf fsBlockSize (files.lookup key) :=
    fun key inside => by rw [same key (ne_of_mem_erase inside)]
  rw [filesSize, filesSize, ← add_sum_erase _ _ present,
    ← add_sum_erase _ (fun key => blocksOf fsBlockSize (files.lookup key)) present,
    sum_congr rfl others, Files.read, Files.read]
  ring

theorem filesSize_congr (same : ∀ file, IsOwn path file → after.read file = files.read file) :
    filesSize fsBlockSize after path = filesSize fsBlockSize files path := by
  have first := same path (.inl rfl)
  have second := same _ (.inr rfl)
  apply sum_congr rfl
  intro key present
  rcases mem_insert.mp present with rfl | later
  · exact congrArg _ first
  · rw [mem_singleton.mp later]
    exact congrArg _ second

theorem blocksOf_read {content : Bytes} (read : files.read file = some content) :
    blocksOf fsBlockSize (files.read file) = blocks fsBlockSize content.length := by
  rw [read]
  rfl

theorem blocksOf_append {content : Bytes} (read : files.read file = some content) (more : Bytes) :
    blocksOf fsBlockSize ((files.append file more).read file) =
      blocks fsBlockSize (content.length + more.length) := by
  rw [Files.read_append_self, read, Option.getD_some, ← List.length_append]
  rfl

theorem lookup_append_of_ne {key : Bytes} (apart : key ≠ cStr file) (more : Bytes) :
    (files.append file more).lookup key = files.lookup key :=
  AList.lookup_insert_ne apart

section

variable {m : Moment} {content : Bytes} {ttl : Int} {headers : List Bytes} {writeHeaders : Bool}
  {k : Nat}

theorem writeFileToDisk_blocks {old : Bytes}
    (power : fsBlockSize = 2 ^ k) (read : files.read path = some old) (filled : old ≠ [])
    (small : old.length < 2 ^ 31) (some_ : content ≠ [])
    (done : (writeFileToDisk m files path content 0 ttl fsBlockSize headers
      writeHeaders).2.2 = true)
    (new : ∀ c, (writeFileToDisk m files path content 0 ttl fsBlockSize headers
      writeHeaders).1.read path = some c → c.length < 2 ^ 31) :
    (writeFileToDisk m files path content 0 ttl fsBlockSize headers writeHeaders).2.1 =
      blocksOf fsBlockSize ((writeFileToDisk m files path content 0 ttl fsBlockSize headers
        writeHeaders).1.read path) - blocksOf fsBlockSize (files.read path) := by
  rcases writeFileToDisk_cases m files path content ttl fsBlockSize headers writeHeaders with
    ⟨empty, -⟩ | ⟨wide, result⟩ | result
  · exact absurd empty some_
  · rw [result] at new ⊢
    simp only at new ⊢
    rw [Files.read_write_self] at new ⊢
    have less := new _ rfl
    have range := blocks_sub_range power less small
    have first := roundedSize_blocks power
      (fun none => wide (List.length_eq_zero_iff.mp none))
    have second := roundedSize_blocks power
      (fun none => filled (List.length_eq_zero_iff.mp none))
    rw [blocksOf_read read, getFileSize_of_read read]
    show toInt32 _ = ((blocks fsBlockSize (writtenText m content ttl headers writeHeaders).length :
      Nat) : Int) - _
    rw [toInt32_eq_iff range.1 range.2]
    have apart := dvd_sub first second
    rwa [sub_sub_sub_comm] at apart
  · rw [result] at done
    cases done

theorem occupied_eq_blocksOf (power : fsBlockSize = 2 ^ k)
    (fits : ∀ c, files.read file = some c → FitsBlocks fsBlockSize c) :
    occupied files file fsBlockSize = blocksOf fsBlockSize (files.read file) := by
  unfold occupied
  cases read : files.read file with
  | none => rfl
  | some content =>
    rw [Option.map_some, Option.getD_some, sizeOnDisk_eq power (fits content read)]
    rfl

theorem filesSize_written (power : fsBlockSize = 2 ^ k) (own : IsOwn path file)
    (old : ∀ c, files.read file = some c → c ≠ [] ∧ FitsBlocks fsBlockSize c)
    (new : ∀ c, (writeFileToDisk m files file content 0 ttl fsBlockSize headers
      writeHeaders).1.read file = some c → FitsBlocks fsBlockSize c) :
    filesSize fsBlockSize (writeFileToDisk m files file content 0 ttl fsBlockSize headers
        writeHeaders).1 path =
      filesSize fsBlockSize files path +
        (writeFileToDisk m files file content 0 ttl fsBlockSize headers writeHeaders).2.1 := by
  rw [writeFileToDisk_size power old new, occupied_eq_blocksOf power new,
    occupied_eq_blocksOf power (fun c read => (old c read).2)]
  exact filesSize_touched own (fun key apart => writeFileToDisk_lookup apart)

end

end

end RssDisk.Server
