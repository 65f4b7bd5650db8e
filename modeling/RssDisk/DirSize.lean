import RssDisk.Disk

/-!
# Sizes of folders

What one file changes in the result of `get_dir_size`, and what the functions that write and remove
a file compute for it. They count blocks in a `std::int32_t` and take a file that is missing for
one of `2 ^ 64 - 1` bytes, which comes to no block at all for a block size that is a power of two.
-/

namespace RssDisk.Disk

open Lib List Option AList

/-- What a file adds to the size of a folder; one that is missing adds nothing. -/
def occupied (files : Files) (path : Bytes) (fsBlockSize : Nat) : Int :=
  ((files.read path).map (sizeOnDisk fsBlockSize)).getD 0

variable {files after : Files} {folder path : Bytes}

theorem getDirSize_congr
    (same : ∀ key, folder <+: key → after.lookup key = files.lookup key) (fsBlockSize : Nat) :
    getDirSize after folder fsBlockSize = getDirSize files folder fsBlockSize := by
  have nodup : ∀ files : Files,
      (files.entries.filter (fun entry => isBelow folder entry.1)).Nodup :=
    fun files => files.nodupKeys.nodup.filter _
  have perm : (after.entries.filter (fun entry => isBelow folder entry.1)).Perm
      (files.entries.filter (fun entry => isBelow folder entry.1)) := by
    rw [perm_ext_iff_of_nodup (nodup after) (nodup files)]
    rintro ⟨key, content⟩
    simp only [mem_filter, isBelow, List.isPrefixOf_iff_prefix]
    apply and_congr_left
    intro below
    rw [← mem_lookup_iff, ← mem_lookup_iff, same key below]
  exact (perm.map _).sum_eq

theorem getDirSize_remove (below : folder <+: cStr path) (fsBlockSize : Nat) :
    getDirSize (files.remove path) folder fsBlockSize =
      getDirSize files folder fsBlockSize - occupied files path fsBlockSize := by
  have entries : ∀ entries : List (Sigma fun _ : Bytes => Bytes),
      (((entries.kerase (cStr path)).filter (fun entry => isBelow folder entry.1)).map
        (fun entry => sizeOnDisk fsBlockSize entry.2)).sum =
      ((entries.filter (fun entry => isBelow folder entry.1)).map
        (fun entry => sizeOnDisk fsBlockSize entry.2)).sum -
        ((entries.dlookup (cStr path)).map (sizeOnDisk fsBlockSize)).getD 0 := by
    intro entries
    induction entries with
    | nil => rfl
    | cons entry entries ih =>
      obtain ⟨key, content⟩ := entry
      by_cases own : key = cStr path
      · subst own
        have inside : isBelow folder (cStr path) = true := List.isPrefixOf_iff_prefix.mpr below
        simp [inside]
      · rw [kerase_cons_ne (Ne.symm own), dlookup_cons_ne _ _ (Ne.symm own)]
        by_cases inside : isBelow folder key = true
        · simp only [filter_cons, inside, if_true, map_cons, sum_cons, ih]
          ring
        · simp only [filter_cons, inside, Bool.false_eq_true, if_false, ih]
  exact entries files.entries

theorem getDirSize_touched (below : folder <+: cStr path)
    (same : ∀ key, key ≠ cStr path → after.lookup key = files.lookup key) (fsBlockSize : Nat) :
    getDirSize after folder fsBlockSize = getDirSize files folder fsBlockSize +
      (occupied after path fsBlockSize - occupied files path fsBlockSize) := by
  have rest : getDirSize (after.remove path) folder fsBlockSize =
      getDirSize (files.remove path) folder fsBlockSize := by
    apply getDirSize_congr
    intro key _
    show (after.erase (cStr path)).lookup key = (files.erase (cStr path)).lookup key
    by_cases own : key = cStr path
    · grind [lookup_erase]
    · rw [lookup_erase_ne own, lookup_erase_ne own, same key own]
  rw [getDirSize_remove below, getDirSize_remove below] at rest
  omega

/-- A file whose blocks are counted without an overflow: whole blocks of it are below 2 GiB. -/
def FitsBlocks (fsBlockSize : Nat) (content : Bytes) : Prop :=
  (content.length / fsBlockSize + 1) * fsBlockSize < 2 ^ 31

instance (fsBlockSize : Nat) (content : Bytes) : Decidable (FitsBlocks fsBlockSize content) :=
  inferInstanceAs (Decidable (_ < _))

variable {fsBlockSize size k : Nat}

theorem countBlocks_eq (positive : 0 < fsBlockSize)
    (fits : (size / fsBlockSize + 1) * fsBlockSize < 2 ^ 31) :
    countBlocks size fsBlockSize * fsBlockSize =
      ((size / fsBlockSize + 1) * fsBlockSize : Nat) := by
  have few : size / fsBlockSize + 1 < 2 ^ 31 :=
    lt_of_le_of_lt (Nat.le_mul_of_pos_right _ positive) fits
  have count : countBlocks size fsBlockSize = (size / fsBlockSize + 1 : Nat) := by
    rw [countBlocks, Nat.mod_eq_of_lt (by omega)]
    generalize size / fsBlockSize + 1 = blocks at few ⊢
    exact toInt32_eq (by omega) (by omega)
  rw [count]
  push_cast
  rfl

theorem countBlocks_missing (power : fsBlockSize = 2 ^ k) :
    (2 : Int) ^ 32 ∣ countBlocks (2 ^ 64 - 1) fsBlockSize * fsBlockSize := by
  subst power
  by_cases small : k ≤ 32
  · have blocks : (2 ^ 64 - 1) / 2 ^ k + 1 = 2 ^ (64 - k) := by
      have whole : 2 ^ 64 = 2 ^ (64 - k) * 2 ^ k := by
        rw [← pow_add]
        congr 1
        omega
      have positive : 0 < 2 ^ k := Nat.two_pow_pos k
      have some : 0 < 2 ^ (64 - k) := Nat.two_pow_pos _
      have quotient : (2 ^ 64 - 1) / 2 ^ k = 2 ^ (64 - k) - 1 := by
        rw [whole]
        apply Nat.div_eq_of_lt_le
        · rw [Nat.sub_mul, one_mul]
          omega
        · rw [Nat.sub_add_cancel some]
          grind
      omega
    have none : countBlocks (2 ^ 64 - 1) (2 ^ k) = 0 := by
      rw [countBlocks, blocks]
      have split : 2 ^ (64 - k) = 2 ^ 32 * 2 ^ (32 - k) := by
        rw [← pow_add]
        congr 1
        omega
      rw [split, toInt32]
      generalize 2 ^ (32 - k) = n
      omega
    rw [none]
    simp
  · have split : 2 ^ k = 2 ^ 32 * 2 ^ (k - 32) := by
      rw [← pow_add]
      congr 1
      omega
    apply Dvd.dvd.mul_left
    rw [split]
    push_cast
    exact Dvd.intro _ rfl

theorem toInt32_sub_of_dvd {n lost : Int} (low : -2 ^ 31 ≤ n) (high : n < 2 ^ 31)
    (whole : (2 : Int) ^ 32 ∣ lost) : toInt32 (n - lost) = n := by
  obtain ⟨count, rfl⟩ := whole
  rw [toInt32]
  omega

theorem sizeOnDisk_eq (power : fsBlockSize = 2 ^ k) {content : Bytes}
    (fits : FitsBlocks fsBlockSize content) :
    sizeOnDisk fsBlockSize content =
      ((content.length / fsBlockSize + 1) * fsBlockSize : Nat) := by
  have positive : 0 < fsBlockSize := by
    grind
  rw [sizeOnDisk, if_pos positive.ne', countBlocks_eq positive fits]

theorem occupied_range (power : fsBlockSize = 2 ^ k)
    (fits : ∀ content, files.read path = some content → FitsBlocks fsBlockSize content) :
    0 ≤ occupied files path fsBlockSize ∧ occupied files path fsBlockSize < 2 ^ 31 := by
  unfold occupied
  cases read : files.read path with
  | none =>
    grind
  | some content =>
    have small := fits content read
    rw [map_some, getD_some, sizeOnDisk_eq power small]
    rw [FitsBlocks] at small
    omega

theorem getFileSize_missing (missing : files.read path = none) :
    getFileSize files path = 2 ^ 64 - 1 := by
  rw [getFileSize, missing]

theorem getFileSize_of_read {content : Bytes} (read : files.read path = some content) :
    getFileSize files path = content.length := by
  rw [getFileSize, read]

theorem getFileSizeFsBlockSize_eq (power : fsBlockSize = 2 ^ k)
    (fits : ∀ content, files.read path = some content → FitsBlocks fsBlockSize content) :
    toInt32 (getFileSizeFsBlockSize files path fsBlockSize) = occupied files path fsBlockSize := by
  have positive : fsBlockSize ≠ 0 := by
    grind
  obtain ⟨low, high⟩ := occupied_range power fits
  rw [getFileSizeFsBlockSize]
  cases read : files.read path with
  | none =>
    have lost := toInt32_sub_of_dvd (n := 0) (by omega) (by omega)
      ((countBlocks_missing power).neg_right)
    rw [zero_sub, neg_neg] at lost
    rw [getFileSize_missing read, lost, occupied, read]
    rfl
  | some content =>
    have size : countBlocks content.length fsBlockSize * fsBlockSize =
        occupied files path fsBlockSize := by
      rw [occupied, read, map_some, getD_some, sizeOnDisk, if_pos positive]
    rw [getFileSize_of_read read, size]
    exact toInt32_eq (by omega) high

theorem roundedSize_getFileSize (power : fsBlockSize = 2 ^ k)
    (full : ∀ content, files.read path = some content → content ≠ []) :
    (2 : Int) ^ 32 ∣ roundedSize (getFileSize files path) fsBlockSize -
      occupied files path fsBlockSize := by
  have positive : fsBlockSize ≠ 0 := by
    grind
  rw [roundedSize, if_pos positive]
  cases read : files.read path with
  | none =>
    rw [getFileSize_missing read, if_pos (by omega), occupied, read, map_none,
      getD_none, sub_zero]
    exact countBlocks_missing power
  | some content =>
    have some : content.length ≠ 0 :=
      fun empty => full content read (length_eq_zero_iff.mp empty)
    rw [getFileSize_of_read read, if_pos some, occupied, read, map_some, getD_some,
      sizeOnDisk, if_pos positive, sub_self]
    exact dvd_zero _

section

variable {m : Moment} {content : Bytes} {ttl : Int} {headers : List Bytes} {writeHeaders : Bool}

/-- What `write_file_to_disk` writes. -/
def writtenText (m : Moment) (content : Bytes) (ttl : Int) (headers : List Bytes)
    (writeHeaders : Bool) : Bytes :=
  if writeHeaders then headerText m ttl headers ++ content else content

theorem writtenText_ne_nil (some : content ≠ []) :
    writtenText m content ttl headers writeHeaders ≠ [] := by
  rw [writtenText]
  split
  · simp [some]
  · exact some

theorem length_writtenText : (writtenText m content ttl headers writeHeaders).length =
    content.length + if writeHeaders then
      20 + (BasefuncStd.toString ttl).length + (headers.map List.length).sum else 0 := by
  have date : (DateTime.getDateTime m.now).length = 19 := DateTime.getDateTime_length m.calendar
  rw [writtenText]
  split
  · simp only [headerText, length_append, length_flatten, date, length_cons,
      length_nil]
    omega
  · rfl

theorem writeFileToDisk_cases (m : Moment) (files : Files) (path content : Bytes) (ttl : Int)
    (fsBlockSize : Nat) (headers : List Bytes) (writeHeaders : Bool) :
    (content = [] ∧ writeFileToDisk m files path content 0 ttl fsBlockSize headers writeHeaders =
      (files.remove path, toInt32 (0 - roundedSize (getFileSize files path) fsBlockSize), true)) ∨
    (writtenText m content ttl headers writeHeaders ≠ [] ∧
      writeFileToDisk m files path content 0 ttl fsBlockSize headers writeHeaders =
        (files.write path (writtenText m content ttl headers writeHeaders),
          toInt32 (roundedSize (writtenText m content ttl headers writeHeaders).length fsBlockSize -
            roundedSize (getFileSize files path) fsBlockSize), true)) ∨
    writeFileToDisk m files path content 0 ttl fsBlockSize headers writeHeaders =
      (files, 0, false) := by
  by_cases empty : content = []
  · left
    rw [writeFileToDisk, if_neg (not_not.mpr empty)]
    exact ⟨empty, rfl⟩
  · right
    by_cases opens : m.opens path = true
    · left
      rw [writeFileToDisk, if_pos empty, if_pos opens, length_writtenText]
      simp only [zero_add]
      exact ⟨writtenText_ne_nil empty, rfl⟩
    · right
      rw [writeFileToDisk, if_pos empty, if_neg opens]

theorem toInt32_replaced {new old rounded : Int} (whole : (2 : Int) ^ 32 ∣ rounded - old)
    (newRange : 0 ≤ new ∧ new < 2 ^ 31) (oldRange : 0 ≤ old ∧ old < 2 ^ 31) :
    toInt32 (new - rounded) = new - old := by
  have split : new - rounded = new - old - (rounded - old) := by ring
  rw [split]
  exact toInt32_sub_of_dvd (by omega) (by omega) whole

theorem writeFileToDisk_size (power : fsBlockSize = 2 ^ k)
    (old : ∀ c, files.read path = some c → c ≠ [] ∧ FitsBlocks fsBlockSize c)
    (new : ∀ c, (writeFileToDisk m files path content 0 ttl fsBlockSize headers
      writeHeaders).1.read path = some c → FitsBlocks fsBlockSize c) :
    (writeFileToDisk m files path content 0 ttl fsBlockSize headers writeHeaders).2.1 =
      occupied (writeFileToDisk m files path content 0 ttl fsBlockSize headers writeHeaders).1 path
        fsBlockSize - occupied files path fsBlockSize := by
  have lost : (2 : Int) ^ 32 ∣ roundedSize (getFileSize files path) fsBlockSize -
      occupied files path fsBlockSize :=
    roundedSize_getFileSize power (fun c read => (old c read).1)
  have before : 0 ≤ occupied files path fsBlockSize ∧ occupied files path fsBlockSize < 2 ^ 31 :=
    occupied_range power (fun c read => (old c read).2)
  have after := occupied_range power new
  rcases writeFileToDisk_cases m files path content ttl fsBlockSize headers writeHeaders with
    ⟨-, result⟩ | ⟨some, result⟩ | result
  · have removed : occupied (files.remove path) path fsBlockSize = 0 := by
      rw [occupied, Files.read_remove_self]
      rfl
    rw [result] at after ⊢
    rw [removed] at after ⊢
    exact toInt32_replaced lost after before
  · have positive : fsBlockSize ≠ 0 := by
      grind
    have written : roundedSize (writtenText m content ttl headers writeHeaders).length fsBlockSize =
        occupied (files.write path (writtenText m content ttl headers writeHeaders)) path
          fsBlockSize := by
      have filled : (writtenText m content ttl headers writeHeaders).length ≠ 0 :=
        fun empty => some (length_eq_zero_iff.mp empty)
      rw [roundedSize, if_pos positive, if_pos filled, occupied, Files.read_write_self,
        map_some, getD_some, sizeOnDisk, if_pos positive]
    rw [result] at after ⊢
    rw [written]
    exact toInt32_replaced lost after before
  · rw [result, sub_self]

theorem writeFileToDisk_lookup {key : Bytes} (apart : key ≠ cStr path) :
    (writeFileToDisk m files path content 0 ttl fsBlockSize headers writeHeaders).1.lookup key =
      files.lookup key := by
  rcases writeFileToDisk_cases m files path content ttl fsBlockSize headers writeHeaders with
    ⟨-, result⟩ | ⟨-, result⟩ | result
  · rw [result]
    exact lookup_erase_ne apart
  · rw [result]
    exact lookup_insert_ne apart
  · rw [result]

theorem writeFileToDisk_ne_nil (old : ∀ c, files.read path = some c → c ≠ []) {c : Bytes}
    (read : (writeFileToDisk m files path content 0 ttl fsBlockSize headers writeHeaders).1.read
      path = some c) : c ≠ [] := by
  rcases writeFileToDisk_cases m files path content ttl fsBlockSize headers writeHeaders with
    ⟨-, result⟩ | ⟨some, result⟩ | result
  · rw [result, Files.read_remove_self] at read
    cases read
  · rw [result, Files.read_write_self] at read
    cases read
    exact some
  · grind

end

end RssDisk.Disk
