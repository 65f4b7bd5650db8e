import Mathlib.Data.List.TakeWhile
import RssDisk.Bitbase
import RssDisk.Lib.Unordered

/-!
# Files of a disk

The regular files of a disk, by the path that the system calls see. A path ends at its first zero
byte, so two strings can name one file.
-/

namespace RssDisk

open Lib AList

/-- The part of a string that a C function sees. -/
def cStr (text : Bytes) : Bytes := text.takeWhile (· ≠ 0)

theorem cStr_eq_self {text : Bytes} (plain : 0 ∉ text) : cStr text = text := by
  grind [cStr, List.takeWhile_eq_self_iff]

/-- The regular files of a disk. -/
abbrev Files := UMap Bytes Bytes

namespace Files

variable (files : Files)

/-- Open a file by its path and read it whole. -/
def read (path : Bytes) : Option Bytes := files.lookup (cStr path)

/-- Replace a file. -/
def write (path content : Bytes) : Files := files.insert (cStr path) content

/-- `std::remove`. -/
def remove (path : Bytes) : Files := files.erase (cStr path)

/-- `disk::helper::append_to_file`. -/
def append (path content : Bytes) : Files :=
  files.write path ((files.read path).getD [] ++ content)

@[simp]
theorem read_write_self (path content : Bytes) :
    (files.write path content).read path = some content :=
  lookup_insert files

theorem read_write_of_ne {path other : Bytes} (apart : cStr other ≠ cStr path) (content : Bytes) :
    (files.write path content).read other = files.read other :=
  lookup_insert_ne apart

@[simp]
theorem read_remove_self (path : Bytes) : (files.remove path).read path = none :=
  lookup_erase _ files

theorem read_remove_of_ne {path other : Bytes} (apart : cStr other ≠ cStr path) :
    (files.remove path).read other = files.read other :=
  lookup_erase_ne apart

theorem read_remove (path other : Bytes) :
    (files.remove path).read other = if cStr other = cStr path then none else files.read other := by
  split
  · rename_i same
    rw [read, same]
    exact lookup_erase _ files
  · grind [read_remove_of_ne]

@[simp]
theorem read_append_self (path content : Bytes) :
    (files.append path content).read path = some ((files.read path).getD [] ++ content) :=
  read_write_self files path _

theorem read_append_of_ne {path other : Bytes} (apart : cStr other ≠ cStr path) (content : Bytes) :
    (files.append path content).read other = files.read other :=
  read_write_of_ne files apart _

end Files

end RssDisk
