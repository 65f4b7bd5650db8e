import RssDisk.BTree.Match

/-!
# Files in memory

`MemoryMappedItem`: a file's bytes of which the part from some offset on may be replaced by its
decompressed form.
-/

namespace RssDisk

open Lib BTree Bitbase

/-- `std::size_t` addition, which wraps. -/
def sizeAdd (left right : Nat) : Nat := (left + right) % 2 ^ 64

namespace JManager

/-- `JDatabaseManager::MemoryMappedItem`. -/
structure MemoryMappedItem where
  currentFileSize : Nat := 0
  data : Bytes := []
  decompressedData : Bytes := []
  decompressedOffset : Nat := 0
  isCompressed : Bool := false
deriving DecidableEq, Repr

namespace MemoryMappedItem

/-- `read`: a file that cannot be opened is empty. -/
def read (files : Files) (file : Bytes) : MemoryMappedItem :=
  let data := (files.read file).getD []
  { data, currentFileSize := data.length }

/-- `append_string` and `retrieve`: the bytes at an offset. -/
def retrieve (m : MemoryMappedItem) (offset size : Nat) : Bytes :=
  if m.isCompressed && m.decompressedOffset ≤ offset then
    let offset := offset - m.decompressedOffset
    if sizeAdd offset size ≤ m.decompressedData.length then
      (m.decompressedData.drop offset).take size
    else []
  else if offset < m.currentFileSize then
    (m.data.drop offset).take (min size (m.currentFileSize - offset))
  else []

/-- `retrieve_uint32_t_c` without the move of the offset. -/
def retrieveUint32 (m : MemoryMappedItem) (offset : Nat) : UInt32 :=
  charsToU32 (m.retrieve offset 4)

/-- `decompressed`: replace the part at an offset by its decompressed form. -/
def decompressed (env : Env) (m : MemoryMappedItem) (offset size : Nat) : MemoryMappedItem :=
  let decompressedData := env.decompressString (m.retrieve offset size)
  { m with decompressedData, decompressedOffset := offset, isCompressed := true
           currentFileSize := sizeAdd (sizeSub m.currentFileSize size) decompressedData.length }

end MemoryMappedItem

/-- The scan over the number of days in a file's header: past the first space, or past ten
characters. -/
def skipTtl (data : Bytes) : Nat → Nat → Nat
  | 0, l => l
  | n + 1, l => if data.getD l 0 = 32 then l + 1 else skipTtl data n (l + 1)

/-- Where the content of a file starts, behind its header. -/
def contentStart (data : Bytes) : Nat := skipTtl data 10 37

/-- `b_tree::b_base` of an index section. -/
structure Section where
  offset : UInt32 := 0
  size : UInt32 := 0
deriving DecidableEq, Repr

/-- The table of index sections from an offset: the names with the sizes, and the offset behind
the table. -/
def readTable (m : MemoryMappedItem) : Nat → Nat → Int → List (Bytes × UInt32) × Nat
  | 0, l, _ => ([], l)
  | fuel + 1, l, headerSize =>
    if 0 < headerSize then
      let nameSize := (m.retrieveUint32 l).toNat
      let name := m.retrieve (l + 4) nameSize
      let size := m.retrieveUint32 (l + 4 + nameSize)
      -- the byte of the kind follows, and nothing reads it
      let (queue, l) := readTable m fuel (l + 4 + nameSize + 5) (headerSize - 9 - nameSize)
      ((name, size) :: queue, l)
    else ([], l)

/-- The sections of a table, one after the other from an offset, and the offset behind them. -/
def placeSections (queue : List (Bytes × UInt32)) (l : Nat) : UMap Bytes Section × Nat :=
  let sizes := queue.foldl (fun sections entry => sections.insert entry.1 { size := entry.2 }) ∅
  queue.foldl (fun (sections, l) entry =>
    let placed := (sections.lookup entry.1).getD {}
    (sections.insert entry.1 { placed with offset := UInt32.ofNat l }, l + placed.size.toNat))
    (sizes, l)

/-- The magic `jdb`. -/
def magic : Bytes := [106, 100, 98]

/-- `internal_idx`: the name of the index over all blocks. -/
def internalIdx : Bytes := [95, 105, 100, 120, 67, 102, 117, 108, 108]

/-- `j_extension_name`: what a data file's name adds to that of its header file. -/
def jExtensionName : Bytes := [46, 106, 100, 98, 95, 100, 97, 116, 97]

end JManager

end RssDisk
