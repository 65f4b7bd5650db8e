import RssDisk.DateTime
import RssDisk.Files
import RssDisk.Lib.Cut

/-!
# Disk helpers

`disk::helper`: reading, replacing and appending to files, and the sizes of files in blocks of the
file system. The sizes are computed in the types of the source: the size of a file that cannot be
opened is `-1` read as a `std::size_t`, and a number of blocks is a `std::int32_t`.
-/

namespace RssDisk

open Lib BasefuncStd

/-- What a request finds at the moment at which it is handled. -/
structure Moment where
  /-- `date_time::current_date_time`. -/
  now : DateTime
  /-- The clock shows a date of the calendar with a year of four digits. -/
  calendar : now.IsCalendar
  opens : Bytes → Bool
  reads : Bytes → Bool
  /-- The names that another thread has locked, for as long as the request tries. -/
  busy : Bytes → Bool

namespace Disk

/-- `get_file_size`, cut to `std::size_t`. -/
def getFileSize (files : Files) (path : Bytes) : Nat :=
  match files.read path with
  | some content => content.length
  | none => 2 ^ 64 - 1

/-- The number of blocks of a size, always with a last block. -/
def countBlocks (size fsBlockSize : Nat) : Int := toInt32 ((size / fsBlockSize + 1) % 2 ^ 64 : Nat)

def getFileSizeFsBlockSize (files : Files) (path : Bytes) (fsBlockSize : Nat) : Int :=
  countBlocks (getFileSize files path) fsBlockSize * fsBlockSize

def isBelow (folder path : Bytes) : Bool := folder.isPrefixOf path

/-- What one file adds to the size of a folder. -/
def sizeOnDisk (fsBlockSize : Nat) (content : Bytes) : Int :=
  if fsBlockSize ≠ 0 then countBlocks content.length fsBlockSize * fsBlockSize else content.length

def getDirSize (files : Files) (path : Bytes) (fsBlockSize : Nat) : Int :=
  ((files.entries.filter (fun entry => isBelow path entry.1)).map
    (fun entry => sizeOnDisk fsBlockSize entry.2)).sum

/-- The size that `write_file_to_disk` accounts for: whole blocks, none for an empty file. -/
def roundedSize (size fsBlockSize : Nat) : Int :=
  if fsBlockSize ≠ 0 then (if size ≠ 0 then countBlocks size fsBlockSize else 0) * fsBlockSize
  else size

/-- What `write_file_to_disk` writes before the content. -/
def headerText (m : Moment) (ttl : Int) (headers : List Bytes) : Bytes :=
  headers.flatten ++ DateTime.getDateTime m.now ++ BasefuncStd.toString ttl ++ [32]

/-- `write_file_to_disk`: the files, the size after the change is added, and whether it succeeded.
An empty content removes the file. The size of the written file is computed from the lengths of
its parts, with 20 characters for the date, the time and a space. -/
def writeFileToDisk (m : Moment) (files : Files) (path content : Bytes) (size ttl : Int)
    (fsBlockSize : Nat) (headers : List Bytes) (writeHeaders : Bool) : Files × Int × Bool :=
  let oldSize := getFileSize files path
  if content ≠ [] then
    if m.opens path then
      let newSize := content.length + if writeHeaders then
        20 + (BasefuncStd.toString ttl).length + (headers.map List.length).sum else 0
      let written := if writeHeaders then headerText m ttl headers ++ content else content
      (files.write path written,
        toInt32 (size + (roundedSize newSize fsBlockSize - roundedSize oldSize fsBlockSize)), true)
    else (files, size, false)
  else (files.remove path, toInt32 (size - roundedSize oldSize fsBlockSize), true)

/-- `read_file`: at most `maxBytesRead` bytes, all of them for zero; `none` for a file that cannot
be opened. -/
def readFile (files : Files) (path : Bytes) (maxBytesRead : Nat) : Option Bytes :=
  (files.read path).map (fun content =>
    if maxBytesRead ≠ 0 then content.take maxBytesRead else content)

def isFileExists (files : Files) (path : Bytes) : Bool := (files.read path).isSome

/-- `append_to_file`, which fails when the file cannot be opened. -/
def appendToFile (m : Moment) (files : Files) (path content : Bytes) : Files × Bool :=
  if m.opens path then (files.append path content, true) else (files, false)

/-- `std::getline` until the end of a text: a last line without its end counts when it is not
empty. -/
def getlines (delim : UInt8) : Bytes → Bytes → List Bytes
  | line, [] => if line = [] then [] else [line]
  | line, c :: text =>
    if c = delim then line :: getlines delim [] text else getlines delim (line ++ [c]) text

/-- `basefunc_std::split`. -/
def split (text : Bytes) (delim : UInt8) : List Bytes := getlines delim [] text

/-- `basefunc_std::trim`. -/
def trim (text : Bytes) : Bytes :=
  ((text.reverse.dropWhile isSpace).reverse).dropWhile isSpace

/-- `path::stem`: a file name without its last extension. -/
def stem (name : Bytes) : Bytes :=
  if name = [46] ∨ name = [46, 46] ∨ 46 ∉ name then name
  else ((name.reverse.dropWhile (· ≠ 46)).drop 1).reverse

/-- The folders below a path, by the names on the way to them. -/
def foldersBelow (files : Files) (path : Bytes) : List (List Bytes) :=
  ((files.keys.filter (isBelow path)).flatMap (fun key =>
    ((split (key.drop path.length) 47).dropLast).inits.drop 1)).dedup

/-- `list_dirs`: the stems of the folders below a path. -/
def listDirs (files : Files) (path : Bytes) : List Bytes :=
  (foldersBelow files path).map (fun folder => stem (folder.getLastD []))

/-- `list_dir`: the names of the files below a path that contain a text. -/
def listDir (files : Files) (path contain : Bytes) : List Bytes :=
  ((files.keys.filter (isBelow path)).map (fun key => (split key 47).getLastD [])).filter
    (fun name => contain = [] || (cut contain name).isSome)

/-- `boost::filesystem::remove_all`: a file, or a folder with all that is below it. -/
def removeAll (files : Files) (path : Bytes) : Files :=
  (files.keys.filter (fun key => key = path ∨ isBelow (path ++ [47]) key)).foldl
    (fun files key => files.erase key) files

theorem foldl_erase_lookup (keys : List Bytes) (files : Files) (key : Bytes) :
    (keys.foldl (fun files key => files.erase key) files).lookup key =
      if key ∈ keys then none else files.lookup key := by
  induction keys generalizing files with
  | nil => rfl
  | cons first keys ih =>
    rw [List.foldl_cons, ih]
    by_cases own : key = first
    · subst own
      simp [AList.lookup_erase]
    · simp [own, AList.lookup_erase_ne own]

end Disk

end RssDisk
