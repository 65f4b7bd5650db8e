import RssDisk.JManager.Fetch
import RssDisk.Server.Accept

/-!
# Reading and removing files

`server::read_file`, `server::remove_file_by_tms` and `server::run_ttl_remover`. The remover walks
the folders whose names are dates that have come, and removes every file that a line of their lists
names.
-/

namespace RssDisk.Server

open Lib Bitbase JManager Disk

variable (env : Env)

/-- The text `?jdb` in front of a query. -/
def jdbMark : Bytes := [63, 106, 100, 98]

/-- What stands before and behind the first `?jdb` of a name. -/
def splitQuery : Bytes → Bytes → Bytes × Option Bytes
  | before, [] => (before, none)
  | before, c :: rest =>
    if jdbMark.isPrefixOf (c :: rest) then (before, some ((c :: rest).drop 4))
    else splitQuery (before ++ [c]) rest

/-- `read_file`: the status and the content. -/
def readFile (m : Moment) (s : State) (fileName : Bytes) (ro : ReadOptions) : Status × Bytes :=
  let (subfolder, name) := splitSubfolder fileName
  let (name, query) := splitQuery [] name
  if m.busy (segmentPath env name) then (.fileBusy, [])
  else if !s.conf.enableRead then (.readIsDisabled, [])
  else
    match s.conf.dirs.lookup subfolder with
    | none => (.fileNotFound, [])
    | some d =>
      let path := d.p ++ segmentPath env name
      if Disk.isFileExists s.files path then
        let content :=
          match query with
          | some jsonSearch => fetch env s.files path jsonSearch ro
          | none => if m.reads path then (Disk.readFile s.files path 0).getD [] else []
        (if content ≠ [] then .ok else .cantReadFile, content)
      else (.fileNotFound, [])

/-- Whether `remove_file_by_tms` removes a file whose first bytes are known: an older one, and one
without a time unless databases are appended to it. -/
def needRemove (content : Bytes) (tms crc32 : Int64) : Bool :=
  if 18 ≤ content.length then
    let fileTms := charsToI64 ((content.drop 2).take 8)
    let fileCrc32 := charsToI64 ((content.drop 10).take 8)
    match WType.ofText (content.take 2) with
    | .updatable | .updatableWithoutCompress | .jdb =>
      fileTms < tms ∨ (fileTms = tms ∧ fileCrc32 < crc32)
    | .ajdb => false
    | _ => true
  else false

/-- Account for the removal of a file, and remove it. -/
def removeAccounted (s : State) (subfolder : Bytes) (d : Directory) (path : Bytes) : State :=
  let bytes := toInt32 (getFileSizeFsBlockSize s.files path d.fsBlockSizeB)
  { s with files := s.files.remove path }.incCurrDiskSize subfolder (-bytes)

/-- Remove a file, and its data file when there is one. -/
def removeWithData (s : State) (subfolder : Bytes) (d : Directory) (path : Bytes) : State :=
  let s := removeAccounted s subfolder d path
  if isFileExists s.files (path ++ jExtensionName) then
    removeAccounted s subfolder d (path ++ jExtensionName)
  else s

def removeFileByTms (m : Moment) (s : State) (fileName : Bytes) (tms crc32 : Int64)
    (force : Bool) : State × Bool :=
  let (subfolder, name) := splitSubfolder fileName
  if m.busy (segmentPath env name) then (s, false)
  else
    match s.conf.dirs.lookup subfolder with
    | none => (s, true)
    | some d =>
      let path := d.p ++ segmentPath env name
      if Disk.isFileExists s.files path then
        if !force ∧ !m.reads path then (s, false)
        else if force ∨ needRemove ((Disk.readFile s.files path 64).getD []) tms crc32 then
          (removeWithData s subfolder d path, true)
        else (s, true)
      else (s, true)

/-- The path of the directory of a file: all parts but the last two, without empty ones. -/
def directoryOf (item : Bytes) : Bytes :=
  (((split item 47).dropLast.dropLast.filter (· ≠ [])).flatMap
    (fun part => 47 :: part)) ++ [47]

/-- `path_index`: the subfolder of the directory at a path. -/
def pathIndex (conf : ServerConf) (path : Bytes) : Option Bytes :=
  (conf.dirs.entries.find? (fun entry => entry.2.p = path)).map (fun entry => entry.1)

/-- Account for the removal of a file at a path, in the directory that holds it. -/
def accountRemoval (s : State) (subfolder path : Bytes) : State :=
  match s.conf.dirs.lookup subfolder with
  | some d =>
    s.incCurrDiskSize subfolder
      (-toInt32 (getFileSizeFsBlockSize s.files path d.fsBlockSizeB))
  | none => s

/-- Remove the file that a line names, and its data file. -/
def clearItem (s : State) (item : Bytes) : State :=
  let s :=
    match pathIndex s.conf (directoryOf item) with
    | some subfolder =>
      let s := accountRemoval s subfolder item
      if isFileExists s.files (item ++ jExtensionName) then
        accountRemoval s subfolder (item ++ jExtensionName)
      else s
    | none => s
  { s with files := (s.files.remove item).remove (item ++ jExtensionName) }

/-- The lines of a list, each once. -/
def clearLines (s : State) (removed : List Bytes) : List Bytes → State
  | [] => s
  | line :: lines =>
    let item := trim line
    if item ∉ removed ∧ item ≠ [] then clearLines (clearItem s item) (item :: removed) lines
    else clearLines s removed lines

theorem clearLines_cons (s : State) (removed : List Bytes) (line : Bytes) (lines : List Bytes) :
    clearLines s removed (line :: lines) =
      if trim line ∉ removed ∧ trim line ≠ [] then
        clearLines (clearItem s (trim line)) (trim line :: removed) lines
      else clearLines s removed lines := rfl

/-- `f_clear`: the files of one list. -/
def clearList (s : State) (list : Bytes) : State :=
  clearLines s [] (Disk.getlines 10 [] ((Disk.readFile s.files list 0).getD []))

/-- `remove_date`: the lists of a date, and then its folder. -/
def removeDate (s : State) (date : Date) : State :=
  let s := (ttlFiles s.conf date).foldl clearList s
  { s with files := removeAll s.files (s.conf.ttlPath ++ DateTime.getDate date) }

/-- `run_ttl_remover`, with the folders in the order in which they are listed. -/
def runTtlRemover (now : DateTime) (s : State) : State :=
  ((listDirs s.files s.conf.ttlPath).filterMap DateTime.parseDate).foldl
    (fun s date => if date.le now.date then removeDate s date else s) s

end RssDisk.Server
