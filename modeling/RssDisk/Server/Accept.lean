import RssDisk.JManager.Content
import RssDisk.Server.State

/-!
# Accepting a file

`server::accept_file`: a request is a line of an authorisation, a name, a number of days and flags,
each ended by a space, before the content. The flags hold the type of the write, and for some types
raw bytes, which are read without looking for a space. A database is built by the manager of
databases, whose title, or title and body, becomes the content of the file.
-/

namespace RssDisk.Server

open Lib Bitbase JManager Disk

/-- The fields of a request while its bytes are read. -/
structure Request where
  auth : Bytes := []
  fileName : Bytes := []
  ttlDays : Bytes := []
  flags : Bytes := []
  /-- `filename_filled`: the number of fields that are ended. -/
  filled : Nat := 0
  startContentFrom : Nat := 0
  isAuthOk : Bool := true
  maxAuthSize : Nat := 256
  /-- `stable_read_count_bytes`: how many bytes follow that do not end a field. -/
  stable : Nat := 0
deriving DecidableEq, Repr

/-- The number of raw bytes behind a type. -/
def rawBytes : WType → Nat
  | .updatable | .updatableWithoutCompress | .jdb | .ajdb | .jdbFormed => 16
  | .appendable => 8
  | _ => 0

/-- A byte that belongs to a field. -/
def Request.take (r : Request) (c : UInt8) : Request :=
  if r.filled = 1 then { r with fileName := r.fileName ++ [c] }
  else if r.filled = 2 then { r with ttlDays := r.ttlDays ++ [c] }
  else
    let flags := r.flags ++ [c]
    if flags.length = 2 ∧ 0 < rawBytes (WType.ofText flags) then
      { r with flags, stable := rawBytes (WType.ofText flags) }
    else { r with flags }

/-- Read the bytes of a request from a place on. `required` is the authorisation to check. -/
def readRequest (required : Option Bytes) : Nat → Bytes → Request → Request
  | _, [], r => r
  | i, c :: content, r =>
    if c = 32 ∧ r.stable = 0 then
      if r.filled = 0 ∧ required ≠ none ∧ required ≠ some r.auth then { r with isAuthOk := false }
      else if r.filled = 3 then { r with startContentFrom := i }
      else readRequest required (i + 1) content
        { r with startContentFrom := i, filled := r.filled + 1 }
    else
      let r := { r with stable := r.stable - 1 }
      if r.filled = 0 then
        if r.maxAuthSize = 0 then { r with isAuthOk := false }
        else readRequest required (i + 1) content
          { r with maxAuthSize := r.maxAuthSize - 1, auth := r.auth ++ [c] }
      else readRequest required (i + 1) content (r.take c)

/-- `res`, the answer to a request. -/
structure Response where
  status : Status
  bytesWritten : Option Int := none
  fileName : Option Bytes := none
  headers : Option Bytes := none
  bytesWrittenJdb : Option Int := none
  fileNameJdb : Option Bytes := none
  ttlSuccess : Option Bool := none
deriving DecidableEq, Repr

/-- What a request leads to. -/
structure Outcome where
  state : State
  response : Response
  /-- What `on_write_` is called with. -/
  onWrite : Option (Bytes × Int64 × Int64) := none

/-- The headers of a type with its flags, and whether the write is reported. -/
def headersOf (type : WType) (flags : Bytes) : List Bytes × Bool :=
  match type with
  | .updatable | .updatableWithoutCompress | .jdb | .ajdb | .jdbFormed =>
    if flags.length = 18 then
      ([(if type = .jdbFormed then WType.jdb else type).digits, (flags.drop 2).take 8,
        (flags.drop 10).take 8], type ≠ .ajdb)
    else ([], false)
  | .insertOnlyWithoutCompress => ([type.digits], false)
  | .appendable =>
    if flags.length = 10 then ([type.digits, (flags.drop 2).take 8], false) else ([], false)
  | _ => ([], false)

/-- What a request becomes before the file itself is written. -/
structure Prepared where
  files : Files
  toWrite : Bytes := []
  isAppend : Bool := false
  /-- `ok_jdb_write`. -/
  ok : Bool := true
  /-- `bytes_written_jdb`, when the data file was written. -/
  bytesWrittenJdb : Option Int := none

/-- A database that was built: its data file, when it has one, is written before the file. -/
def writeDatabase (m : Moment) (files : Files) (d : Directory) (path : Bytes)
    (jdb : DatabaseContent) : Prepared :=
  if jdb.errorOccurred then { files, toWrite := jdb.title, isAppend := jdb.append, ok := false }
  else if jdb.version = 1 then { files, toWrite := jdb.title ++ jdb.body, isAppend := jdb.append }
  else if jdb.version = 2 then
    if jdb.append then
      let appended := appendToFile m files (path ++ jExtensionName) jdb.body
      { files := appended.1, toWrite := jdb.title, isAppend := true, ok := appended.2
        bytesWrittenJdb := if appended.2 then some (toInt32 jdb.body.length) else none }
    else
      let written :=
        writeFileToDisk m files (path ++ jExtensionName) jdb.body 0 0 d.fsBlockSizeB [] false
      { files := written.1, toWrite := jdb.title, ok := written.2.2
        bytesWrittenJdb := if written.2.2 then some written.2.1 else none }
  else { files, toWrite := jdb.title, isAppend := jdb.append }

/-- The settings and the data of a database, behind the length of the settings in four bytes. -/
def splitPayload (content : Bytes) : Option (Bytes × Bytes) :=
  let size := (charsToU32 (content.take 4)).toNat
  if 5 < content.length ∧ 4 + size < content.length then
    some ((content.drop 4).take size, content.drop (4 + size))
  else none

variable (env : Env)

/-- The content of a request behind its line. A content that is too short for a database leaves
nothing to write. -/
def prepare (m : Moment) (files : Files) (d : Directory) (path : Bytes) (type : WType)
    (content : Bytes) : Prepared :=
  if type = .jdb ∨ type = .ajdb then
    match splitPayload content with
    | some (jsonSettings, jsonData) =>
      writeDatabase m files d path
        (createDatabaseContent env files path jsonData jsonSettings (type = .ajdb))
    | none => { files }
  else { files, toWrite := content }

/-- Append a line to the first of some files that can be opened. -/
def appendToFirst (m : Moment) (files : Files) (line : Bytes) : List Bytes → Files × Bool
  | [] => (files, false)
  | path :: paths =>
    if m.opens path then (files.append path line, true) else appendToFirst m files line paths

/-- The list in which a file is removed after some days. -/
def ttlFile (conf : ServerConf) (date : Date) : Bytes :=
  conf.ttlPath ++ DateTime.getDate date ++ [47, 116, 116, 108]

/-- The lists that are tried in turn. -/
def ttlFiles (conf : ServerConf) (date : Date) : List Bytes :=
  ttlFile conf date ::
    (List.range conf.threads).map (fun i => ttlFile conf date ++ BasefuncStd.toString i)

/-- The number of days of a request. -/
def Request.ttl (r : Request) : Int := (BasefuncStd.stoi r.ttlDays).getD 0

/-- The type of a request; flags that are too short for one leave none. -/
def Request.type (r : Request) : WType :=
  if 2 ≤ r.flags.length then WType.ofText (r.flags.take 2) else .none

/-- The headers of a request, never without one, and whether the write is reported. -/
def Request.headers (r : Request) : List Bytes × Bool :=
  let (headers, isOplog) := if 2 ≤ r.flags.length then headersOf r.type r.flags else ([], false)
  (if headers = [] then [WType.insertOnly.digits] else headers, isOplog)

/-- The server after a data file was written, with its bytes accounted for. -/
def countData (s : State) (subfolder : Bytes) (p : Prepared) : State :=
  match p.bytesWrittenJdb with
  | some bytes => { s with files := p.files }.incCurrDiskSize subfolder bytes
  | none => { s with files := p.files }

/-- Write the file itself: the files, the bytes to account for, and whether it succeeded. Only a
file of the type that is appended to is not replaced when it exists. -/
def writeFile (m : Moment) (d : Directory) (path : Bytes) (r : Request) (existed : Bool)
    (p : Prepared) : Files × Int × Bool :=
  if r.type = .appendable ∧ existed then
    ((appendToFile m p.files path p.toWrite).1,
      toInt32 (roundedSize p.toWrite.length d.fsBlockSizeB),
      (appendToFile m p.files path p.toWrite).2)
  else writeFileToDisk m p.files path p.toWrite 0 r.ttl d.fsBlockSizeB r.headers.1 true

/-- Put a file on the list of its last day, unless it has none. -/
def listFile (m : Moment) (conf : ServerConf) (files : Files) (path : Bytes) (r : Request)
    (isAppend : Bool) : Files × Option Bool :=
  if 0 < r.ttl ∧ !isAppend then
    let listed := appendToFirst m files (path ++ [10])
      (ttlFiles conf (DateTime.addDays m.now r.ttl).date)
    (listed.1, some listed.2)
  else (files, none)

/-- Store what was prepared, and answer. -/
def storeFile (m : Moment) (s : State) (subfolder : Bytes) (d : Directory) (path : Bytes)
    (r : Request) (p : Prepared) : Outcome :=
  let counted := countData s subfolder p
  let response (status : Status) : Response := {
    status
    bytesWrittenJdb := p.bytesWrittenJdb
    fileNameJdb := p.bytesWrittenJdb.map (fun _ => r.fileName ++ jExtensionName) }
  let written := writeFile m d path r (isFileExists s.files path) p
  if p.ok ∧ written.2.2 then
    let listed := listFile m s.conf written.1 path r p.isAppend
    { state := { counted.incCurrDiskSize subfolder written.2.1 with files := listed.1 }
      response := { response .ok with
        bytesWritten := some written.2.1
        fileName := some r.fileName
        headers := some r.headers.1.flatten
        ttlSuccess := listed.2 }
      onWrite :=
        if r.headers.2 then
          some (r.fileName, charsToI64 (r.headers.1.getD 1 []), charsToI64 (r.headers.1.getD 2 []))
        else none }
  else { state := counted, response := response .cantWriteFileToDisk }

/-- A request in a directory that was found. -/
def acceptInto (m : Moment) (s : State) (subfolder : Bytes) (d : Directory) (path : Bytes)
    (r : Request) (content : Bytes) : Outcome :=
  if isFileExists s.files path ∨ (d.enabled ∧ d.currSizeB < d.maxSizeB) then
    storeFile m s subfolder d path r
      (prepare env m s.files d path r.type (content.drop (r.startContentFrom + 1)))
  else { state := s, response := { status := .allDirectoriesAreFull } }

/-- A request whose line was read. -/
def acceptRequest (m : Moment) (s : State) (r : Request) (content : Bytes) : Outcome :=
  let refuse (status : Status) : Outcome := { state := s, response := { status } }
  if 64 < r.fileName.length then refuse .tooLongFilename
  else if !r.isAuthOk then refuse .authFailed
  else
    let (subfolder, name) := splitSubfolder r.fileName
    if name = [] then refuse .fileNameMustNotBeEmpty
    else if m.busy (segmentPath env name) then refuse .fileBusy
    else
      match s.conf.dirs.lookup subfolder with
      | none => refuse .subfolderNotFound
      | some d => acceptInto env m s subfolder d (d.p ++ segmentPath env name) r content

/-- The bytes of a request, which may be encrypted. -/
def received (conf : ServerConf) (content : Bytes) (needCheckAes : Bool) : Bytes :=
  if needCheckAes ∧ conf.aesKey ≠ [] then env.decrypt content conf.aesKey conf.iv else content

/-- The fields of a request. -/
def requestOf (conf : ServerConf) (content : Bytes) (needCheckAuth : Bool) : Request :=
  readRequest (if needCheckAuth ∧ conf.auth ≠ [] then some conf.auth else none) 0 content {}

def acceptFile (m : Moment) (s : State) (content : Bytes) (needCheckAuth needCheckAes : Bool) :
    Outcome :=
  let refuse (status : Status) : Outcome := { state := s, response := { status } }
  if content.length ≤ 2 then refuse .toSmallContentSize
  else if !s.conf.enableWrite then refuse .writeIsDisabled
  else
    let content := received env s.conf content needCheckAes
    if content.length ≤ 2 then refuse .incorrectSecureKey
    else acceptRequest env m s (requestOf s.conf content needCheckAuth) content

end RssDisk.Server
