import RssDisk.CManager.Payload
import RssDisk.CManager.Search
import RssDisk.Client
import RssDisk.DateTime.Adding
import RssDisk.EManager
import RssDisk.JManager.Exceptions
import RssDisk.Server.Places

/-!
# The handler of requests

`ClientTCPHandler` hands each request of an authorized connection to a task. The first two
characters of the request are its type and the next five its identifier. The task answers most types
with one response: the family of the type in two characters, a status in two, the identifier and a
content.

The task is a function of a pool that catches nothing, so an exception ends the program. It is the
value `none` here, as is an overflow, whose behaviour is undefined, a stack that `incr_month` leaves,
and a payload on which the walk of `CDatabaseManager::insert` does not end within a number of rounds.
-/

namespace RssDisk

open Lib Bitbase List BasefuncStd DateTime Disk

namespace Status

def code : Status → Nat
  | ok => 1
  | toSmallContentSize => 2
  | allDirectoriesAreFull => 3
  | cantWriteFileToDisk => 4
  | fileNameMustNotBeEmpty => 5
  | cantReadFile => 6
  | fileNotFound => 7
  | fileBusy => 8
  | tooLongFilename => 9
  | authFailed => 10
  | incorrectSecureKey => 11
  | writeIsDisabled => 12
  | readIsDisabled => 13
  | subfolderNotFound => 14

/-- `server_response::get`: the text of a status. -/
def text : Status → String
  | ok => "ok"
  | toSmallContentSize => "to_small_content_size"
  | allDirectoriesAreFull => "all_directories_are_full"
  | cantWriteFileToDisk => "cant_write_file_to_disk"
  | fileNameMustNotBeEmpty => "file_name_must_not_be_empty"
  | cantReadFile => "cant_read_file"
  | fileNotFound => "file_not_found"
  | fileBusy => "file_busy"
  | tooLongFilename => "too_long_filename"
  | authFailed => "auth_failed"
  | incorrectSecureKey => "incorrect_secure_key"
  | writeIsDisabled => "write_is_disabled"
  | readIsDisabled => "read_is_disabled"
  | subfolderNotFound => "subfolder_not_found"

end Status

namespace Server

/-- The bytes of a text of ASCII characters. -/
def ascii (text : String) : Bytes := text.toList.map (fun c => UInt8.ofNat c.toNat)

/-- What the tasks of the handler share. -/
structure Node where
  server : State
  cdb : CManager.DataStore
  edb : EManager.Events

/-- What a task finds at its time. -/
structure Surroundings where
  moment : Moment
  crc32 : Bytes → UInt32
  clock : Nat → Int
  toTimeT : Int → Int64
  /-- The texts that are nested too deep for `Json::Reader`, which throws on them. -/
  tooDeep : Bytes → Bool
  /-- The calls of `incr_month` for which the stack has room. -/
  stack : Nat
  /-- The requests for which the database manager reads a text of a date that takes more calls. -/
  farDate : Bytes → Bool
  isMonth : 1 ≤ moment.now.date.month ∧ moment.now.date.month ≤ 12

/-- What a task does. -/
structure Effect where
  node : Node
  /-- The calls of `responser::add`. -/
  responses : List Bytes := []
  /-- The call of `responser::add_event`. -/
  event : Option (Int32 × Bytes) := none
  /-- The call of `responser::listen_events`. -/
  listens : Option (List Int) := none
  /-- What `on_write_` is called with. -/
  onWrite : Option (Bytes × Int64 × Int64) := none

def answer (family code : Nat) (identifier content : Bytes) : Bytes :=
  twoDigits family ++ twoDigits code ++ identifier ++ content

section

variable (env : Env) (w : Surroundings) (node : Node) (identifier query : Bytes)

/-- One response that changes nothing. -/
def Node.reply (family code : Nat) (content : Bytes) : Effect :=
  { node, responses := [answer family code identifier content] }

/-- The records that `read_file` compares with a query; `none` when it does not fetch from a
database. -/
def readCompared (s : State) (fileName : Bytes) : Option (List Json) :=
  let (subfolder, name) := splitSubfolder fileName
  let (name, query) := splitQuery [] name
  match s.conf.dirs.lookup subfolder, query with
  | some d, some jsonSearch =>
    if !w.moment.busy (segmentPath env name) && s.conf.enableRead &&
        isFileExists s.files (d.p ++ segmentPath env name) then
      some (JManager.fetchCompared env s.files (d.p ++ segmentPath env name) jsonSearch)
    else none
  | _, _ => none

/-- `read_file` does not end well: it compares a record that has no members, or reads a date that is
too far away. -/
def readThrows (s : State) (fileName : Bytes) : Bool :=
  (readCompared env w s fileName).any (fun records =>
    w.farDate fileName || records.any (fun record => !record.hasMembers))

/-- Case 2, `get_file`. -/
def getFile : Option Effect :=
  if readThrows env w node.server query then none
  else
    let (status, content) := readFile env w.moment node.server query {}
    some (node.reply identifier 2 status.code content)

/-- A directory that has room, on a server that writes. -/
def hasRoom (s : State) (subfolder : Bytes) : Bool :=
  match s.conf.dirs.lookup subfolder with
  | some d => s.conf.enableWrite && decide (d.currSizeB < d.maxSizeB)
  | none => false

/-- Case 3, `is_enought_storage_for_accepting_file`. When there is room the `break` leaves the
`switch` before a response is added. -/
def isEnoughtStorageForAcceptingFile : Effect :=
  match node.server.conf.dirs.lookup query with
  | none => node.reply identifier 3 3 []
  | some _ => if hasRoom node.server query then { node } else node.reply identifier 3 3 []

/-- The indexes to which `accept_file` adds, with the entries that it adds to each; `none` when it
builds no database. -/
def acceptAdds (s : State) (content : Bytes) : Option (List (Bytes × List BTree.IndexEntry)) :=
  let r := requestOf s.conf content false
  let (subfolder, name) := splitSubfolder r.fileName
  match s.conf.dirs.lookup subfolder, splitPayload (content.drop (r.startContentFrom + 1)) with
  | some d, some (jsonSettings, jsonData) =>
    let path := d.p ++ segmentPath env name
    if 2 < content.length && s.conf.enableWrite && r.fileName.length ≤ 64 && r.isAuthOk &&
        name ≠ [] && !w.moment.busy (segmentPath env name) &&
        (isFileExists s.files path || (d.enabled && d.currSizeB < d.maxSizeB)) &&
        (r.type = .jdb || r.type = .ajdb) then
      some (JManager.createAdds env s.files path jsonData jsonSettings (r.type = .ajdb))
    else none
  | _, _ => none

/-- `createDatabaseContent` does not end well: it inserts behind the end of an index, or reads a
date that is too far away. -/
def acceptThrows (s : State) (content : Bytes) : Bool :=
  (acceptAdds env w s content).any (fun adds =>
    w.farDate content || adds.any (fun add => JManager.insertsOutside add.1 add.2))

/-- The days of a request. -/
def daysOf (s : State) (content : Bytes) : Int := (requestOf s.conf content false).ttl

/-- The last day of a file; `none` when the sum overflows or the stack has no room. -/
def lastDay (days : Int) : Option DateTime :=
  (CManager.sum32 w.moment.now.date.day days).bind (fun day =>
    incrAllOn w.stack { w.moment.now with date := { w.moment.now.date with day } })

/-- Case 4, `send_file`. A file that is put on the list of its last day is written before. -/
def sendFile : Option Effect :=
  let outcome := acceptFile env w.moment node.server query false false
  if acceptThrows env w node.server query || outcome.response.ttlSuccess.isSome &&
      (lastDay w (daysOf node.server query)).isNone then none
  else
    some { node := { node with server := outcome.state }, onWrite := outcome.onWrite
           responses := [answer 4 outcome.response.status.code identifier []] }

/-- The text of a directory in the statistics. -/
def directoryStat (it : Bytes × Directory) : Bytes :=
  ascii "\x7b\"n\":\"" ++ (if it.1 = [] then ascii "main(empty)" else it.1) ++
    ascii "\",\"f\":[\x7b\"n\":\"0\",\"p\":\"" ++ it.2.p ++ ascii "\",\"s_mb\":" ++
    BasefuncStd.toString (it.2.currSizeB.tdiv (1024 * 1024)) ++ ascii ",\"max_s_mb\":" ++
    BasefuncStd.toString (it.2.maxSizeB.tdiv (1024 * 1024)) ++ ascii "\x7d]\x7d"

/-- Case 5, `get_stat`. -/
def getStat : Effect :=
  node.reply identifier 5 1 (ascii "\x7b\"sub\":[" ++
    JManager.commaJoin ((env.order node.server.conf.dirs).map directoryStat) ++ ascii "]\x7d")

/-- Case 6, `get_all_files_names`. -/
def getAllFilesNames : Effect :=
  let names := (env.order node.server.conf.dirs).flatMap (fun it =>
    (listDir node.server.files it.2.p query).map (fun name =>
      (if it.1 = [] then [] else it.1 ++ [47]) ++ name))
  node.reply identifier 6 1 (env.compress (JManager.commaJoin names))

/-- Case 7, `get_file_info`. -/
def getFileInfo : Effect :=
  let (status, content) := readFileInfo env w.crc32 w.moment node.server query
  node.reply identifier 7 status.code content

/-- Case 8, `remove_file`. -/
def removeFile : Effect :=
  let (server, ok) := removeFileByTms env w.moment node.server query 0 0 true
  { node := { node with server }, responses := [answer 8 (if ok then 1 else 2) identifier []] }

/-- What a file holds behind its header, when `fetch_content` does not throw. -/
def unpacked (content : Bytes) : Bytes :=
  let fileType := WType.ofText (content.take 2)
  let needed := match fileType with
    | .cdb => 32
    | .updatable | .updatableWithoutCompress | .jdb | .ajdb => 18
    | .appendable => 10
    | _ => 2
  if content.length < needed then content
  else
    let ri := Client.fetchContent content 0
    match ri.fileType with
    | .insertOnlyWithoutCompress | .updatableWithoutCompress | .appendable => ri.content
    | _ => env.decompressString ri.content

/-- The result of one file in the answer to `get_files`. -/
def fileResult (status : Status) (parsed : Option Json) (file : Bytes) : Json :=
  .object ((match parsed with
      | some root => [(ascii "_c_", root)]
      | none => []) ++
    [(ascii "_fn_", .string file), (ascii "status", .string (twoDigits status.code))] ++
    if status = .ok then [] else [(ascii "status_m", .string (ascii status.text))])

/-- One file of `get_files`; none when the reader throws on its content. -/
def readOne (compressed : Bool) (file jdbQuery : Bytes) : Option Json :=
  let (status, content) :=
    readFile env w.moment node.server (file ++ jdbQuery) { noCompress := true, noHeader := true }
  if content = [] then some (fileResult status none file)
  else
    let content := if compressed then unpacked env content else content
    if w.tooDeep content then none else some (fileResult status (env.parse content) file)

/-- The files of a request, and the query that follows each of them. -/
def filesOf (query : Bytes) : List Bytes × Bytes :=
  match splitQuery [] query with
  | (names, some jsonSearch) => (split names 44, jdbMark ++ jsonSearch)
  | (names, none) => (split names 44, [])

/-- Cases 9 and 29, `get_files` and `get_files_compressed`. -/
def getFiles (compressed : Bool) : Option Effect :=
  let (files, jdbQuery) := filesOf query
  if files.any (fun file => readThrows env w node.server (file ++ jdbQuery)) then none
  else
    let results := files.filterMap (fun file => readOne env w node compressed file jdbQuery)
    some (node.reply identifier 9 1
      (env.text (if results = [] then .null else .array results)))

/-- Case 11, `get data event`. -/
def getDataEvent : Effect :=
  let r := EManager.retrieve node.edb query
  node.reply identifier 11 1 (i32ToChars r.eventType ++ r.payload)

/-- Cases 12 and 22, `set data event`; only the first one is answered. -/
def setDataEvent (answered : Bool) : Option Effect :=
  (EManager.insert w.moment.now node.edb query).map (fun inserted =>
    { node := { node with edb := inserted.2 }
      responses := if answered then [answer 12 1 identifier []] else []
      event := some (inserted.1.eventType,
        ascii "12|" ++ BasefuncStd.toString inserted.1.eventType.toInt ++ 124 ::
          inserted.1.payload) })

/-- The responses of `get events`. -/
def eventAnswers : List Bytes :=
  (EManager.fetchEvents env w.moment.now node.edb query).map (fun it =>
    answer 14 1 identifier (i32ToChars it.eventType ++ it.payload))

/-- Case 13, `listen events`. -/
def listenEvents : Effect :=
  { node, responses := eventAnswers env w node identifier query
    listens := some (EManager.numbersOf query).tail }

/-- Case 14, `get events`. -/
def getEvents : Effect := { node, responses := eventAnswers env w node identifier query }

/-- Case 20, `get_cdb`. -/
def getCdb : Effect :=
  match CManager.retrieve (w.clock 0) node.cdb query with
  | some content =>
    node.reply identifier 20 1 (WType.cdb.digits ++ [48, 48, 48, 48, 48] ++ content)
  | none => node.reply identifier 20 7 []

/-- Case 21, `get_cdb_all`. -/
def getCdbAll : Effect :=
  node.reply identifier 21 1 (CManager.searchAll env w.toTimeT (w.clock 0) node.cdb query)

/-- Cases 24, 25, 32 and 33, `set_cdbm`; only 24 and 32 are answered. -/
def setCdbm (rounds : Nat) (family : Nat) (answered : Bool) : Option Effect :=
  (CManager.insert w.clock rounds node.cdb query).map (fun inserted =>
    { node := { node with cdb := inserted.1 }
      responses :=
        if answered then [answer family (if inserted.2 then 1 else 4) identifier []] else [] })

/-- Case 26, `ping`. -/
def ping : Effect := node.reply identifier 26 1 []

/-- Case 31, `get events splitted`. -/
def getEventsSplitted : Effect :=
  node.reply identifier 31 1 ((EManager.fetchEvents env w.moment.now node.edb query).flatMap
    EManager.EventResult.payload)

end

/-- The `switch` over the type of a request. -/
def perform (env : Env) (w : Surroundings) (rounds : Nat) (node : Node) (identifier query : Bytes) :
    Int → Option Effect
  | 1 =>
    let (status, text) := fileExists env node.server query
    some (node.reply identifier 1 status.code text)
  | 2 => getFile env w node identifier query
  | 3 => some (isEnoughtStorageForAcceptingFile node identifier query)
  | 4 => sendFile env w node identifier query
  | 5 => some (getStat env node identifier)
  | 6 => some (getAllFilesNames env node identifier query)
  | 7 => some (getFileInfo env w node identifier query)
  | 8 => some (removeFile env w node identifier query)
  | 9 => getFiles env w node identifier query false
  | 29 => getFiles env w node identifier query true
  | 11 => some (getDataEvent node identifier query)
  | 12 => setDataEvent w node identifier query true
  | 22 => setDataEvent w node identifier query false
  | 13 => some (listenEvents env w node identifier query)
  | 14 => some (getEvents env w node identifier query)
  | 20 => some (getCdb w node identifier query)
  | 21 => some (getCdbAll env w node identifier query)
  | 24 => setCdbm w node identifier query rounds 24 true
  | 25 => setCdbm w node identifier query rounds 24 false
  | 26 => some (ping node identifier)
  | 31 => some (getEventsSplitted env w node identifier query)
  | 32 => setCdbm w node identifier query rounds 32 true
  | 33 => setCdbm w node identifier query rounds 32 false
  | _ => some { node }

/-- The task of a request. -/
def dispatch (env : Env) (w : Surroundings) (rounds : Nat) (node : Node) (message : Bytes) :
    Option Effect :=
  perform env w rounds node ((message.drop 2).take 5) (message.drop 7)
    ((stoi (message.take 2)).getD 0)

section

variable {env : Env} {w : Surroundings} {node : Node} {identifier query : Bytes}

end

/-- A task of the sample server. -/
def sampleSurroundings : Surroundings where
  moment := sampleMoment
  crc32 := fun _ => 1
  clock := fun _ => 0
  toTimeT := fun _ => 0
  tooDeep := fun _ => false
  stack := 174762
  farDate := fun _ => false
  isMonth := by decide

/-- The sample server with empty databases. -/
def sampleNode : Node := { server := sampleState, cdb := {}, edb := {} }

end Server

end RssDisk
