import RssDisk.JManager.Append
import RssDisk.JManager.Independence
import RssDisk.Server.Line
import RssDisk.Server.Outcome

/-!
# Writing databases

A request of the type `jdb` replaces a database, and one of the type `ajdb` appends to it. When it
is answered `ok`, the files of its name hold what the manager of databases built, so that a search
without conditions returns the objects of the request.
-/

namespace RssDisk.Server

open Lib Bitbase JManager List BasefuncStd DateTime Disk Reference Files

theorem cStr_dataFile {path : Bytes} (plain : 0 ∉ path) :
    cStr path = path ∧ cStr (path ++ jExtensionName) = path ++ jExtensionName ∧
      path ≠ path ++ jExtensionName := by
  refine ⟨cStr_eq_self plain, cStr_eq_self ?_, by simp [jExtensionName]⟩
  simp [plain, jExtensionName]

/-- What stands behind the header of the file. -/
def fileContent (c : DatabaseContent) : Bytes := c.title ++ if c.version = 1 then c.body else []

/-- The data file after a database was built, from the one before. -/
def dataFile (c : DatabaseContent) (before : Option Bytes) : Option Bytes :=
  if c.version = 2 then
    if c.append then some (before.getD [] ++ c.body) else if c.body = [] then none else some c.body
  else before

variable {m : Moment} {files : Files} {d : Directory} {path : Bytes} {c : DatabaseContent}

theorem writeFileToDisk_data (m : Moment) (files : Files) (path content : Bytes)
    (fsBlockSize : Nat) :
    (writeFileToDisk m files path content 0 0 fsBlockSize [] false).1 =
        (if content = [] then files.remove path
        else if m.opens path then files.write path content else files) ∧
      ((writeFileToDisk m files path content 0 0 fsBlockSize [] false).2.2 = true ↔
        content = [] ∨ m.opens path = true) := by
  by_cases empty : content = []
  · simp [writeFileToDisk, empty]
  · by_cases opens : m.opens path = true
    · simp [writeFileToDisk, empty, opens]
    · simp [writeFileToDisk, empty, opens]

theorem writeDatabase_spec (done : (writeDatabase m files d path c).ok = true) :
    c.errorOccurred = false ∧ (writeDatabase m files d path c).toWrite = fileContent c ∧
      (writeDatabase m files d path c).files.read (path ++ jExtensionName) =
        dataFile c (files.read (path ++ jExtensionName)) ∧
      ∀ other, cStr other ≠ cStr (path ++ jExtensionName) →
        (writeDatabase m files d path c).files.read other = files.read other := by
  unfold writeDatabase at done ⊢
  by_cases error : c.errorOccurred = true
  · simp [error] at done
  by_cases one : c.version = 1
  · simp [error, one, fileContent, dataFile]
  by_cases two : c.version = 2
  · by_cases append : c.append = true
    · by_cases opens : m.opens (path ++ jExtensionName) = true
      · simp only [error, two, append, appendToFile, opens, Bool.false_eq_true, ↓reduceIte,
          show ¬ (2 : Int) = 1 by decide, fileContent, dataFile, append_nil, true_and,
          read_append_self]
        exact fun other apart => read_append_of_ne files apart _
      · simp [error, two, append, appendToFile, opens] at done
    · obtain ⟨written, ok⟩ := writeFileToDisk_data m files (path ++ jExtensionName) c.body
        d.fsBlockSizeB
      simp only [error, two, append, Bool.false_eq_true, ↓reduceIte,
        show ¬ (2 : Int) = 1 by decide, ok] at done
      simp only [error, two, append, Bool.false_eq_true, ↓reduceIte,
        show ¬ (2 : Int) = 1 by decide, fileContent, dataFile, append_nil, true_and, written]
      by_cases empty : c.body = []
      · simp only [empty, ↓reduceIte, read_remove_self, true_and]
        exact fun other apart => read_remove_of_ne files apart
      · have opens := done.resolve_left empty
        simp only [empty, opens, ↓reduceIte, read_write_self, true_and]
        exact fun other apart => read_write_of_ne files apart _
  · simp [error, one, two, fileContent, dataFile]

/-- The arguments of `accept_file`, with the moment of the call. -/
structure Call where
  moment : Moment
  content : Bytes
  needCheckAuth : Bool := false
  needCheckAes : Bool := false

namespace Call

variable (env : Env) (call : Call)

/-- `accept_file` on a server. -/
def run (s : State) : Outcome :=
  acceptFile env call.moment s call.content call.needCheckAuth call.needCheckAes

def request (conf : ServerConf) : Request :=
  line env conf call.content call.needCheckAuth call.needCheckAes

/-- The content behind the line of the request. -/
def body (conf : ServerConf) : Bytes :=
  payload env conf call.content call.needCheckAuth call.needCheckAes

/-- The header of the file that the request writes. -/
def header (conf : ServerConf) : Bytes := (call.request env conf).headerText call.moment

end Call

/-- A call whose request has the flags of a database and a path of its own, on which no list of last
days is written. -/
structure Placed (env : Env) (conf : ServerConf) (call : Call) (path : Bytes) : Prop where
  flags : (call.request env conf).flags.length = 18
  place : pathOf env conf (call.request env conf).fileName = some path
  apart : 0 < (call.request env conf).ttl → ∀ list ∈ ttlFiles conf
    (addDays call.moment.now (call.request env conf).ttl).date,
    cStr list ≠ cStr path ∧ cStr list ≠ cStr (path ++ jExtensionName)

/-- A call whose request writes a database of a type to a path. -/
structure JdbRequest (env : Env) (conf : ServerConf) (call : Call) (type : WType)
    (path jsonSettings jsonData : Bytes) : Prop extends Placed env conf call path where
  isType : (call.request env conf).type = type
  days : (BasefuncStd.toString (call.request env conf).ttl).length ≤ 9
  /-- The content is long enough for the settings and the data. -/
  complete : splitPayload (call.body env conf) = some (jsonSettings, jsonData)

instance (env : Env) (conf : ServerConf) (call : Call) (path : Bytes) :
    Decidable (Placed env conf call path) :=
  decidable_of_iff ((call.request env conf).flags.length = 18 ∧
      pathOf env conf (call.request env conf).fileName = some path ∧
      (0 < (call.request env conf).ttl → ∀ list ∈ ttlFiles conf
        (addDays call.moment.now (call.request env conf).ttl).date,
        cStr list ≠ cStr path ∧ cStr list ≠ cStr (path ++ jExtensionName)))
    ⟨fun ⟨flags, place, apart⟩ => ⟨flags, place, apart⟩,
    fun ⟨flags, place, apart⟩ => ⟨flags, place, apart⟩⟩

instance (env : Env) (conf : ServerConf) (call : Call) (type : WType)
    (path jsonSettings jsonData : Bytes) :
    Decidable (JdbRequest env conf call type path jsonSettings jsonData) :=
  decidable_of_iff (Placed env conf call path ∧ (call.request env conf).type = type ∧
      (BasefuncStd.toString (call.request env conf).ttl).length ≤ 9 ∧
      splitPayload (call.body env conf) = some (jsonSettings, jsonData))
    ⟨fun ⟨placed, isType, days, complete⟩ => ⟨placed, isType, days, complete⟩,
    fun ⟨placed, isType, days, complete⟩ => ⟨placed, isType, days, complete⟩⟩

theorem headerText_eq {r : Request} (type : r.type = .jdb ∨ r.type = .ajdb)
    (flags : r.flags.length = 18) (m : Moment) :
    ∃ fixed : Bytes, r.headerText m = fixed ++ (BasefuncStd.toString r.ttl ++ [32]) ∧
      fixed.length = 37 := by
  have headers : r.headers.1 = [r.type.digits, (r.flags.drop 2).take 8, (r.flags.drop 10).take 8] ∧
      r.type.digits.length = 2 := by
    rcases type with jdb | ajdb
    · simp [Request.headers, flags, headersOf, jdb, WType.digits]
    · simp [Request.headers, flags, headersOf, ajdb, WType.digits]
  refine ⟨r.headers.1.flatten ++ getDateTime m.now, ?_, ?_⟩
  · simp [Request.headerText, headerText]
  · rw [headers.1]
    simp [getDateTime_length m.calendar, flags, headers.2]

theorem headerText_isHeader {r : Request} (type : r.type = .jdb ∨ r.type = .ajdb)
    (flags : r.flags.length = 18) (days : (BasefuncStd.toString r.ttl).length ≤ 9) (m : Moment) :
    IsHeader (r.headerText m) := by
  obtain ⟨fixed, same, sized⟩ := headerText_eq type flags m
  exact ⟨fixed, _, same, sized, days, space_not_mem_toString r.ttl⟩

section

variable {env : Env} {s : State} {call : Call} {type : WType}
  {path jsonSettings jsonData : Bytes}

/-- After a request for a database that is answered `ok`, its file holds what was prepared, or is
removed when that is empty. -/
theorem Placed.run_files (placed : Placed env s.conf call path)
    (database : (call.request env s.conf).type = .jdb ∨ (call.request env s.conf).type = .ajdb)
    (accepted : (call.run env s).response.status = .ok) :
    ∃ d p, p = prepare env call.moment s.files d path (call.request env s.conf).type
        (call.body env s.conf) ∧ p.ok = true ∧
      (call.run env s).state.files.read path =
        (if p.toWrite = [] then none else some (call.header env s.conf ++ p.toWrite)) ∧
      (0 ∉ path → (call.run env s).state.files.read (path ++ jExtensionName) =
        p.files.read (path ++ jExtensionName)) := by
  obtain ⟨d, found, stored⟩ := acceptFile_ok accepted
  have here := placed.place
  unfold Call.request at here
  rw [pathOf, found, Option.map_some, Option.some.injEq] at here
  generalize prepared : prepare env call.moment s.files d path (call.request env s.conf).type
    (call.body env s.conf) = p
  refine ⟨d, p, prepared.symm, ?_⟩
  have stored : call.run env s = storeFile call.moment s
      (splitSubfolder (call.request env s.conf).fileName).1 d path (call.request env s.conf) p := by
    rw [← prepared, ← here]
    exact stored
  have whole : ¬ ((call.request env s.conf).type = .appendable ∧
      isFileExists s.files path = true) := by
    rintro ⟨appendable, _⟩
    rcases database with jdb | ajdb
    · exact absurd (jdb.symm.trans appendable) (by decide)
    · exact absurd (ajdb.symm.trans appendable) (by decide)
  rw [stored] at accepted ⊢
  obtain ⟨ok, opened⟩ := storeFile_status.mp accepted
  obtain ⟨written, opens⟩ := writeFile_whole call.moment d path p whole
  rw [if_pos (opens.mp opened)] at written
  have listed : ∀ other, (0 < (call.request env s.conf).ttl → ∀ list ∈ ttlFiles s.conf
      (addDays call.moment.now (call.request env s.conf).ttl).date, cStr other ≠ cStr list) →
      (storeFile call.moment s (splitSubfolder (call.request env s.conf).fileName).1 d path
        (call.request env s.conf) p).state.files.read other =
      (writtenFiles call.moment p.files path (call.request env s.conf) p.toWrite).read other := by
    intro other apart
    rw [storeFile_files accepted, listFile_read apart, written]
  refine ⟨ok, ?_, fun plain => ?_⟩
  · rw [listed path (fun some list present => (placed.apart some list present).1.symm),
      writtenFiles]
    split
    · rw [read_remove_self]
    · rw [read_write_self]
      rfl
  · rw [listed (path ++ jExtensionName)
      (fun some list present => (placed.apart some list present).2.symm), writtenFiles]
    obtain ⟨plainPath, plainData, apart⟩ := cStr_dataFile plain
    have different : cStr (path ++ jExtensionName) ≠ cStr path := by
      grind
    split
    · rw [read_remove_of_ne _ different]
    · rw [read_write_of_ne _ different]

theorem JdbRequest.accepted (database : type = .jdb ∨ type = .ajdb)
    (request : JdbRequest env s.conf call type path jsonSettings jsonData)
    (accepted : (call.run env s).response.status = .ok) :
    let c := createDatabaseContent env s.files path jsonData jsonSettings (type = .ajdb)
    c.errorOccurred = false ∧
      (call.run env s).state.files.read path =
        (if fileContent c = [] then none
        else some (call.header env s.conf ++ fileContent c)) ∧
      (0 ∉ path → (call.run env s).state.files.read (path ++ jExtensionName) =
        dataFile c (s.files.read (path ++ jExtensionName))) := by
  obtain ⟨d, p, prepared, ok, head, data⟩ := request.run_files
    (by rw [request.isType]; exact database) accepted
  rw [prepare, request.isType, if_pos database, request.complete] at prepared
  rw [prepared] at ok head data
  obtain ⟨noError, toWrite, there, _⟩ := writeDatabase_spec ok
  rw [toWrite] at head
  exact ⟨noError, head, fun plain => (data plain).trans there⟩

variable {items : List Json} {value : Json} {jsonSearch : Bytes}

theorem JdbRequest.written
    (request : JdbRequest env s.conf call .jdb path jsonSettings jsonData) (plain : 0 ∉ path)
    (data : env.parseJsonData jsonData = some (.array items))
    (reads : ∀ record ∈ items.filter Json.isObject, env.readsBack record)
    (parsed : env.parseJsonData jsonSettings = some value)
    (version : (readSettings value).version = 1 ∨ (readSettings value).version = 2)
    (reserved : (readSettings value).compressParticularlyData ≠ 0 →
      (readSettings value).indexedFields.lookup internalIdx = none)
    (bodySmall : (gather env (readSettings value).indexedFields
      (readSettings value).compressParticularlyData 0
      (items.filter Json.isObject)).body.length < 2 ^ 32)
    (dataSmall : (createDatabaseContent env s.files path jsonData jsonSettings
      false).body.length < 2 ^ 32)
    (titleSmall : (call.header env s.conf).length + (createDatabaseContent env s.files path jsonData
      jsonSettings false).title.length < 2 ^ 32)
    (few : items.length < 2 ^ 60)
    (accepted : (call.run env s).response.status = .ok) :
    Written env (call.run env s).state.files path (call.header env s.conf) jsonData jsonSettings
      items (readSettings value) := by
  obtain ⟨_, head, body⟩ := request.accepted (.inl rfl) accepted
  have built := createDatabaseContent_false env s.files (call.run env s).state.files path path
    jsonData jsonSettings
  simp only [reduceCtorEq, decide_false] at head body
  rw [built] at head body dataSmall titleSmall
  have content : createDatabaseContent env (call.run env s).state.files path jsonData
      jsonSettings false = buildContent env (call.run env s).state.files path (readSettings value)
        (.array items) false := by
    simp only [createDatabaseContent, parsed, data]
  have isVersion : (createDatabaseContent env (call.run env s).state.files path jsonData
      jsonSettings false).version = (readSettings value).version := by
    rw [content, buildContent_fresh (by simp)]
  have fresh : (createDatabaseContent env (call.run env s).state.files path jsonData
      jsonSettings false).append = false := by
    rw [content, buildContent_fresh (by simp)]
  have titled : fileContent (createDatabaseContent env (call.run env s).state.files path jsonData
      jsonSettings false) ≠ [] := by
    rw [content, buildContent_fresh (by simp)]
    simp [fileContent, magic]
  rw [if_neg titled] at head
  refine ⟨data, reads, ⟨value, parsed, rfl⟩, ⟨head, fun two => ?_⟩, ?_, version, reserved, bodySmall,
    dataSmall, titleSmall, few⟩
  · rw [body plain, dataFile, if_pos two, fresh]
    rfl
  · exact headerText_isHeader (.inl request.isType) request.flags request.days _

/-- A `jdb` write that is answered `ok` and then a search without conditions: the header and the
objects of the array in their order. -/
theorem jdb_fetch_all (lawful : env.Lawful)
    (request : JdbRequest env s.conf call .jdb path jsonSettings jsonData) (plain : 0 ∉ path)
    (data : env.parseJsonData jsonData = some (.array items))
    (reads : ∀ record ∈ items.filter Json.isObject, env.readsBack record)
    (object : ∃ item ∈ items, item.isObject = true)
    (parsed : env.parseJsonData jsonSettings = some value)
    (version : (readSettings value).version = 1 ∨ (readSettings value).version = 2)
    (reserved : (readSettings value).indexedFields.lookup internalIdx = none)
    (bodySmall : (gather env (readSettings value).indexedFields
      (readSettings value).compressParticularlyData 0
      (items.filter Json.isObject)).body.length < 2 ^ 32)
    (dataSmall : (createDatabaseContent env s.files path jsonData jsonSettings
      false).body.length < 2 ^ 32)
    (titleSmall : (call.header env s.conf).length + (createDatabaseContent env s.files path jsonData
      jsonSettings false).title.length < 2 ^ 32)
    (few : items.length < 2 ^ 60)
    (accepted : (call.run env s).response.status = .ok) (empty : IsEmptyQuery env jsonSearch)
    (noHeader : Bool) :
    fetch env (call.run env s).state.files path jsonSearch ⟨true, noHeader⟩ =
      (if noHeader then [] else call.header env s.conf) ++
        env.text (.array (items.filter Json.isObject)) := by
  have written := request.written plain data reads parsed version (fun _ => reserved) bodySmall dataSmall
    titleSmall few accepted
  obtain ⟨store, _, chunks, _, stored | none⟩ := written.exists_store lawful
  · rw [stored.fetch_all lawful.zlib empty, Store.records, chunks, recordsOf_chunksOf]
  · obtain ⟨item, present, isObject⟩ := object
    have inside : item ∈ items.filter Json.isObject := mem_filter.mpr ⟨present, isObject⟩
    grind

end

/-- A moment at which every file can be opened and no name is locked. -/
def sampleMoment : Moment where
  now := { date := ⟨2024, 1, 1⟩ }
  calendar := by decide
  opens := fun _ => true
  reads := fun _ => true
  busy := fun _ => false

/-- A server with one directory and no files. -/
def sampleState : State where
  conf := { ttlPath := [47, 116, 47]
            dirs := AList.singleton [] { enabled := true, p := [47, 100, 47], maxSizeB := 1000000
                                         fsBlockSizeB := 4096 } }
  files := ∅

/-- The call with the request that writes a database. -/
def databaseCall (moment : Moment) (type : WType) (name days raw jsonSettings jsonData : Bytes) :
    Call where
  moment
  content := lineText [97, 117, 116, 104] name days (type.digits ++ raw) ++
    (u32ToChars (UInt32.ofNat jsonSettings.length) ++ (jsonSettings ++ jsonData))

/-- The settings of version two. -/
def versionTwo : Json := .object [(versionName, .int 2)]

/-- A `jdb` write of records with the settings of version two. -/
def sampleCall (name : Bytes) (items : List Json) : Call :=
  databaseCall sampleMoment .jdb name [48] (List.replicate 16 0) (Reference.env.text versionTwo)
    (Reference.env.text (.array items))

/-- The path of a name of the sample server. -/
def samplePathOf (name : Bytes) : Bytes := (pathOf Reference.env sampleState.conf name).getD []

/-- One record under the name `a` is returned. -/
theorem jdb_fetch_all_sample :
    fetch Reference.env
      ((sampleCall [97] [sampleRecord (.int 1), .null]).run Reference.env sampleState).state.files
      (samplePathOf [97]) [] ⟨true, true⟩ =
      Reference.env.text (.array [sampleRecord (.int 1)]) := by
  have request : JdbRequest Reference.env sampleState.conf
      (sampleCall [97] [sampleRecord (.int 1), .null]) .jdb (samplePathOf [97])
      (Reference.env.text versionTwo)
      (Reference.env.text (.array [sampleRecord (.int 1), .null])) :=
    by decide
  exact jdb_fetch_all env_lawful request (by decide) (parse_text (by decide)) (by decide)
    ⟨_, mem_cons_self, rfl⟩ (parse_text (by decide)) (by decide) (by decide)
    (by decide) (by decide) (by decide) (by decide) (by decide) (Or.inl rfl) true

/-- With a zero byte in the name the data file and the file are one file for the system, so the
header and the title are returned in place of the record. -/
theorem jdb_fetch_all_zero_byte :
    ((sampleCall [97, 0, 98] [sampleRecord (.int 1)]).run Reference.env
      sampleState).response.status = .ok ∧
    fetch Reference.env
      ((sampleCall [97, 0, 98] [sampleRecord (.int 1)]).run Reference.env sampleState).state.files
      (samplePathOf [97, 0, 98]) [] ⟨true, true⟩ ≠
      Reference.env.text (.array [sampleRecord (.int 1)]) := by
  decide

end RssDisk.Server
