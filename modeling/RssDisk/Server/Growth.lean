import RssDisk.Server.Frame

/-!
# Databases that are replaced and extended

A request of the type `jdb` replaces a database, and so does one of the type `ajdb` that finds no
blocks to append to; any other `ajdb` request extends the stored database.
-/

namespace RssDisk.Server

open Lib Bitbase JManager List Reference Json Store

/-- A call that writes an array with some settings to the database of a path. -/
structure DatabaseWrite (env : Env) (conf : ServerConf) (call : Call) (type : WType) (path : Bytes)
    (settings : Settings) (items : List Json) : Prop where
  /-- The request is complete, and its settings and its array are read. -/
  read : ∃ jsonSettings jsonData value,
    JdbRequest env conf call type path jsonSettings jsonData ∧
      env.parseJsonData jsonSettings = some value ∧ readSettings value = settings ∧
      env.parseJsonData jsonData = some (.array items)
  /-- The records are read back from their printed lists. -/
  reads : ∀ record ∈ items.filter isObject, env.readsBack record

/-- The files of a database are below 4 GiB. -/
structure SmallFiles (files : Files) (path : Bytes) : Prop where
  head : ∀ content, files.read path = some content → content.length < 2 ^ 32
  data : ∀ content, files.read (path ++ jExtensionName) = some content → content.length < 2 ^ 32

instance (files : Files) (path : Bytes) : Decidable (SmallFiles files path) :=
  decidable_of_iff ((files.read path).all (fun content => content.length < 2 ^ 32) = true ∧
      (files.read (path ++ jExtensionName)).all (fun content => content.length < 2 ^ 32) = true) (by
    simp only [Option.all_eq_true, decide_eq_true_eq]
    exact ⟨fun small => ⟨small.1, small.2⟩, fun small => ⟨small.head, small.data⟩⟩)

/-- What a request adds to a database: its settings and its objects. -/
structure Taken where
  settings : Settings
  objects : List Json

/-- What a request adds, when its settings and its array are read. -/
def Call.taken (env : Env) (conf : ServerConf) (call : Call) : Option Taken :=
  match splitPayload (call.body env conf) with
  | some (jsonSettings, jsonData) =>
    match env.parseJsonData jsonSettings, env.parseJsonData jsonData with
    | some value, some (.array items) => some ⟨readSettings value, items.filter isObject⟩
    | _, _ => none
  | none => none

namespace DatabaseWrite

variable {env : Env} {s : State} {call : Call} {type : WType} {path : Bytes} {settings : Settings}
  {items : List Json}

theorem taken {conf : ServerConf} {type : WType}
    (write : DatabaseWrite env conf call type path settings items) :
    call.taken env conf = some ⟨settings, items.filter isObject⟩ := by
  obtain ⟨_, _, _, request, parsed, rfl, data⟩ := write.read
  simp only [Call.taken, request.complete, parsed, data]

theorem isHeader (database : type = .jdb ∨ type = .ajdb)
    (write : DatabaseWrite env s.conf call type path settings items) :
    IsHeader (call.header env s.conf) := by
  obtain ⟨_, _, _, request, _⟩ := write.read
  apply headerText_isHeader _ request.flags request.days
  rw [request.isType]
  exact database

theorem accepted (database : type = .jdb ∨ type = .ajdb)
    (write : DatabaseWrite env s.conf call type path settings items)
    (accepted : (call.run env s).response.status = .ok) :
    let c := buildContent env s.files path settings (.array items) (type = .ajdb)
    (call.run env s).state.files.read path =
        some (call.header env s.conf ++ fileContent c) ∧
      (0 ∉ path → (call.run env s).state.files.read (path ++ jExtensionName) =
        dataFile c (s.files.read (path ++ jExtensionName))) := by
  intro c
  obtain ⟨jsonSettings, jsonData, value, request, parsed, same, data⟩ := write.read
  obtain ⟨_, head, body⟩ := request.accepted database accepted
  have content :
      createDatabaseContent env s.files path jsonData jsonSettings (type = .ajdb) = c := by
    simp only [createDatabaseContent, parsed, data, same]
    rfl
  rw [content] at head body
  have titled : fileContent c ≠ [] := by
    have marked : c.title ≠ [] := by
      simp [c, buildContent, magic]
    simp [fileContent, marked]
  rw [if_neg titled] at head
  exact ⟨head, body⟩

theorem good (lawful : env.Lawful) {conf : ServerConf}
    (write : DatabaseWrite env conf call type path settings items) :
    Records env (items.filter isObject) := by
  obtain ⟨_, _, _, _, _, _, data⟩ := write.read
  exact records_of_parseJsonData lawful.shape data write.reads

theorem bodySmall (database : type = .jdb ∨ type = .ajdb)
    (write : DatabaseWrite env s.conf call type path settings items)
    (fresh : decide (type = .ajdb) = true → (retrieveCompressedData env s.files path).size = 0)
    (version : settings.version = 1 ∨ settings.version = 2) (plain : settings.version = 2 → 0 ∉ path)
    (small : SmallFiles (call.run env s).state.files path)
    (ok : (call.run env s).response.status = .ok) :
    (buildContent env s.files path settings (.array items) (type = .ajdb)).body.length <
      2 ^ 32 := by
  obtain ⟨head, data⟩ := write.accepted database ok
  have isVersion : (buildContent env s.files path settings (.array items)
      (type = .ajdb)).version = settings.version := by rw [buildContent_fresh fresh]
  have replaces : (buildContent env s.files path settings (.array items)
      (type = .ajdb)).append = false := by rw [buildContent_fresh fresh]
  rw [fileContent, isVersion] at head
  rcases version with one | two
  · rw [if_pos one] at head
    have whole := small.head _ head
    simp only [length_append] at whole
    omega
  · have data := data (plain two)
    rw [dataFile, isVersion, replaces, if_pos two, if_neg (by simp)] at data
    by_cases empty : (buildContent env s.files path settings (.array items)
        (type = .ajdb)).body = []
    · simp [empty]
    · rw [if_neg empty] at data
      exact small.data _ data

theorem replaced (lawful : env.Lawful) (database : type = .jdb ∨ type = .ajdb)
    (write : DatabaseWrite env s.conf call type path settings items)
    (fresh : type = .ajdb → (retrieveCompressedData env s.files path).size = 0)
    (version : settings.version = 1 ∨ settings.version = 2) (plain : settings.version = 2 → 0 ∉ path)
    (reserved : blockSize settings (type = .ajdb) ≠ 0 →
      settings.indexedFields.lookup internalIdx = none)
    (bodySmall : (formatOf settings (type = .ajdb)).compressData = true →
      (gather env settings.indexedFields (blockSize settings (type = .ajdb)) 0
        (items.filter isObject)).body.length < 2 ^ 32)
    (small : SmallFiles (call.run env s).state.files path)
    (ok : (call.run env s).response.status = .ok) :
    ∃ (kind : Bytes → UInt8) (store : Store env), store.format = formatOf settings (type = .ajdb) ∧
      store.chunks = chunksOf env settings.indexedFields (blockSize settings (type = .ajdb))
        (items.filter isObject) ∧
      store.names.Perm
        (newFields settings.indexedFields (blockSize settings (type = .ajdb))).keys ∧
      (Stored (call.run env s).state.files path (call.header env s.conf) kind store ∨
        store.chunks = [] ∧
          ∀ jsonSearch ro, fetch env (call.run env s).state.files path jsonSearch ro = []) := by
  have fresh : decide (type = .ajdb) = true → (retrieveCompressedData env s.files path).size = 0 :=
    fun append => fresh (of_decide_eq_true append)
  have builtSmall := write.bodySmall database fresh version plain small ok
  have bodySmall : (gather env settings.indexedFields (blockSize settings (type = .ajdb)) 0
      (items.filter isObject)).body.length < 2 ^ 32 := by
    cases compressed : (formatOf settings (type = .ajdb)).compressData with
    | true => exact bodySmall compressed
    | false =>
      rw [buildContent_fresh fresh] at builtSmall
      simpa only [compressed, Bool.false_eq_true, ↓reduceIte] using builtSmall
  obtain ⟨store, format, chunks, names, built⟩ := buildContent_new lawful.zlib lawful.walk
    (write.good lawful) fresh version reserved bodySmall
  obtain ⟨head, data⟩ := write.accepted database ok
  have two : store.format.version = 2 → settings.version = 2 := fun two => by
    rw [← formatOf_version version (type = .ajdb), ← format, two]
  rw [built] at head data
  rw [← formatOf_version version (type = .ajdb), ← format] at head data
  have holds : Holds (call.run env s).state.files path (call.header env s.conf)
      { title := store.title (kindOf (newFields settings.indexedFields
          (blockSize settings (type = .ajdb))))
        body := store.data, version := store.format.version } := by
    refine ⟨head, fun is => ?_⟩
    rw [data (plain (two is)), dataFile, if_pos is]
    rfl
  have headSmall := small.head _ head
  simp only [fileContent, length_append] at headSmall
  have sized : store.body.length < 2 ^ 32 := by
    rw [gather_body (write.good lawful)] at bodySmall
    have body : store.body = bodyOf env (blockSize settings (type = .ajdb) ≠ 0)
        (chunksOf env settings.indexedFields (blockSize settings (type = .ajdb))
          (items.filter isObject)) := by
      rw [body, chunks, format]
      rfl
    rw [body]
    exact bodySmall
  have dataSmall : store.data.length < 2 ^ 32 := by
    rw [built] at builtSmall
    exact builtSmall
  exact ⟨_, store, format, chunks, names, holds.stored lawful.zlib (write.isHeader database)
    (by omega) sized dataSmall⟩

theorem extended (lawful : env.Lawful)
    (write : DatabaseWrite env s.conf call .ajdb path settings items) (named : 0 ∉ path)
    {header : Bytes} {kind : Bytes → UInt8} {store : Store env} (stored : Stored s.files path header kind store)
    (separate : store.format.separate = true) (block : store.format.block = true)
    (plain : store.format.compressData = false) (held : store.chunks ≠ [])
    (version : settings.version = 2)
    (reserved : settings.indexedFields.lookup internalIdx = none)
    (few : store.records.length + (items.filter isObject).length < 2 ^ 60)
    (small : SmallFiles (call.run env s).state.files path)
    (ok : (call.run env s).response.status = .ok) :
    ∃ (kind : Bytes → UInt8) (grown : Store env), grown.format = formatOf settings true ∧
      grown.chunks = store.chunks ++ chunksOf env settings.indexedFields (blockSize settings true)
        (items.filter isObject) ∧
      grown.names.Perm store.names ∧
      Stored (call.run env s).state.files path (call.header env s.conf) kind grown := by
  obtain ⟨head, data⟩ := write.accepted (.inr rfl) ok
  have data := data named
  have appends : decide (WType.ajdb = WType.ajdb) = true := rfl
  have before : s.files.read (path ++ jExtensionName) = some store.body := by
    rw [stored.separate separate, Store.data, plain]
    rfl
  obtain ⟨added, isVersion, grows⟩ := stored.buildContent_body lawful separate block held
    settings (write.good lawful)
  rw [appends, dataFile, added, isVersion, grows, if_pos version, if_pos rfl, before,
    Option.getD_some] at data
  have bodySmall := small.data _ data
  rw [length_append] at bodySmall
  obtain ⟨grown, format, chunks, names, built⟩ := buildContent_append lawful stored separate block
    plain held (write.good lawful) version reserved bodySmall few
  rw [appends, built] at head
  have format' := format.trans (formatOf_true version)
  have body : grown.body = store.body ++ bodyOf env true (chunksOf env settings.indexedFields
      (blockSize settings true) (items.filter isObject)) := by
    rw [body, body, chunks, format', block, bodyOf_append]
  have dataIs : grown.data = grown.body := by rw [Store.data, format']; rfl
  have separated : grown.format.separate = true := by rw [format']
  have headed : (call.run env s).state.files.read path = some (call.header env s.conf ++
      (grown.title (kindOf settings.indexedFields) ++ [])) := head
  have headSmall := small.head _ headed
  have grownSmall : grown.body.length < 2 ^ 32 := by
    rw [body, length_append]
    exact bodySmall
  refine ⟨kindOf settings.indexedFields, grown, format, chunks, names, write.isHeader (.inr rfl),
    ?_, fun _ => ?_, ?_, grownSmall, ?_⟩
  · rw [headed, if_pos separated]
  · rw [data, dataIs, body]
  · simpa using headSmall
  · grind

end DatabaseWrite

section

variable {env : Env} {s : State} {call : Call} {path : Bytes} {settings : Settings}
  {items : List Json} {jsonSearch : Bytes}

theorem writeDatabase_failed {m : Moment} {files : Files} {d : Directory} {c : DatabaseContent}
    (opens : ∀ file, m.opens file = true) (failed : (writeDatabase m files d path c).ok = false) :
    (writeDatabase m files d path c).files = files := by
  unfold writeDatabase at failed ⊢
  by_cases error : c.errorOccurred = true
  · rw [if_pos error]
  · by_cases empty : c.body = []
    all_goals
      simp only [error, Bool.false_eq_true, ↓reduceIte] at failed ⊢
      repeat' split at failed
      all_goals simp [Disk.appendToFile, Disk.writeFileToDisk, opens, empty] at failed

theorem Call.run_refused
    (database : (call.request env s.conf).type = .jdb ∨ (call.request env s.conf).type = .ajdb)
    (opens : ∀ file, call.moment.opens file = true)
    (refused : (call.run env s).response.status ≠ .ok) :
    (call.run env s).state.files = s.files := by
  rcases acceptFile_cases env call.moment s call.content call.needCheckAuth call.needCheckAes with
    ⟨_, _, same⟩ | ⟨d, _, stored⟩
  · exact congrArg (fun outcome => outcome.state.files) same
  · generalize place : d.p ++ segmentPath env (splitSubfolder (line env s.conf call.content
      call.needCheckAuth call.needCheckAes).fileName).2 = path at stored
    have stored : call.run env s = storeFile call.moment s
        (splitSubfolder (call.request env s.conf).fileName).1 d path (call.request env s.conf)
        (prepare env call.moment s.files d path (call.request env s.conf).type
          (call.body env s.conf)) := stored
    have whole : ¬ ((call.request env s.conf).type = .appendable ∧
        Disk.isFileExists s.files path = true) := by
      rintro ⟨appendable, _⟩
      rcases database with jdb | ajdb
      · exact absurd (jdb.symm.trans appendable) (by decide)
      · exact absurd (ajdb.symm.trans appendable) (by decide)
    rw [stored] at refused ⊢
    rw [storeFile_failed refused]
    rw [Ne, storeFile_status, (writeFile_whole call.moment d path _ whole).2, opens] at refused
    have failed := Bool.eq_false_iff.mpr (fun ok => refused ⟨ok, .inr rfl⟩)
    unfold prepare at failed ⊢
    rw [if_pos database] at failed ⊢
    cases split : splitPayload (call.body env s.conf) with
    | none => rfl
    | some parts =>
      rw [split] at failed
      exact writeDatabase_failed opens failed

theorem DatabaseWrite.returned_replaced {type : WType} (lawful : env.Lawful)
    (database : type = .jdb ∨ type = .ajdb)
    (write : DatabaseWrite env s.conf call type path settings items)
    (fresh : type = .ajdb → (retrieveCompressedData env s.files path).size = 0)
    (version : settings.version = 1 ∨ settings.version = 2) (plain : settings.version = 2 → 0 ∉ path)
    (reserved : blockSize settings (type = .ajdb) ≠ 0 →
      settings.indexedFields.lookup internalIdx = none)
    (bodySmall : (formatOf settings (type = .ajdb)).compressData = true →
      (gather env settings.indexedFields (blockSize settings (type = .ajdb)) 0
        (items.filter isObject)).body.length < 2 ^ 32)
    (small : SmallFiles (call.run env s).state.files path)
    (ok : (call.run env s).response.status = .ok) (empty : IsEmptyQuery env jsonSearch) :
    returned env (call.run env s).state.files path jsonSearch = items.filter isObject := by
  obtain ⟨kind, store, _, chunks, _, held⟩ := write.replaced lawful database fresh version plain reserved
    bodySmall small ok
  have records : store.records = items.filter isObject := by
    rw [records, chunks, recordsOf_chunksOf]
  rcases held with stored | ⟨none, nothing⟩
  · rw [stored.returned_all lawful empty, records]
  · rw [returned, nothing, ← records, Store.records, none]
    rfl

end

end RssDisk.Server
