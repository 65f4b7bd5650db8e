import RssDisk.Lib.Reach
import RssDisk.Server.Growth

/-!
# Histories of appends

One `ajdb` request after another to one name. The history of a database keeps the settings and the
objects of every request that it took. Each request leaves a store of all objects taken so far.
-/

namespace RssDisk.Server

open Lib Bitbase BTree JManager IndexUtility List Reference Json Bool Store

/-- A server with what one database took so far. -/
structure History where
  state : State
  /-- What was taken by the requests that were answered `ok`. -/
  taken : List Taken := []

namespace History

/-- The objects of all requests in order. -/
def records (h : History) : List Json := h.taken.flatMap Taken.objects

def after (env : Env) (h : History) (call : Call) : History where
  state := (call.run env h.state).state
  taken := h.taken ++ if (call.run env h.state).response.status = .ok then
    (call.taken env h.state.conf).toList else []

/-- Every request can be made. -/
def step (env : Env) (h : History) (call : Call) : Option History := some (h.after env call)

end History

variable {env : Env} {path header : Bytes} {h : History} {call : Call} {settings : Settings}
  {items : List Json} {kind : Bytes → UInt8} {store : Store env}

theorem DatabaseWrite.after_taken {type : WType}
    (write : DatabaseWrite env h.state.conf call type path settings items)
    (ok : (call.run env h.state).response.status = .ok) :
    (h.after env call).taken = h.taken ++ [⟨settings, items.filter isObject⟩] := by
  rw [History.after, if_pos ok, write.taken, Option.toList_some]

/-- Nothing is stored yet: there are no blocks to append to, and searches return nothing. -/
structure Bare (env : Env) (path : Bytes) (h : History) : Prop where
  size : (retrieveCompressedData env h.state.files path).size = 0
  searches : ∀ jsonSearch ro, fetch env h.state.files path jsonSearch ro = []
  nothing : h.records = []

/-- The files hold a store of all that was taken. -/
structure Grown (env : Env) (path : Bytes) (h : History) (header : Bytes) (kind : Bytes → UInt8)
    (store : Store env) : Prop where
  stored : Stored h.state.files path header kind store
  /-- Its format is that of an append with settings that were taken. -/
  format : ∃ taken ∈ h.taken, taken.settings.version = 2 ∧
    store.format = formatOf taken.settings true
  held : store.chunks ≠ []
  records : store.records = h.records
  names : ∃ taken ∈ h.taken, store.names.Perm
    (newFields taken.settings.indexedFields (blockSize taken.settings true)).keys
  /-- The records of a block are indexed as a request declared. -/
  fields : ∀ chunk ∈ store.chunks, ∃ taken ∈ h.taken, chunk.fields = taken.settings.indexedFields
  declared : ∀ chunk ∈ store.chunks, ∀ name ∈ store.names, name ≠ internalIdx →
    (chunk.fields.lookup name).isSome = true

/-- The database of a path holds what was taken. -/
def Kept (env : Env) (path : Bytes) (h : History) : Prop :=
  Bare env path h ∨ ∃ header kind store, Grown env path h header kind store

theorem Bare.of_absent {s : State} (absent : s.files.read path = none) :
    Bare env path { state := s } where
  size := by simp [retrieveCompressedData, absent]
  searches jsonSearch ro := by
    unfold fetch
    rw [absent]
  nothing := rfl

theorem Grown.blocks (grown : Grown env path h header kind store) :
    store.format.separate = true ∧ store.format.block = true ∧
      store.format.compressData = false := by
  obtain ⟨taken, _, version, format⟩ := grown.format
  rw [format, formatOf_true version]
  exact ⟨rfl, rfl, rfl⟩

theorem fields_of_chunksOf {fields : UMap Bytes BaseType} {particularly : Int}
    {records : List Json} {chunk : Chunk}
    (present : chunk ∈ chunksOf env fields particularly records) :
    chunk.fields = fields := by
  unfold chunksOf at present
  split at present
  all_goals
    obtain ⟨_, _, rfl⟩ := mem_map.mp present
    rfl

/-- A request with an array of objects that keeps all that was taken: it is one of version two that
declares every index of the file. -/
structure Appends (env : Env) (path : Bytes) (h : History) (call : Call) (settings : Settings)
    (items : List Json) : Prop where
  write : DatabaseWrite env h.state.conf call .ajdb path settings items
  version : settings.version = 2
  reserved : settings.indexedFields.lookup internalIdx = none
  /-- When there are blocks, every index of the file is declared. -/
  declares : 0 < (retrieveCompressedData env h.state.files path).size →
    ∀ name ∈ (retrieveCompressedData env h.state.files path).indices.keys,
      name ≠ internalIdx → (settings.indexedFields.lookup name).isSome = true
  few : h.records.length + items.length < 2 ^ 60
  small : SmallFiles (call.run env h.state).state.files path
  opens : ∀ file, call.moment.opens file = true
  plain : 0 ∉ path

theorem Bare.taken (lawful : env.Lawful) (bare : Bare env path h)
    (appends : Appends env path h call settings items)
    (ok : (call.run env h.state).response.status = .ok) : Kept env path (h.after env call) := by
  have taken := appends.write.after_taken ok
  have records : (h.after env call).records = items.filter isObject := by
    have before := bare.nothing
    unfold History.records at before ⊢
    rw [taken, flatMap_append, before]
    simp
  have format := formatOf_true appends.version
  obtain ⟨kind, store, isFormat, chunks, names, held⟩ := appends.write.replaced lawful (.inr rfl)
    (fun _ => bare.size) (.inr appends.version) (fun _ => appends.plain) (fun _ => appends.reserved)
    (fun compressed => by
      have plain : (formatOf settings true).compressData = false := by rw [format]
      exact absurd compressed (by rw [decide_eq_true rfl, plain]; decide))
    appends.small ok
  rw [decide_eq_true rfl] at isFormat chunks names
  have storeRecords : store.records = items.filter isObject := by
    rw [Store.records, chunks, recordsOf_chunksOf]
  by_cases empty : items.filter isObject = []
  · -- without objects the data file is removed, so that nothing is stored still
    obtain ⟨_, data⟩ := appends.write.accepted (.inr rfl) ok
    have noChunks : store.chunks = [] := by
      rw [chunks, empty, chunksOf, if_neg (blockSize_true settings)]
      simp [splitBlocks]
    have noBody : (buildContent env h.state.files path settings (.array items) true).body = [] := by
      rw [buildContent_fresh (fun _ => bare.size), format]
      simp only [false_eq_true, ↓reduceIte]
      rw [gather_body (appends.write.good lawful), ← chunks, noChunks]
      rfl
    have missing : (call.run env h.state).state.files.read (path ++ jExtensionName) = none := by
      have isVersion : (buildContent env h.state.files path settings (.array items)
          true).version = 2 := by rw [buildContent_fresh (fun _ => bare.size), appends.version]
      have replaces : (buildContent env h.state.files path settings (.array items)
          true).append = false := by rw [buildContent_fresh (fun _ => bare.size)]
      rw [data appends.plain, decide_eq_true rfl, dataFile, if_pos isVersion, replaces, noBody]
      rfl
    left
    rcases held with stored | ⟨_, nothing⟩
    · have there := stored.separate (by rw [isFormat, format])
      rw [missing] at there
      cases there
    · exact ⟨retrieveCompressedData_missing missing, nothing, by rw [records, empty]⟩
  · right
    have inhabited : store.chunks ≠ [] := by
      intro none
      rw [← storeRecords, Store.records, none] at empty
      exact empty rfl
    rcases held with stored | ⟨none, _⟩
    · have mine : (⟨settings, items.filter isObject⟩ : Taken) ∈ (h.after env call).taken := by
        rw [taken]
        exact mem_append_right _ mem_cons_self
      refine ⟨_, kind, store, stored, ⟨_, mine, appends.version, isFormat⟩, inhabited, ?_,
        ⟨_, mine, names⟩, ?_, ?_⟩
      · rw [storeRecords, records]
      · intro chunk present
        rw [chunks] at present
        exact ⟨_, mine, fields_of_chunksOf present⟩
      · intro chunk present name listed ordinary
        rw [chunks] at present
        rw [fields_of_chunksOf present, ← mem_newFields (fun _ => ordinary)]
        exact names.mem_iff.mp listed
    · exact absurd none inhabited

theorem Grown.taken (lawful : env.Lawful) (grown : Grown env path h header kind store)
    (appends : Appends env path h call settings items)
    (ok : (call.run env h.state).response.status = .ok) : Kept env path (h.after env call) := by
  have taken := appends.write.after_taken ok
  obtain ⟨separate, block, plain⟩ := grown.blocks
  have few : store.records.length + (items.filter isObject).length < 2 ^ 60 := by
    have total := appends.few
    have objects : (items.filter isObject).length ≤ items.length := length_filter_le _ _
    rw [grown.records]
    omega
  obtain ⟨kind, next, format, chunks, names, stored⟩ := appends.write.extended lawful appends.plain
    grown.stored separate block plain grown.held appends.version appends.reserved few appends.small
    ok
  have older : ∀ old ∈ h.taken, old ∈ (h.after env call).taken := by
    intro old present
    rw [taken]
    exact mem_append_left _ present
  have mine : (⟨settings, items.filter isObject⟩ : Taken) ∈ (h.after env call).taken := by
    rw [taken]
    exact mem_append_right _ mem_cons_self
  have declares : ∀ name ∈ store.names, name ≠ internalIdx →
      (settings.indexedFields.lookup name).isSome = true := by
    obtain ⟨indices, retrieved, keys, _⟩ :=
      grown.stored.retrieveCompressedData_eq lawful.zlib separate block
    have declares := appends.declares
    have some : 0 < store.data.length := by
      apply length_pos_iff.mpr
      exact fun empty => grown.held (Store.chunks_eq_nil lawful.zlib empty)
    rw [retrieved] at declares
    exact fun name listed ordinary => declares some name (keys.mem_iff.mpr listed) ordinary
  refine .inr ⟨_, kind, next, stored, ⟨_, mine, appends.version, format⟩, ?_, ?_, ?_, ?_, ?_⟩
  · rw [chunks]
    exact append_ne_nil_of_left_ne_nil grown.held _
  · rw [Store.records, chunks, recordsOf_append, recordsOf_chunksOf, History.records, taken,
      flatMap_append]
    have before := grown.records
    unfold Store.records History.records at before
    rw [before]
    simp
  · obtain ⟨old, present, perm⟩ := grown.names
    exact ⟨old, older old present, names.trans perm⟩
  · intro chunk present
    rw [chunks] at present
    rcases mem_append.mp present with before | added
    · obtain ⟨old, there, same⟩ := grown.fields chunk before
      exact ⟨old, older old there, same⟩
    · exact ⟨_, mine, fields_of_chunksOf added⟩
  · intro chunk present name listed ordinary
    have listed := names.mem_iff.mp listed
    rw [chunks] at present
    rcases mem_append.mp present with before | added
    · exact grown.declared chunk before name listed ordinary
    · rw [fields_of_chunksOf added]
      exact declares name listed ordinary

theorem Kept.after (lawful : env.Lawful) (kept : Kept env path h)
    (appends : Appends env path h call settings items) : Kept env path (h.after env call) := by
  by_cases ok : (call.run env h.state).response.status = .ok
  · rcases kept with bare | ⟨_, _, _, grown⟩
    · exact bare.taken lawful appends ok
    · exact grown.taken lawful appends ok
  · have type : (call.request env h.state.conf).type = .ajdb := by
      obtain ⟨_, _, _, request, _⟩ := appends.write.read
      exact request.isType
    have files : (h.after env call).state.files = h.state.files :=
      Call.run_refused (.inr type) appends.opens ok
    have taken : (h.after env call).taken = h.taken := by
      rw [History.after, if_neg ok, append_nil]
    have records : (h.after env call).records = h.records := by
      rw [History.records, taken, History.records]
    rcases kept with ⟨size, searches, nothing⟩ |
        ⟨header, kind, store, stored, format, held, same, names, fields, declared⟩
    · exact .inl ⟨by rw [files]; exact size, by rw [files]; exact searches,
        by rw [records, nothing]⟩
    · exact .inr ⟨header, kind, store, by rw [files]; exact stored, by rw [taken]; exact format,
        held, by rw [records, same], by rw [taken]; exact names, by rw [taken]; exact fields,
        declared⟩

/-- A request of a run in which all settings are the same. -/
structure AppendsSame (env : Env) (path : Bytes) (settings : Settings) (h : History) (call : Call) :
    Prop where
  write : ∃ items, DatabaseWrite env h.state.conf call .ajdb path settings items ∧
    (∃ item ∈ items, item.isObject = true) ∧ h.records.length + items.length < 2 ^ 60
  small : SmallFiles (call.run env h.state).state.files path
  opens : ∀ file, call.moment.opens file = true
  plain : 0 ∉ path

/-- The files of a path hold blocks of records with their indexes. -/
structure IndexedBlocks (env : Env) (files : Files) (path : Bytes)
    (declared : UMap Bytes BaseType) (written : List Json) (chunks : List Chunk) : Prop where
  records : recordsOf chunks = written
  fields : ∀ chunk ∈ chunks, chunk.fields = declared
  data : files.read (path ++ jExtensionName) = some (bodyOf env true chunks)
  /-- There is an index for each declared field and one over all blocks. -/
  names : (retrieveCompressedData env files path).indices.keys.Perm
    (declared.emplace internalIdx .none).keys
  /-- Each index is sorted by its keys and, for a declared field, holds one entry for each record
  with a key, which points to the block of the record. -/
  index : ∀ name blob, (retrieveCompressedData env files path).indices.lookup name = some blob →
    ∃ entries, blob = encodeEntries entries ∧ Sorted entries ∧
      (name ≠ internalIdx → entries.Perm (indexEntries env name (pieces env true 0 chunks)))
  /-- The offset and the size of an entry delimit the compressed block. -/
  block : ∀ piece ∈ pieces env true 0 chunks,
    (UInt32.ofNat piece.offset).toNat = piece.offset ∧
    (UInt32.ofNat piece.size).toNat = piece.size ∧
      ((bodyOf env true chunks).drop piece.offset).take piece.size =
        env.compress (piece.chunk.text env)

theorem Grown.indexedBlocks (lawful : env.Lawful) (grown : Grown env path h header kind store)
    (same : ∀ taken ∈ h.taken, taken.settings = settings) :
    IndexedBlocks env h.state.files path settings.indexedFields h.records store.chunks := by
  obtain ⟨separate, block, plain⟩ := grown.blocks
  obtain ⟨indices, retrieved, keys, blobs⟩ :=
    grown.stored.retrieveCompressedData_eq lawful.zlib separate block
  have parts : store.parts = pieces env true 0 store.chunks := by rw [parts, block]
  have body : store.body = bodyOf env true store.chunks := by rw [body, block]
  refine ⟨grown.records, ?_, ?_, ?_, ?_, ?_⟩
  · intro chunk present
    obtain ⟨taken, there, declared⟩ := grown.fields chunk present
    rw [declared, same taken there]
  · rw [grown.stored.separate separate, data, plain, ← body]
    rfl
  · obtain ⟨taken, there, names⟩ := grown.names
    rw [same taken there, newFields, if_pos (blockSize_true settings)] at names
    rw [retrieved]
    exact keys.trans names
  · intro name blob looked
    rw [retrieved] at looked
    have listed : name ∈ store.names := by
      rw [← keys.mem_iff, ← AList.mem_keys, ← AList.lookup_isSome, looked]
      rfl
    obtain ⟨index, present, rfl⟩ := mem_map.mp listed
    refine ⟨index.2, ?_, store.sorted index present, fun ordinary => ?_⟩
    · exact Option.some.inj (looked.symm.trans (blobs index present))
    · rw [← parts]
      exact store.exact index present (fun _ => ordinary)
  · intro piece present
    rw [← parts] at present
    obtain ⟨offset, size⟩ := piece_toNat grown.stored.bodySmall present
    rw [parts] at present
    have segmented := pieces_segment present [] rfl []
    rw [nil_append, append_nil] at segmented
    refine ⟨offset, size, ?_⟩
    rw [(pieces_bounds present).1]
    exact segmented

/-- Along every run of requests with the same settings of version two to a name without a file,
the files hold indexed blocks of all objects taken so far, and a search without conditions returns
these objects in order. -/
theorem appends_indexed (lawful : env.Lawful) (version : settings.version = 2)
    (reserved : settings.indexedFields.lookup internalIdx = none) {s : State}
    (absent : s.files.read path = none)
    (reached : Reaches (History.step env) (AppendsSame env path settings) { state := s } h)
    (some : h.taken ≠ []) :
    (∃ chunks, IndexedBlocks env h.state.files path settings.indexedFields h.records chunks) ∧
      ∃ header, ∀ jsonSearch, IsEmptyQuery env jsonSearch → ∀ noHeader,
        fetch env h.state.files path jsonSearch ⟨true, noHeader⟩ =
          (if noHeader then [] else header) ++ env.text (.array h.records) := by
  -- the invariant: all that was taken is kept, with these settings and at least one object
  have kept := reached.invariant (fun h => Kept env path h ∧
      ∀ taken ∈ h.taken, taken.settings = settings ∧ taken.objects ≠ [])
    ⟨.inl (.of_absent absent), fun taken present => by cases present⟩ (by
      rintro h call next ⟨kept, same⟩ ⟨⟨items, write, object, few⟩, small, opens, plain⟩ step
      obtain rfl := Option.some.inj step
      have declares : 0 < (retrieveCompressedData env h.state.files path).size →
          ∀ name ∈ (retrieveCompressedData env h.state.files path).indices.keys,
            name ≠ internalIdx → (settings.indexedFields.lookup name).isSome = true := by
        rcases kept with bare | ⟨header, kind, store, grown⟩
        · rw [bare.size]
          exact fun positive => absurd positive (by decide)
        · intro _ name listed ordinary
          have names := (grown.indexedBlocks lawful (fun taken there => (same taken there).1)).names
          rw [names.mem_iff, ← AList.mem_keys, ← AList.lookup_isSome, UMap.lookup_emplace,
            if_neg ordinary] at listed
          exact listed
      refine ⟨kept.after lawful ⟨write, version, reserved, declares, few, small, opens, plain⟩,
        ?_⟩
      intro taken present
      by_cases ok : (call.run env h.state).response.status = .ok
      · rw [write.after_taken ok] at present
        rcases mem_append.mp present with before | new
        · exact same taken before
        · rw [mem_singleton.mp new]
          obtain ⟨item, inside, isObject⟩ := object
          exact ⟨rfl, ne_nil_of_mem (mem_filter.mpr ⟨inside, isObject⟩)⟩
      · rw [History.after, if_neg ok, append_nil] at present
        exact same taken present)
  obtain ⟨bare | ⟨header, kind, store, grown⟩, same⟩ := kept
  · obtain ⟨first, rest, held⟩ := exists_cons_of_ne_nil some
    have nothing := bare.nothing
    rw [History.records, held, flatMap_cons, append_eq_nil_iff] at nothing
    exact absurd nothing.1 (same first (by rw [held]; exact mem_cons_self)).2
  · refine ⟨⟨_, grown.indexedBlocks lawful (fun taken there => (same taken there).1)⟩, header, ?_⟩
    intro jsonSearch empty noHeader
    rw [grown.stored.fetch_all lawful.zlib empty, grown.records]

/-- An `ajdb` request for the name `a` of the sample server. -/
def appendCall (days jsonSettings : Bytes) (items : List Json) : Call :=
  databaseCall sampleMoment .ajdb [97] days (List.replicate 16 0) jsonSettings
    (Reference.env.text (.array items))

/-- The sample server before any request. -/
def sampleHistory : History := { state := sampleState }

/-- The settings of version two with an index on the field `a`. -/
def indexedSettings : Json :=
  .object [(indexName, .array [.object [([110], .string sampleName)]]), (versionName, .int 2)]

/-- A request with one record and an index. -/
def indexedCall (value : Int) : Call :=
  appendCall [48] (Reference.env.text indexedSettings) [sampleRecord (.int value)]

/-- Two requests with one record each, the second one with the smaller key. -/
theorem appends_indexed_sample :
    let h := (sampleHistory.after Reference.env (indexedCall 5)).after Reference.env (indexedCall 3)
    h.records.length = 2 ∧
      ∃ chunks, IndexedBlocks Reference.env h.state.files (samplePathOf [97])
        (readSettings indexedSettings).indexedFields h.records chunks := by
  have first : AppendsSame Reference.env (samplePathOf [97]) (readSettings indexedSettings)
      sampleHistory (indexedCall 5) :=
    ⟨⟨[sampleRecord (.int 5)], ⟨⟨Reference.env.text indexedSettings,
      Reference.env.text (.array [sampleRecord (.int 5)]), indexedSettings, by decide +kernel,
      parse_text (by decide), rfl, parse_text (by decide)⟩, by decide⟩,
      ⟨_, mem_cons_self, rfl⟩, by decide⟩, by decide +kernel, fun _ => rfl, by decide⟩
  have second : AppendsSame Reference.env (samplePathOf [97]) (readSettings indexedSettings)
      (sampleHistory.after Reference.env (indexedCall 5)) (indexedCall 3) :=
    ⟨⟨[sampleRecord (.int 3)], ⟨⟨Reference.env.text indexedSettings,
      Reference.env.text (.array [sampleRecord (.int 3)]), indexedSettings, by decide +kernel,
      parse_text (by decide), rfl, parse_text (by decide)⟩, by decide⟩,
      ⟨_, mem_cons_self, rfl⟩, by decide +kernel⟩, by decide +kernel, fun _ => rfl, by decide⟩
  have reached : Reaches (History.step Reference.env)
      (AppendsSame Reference.env (samplePathOf [97]) (readSettings indexedSettings)) sampleHistory
      ((sampleHistory.after Reference.env (indexedCall 5)).after Reference.env (indexedCall 3)) :=
    (Reaches.start.next (indexedCall 5) first rfl).next (indexedCall 3) second rfl
  have records : ((sampleHistory.after Reference.env (indexedCall 5)).after Reference.env
      (indexedCall 3)).records.length = 2 := by decide +kernel
  have some : ((sampleHistory.after Reference.env (indexedCall 5)).after Reference.env
      (indexedCall 3)).taken ≠ [] := by
    intro none
    rw [History.records, none] at records
    cases records
  exact ⟨records, (appends_indexed env_lawful (by decide) (by decide) (by decide) reached
    some).1⟩

/-- A number of days in ten characters hides the content of the file: the record that was taken is
not returned. -/
theorem appends_indexed_long_days :
    let h := sampleHistory.after Reference.env (appendCall [45, 49, 48, 48, 48, 48, 48, 48, 48, 48]
      (Reference.env.text indexedSettings) [sampleRecord (.int 5)])
    h.records.length = 1 ∧
      (returned Reference.env h.state.files (samplePathOf [97]) []).length = 0 := by
  decide +kernel

/-- A field on which the search for an integer does not depend on how it was indexed: no name of the
index over all blocks and, when a request declared it, declared as numeric under a plain name, with
integers of 64 bits in all records. -/
structure IntegerField (h : History) (name : Bytes) : Prop where
  ordinary : name ≠ internalIdx
  indexed : ∀ taken ∈ h.taken, (taken.settings.indexedFields.lookup name).isSome = true →
    taken.settings.indexedFields.lookup name = some .numeric ∧ name ≠ [] ∧ 0 ∉ name ∧
      ∀ record ∈ h.records, HoldsIntegers record name

theorem Grown.returned_integer (lawful : env.Lawful) (grown : Grown env path h header kind store)
    (few : h.records.length < 2 ^ 60) {jsonSearch name : Bytes} {wanted : Int}
    (parsed : env.parseJsonData jsonSearch = some (.object [(name, .int wanted)]))
    (field : IntegerField h name) :
    (returned env h.state.files path jsonSearch).Perm
      (h.records.filter (fun record =>
        matchOne env record name (fSearchVal env (.int wanted)))) := by
  obtain ⟨_, block, _⟩ := grown.blocks
  have distinct : (([(name, .int wanted)] : List (Bytes × Json)).map Prod.fst).Nodup := by simp
  have searches : ∀ other srch, (querySearches env (.object [(name, .int wanted)])).lookup other =
      some srch ↔ other = name ∧ srch = fSearchVal env (.int wanted) := by
    intro other srch
    rw [querySearches_object distinct]
    simp [eq_comm]
  have integers : integersOf (.int wanted) = some [wanted] := rfl
  -- an index of the store was declared by the request of each block
  have indexed : name ∈ store.names → ∀ chunk ∈ store.chunks,
      chunk.fields.lookup name = some .numeric ∧ name ≠ [] ∧ 0 ∉ name ∧
        ∀ record ∈ h.records, HoldsIntegers record name := by
    intro listed chunk present
    have declared := grown.declared chunk present name listed field.ordinary
    obtain ⟨taken, there, same⟩ := grown.fields chunk present
    rw [same] at declared ⊢
    exact field.indexed taken there declared
  have perm := grown.stored.returned_perm lawful (by rw [grown.records]; exact few) parsed (by
    intro other srch looked listed
    obtain ⟨rfl, rfl⟩ := (searches other srch).mp looked
    obtain ⟨chunk, present⟩ := exists_mem_of_ne_nil _ grown.held
    rw [fSearchVal_integers integers]
    exact ⟨rfl, (indexed listed chunk present).2.1, fun _ => field.ordinary⟩)
  simp only at perm
  generalize marks : markIndexed (queueOf store.built) (querySearches env
    (.object [(name, .int wanted)])) = marked at perm
  have looked : ∀ other srch, marked.lookup other = some srch ↔ other = name ∧
      srch = { fSearchVal env (.int wanted) with isIndexed := decide (name ∈ store.names) } := by
    intro other srch
    have queue : (queueOf store.built).map Prod.fst = store.names := by
      rw [← store.built_names]
      simp [queueOf, Function.comp_def]
    have flagged : (if name ∈ store.names then
          { fSearchVal env (.int wanted) with isIndexed := true }
          else fSearchVal env (.int wanted)) =
        { fSearchVal env (.int wanted) with isIndexed := decide (name ∈ store.names) } := by
      split
      · rename_i listed
        rw [decide_eq_true listed]
      · rename_i missing
        rw [decide_eq_false missing, ← fSearchVal_isIndexed env (.int wanted)]
    rw [← marks, lookup_markIndexed, Option.map_eq_some_iff, queue, ← flagged]
    constructor
    · rintro ⟨raw, found, rfl⟩
      obtain ⟨rfl, rfl⟩ := (searches other raw).mp found
      exact ⟨rfl, rfl⟩
    · rintro ⟨rfl, rfl⟩
      exact ⟨_, (searches other _).mpr ⟨rfl, rfl⟩, rfl⟩
  have meets : meetsRest env store.format.block marked = fun record =>
      matchOne env record name (fSearchVal env (.int wanted)) := by
    funext record
    rw [Bool.eq_iff_iff, meetsRest, all_entries (p := fun name srch =>
      settled store.format.block srch || matchOne env record name srch), block]
    constructor
    · intro all
      have met := all name _ ((looked name _).mpr ⟨rfl, rfl⟩)
      rwa [settled, Bool.not_true, Bool.false_and, Bool.false_and, Bool.false_or,
        matchOne_isIndexed] at met
    · intro met other srch there
      obtain ⟨rfl, rfl⟩ := (looked other srch).mp there
      rw [matchOne_isIndexed, met, Bool.or_true]
  rw [meets] at perm
  apply perm.trans
  rw [← grown.records]
  apply filter_groups_perm_iff.mpr
  rintro chunk present ⟨record, inside, met⟩
  rw [selects, all_entries (p := fun name srch => !srch.isIndexed || hits env chunk name srch)]
  intro other srch there
  obtain ⟨rfl, rfl⟩ := (looked other srch).mp there
  by_cases listed : other ∈ store.names
  · obtain ⟨numeric, _, plain, held⟩ := indexed listed chunk present
    have within : record ∈ h.records := by
      rw [← grown.records]
      exact mem_flatMap.mpr ⟨chunk, present, inside⟩
    have range := integers_range lawful.shape parsed mem_cons_self integers
    have hit : indexHit env chunk.fields record other (fSearchVal env (.int wanted)) = _ :=
      indexHit_integer integers range plain numeric (held record within)
    rw [matchOne_integer integers (held record within)] at met
    have found : hits env chunk other (fSearchVal env (.int wanted)) = true := by
      rw [hits_eq chunk.fields chunk.records, any_eq_true]
      refine ⟨record, inside, ?_⟩
      rw [hit]
      exact holdsInteger_mono (fun i wanted => by rw [wanted, Bool.true_or]) met
    exact Bool.or_eq_true_iff.mpr (.inr found)
  · rw [decide_eq_false listed]
    rfl

/-- Along every run of requests that each are of version two and declare the indexes of the file, to
a name without a file, nothing that was taken is lost: a search without conditions returns all
objects in order, and the search for an integer all records that match. -/
theorem appends_keep_records (lawful : env.Lawful) {s : State} (absent : s.files.read path = none)
    (reached : Reaches (History.step env)
      (fun h call => ∃ settings items, Appends env path h call settings items) { state := s } h) :
    (∀ jsonSearch, IsEmptyQuery env jsonSearch →
        returned env h.state.files path jsonSearch = h.records) ∧
      ∀ jsonSearch name wanted,
        env.parseJsonData jsonSearch = some (.object [(name, .int wanted)]) → IntegerField h name →
          (returned env h.state.files path jsonSearch).Perm (h.records.filter (fun record =>
            matchOne env record name (fSearchVal env (.int wanted)))) := by
  obtain ⟨kept, few⟩ := reached.invariant (fun h => Kept env path h ∧ h.records.length < 2 ^ 60)
    ⟨.inl (.of_absent absent), by simp [History.records]⟩ (by
      rintro h call next ⟨kept, few⟩ ⟨settings, items, appends⟩ step
      obtain rfl := Option.some.inj step
      refine ⟨kept.after lawful appends, ?_⟩
      have total := appends.few
      have objects : (items.filter isObject).length ≤ items.length :=
        length_filter_le _ _
      by_cases ok : (call.run env h.state).response.status = .ok
      · rw [History.records, appends.write.after_taken ok, flatMap_append,
          length_append]
        unfold History.records at total
        simp only [flatMap_cons, flatMap_nil, append_nil]
        omega
      · rw [History.records, History.after, if_neg ok, append_nil]
        exact few)
  rcases kept with bare | ⟨header, kind, store, grown⟩
  · have nothing : ∀ jsonSearch, returned env h.state.files path jsonSearch = [] := by
      intro jsonSearch
      rw [returned, bare.searches]
      rfl
    rw [bare.nothing]
    exact ⟨fun jsonSearch _ => nothing jsonSearch, fun jsonSearch name wanted _ _ => by
      rw [nothing]
      exact List.Perm.refl _⟩
  · refine ⟨fun jsonSearch empty => ?_, fun jsonSearch name wanted parsed field => ?_⟩
    · rw [grown.stored.returned_all lawful empty, grown.records]
    · exact grown.returned_integer lawful few parsed field

/-- Settings with one more index and compressed indexes. -/
def moreSettings : Json :=
  .object [(compressIndexName, .bool true),
    (indexName, .array [.object [([110], .string sampleName)], .object [([110], .string [98])]]),
    (versionName, .int 2)]

/-- A second request that declares one more index and compresses the indexes keeps the record of the
first one. -/
theorem appends_keep_records_sample :
    let h := (sampleHistory.after Reference.env (indexedCall 5)).after Reference.env
      (appendCall [48] (Reference.env.text moreSettings) [sampleRecord (.int 3)])
    h.records.length = 2 ∧
      returned Reference.env h.state.files (samplePathOf [97]) [] = h.records := by
  have first : Appends Reference.env (samplePathOf [97]) sampleHistory (indexedCall 5)
      (readSettings indexedSettings) [sampleRecord (.int 5)] :=
    ⟨⟨⟨Reference.env.text indexedSettings, Reference.env.text (.array [sampleRecord (.int 5)]),
      indexedSettings, by decide +kernel, parse_text (by decide), rfl,
      parse_text (by decide)⟩, by decide⟩, by decide, by decide, by decide +kernel, by decide,
      by decide +kernel, fun _ => rfl, by decide⟩
  have second : Appends Reference.env (samplePathOf [97])
      (sampleHistory.after Reference.env (indexedCall 5))
      (appendCall [48] (Reference.env.text moreSettings) [sampleRecord (.int 3)])
      (readSettings moreSettings) [sampleRecord (.int 3)] :=
    ⟨⟨⟨Reference.env.text moreSettings, Reference.env.text (.array [sampleRecord (.int 3)]),
      moreSettings, by decide +kernel, parse_text (by decide), rfl,
      parse_text (by decide)⟩, by decide⟩, by decide, by decide, by decide +kernel,
      by decide +kernel, by decide +kernel, fun _ => rfl, by decide⟩
  have reached : Reaches (History.step Reference.env) (fun h call => ∃ settings items,
      Appends Reference.env (samplePathOf [97]) h call settings items) sampleHistory
      ((sampleHistory.after Reference.env (indexedCall 5)).after Reference.env
        (appendCall [48] (Reference.env.text moreSettings) [sampleRecord (.int 3)])) :=
    (Reaches.start.next (indexedCall 5) ⟨_, _, first⟩ rfl).next _ ⟨_, _, second⟩ rfl
  exact ⟨by decide +kernel,
    (appends_keep_records env_lawful (by decide) reached).1 [] (.inl rfl)⟩

/-- Two requests without settings: the second one replaces the first one. -/
theorem appends_keep_records_default :
    let call value := appendCall [48] [] [sampleRecord (.int value)]
    let h := (sampleHistory.after Reference.env (call 5)).after Reference.env (call 3)
    h.records.length = 2 ∧
      (returned Reference.env h.state.files (samplePathOf [97]) []).length = 1 := by
  decide +kernel

end RssDisk.Server
