import RssDisk.JManager.Store

/-!
# A new database

What `createDatabaseContent` builds for a file that has no blocks to append to is the title and
the data of a store: its chunks are the records one by one or in blocks, and its indexes are the
declared ones, with the index over all blocks when there are blocks.
-/

namespace RssDisk.JManager

open Lib BTree Bitbase IndexUtility List Json Store

variable (env : Env)

/-- The threshold of blocks that a write uses; an append always makes blocks. -/
def blockSize (settings : Settings) (append : Bool) : Int :=
  if append ∧ settings.compressParticularlyData = 0 then defaultCompressionThreshold
  else settings.compressParticularlyData

/-- The chunks of some records. -/
def chunksOf (fields : UMap Bytes BaseType) (particularly : Int) (records : List Json) :
    List Chunk :=
  if particularly = 0 then records.map (fun record => ⟨[record], fields⟩)
  else (splitBlocks env (threshold particularly) [] records).map (⟨·, fields⟩)

/-- The indexes of a new file: the declared ones and, with blocks, that over all of them. -/
def newFields (fields : UMap Bytes BaseType) (particularly : Int) : UMap Bytes BaseType :=
  if particularly ≠ 0 then fields.emplace internalIdx .none else fields

/-- The byte of the kind of a declared index. -/
def kindOf (fields : UMap Bytes BaseType) (name : Bytes) : UInt8 :=
  ((fields.lookup name).getD .none).toByte

def formatOf (settings : Settings) (append : Bool) : Format where
  separate := settings.version = 2
  compressData := settings.compressData && blockSize settings append = 0
  block := blockSize settings append ≠ 0
  compressIndex := settings.compressIndex

/-- The loop over the records and the closing of the last block. -/
def gather (fields : UMap Bytes BaseType) (particularly : Int) (first : UInt32)
    (records : List Json) : Build :=
  let st := records.foldl (addItem env fields particularly) { blockNumber := first }
  if particularly ≠ 0 ∧ st.jsonData ≠ [] then closeBlock env st else st

/-- The indexes after the rebuild. -/
def rebuild (particularly : Int) (start : UInt32) (st : Build) : UMap Bytes Multimap :=
  if particularly ≠ 0 then
    (st.blockData.foldl (rebuildBlock st.rebuildHelper) (st.indexexStruct, start)).1
  else st.indexexStruct

variable {env} {chunks : List Chunk} {particularly : Int} {records : List Json}
  {settings : Settings}

theorem splitBlocks_flatten (env : Env) (threshold : Nat) (opened records : List Json) :
    (splitBlocks env threshold opened records).flatten = opened ++ records := by
  induction records generalizing opened with
  | nil =>
    rw [splitBlocks]
    split
    · rename_i none
      simp [none]
    · simp
  | cons record records ih =>
    rw [splitBlocks]
    split
    · grind
    · rw [ih]
      simp

theorem splitBlocks_ne_nil (threshold : Nat) (opened records : List Json) :
    ∀ block ∈ splitBlocks env threshold opened records, block ≠ [] := by
  induction records generalizing opened with
  | nil =>
    rw [splitBlocks]
    split
    · grind
    · rename_i some
      intro block present
      rw [mem_singleton] at present
      exact present ▸ some
  | cons record records ih =>
    rw [splitBlocks]
    split
    · intro block present
      rcases mem_cons.mp present with rfl | later
      · simp
      · exact ih [] block later
    · exact ih _

theorem recordsOf_chunksOf (env : Env) (fields : UMap Bytes BaseType) (particularly : Int)
    (records : List Json) : recordsOf (chunksOf env fields particularly records) = records := by
  unfold recordsOf chunksOf
  split
  · rw [flatMap_map]
    exact flatMap_singleton' records
  · rw [flatMap_map, flatMap_id']
    exact splitBlocks_flatten env _ [] records

theorem chunksOf_ok (good : Records env records) (fields : UMap Bytes BaseType) (particularly : Int)
    : ∀ chunk ∈ chunksOf env fields particularly records, chunk.Ok env ∧ chunk.fields = fields := by
  intro chunk present
  have inside : ∀ record ∈ chunk.records, record ∈ records := by
    intro record within
    rw [← recordsOf_chunksOf env fields particularly records]
    exact mem_flatMap_of_mem present within
  refine ⟨⟨?_, good.subset inside⟩, ?_⟩
  · unfold chunksOf at present
    split at present
    · obtain ⟨record, _, rfl⟩ := mem_map.mp present
      exact cons_ne_nil _ _
    · obtain ⟨block, within, rfl⟩ := mem_map.mp present
      exact splitBlocks_ne_nil _ _ _ block within
  · unfold chunksOf at present
    split at present <;> obtain ⟨_, _, rfl⟩ := mem_map.mp present <;> rfl

theorem chunksOf_single (fields : UMap Bytes BaseType) (records : List Json) :
    ∀ chunk ∈ chunksOf env fields 0 records, ∃ record, chunk.records = [record] := by
  intro chunk present
  rw [chunksOf, if_pos rfl] at present
  obtain ⟨record, _, rfl⟩ := mem_map.mp present
  exact ⟨record, rfl⟩

theorem length_le_bodyOf (zlib : env.ZlibInverse) (block : Bool)
    (ok : ∀ chunk ∈ chunks, chunk.Ok env) :
    chunks.length ≤ (bodyOf env block chunks).length := by
  induction chunks with
  | nil => exact Nat.le_refl _
  | cons chunk chunks ih =>
    have rest := ih (fun other present => ok other (mem_cons_of_mem _ present))
    have some := length_pos_of_ne_nil
      ((ok chunk mem_cons_self).segment_ne_nil zlib block)
    grind [bodyOf]

theorem internalEntries_growing (first : UInt32) (parts : List Piece)
    (few : first.toNat + parts.length < 2 ^ 32) :
    (Multimap.entries (internalEntries first parts)).Pairwise (fun a b => a.i < b.i) := by
  rw [Multimap.entries, internalEntries, map_map, pairwise_map]
  have ordered : parts.zipIdx.Pairwise (fun a b => a.2 < b.2) := by
    rw [← pairwise_map (f := Prod.snd), zipIdx_map_snd]
    exact pairwise_lt_range'
  refine (List.Pairwise.and_mem.mp ordered).imp ?_
  rintro a b ⟨inside, inside', before⟩
  have bound := snd_lt_of_mem_zipIdx inside'
  simp only [Function.comp_apply]
  rw [Int64.lt_iff_toInt_lt, number_key (by omega), number_key (by omega)]
  omega

theorem sorted_of_ordered {map : Multimap} (ordered : map.Ordered) : Sorted map.entries := by
  rw [Sorted, Multimap.entries, pairwise_map]
  exact ordered

theorem entries_perm {map : Multimap} {rebuilded : Bool} {name : Bytes} {parts : List Piece}
    (perm : map.Perm (entriesOf env rebuilded name parts)) :
    map.entries.Perm (indexEntries env name parts) := by
  rw [← entries_entriesOf rebuilded]
  exact perm.map _

theorem blockEntries_undeclared {first : UInt32} {name : Bytes} {k : Nat}
    (undeclared : ∀ chunk ∈ chunks, chunk.fields.lookup name = none) :
    blockEntries env first name chunks k = [] := by
  rw [blockEntries, flatMap_eq_nil_iff]
  rintro ⟨chunk, i⟩ present
  have none := undeclared chunk (fst_mem_of_mem_zipIdx present)
  have keys : chunk.keys env name = [] := by
    rw [Chunk.keys, filterMap_eq_nil_iff]
    intro record _
    simp [recordKey, fieldKey, none]
  simp [keys]

theorem gather_gathered (fields : UMap Bytes BaseType) (blocks : particularly ≠ 0)
    (good : Records env records) (first : UInt32) :
    Gathered env fields first (chunksOf env fields particularly records) []
      (gather env fields particularly first records) := by
  have empty : Gathered env fields first [] [] { blockNumber := first } := by
    refine ⟨rfl, rfl, by simp, rfl, fun name => ?_, fun name entry present => ?_⟩
    · rw [blockEntries_concat_empty]
      exact ⟨List.Pairwise.nil, List.Perm.refl _⟩
    · rw [blockEntries_concat_empty] at present
      cases present
  have gathered := empty.addItems blocks records good.objects good.names
  rw [nil_append] at gathered
  simp only [gather, chunksOf, blocks, ne_eq, not_false_eq_true, true_and, ↓reduceIte]
  exact gathered

theorem gather_plain (fields : UMap Bytes BaseType) (good : Records env records) (first : UInt32) :
    (gather env fields 0 first records).body =
        bodyOf env false (chunksOf env fields 0 records) ∧
      ∀ name, (index (gather env fields 0 first records).indexexStruct name).Ordered ∧
        (index (gather env fields 0 first records).indexexStruct name).Perm
          (entriesOf env false name (pieces env false 0 (chunksOf env fields 0 records))) :=
  addItems_plain fields records [] good.names { blockNumber := first } rfl rfl
    (fun _ => ⟨List.Pairwise.nil, List.Perm.refl _⟩)

theorem gather_body (good : Records env records) (fields : UMap Bytes BaseType) (particularly : Int)
    (first : UInt32) :
    (gather env fields particularly first records).body =
      bodyOf env (particularly ≠ 0) (chunksOf env fields particularly records) := by
  by_cases plain : particularly = 0
  · grind [gather_plain]
  · rw [decide_eq_true plain]
    exact (gather_gathered fields plain good first).body

theorem rebuild_blocks {fields : UMap Bytes BaseType} (blocks : particularly ≠ 0)
    (reserved : fields.lookup internalIdx = none) (good : Records env records) (first : UInt32)
    (start : Nat) (few : first.toNat + (chunksOf env fields particularly records).length < 2 ^ 32) :
    let indexes := rebuild particularly (UInt32.ofNat start)
      (gather env fields particularly first records)
    let parts := pieces env true start (chunksOf env fields particularly records)
    (∀ name, name ≠ internalIdx → (index indexes name).Ordered ∧
        (index indexes name).Perm (entriesOf env true name parts)) ∧
      index indexes internalIdx = internalEntries first parts := by
  intro indexes parts
  have gathered := gather_gathered fields blocks good first
  have undeclared : blockEntries env first internalIdx
      (chunksOf env fields particularly records) 0 = [] :=
    blockEntries_undeclared (fun chunk present => by
      rw [(chunksOf_ok good fields particularly chunk present).2, reserved])
  have rebuilt := rebuild_spec (gather env fields particularly first records).rebuildHelper first
    start (chunksOf env fields particularly records) [] (by simpa using few)
    (gather env fields particularly first records).indexexStruct
    (fun name _ entry present => by
      have helped := gathered.helped name
      rw [blockEntries_concat_empty] at helped
      exact helped entry present)
    (fun name _ => by
      have indexed := gathered.indexed name
      rw [blockEntries_concat_empty] at indexed
      exact indexed)
    (by
      have indexed := (gathered.indexed internalIdx).2
      rw [blockEntries_concat_empty, undeclared] at indexed
      exact indexed.eq_nil)
  simp only [length_nil, bodyOf, flatMap_nil, Nat.add_zero, nil_append] at rebuilt
  rw [← gathered.blockData] at rebuilt
  simp only [indexes, rebuild, blocks, ne_eq, not_false_eq_true, ↓reduceIte]
  exact rebuilt

theorem order_names (walk : env.WalksAll) {α : Type} (map : UMap Bytes α) :
    ((env.order map).map Prod.fst).Perm map.keys := by
  have perm := (walk map).map Prod.fst
  rw [map_map] at perm
  exact perm

/-- The indexes of a new file as they are built. -/
def newEntries (env : Env) (fields : UMap Bytes BaseType) (indexes : UMap Bytes Multimap) :
    List (Bytes × List IndexEntry) :=
  (env.order fields).map (fun field => (field.1, (index indexes field.1).entries))

theorem exists_store (walk : env.WalksAll) (format : Format) (ok : ∀ chunk ∈ chunks, chunk.Ok env)
    (single : format.block = false → ∀ chunk ∈ chunks, ∃ record, chunk.records = [record])
    (fields : UMap Bytes BaseType) {indexes : UMap Bytes Multimap}
    (sorted : ∀ name, Sorted (index indexes name).entries)
    (exact : ∀ name, (format.block = true → name ≠ internalIdx) →
      (index indexes name).entries.Perm (indexEntries env name (pieces env format.block 0 chunks)))
    (internal : format.block = true → internalIdx ∈ fields.keys ∧
      index indexes internalIdx = internalEntries 0 (pieces env true 0 chunks)) :
    ∃ s : Store env, s.format = format ∧ s.chunks = chunks ∧
      s.indexes = newEntries env fields indexes := by
  have names := order_names walk fields
  have mapped : (newEntries env fields indexes).map Prod.fst = (env.order fields).map Prod.fst := by
    simp [newEntries, Function.comp_def]
  refine ⟨⟨format, chunks, newEntries env fields indexes, ok, single, ?_, ?_, ?_, ?_⟩, rfl,
    rfl, rfl⟩
  · rw [mapped, names.nodup_iff]
    exact fields.nodupKeys
  · intro entry present
    obtain ⟨field, _, rfl⟩ := mem_map.mp present
    exact sorted field.1
  · intro entry present ordinary
    obtain ⟨field, _, rfl⟩ := mem_map.mp present
    exact exact field.1 ordinary
  · intro block
    obtain ⟨declared, entries⟩ := internal block
    obtain ⟨field, present, same⟩ := mem_map.mp (names.mem_iff.mpr declared)
    rw [← entries, ← same]
    exact mem_map_of_mem present

theorem createDatabaseContent_false (env : Env) (files files' : Files)
    (file file' jsonData jsonSettings : Bytes) :
    createDatabaseContent env files file jsonData jsonSettings false =
      createDatabaseContent env files' file' jsonData jsonSettings false := by
  simp [createDatabaseContent, buildContent]

theorem buildContent_fresh {items : List Json} {append : Bool} {files : Files} {file : Bytes}
    (fresh : append = true → (retrieveCompressedData env files file).size = 0) :
    buildContent env files file settings (.array items) append =
      let st := gather env settings.indexedFields (blockSize settings append) 0
        (items.filter isObject)
      let fields := newFields settings.indexedFields (blockSize settings append)
      { title := magic ++ u32ToChars (versionWord settings.version
            (formatOf settings append).compressData (formatOf settings append).block
            settings.compressIndex) ++
          encodeIndexes fields (newIndexes env settings.compressIndex fields
            (rebuild (blockSize settings append) 0 st))
        body := if (formatOf settings append).compressData then env.compress st.body else st.body
        version := settings.version
        append := false } := by
  have notAppend : (append && decide (0 < (if append = true then
      retrieveCompressedData env files file else {}).size)) = false := by
    cases append with
    | false => rfl
    | true => simp [fresh rfl]
  unfold buildContent
  simp only [notAppend, Bool.false_eq_true, ↓reduceIte, Bool.not_false, Bool.true_and]
  by_cases plain : blockSize settings append = 0
  all_goals
    have size := plain
    simp only [blockSize] at size
    simp [gather, rebuild, newFields, formatOf, size, blockSize]

theorem gather_new (zlib : env.ZlibInverse) {fields : UMap Bytes BaseType}
    (reserved : particularly ≠ 0 → fields.lookup internalIdx = none) (good : Records env records)
    (small : (gather env fields particularly 0 records).body.length < 2 ^ 32) :
    let indexes := rebuild particularly 0 (gather env fields particularly 0 records)
    let parts := pieces env (particularly ≠ 0) 0 (chunksOf env fields particularly records)
    (∀ name, Sorted (index indexes name).entries) ∧
      (∀ name, (particularly ≠ 0 → name ≠ internalIdx) →
        (index indexes name).entries.Perm (indexEntries env name parts)) ∧
      (particularly ≠ 0 → index indexes internalIdx = internalEntries 0 parts) := by
  intro indexes parts
  by_cases plain : particularly = 0
  · subst plain
    have indexed := (gather_plain fields good 0).2
    exact ⟨fun name => sorted_of_ordered (indexed name).1,
      fun name _ => entries_perm (indexed name).2, fun absurd => (absurd rfl).elim⟩
  · have count := length_le_bodyOf zlib true
      (fun chunk present => (chunksOf_ok good fields particularly chunk present).1)
    rw [(gather_gathered fields plain good 0).body] at small
    have few : (0 : UInt32).toNat + (chunksOf env fields particularly records).length < 2 ^ 32 := by
      grind
    obtain ⟨indexed, internal⟩ := rebuild_blocks plain (reserved plain) good 0 0 few
    simp only [parts, decide_eq_true plain]
    refine ⟨fun name => ?_, fun name ordinary => entries_perm (indexed name (ordinary plain)).2,
      fun _ => internal⟩
    by_cases same : name = internalIdx
    · have growing := internalEntries_growing 0 (pieces env true 0
        (chunksOf env fields particularly records)) (by rwa [pieces_length])
      rw [← internal] at growing
      rw [same]
      exact growing.imp Int64.le_of_lt
    · exact sorted_of_ordered (indexed name same).1

theorem formatOf_version (version : settings.version = 1 ∨ settings.version = 2) (append : Bool) :
    (formatOf settings append).version = settings.version := by
  rcases version with one | two
  · simp [Format.version, formatOf, one]
  · simp [Format.version, formatOf, two]

theorem buildContent_new (zlib : env.ZlibInverse) (walk : env.WalksAll) {items : List Json}
    (good : Records env (items.filter isObject)) {append : Bool} {files : Files} {file : Bytes}
    (fresh : append = true → (retrieveCompressedData env files file).size = 0)
    (version : settings.version = 1 ∨ settings.version = 2)
    (reserved : blockSize settings append ≠ 0 → settings.indexedFields.lookup internalIdx = none)
    (small : (gather env settings.indexedFields (blockSize settings append) 0
      (items.filter isObject)).body.length < 2 ^ 32) :
    ∃ s : Store env, s.format = formatOf settings append ∧
      s.chunks = chunksOf env settings.indexedFields (blockSize settings append)
        (items.filter isObject) ∧
      s.names.Perm (newFields settings.indexedFields (blockSize settings append)).keys ∧
      buildContent env files file settings (.array items) append =
        { title := s.title (kindOf (newFields settings.indexedFields (blockSize settings append)))
          body := s.data, version := settings.version, append := false } := by
  obtain ⟨sorted, exact, internal⟩ := gather_new zlib reserved good small
  have body := gather_body good settings.indexedFields (blockSize settings append) 0
  have version := formatOf_version version append
  obtain ⟨s, format, chunks, entries⟩ := exists_store walk (formatOf settings append)
    (fun chunk present => (chunksOf_ok good _ _ chunk present).1)
    (fun plain => by
      have none : blockSize settings append = 0 := by simpa [formatOf] using plain
      rw [none]
      exact chunksOf_single _ _)
    (newFields settings.indexedFields (blockSize settings append)) sorted
    (fun name ordinary => exact name (fun blocks => ordinary (decide_eq_true blocks)))
    (fun block => by
      have blocks : blockSize settings append ≠ 0 := by simpa [formatOf] using block
      refine ⟨?_, by simpa [blocks] using internal blocks⟩
      rw [newFields, if_pos blocks, ← AList.mem_keys, ← AList.lookup_isSome, UMap.lookup_emplace,
        if_pos rfl]
      rfl)
  have built : s.built = newIndexes env settings.compressIndex
      (newFields settings.indexedFields (blockSize settings append))
      (rebuild (blockSize settings append) 0 (gather env settings.indexedFields
        (blockSize settings append) 0 (items.filter isObject))) := by
    rw [built, entries, newEntries, newIndexes, map_map, format]
    rfl
  refine ⟨s, format, chunks, ?_, ?_⟩
  · rw [names, entries, newEntries, map_map]
    exact order_names walk _
  · rw [buildContent_fresh fresh, Store.title_eq, titleOf, Store.data, Store.body, built, format,
      chunks, Format.word, version]
    simp only [body]
    rfl

end RssDisk.JManager
