import RssDisk.Index.Insert
import RssDisk.JManager.Query

/-!
# Appending to a database

An append reads the indexes of a stored database with blocks, numbers its own blocks behind the
stored ones, lays them out behind the data file and adds their entries to each index one by one. So
the stored database and the appended records together are a store again.
-/

namespace RssDisk.JManager

open Lib BTree Bitbase IndexUtility List AList Json MemoryMappedItem Multimap Store

variable {env : Env} {s : Store env} {files : Files} {file header : Bytes} {kind : Bytes → UInt8}
  {items : List Json} {settings : Settings}

theorem Stored.retrieveCompressedData_eq (zlib : env.ZlibInverse)
    (stored : Stored files file header kind s) (separate : s.format.separate = true)
    (block : s.format.block = true) :
    ∃ indices : UMap Bytes Bytes,
      retrieveCompressedData env files file = { size := s.data.length, indices } ∧
      indices.keys.Perm s.names ∧
      ∀ index ∈ s.indexes, indices.lookup index.1 = some (encodeEntries index.2) := by
  have head : files.read file = some (header ++ (s.title kind ++ [])) := by
    rw [stored.head, if_pos separate]
  have content : (MemoryMappedItem.read files file).data = header ++ (s.title kind ++ []) := by
    simp [MemoryMappedItem.read, head]
  obtain ⟨start, inside, _, marked, word, table, queue⟩ :=
    title_read kind stored.isHeader rfl rfl content stored.titleSmall
  obtain ⟨version, _, blocks, packed⟩ := s.format.word_spec
  have places := (section_read kind (s.title_eq kind) s.built_distinct header []
    stored.titleSmall).2
  have names : (queueOf s.built).map Prod.fst = s.names := by
    rw [← s.built_names]
    simp [queueOf, Function.comp_def]
  -- the blob that is kept for a name of the table
  let blobOf : Bytes × UInt32 → Bytes := fun entry =>
    let place := ((placeSections (queueOf s.built)
      (header.length + 11 + (tableOf kind s.built).length)).1.lookup entry.1).getD {}
    let blob := (read files file).retrieve place.offset.toNat place.size.toNat
    if s.format.compressIndex then env.decompressString blob else blob
  obtain ⟨there, others⟩ := lookup_foldl_insert blobOf (queueOf s.built)
    (by rw [names]; exact s.distinct) ∅
  refine ⟨(queueOf s.built).foldl (fun indices entry => indices.insert entry.1 (blobOf entry)) ∅,
    ?_, ?_, ?_⟩
  · simp only [retrieveCompressedData, start, head, Option.isSome_some, inside, marked, word,
      version, separate, blocks, block, table, queue, packed, stored.separate separate, and_self,
      ↓reduceIte]
    rfl
  · refine (perm_ext_iff_of_nodup (keys_nodup _) s.distinct).mpr (fun name => ?_)
    have listed : name ∈ s.indexes.map Prod.fst ↔ name ∈ (queueOf s.built).map Prod.fst := by
      rw [names]
      rfl
    rw [listed, ← AList.mem_keys, ← AList.lookup_isSome]
    constructor
    · intro found
      by_contra absent
      rw [others name absent] at found
      cases found
    · intro present
      obtain ⟨entry, within, rfl⟩ := mem_map.mp present
      rw [there entry within]
      rfl
  · intro index present
    have built := mem_map_of_mem (f := fun index : Bytes × List IndexEntry => (index.1,
      if s.format.compressIndex then env.compress (encodeEntries index.2)
      else encodeEntries index.2)) present
    obtain ⟨place, looked, _, blob⟩ := places _ built
    have listed := mem_map_of_mem
      (f := fun index : Bytes × Bytes => (index.1, UInt32.ofNat index.2.length)) built
    have found := there _ listed
    simp only at found looked blob
    rw [found]
    have read := retrieve_whole (m := read files file) rfl rfl
      place.offset.toNat place.size.toNat
    rw [content, blob] at read
    simp only [blobOf, looked, Option.getD_some, read]
    split
    · rw [zlib]
    · rfl

theorem internalEntries_append (left right : List Piece) :
    internalEntries 0 (left ++ right) =
      internalEntries 0 left ++ internalEntries (UInt32.ofNat left.length) right := by
  rw [internalEntries, internalEntries, internalEntries, zipIdx_append, map_append,
    Nat.zero_add, zipIdx_eq_map_add (i := left.length), map_map]
  congr 1
  refine map_congr_left (fun entry _ => ?_)
  simp

theorem blockSize_true (settings : Settings) : blockSize settings true ≠ 0 := by
  unfold blockSize
  split
  · decide
  · grind

theorem formatOf_true (version : settings.version = 2) :
    formatOf settings true = ⟨true, false, true, settings.compressIndex⟩ := by
  simp [formatOf, version, blockSize_true]

theorem merge_index {old new : List Chunk} {entries : List IndexEntry}
    {name : Bytes} {added : Multimap} (sorted : Sorted entries)
    (exact : entries.Perm (indexEntries env name (pieces env true 0 old)))
    (addition : added.Perm (entriesOf env true name
      (pieces env true (bodyOf env true old).length new)))
    (few : (recordsOf old).length + (recordsOf new).length < 2 ^ 60) :
    ∃ grown, added.entries.foldl addToIndex (encodeEntries entries) = encodeEntries grown ∧
      Sorted grown ∧ grown.Perm (indexEntries env name (pieces env true 0 (old ++ new))) := by
  have addition := entries_perm addition
  have oldFew := indexEntries_length env name 0 true old
  have newFew := indexEntries_length env name (bodyOf env true old).length true new
  obtain ⟨grown, blob, stays, perm⟩ := addToIndex_foldl sorted added.entries
    (by rw [exact.length_eq, addition.length_eq]; omega)
  refine ⟨grown, blob, stays, perm.trans ?_⟩
  rw [pieces_append, Nat.zero_add, indexEntries, flatMap_append]
  exact exact.append addition

theorem merge_internal {old new : List Chunk}
    (few : old.length + new.length < 2 ^ 32) :
    (Multimap.entries (internalEntries (UInt32.ofNat old.length)
        (pieces env true (bodyOf env true old).length new))).foldl addToIndex
      (encodeEntries (Multimap.entries (internalEntries 0 (pieces env true 0 old)))) =
      encodeEntries (Multimap.entries (internalEntries 0 (pieces env true 0 (old ++ new)))) := by
  have whole : Multimap.entries (internalEntries 0 (pieces env true 0 (old ++ new))) =
      Multimap.entries (internalEntries 0 (pieces env true 0 old)) ++
        Multimap.entries (internalEntries (UInt32.ofNat old.length)
          (pieces env true (bodyOf env true old).length new)) := by
    rw [pieces_append, Nat.zero_add, internalEntries_append, pieces_length, Multimap.entries,
      map_append]
    rfl
  have growing := internalEntries_growing 0 (pieces env true 0 (old ++ new))
    (by rw [pieces_length, length_append, UInt32.toNat_zero]; omega)
  rw [whole] at growing ⊢
  refine addToIndex_foldl_last _ ?_ ?_ growing
  · exact (pairwise_append.mp growing).1.imp Int64.le_of_lt
  · simp only [Multimap.entries, internalEntries, length_map, length_zipIdx,
      pieces_length]
    omega

theorem buildContent_grown {size : Nat} {indices : UMap Bytes Bytes}
    (retrieved : retrieveCompressedData env files file = { size, indices }) (some : 0 < size)
    (kept : indices.emplace internalIdx [] = indices) :
    buildContent env files file settings (.array items) true =
      let st := gather env settings.indexedFields (blockSize settings true)
        (UInt32.ofNat (calculateIndexSize ((indices.lookup internalIdx).getD [])))
        (items.filter isObject)
      { title := magic ++ u32ToChars (versionWord settings.version false true
            settings.compressIndex) ++
          encodeIndexes settings.indexedFields (appendIndexes env settings.compressIndex indices
            (rebuild (blockSize settings true) (UInt32.ofNat size) st))
        body := st.body
        version := settings.version
        append := true } := by
  have blocks := blockSize_true settings
  simp only [blockSize, true_and, ne_eq] at blocks
  simp [buildContent, retrieved, some, kept, gather, rebuild, blockSize, blocks]

theorem Stored.buildContent_body (lawful : env.Lawful) (stored : Stored files file header kind s)
    (separate : s.format.separate = true) (block : s.format.block = true) (held : s.chunks ≠ [])
    (settings : Settings) (good : Records env (items.filter isObject)) :
    (buildContent env files file settings (.array items) true).body =
        bodyOf env true (chunksOf env settings.indexedFields (blockSize settings true)
          (items.filter isObject)) ∧
      (buildContent env files file settings (.array items) true).version = settings.version ∧
      (buildContent env files file settings (.array items) true).append = true := by
  obtain ⟨indices, retrieved, _, blobs⟩ :=
    stored.retrieveCompressedData_eq lawful.zlib separate block
  have kept : indices.emplace internalIdx [] = indices := by
    rw [UMap.emplace, blobs _ (s.internal block)]
    rfl
  have some : 0 < s.data.length := by
    apply length_pos_iff.mpr
    exact fun empty => held (chunks_eq_nil lawful.zlib empty)
  rw [buildContent_grown retrieved some kept]
  simp only [gather_body good, decide_eq_true (blockSize_true settings), and_self]

theorem buildContent_append (lawful : env.Lawful) (stored : Stored files file header kind s)
    (separate : s.format.separate = true) (block : s.format.block = true)
    (plain : s.format.compressData = false) (held : s.chunks ≠ [])
    (good : Records env (items.filter isObject)) (version : settings.version = 2)
    (reserved : settings.indexedFields.lookup internalIdx = none)
    (small : s.body.length + (bodyOf env true (chunksOf env settings.indexedFields
      (blockSize settings true) (items.filter isObject))).length < 2 ^ 32)
    (few : s.records.length + (items.filter isObject).length < 2 ^ 60) :
    ∃ s' : Store env, s'.format = formatOf settings true ∧
      s'.chunks = s.chunks ++ chunksOf env settings.indexedFields (blockSize settings true)
        (items.filter isObject) ∧
      s'.names.Perm s.names ∧
      buildContent env files file settings (.array items) true =
        { title := s'.title (kindOf settings.indexedFields)
          body := bodyOf env true (chunksOf env settings.indexedFields (blockSize settings true)
            (items.filter isObject))
          version := 2, append := true } := by
  obtain ⟨indices, retrieved, keys, blobs⟩ :=
    stored.retrieveCompressedData_eq lawful.zlib separate block
  have blocks := blockSize_true settings
  have format := formatOf_true version
  generalize new : chunksOf env settings.indexedFields (blockSize settings true)
    (items.filter isObject) = added at small ⊢
  have newOk := chunksOf_ok good settings.indexedFields (blockSize settings true)
  have newRecords := recordsOf_chunksOf env settings.indexedFields (blockSize settings true)
    (items.filter isObject)
  rw [new] at newOk newRecords
  have body : s.body = bodyOf env true s.chunks := by rw [body, block]
  have data : s.data = s.body := by rw [Store.data, plain]; rfl
  have parts : s.parts = pieces env true 0 s.chunks := by rw [parts, block]
  rw [body] at small
  have oldCount := length_le_bodyOf lawful.zlib true s.ok
  have newCount := length_le_bodyOf lawful.zlib true (fun chunk present => (newOk chunk present).1)
  have count := length_pos_iff.mpr held
  have internalBlob := blobs _ (s.internal block)
  have first : calculateIndexSize ((indices.lookup internalIdx).getD []) = s.chunks.length := by
    rw [internalBlob, Option.getD_some, calculateIndexSize, encodeEntries_length_div]
    simp [Multimap.entries, internalEntries, pieces_length]
  have number : (UInt32.ofNat s.chunks.length).toNat = s.chunks.length :=
    UInt32.toNat_ofNat_of_lt' (show _ < 2 ^ 32 by omega)
  obtain ⟨indexed, internal⟩ := rebuild_blocks blocks reserved good
    (UInt32.ofNat s.chunks.length) (bodyOf env true s.chunks).length
    (by rw [new, number]; omega)
  rw [new] at indexed internal
  generalize indexes : rebuild (blockSize settings true)
    (UInt32.ofNat (bodyOf env true s.chunks).length)
    (gather env settings.indexedFields (blockSize settings true)
      (UInt32.ofNat s.chunks.length) (items.filter isObject)) = rebuilt at indexed internal
  -- each stored index with the entries of the appended blocks
  have merged : ∀ entry ∈ env.order indices, ∃ grown,
      (index rebuilt entry.1).entries.foldl addToIndex entry.2 = encodeEntries grown ∧
      Sorted grown ∧
      (entry.1 ≠ internalIdx → grown.Perm (indexEntries env entry.1
        (pieces env true 0 (s.chunks ++ added)))) ∧
      (entry.1 = internalIdx → grown = Multimap.entries (internalEntries 0
        (pieces env true 0 (s.chunks ++ added)))) := by
    rintro ⟨name, blob⟩ walked
    have looked := (mem_order lawful.walk).mp walked
    have listed : name ∈ s.names := by
      rw [← keys.mem_iff, ← AList.mem_keys, ← AList.lookup_isSome, looked]
      rfl
    obtain ⟨⟨name, entries⟩, present, rfl⟩ := mem_map.mp listed
    have same := (blobs _ present).symm.trans looked
    obtain rfl := Option.some.inj same
    by_cases whole : name = internalIdx
    · subst whole
      have alone := inj_on_of_nodup_map s.distinct present (s.internal block) rfl
      obtain rfl := (Prod.mk.inj alone).2
      refine ⟨_, ?_, ?_, fun other => absurd rfl other, fun _ => rfl⟩
      · rw [internal]
        exact merge_internal (by omega)
      · exact (internalEntries_growing 0 _ (by
          rw [pieces_length, length_append, UInt32.toNat_zero]; omega)).imp Int64.le_of_lt
    · have exact := s.exact _ present (fun _ => whole)
      rw [block] at exact
      obtain ⟨grown, blob, stays, perm⟩ := merge_index (s.sorted _ present) exact
        (indexed name whole).2 (by
          have total : s.records.length = (recordsOf s.chunks).length := rfl
          rw [newRecords]
          omega)
      exact ⟨grown, blob, stays, fun _ => perm, fun same => absurd same whole⟩
  choose! grown blob stays exact whole using merged
  have walked := order_names lawful.walk indices
  have names : ((env.order indices).map (fun entry => (entry.1, grown entry))).map Prod.fst =
      (env.order indices).map Prod.fst := by
    simp [Function.comp_def]
  let s' : Store env := {
    format := formatOf settings true
    chunks := s.chunks ++ added
    indexes := (env.order indices).map (fun entry => (entry.1, grown entry))
    ok := by
      intro chunk present
      rcases mem_append.mp present with old | new
      · exact s.ok chunk old
      · exact (newOk chunk new).1
    single := by simp [format]
    distinct := by
      rw [names, walked.nodup_iff]
      exact keys_nodup _
    sorted := by
      intro index present
      obtain ⟨entry, inside, rfl⟩ := mem_map.mp present
      exact stays entry inside
    exact := by
      intro index present ordinary
      obtain ⟨entry, inside, rfl⟩ := mem_map.mp present
      rw [format] at ordinary ⊢
      exact exact entry inside (ordinary rfl)
    internal := by
      intro _
      have inside := (mem_order lawful.walk).mpr internalBlob
      rw [← whole _ inside rfl]
      exact mem_map_of_mem inside }
  refine ⟨s', rfl, rfl, ?_, ?_⟩
  · rw [Store.names, names]
    exact walked.trans keys
  · have built : s'.built = appendIndexes env settings.compressIndex indices rebuilt := by
      rw [built, appendIndexes, map_map]
      refine map_congr_left (fun entry inside => ?_)
      have blob := blob entry inside
      simp only [index] at blob
      simp [blob, s', format]
    have kept : indices.emplace internalIdx [] = indices := by
      rw [UMap.emplace, internalBlob]
      rfl
    have gathered := gather_body good settings.indexedFields (blockSize settings true)
      (UInt32.ofNat s.chunks.length)
    rw [decide_eq_true blocks, new] at gathered
    have size : s.data.length = (bodyOf env true s.chunks).length := by rw [data, body]
    rw [buildContent_grown retrieved (by rw [size]; omega) kept, first, size]
    simp only [indexes, gathered, title, built, encodeIndexes_eq, version]
    simp only [s', format, Format.word, Format.version, ↓reduceIte]
    rfl

end RssDisk.JManager
