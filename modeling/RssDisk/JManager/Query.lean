import RssDisk.JManager.Build
import RssDisk.JManager.Select

/-!
# Searches on a written database

A query becomes one search for each field. On a database that was written by one call, `fetch`
returns the records that a declared index selects and that meet what is still checked, so what a
query returns can be compared with what it returns when its fields are not declared.
-/

namespace RssDisk.JManager

open Lib BTree Bitbase IndexUtility List Option Json

variable (env : Env)

/-- The records that `fetch` returns, without the header and not compressed. -/
def returned (files : Files) (file jsonSearch : Bytes) : List Json :=
  match env.parseJsonData (fetch env files file jsonSearch ⟨true, true⟩) with
  | some value => value.elements
  | none => []

/-- Files hold what was built for a name, as a write stores it: version one keeps the body behind
the title, version two in a data file, which is removed for an empty body. -/
structure Holds (files : Files) (file header : Bytes) (content : DatabaseContent) : Prop where
  head : files.read file =
    some (header ++ (content.title ++ if content.version = 1 then content.body else []))
  data : content.version = 2 → files.read (file ++ jExtensionName) =
    if content.body = [] then none else some content.body

/-- A database that was written by one call of `createDatabaseContent` and is held by files. -/
structure Written (files : Files) (file header jsonData jsonSettings : Bytes) (items : List Json)
    (settings : Settings) : Prop where
  data : env.parseJsonData jsonData = some (.array items)
  /-- The records are read back from their printed lists. -/
  reads : ∀ record ∈ items.filter isObject, env.readsBack record
  parsed : ∃ value, env.parseJsonData jsonSettings = some value ∧ readSettings value = settings
  holds : Holds files file header
    (createDatabaseContent env files file jsonData jsonSettings false)
  /-- The header has a number of days of at most nine characters. -/
  isHeader : IsHeader header
  version : settings.version = 1 ∨ settings.version = 2
  /-- With blocks the name of the index over all blocks is not declared. -/
  reserved : settings.compressParticularlyData ≠ 0 →
    settings.indexedFields.lookup internalIdx = none
  /-- The data section is below 4 GiB before it is compressed as a whole. -/
  bodySmall : (gather env settings.indexedFields settings.compressParticularlyData 0
    (items.filter isObject)).body.length < 2 ^ 32
  dataSmall :
    (createDatabaseContent env files file jsonData jsonSettings false).body.length < 2 ^ 32
  /-- The header and the title, which holds the indexes, are below 4 GiB. -/
  titleSmall : header.length +
    (createDatabaseContent env files file jsonData jsonSettings false).title.length < 2 ^ 32
  few : items.length < 2 ^ 60

/-- A chunk that the indexes among some declared ones select. -/
def selectedBy (fields : UMap Bytes BaseType) (searches : UMap Bytes Search) (chunk : Chunk) :
    Bool :=
  searches.entries.all (fun entry =>
    !(fields.lookup entry.1).isSome || hits env chunk entry.1 entry.2)

/-- A record that meets the searches that are checked when some indexes are declared. -/
def checkedBy (block : Bool) (fields : UMap Bytes BaseType) (searches : UMap Bytes Search)
    (record : Json) : Bool :=
  searches.entries.all (fun entry =>
    (!block && (fields.lookup entry.1).isSome && entry.2.tp ≠ .string) ||
      matchOne env record entry.1 entry.2)

variable {env} {query : Json}

theorem lookup_fSearch (query : Json) (searches : UMap Bytes Search) (name : Bytes) :
    (fSearch env query searches).lookup name = (searches.lookup name).or
      (if name ∈ query.getMemberNames then some (fSearchVal env (query.get name)) else none) := by
  unfold fSearch
  generalize query.getMemberNames = names
  induction names generalizing searches with
  | nil => simp
  | cons first names ih =>
    rw [foldl_cons, ih, UMap.lookup_emplace]
    by_cases same : name = first
    · grind
    · simp [same]

theorem fSearchVal_isIndexed (env : Env) (val : Json) : (fSearchVal env val).isIndexed = false := by
  have wanted (items : List Json) : (items.foldl (addWanted env) {}).isIndexed = false := by
    refine foldlRecOn (motive := fun s : Search => s.isIndexed = false) _ _ rfl ?_
    intro ind same it _
    unfold addWanted
    split
    · split <;> exact same
    · split <;> exact same
  have bounds : (addBounds env val {}).isIndexed = false := by
    unfold addBounds
    dsimp only
    repeat' split
    all_goals rfl
  have equal : ∀ ind : Search, (addEqual env ind val).isIndexed = ind.isIndexed := by
    intro ind
    unfold addEqual
    split <;> rfl
  unfold fSearchVal
  split
  · split
    · exact wanted _
    · simp only
      split
      · exact bounds
      · split
        · exact bounds
        · rw [equal, bounds]
  · exact equal _

theorem querySearches_eq {name : Bytes} {srch : Search}
    (looked : (querySearches env query).lookup name = some srch) :
    ∃ val, srch = fSearchVal env val := by
  have conditions : ∀ (items : List Json) (searches : UMap Bytes Search),
      (∀ name srch, searches.lookup name = some srch → ∃ val, srch = fSearchVal env val) →
      ∀ name srch, (items.foldl (fun searches it => fSearch env it searches) searches).lookup name =
        some srch → ∃ val, srch = fSearchVal env val := by
    intro items
    induction items with
    | nil => exact fun _ known => known
    | cons it items ih =>
      intro searches known
      refine ih _ (fun name srch looked => ?_)
      rw [lookup_fSearch] at looked
      cases before : searches.lookup name with
      | some old =>
        rw [before] at looked
        exact known name srch (by rw [before]; exact looked)
      | none =>
        rw [before, none_or] at looked
        split at looked
        · grind
        · cases looked
  have empty : ∀ name srch, (∅ : UMap Bytes Search).lookup name = some srch →
      ∃ val, srch = fSearchVal env val := fun name srch looked => by
    rw [AList.lookup_empty] at looked
    cases looked
  cases query with
  | array items => exact conditions _ ∅ empty name srch looked
  | object members => exact conditions [.object members] ∅ empty name srch looked
  | _ => exact empty name srch looked

theorem matchOne_isIndexed (item : Json) (name : Bytes) (srch : Search) (indexed : Bool) :
    matchOne env item name { srch with isIndexed := indexed } = matchOne env item name srch := by
  have elements : ∀ (items : List Json) (found : Bool),
      cmpArray env { srch with isIndexed := indexed } found items =
        cmpArray env srch found items := by
    intro items
    induction items with
    | nil => exact fun _ => rfl
    | cons it items ih =>
      intro found
      have one : cmpValue env { srch with isIndexed := indexed } it = cmpValue env srch it := rfl
      rw [cmpArray, cmpArray, one]
      cases cmpValue env srch it with
      | none => rfl
      | some hit => exact ih _
  unfold matchOne
  simp only [elements]
  rfl

theorem lookup_markIndexed (queue : List (Bytes × UInt32)) (searches : UMap Bytes Search)
    (name : Bytes) :
    (markIndexed queue searches).lookup name = (searches.lookup name).map (fun srch =>
      if name ∈ queue.map Prod.fst then { srch with isIndexed := true } else srch) := by
  induction queue generalizing searches with
  | nil =>
    simp [markIndexed]
  | cons entry queue ih =>
    have step : markIndexed (entry :: queue) searches = markIndexed queue
        ((searches.lookup entry.1).elim searches
          (fun s => searches.insert entry.1 { s with isIndexed := true })) := by
      rw [markIndexed, foldl_cons, ← markIndexed]
      cases searches.lookup entry.1 <;> rfl
    rw [step, ih]
    by_cases same : name = entry.1
    · subst same
      cases present : searches.lookup entry.1 with
      | none => simp [present]
      | some old => simp
    · have kept : ((searches.lookup entry.1).elim searches
          (fun s => searches.insert entry.1 { s with isIndexed := true })).lookup name =
            searches.lookup name := by
        cases searches.lookup entry.1 with
        | none => rfl
        | some old => exact AList.lookup_insert_ne same
      have member : name ∈ queue.map Prod.fst ↔ name ∈ (entry :: queue).map Prod.fst := by
        rw [map_cons, mem_cons, or_iff_right same]
      rw [kept]
      exact congrArg (Option.map · _) (funext fun srch => if_congr member rfl rfl)

variable {files : Files} {file header jsonSearch : Bytes} {kind : Bytes → UInt8}

theorem Stored.returned_perm (lawful : env.Lawful) {s : Store env}
    (stored : Stored files file header kind s) (few : s.records.length < 2 ^ 60)
    (parsed : env.parseJsonData jsonSearch = some query)
    (compare : ∀ name srch, (querySearches env query).lookup name = some srch → name ∈ s.names →
      srch.op = .compare ∧ name ≠ [] ∧ (s.format.block = true → name ≠ internalIdx)) :
    let searches := markIndexed (queueOf s.built) (querySearches env query)
    (returned env files file jsonSearch).Perm
      (((s.chunks.filter (selects env searches)).flatMap Chunk.records).filter
        (meetsRest env s.format.block searches)) := by
  intro searches
  have names : (queueOf s.built).map Prod.fst = s.names := by
    rw [← s.built_names]
    simp [queueOf, Function.comp_def]
  have marked : ∀ name srch, searches.lookup name = some srch → srch.isIndexed = true →
      name ∈ s.names ∧ ∃ raw, (querySearches env query).lookup name = some raw ∧
        srch = { raw with isIndexed := true } := by
    intro name srch looked indexed
    rw [lookup_markIndexed, map_eq_some_iff] at looked
    obtain ⟨raw, there, rfl⟩ := looked
    obtain ⟨val, rfl⟩ := querySearches_eq there
    rw [names] at indexed ⊢
    by_cases inside : name ∈ s.names
    · exact ⟨inside, _, there, by simp [inside]⟩
    · simp [inside, fSearchVal_isIndexed] at indexed
  have searchable : Searchable s searches := by
    refine ⟨fun name srch looked indexed => (marked name srch looked indexed).1, ?_, ?_, ?_⟩
    all_goals
      intro name srch looked indexed
      obtain ⟨inside, raw, there, rfl⟩ := marked name srch looked indexed
    · exact (compare name raw there inside).1
    · exact (compare name raw there inside).2.1
    · exact (compare name raw there inside).2.2
  obtain ⟨o, shows, fetched⟩ := stored.fetch_eq lawful.zlib
  obtain ⟨records, text, perm⟩ := select_perm lawful stored.bodySmall few shows searchable
  have good : Records env records := by
    refine s.good.subset (fun record present => ?_)
    have inside := (mem_filter.mp (perm.mem_iff.mp present)).1
    rw [← selected_records] at inside
    exact records_of_parts (fun p part => (mem_filter.mp part).1) record inside
  have output : fetch env files file jsonSearch ⟨true, true⟩ = env.text (.array records) := by
    rw [fetched jsonSearch query ⟨true, true⟩ parsed, text, text_array]
    simp [finishContent]
  have some : env.text (.array records) ≠ [] := by simp [text_array]
  rw [returned, output, Env.parseJsonData, if_neg some, lawful.json records good.readsBack]
  exact perm

theorem fetch_missing {word : UInt32} {rest : Bytes} (isHeader : IsHeader header)
    (head : files.read file = some (header ++ (magic ++ (u32ToChars word ++ rest))))
    (separate : word % 256 = 2) (missing : files.read (file ++ jExtensionName) = none)
    (ro : ReadOptions) : fetch env files file jsonSearch ro = [] := by
  have content : (MemoryMappedItem.read files file).data =
      header ++ (magic ++ (u32ToChars word ++ rest)) := by simp [MemoryMappedItem.read, head]
  obtain ⟨start, inside, _, marked, version⟩ := word_read isHeader rfl rfl content
  unfold fetch
  rw [head]
  cases env.parseJsonData jsonSearch with
  | none => rfl
  | some query => simp [start, inside, marked, version, separate, openData, missing]

theorem Store.chunks_eq_nil (zlib : env.ZlibInverse) {s : Store env} (empty : s.data = []) :
    s.chunks = [] := by
  have none : s.body = [] := by
    unfold Store.data at empty
    split at empty
    · have back := zlib s.body
      rw [empty] at back
      exact back.symm
    · exact empty
  have count := length_le_bodyOf zlib s.format.block s.ok
  have whole : bodyOf env s.format.block s.chunks = [] := none
  rw [whole] at count
  exact eq_nil_of_length_eq_zero (Nat.le_zero.mp count)

theorem blockSize_false (settings : Settings) :
    blockSize settings false = settings.compressParticularlyData := by
  simp [blockSize]

theorem records_of_parseJsonData (shape : env.ReadsShaped) {data : Bytes} {items : List Json}
    (parsed : env.parseJsonData data = some (.array items))
    (reads : ∀ record ∈ items.filter isObject, env.readsBack record) :
    Records env (items.filter isObject) := by
  unfold Env.parseJsonData at parsed
  split at parsed
  · cases parsed
  · exact records_of_parse shape parsed reads

theorem Holds.stored (zlib : env.ZlibInverse) {s : Store env} (holds : Holds files file header
      { title := s.title kind, body := s.data, version := s.format.version })
    (isHeader : IsHeader header) (titleSmall : header.length + (s.title kind).length < 2 ^ 32)
    (bodySmall : s.body.length < 2 ^ 32) (dataSmall : s.data.length < 2 ^ 32) :
    Stored files file header kind s ∨
      s.chunks = [] ∧ ∀ jsonSearch ro, fetch env files file jsonSearch ro = [] := by
  obtain ⟨head, data⟩ := holds
  cases separate : s.format.separate with
  | false =>
    have one : s.format.version = 1 := by simp [Format.version, separate]
    simp only [one, ↓reduceIte] at head
    refine .inl ⟨isHeader, by simpa [separate] using head, ?_, titleSmall, bodySmall, dataSmall⟩
    simp [separate]
  | true =>
    have two : s.format.version = 2 := by simp [Format.version, separate]
    have differ : ¬ (2 : Int) = 1 := by decide
    simp only [two, differ, ↓reduceIte] at head
    have there := data two
    simp only at there
    by_cases empty : s.data = []
    · rw [if_pos empty] at there
      rw [s.title_eq, titleOf_append] at head
      exact .inr ⟨Store.chunks_eq_nil zlib empty, fun jsonSearch ro => fetch_missing isHeader head
        (by rw [s.format.word_spec.1, if_pos separate]) there ro⟩
    · rw [if_neg empty] at there
      exact .inl ⟨isHeader, by simpa [separate] using head, fun _ => there, titleSmall, bodySmall,
        dataSmall⟩

variable {jsonData jsonSettings : Bytes} {items : List Json} {settings : Settings}

theorem Written.exists_store (lawful : env.Lawful)
    (written : Written env files file header jsonData jsonSettings items settings) :
    ∃ s : Store env, s.format = formatOf settings false ∧
      s.chunks = chunksOf env settings.indexedFields settings.compressParticularlyData
        (items.filter isObject) ∧
      s.names.Perm (newFields settings.indexedFields settings.compressParticularlyData).keys ∧
      (Stored files file header
          (kindOf (newFields settings.indexedFields settings.compressParticularlyData)) s ∨
        items.filter isObject = [] ∧
          ∀ jsonSearch ro, fetch env files file jsonSearch ro = []) := by
  have good := records_of_parseJsonData lawful.shape written.data written.reads
  obtain ⟨value, readable, same⟩ := written.parsed
  obtain ⟨s, format, chunks, names, built⟩ := buildContent_new lawful.zlib lawful.walk good
    (show false = true → (retrieveCompressedData env files file).size = 0 from by simp)
    written.version
    (by rw [blockSize_false]; exact written.reserved)
    (by rw [blockSize_false]; exact written.bodySmall)
  rw [blockSize_false] at chunks names built
  have content : createDatabaseContent env files file jsonData jsonSettings false =
      { title :=
          s.title (kindOf (newFields settings.indexedFields settings.compressParticularlyData))
        body := s.data, version := s.format.version } := by
    rw [format, formatOf_version written.version]
    simp only [createDatabaseContent, readable, written.data, same, built]
  have holds := written.holds
  have titleSmall := written.titleSmall
  have dataSmall := written.dataSmall
  have bodySmall := written.bodySmall
  rw [content] at holds titleSmall dataSmall
  rw [gather_body good] at bodySmall
  have body : s.body = bodyOf env (settings.compressParticularlyData ≠ 0)
      (chunksOf env settings.indexedFields settings.compressParticularlyData
        (items.filter isObject)) := by
    simp [Store.body, format, chunks, formatOf, blockSize_false]
  rw [← body] at bodySmall
  refine ⟨s, format, chunks, names, ?_⟩
  rcases holds.stored lawful.zlib written.isHeader titleSmall bodySmall dataSmall with
    stored | ⟨none, nothing⟩
  · exact .inl stored
  · refine .inr ⟨?_, nothing⟩
    rw [← recordsOf_chunksOf env settings.indexedFields settings.compressParticularlyData
      (items.filter isObject), ← chunks, none]
    rfl

theorem mem_newFields {fields : UMap Bytes BaseType} {particularly : Int} {name : Bytes}
    (ordinary : particularly ≠ 0 → name ≠ internalIdx) :
    name ∈ (newFields fields particularly).keys ↔ (fields.lookup name).isSome = true := by
  rw [← AList.mem_keys, ← AList.lookup_isSome, newFields]
  split
  · rename_i blocks
    rw [UMap.lookup_emplace, if_neg (ordinary blocks)]
  · rfl

theorem Written.returned_perm (lawful : env.Lawful)
    (written : Written env files file header jsonData jsonSettings items settings)
    (parsed : env.parseJsonData jsonSearch = some query)
    (compare : ∀ name srch, (querySearches env query).lookup name = some srch →
      srch.op = .compare ∧ name ≠ [] ∧ name ≠ internalIdx) :
    (returned env files file jsonSearch).Perm
      ((((chunksOf env settings.indexedFields settings.compressParticularlyData
        (items.filter isObject)).filter
          (selectedBy env settings.indexedFields (querySearches env query))).flatMap
            Chunk.records).filter
        (checkedBy env (settings.compressParticularlyData ≠ 0) settings.indexedFields
          (querySearches env query))) := by
  obtain ⟨s, format, chunks, names, held⟩ := written.exists_store lawful
  rcases held with stored | ⟨none, nothing⟩
  · have records : s.records = items.filter isObject := by
      rw [Store.records, chunks, recordsOf_chunksOf]
    have few : s.records.length < 2 ^ 60 := by
      rw [records]
      exact lt_of_le_of_lt (length_filter_le _ _) written.few
    have block : s.format.block = decide (settings.compressParticularlyData ≠ 0) := by
      rw [format, formatOf, blockSize_false]
    have perm := stored.returned_perm lawful few parsed (fun name srch looked _ => by
      obtain ⟨op, named, ordinary⟩ := compare name srch looked
      exact ⟨op, named, fun _ => ordinary⟩)
    have queue : (queueOf s.built).map Prod.fst = s.names := by
      rw [← s.built_names]
      simp [queueOf, Function.comp_def]
    have marked : ∀ name, (markIndexed (queueOf s.built) (querySearches env query)).lookup name =
        ((querySearches env query).lookup name).map (fun srch =>
          { srch with isIndexed := (settings.indexedFields.lookup name).isSome }) := by
      intro name
      rw [lookup_markIndexed, queue]
      cases looked : (querySearches env query).lookup name with
      | none => rfl
      | some srch =>
        obtain ⟨val, rfl⟩ := querySearches_eq looked
        have member := (names.mem_iff (a := name)).trans
          (mem_newFields (fun _ => (compare name _ looked).2.2))
        rw [map_some, map_some]
        by_cases declared : (settings.indexedFields.lookup name).isSome = true
        · rw [if_pos (member.mpr declared), declared]
        · rw [if_neg (fun inside => declared (member.mp inside)), Bool.eq_false_iff.mpr declared,
            ← fSearchVal_isIndexed env val]
    have selected : selects env (markIndexed (queueOf s.built) (querySearches env query)) =
        selectedBy env settings.indexedFields (querySearches env query) := by
      funext chunk
      rw [Bool.eq_iff_iff, selects, selectedBy,
        all_entries (p := fun name srch => !srch.isIndexed || hits env chunk name srch),
        all_entries (p := fun name srch => !(settings.indexedFields.lookup name).isSome ||
          hits env chunk name srch)]
      refine forall_congr' fun name => ?_
      rw [marked]
      cases (querySearches env query).lookup name with
      | none => simp
      | some srch => simp [hits, wantedKeys]
    have checked : meetsRest env s.format.block
        (markIndexed (queueOf s.built) (querySearches env query)) =
        checkedBy env (settings.compressParticularlyData ≠ 0) settings.indexedFields
          (querySearches env query) := by
      funext record
      rw [Bool.eq_iff_iff, meetsRest, checkedBy, block,
        all_entries (p := fun name srch => settled (settings.compressParticularlyData ≠ 0) srch ||
          matchOne env record name srch),
        all_entries (p := fun name srch => (!decide (settings.compressParticularlyData ≠ 0) &&
          (settings.indexedFields.lookup name).isSome && decide (srch.tp ≠ .string)) ||
          matchOne env record name srch)]
      refine forall_congr' fun name => ?_
      rw [marked]
      cases (querySearches env query).lookup name with
      | none => simp
      | some srch =>
        simp [settled, matchOne_isIndexed]
    grind
  · have empty : returned env files file jsonSearch = [] := by
      rw [returned, nothing]
      rfl
    have chunks : chunksOf env settings.indexedFields settings.compressParticularlyData
        (items.filter isObject) = [] := by
      rw [none, chunksOf]
      split <;> simp [splitBlocks]
    rw [empty, chunks]
    exact List.Perm.refl _

/-- A query without conditions: an empty text, or one of an empty object. -/
def IsEmptyQuery (env : Env) (jsonSearch : Bytes) : Prop :=
  env.parseJsonData jsonSearch = some .null ∨ env.parseJsonData jsonSearch = some (.object [])

theorem markIndexed_empty (queue : List (Bytes × UInt32)) :
    markIndexed queue (∅ : UMap Bytes Search) = ∅ := by
  rw [markIndexed]
  induction queue with
  | nil => rfl
  | cons entry queue ih => exact ih

theorem IsEmptyQuery.exists_query (empty : IsEmptyQuery env jsonSearch) :
    ∃ query, env.parseJsonData jsonSearch = some query ∧ querySearches env query = ∅ := by
  rcases empty with null | object
  · exact ⟨_, null, rfl⟩
  · exact ⟨_, object, rfl⟩

theorem Stored.fetch_all (zlib : env.ZlibInverse) {s : Store env}
    (stored : Stored files file header kind s) (empty : IsEmptyQuery env jsonSearch)
    (noHeader : Bool) :
    fetch env files file jsonSearch ⟨true, noHeader⟩ =
      (if noHeader then [] else header) ++ env.text (.array s.records) := by
  obtain ⟨o, shows, fetched⟩ := stored.fetch_eq zlib
  obtain ⟨query, parsed, none⟩ := empty.exists_query
  have selected : o.select env ∅ = o.allRecords env := if_pos rfl
  rw [fetched _ _ _ parsed, none, markIndexed_empty, selected, shows.allRecords, text_array,
    finishContent]
  simp

theorem Stored.returned_all (lawful : env.Lawful) {s : Store env}
    (stored : Stored files file header kind s) (empty : IsEmptyQuery env jsonSearch) :
    returned env files file jsonSearch = s.records := by
  have some : env.text (.array s.records) ≠ [] := by simp [text_array]
  rw [returned, stored.fetch_all lawful.zlib empty true, if_pos rfl, nil_append,
    Env.parseJsonData, if_neg some, lawful.json _ s.good.readsBack]
  rfl

end RssDisk.JManager
