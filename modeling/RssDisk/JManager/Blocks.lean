import RssDisk.JManager.Records

/-!
# Blocks and their rebuilt entries

With blocks the loop over the records numbers the blocks and writes the number of the open block
into each entry. Once the compressed sizes are known, a pass over the blocks replaces the number of
each entry by the offset and size of its block.
-/

namespace RssDisk.JManager

open Lib BTree IndexUtility List UInt32 Multimap

variable (env : Env)

/-- The blocks of some records: a block is closed when its text reaches the threshold, and at the
end. -/
def splitBlocks (threshold : Nat) : List Json → List Json → List (List Json)
  | opened, [] => if opened = [] then [] else [opened]
  | opened, record :: records =>
    if threshold ≤ (commaJoin ((opened ++ [record]).map env.text)).length then
      (opened ++ [record]) :: splitBlocks threshold [] records
    else splitBlocks threshold (opened ++ [record]) records

/-- The numbers and compressed sizes of closed blocks, from a first number on, when `k` blocks come
before them. -/
def numbered (first : UInt32) (chunks : List Chunk) (k : Nat) : List (UInt32 × Nat) :=
  (chunks.zipIdx k).map (fun (chunk, i) =>
    (first + UInt32.ofNat i, (segment env true chunk).length))

/-- The entries of blocks in an index, with the numbers of the blocks. -/
def blockEntries (first : UInt32) (name : Bytes) (chunks : List Chunk) (k : Nat) :
    List (Int64 × EntryData) :=
  (chunks.zipIdx k).flatMap (fun (chunk, i) => (chunk.keys env name).map (fun key =>
    (key, { offset := first + UInt32.ofNat i })))

variable {env} {closed : List Chunk} {fields : UMap Bytes BaseType} {first : UInt32}
  {opened : List Json}

theorem blockEntries_concat (first : UInt32) (name : Bytes) (chunks : List Chunk) (chunk : Chunk) :
    blockEntries env first name (chunks ++ [chunk]) 0 =
      blockEntries env first name chunks 0 ++ (chunk.keys env name).map (fun key =>
        (key, { offset := first + UInt32.ofNat chunks.length })) := by
  simp [blockEntries, zipIdx_append]

theorem blockEntries_concat_empty (first : UInt32) (name : Bytes) (chunks : List Chunk)
    (fields : UMap Bytes BaseType) :
    blockEntries env first name (chunks ++ [⟨[], fields⟩]) 0 =
      blockEntries env first name chunks 0 := by
  rw [blockEntries_concat]
  simp [Chunk.keys]

/-- What the loop has built when some blocks are closed and one is open. -/
structure Gathered (env : Env) (fields : UMap Bytes BaseType) (first : UInt32)
    (closed : List Chunk) (opened : List Json) (st : Build) : Prop where
  body : st.body = bodyOf env true closed
  jsonData : st.jsonData = commaJoin (opened.map env.text)
  blockNumber : st.blockNumber = first + UInt32.ofNat closed.length
  blockData : st.blockData = numbered env first closed 0
  indexed : ∀ name, (index st.indexexStruct name).Ordered ∧
    (index st.indexexStruct name).Perm
      (blockEntries env first name (closed ++ [⟨opened, fields⟩]) 0)
  helped : ∀ name, ∀ entry ∈ blockEntries env first name (closed ++ [⟨opened, fields⟩]) 0,
    (name, entry.1) ∈ (st.rebuildHelper.lookup entry.2.offset).getD []

theorem Gathered.close {st : Build} (gathered : Gathered env fields first closed opened st) :
    Gathered env fields first (closed ++ [⟨opened, fields⟩]) [] (closeBlock env st) := by
  obtain ⟨body, jsonData, blockNumber, blockData, indexed, helped⟩ := gathered
  have text : (Chunk.mk opened fields).text env = commaJoin (opened.map env.text) := rfl
  refine ⟨?_, rfl, ?_, ?_, ?_, ?_⟩
  · simp only [closeBlock, body, jsonData, bodyOf_append]
    simp [bodyOf, segment, text]
  · simp only [closeBlock, blockNumber, length_append, length_cons, length_nil,
      UInt32.ofNat_add, UInt32.add_assoc]
    rfl
  · simp only [closeBlock, blockData, blockNumber, jsonData, numbered, zipIdx_append]
    simp [segment, text]
  · intro name
    rw [blockEntries_concat_empty]
    exact indexed name
  · intro name entry present
    rw [blockEntries_concat_empty] at present
    exact helped name entry present

theorem Gathered.addItem {st : Build} (gathered : Gathered env fields first closed opened st)
    {particularly : Int} (blocks : particularly ≠ 0) (record : Json)
    (objects : ∀ other ∈ opened ++ [record], other.isObject = true)
    (distinct : record.getMemberNames.Nodup) :
    let next := JManager.addItem env fields particularly st record
    if threshold particularly ≤ (commaJoin ((opened ++ [record]).map env.text)).length then
      Gathered env fields first (closed ++ [⟨opened ++ [record], fields⟩]) [] next
    else Gathered env fields first closed (opened ++ [record]) next := by
  obtain ⟨body, jsonData, blockNumber, blockData, indexed, helped⟩ := gathered
  have joined : (if st.jsonData = [] then [] else st.jsonData ++ [44]) ++ env.text record =
      commaJoin ((opened ++ [record]).map env.text) := by
    rw [jsonData, map_append, map_singleton]
    cases opened with
    | nil => simp [commaJoin]
    | cons other rest =>
      have text := text_ne_nil_of_isObject env (objects other (by simp))
      have some : commaJoin ((other :: rest).map env.text) ≠ [] := by simp [commaJoin, text]
      rw [if_neg some, commaJoin_append _ _ (by simp) (by simp)]
      simp [commaJoin]
  obtain ⟨body', jsonData', _, blockNumber', blockData', indexed', helped'⟩ :=
    addFields_spec env fields true record record.getMemberNames distinct
      { st with jsonData := commaJoin ((opened ++ [record]).map env.text) }
  have unfolded : JManager.addItem env fields particularly st record =
      (let next := record.getMemberNames.foldl (addField env fields true record)
        { st with jsonData := commaJoin ((opened ++ [record]).map env.text) }
      if threshold particularly ≤ (commaJoin ((opened ++ [record]).map env.text)).length then
        closeBlock env next else next) := by
    simp only [JManager.addItem, ne_eq, blocks, not_false_eq_true, decide_true, ↓reduceIte, joined,
      jsonData']
  have grown : ∀ name, blockEntries env first name (closed ++ [⟨opened ++ [record], fields⟩]) 0 =
      blockEntries env first name (closed ++ [⟨opened, fields⟩]) 0 ++
        (recordKey env fields name record).toList.map (fun key =>
          (key, { offset := st.blockNumber })) := by
    intro name
    rw [blockEntries_concat, blockEntries_concat, append_assoc, blockNumber]
    congr 1
    simp only [Chunk.keys, filterMap_append, map_append]
    cases made : recordKey env fields name record <;> simp [made]
  have opens : Gathered env fields first closed (opened ++ [record])
      (record.getMemberNames.foldl (addField env fields true record)
        { st with jsonData := commaJoin ((opened ++ [record]).map env.text) }) := by
    refine ⟨body'.trans body, jsonData', blockNumber'.trans blockNumber,
      blockData'.trans blockData, ?_, ?_⟩
    · intro name
      obtain ⟨ordered, perm⟩ := indexed name
      have looked : index (record.getMemberNames.foldl (addField env fields true record)
          { st with
            jsonData := commaJoin ((opened ++ [record]).map env.text) }).indexexStruct name =
          (recordKey env fields name record).elim (index st.indexexStruct name)
            (fun key => (index st.indexexStruct name).insert key { offset := st.blockNumber }) := by
        rw [indexed' name, recordKey]
        cases (if name ∈ record.getMemberNames then fieldKey env fields record name else none) <;>
          rfl
      rw [looked, grown name]
      cases made : recordKey env fields name record with
      | none => simpa using ⟨ordered, perm⟩
      | some key =>
        refine ⟨ordered.insert key _, (insert_perm _ _ _).trans ?_⟩
        exact (List.Perm.cons _ perm).trans (perm_append_singleton _ _).symm
    · intro name entry present
      rw [grown name, mem_append] at present
      rw [helped']
      rcases present with earlier | added
      · exact mem_append_left _ (helped name entry earlier)
      · obtain ⟨key, made, rfl⟩ := mem_map.mp added
        rw [Option.mem_toList] at made
        have member : name ∈ record.getMemberNames := by
          by_contra absent
          simp [recordKey, absent] at made
        rw [recordKey, if_pos member] at made
        apply mem_append_right
        rw [if_pos ⟨rfl, rfl⟩, mem_filterMap]
        exact ⟨name, member, by rw [made]; rfl⟩
  intro next
  have isNext : next = _ := unfolded
  rw [isNext]
  split
  · exact opens.close
  · exact opens

theorem Gathered.addItems {particularly : Int} (blocks : particularly ≠ 0) (records : List Json)
    {st : Build} (gathered : Gathered env fields first closed opened st)
    (objects : ∀ other ∈ opened ++ records, other.isObject = true)
    (distinct : ∀ record ∈ records, record.getMemberNames.Nodup) :
    let next := records.foldl (JManager.addItem env fields particularly) st
    Gathered env fields first
      (closed ++ (splitBlocks env (threshold particularly) opened records).map (⟨·, fields⟩)) []
      (if next.jsonData ≠ [] then closeBlock env next else next) := by
  induction records generalizing closed opened st with
  | nil =>
    simp only [foldl_nil, splitBlocks]
    cases opened with
    | nil =>
      have none : st.jsonData = [] := gathered.jsonData
      simp only [none, ne_eq, not_true_eq_false, ↓reduceIte, map_nil, append_nil]
      exact gathered
    | cons other rest =>
      have text := text_ne_nil_of_isObject env (objects other (by simp))
      have some : st.jsonData ≠ [] := by
        rw [gathered.jsonData]
        simp [commaJoin, text]
      simp only [some, ne_eq, not_false_eq_true, ↓reduceIte, reduceCtorEq, map_cons,
        map_nil]
      exact gathered.close
  | cons record records ih =>
    have step := gathered.addItem blocks record
      (fun other present => objects other (by
        rcases mem_append.mp present with before | here
        · exact mem_append_left _ before
        · rw [mem_singleton.mp here]
          simp))
      (distinct record mem_cons_self)
    have later : ∀ other ∈ records, other.getMemberNames.Nodup :=
      fun other present => distinct other (mem_cons_of_mem _ present)
    rw [foldl_cons, splitBlocks]
    split at step
    · rename_i reached
      have rest := ih step (fun other present => objects other (by
        simp only [nil_append] at present
        simp [present])) later
      grind
    · rename_i short
      have rest := ih step (fun other present => objects other (by simpa using present)) later
      grind

theorem index_insert (indexes : UMap Bytes Multimap) (name other : Bytes) (entries : Multimap) :
    index (indexes.insert name entries) other =
      if other = name then entries else index indexes other := by
  unfold index
  by_cases same : other = name
  · subst same
    simp
  · simp [same, AList.lookup_insert_ne]

/-- Set the piece of an entry that still carries a block's number. -/
def setBlock (block offset size : UInt32) (entry : Int64 × EntryData) : Int64 × EntryData :=
  if entry.2.rebuilded = false ∧ entry.2.offset = block then (entry.1, ⟨offset, size, true⟩)
  else entry

theorem rebuildItems_index (block offset size : UInt32) (items : List (Bytes × Int64))
    (indexes : UMap Bytes Multimap) (name : Bytes) :
    index (items.foldl (rebuildItem block offset size) indexes) name =
      (index indexes name).map (fun entry =>
        if (name, entry.1) ∈ items then setBlock block offset size entry else entry) := by
  induction items generalizing indexes with
  | nil => simp
  | cons item items ih =>
    have step : index (rebuildItem block offset size indexes item) name =
        (index indexes name).map (fun entry =>
          if (name, entry.1) = item then setBlock block offset size entry else entry) := by
      obtain ⟨itemName, key⟩ := item
      unfold rebuildItem
      cases found : indexes.lookup itemName with
      | none =>
        simp only [Prod.mk.injEq]
        by_cases same : name = itemName
        · subst same
          simp [index, found]
        · simp [same]
      | some entries =>
        rw [index_insert]
        by_cases same : name = itemName
        · subst same
          simp only [↓reduceIte, index, found, Option.getD_some, Prod.mk.injEq, true_and]
          apply map_congr_left
          intro entry _
          unfold setBlock
          by_cases isKey : entry.1 = key <;> simp [isKey]
        · simp [same]
    rw [foldl_cons, ih, step, map_map]
    apply map_congr_left
    intro entry _
    simp only [Function.comp_apply, mem_cons]
    by_cases first : (name, entry.1) = item
    · have settled : setBlock block offset size (setBlock block offset size entry) =
          setBlock block offset size entry := by
        unfold setBlock
        split
        · simp
        · rfl
      have kept : (setBlock block offset size entry).1 = entry.1 := by
        unfold setBlock
        split <;> rfl
      simp only [first, ↓reduceIte, true_or, kept]
      split
      · exact settled
      · rfl
    · simp [first]

/-- The entries of a block in the index over all blocks. -/
def internalEntries (first : UInt32) (parts : List Piece) : List (Int64 × EntryData) :=
  parts.zipIdx.map (fun (p, i) => (Int64.ofNat (first + UInt32.ofNat i).toNat,
    { offset := UInt32.ofNat p.offset, size := UInt32.ofNat p.size, rebuilded := true }))

theorem number_inj {i j : Nat} (small : i < 2 ^ 32) (small' : j < 2 ^ 32)
    (same : first + UInt32.ofNat i = first + UInt32.ofNat j) : i = j := by
  have cancelled : UInt32.ofNat i = UInt32.ofNat j := by
    grind
  have values := congrArg UInt32.toNat cancelled
  rwa [toNat_ofNat_of_lt' (by simpa [UInt32.size] using small),
    toNat_ofNat_of_lt' (by simpa [UInt32.size] using small')] at values

theorem Multimap.Ordered.map {map : Multimap} (ordered : map.Ordered)
    {change : Int64 × EntryData → Int64 × EntryData} (keeps : ∀ entry, (change entry).1 = entry.1) :
    Ordered (List.map change map) := by
  rw [Ordered, pairwise_map]
  exact ordered.imp (fun {a b} le => by rw [keeps, keeps]; exact le)

theorem rebuildBlock_spec {helper : UMap UInt32 (List (Bytes × Int64))} {done todo : List Chunk}
    {chunk : Chunk} {start : Nat} (few : done.length + (todo.length + 1) < 2 ^ 32) {name : Bytes}
    (covered : ∀ entry ∈ blockEntries env first name (chunk :: todo) done.length,
      (name, entry.1) ∈ (helper.lookup entry.2.offset).getD []) {indexes : UMap Bytes Multimap}
    (perm : (index indexes name).Perm (entriesOf env true name (pieces env true start done) ++
      blockEntries env first name (chunk :: todo) done.length)) :
    (index (((helper.lookup (first + UInt32.ofNat done.length)).getD []).foldl
      (rebuildItem (first + UInt32.ofNat done.length)
        (UInt32.ofNat (start + (bodyOf env true done).length))
        (UInt32.ofNat (segment env true chunk).length)) indexes) name).Perm
      (entriesOf env true name (pieces env true start (done ++ [chunk])) ++
        blockEntries env first name todo (done.length + 1)) := by
  rw [rebuildItems_index]
  refine (perm.map _).trans (List.Perm.of_eq ?_)
  have cons : blockEntries env first name (chunk :: todo) done.length =
      (chunk.keys env name).map (fun key =>
        (key, { offset := first + UInt32.ofNat done.length })) ++
      blockEntries env first name todo (done.length + 1) := by
    simp [blockEntries]
  rw [cons, map_append, map_append, pieces_append]
  have rebuilt : entriesOf env true name (pieces env true start done ++
      pieces env true (start + (bodyOf env true done).length) [chunk]) =
      entriesOf env true name (pieces env true start done) ++
        (chunk.keys env name).map (fun key => (key,
          ⟨UInt32.ofNat (start + (bodyOf env true done).length),
            UInt32.ofNat (segment env true chunk).length, true⟩)) := by
    simp [entriesOf, pieces, pieceSize, segment]
  rw [rebuilt, append_assoc]
  congr 1
  · -- the entries of earlier blocks are rebuilt already
    refine (map_congr_left ?_).trans (map_id _)
    intro entry present
    obtain ⟨p, _, inPiece⟩ := mem_flatMap.mp present
    obtain ⟨key, _, rfl⟩ := mem_map.mp inPiece
    simp [setBlock]
  · congr 1
    · rw [map_map]
      apply map_congr_left
      intro key present
      have remembered := covered (key, { offset := first + UInt32.ofNat done.length })
        (by rw [cons]; exact mem_append_left _ (mem_map_of_mem present))
      simp [setBlock, remembered]
    · -- the entries of later blocks carry other numbers
      refine (map_congr_left ?_).trans (map_id _)
      intro entry present
      obtain ⟨⟨other, i⟩, placed, inBlock⟩ := mem_flatMap.mp present
      obtain ⟨key, _, rfl⟩ := mem_map.mp inBlock
      obtain ⟨after, inside⟩ := mem_zipIdx placed
      have differs : ¬ first + UInt32.ofNat i = first + UInt32.ofNat done.length := by
        intro same
        have := number_inj (by omega) (by omega) same
        omega
      simp [setBlock, differs]

theorem number_key {i : Nat} (few : first.toNat + i < 2 ^ 32) :
    (Int64.ofNat (first + UInt32.ofNat i).toNat).toInt = (first.toNat + i : Nat) := by
  have sum : (first + UInt32.ofNat i).toNat = first.toNat + i := by
    grind [UInt32.toNat_add, UInt32.toNat_ofNat_of_lt']
  rw [sum]
  exact Int64.toInt_ofNat_of_lt (by omega)

theorem internalEntries_concat {done : List Chunk} {chunk : Chunk} {start : Nat}
    (few : first.toNat + done.length < 2 ^ 32) {items : List (Bytes × Int64)}
    {block offset size : UInt32} :
    insert ((internalEntries first (pieces env true start done)).map (fun entry =>
        if (internalIdx, entry.1) ∈ items then setBlock block offset size entry else entry))
      (Int64.ofNat (first + UInt32.ofNat done.length).toNat)
      ⟨UInt32.ofNat (start + (bodyOf env true done).length),
        UInt32.ofNat (segment env true chunk).length, true⟩ =
      internalEntries first (pieces env true start (done ++ [chunk])) := by
  have kept : (internalEntries first (pieces env true start done)).map (fun entry =>
      if (internalIdx, entry.1) ∈ items then setBlock block offset size entry else entry) =
      internalEntries first (pieces env true start done) := by
    refine (map_congr_left ?_).trans (map_id _)
    intro entry present
    obtain ⟨⟨p, i⟩, _, rfl⟩ := mem_map.mp present
    simp [setBlock]
  rw [kept, insert_last, pieces_append, internalEntries, internalEntries,
    zipIdx_append, map_append, pieces_length]
  · simp [pieces, pieceSize, segment]
  · intro entry present
    obtain ⟨⟨p, i⟩, placed, rfl⟩ := mem_map.mp present
    have inside := (mem_zipIdx placed).2.1
    rw [pieces_length] at inside
    rw [Int64.lt_iff_toInt_lt, number_key (by omega), number_key (by omega)]
    omega

/-- After the pass over the blocks every entry points to the block of its record, and the index
over all blocks lists them in order. -/
theorem rebuild_spec (helper : UMap UInt32 (List (Bytes × Int64))) (first : UInt32) (start : Nat)
    (todo done : List Chunk) (few : first.toNat + (done.length + todo.length) < 2 ^ 32)
    (indexes : UMap Bytes Multimap)
    (covered : ∀ name, name ≠ internalIdx →
      ∀ entry ∈ blockEntries env first name todo done.length,
        (name, entry.1) ∈ (helper.lookup entry.2.offset).getD [])
    (indexed : ∀ name, name ≠ internalIdx → (index indexes name).Ordered ∧
      (index indexes name).Perm (entriesOf env true name (pieces env true start done) ++
        blockEntries env first name todo done.length))
    (internal : index indexes internalIdx = internalEntries first (pieces env true start done)) :
    let rebuilt := (numbered env first todo done.length).foldl (rebuildBlock helper)
      (indexes, UInt32.ofNat (start + (bodyOf env true done).length))
    (∀ name, name ≠ internalIdx → (index rebuilt.1 name).Ordered ∧
      (index rebuilt.1 name).Perm (entriesOf env true name
        (pieces env true start (done ++ todo)))) ∧
      index rebuilt.1 internalIdx =
        internalEntries first (pieces env true start (done ++ todo)) := by
  induction todo generalizing done indexes with
  | nil =>
    intro rebuilt
    rw [append_nil]
    refine ⟨fun name other => ?_, internal⟩
    have same := indexed name other
    rw [blockEntries, zipIdx_nil, flatMap_nil, append_nil] at same
    exact same
  | cons chunk todo ih =>
    have cons : numbered env first (chunk :: todo) done.length =
        (first + UInt32.ofNat done.length, (segment env true chunk).length) ::
          numbered env first todo (done.length + 1) := by
      simp [numbered]
    have later : ∀ name, ∀ entry ∈ blockEntries env first name todo (done.length + 1),
        entry ∈ blockEntries env first name (chunk :: todo) done.length := by
      intro name entry present
      simp only [blockEntries, zipIdx_cons, flatMap_cons]
      exact mem_append_right _ present
    have grown : (done ++ [chunk]).length = done.length + 1 := by simp
    have total : (done.length + (todo.length + 1)) = (done ++ [chunk]).length + todo.length := by
      rw [grown]
      omega
    have offset : UInt32.ofNat (start + (bodyOf env true done).length) +
        UInt32.ofNat (segment env true chunk).length =
        UInt32.ofNat (start + (bodyOf env true (done ++ [chunk])).length) := by
      rw [← ofNat_add, bodyOf_append, length_append, Nat.add_assoc]
      simp [bodyOf]
    simp only [length_cons] at few
    have rest := ih (done ++ [chunk]) (by rw [grown]; omega)
      (rebuildBlock helper (indexes, UInt32.ofNat (start + (bodyOf env true done).length))
        (first + UInt32.ofNat done.length, (segment env true chunk).length)).1
      (by
        intro name other entry present
        rw [grown] at present
        exact covered name other entry (later name entry present))
      (by
        intro name other
        obtain ⟨ordered, perm⟩ := indexed name other
        rw [rebuildBlock, index_insert, if_neg other, grown]
        refine ⟨?_, rebuildBlock_spec (by omega) (covered name other) perm⟩
        rw [rebuildItems_index]
        refine ordered.map (fun entry => ?_)
        unfold setBlock
        split
        · split <;> rfl
        · rfl)
      (by
        rw [rebuildBlock, index_insert, if_pos rfl]
        change (index _ internalIdx).insert _ _ = _
        rw [rebuildItems_index, internal]
        exact internalEntries_concat (by omega))
    rw [cons, foldl_cons]
    rw [append_assoc, singleton_append, grown] at rest
    have state : rebuildBlock helper (indexes, UInt32.ofNat (start + (bodyOf env true done).length))
        (first + UInt32.ofNat done.length, (segment env true chunk).length) =
        ((rebuildBlock helper (indexes, UInt32.ofNat (start + (bodyOf env true done).length))
          (first + UInt32.ofNat done.length, (segment env true chunk).length)).1,
          UInt32.ofNat (start + (bodyOf env true (done ++ [chunk])).length)) :=
      Prod.ext rfl offset
    rw [state]
    exact rest

end RssDisk.JManager
