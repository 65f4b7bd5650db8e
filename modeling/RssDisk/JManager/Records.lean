import RssDisk.JManager.Layout

/-!
# The loop over the records

`createDatabaseContent` walks over the records once. Without blocks each record closes its own
segment and its index entries are final. With blocks the records gather until the text of the open
block reaches the threshold, and an entry carries the number of its block. In both cases the
entries of an index are, up to their order, one for each record whose field has a key, and they
are kept in the order of the keys.
-/

namespace RssDisk.JManager

open Lib BTree IndexUtility List Option

/-- The entries of an index while it is built. -/
def index (indexes : UMap Bytes Multimap) (name : Bytes) : Multimap :=
  (indexes.lookup name).getD []

/-- The entries are in non-decreasing order of their keys. -/
def Multimap.Ordered (map : Multimap) : Prop := map.Pairwise (fun a b => a.1 ≤ b.1)

theorem Multimap.insert_perm (map : Multimap) (key : Int64) (data : EntryData) :
    (map.insert key data).Perm ((key, data) :: map) := by
  induction map with
  | nil => exact List.Perm.refl _
  | cons entry rest ih =>
    rw [Multimap.insert]
    split
    · exact List.Perm.refl _
    · exact (List.Perm.cons entry ih).trans (List.Perm.swap _ _ _)

theorem Multimap.Ordered.insert {map : Multimap} (ordered : map.Ordered) (key : Int64)
    (data : EntryData) : (Multimap.insert map key data).Ordered := by
  induction map with
  | nil => exact pairwise_singleton _ _
  | cons entry rest ih =>
    obtain ⟨first, later⟩ := pairwise_cons.mp ordered
    rw [Multimap.insert]
    split
    · rename_i less
      refine pairwise_cons.mpr ⟨?_, ordered⟩
      intro other present
      rcases mem_cons.mp present with rfl | inside
      · exact Int64.le_of_lt less
      · exact Int64.le_trans (Int64.le_of_lt less) (first other inside)
    · rename_i notLess
      refine pairwise_cons.mpr ⟨?_, ih later⟩
      intro other present
      rcases mem_cons.mp ((Multimap.insert_perm rest key data).mem_iff.mp present) with
        rfl | inside
      · exact Int64.not_lt.mp notLess
      · exact first other inside

theorem Multimap.insert_last {map : Multimap} {key : Int64} (data : EntryData)
    (last : ∀ entry ∈ map, ¬ key < entry.1) : map.insert key data = map ++ [(key, data)] := by
  induction map with
  | nil => rfl
  | cons entry rest ih =>
    rw [Multimap.insert, if_neg (last entry mem_cons_self),
      ih (fun other present => last other (mem_cons_of_mem _ present)), cons_append]

variable (env : Env)

/-- The key of a field under the declared indexes, when the field is a member of the record. -/
def fieldKey (fields : UMap Bytes BaseType) (item : Json) (name : Bytes) : Option Int64 :=
  (fields.lookup name).bind (fun indType => (tryMakeIndexParameter env item name indType).map
    Prod.snd)

def recordKey (fields : UMap Bytes BaseType) (name : Bytes) (item : Json) : Option Int64 :=
  if name ∈ item.getMemberNames then fieldKey env fields item name else none

/-- The keys of the records of a chunk in an index. -/
def Chunk.keys (name : Bytes) (chunk : Chunk) : List Int64 :=
  chunk.records.filterMap (recordKey env chunk.fields name)

/-- What an entry holds while the indexes are built. -/
def newEntry (particularly : Bool) (st : Build) : EntryData :=
  if particularly then { offset := st.blockNumber }
  else { offset := st.offsetData, size := UInt32.ofNat st.jsonData.length }

variable {env}

theorem addField_spec (env : Env) (fields : UMap Bytes BaseType) (particularly : Bool) (item : Json)
    (st : Build) (name : Bytes) :
    let next := addField env fields particularly item st name
    next.body = st.body ∧ next.jsonData = st.jsonData ∧ next.offsetData = st.offsetData ∧
      next.blockNumber = st.blockNumber ∧ next.blockData = st.blockData ∧
      (∀ other, index next.indexexStruct other =
        match fieldKey env fields item name with
        | some key =>
          if other = name then (index st.indexexStruct name).insert key (newEntry particularly st)
          else index st.indexexStruct other
        | none => index st.indexexStruct other) ∧
      ∀ block, (next.rebuildHelper.lookup block).getD [] =
        match fieldKey env fields item name with
        | some key =>
          if particularly = true ∧ block = st.blockNumber then
            (st.rebuildHelper.lookup block).getD [] ++ [(name, key)]
          else (st.rebuildHelper.lookup block).getD []
        | none => (st.rebuildHelper.lookup block).getD [] := by
  intro next
  have unfolded : next = addField env fields particularly item st name := rfl
  unfold addField at unfolded
  unfold fieldKey
  cases declared : fields.lookup name with
  | none =>
    rw [declared] at unfolded
    simp [unfolded]
  | some indType =>
    rw [declared] at unfolded
    cases made : tryMakeIndexParameter env item name indType with
    | none =>
      simp only [made] at unfolded
      simp [unfolded, made]
    | some pair =>
      obtain ⟨kind, key⟩ := pair
      simp only [made] at unfolded
      have looked : ∀ (map : UMap Bytes Multimap) (entries : Multimap) (other : Bytes),
          index (map.insert name entries) other =
            if other = name then entries else index map other := by
        intro map entries other
        unfold index
        by_cases same : other = name
        · subst same
          simp
        · simp [same, AList.lookup_insert_ne]
      cases particularly with
      | false =>
        simp only [Bool.false_eq_true, ↓reduceIte] at unfolded
        simp only [unfolded, made, bind_some, map_some, looked, newEntry,
          Bool.false_eq_true, ↓reduceIte, false_and, implies_true, and_true, true_and]
        exact fun _ => rfl
      | true =>
        simp only [↓reduceIte] at unfolded
        simp only [unfolded, made, bind_some, map_some, looked, newEntry, ↓reduceIte,
          true_and]
        refine ⟨fun _ => rfl, fun block => ?_⟩
        by_cases same : block = st.blockNumber
        · subst same
          simp
        · simp [same, AList.lookup_insert_ne]

theorem addFields_spec (env : Env) (fields : UMap Bytes BaseType) (particularly : Bool)
    (item : Json)
    (names : List Bytes) (distinct : names.Nodup) (st : Build) :
    let next := names.foldl (addField env fields particularly item) st
    next.body = st.body ∧ next.jsonData = st.jsonData ∧ next.offsetData = st.offsetData ∧
      next.blockNumber = st.blockNumber ∧ next.blockData = st.blockData ∧
      (∀ name, index next.indexexStruct name =
        match if name ∈ names then fieldKey env fields item name else none with
        | some key => (index st.indexexStruct name).insert key (newEntry particularly st)
        | none => index st.indexexStruct name) ∧
      ∀ block, (next.rebuildHelper.lookup block).getD [] =
        (st.rebuildHelper.lookup block).getD [] ++
          if particularly = true ∧ block = st.blockNumber then
            names.filterMap
              (fun name => (fieldKey env fields item name).map (fun key => (name, key)))
          else [] := by
  induction names generalizing st with
  | nil => simp
  | cons name names ih =>
    obtain ⟨absent, later⟩ := nodup_cons.mp distinct
    obtain ⟨body, jsonData, offsetData, blockNumber, blockData, indexed, helped⟩ :=
      addField_spec env fields particularly item st name
    obtain ⟨body', jsonData', offsetData', blockNumber', blockData', indexed', helped'⟩ :=
      ih later (addField env fields particularly item st name)
    have same : newEntry particularly (addField env fields particularly item st name) =
        newEntry particularly st := by
      simp only [newEntry, blockNumber, offsetData, jsonData]
    refine ⟨body'.trans body, jsonData'.trans jsonData, offsetData'.trans offsetData,
      blockNumber'.trans blockNumber, blockData'.trans blockData, ?_, ?_⟩
    · intro other
      rw [foldl_cons, indexed' other, same, indexed other]
      by_cases isFirst : other = name
      · subst isFirst
        simp only [absent, ↓reduceIte, mem_cons, true_or]
      · simp only [mem_cons, isFirst, false_or, ↓reduceIte]
        cases fieldKey env fields item name <;> rfl
    · intro block
      rw [foldl_cons, helped' block, helped block, blockNumber]
      cases made : fieldKey env fields item name with
      | none => simp [made]
      | some key =>
        by_cases here : particularly = true ∧ block = st.blockNumber
        · simp [here, made]
        · simp only [here, ↓reduceIte, append_nil]

theorem addItem_plain (env : Env) (fields : UMap Bytes BaseType) (item : Json)
    (distinct : item.getMemberNames.Nodup) (st : Build) :
    let next := addItem env fields 0 st item
    next.body = st.body ++ 44 :: env.text item ∧
      next.offsetData = st.offsetData + 1 + UInt32.ofNat (env.text item).length ∧
      ∀ name, index next.indexexStruct name =
        match recordKey env fields name item with
        | some key => (index st.indexexStruct name).insert key
            { offset := st.offsetData, size := UInt32.ofNat (env.text item).length }
        | none => index st.indexexStruct name := by
  obtain ⟨body, jsonData, offsetData, _, _, indexed, _⟩ :=
    addFields_spec env fields false item item.getMemberNames distinct
      { st with jsonData := env.text item }
  intro next
  have unfolded : next = addItem env fields 0 st item := rfl
  simp only [addItem, ne_eq, not_true_eq_false, decide_false, ↓reduceIte, nil_append]
    at unfolded
  rw [unfolded]
  refine ⟨?_, ?_, ?_⟩
  · simp only [body, jsonData]
  · simp only [offsetData, jsonData]
  · exact indexed

/-- The entries of some pieces in an index, rebuilt or not. -/
def entriesOf (env : Env) (rebuilded : Bool) (name : Bytes) (parts : List Piece) :
    List (Int64 × EntryData) :=
  parts.flatMap (fun p => (p.chunk.keys env name).map (fun key =>
    (key, { offset := UInt32.ofNat p.offset, size := UInt32.ofNat p.size, rebuilded })))

/-- The entries of some pieces in an index, as the index holds them. -/
def indexEntries (env : Env) (name : Bytes) (parts : List Piece) : List IndexEntry :=
  parts.flatMap (fun p => (p.chunk.keys env name).map (fun key =>
    ⟨key, UInt32.ofNat p.offset, UInt32.ofNat p.size⟩))

theorem entries_entriesOf (rebuilded : Bool) (name : Bytes) (parts : List Piece) :
    Multimap.entries (entriesOf env rebuilded name parts) = indexEntries env name parts := by
  simp [Multimap.entries, entriesOf, indexEntries, map_flatMap, Function.comp_def]

theorem addItems_plain (fields : UMap Bytes BaseType) (records done : List Json)
    (distinct : ∀ record ∈ records, record.getMemberNames.Nodup) (st : Build)
    (body : st.body = bodyOf env false (done.map (fun record => ⟨[record], fields⟩)))
    (offset : st.offsetData = UInt32.ofNat st.body.length)
    (indexed : ∀ name, (index st.indexexStruct name).Ordered ∧
      (index st.indexexStruct name).Perm (entriesOf env false name
        (pieces env false 0 (done.map (fun record => ⟨[record], fields⟩))))) :
    let next := records.foldl (addItem env fields 0) st
    next.body = bodyOf env false ((done ++ records).map (fun record => ⟨[record], fields⟩)) ∧
      ∀ name, (index next.indexexStruct name).Ordered ∧
        (index next.indexexStruct name).Perm (entriesOf env false name
          (pieces env false 0 ((done ++ records).map (fun record => ⟨[record], fields⟩)))) := by
  induction records generalizing done st with
  | nil => simpa using ⟨body, indexed⟩
  | cons record records ih =>
    obtain ⟨body', offset', indexed'⟩ := addItem_plain env fields record
      (distinct record mem_cons_self) st
    have text : (Chunk.mk [record] fields).text env = env.text record := by
      simp [Chunk.text, commaJoin]
    have newBody : (addItem env fields 0 st record).body =
        bodyOf env false ((done ++ [record]).map (fun record => ⟨[record], fields⟩)) := by
      rw [body', map_append, bodyOf_append, ← body]
      simp [bodyOf, segment, text]
    have more := ih (done ++ [record])
      (fun other present => distinct other (mem_cons_of_mem _ present))
      (addItem env fields 0 st record) newBody
      (by
        rw [offset', offset, body', length_append, length_cons, UInt32.ofNat_add,
          UInt32.ofNat_add, UInt32.add_assoc, UInt32.add_comm 1]
        rfl)
      (by
        intro name
        obtain ⟨ordered, perm⟩ := indexed name
        have grown : entriesOf env false name (pieces env false 0
            ((done ++ [record]).map (fun record => ⟨[record], fields⟩))) =
            entriesOf env false name (pieces env false 0
              (done.map (fun record => ⟨[record], fields⟩))) ++
            (recordKey env fields name record).toList.map (fun key => (key,
              { offset := st.offsetData, size := UInt32.ofNat (env.text record).length })) := by
          rw [map_append, pieces_append, entriesOf, flatMap_append, ← body, offset]
          congr 1
          simp only [map_cons, map_nil, pieces, flatMap_cons, flatMap_nil,
            append_nil, Chunk.keys, pieceSize, text, Bool.false_eq_true, ↓reduceIte,
            Nat.zero_add]
          cases made : recordKey env fields name record <;> simp [made]
        rw [grown, indexed' name]
        cases made : recordKey env fields name record with
        | none => simpa using ⟨ordered, perm⟩
        | some key =>
          refine ⟨ordered.insert key _, (Multimap.insert_perm _ _ _).trans ?_⟩
          exact ((List.Perm.cons _ perm).trans (perm_append_singleton _ _).symm))
    rw [foldl_cons]
    simpa using more

end RssDisk.JManager
