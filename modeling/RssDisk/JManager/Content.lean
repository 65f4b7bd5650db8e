import RssDisk.Index.IndexUtility
import RssDisk.JManager.MemoryMappedItem

/-!
# Building a database file

`createDatabaseContent`: the title of a database file, which holds its indexes, and its body, which
holds its records. Records are kept one by one, each behind a comma, or in compressed blocks. With
blocks an index entry first carries the number of its block, and is rebuilt to the offset and size
of the block once they are known. An append adds its entries to the indexes that the file has.
-/

namespace RssDisk.JManager

open Lib BTree Bitbase IndexUtility

structure Settings where
  /-- `indexed_fields`: the declared indexes with their kinds. -/
  indexedFields : UMap Bytes BaseType := ∅
  compressIndex : Bool := false
  compressData : Bool := false
  /-- The size from which a block is compressed; zero keeps the records one by one. -/
  compressParticularlyData : Int := 0
  /-- The version: one keeps the body in the header file, two in a data file. -/
  version : Int := 1

/-- The kind that a declaration of an index names. -/
def declaredType (item : Json) : BaseType :=
  match item.find [116] with
  | some (.string t) =>
    if t = [100, 97, 116, 101] then .date
    else if t = [115, 116, 114, 105, 110, 103] then .string
    else .numeric
  | _ => .numeric

/-- One declaration of an index; the first one of a name counts. -/
def declareIndex (fields : UMap Bytes BaseType) (item : Json) : UMap Bytes BaseType :=
  match item.find [110] with
  | some (.string n) => fields.emplace n (declaredType item)
  | _ => fields

/-- The names of the settings: `index`. -/
def indexName : Bytes := [105, 110, 100, 101, 120]

def compressDataName : Bytes := [99, 111, 109, 112, 114, 101, 115, 115, 95, 100, 97, 116, 97]

def compressIndexName : Bytes :=
  [99, 111, 109, 112, 114, 101, 115, 115, 95, 105, 110, 100, 101, 120]

def compressParticularlyDataName : Bytes :=
  [99, 111, 109, 112, 114, 101, 115, 115, 95, 112, 97, 114, 116, 105, 99, 117, 108, 97, 114, 108,
    121, 95, 100, 97, 116, 97]

/-- `v`. -/
def versionName : Bytes := [118]

/-- A boolean setting; any other value leaves the default. -/
def boolSetting (settings : Json) (name : Bytes) : Bool :=
  match settings.find name with
  | some (.bool value) => value
  | _ => false

/-- An integer setting; any other value leaves the default. -/
def intSetting (settings : Json) (name : Bytes) (default : Int) : Int :=
  match settings.find name with
  | some value => if value.isInt then value.asInt else default
  | none => default

def readSettings (settings : Json) : Settings where
  indexedFields :=
    match settings.find indexName with
    | some (.array items) => items.foldl declareIndex ∅
    | _ => ∅
  compressIndex := boolSetting settings compressIndexName
  compressData := boolSetting settings compressDataName
  compressParticularlyData := intSetting settings compressParticularlyDataName 0
  version := intSetting settings versionName 1

/-- `b_base` of an entry while the indexes are built. -/
structure EntryData where
  offset : UInt32 := 0
  size : UInt32 := 0
  rebuilded : Bool := false
deriving DecidableEq, Repr

/-- `std::multimap<std::int64_t, b_base>`, in the order of its keys. -/
abbrev Multimap := List (Int64 × EntryData)

/-- `std::multimap::insert`: behind the entries with the same key. -/
def Multimap.insert : Multimap → Int64 → EntryData → Multimap
  | [], key, data => [(key, data)]
  | entry :: rest, key, data =>
    if key < entry.1 then (key, data) :: entry :: rest
    else entry :: Multimap.insert rest key data

/-- What the loop over the records has built. -/
structure Build where
  body : Bytes := []
  /-- `json_data`: the text of the record, or of the records of the open block. -/
  jsonData : Bytes := []
  offsetData : UInt32 := 0
  blockNumber : UInt32 := 0
  /-- `block_data`: the closed blocks with their compressed sizes. -/
  blockData : List (UInt32 × Nat) := []
  indexexStruct : UMap Bytes Multimap := ∅
  /-- `rebuild_helper`: the entries of each block. -/
  rebuildHelper : UMap UInt32 (List (Bytes × Int64)) := ∅

variable (env : Env)

/-- One member of a record: its entry, when the field is declared and its value has a key. -/
def addField (fields : UMap Bytes BaseType) (particularly : Bool) (item : Json) (st : Build)
    (name : Bytes) : Build :=
  match fields.lookup name with
  | none => st
  | some indType =>
    match tryMakeIndexParameter env item name indType with
    | none => st
    | some (_, indVal) =>
      let data : EntryData :=
        if particularly then { offset := st.blockNumber }
        else { offset := st.offsetData, size := UInt32.ofNat st.jsonData.length }
      let entries := (st.indexexStruct.lookup name).getD []
      let indexexStruct := st.indexexStruct.insert name (entries.insert indVal data)
      if particularly then
        let queue := (st.rebuildHelper.lookup st.blockNumber).getD []
        { st with indexexStruct
                  rebuildHelper := st.rebuildHelper.insert st.blockNumber
                    (queue ++ [(name, indVal)]) }
      else { st with indexexStruct }

def closeBlock (st : Build) : Build :=
  let comp := env.compress st.jsonData
  { st with body := st.body ++ comp
            blockData := st.blockData ++ [(st.blockNumber, comp.length)]
            jsonData := []
            blockNumber := st.blockNumber + 1 }

/-- `compress_particularly_data` as it is compared with a size; a negative one is never reached. -/
def threshold (compressParticularlyData : Int) : Nat := (compressParticularlyData % 2 ^ 64).toNat

/-- One record of the loop. -/
def addItem (fields : UMap Bytes BaseType) (compressParticularlyData : Int) (st : Build)
    (item : Json) : Build :=
  let particularly := compressParticularlyData ≠ 0
  let jsonData := if particularly then st.jsonData else []
  let jsonData := (if jsonData = [] then [] else jsonData ++ [44]) ++ env.text item
  let st := item.getMemberNames.foldl (addField env fields particularly item) { st with jsonData }
  if particularly then
    if threshold compressParticularlyData ≤ st.jsonData.length then closeBlock env st else st
  else
    { st with offsetData := st.offsetData + 1 + UInt32.ofNat st.jsonData.length
              body := st.body ++ 44 :: st.jsonData }

/-- Set the offset and size of one rebuilt entry. -/
def rebuildItem (block offset size : UInt32) (indexes : UMap Bytes Multimap)
    (item : Bytes × Int64) : UMap Bytes Multimap :=
  match indexes.lookup item.1 with
  | none => indexes
  | some entries =>
    indexes.insert item.1 (entries.map (fun entry =>
      if entry.1 = item.2 ∧ entry.2.rebuilded = false ∧ entry.2.offset = block then
        (entry.1, { offset, size, rebuilded := true })
      else entry))

/-- One block of the rebuild: its entries, and its own entry in the index over all blocks. -/
def rebuildBlock (helper : UMap UInt32 (List (Bytes × Int64)))
    (state : UMap Bytes Multimap × UInt32) (block : UInt32 × Nat) : UMap Bytes Multimap × UInt32 :=
  let (indexes, offsetData) := state
  let size := UInt32.ofNat block.2
  let indexes := ((helper.lookup block.1).getD []).foldl (rebuildItem block.1 offsetData size)
    indexes
  let entries := (indexes.lookup internalIdx).getD []
  let indexes := indexes.insert internalIdx (entries.insert (Int64.ofNat block.1.toNat)
    { offset := offsetData, size, rebuilded := true })
  (indexes, offsetData + size)

/-- The entries of a multimap as an index holds them. -/
def Multimap.entries (map : Multimap) : List IndexEntry :=
  map.map (fun entry => ⟨entry.1, entry.2.offset, entry.2.size⟩)

/-- `Metadata`: what an append finds in the file. -/
structure Metadata where
  size : Nat := 0
  indices : UMap Bytes Bytes := ∅

/-- `retrieveCompressedData`: the indexes of a file with blocks and the size of its data file. -/
def retrieveCompressedData (files : Files) (file : Bytes) : Metadata :=
  let m := MemoryMappedItem.read files file
  let l := contentStart m.data
  if (files.read file).isSome ∧ l < m.currentFileSize ∧ m.retrieve l 3 = magic then
    let v := m.retrieveUint32 (l + 3)
    let compressIndex := v.toNat.testBit 10
    if v % 256 = 2 ∧ v.toNat.testBit 9 then
      let headerSize := (m.retrieveUint32 (l + 7)).toNat
      let (queue, l) := readTable m headerSize (l + 11) headerSize
      let (sections, _) := placeSections queue l
      let indices := queue.foldl (fun indices entry =>
        let place := (sections.lookup entry.1).getD {}
        let blob := m.retrieve place.offset.toNat place.size.toNat
        indices.insert entry.1 (if compressIndex then env.decompressString blob else blob)) ∅
      match files.read (file ++ jExtensionName) with
      | some data => { size := data.length, indices }
      | none => { indices }
    else {}
  else {}

variable {env} in
theorem retrieveCompressedData_missing {files : Files} {file : Bytes}
    (missing : files.read (file ++ jExtensionName) = none) :
    (retrieveCompressedData env files file).size = 0 := by
  simp only [retrieveCompressedData, missing]
  split
  · split <;> rfl
  · rfl

/-- `JDatabaseManager::DatabaseContent`. -/
structure DatabaseContent where
  title : Bytes := []
  body : Bytes := []
  version : Int := 1
  append : Bool := false
  errorOccurred : Bool := false
deriving DecidableEq, Repr

def defaultCompressionThreshold : Int := 10000

/-- The word that holds the version and the format bits. -/
def versionWord (version : Int) (compressData particularly compressIndex : Bool) : UInt32 :=
  let word := UInt32.ofInt version
  let word := if compressData then word ||| 256 else word
  let word := if particularly then word ||| 512 else word
  if compressIndex then word ||| 1024 else word

/-- The table and the sections of the built indexes. -/
def encodeIndexes (fields : UMap Bytes BaseType) (built : List (Bytes × Bytes)) : Bytes :=
  let headers := built.flatMap (fun index =>
    u32ToChars (UInt32.ofNat index.1.length) ++ index.1 ++
      u32ToChars (UInt32.ofNat index.2.length) ++
      u8ToChars (((fields.lookup index.1).getD .none).toByte))
  u32ToChars (UInt32.ofNat headers.length) ++ headers ++ built.flatMap Prod.snd

/-- The built indexes of an append: each index of the file with the new entries. -/
def appendIndexes (compressIndex : Bool) (indices : UMap Bytes Bytes)
    (indexes : UMap Bytes Multimap) : List (Bytes × Bytes) :=
  (env.order indices).map (fun index =>
    let blob := ((indexes.lookup index.1).getD []).entries.foldl addToIndex index.2
    (index.1, if compressIndex then env.compress blob else blob))

/-- The built indexes of a new file: one for each declared index. -/
def newIndexes (compressIndex : Bool) (fields : UMap Bytes BaseType)
    (indexes : UMap Bytes Multimap) : List (Bytes × Bytes) :=
  (env.order fields).map (fun field =>
    let blob := encodeEntries ((indexes.lookup field.1).getD []).entries
    (field.1, if compressIndex then env.compress blob else blob))

/-- `createDatabaseContent` on parsed settings and data; `append` is the type `ajdb`. -/
def buildContent (files : Files) (file : Bytes) (settings : Settings) (data : Json)
    (append : Bool) : DatabaseContent :=
  let exData : Metadata := if append then retrieveCompressedData env files file else {}
  let isAppend : Bool := append && 0 < exData.size
  let indices := if isAppend then exData.indices.emplace internalIdx [] else exData.indices
  let firstBlock : UInt32 :=
    if isAppend then UInt32.ofNat (calculateIndexSize ((indices.lookup internalIdx).getD [])) else 0
  let particularlyData :=
    if append ∧ settings.compressParticularlyData = 0 then defaultCompressionThreshold
    else settings.compressParticularlyData
  let particularly : Bool := particularlyData ≠ 0
  let compressData := settings.compressData && !particularly
  let version := versionWord settings.version compressData particularly settings.compressIndex
  let title := magic ++ u32ToChars version
  match data with
  | .array items =>
    let st : Build := (items.filter Json.isObject).foldl
      (addItem env settings.indexedFields particularlyData) { blockNumber := firstBlock }
    let st := if particularly ∧ st.jsonData ≠ [] then closeBlock env st else st
    let start : UInt32 := if isAppend then UInt32.ofNat exData.size else 0
    let indexes :=
      if particularly then
        (st.blockData.foldl (rebuildBlock st.rebuildHelper) (st.indexexStruct, start)).1
      else st.indexexStruct
    let fields :=
      if !isAppend && particularly then settings.indexedFields.emplace internalIdx .none
      else settings.indexedFields
    let built :=
      if isAppend then appendIndexes env settings.compressIndex indices indexes
      else newIndexes env settings.compressIndex fields indexes
    { title := title ++ encodeIndexes fields built
      body := if compressData then env.compress st.body else st.body
      version := settings.version
      append := isAppend }
  | _ => { title, version := settings.version, append := isAppend, errorOccurred := true }

def createDatabaseContent (files : Files) (file jsonData jsonSettings : Bytes) (append : Bool) :
    DatabaseContent :=
  match env.parseJsonData jsonSettings, env.parseJsonData jsonData with
  | some settings, some data => buildContent env files file (readSettings settings) data append
  | _, _ => {}

end RssDisk.JManager
