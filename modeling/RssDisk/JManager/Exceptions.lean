import RssDisk.JManager.Fetch

/-!
# Exceptions of the database manager

Two calls of libraries in the database manager can throw. `matching` asks each record for its
members, and the JSON library throws when a record is neither an object nor null. `addToIndex`
inserts at a place that it has found in an index, and `std::string::insert` throws behind the end,
which happens on an index that is shorter than one entry. Nothing in the manager catches them. Both
need files that the manager has not built itself.
-/

namespace RssDisk.JManager

open Lib BTree IndexUtility

variable (env : Env)

/-- The records that are compared with searches. -/
def Opened.compared (o : Opened) (searches : UMap Bytes Search) : List Json :=
  if searches.entries = [] then []
  else if (env.order searches).any (fun it => it.2.isIndexed) then
    let (searches, selected) := selectPieces env o (searches.entries.length + 1) searches [] none
    let content := commaJoin ((env.order (selected.getD ∅)).map (fun it => o.piece env it.1 it.2))
    if searches.entries = [] then [] else parseRecords env content
  else parseRecords env (o.allRecords env)

/-- The records that `fetch` compares; it throws at one that has no members. -/
def fetchCompared (files : Files) (file jsonSearch : Bytes) : List Json :=
  match files.read file, env.parseJsonData jsonSearch with
  | some _, some query =>
    let m := MemoryMappedItem.read files file
    let l := contentStart m.data
    let v := m.retrieveUint32 (l + 3)
    if l < m.currentFileSize ∧ m.retrieve l 3 = magic ∧ (v % 256 = 1 ∨ v % 256 = 2) then
      let headerSize := (m.retrieveUint32 (l + 7)).toNat
      let (queue, l) := readTable m headerSize (l + 11) headerSize
      match openData env files file m v queue l with
      | none => []
      | some o => o.compared env (markIndexed queue (querySearches env query))
    else []
  | _, _ => []

/-- Where `addToIndex` inserts. -/
def insertAt (index : Bytes) (idx : IndexEntry) : Nat :=
  let f := retrieveCursor index idx.i .lt
  if f.found || f.foundUltima then (f.cursor + 1) * indexDataSize
  else if f.isLower then 0
  else index.length

/-- One of some entries is inserted behind the end of an index. -/
def insertsOutside : Bytes → List IndexEntry → Bool
  | _, [] => false
  | index, idx :: entries =>
    index.length < insertAt index idx || insertsOutside (addToIndex index idx) entries

/-- The indexes that an append finds and the entries that it adds to them; `none` when nothing is
appended. -/
def appended (files : Files) (file : Bytes) (settings : Settings) (items : List Json) :
    Option (UMap Bytes Bytes × UMap Bytes Multimap) :=
  let exData := retrieveCompressedData env files file
  if 0 < exData.size then
    let indices := exData.indices.emplace internalIdx []
    let firstBlock := UInt32.ofNat (calculateIndexSize ((indices.lookup internalIdx).getD []))
    let particularlyData :=
      if settings.compressParticularlyData = 0 then defaultCompressionThreshold
      else settings.compressParticularlyData
    let st : Build := (items.filter Json.isObject).foldl
      (addItem env settings.indexedFields particularlyData) { blockNumber := firstBlock }
    let st := if st.jsonData ≠ [] then closeBlock env st else st
    some (indices, (st.blockData.foldl (rebuildBlock st.rebuildHelper)
      (st.indexexStruct, UInt32.ofNat exData.size)).1)
  else none

/-- The indexes to which `createDatabaseContent` adds, with the entries that it adds to each. -/
def createAdds (files : Files) (file jsonData jsonSettings : Bytes) (append : Bool) :
    List (Bytes × List IndexEntry) :=
  match env.parseJsonData jsonSettings, env.parseJsonData jsonData with
  | some settings, some (.array items) =>
    if append then
      match appended env files file (readSettings settings) items with
      | none => []
      | some (indices, indexes) => (env.order indices).map (fun index =>
          (index.2, ((indexes.lookup index.1).getD []).entries))
    else []
  | _, _ => []

variable {index : Bytes} {val : Int64} {cursor prev fuel : Nat} {f : SearchIndex}

end RssDisk.JManager
