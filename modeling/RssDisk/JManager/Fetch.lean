import RssDisk.JManager.Content

/-!
# Reading a database file

`fetch`: the records of a file that meet a query, as the text of an array. Searches on indexed
fields select pieces of the data, one index after the other; a search that its index settles is
dropped when the records are kept one by one. What is left of the searches filters the records of
the selected pieces.
-/

namespace RssDisk.JManager

open Lib BTree Bitbase IndexUtility

/-- `rssdisk::read_options`. -/
structure ReadOptions where
  /-- `no_compress`: return the text as it is. -/
  noCompress : Bool := false
  /-- `no_header`: leave out the header of the file. -/
  noHeader : Bool := false
deriving DecidableEq, Repr

variable (env : Env)

/-- The searches of a query: those of an object, or of the objects of an array. -/
def querySearches (query : Json) : UMap Bytes Search :=
  match query with
  | .array items =>
    (items.filter Json.isObject).foldl (fun searches it => fSearch env it searches) ∅
  | .object members => fSearch env (.object members) ∅
  | _ => ∅

/-- Mark the searches on fields that have an index. -/
def markIndexed (queue : List (Bytes × UInt32)) (searches : UMap Bytes Search) :
    UMap Bytes Search :=
  queue.foldl (fun searches entry =>
    match searches.lookup entry.1 with
    | some s => searches.insert entry.1 { s with isIndexed := true }
    | none => searches) searches

/-- Texts with commas between them. -/
def commaJoin : List Bytes → Bytes
  | [] => []
  | text :: texts => text ++ if texts.isEmpty then [] else 44 :: commaJoin texts

/-- A file as `fetch` sees it after its title is read. -/
structure Opened where
  m : MemoryMappedItem
  data : MemoryMappedItem
  l : Nat
  sections : UMap Bytes Section
  particularly : Bool
  compressIndex : Bool

/-- The blob of an index. -/
def Opened.index (o : Opened) (name : Bytes) : Bytes :=
  let place := (o.sections.lookup name).getD {}
  let blob := o.m.retrieve place.offset.toNat place.size.toNat
  if o.compressIndex then env.decompressString blob else blob

/-- The text of one piece of the data. -/
def Opened.piece (o : Opened) (offset size : UInt32) : Bytes :=
  if o.particularly then
    env.decompressString (o.data.retrieve (o.l + offset.toNat) size.toNat)
  else o.data.retrieve (o.l + offset.toNat + 1) size.toNat

/-- The text of all records, between the brackets of an array. -/
def Opened.allRecords (o : Opened) : Bytes :=
  if o.particularly then
    commaJoin ((fetchAllIndexedData (o.index env internalIdx)).map
      (fun it => o.piece env it.offset it.size))
  else
    let sz := sizeSub o.data.currentFileSize o.l
    o.data.retrieve (o.l + 1) (if 0 < sz then sz - 1 else sz)

/-- One indexed search after the other, each among the pieces that the earlier ones selected. The
next one is the first in the walk over the searches that was not used, and one on the field with
the empty name ends the loop. -/
def selectPieces (o : Opened) :
    Nat → UMap Bytes Search → List Bytes → Option (UMap UInt32 UInt32) →
      UMap Bytes Search × Option (UMap UInt32 UInt32)
  | 0, searches, _, selected => (searches, selected)
  | fuel + 1, searches, passed, selected =>
    match (env.order searches).find? (fun it => it.2.isIndexed && !passed.contains it.1) with
    | none => (searches, selected)
    | some (name, srch) =>
      if name = [] then (searches, selected)
      else
        let pieces := fetchIndexedData srch (o.index env name) selected
        let searches :=
          if !o.particularly && srch.tp ≠ .string then searches.erase name else searches
        selectPieces o fuel searches (name :: passed) (some pieces)

/-- The elements of the array that a text holds between brackets; none when it cannot be parsed. -/
def parseRecords (content : Bytes) : List Json :=
  match env.parseJsonData (91 :: content ++ [93]) with
  | some value => value.elements
  | none => []

/-- The selected text between the brackets of the array. -/
def Opened.select (o : Opened) (searches : UMap Bytes Search) : Bytes :=
  if searches.entries = [] then o.allRecords env
  else
    let filtered (searches : UMap Bytes Search) (content : Bytes) : Bytes :=
      commaJoin (((parseRecords env content).filter (fun item => matching env item searches)).map
        env.text)
    if (env.order searches).any (fun it => it.2.isIndexed) then
      let (searches, selected) := selectPieces env o (searches.entries.length + 1) searches [] none
      let content := commaJoin ((env.order (selected.getD ∅)).map
        (fun it => o.piece env it.1 it.2))
      if searches.entries = [] then content else filtered searches content
    else filtered searches (o.allRecords env)

/-- Open the data of a file behind its title; `none` when the data file is missing. -/
def openData (files : Files) (file : Bytes) (m : MemoryMappedItem) (v : UInt32)
    (queue : List (Bytes × UInt32)) (l : Nat) : Option Opened :=
  let (sections, l) := placeSections queue l
  let particularly := v.toNat.testBit 9
  let compressIndex := v.toNat.testBit 10
  if v % 256 = 2 then
    match files.read (file ++ jExtensionName) with
    | none => none
    | some _ =>
      let data := MemoryMappedItem.read files (file ++ jExtensionName)
      let data :=
        if v.toNat.testBit 8 then data.decompressed env 0 data.currentFileSize else data
      some { m, data, l := 0, sections, particularly, compressIndex }
  else
    let m := if v.toNat.testBit 8 then m.decompressed env l (sizeSub m.currentFileSize l) else m
    some { m, data := m, l, sections, particularly, compressIndex }

/-- What `fetch` appends to the header: nothing for no content. -/
def finishContent (ro : ReadOptions) (header content : Bytes) : Bytes :=
  header ++ if content = [] then [] else if ro.noCompress then content else env.compress content

def fetch (files : Files) (file jsonSearch : Bytes) (ro : ReadOptions) : Bytes :=
  match files.read file, env.parseJsonData jsonSearch with
  | some _, some query =>
    let m := MemoryMappedItem.read files file
    let searches := querySearches env query
    let l := contentStart m.data
    if l < m.currentFileSize then
      let header := if ro.noHeader then [] else m.retrieve 0 l
      let v := m.retrieveUint32 (l + 3)
      if m.retrieve l 3 = magic ∧ (v % 256 = 1 ∨ v % 256 = 2) then
        let headerSize := (m.retrieveUint32 (l + 7)).toNat
        let (queue, l) := readTable m headerSize (l + 11) headerSize
        match openData env files file m v queue l with
        | none => []
        | some o =>
          finishContent env ro header (91 :: o.select env (markIndexed queue searches) ++ [93])
      else finishContent env ro header []
    else []
  | _, _ => []

end RssDisk.JManager
