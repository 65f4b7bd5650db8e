import RssDisk.Lib.Unordered
import RssDisk.BasefuncStd
import RssDisk.BTree.Search

/-!
# Index blobs

`JDatabaseManager::IndexUtility`. An index is a string of entries of sixteen bytes: the key, and
the offset and size of a piece of the data. A cursor is placed by a search that halves over the
whole blob and walks over its last steps; a selection then runs from the cursor.
-/

namespace RssDisk.IndexUtility

open Bitbase BTree Lib

/-- `indexDataSize`: the bytes of one entry. -/
def indexDataSize : Nat := 16

/-- The bytes of one entry, as `addToIndex` and the index builder append them. -/
def encodeEntry (entry : IndexEntry) : Bytes :=
  i64ToChars entry.i ++ u32ToChars entry.offset ++ u32ToChars entry.size

/-- The blob of a sequence of entries. -/
def encodeEntries (entries : List IndexEntry) : Bytes := entries.flatMap encodeEntry

/-- The fields that the bytes of one entry fill; a field that is cut off stays zero. -/
def decodeEntry (data : Bytes) : IndexEntry where
  i := if 8 ≤ data.length then charsToI64 (data.take 8) else 0
  offset := if 12 ≤ data.length then charsToU32 ((data.drop 8).take 4) else 0
  size := if 16 ≤ data.length then charsToU32 ((data.drop 12).take 4) else 0

/-- `extractIndex`: decode the entry at a cursor; past the end of the blob it is all zero. -/
def extractIndex (index : Bytes) (cursor : Nat) (d : SearchIndex) : SearchIndex :=
  { d with toIndexEntry := decodeEntry ((index.drop (cursor * indexDataSize)).take indexDataSize) }

/-- `calculateIndexSize`: the number of whole entries. -/
def calculateIndexSize (index : Bytes) : Nat := index.length / indexDataSize

/-- `fetchAllIndexedData`: every whole entry, in the order of the blob. -/
def fetchAllIndexedData (index : Bytes) : List SearchIndex :=
  (List.range (calculateIndexSize index)).map (fun cursor => extractIndex index cursor {})

/-- The main loop of `retrieveCursor`, with the number of iterations left; the flag says that an
entry with the searched key was met. The decoded entry is that of the last comparison, while the
cursor may have been moved after it. -/
def retrieveCursorLoop (index : Bytes) (val : Int64) (op : TypeSearchIndex) (maxCursor : Nat) :
    Nat → Nat → Nat → Bool → Bool → SearchIndex → SearchIndex × Bool
  | 0, _, _, _, _, f => (f, false)
  | fuel + 1, cursor, prevCursor, stepUp, stepDown, f =>
    let f := extractIndex index cursor f
    if f.i = val then ({ f with cursor, found := true }, true)
    else if f.i < val then
      if stepDown then
        if op.isLowerBound then ({ f with cursor := cursor + 1, found := true }, false)
        else if op.isUpperBound then ({ f with cursor, found := true }, false)
        else (f, false)
      else if 5 < sizeSub maxCursor cursor then
        retrieveCursorLoop index val op maxCursor fuel
          (cursor + sizeSub maxCursor cursor / 2) cursor
          stepUp stepDown f
      else if cursor + 1 = maxCursor then
        if op.isUpperBound then ({ f with cursor, found := true }, false) else (f, false)
      else retrieveCursorLoop index val op maxCursor fuel (cursor + 1) cursor true stepDown f
    else
      if stepUp then
        if op.isUpperBound then ({ f with cursor := cursor - 1, found := true }, false)
        else if op.isLowerBound then ({ f with cursor, found := true }, false)
        else (f, false)
      else if 5 < sizeSub cursor prevCursor then
        retrieveCursorLoop index val op maxCursor fuel (prevCursor + sizeSub cursor prevCursor / 2)
          prevCursor stepUp stepDown f
      else if cursor = 0 then
        let f := { f with isLower := true }
        if op.isLowerBound then ({ f with cursor, found := true }, false) else (f, false)
      else retrieveCursorLoop index val op maxCursor fuel (cursor - 1) prevCursor stepUp true f

/-- The upward walk over equal keys for `lte` and `gt`, with the number of entries left. -/
def equalRunUp (index : Bytes) (val : Int64) (op : TypeSearchIndex) :
    Nat → SearchIndex → SearchIndex
  | 0, f => f
  | fuel + 1, f =>
    if f.cursor < f.maxCursor then
      let f := extractIndex index f.cursor f
      if f.i ≠ val then
        let f := if op = .lte then { f with cursor := f.cursor - 1 } else f
        extractIndex index f.cursor f
      else equalRunUp index val op fuel { f with cursor := f.cursor + 1 }
    else f

/-- The downward walk over equal keys for `gte` and `lt`, from the cursor of the hit. -/
def equalRunDown (index : Bytes) (val : Int64) (op : TypeSearchIndex) :
    Nat → SearchIndex → SearchIndex
  | 0, f => f
  | cursor + 1, f =>
    let f := extractIndex index cursor { f with cursor }
    if f.i ≠ val then
      let f := if op = .gte then { f with cursor := f.cursor + 1 } else f
      extractIndex index f.cursor f
    else equalRunDown index val op cursor f

/-- The last part of `retrieveCursor`: from an entry with the searched key go to the end of the
run of equal keys that `op` names. -/
def equalRun (index : Bytes) (val : Int64) (op : TypeSearchIndex) (f : SearchIndex) : SearchIndex :=
  if op = .lte ∨ op = .gt then
    let f := { f with cursor := f.cursor + 1 }
    let f :=
      if f.cursor < f.maxCursor then equalRunUp index val op (f.maxCursor - f.cursor) f
      else { f with cursor := f.cursor - 1 }
    if op = .gt ∧ f.i = val then { f with foundUltima := true, found := false } else f
  else if op = .gte ∨ op = .lt then
    let f := equalRunDown index val op f.cursor f
    if op = .lt ∧ f.i = val then { f with foundUltima := true, found := false } else f
  else f

/-- `retrieveCursor`: place a cursor at a key, on the side that `op` names. -/
def retrieveCursor (index : Bytes) (val : Int64) (op : TypeSearchIndex) : SearchIndex :=
  let maxCursor := index.length / indexDataSize
  let f : SearchIndex := { maxCursor }
  let (f, equal) :=
    if index = [] then (f, false)
    else retrieveCursorLoop index val op maxCursor 10000 (maxCursor / 2) 0 false false f
  if equal then equalRun index val op f else f

/-- `f_add`: keep the piece of an entry when its offset was already selected, or when nothing
was selected before. -/
def fAdd (readed : Option (UMap UInt32 UInt32)) (ret : UMap UInt32 UInt32) (entry : IndexEntry) :
    UMap UInt32 UInt32 :=
  match readed with
  | none => ret.emplace entry.offset entry.size
  | some selected =>
    if (selected.lookup entry.offset).isSome then ret.emplace entry.offset entry.size else ret

/-- The upward walk of a comparison: add entries from a cursor while their key is the wanted
one, with the number of entries left. -/
def compareUp (readed : Option (UMap UInt32 UInt32)) (index : Bytes) (s : Int64) :
    Nat → Nat → UMap UInt32 UInt32 → UMap UInt32 UInt32
  | 0, _, ret => ret
  | fuel + 1, cursor, ret =>
    let f := extractIndex index cursor {}
    if f.i = s then compareUp readed index s fuel (cursor + 1) (fAdd readed ret f.toIndexEntry)
    else ret

/-- The downward walk of a comparison: add the entries before a cursor while their key is the
wanted one. -/
def compareDown (readed : Option (UMap UInt32 UInt32)) (index : Bytes) (s : Int64) :
    Nat → UMap UInt32 UInt32 → UMap UInt32 UInt32
  | 0, ret => ret
  | cursor + 1, ret =>
    let f := extractIndex index cursor {}
    if f.i = s then compareDown readed index s cursor (fAdd readed ret f.toIndexEntry) else ret

/-- One wanted value of a comparison. -/
def compareOne (readed : Option (UMap UInt32 UInt32)) (index : Bytes)
    (ret : UMap UInt32 UInt32) (s : Int64) : UMap UInt32 UInt32 :=
  let f := retrieveCursor index s .compare
  if f.found then
    let ret := fAdd readed ret f.toIndexEntry
    let ret := compareUp readed index s (f.maxCursor - (f.cursor + 1)) (f.cursor + 1) ret
    compareDown readed index s f.cursor ret
  else ret

/-- Add every entry from a cursor, with the number of entries left. -/
def addUp (readed : Option (UMap UInt32 UInt32)) (index : Bytes) :
    Nat → Nat → UMap UInt32 UInt32 → UMap UInt32 UInt32
  | 0, _, ret => ret
  | fuel + 1, cursor, ret =>
    addUp readed index fuel (cursor + 1)
      (fAdd readed ret (extractIndex index cursor {}).toIndexEntry)

/-- Add every entry before a cursor, from the last one down. -/
def addDown (readed : Option (UMap UInt32 UInt32)) (index : Bytes) :
    Nat → UMap UInt32 UInt32 → UMap UInt32 UInt32
  | 0, ret => ret
  | cursor + 1, ret =>
    addDown readed index cursor (fAdd readed ret (extractIndex index cursor {}).toIndexEntry)

/-- The walk of a two-sided range: add the decoded entry, move the cursor up and decode again,
until the cursor passes the last one. -/
def addRange (readed : Option (UMap UInt32 UInt32)) (index : Bytes) :
    Nat → SearchIndex → UMap UInt32 UInt32 → UMap UInt32 UInt32
  | 0, _, ret => ret
  | fuel + 1, f, ret =>
    addRange readed index fuel (extractIndex index (f.cursor + 1) { f with cursor := f.cursor + 1 })
      (fAdd readed ret f.toIndexEntry)

/-- The side from which the lower bound of a search is placed. -/
def lowerSide : TypeOperation → TypeSearchIndex
  | .gt => .gt
  | .rangeLteGt => .gt
  | .rangeLtGt => .gt
  | _ => .gte

/-- The side from which the upper bound of a search is placed. -/
def upperSide : TypeOperation → TypeSearchIndex
  | .lt => .lt
  | .rangeLtGt => .lt
  | .rangeLtGte => .lt
  | _ => .lte

/-- `fetchIndexedData`: the pieces, as offsets with their sizes, of the entries that meet a
search, among the offsets selected before. -/
def fetchIndexedData (srch : Search) (index : Bytes) (readed : Option (UMap UInt32 UInt32)) :
    UMap UInt32 UInt32 :=
  match srch.op with
  | .compare =>
    srch.i.foldl
      (fun ret it => compareOne readed index ret ((BasefuncStd.stol it.indexed).getD 0)) ∅
  | .gt | .gte =>
    let f := retrieveCursor index srch.min (lowerSide srch.op)
    if f.found then
      addUp readed index (f.maxCursor - (f.cursor + 1)) (f.cursor + 1)
        (fAdd readed ∅ f.toIndexEntry)
    else ∅
  | .lt | .lte =>
    let f := retrieveCursor index srch.max (upperSide srch.op)
    if f.found then addDown readed index f.cursor (fAdd readed ∅ f.toIndexEntry) else ∅
  | _ =>
    let f := retrieveCursor index srch.min (lowerSide srch.op)
    let f2 := retrieveCursor index srch.max (upperSide srch.op)
    if f.found && f2.found then addRange readed index (f2.cursor + 1 - f.cursor) f ∅ else ∅

/-- `addToIndex`: insert an entry after the last smaller key. -/
def addToIndex (index : Bytes) (idx : IndexEntry) : Bytes :=
  let f := retrieveCursor index idx.i .lt
  let posToInsert :=
    if f.found || f.foundUltima then (f.cursor + 1) * indexDataSize
    else if f.isLower then 0
    else index.length
  index.take posToInsert ++ encodeEntry idx ++ index.drop posToInsert

end RssDisk.IndexUtility
