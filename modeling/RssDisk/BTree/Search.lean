import RssDisk.Bitbase

/-!
# Searches and index entries

The data of `common::b_tree`: what an index entry holds, which conditions a search on one
field can carry, and the cursor through which an index is searched.
-/

namespace RssDisk.BTree

/-- `b_base::type`: the kind of an indexed value. -/
inductive BaseType where
  | none
  | numeric
  | date
  | string
deriving DecidableEq, Repr

/-- The byte under which a kind is stored. -/
def BaseType.toByte : BaseType → UInt8
  | .none => 0
  | .numeric => 1
  | .date => 2
  | .string => 3

/-- `search::type_operation`: the condition of a search on one field. -/
inductive TypeOperation where
  | compare
  | lte
  | gte
  | lt
  | gt
  | rangeLteGte
  | rangeLtGte
  | rangeLteGt
  | rangeLtGt
deriving DecidableEq, Repr

/-- `search::type_search_index`: the side from which a cursor is placed at a key. -/
inductive TypeSearchIndex where
  | compare
  | lte
  | gte
  | lt
  | gt
deriving DecidableEq, Repr

/-- The cursor goes to the last entry on the lower side. -/
def TypeSearchIndex.isUpperBound : TypeSearchIndex → Bool
  | .lte => true
  | .lt => true
  | _ => false

/-- The cursor goes to the first entry on the upper side. -/
def TypeSearchIndex.isLowerBound : TypeSearchIndex → Bool
  | .gte => true
  | .gt => true
  | _ => false

/-- `search::val_search`: a wanted value as an index key and, for a string, as it is printed. -/
structure ValSearch where
  indexed : Bytes
  base : Bytes := []
deriving DecidableEq, Repr

/-- `b_tree::search`: the conditions on one field. -/
structure Search where
  op : TypeOperation := .compare
  tp : BaseType := .numeric
  i : List ValSearch := []
  isIndexed : Bool := false
  min : Int64 := Int64.minValue
  max : Int64 := Int64.maxValue
deriving DecidableEq, Repr

/-- A key satisfies a range condition, as `matching` compares it. -/
def inRange (s : Search) (key : Int64) : Bool :=
  match s.op with
  | .compare => true
  | .gt => s.min < key
  | .gte => s.min ≤ key
  | .lt => key < s.max
  | .lte => key ≤ s.max
  | .rangeLteGt => key ≤ s.max && s.min < key
  | .rangeLteGte => key ≤ s.max && s.min ≤ key
  | .rangeLtGt => key < s.max && s.min < key
  | .rangeLtGte => key < s.max && s.min ≤ key

/-- One entry of an index: the key of a value and the piece of the data that holds its record. -/
structure IndexEntry where
  i : Int64 := 0
  /-- `b_base::_offset`: where the piece starts. -/
  offset : UInt32 := 0
  /-- `b_base::_size`: how long the piece is. -/
  size : UInt32 := 0
deriving DecidableEq, Repr

/-- `search::index`: a decoded entry and the position it was searched at. -/
structure SearchIndex extends IndexEntry where
  cursor : Nat := 0
  maxCursor : Nat := 0
  found : Bool := false
  foundUltima : Bool := false
  isLower : Bool := false
deriving DecidableEq, Repr

end RssDisk.BTree
