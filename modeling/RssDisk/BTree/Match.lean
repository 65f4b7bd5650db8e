import RssDisk.BTree.Search
import RssDisk.Env
import RssDisk.Files

/-!
# Index keys and conditions

`common::b_tree`: which values of a field get an index key, how a query is turned into searches,
and when a record meets them. A key is a number, the epoch of a date, or the hash of a printed
string.
-/

namespace RssDisk.BTree

open Lib BasefuncStd

variable (env : Env)

/-- `basefunc_std::removeAll`: after a removal the search goes on behind the next character, so of
two adjacent ones only the first is removed. -/
def removeAll (c : UInt8) : Bytes → Bytes
  | [] => []
  | a :: rest =>
    if a = c then
      match rest with
      | [] => []
      | b :: rest => b :: removeAll c rest
    else a :: removeAll c rest

/-- The name `$date`. -/
def dateName : Bytes := [36, 100, 97, 116, 101]

/-- The name `$in`. -/
def inName : Bytes := [36, 105, 110]

/-- The name `$lt`. -/
def ltName : Bytes := [36, 108, 116]

/-- The name `$lte`. -/
def lteName : Bytes := [36, 108, 116, 101]

/-- The name `$gt`. -/
def gtName : Bytes := [36, 103, 116]

/-- The name `$gte`. -/
def gteName : Bytes := [36, 103, 116, 101]

/-- `try_make_date_index`: the epoch of a date text, or of the `$date` member of an object. -/
def tryMakeDateIndex (val : Json) : Option Int64 :=
  let valStr : Bytes :=
    if val.isString then env.text val
    else if val.isObject && (val.get dateName).isString then env.text (val.get dateName)
    else []
  if valStr = [] then none
  else
    let cutted := (removeAll 34 valStr).take 19
    let cutted := cutted.map (fun c => if c = 84 then 32 else c)
    (DateTime.parseDateTime cutted).map (DateTime.getTimeFromEpoch env.mktime)

/-- `try_make_string_index`: the hash of the printed string. -/
def tryMakeStringIndex (val : Json) : Int64 := (env.hash (env.text val)).toInt64

/-- `try_make_index_parameter`: the kind and the key of a field's value, when it has one under an
index of the given kind. -/
def tryMakeIndexParameter (val : Json) (f : Bytes) (indType : BaseType) :
    Option (BaseType × Int64) :=
  match val.find (cStr f) with
  | none => none
  | some value =>
    if value.isInt || value.isInt64 then some (.numeric, Int64.ofInt value.asInt)
    else if value.isObject then
      if value.isMember dateName then
        (tryMakeDateIndex env (value.get dateName)).map (fun i => (.date, i))
      else none
    else if value.isString then
      match indType with
      | .date => (tryMakeDateIndex env value).map (fun i => (.date, i))
      | .string => some (.string, tryMakeStringIndex env value)
      | _ => none
    else none

/-- One wanted value of a `$in` list. -/
def addWanted (ind : Search) (it : Json) : Search :=
  if it.isObject && it.isMember dateName then
    match tryMakeDateIndex env (it.get dateName) with
    | some i =>
      { ind with
        min := i, i := ind.i ++ [{ indexed := toString i.toInt }], tp := .date }
    | none => ind
  else if it.isString then
    let i := tryMakeStringIndex env it
    { ind with min := i, tp := .string
               i := ind.i ++ [{ indexed := toString i.toInt, base := env.text it }] }
  else { ind with i := ind.i ++ [{ indexed := env.text it }] }

/-- The bounds of a range condition, in the order in which they are read. -/
def addBounds (val : Json) (ind : Search) : Search :=
  let ind := match tryMakeIndexParameter env val ltName ind.tp with
    | some (tp, i) => { ind with max := i, op := .lt, tp }
    | none => ind
  let ind := match tryMakeIndexParameter env val lteName ind.tp with
    | some (tp, i) => { ind with max := i, op := .lte, tp }
    | none => ind
  let ind := match tryMakeIndexParameter env val gtName ind.tp with
    | some (tp, i) =>
      { ind with min := i, tp, op := match ind.op with
          | .lt => .rangeLtGt
          | .lte => .rangeLteGt
          | _ => .gt }
    | none => ind
  match tryMakeIndexParameter env val gteName ind.tp with
  | some (tp, i) =>
    { ind with min := i, tp, op := match ind.op with
        | .lt => .rangeLtGte
        | .lte => .rangeLteGte
        | _ => .gte }
  | none => ind

/-- The single wanted value of an equality. -/
def addEqual (ind : Search) (val : Json) : Search :=
  if val.isString then
    let i := tryMakeStringIndex env val
    { ind with min := i, tp := .string
               i := ind.i ++ [{ indexed := toString i.toInt, base := env.text val }] }
  else { ind with i := ind.i ++ [{ indexed := env.text val }] }

/-- `f_search_val`: the search of one condition. -/
def fSearchVal (val : Json) : Search :=
  if val.isObject then
    if val.isMember inName && (val.get inName).isArray then
      (val.get inName).elements.foldl (addWanted env) {}
    else
      let ind := addBounds env val {}
      if ind.op ≠ .compare then ind
      else
        match if val.isMember dateName then tryMakeDateIndex env (val.get dateName) else none with
        | some i =>
          { ind with min := i, tp := .date
                     i := ind.i ++ [{ indexed := toString i.toInt }] }
        | none => addEqual env ind val
  else addEqual env {} val

/-- `f_search`: the searches of an object of conditions; a field that has one keeps it. -/
def fSearch (s : Json) (searches : UMap Bytes Search) : UMap Bytes Search :=
  s.getMemberNames.foldl (fun searches name => searches.emplace name (fSearchVal env (s.get name)))
    searches

/-- `f_cmp_one`: a printed value is among the wanted ones. -/
def cmpOne (s : Search) (toCmp : Bytes) : Bool :=
  s.i.any (fun wanted => (if wanted.base = [] then wanted.indexed else wanted.base) = toCmp)

/-- The comparison of one value that is not an array. -/
def cmpValue (s : Search) (value : Json) : Option Bool :=
  if s.tp = .date then
    (tryMakeDateIndex env value).map (fun i => cmpOne s (toString i.toInt))
  else some (cmpOne s (env.text value))

/-- The comparison of the elements of an array, which stops at an element that is no date in a
search for dates. -/
def cmpArray (s : Search) : Bool → List Json → Bool
  | found, [] => found
  | found, it :: rest =>
    match cmpValue env s it with
    | some hit => cmpArray s (found || hit) rest
    | none => false

/-- The condition of one search on a record. -/
def matchOne (item : Json) (name : Bytes) (s : Search) : Bool :=
  match item.find name with
  | none => false
  | some value =>
    if s.op = .compare then
      match value with
      | .array items => cmpArray env s false items
      | value => (cmpValue env s value).getD false
    else
      match tryMakeIndexParameter env item name s.tp with
      | some (.numeric, i) => inRange s i
      | some (.date, i) => inRange s i
      | _ => false

/-- `matching`: a record meets every search. -/
def matching (item : Json) (searches : UMap Bytes Search) : Bool :=
  (env.order searches).all (fun entry => matchOne env item entry.1 entry.2)

end RssDisk.BTree
