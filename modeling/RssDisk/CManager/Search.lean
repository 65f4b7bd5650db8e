import RssDisk.BTree.Match
import RssDisk.CManager
import RssDisk.Lib.Cut
import RssDisk.Reference

/-!
# Searches in the database of keys

`searchAll` returns the entries whose keys contain a text, whose times meet a condition and whose
values meet conditions. An exception while the search is read leaves the rest of it out, and one
while a value is compared keeps the entry.
-/

namespace RssDisk.CManager

open Lib Bitbase BTree

variable (env : Env)

/-- `Value::asString`, which throws for arrays and objects. -/
def asString : Json → Option Bytes
  | .null => some []
  | .string value => some value
  | .array _ => none
  | .object _ => none
  | value => some (env.text value)

/-- The search of `searchAll`. -/
structure KeySearch where
  keys : Bytes := []
  tms : UMap Bytes Search := ∅
  searches : UMap Bytes Search := ∅

def keysName : Bytes := [107, 101, 121, 115]

def tmsName : Bytes := [116, 109, 115]

def dataName : Bytes := [100, 97, 116, 97]

/-- The conditions on the value. -/
def dataSearches : Json → UMap Bytes Search
  | .array items =>
    (items.filter Json.isObject).foldl (fun searches it => fSearch env it searches) ∅
  | .object members => fSearch env (.object members) ∅
  | _ => ∅

/-- The search behind the text in the keys. -/
def addConditions (json : Json) (search : KeySearch) : KeySearch :=
  let tms := if json.isMember tmsName then
      search.tms.emplace tmsName (fSearchVal env (json.get tmsName))
    else search.tms
  { search with tms, searches := dataSearches env (json.get dataName) }

/-- The search of a text; what cannot be parsed leaves an empty one. -/
def readSearch (text : Bytes) : KeySearch :=
  match if text = [] then none else env.parse text with
  | none => {}
  | some json =>
    if json.hasMembers then
      if json.isMember keysName then
        match asString env (json.get keysName) with
        | none => {}
        | some keys => addConditions env json { keys }
      else addConditions env json {}
    else {}

def KeySearch.meets (search : KeySearch) (key : Bytes) (item : Item) : Bool :=
  (search.keys = [] || (cut search.keys key).isSome) &&
    ((search.tms.entries = [] ||
        matching env (.object [(tmsName, .int item.timestamp.toInt)]) search.tms) &&
      (search.searches.entries = [] ||
        match env.parse (env.decompressString item.content) with
        | none => false
        | some data => if data.hasMembers then matching env data search.searches else true))

/-- `searchAll` at a reading of the clock, whose readings are converted to times. -/
def searchAll (toTimeT : Int → Int64) (now : Int) (store : DataStore) (text : Bytes) : Bytes :=
  let search := readSearch env text
  i64ToChars (toTimeT now) ++
    ((env.order store.map).filter (fun it => search.meets env it.1 it.2.val)).flatMap (fun it =>
      let item := it.2.val
      i64ToChars item.timestamp ++ i64ToChars item.checksum ++
        i64ToChars (toTimeT it.2.validUntil) ++ i32ToChars (Int32.ofNat it.1.length) ++
        i32ToChars (Int32.ofNat item.content.length) ++ it.1 ++ item.content)

/-- The entries that `searchAll` returns. -/
def reported (store : DataStore) (text : Bytes) : List (Bytes × TimedVal Item) :=
  (env.order store.map).filter (fun it => (readSearch env text).meets env it.1 it.2.val)

/-- `searchAll` returns a key with an item. -/
def Reports (store : DataStore) (text key : Bytes) (item : Item) : Prop :=
  ∃ validUntil, (key, ⟨item, validUntil⟩) ∈ reported env store text

/-- `retrieve` returns an item of a key. -/
def Retrieves (now : Int) (store : DataStore) (key : Bytes) (item : Item) : Prop :=
  retrieve now store key =
    some (i64ToChars item.timestamp ++ i64ToChars item.checksum ++ item.content)

variable {env} {store : DataStore} {key : Bytes} {item : Item} {now : Int}

theorem reports_nil_iff (walk : env.WalksAll) :
    Reports env store [] key item ↔ ∃ validUntil, store.map.lookup key =
      some ⟨item, validUntil⟩ := by
  have walks : UMap.Walks store.map (env.order store.map) := walk store.map
  have all : reported env store [] = env.order store.map := by
    rw [reported, List.filter_eq_self]
    intro it _
    rfl
  simp only [Reports, all, walks.mem_iff]

theorem retrieves_iff :
    Retrieves now store key item ↔
      ∃ validUntil, store.map.lookup key = some ⟨item, validUntil⟩ ∧ now ≤ validUntil := by
  have read : Retrieves now store key item ↔ store.get now key = some item := by
    rw [Retrieves, retrieve, Option.map_eq_some_iff]
    constructor
    · rintro ⟨found, get, same⟩
      obtain ⟨front, content⟩ := List.append_inj same (by simp)
      obtain ⟨tms, crc⟩ := List.append_inj front (by simp)
      have tms := congrArg charsToI64 tms
      have crc := congrArg charsToI64 crc
      rw [charsToI64_i64ToChars, charsToI64_i64ToChars] at tms crc
      rw [get]
      exact congrArg some (by cases found; cases item; simp_all)
    · exact fun get => ⟨item, get, rfl⟩
  rw [read, MapTime.get]
  cases found : store.map.lookup key with
  | none => simp
  | some v =>
    simp only [Option.ite_none_right_eq_some, Option.some.injEq]
    constructor
    · rintro ⟨valid, rfl⟩
      exact ⟨v.validUntil, rfl, valid⟩
    · grind

theorem reports_iff_retrieves (walk : env.WalksAll)
    (valid : ∀ key v, store.map.lookup key = some v → now ≤ v.validUntil) (key : Bytes)
    (item : Item) : Reports env store [] key item ↔ Retrieves now store key item := by
  rw [reports_nil_iff walk, retrieves_iff]
  constructor
  · grind
  · grind

/-- An empty search returns what can be retrieved at an instant exactly when every value of the map
is valid then. -/
theorem reports_eq_retrieves_iff (walk : env.WalksAll) (store : DataStore) (now : Int) :
    (∀ key item, Reports env store [] key item ↔ Retrieves now store key item) ↔
      ∀ key v, store.map.lookup key = some v → now ≤ v.validUntil := by
  constructor
  · intro agree key v found
    have seen : Reports env store [] key v.val := (reports_nil_iff walk).mpr ⟨v.validUntil, found⟩
    obtain ⟨validUntil, same, valid⟩ := retrieves_iff.mp ((agree key v.val).mp seen)
    grind
  · exact reports_iff_retrieves walk

/-- A key with a value that is valid for one second. -/
def shortLived : DataStore := ({} : DataStore).insert 0 [97] ⟨[1], 2, 3⟩ 1

/-- As long as the value is valid it is found and retrieved. -/
theorem reports_eq_retrieves_iff_sample :
    Retrieves (10 ^ 9) shortLived [97] ⟨[1], 2, 3⟩ ∧
      ∀ key item, Reports Reference.env shortLived [] key item ↔
        Retrieves (10 ^ 9) shortLived key item := by
  refine ⟨by unfold Retrieves; decide,
    (reports_eq_retrieves_iff Reference.env_lawful.walk _ _).mpr ?_⟩
  intro key v found
  rw [shortLived, MapTime.insert] at found
  by_cases same : key = [97]
  · rw [same, AList.lookup_insert] at found
    cases found
    decide
  · rw [AList.lookup_insert_ne same] at found
    cases found

/-- A second later it is still found, and it is not retrieved. -/
theorem reports_expired :
    Reports Reference.env shortLived [] [97] ⟨[1], 2, 3⟩ ∧
      retrieve (2 * 10 ^ 9) shortLived [97] = none := by
  refine ⟨(reports_nil_iff Reference.env_lawful.walk).mpr ⟨10 ^ 9, ?_⟩, by decide⟩
  exact AList.lookup_insert _

end RssDisk.CManager
