import RssDisk.JManager.Independence

/-!
# Conditions with bounds

A condition on a field may name a lower and an upper bound, each strict or not. `f_search_val` reads
the four of them in a fixed order into one operation and two slots, so a bound can take the place of
another one, and `f_search` keeps the first condition of each field.
-/

namespace RssDisk.JManager

open Lib BTree List Option BasefuncStd Json Int64

variable {env : Env} {condition : Json} {field : Bytes} {key : Int64} {objects : List Json}

/-- The four comparisons with a bound. -/
inductive Comparison where
  | lt
  | lte
  | gt
  | gte
deriving DecidableEq, Repr

namespace Comparison

def name : Comparison → Bytes
  | .lt => ltName
  | .lte => lteName
  | .gt => gtName
  | .gte => gteName

/-- A key meets a bound. -/
def holds : Comparison → Int64 → Int64 → Bool
  | .lt, bound, key => key < bound
  | .lte, bound, key => key ≤ bound
  | .gt, bound, key => bound < key
  | .gte, bound, key => bound ≤ key

/-- The bound is still in the search behind the last one: `$lte` takes the place of `$lt` and `$gte`
that of `$gt`, and `$gte` behind `$gt` takes the upper bound away too. -/
def kept (condition : Json) : Comparison → Bool
  | .lt => !condition.isMember lteName && !(condition.isMember gtName && condition.isMember gteName)
  | .lte => !(condition.isMember gtName && condition.isMember gteName)
  | .gt => !condition.isMember gteName
  | .gte => true

theorem cStr_name (c : Comparison) : cStr c.name = c.name := by
  cases c <;> decide

end Comparison

/-- The objects of a query: the query itself, or the elements of a list. -/
def ObjectsOf (query : Json) (objects : List Json) : Prop :=
  (query = .array objects ∨ objects = [query]) ∧ ∀ object ∈ objects, object.isObject = true

/-- The condition of a field that is first in the order of the objects. -/
def firstCondition (objects : List Json) (field : Bytes) : Option Json :=
  objects.findSome? (fun object => object.find field)

/-- A condition of bounds: an object with integers under names of comparisons. -/
def IsBounds (condition : Json) : Prop :=
  ∃ members, condition = .object members ∧
    ∀ member ∈ members, ∃ (c : Comparison) (bound : Int64), member = (c.name, .int bound.toInt)

/-- The query has a bound on a field. -/
def Asked (objects : List Json) (field : Bytes) (c : Comparison) (bound : Int64) : Prop :=
  ∃ object ∈ objects, ∃ condition, object.find field = some condition ∧
    condition.find c.name = some (.int bound.toInt)

/-- The bound is in the search that the query is turned into. -/
def Compared (objects : List Json) (field : Bytes) (c : Comparison) (bound : Int64) : Prop :=
  ∃ condition, firstCondition objects field = some condition ∧ c.kept condition = true ∧
    condition.find c.name = some (.int bound.toInt)

/-- A record meets a bound on a field. -/
def Meets (record : Json) (field : Bytes) (c : Comparison) (bound : Int64) : Prop :=
  ∃ key : Int64, record.find field = some (.int key.toInt) ∧ c.holds bound key = true

/-- A record meets a bound with the key that is read for the field: the name is seen up to its first
zero byte. -/
def MeetsRead (env : Env) (record : Json) (field : Bytes) (c : Comparison) (bound : Int64) : Prop :=
  ∃ read, tryMakeIndexParameter env record field .numeric = some read ∧
    c.holds bound read.2 = true

/-- The bound is not compared with its field. -/
def Lost (objects : List Json) (field : Bytes) (c : Comparison) (bound : Int64) : Prop :=
  Asked objects field c bound ∧ (Compared objects field c bound → 0 ∈ field)

/-- The bound is compared with another field. -/
def Stray (objects : List Json) (field : Bytes) (c : Comparison) (bound : Int64) : Prop :=
  Compared objects field c bound ∧ 0 ∈ field

theorem tryMakeIndexParameter_int {val : Json} {f : Bytes}
    (found : val.find (cStr f) = some (.int key.toInt)) (indType : BaseType) :
    tryMakeIndexParameter env val f indType = some (.numeric, key) := by
  have fits : (int key.toInt).isInt64 = true := by
    simp only [isInt64, integral, Bool.and_eq_true, decide_eq_true_eq]
    exact ⟨key.le_toInt, key.toInt_lt⟩
  rw [tryMakeIndexParameter, found]
  simp only [fits, Bool.or_true, ↓reduceIte, asInt, integral, getD_some,
    ofInt_toInt]

theorem tryMakeIndexParameter_numeric {val : Json} {f : Bytes} {read : BaseType × Int64}
    (found : tryMakeIndexParameter env val f .numeric = some read) :
    read.1 = .numeric ∨ read.1 = .date := by
  unfold tryMakeIndexParameter at found
  split at found
  · cases found
  · split at found
    · grind
    · split at found
      · split at found
        · obtain ⟨i, _, rfl⟩ := map_eq_some_iff.mp found
          exact .inr rfl
        · cases found
      · split at found
        · cases found
        · cases found

theorem meetsRead_iff {record : Json} (plain : 0 ∉ field)
    (held : record.find field = some (.int key.toInt)) (c : Comparison) (bound : Int64) :
    MeetsRead env record field c bound ↔ Meets record field c bound := by
  have read : tryMakeIndexParameter env record field .numeric = some (.numeric, key) :=
    tryMakeIndexParameter_int (by rwa [cStr_eq_self plain]) .numeric
  constructor
  · rintro ⟨other, found, met⟩
    rw [read] at found
    cases found
    exact ⟨key, held, met⟩
  · rintro ⟨other, found, met⟩
    rw [held] at found
    have same : key = other := toInt_inj.mp (int.inj (Option.some.inj found))
    exact ⟨_, read, same ▸ met⟩

theorem IsBounds.find (bounds : IsBounds condition) (c : Comparison) :
    ∃ bound : Option Int64, condition.find c.name = bound.map (fun b => .int b.toInt) := by
  obtain ⟨members, rfl, each⟩ := bounds
  cases found : (object members).find c.name with
  | none => exact ⟨none, rfl⟩
  | some value =>
    obtain ⟨front, back, parts, _⟩ := lookup_eq_some_iff.mp found
    obtain ⟨d, bound, same⟩ := each (c.name, value) (by rw [parts]; simp)
    exact ⟨some bound, congrArg some (congrArg Prod.snd same)⟩

theorem addBounds_range {val : Json} {lt lte gt gte : Option Int64}
    (isLt : val.find ltName = lt.map (fun b => .int b.toInt))
    (isLte : val.find lteName = lte.map (fun b => .int b.toInt))
    (isGt : val.find gtName = gt.map (fun b => .int b.toInt))
    (isGte : val.find gteName = gte.map (fun b => .int b.toInt)) :
    (addBounds env val {}).tp = .numeric ∧
      ((addBounds env val {}).op = .compare ↔
        lt = none ∧ lte = none ∧ gt = none ∧ gte = none) ∧
      ∀ key, (inRange (addBounds env val {}) key = true ↔
        (∀ b ∈ lt, lte = none → (gt = none ∨ gte = none) → key < b) ∧
        (∀ b ∈ lte, (gt = none ∨ gte = none) → key ≤ b) ∧
        (∀ b ∈ gt, gte = none → b < key) ∧ ∀ b ∈ gte, b ≤ key) := by
  have read : ∀ (c : Comparison) (bound : Option Int64) (tp : BaseType),
      val.find c.name = bound.map (fun b => .int b.toInt) →
      tryMakeIndexParameter env val c.name tp = bound.map (fun b => (.numeric, b)) := by
    intro c bound tp found
    cases bound with
    | none => rw [tryMakeIndexParameter, c.cStr_name, found]; rfl
    | some b => exact tryMakeIndexParameter_int (by rw [c.cStr_name, found]; rfl) tp
  have readLt := fun tp => read .lt lt tp isLt
  have readLte := fun tp => read .lte lte tp isLte
  have readGt := fun tp => read .gt gt tp isGt
  have readGte := fun tp => read .gte gte tp isGte
  simp only [Comparison.name] at readLt readLte readGt readGte
  simp only [addBounds, readLt, readLte, readGt, readGte]
  cases lt <;> cases lte <;> cases gt <;> cases gte <;> simp [inRange]

theorem IsBounds.find_other (bounds : IsBounds condition) {name : Bytes}
    (other : ∀ c : Comparison, c.name ≠ name) : condition.find name = none := by
  obtain ⟨members, rfl, each⟩ := bounds
  rw [Json.find, lookup_eq_none_iff]
  intro member present
  obtain ⟨c, bound, rfl⟩ := each member present
  exact bne_iff_ne.mpr (other c).symm

theorem IsBounds.exists_kept (bounds : IsBounds condition) (filled : condition ≠ .object []) :
    ∃ (c : Comparison) (bound : Int64), c.kept condition = true ∧
      condition.find c.name = some (.int bound.toInt) := by
  have one : ∃ c : Comparison, condition.find c.name ≠ none := by
    obtain ⟨members, rfl, each⟩ := bounds
    cases members with
    | nil => exact absurd rfl filled
    | cons first members =>
      obtain ⟨c, bound, rfl⟩ := each first mem_cons_self
      refine ⟨c, ?_⟩
      rw [Json.find, lookup_cons_self]
      exact some_ne_none _
  obtain ⟨lt, isLt⟩ := bounds.find .lt
  obtain ⟨lte, isLte⟩ := bounds.find .lte
  obtain ⟨gt, isGt⟩ := bounds.find .gt
  obtain ⟨gte, isGte⟩ := bounds.find .gte
  cases gte with
  | some bound => exact ⟨.gte, bound, rfl, isGte⟩
  | none =>
    have noGte : condition.isMember gteName = false := by
      rw [isMember, show condition.find gteName = none from isGte]
      rfl
    cases gt with
    | some bound => exact ⟨.gt, bound, by rw [Comparison.kept, noGte]; rfl, isGt⟩
    | none =>
      cases lte with
      | some bound =>
        exact ⟨.lte, bound, by rw [Comparison.kept, noGte, Bool.and_false]; rfl, isLte⟩
      | none =>
        have noLte : condition.isMember lteName = false := by
          rw [isMember, show condition.find lteName = none from isLte]
          rfl
        cases lt with
        | some bound =>
          exact ⟨.lt, bound, by rw [Comparison.kept, noGte, noLte, Bool.and_false]; rfl, isLt⟩
        | none =>
          obtain ⟨c, present⟩ := one
          cases c with
          | lt => exact absurd isLt present
          | lte => exact absurd isLte present
          | gt => exact absurd isGt present
          | gte => exact absurd isGte present

theorem inRange_bounds {condition : Json} (bounds : IsBounds condition) (key : Int64) :
    inRange (addBounds env condition {}) key = true ↔
      ∀ (c : Comparison) (bound : Int64), c.kept condition = true →
        condition.find c.name = some (.int bound.toInt) → c.holds bound key = true := by
  obtain ⟨lt, isLt⟩ := bounds.find .lt
  obtain ⟨lte, isLte⟩ := bounds.find .lte
  obtain ⟨gt, isGt⟩ := bounds.find .gt
  obtain ⟨gte, isGte⟩ := bounds.find .gte
  have found : ∀ (bound : Option Int64) (b : Int64),
      bound.map (fun b => int b.toInt) = some (.int b.toInt) ↔ b ∈ bound := by
    intro bound b
    cases bound with
    | none => simp
    | some a => simp [toInt_inj]
  have member : ∀ (name : Bytes) (bound : Option Int64),
      condition.find name = bound.map (fun b => .int b.toInt) →
      condition.isMember name = bound.isSome := by
    intro name bound present
    rw [isMember, present, isSome_map]
  have hasLte := member lteName lte isLte
  have hasGt := member gtName gt isGt
  have hasGte := member gteName gte isGte
  obtain ⟨_, _, range⟩ := @addBounds_range env _ _ _ _ _ isLt isLte isGt isGte
  rw [range key]
  constructor
  · rintro ⟨below, upTo, above, from_⟩ c bound kept present
    cases c with
    | lt =>
      rw [isLt, found] at present
      have := below bound present
      cases lte <;> cases gt <;> cases gte <;> simp_all [Comparison.kept, Comparison.holds]
    | lte =>
      rw [isLte, found] at present
      have := upTo bound present
      cases gt <;> cases gte <;> simp_all [Comparison.kept, Comparison.holds]
    | gt =>
      rw [isGt, found] at present
      have := above bound present
      cases gte <;> simp_all [Comparison.kept, Comparison.holds]
    | gte =>
      rw [isGte, found] at present
      simpa [Comparison.holds] using from_ bound present
  · intro all
    refine ⟨fun b here noLte open_ => ?_, fun b here open_ => ?_, fun b here noGte => ?_,
      fun b here => ?_⟩
    · have kept : Comparison.lt.kept condition = true := by
        rcases open_ with rfl | rfl <;> simp [Comparison.kept, hasLte, hasGt, hasGte, noLte]
      simpa [Comparison.holds] using all .lt b kept (by rw [isLt, found]; exact here)
    · have kept : Comparison.lte.kept condition = true := by
        rcases open_ with rfl | rfl <;> simp [Comparison.kept, hasGt, hasGte]
      simpa [Comparison.holds] using all .lte b kept (by rw [isLte, found]; exact here)
    · have kept : Comparison.gt.kept condition = true := by
        simp [Comparison.kept, hasGte, noGte]
      simpa [Comparison.holds] using all .gt b kept (by rw [isGt, found]; exact here)
    · simpa [Comparison.holds] using all .gte b rfl (by rw [isGte, found]; exact here)

theorem fSearchVal_bounds {condition : Json} (bounds : IsBounds condition)
    (filled : condition ≠ .object []) :
    fSearchVal env condition = addBounds env condition {} ∧
      (addBounds env condition {}).op ≠ .compare ∧ (addBounds env condition {}).tp = .numeric := by
  have noList : condition.isMember inName = false := by
    rw [isMember, bounds.find_other (by intro c; cases c <;> decide)]
    rfl
  have isObject : condition.isObject = true := by
    obtain ⟨members, rfl, _⟩ := bounds
    rfl
  obtain ⟨lt, isLt⟩ := bounds.find .lt
  obtain ⟨lte, isLte⟩ := bounds.find .lte
  obtain ⟨gt, isGt⟩ := bounds.find .gt
  obtain ⟨gte, isGte⟩ := bounds.find .gte
  obtain ⟨numeric, compare, _⟩ := @addBounds_range env _ _ _ _ _ isLt isLte isGt isGte
  have range : (addBounds env condition {}).op ≠ .compare := by
    rw [Ne, compare]
    rintro ⟨rfl, rfl, rfl, rfl⟩
    obtain ⟨c, bound, _, present⟩ := bounds.exists_kept filled
    cases c with
    | lt => exact absurd (isLt.symm.trans present) (some_ne_none _).symm
    | lte => exact absurd (isLte.symm.trans present) (some_ne_none _).symm
    | gt => exact absurd (isGt.symm.trans present) (some_ne_none _).symm
    | gte => exact absurd (isGte.symm.trans present) (some_ne_none _).symm
  refine ⟨?_, range, numeric⟩
  simp only [fSearchVal, isObject, noList, Bool.false_and, Bool.false_eq_true, ↓reduceIte, ne_eq,
    range, not_false_eq_true]

theorem toString_ne_cons (n : Int) {c : UInt8} (apart : isDigit c = false ∧ c ≠ 45)
    (rest : Bytes) : BasefuncStd.toString n ≠ c :: rest := by
  intro same
  have first : c ∈ BasefuncStd.toString n := by
    grind
  rcases BasefuncStd.toString_bytes first with digit | sign
  · grind
  · exact apart.2 sign

/-- A record meets a condition when it meets the bounds that are kept. An empty condition is
compared as a value, which no integer is. -/
theorem matchOne_bounds {record : Json} (bounds : IsBounds condition)
    (held : record.find field = some (.int key.toInt)) :
    matchOne env record field (fSearchVal env condition) = true ↔
      condition ≠ .object [] ∧ ∀ (c : Comparison) (bound : Int64), c.kept condition = true →
        condition.find c.name = some (.int bound.toInt) → MeetsRead env record field c bound := by
  by_cases blank : condition = .object []
  · subst blank
    have search : fSearchVal env (.object []) = { i := [{ indexed := [123, 125] }] } := rfl
    have differs : ¬ [123, 125] = BasefuncStd.toString key.toInt :=
      fun same => toString_ne_cons _ (by decide) _ same.symm
    rw [search, matchOne, held]
    simp [cmpValue, cmpOne, Env.text, Json.toString, differs]
  · obtain ⟨search, range, numeric⟩ := @fSearchVal_bounds env _ bounds blank
    rw [search, matchOne, held]
    simp only [range, ↓reduceIte, numeric, ne_eq, blank, not_false_eq_true, true_and]
    cases read : tryMakeIndexParameter env record field .numeric with
    | none =>
      refine ⟨fun met => absurd met Bool.false_ne_true, fun all => ?_⟩
      obtain ⟨c, bound, kept, present⟩ := bounds.exists_kept blank
      obtain ⟨other, found, _⟩ := all c bound kept present
      grind
    | some value =>
      have met : ∀ (c : Comparison) (bound : Int64),
          MeetsRead env record field c bound ↔ c.holds bound value.2 = true := by
        intro c bound
        constructor
        · rintro ⟨other, found, holds⟩
          rw [read] at found
          cases found
          exact holds
        · exact fun holds => ⟨value, read, holds⟩
      simp only [met]
      rw [← @inRange_bounds env _ bounds value.2]
      obtain ⟨tp, i⟩ := value
      rcases tryMakeIndexParameter_numeric read with rfl | rfl <;> exact Iff.rfl

theorem lookup_querySearches {query : Json} (parts : ObjectsOf query objects) (field : Bytes) :
    (querySearches env query).lookup field =
      (firstCondition objects field).map (fSearchVal env) := by
  have one : ∀ (object : Json) (searches : UMap Bytes Search),
      (fSearch env object searches).lookup field =
        (searches.lookup field).or ((object.find field).map (fSearchVal env)) := by
    intro object searches
    rw [lookup_fSearch]
    congr 1
    cases found : object.find field with
    | some condition =>
      rw [if_pos (mem_getMemberNames found), Json.get, found]
      rfl
    | none =>
      rw [if_neg, map_none]
      intro named
      cases object with
      | object members =>
        obtain ⟨member, present, same⟩ := mem_map.mp named
        have differs := lookup_eq_none_iff.mp found member present
        exact bne_iff_ne.mp differs same.symm
      | _ => cases named
  have all : ∀ (objects : List Json) (searches : UMap Bytes Search),
      (objects.foldl (fun searches it => fSearch env it searches) searches).lookup field =
        (searches.lookup field).or ((firstCondition objects field).map (fSearchVal env)) := by
    intro objects
    induction objects with
    | nil =>
      intro searches
      exact (or_none).symm
    | cons object objects ih =>
      intro searches
      have first : firstCondition (object :: objects) field =
          (object.find field).or (firstCondition objects field) := by
        rw [firstCondition, findSome?_cons]
        cases object.find field <;> rfl
      rw [foldl_cons, ih, one, Option.or_assoc, first]
      cases object.find field <;> rfl
  obtain ⟨shape, areObjects⟩ := parts
  have folded : querySearches env query =
      objects.foldl (fun searches it => fSearch env it searches) ∅ := by
    rcases shape with rfl | rfl
    · rw [querySearches, filter_eq_self.mpr areObjects]
    · have isObject := areObjects query mem_cons_self
      cases query with
      | object members => rfl
      | _ => cases isObject
  rw [folded, all, AList.lookup_empty, none_or]

theorem matching_bounds (walk : env.WalksAll) {query record : Json}
    (parts : ObjectsOf query objects)
    (bounded : ∀ object ∈ objects, ∀ field condition, object.find field = some condition →
      IsBounds condition ∧ ∃ key : Int64, record.find field = some (.int key.toInt)) :
    matching env record (querySearches env query) = true ↔
      (∀ field, firstCondition objects field ≠ some (.object [])) ∧
      ∀ field c bound, Compared objects field c bound → MeetsRead env record field c bound := by
  have first : ∀ {field condition}, firstCondition objects field = some condition →
      IsBounds condition ∧ ∃ key : Int64, record.find field = some (.int key.toInt) := by
    intro field condition found
    obtain ⟨object, present, here⟩ := exists_of_findSome?_eq_some found
    exact bounded object present field condition here
  rw [matching_iff walk]
  constructor
  · intro all
    have each : ∀ {field condition}, firstCondition objects field = some condition →
        condition ≠ .object [] ∧ ∀ (c : Comparison) (bound : Int64), c.kept condition = true →
          condition.find c.name = some (.int bound.toInt) →
            MeetsRead env record field c bound := by
      intro field condition found
      obtain ⟨bounds, key, held⟩ := first found
      have met := all field (fSearchVal env condition)
        (by rw [lookup_querySearches parts, found]; rfl)
      exact (matchOne_bounds bounds held).mp met
    constructor
    · exact fun field blank => (each blank).1 rfl
    · rintro field c bound ⟨condition, found, kept, present⟩
      exact (each found).2 c bound kept present
  · rintro ⟨filled, all⟩ field srch looked
    rw [lookup_querySearches parts] at looked
    obtain ⟨condition, found, rfl⟩ := map_eq_some_iff.mp looked
    obtain ⟨bounds, key, held⟩ := first found
    refine (matchOne_bounds bounds held).mpr ⟨fun blank => filled field (blank ▸ found), ?_⟩
    exact fun c bound kept present => all field c bound ⟨condition, found, kept, present⟩

theorem Compared.asked {c : Comparison} {bound : Int64}
    (compared : Compared objects field c bound) : Asked objects field c bound := by
  obtain ⟨condition, found, _, present⟩ := compared
  obtain ⟨object, inside, here⟩ := exists_of_findSome?_eq_some found
  exact ⟨object, inside, condition, here, present⟩

/-- Over all queries of bounds and all records with integers in the fields that are mentioned: a
record passes exactly when it meets every bound, if and only if a record that meets what is compared
meets the bounds that are lost, and a record that meets every bound meets those that are compared
with another field and the query has no empty condition that comes first. -/
theorem matching_bounds_iff (walk : env.WalksAll) (query record : Json) (objects : List Json)
    (parts : ObjectsOf query objects)
    (bounded : ∀ object ∈ objects, ∀ field condition, object.find field = some condition →
      IsBounds condition ∧ ∃ key : Int64, record.find field = some (.int key.toInt)) :
    (matching env record (querySearches env query) = true ↔
        ∀ field c bound, Asked objects field c bound → Meets record field c bound) ↔
      ((∀ field, firstCondition objects field ≠ some (.object [])) →
        (∀ field c bound, Compared objects field c bound → MeetsRead env record field c bound) →
        ∀ field c bound, Lost objects field c bound → Meets record field c bound) ∧
      ((∀ field c bound, Asked objects field c bound → Meets record field c bound) →
        (∀ field, firstCondition objects field ≠ some (.object [])) ∧
        ∀ field c bound, Stray objects field c bound → MeetsRead env record field c bound) := by
  have same : ∀ {field c bound}, Asked objects field c bound → 0 ∉ field →
      (MeetsRead env record field c bound ↔ Meets record field c bound) := by
    rintro field c bound ⟨object, present, condition, found, _⟩ plain
    obtain ⟨_, key, held⟩ := bounded object present field condition found
    exact meetsRead_iff plain held c bound
  rw [matching_bounds walk parts bounded]
  constructor
  · intro law
    constructor
    · intro filled read field c bound lost
      exact law.mp ⟨filled, read⟩ field c bound lost.1
    · intro met
      obtain ⟨filled, read⟩ := law.mpr met
      exact ⟨filled, fun field c bound stray => read field c bound stray.1⟩
  · rintro ⟨lost, stray⟩
    constructor
    · rintro ⟨filled, read⟩ field c bound asked
      by_cases own : Compared objects field c bound ∧ 0 ∉ field
      · exact (same asked own.2).mp (read field c bound own.1)
      · refine lost filled read field c bound ⟨asked, fun compared => ?_⟩
        by_contra plain
        exact own ⟨compared, plain⟩
    · intro met
      refine ⟨(stray met).1, fun field c bound compared => ?_⟩
      by_cases zero : 0 ∈ field
      · exact (stray met).2 field c bound ⟨compared, zero⟩
      · exact (same compared.asked zero).mpr (met field c bound compared.asked)

/-- The query for a field `a` from one up to below five. -/
def sampleRange : Json := .object [([97], .object [(gteName, .int 1), (ltName, .int 5)])]

theorem sampleRange_find (found : sampleRange.find field = some condition) :
    field = [97] ∧ condition = .object [(gteName, .int 1), (ltName, .int 5)] := by
  rw [sampleRange, find, lookup_cons] at found
  split at found
  · grind
  · cases found

/-- A record with the value three in the field passes. -/
theorem matching_bounds_iff_sample :
    ObjectsOf sampleRange [sampleRange] ∧
      (matching Reference.env (.object [([97], .int 3)])
          (querySearches Reference.env sampleRange) = true ↔
        ∀ field c bound, Asked [sampleRange] field c bound →
          Meets (.object [([97], .int 3)]) field c bound) := by
  have parts : ObjectsOf sampleRange [sampleRange] :=
    ⟨.inr rfl, fun object present => by rw [mem_singleton.mp present]; rfl⟩
  have bounded : ∀ object ∈ [sampleRange], ∀ field condition, object.find field = some condition →
      IsBounds condition ∧
        ∃ key : Int64, (Json.object [([97], .int 3)]).find field = some (.int key.toInt) := by
    intro object present field condition found
    rw [mem_singleton.mp present] at found
    obtain ⟨rfl, rfl⟩ := sampleRange_find found
    refine ⟨⟨_, rfl, fun member inside => ?_⟩, 3, rfl⟩
    rcases mem_pair.mp inside with rfl | rfl
    · exact ⟨.gte, 1, rfl⟩
    · exact ⟨.lt, 5, rfl⟩
  have met : ∀ field c bound, Asked [sampleRange] field c bound →
      Meets (.object [([97], .int 3)]) field c bound := by
    rintro field c bound ⟨object, present, condition, found, here⟩
    rw [mem_singleton.mp present] at found
    obtain ⟨rfl, rfl⟩ := sampleRange_find found
    refine ⟨3, rfl, ?_⟩
    cases c with
    | lt =>
      have same : (5 : Int64) = bound := toInt_inj.mp (Json.int.inj (Option.some.inj here))
      rw [← same]
      decide
    | gte =>
      have same : (1 : Int64) = bound := toInt_inj.mp (Json.int.inj (Option.some.inj here))
      rw [← same]
      decide
    | lte => cases here
    | gt => cases here
  refine ⟨parts, (matching_bounds_iff Reference.env_lawful.walk sampleRange _ _ parts bounded).mpr
    ⟨fun _ _ field c bound lost => met field c bound lost.1, fun _ => ⟨fun field blank => ?_, ?_⟩⟩⟩
  · obtain ⟨object, present, here⟩ := exists_of_findSome?_eq_some blank
    rw [mem_singleton.mp present] at here
    cases (sampleRange_find here).2
  · rintro field c bound ⟨compared, zero⟩
    obtain ⟨object, present, condition, found, _⟩ := compared.asked
    grind [sampleRange_find]

/-- A list with a lower bound in one object and an upper one for the same field in the next. -/
def sampleTwice : List Json :=
  [.object [([97], .object [(gteName, .int 1)])], .object [([97], .object [(ltName, .int 5)])]]

/-- The value seven passes, although it is not below five. -/
theorem matching_bounds_twice :
    ¬ (matching Reference.env (.object [([97], .int 7)])
          (querySearches Reference.env (.array sampleTwice)) = true ↔
        ∀ field c bound, Asked sampleTwice field c bound →
          Meets (.object [([97], .int 7)]) field c bound) := by
  intro law
  have upper : Asked sampleTwice [97] .lt 5 :=
    ⟨.object [([97], .object [(ltName, .int 5)])], by simp [sampleTwice], _, rfl, rfl⟩
  obtain ⟨key, found, below⟩ := law.mp (by decide) [97] .lt 5 upper
  have same : (7 : Int64) = key := toInt_inj.mp (int.inj (Option.some.inj found))
  rw [← same] at below
  exact absurd below (by decide)

end RssDisk.JManager
