import RssDisk.JManager.Query
import RssDisk.Reference

/-!
# Declared indexes and what is returned

Whether a field is declared as an index should not change what a query returns. For integers the two
agree unless a wanted integer from `2 ^ 63` on, whose key is read as zero, meets a record that holds
zero.
-/

namespace RssDisk.JManager

open Lib BTree IndexUtility List BasefuncStd Reference Json

variable (env : Env)

/-- The key of a record in a declared index is wanted. -/
def indexHit (fields : UMap Bytes BaseType) (record : Json) (name : Bytes) (srch : Search) : Bool :=
  match recordKey env fields name record with
  | some key => key ∈ wantedKeys srch
  | none => false

/-- The decision on one search for records that are kept one by one: that of the index when the
field is declared, checked again only for strings, and else that of `matching`. -/
def accepts (fields : UMap Bytes BaseType) (record : Json) (name : Bytes) (srch : Search) : Bool :=
  if (fields.lookup name).isSome then
    indexHit env fields record name srch && (srch.tp ≠ .string || matchOne env record name srch)
  else matchOne env record name srch

/-- The declared indexes agree with `matching`: record by record without blocks, and with blocks
in that a block with a matching record has a wanted key in each declared index. -/
def IndexAgrees (particularly : Int) (fields : UMap Bytes BaseType) (records : List Json)
    (searches : UMap Bytes Search) : Prop :=
  if particularly = 0 then
    ∀ record ∈ records,
      searches.entries.all (fun entry => accepts env fields record entry.1 entry.2) = true ↔
        searches.entries.all (fun entry => matchOne env record entry.1 entry.2) = true
  else
    ∀ block ∈ splitBlocks env (threshold particularly) [] records,
      (∃ record ∈ block,
        searches.entries.all (fun entry => matchOne env record entry.1 entry.2) = true) →
      searches.entries.all (fun entry => !(fields.lookup entry.1).isSome ||
        block.any (fun record => indexHit env fields record entry.1 entry.2)) = true

variable {env} {members : List (Bytes × Json)} {name : Bytes} {wanted : List Int}

theorem hits_eq (fields : UMap Bytes BaseType) (records : List Json) (name : Bytes)
    (srch : Search) :
    hits env ⟨records, fields⟩ name srch =
      records.any (fun record => indexHit env fields record name srch) := by
  rw [Bool.eq_iff_iff, hits, any_eq_true, any_eq_true, Chunk.keys]
  constructor
  · rintro ⟨key, present, wanted⟩
    obtain ⟨record, inside, found⟩ := mem_filterMap.mp present
    exact ⟨record, inside, by rw [indexHit, found]; exact wanted⟩
  · rintro ⟨record, inside, hit⟩
    unfold indexHit at hit
    split at hit
    · grind
    · cases hit

theorem selected_plain (fields : UMap Bytes BaseType) (records : List Json)
    (searches : UMap Bytes Search) :
    (((chunksOf env fields 0 records).filter (selectedBy env fields searches)).flatMap
        Chunk.records).filter (checkedBy env false fields searches) =
      records.filter (fun record =>
        searches.entries.all (fun entry => accepts env fields record entry.1 entry.2)) := by
  have single : ((chunksOf env fields 0 records).filter (selectedBy env fields searches)).flatMap
      Chunk.records =
        records.filter (fun record => selectedBy env fields searches ⟨[record], fields⟩) := by
    rw [chunksOf, if_pos rfl, filter_map, flatMap_map]
    exact flatMap_singleton' _
  rw [single, filter_filter]
  refine filter_congr fun record _ => ?_
  rw [Bool.eq_iff_iff, Bool.and_eq_true, checkedBy, selectedBy,
    all_entries (p := fun name srch => accepts env fields record name srch),
    all_entries (p := fun name srch => (!false && (fields.lookup name).isSome &&
      decide (srch.tp ≠ .string)) || matchOne env record name srch),
    all_entries (p := fun name srch => !(fields.lookup name).isSome ||
      hits env ⟨[record], fields⟩ name srch), ← forall_and]
  refine forall_congr' fun name => ?_
  rw [← forall_and]
  refine forall_congr' fun srch => ?_
  rw [← imp_and]
  refine imp_congr_right fun _ => ?_
  have one : hits env ⟨[record], fields⟩ name srch = indexHit env fields record name srch := by
    simp [hits_eq]
  rw [one, accepts]
  cases (fields.lookup name).isSome <;> simp
  tauto

theorem selected_blocks {particularly : Int} (blocks : particularly ≠ 0)
    (fields : UMap Bytes BaseType) (records : List Json) (searches : UMap Bytes Search) :
    (((chunksOf env fields particularly records).filter (selectedBy env fields searches)).flatMap
        Chunk.records).filter (checkedBy env true fields searches) =
      ((((splitBlocks env (threshold particularly) [] records).filter
        (fun block => selectedBy env fields searches ⟨block, fields⟩)).flatMap id).filter
          (fun record => searches.entries.all
            (fun entry => matchOne env record entry.1 entry.2))) := by
  rw [chunksOf, if_neg blocks, filter_map, flatMap_map]
  refine filter_congr fun record _ => ?_
  simp [checkedBy]

theorem selected_undeclared (particularly : Int) {fields : UMap Bytes BaseType}
    (records : List Json) {searches : UMap Bytes Search}
    (undeclared : ∀ name srch, searches.lookup name = some srch → fields.lookup name = none) :
    (((chunksOf env fields particularly records).filter (selectedBy env fields searches)).flatMap
        Chunk.records).filter (checkedBy env (particularly ≠ 0) fields searches) =
      records.filter (fun record =>
        searches.entries.all (fun entry => matchOne env record entry.1 entry.2)) := by
  have every : (chunksOf env fields particularly records).filter (selectedBy env fields searches) =
      chunksOf env fields particularly records := by
    rw [filter_eq_self]
    intro chunk _
    rw [selectedBy, all_entries (p := fun name srch => !(fields.lookup name).isSome ||
      hits env chunk name srch)]
    intro name srch looked
    simp [undeclared name srch looked]
  have all : (chunksOf env fields particularly records).flatMap Chunk.records = records :=
    recordsOf_chunksOf env fields particularly records
  rw [every, all]
  refine filter_congr fun record _ => ?_
  rw [Bool.eq_iff_iff, checkedBy, all_entries (p := fun name srch => matchOne env record name srch),
    all_entries (p := fun name srch => (!decide (particularly ≠ 0) &&
      (fields.lookup name).isSome && decide (srch.tp ≠ .string)) || matchOne env record name srch)]
  refine forall_congr' fun name => forall_congr' fun srch => imp_congr_right fun looked => ?_
  simp [undeclared name srch looked]

section

variable {files files₀ : Files} {file file₀ header header₀ : Bytes}
variable {jsonData jsonSettings jsonSettings₀ jsonSearch : Bytes} {items : List Json}
variable {settings settings₀ : Settings}

theorem returned_perm_iff (lawful : env.Lawful)
    (written : Written env files file header jsonData jsonSettings items settings)
    (bare : Written env files₀ file₀ header₀ jsonData jsonSettings₀ items settings₀)
    {query : Json} (parsed : env.parseJsonData jsonSearch = some query)
    (compare : ∀ name srch, (querySearches env query).lookup name = some srch →
      srch.op = .compare ∧ name ≠ [] ∧ name ≠ internalIdx)
    (undeclared : ∀ name srch, (querySearches env query).lookup name = some srch →
      settings₀.indexedFields.lookup name = none) :
    (returned env files file jsonSearch).Perm (returned env files₀ file₀ jsonSearch) ↔
      IndexAgrees env settings.compressParticularlyData settings.indexedFields
        (items.filter isObject) (querySearches env query) := by
  have left := written.returned_perm lawful parsed compare
  have right := bare.returned_perm lawful parsed compare
  rw [selected_undeclared _ _ undeclared] at right
  have both : (returned env files file jsonSearch).Perm
      (returned env files₀ file₀ jsonSearch) ↔ _ :=
    ⟨fun perm => left.symm.trans (perm.trans right), fun perm => left.trans (perm.trans right.symm)⟩
  rw [both, IndexAgrees]
  by_cases plain : settings.compressParticularlyData = 0
  · rw [if_pos plain, plain]
    simp only [ne_eq, not_true_eq_false, decide_false]
    rw [selected_plain, filter_perm_filter_iff]
  · have whole : (splitBlocks env (threshold settings.compressParticularlyData) []
        (items.filter isObject)).flatMap id = items.filter isObject := by
      rw [flatMap_id]
      exact splitBlocks_flatten env _ [] _
    rw [if_neg plain]
    simp only [plain, ne_eq, not_false_eq_true, decide_true]
    rw [selected_blocks plain]
    generalize splitBlocks env (threshold settings.compressParticularlyData) []
      (items.filter isObject) = groups at whole ⊢
    rw [← whole, filter_groups_perm_iff]
    simp only [selectedBy, hits_eq]
    rfl

/-- Files that hold what was built for one name. -/
def placed (file header : Bytes) (content : DatabaseContent) : Files :=
  let files := (∅ : Files).write file
    (header ++ (content.title ++ if content.version = 1 then content.body else []))
  if content.version = 2 ∧ content.body ≠ [] then files.write (file ++ jExtensionName) content.body
  else files

theorem holds_placed {file : Bytes} (plain : 0 ∉ file) (header : Bytes)
    (content : DatabaseContent) : Holds (placed file header content) file header content := by
  have other : 0 ∉ file ++ jExtensionName := by
    simp [plain, jExtensionName]
  have apart : cStr file ≠ cStr (file ++ jExtensionName) := by
    rw [cStr_eq_self plain, cStr_eq_self other]
    simp [jExtensionName]
  constructor
  · simp only [placed]
    split
    · rw [Files.read_write_of_ne _ apart, Files.read_write_self]
    · rw [Files.read_write_self]
  · intro two
    simp only [placed, two]
    by_cases empty : content.body = []
    · simp only [empty, ne_eq, not_true, and_false, if_false, if_true]
      rw [Files.read_write_of_ne _ apart.symm]
      rfl
    · simp [empty]

/-- A header as a write of a database without a limit of days stores it. -/
def sampleHeader : Bytes :=
  [48, 52] ++ List.replicate 16 0 ++ [50, 48, 50, 52, 45, 48, 49, 45, 48, 49, 32, 48, 48, 58, 48,
    48, 58, 48, 48] ++ [48] ++ [32]

/-- The name `a` of a field and of a file. -/
def sampleName : Bytes := [97]

/-- Settings that declare the field `a` as a string or as a number. -/
def sampleSettings (isString : Bool) : Json :=
  .object [(indexName, .array [.object [([110], .string sampleName),
    ([116], .string (if isString then [115, 116, 114, 105, 110, 103] else []))]])]

/-- A record, or a condition, with the field `a`. -/
def sampleRecord (value : Json) : Json := .object [(sampleName, value)]

/-- The files of a database of records. -/
def sampleFiles (items : List Json) (settings : Json) : Files :=
  placed sampleName sampleHeader (createDatabaseContent Reference.env ∅ []
    (Reference.env.text (.array items)) (Reference.env.text settings) false)

theorem sample_written {items : List Json} {settings : Json}
    (canonical : Reference.isCanonical (.array items) = true ∧
      Reference.isCanonical settings = true)
    (accepted : ((readSettings settings).version = 1 ∨ (readSettings settings).version = 2) ∧
      (readSettings settings).indexedFields.lookup internalIdx = none)
    (small : sampleHeader.length + (buildContent Reference.env ∅ [] (readSettings settings)
        (.array items) false).title.length < 2 ^ 32 ∧
      (buildContent Reference.env ∅ [] (readSettings settings) (.array items)
        false).body.length < 2 ^ 32 ∧
      (gather Reference.env (readSettings settings).indexedFields
        (readSettings settings).compressParticularlyData 0
        (items.filter isObject)).body.length < 2 ^ 32 ∧ items.length < 2 ^ 60) :
    Written Reference.env (sampleFiles items settings) sampleName sampleHeader
      (Reference.env.text (.array items)) (Reference.env.text settings) items
      (readSettings settings) := by
  have isHeader : IsHeader sampleHeader :=
    ⟨sampleHeader.take 37, [48], by decide, by decide, by decide, by decide⟩
  have data := parse_text canonical.1
  have parsed := parse_text canonical.2
  have built : createDatabaseContent Reference.env ∅ [] (Reference.env.text (.array items))
      (Reference.env.text settings) false =
      buildContent Reference.env ∅ [] (readSettings settings) (.array items) false := by
    simp only [createDatabaseContent, data, parsed]
  have reads : ∀ record ∈ items.filter isObject, Reference.isCanonical record = true :=
    fun record present => (areCanonical_iff items).mp canonical.1 record (mem_filter.mp present).1
  refine ⟨data, reads, ⟨settings, parsed, rfl⟩, ?_, isHeader, accepted.1, fun _ => accepted.2,
    small.2.2.1, ?_, ?_, small.2.2.2⟩
  all_goals rw [createDatabaseContent_false Reference.env _ ∅ sampleName []]
  · exact holds_placed (by decide) sampleHeader _
  · grind
  · rw [built]
    exact small.1

theorem find_member (distinct : (members.map Prod.fst).Nodup) {member : Bytes × Json}
    (present : member ∈ members) :
    (object members).find member.1 = some member.2 := by
  rw [find]
  induction members with
  | nil => cases present
  | cons first members ih =>
    rw [map_cons, nodup_cons] at distinct
    rw [lookup_cons]
    rcases mem_cons.mp present with rfl | later
    · simp
    · have differ : member.1 ≠ first.1 := fun same =>
        distinct.1 (same ▸ mem_map_of_mem later)
      simp only [beq_false_of_ne differ]
      exact ih distinct.2 later

theorem mem_getMemberNames {record value : Json} (found : record.find name = some value) :
    name ∈ record.getMemberNames := by
  cases record with
  | object members =>
    rw [find] at found
    rw [getMemberNames]
    induction members with
    | nil => cases found
    | cons first members ih =>
      rw [lookup_cons] at found
      split at found
      · rename_i same
        grind
      · exact mem_cons_of_mem _ (ih found)
  | _ => cases found

theorem querySearches_object (distinct : (members.map Prod.fst).Nodup) {srch : Search} :
    (querySearches env (.object members)).lookup name = some srch ↔
      ∃ member ∈ members, member.1 = name ∧ fSearchVal env member.2 = srch := by
  rw [querySearches, lookup_fSearch, AList.lookup_empty, Option.none_or]
  constructor
  · intro looked
    split at looked
    · rename_i named
      obtain ⟨member, present, rfl⟩ := mem_map.mp named
      refine ⟨member, present, rfl, ?_⟩
      grind [Json.get, find_member]
    · cases looked
  · rintro ⟨member, present, rfl, rfl⟩
    have inside : member.1 ∈ (object members).getMemberNames := mem_map_of_mem present
    rw [if_pos inside, Json.get, find_member distinct present]
    rfl

theorem query_canonical (shape : env.ReadsShaped) {query : Json}
    (parsed : env.parseJsonData jsonSearch = some query) : query.Canonical := by
  unfold Env.parseJsonData at parsed
  split at parsed
  · cases parsed
    trivial
  · exact shape _ _ parsed

theorem query_names (shape : env.ReadsShaped)
    (parsed : env.parseJsonData jsonSearch = some (.object members)) :
    (members.map Prod.fst).Nodup := getMemberNames_nodup (query_canonical shape parsed)

/-- The integer of a value. -/
def asInteger : Json → Option Int
  | .int value => some value
  | _ => none

/-- The wanted integers of an equality or a `$in` list. -/
def integersOf : Json → Option (List Int)
  | .int value => some [value]
  | .object [(name, .array items)] => if name = inName then items.mapM asInteger else none
  | _ => none

theorem eq_map_int {items : List Json} (read : items.mapM asInteger = some wanted) :
    items = wanted.map .int := by
  induction items generalizing wanted with
  | nil =>
    cases read
    rfl
  | cons it items ih =>
    cases it with
    | int w =>
      cases rest : items.mapM asInteger with
      | none => simp [asInteger, rest] at read
      | some others =>
        simp only [mapM_cons, asInteger, rest] at read
        cases read
        rw [ih rest]
        rfl
    | _ => simp [asInteger] at read

theorem fSearchVal_integers {val : Json} (integers : integersOf val = some wanted) :
    fSearchVal env val = { i := wanted.map (fun w => { indexed := toString w }) } := by
  have list : ∀ ind : Search, (wanted.map int).foldl (addWanted env) ind =
      { ind with i := ind.i ++ wanted.map (fun w => { indexed := toString w }) } := by
    clear integers
    induction wanted with
    | nil => simp
    | cons w wanted ih =>
      intro ind
      have one : addWanted env ind (.int w) =
          { ind with i := ind.i ++ [{ indexed := toString w }] } := rfl
      grind
  match val, integers with
  | .int value, integers =>
    cases integers
    rfl
  | .object [(name, .array items)], integers =>
    simp only [integersOf] at integers
    split at integers
    · rename_i isIn
      subst isIn
      have unfolded : fSearchVal env (.object [(inName, .array items)]) =
          items.foldl (addWanted env) {} := rfl
      rw [unfolded, eq_map_int integers, list]
      rfl
    · cases integers

/-- A record holds an integer in a field that meets a question. -/
def holdsInteger (record : Json) (name : Bytes) (question : Int → Bool) : Bool :=
  match record.find name with
  | some (.int value) => question value
  | _ => false

/-- A condition wants an integer. -/
def wants (condition : Json) (value : Int) : Bool :=
  ((integersOf condition).getD []).contains value

/-- The value is zero and a condition wants an integer that does not fit its key. -/
def wantsUnread (condition : Json) (value : Int) : Bool :=
  value = 0 && ((integersOf condition).getD []).any (fun wanted => 2 ^ 63 ≤ wanted)

/-- A field that holds an integer of 64 bits wherever it is present. -/
def HoldsIntegers (record : Json) (name : Bytes) : Prop :=
  ∀ value, record.find name = some value → ∃ i, value = .int i ∧ -2 ^ 63 ≤ i ∧ i < 2 ^ 63

theorem matchOne_integer {record condition : Json} (integers : integersOf condition = some wanted)
    (held : HoldsIntegers record name) :
    matchOne env record name (fSearchVal env condition) =
      holdsInteger record name (wants condition) := by
  rw [fSearchVal_integers integers, matchOne, holdsInteger]
  cases found : record.find name with
  | none => rfl
  | some value =>
    obtain ⟨i, rfl, _⟩ := held value found
    rw [Bool.eq_iff_iff]
    simp only [wants, integers, Option.getD_some, cmpValue, cmpOne, Env.text, Json.toString,
      any_map, ↓reduceIte, reduceCtorEq, contains_eq_mem, decide_eq_true_eq,
      any_eq_true, Function.comp_apply]
    constructor
    · grind [toString_inj]
    · exact fun present => ⟨i, present, rfl⟩

theorem stol_toString (w : Int) :
    (stol (toString w)).getD 0 =
      if -2 ^ 63 ≤ w ∧ w < 2 ^ 63 then Int64.ofInt w else 0 := by
  rw [stol, strtol_toString]
  simp only
  split <;> rfl

theorem indexHit_integer {record condition : Json} {fields : UMap Bytes BaseType}
    (integers : integersOf condition = some wanted) (range : ∀ w ∈ wanted, -2 ^ 63 ≤ w)
    (plain : 0 ∉ name) (numeric : fields.lookup name = some .numeric)
    (held : HoldsIntegers record name) :
    indexHit env fields record name (fSearchVal env condition) =
      holdsInteger record name (fun i => wants condition i || wantsUnread condition i) := by
  rw [indexHit, holdsInteger, recordKey, fieldKey, numeric, Option.bind_some, tryMakeIndexParameter,
    cStr_eq_self plain]
  cases found : record.find name with
  | none => simp
  | some value =>
    obtain ⟨i, rfl, low, high⟩ := held value found
    have member := mem_getMemberNames found
    have fits : (int i).isInt64 = true := by
      simp only [isInt64, integral, Bool.and_eq_true, decide_eq_true_eq]
      exact ⟨low, high⟩
    have keys : wantedKeys (fSearchVal env condition) = wanted.map (fun w =>
        if -2 ^ 63 ≤ w ∧ w < 2 ^ 63 then Int64.ofInt w else 0) := by
      rw [fSearchVal_integers integers, wantedKeys, map_map]
      exact map_congr_left (fun w _ => stol_toString w)
    simp only [member, ↓reduceIte, fits, Bool.or_true, Option.map_some, keys]
    have value := Int64.toInt_ofInt_of_le low high
    have same : ∀ w, -2 ^ 63 ≤ w → w < 2 ^ 63 → Int64.ofInt w = Int64.ofInt i → w = i := by
      intro w low' high' equal
      rw [← Int64.toInt_ofInt_of_le low' high', equal, value]
    simp only [wants, wantsUnread, integers, Option.getD_some]
    rw [Bool.eq_iff_iff]
    simp only [asInt, integral, Option.getD_some, mem_map, decide_eq_true_eq,
      contains_eq_mem, Bool.or_eq_true, Bool.and_eq_true, any_eq_true]
    constructor
    · rintro ⟨w, present, equal⟩
      split at equal
      · grind
      · rename_i outside
        have large : 2 ^ 63 ≤ w := by
          grind
        refine .inr ⟨?_, w, present, large⟩
        have zero := congrArg Int64.toInt equal
        grind
    · rintro (present | ⟨rfl, w, present, large⟩)
      · exact ⟨i, present, if_pos ⟨low, high⟩⟩
      · exact ⟨w, present, if_neg (by omega)⟩

theorem integers_range (shape : env.ReadsShaped)
    (parsed : env.parseJsonData jsonSearch = some (.object members)) {member : Bytes × Json}
    (present : member ∈ members) (integers : integersOf member.2 = some wanted) :
    ∀ w ∈ wanted, -2 ^ 63 ≤ w := by
  have whole := query_canonical shape parsed
  have canonical := (canonicalMembers_iff members).mp whole.1 member present
  generalize member.2 = val at integers canonical
  match val, integers, canonical with
  | .int i, integers, canonical =>
    cases integers
    intro w same
    rw [mem_singleton.mp same]
    exact canonical.1
  | .object [(name, .array items)], integers, canonical =>
    simp only [integersOf] at integers
    split at integers
    · intro w inside
      have list : CanonicalItems items := canonical.1.1
      rw [canonicalItems_iff, eq_map_int integers] at list
      exact (list _ (mem_map_of_mem inside)).1
    · cases integers

theorem all_searches (distinct : (members.map Prod.fst).Nodup) {p : Bytes → Search → Bool} :
    (querySearches env (.object members)).entries.all (fun entry => p entry.1 entry.2) = true ↔
      ∀ member ∈ members, p member.1 (fSearchVal env member.2) = true := by
  rw [all_entries]
  constructor
  · intro all member present
    exact all _ _ ((querySearches_object distinct).mpr ⟨member, present, rfl, rfl⟩)
  · intro all name srch looked
    obtain ⟨member, present, rfl, rfl⟩ := (querySearches_object distinct).mp looked
    exact all member present

theorem holdsInteger_mono {record : Json} {p q : Int → Bool} (weaker : ∀ i, p i = true → q i = true)
    (held : holdsInteger record name p = true) :
    holdsInteger record name q = true := by
  unfold holdsInteger at held ⊢
  split at held
  · exact weaker _ held
  · cases held

/-- For equalities and `$in` lists of integers, declaring the queried fields as numeric indexes
leaves the returned records as they are exactly when the records are in blocks, or when no record is
taken only because a wanted integer does not fit its key. -/
theorem fetch_integers_iff (lawful : env.Lawful)
    (written : Written env files file header jsonData jsonSettings items settings)
    (bare : Written env files₀ file₀ header₀ jsonData jsonSettings₀ items settings₀)
    {members : List (Bytes × Json)}
    (parsed : env.parseJsonData jsonSearch = some (.object members))
    (integers : ∀ member ∈ members, (integersOf member.2).isSome = true)
    (named : ∀ member ∈ members, member.1 ≠ [] ∧ member.1 ≠ internalIdx ∧ 0 ∉ member.1)
    (undeclared : ∀ member ∈ members, settings₀.indexedFields.lookup member.1 = none)
    (numeric : ∀ member ∈ members, settings.indexedFields.lookup member.1 = none ∨
      settings.indexedFields.lookup member.1 = some .numeric)
    (held : ∀ record ∈ items.filter isObject, ∀ member ∈ members,
      HoldsIntegers record member.1) :
    (returned env files file jsonSearch).Perm (returned env files₀ file₀ jsonSearch) ↔
      settings.compressParticularlyData ≠ 0 ∨
        ∀ record ∈ items.filter isObject,
          (∀ member ∈ members, holdsInteger record member.1 (fun i => wants member.2 i ||
            (settings.indexedFields.lookup member.1).isSome && wantsUnread member.2 i) = true) →
          ∀ member ∈ members, holdsInteger record member.1 (wants member.2) = true := by
  have distinct := query_names lawful.shape parsed
  -- what the program decides about one condition, in terms of integers
  have matched : ∀ record ∈ items.filter isObject, ∀ member ∈ members,
      matchOne env record member.1 (fSearchVal env member.2) =
        holdsInteger record member.1 (wants member.2) := by
    intro record inside member present
    obtain ⟨wanted, read⟩ := Option.isSome_iff_exists.mp (integers member present)
    exact matchOne_integer read (held record inside member present)
  have hit : ∀ record ∈ items.filter isObject, ∀ member ∈ members,
      (settings.indexedFields.lookup member.1).isSome = true →
      indexHit env settings.indexedFields record member.1 (fSearchVal env member.2) =
        holdsInteger record member.1 (fun i => wants member.2 i || wantsUnread member.2 i) := by
    intro record inside member present declared
    obtain ⟨wanted, read⟩ := Option.isSome_iff_exists.mp (integers member present)
    refine indexHit_integer read (integers_range lawful.shape parsed present read)
      (named member present).2.2 ?_ (held record inside member present)
    rcases numeric member present with none | some
    · rw [none] at declared
      cases declared
    · exact some
  have accepted : ∀ record ∈ items.filter isObject, ∀ member ∈ members,
      accepts env settings.indexedFields record member.1 (fSearchVal env member.2) =
        holdsInteger record member.1 (fun i => wants member.2 i ||
          (settings.indexedFields.lookup member.1).isSome && wantsUnread member.2 i) := by
    intro record inside member present
    have kind : (fSearchVal env member.2).tp = .numeric := by
      obtain ⟨wanted, read⟩ := Option.isSome_iff_exists.mp (integers member present)
      rw [fSearchVal_integers read]
    rw [accepts, kind]
    cases declared : (settings.indexedFields.lookup member.1).isSome with
    | true => simp [hit record inside member present declared]
    | false => simp [matched record inside member present]
  rw [returned_perm_iff lawful written bare parsed (fun name srch looked => ?_)
    (fun name srch looked => ?_), IndexAgrees]
  · split
    · rename_i plain
      rw [or_iff_right (by simp [plain])]
      refine forall_congr' fun record => imp_congr_right fun inside => ?_
      rw [all_searches distinct (p := fun name srch =>
          accepts env settings.indexedFields record name srch),
        all_searches distinct (p := fun name srch => matchOne env record name srch)]
      constructor
      · intro agree taken member present
        rw [← matched record inside member present]
        exact agree.mp (fun other there => by
          rw [accepted record inside other there]
          exact taken other there) member present
      · intro only
        constructor
        · intro taken member present
          rw [matched record inside member present]
          exact only (fun other there => by
            rw [← accepted record inside other there]
            exact taken other there) member present
        · intro matching member present
          rw [accepted record inside member present]
          refine holdsInteger_mono (fun i wanted => ?_)
            (matched record inside member present ▸ matching member present)
          rw [wanted, Bool.true_or]
    · rename_i blocks
      refine iff_of_true (fun block within => ?_) (.inl blocks)
      rintro ⟨record, there, matching⟩
      have inside : record ∈ items.filter isObject := by
        rw [← nil_append (items.filter isObject), ← splitBlocks_flatten env
          (threshold settings.compressParticularlyData) [] (items.filter isObject)]
        exact mem_flatten_of_mem within there
      rw [all_searches distinct (p := fun name srch => matchOne env record name srch)] at matching
      rw [all_searches distinct (p := fun name srch =>
        !(settings.indexedFields.lookup name).isSome ||
          block.any (fun record => indexHit env settings.indexedFields record name srch))]
      intro member present
      cases declared : (settings.indexedFields.lookup member.1).isSome with
      | false => rfl
      | true =>
        rw [Bool.not_true, Bool.false_or, any_eq_true]
        refine ⟨record, there, ?_⟩
        rw [hit record inside member present declared]
        refine holdsInteger_mono (fun i wanted => ?_)
          (matched record inside member present ▸ matching member present)
        rw [wanted, Bool.true_or]
  all_goals obtain ⟨member, present, rfl, rfl⟩ := (querySearches_object distinct).mp looked
  · obtain ⟨wanted, read⟩ := Option.isSome_iff_exists.mp (integers member present)
    refine ⟨by rw [fSearchVal_integers read], (named member present).1, (named member present).2.1⟩
  · exact undeclared member present

end

/-- Two integers under a numeric index: the search for one of them finds the same record with the
index and without it. -/
theorem fetch_integers_small :
    (returned Reference.env
      (sampleFiles [sampleRecord (.int 5), sampleRecord (.int 7)] (sampleSettings false))
      sampleName (Reference.env.text (sampleRecord (.int 5)))).Perm
    (returned Reference.env
      (sampleFiles [sampleRecord (.int 5), sampleRecord (.int 7)] (.object []))
      sampleName (Reference.env.text (sampleRecord (.int 5)))) :=
  (fetch_integers_iff env_lawful
    (sample_written (by decide) (by decide) (by decide))
    (sample_written (by decide) (by decide) (by decide))
    (parse_text (by decide)) (by decide) (by decide) (by decide) (by decide)
    (by
      intro record inside member present value found
      rw [mem_singleton.mp present] at found
      have same : value = .int 5 ∨ value = .int 7 := by
        rcases mem_cons.mp inside with rfl | last
        · exact Or.inl (Option.some.inj found).symm
        · rw [mem_singleton.mp last] at found
          exact Or.inr (Option.some.inj found).symm
      rcases same with rfl | rfl
      · exact ⟨5, rfl, by decide⟩
      · exact ⟨7, rfl, by decide⟩)).mpr (by decide)

/-- The wanted `2 ^ 63` does not fit the key, which stays zero, so the search finds the record with
zero under a declared index and nothing without it. -/
theorem fetch_integers_large :
    Written Reference.env
      (sampleFiles [sampleRecord (.int 0)] (sampleSettings false)) sampleName sampleHeader
      (Reference.env.text (.array [sampleRecord (.int 0)]))
      (Reference.env.text (sampleSettings false)) [sampleRecord (.int 0)]
      (readSettings (sampleSettings false)) ∧
    Written Reference.env
      (sampleFiles [sampleRecord (.int 0)] (.object [])) sampleName sampleHeader
      (Reference.env.text (.array [sampleRecord (.int 0)]))
      (Reference.env.text (.object [])) [sampleRecord (.int 0)]
      (readSettings (.object [])) ∧
    (returned Reference.env
      (sampleFiles [sampleRecord (.int 0)] (sampleSettings false))
      sampleName (Reference.env.text (sampleRecord (.int (2 ^ 63))))).length = 1 ∧
    (returned Reference.env
      (sampleFiles [sampleRecord (.int 0)] (.object []))
      sampleName (Reference.env.text (sampleRecord (.int (2 ^ 63))))).length = 0 :=
  ⟨sample_written (by decide) (by decide) (by decide),
    sample_written (by decide) (by decide) (by decide), by decide +kernel, by decide +kernel⟩

end RssDisk.JManager
