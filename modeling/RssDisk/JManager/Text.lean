import RssDisk.JManager.Fetch

/-!
# Texts of records

The text of an array is the texts of its elements with commas between them, so the pieces of a
database file put together with commas are again such a text, and the reader returns the records
they were printed from.
-/

namespace RssDisk.JManager

open Lib BTree List Json

variable (env : Env)

theorem itemsText_eq_commaJoin (realText : Double → Bytes) (items : List Json) :
    itemsText realText items = commaJoin (items.map (toString realText)) := by
  induction items with
  | nil => rfl
  | cons item items ih =>
    rw [itemsText, map_cons, commaJoin, ih]
    cases items <;> rfl

theorem text_array (items : List Json) :
    env.text (.array items) = 91 :: commaJoin (items.map env.text) ++ [93] := by
  rw [Env.text, Json.toString, itemsText_eq_commaJoin]
  rfl

theorem commaJoin_append (left right : List Bytes) (some : left ≠ []) (more : right ≠ []) :
    commaJoin (left ++ right) = commaJoin left ++ 44 :: commaJoin right := by
  induction left with
  | nil => exact absurd rfl some
  | cons text left ih =>
    cases left with
    | nil =>
      cases right with
      | nil => exact absurd rfl more
      | cons other right => simp [commaJoin]
    | cons next left =>
      grind [commaJoin]

theorem commaJoin_flatten (runs : List (List Bytes)) (inhabited : ∀ run ∈ runs, run ≠ []) :
    commaJoin (runs.map commaJoin) = commaJoin runs.flatten := by
  induction runs with
  | nil => rfl
  | cons run runs ih =>
    have rest := ih (fun other present => inhabited other (mem_cons_of_mem _ present))
    cases runs with
    | nil => simp [commaJoin]
    | cons next runs =>
      have first : run ≠ [] := inhabited run mem_cons_self
      have second : next ≠ [] := inhabited next (by simp)
      have more : (next :: runs).flatten ≠ [] := by
        simp [second]
      rw [flatten_cons, commaJoin_append _ _ first more, ← rest, map_cons,
        map_cons]
      simp [commaJoin]

theorem flatMap_comma (texts : List Bytes) (some : texts ≠ []) :
    texts.flatMap (fun text => 44 :: text) = 44 :: commaJoin texts := by
  induction texts with
  | nil => exact absurd rfl some
  | cons text texts ih =>
    cases texts with
    | nil => simp [commaJoin]
    | cons next texts => rw [flatMap_cons, ih (by simp)]; simp [commaJoin]

variable {env}

/-- Objects that the reader can return and reads back. -/
structure Records (env : Env) (records : List Json) : Prop where
  objects : ∀ record ∈ records, record.isObject = true
  names : ∀ record ∈ records, record.getMemberNames.Nodup
  readsBack : ∀ record ∈ records, env.readsBack record

theorem getMemberNames_nodup {record : Json} (canonical : record.Canonical) :
    record.getMemberNames.Nodup := by
  cases record with
  | object members =>
    exact canonical.2.imp (fun {a b} less (same : a = b) => List.lt_irrefl b (same ▸ less))
  | _ => exact List.nodup_nil

theorem records_of_parse (shape : env.ReadsShaped) {data : Bytes} {items : List Json}
    (parsed : env.parse data = some (.array items))
    (reads : ∀ record ∈ items.filter isObject, env.readsBack record) :
    Records env (items.filter isObject) := by
  have whole : CanonicalItems items := shape data _ parsed
  rw [canonicalItems_iff] at whole
  exact ⟨fun record present => (mem_filter.mp present).2,
    fun record present => getMemberNames_nodup (whole record (mem_filter.mp present).1), reads⟩

theorem Records.subset {records others : List Json} (good : Records env records)
    (inside : ∀ record ∈ others, record ∈ records) : Records env others :=
  ⟨fun record present => good.objects record (inside record present),
    fun record present => good.names record (inside record present),
    fun record present => good.readsBack record (inside record present)⟩

theorem parseRecords_commaJoin (json : env.JsonInverse) {records : List Json}
    (good : Records env records) :
    parseRecords env (commaJoin (records.map env.text)) = records := by
  have read := json records good.readsBack
  rw [text_array] at read
  rw [parseRecords, Env.parseJsonData, if_neg (by simp), read]
  rfl

theorem text_ne_nil_of_isObject (env : Env) {record : Json} (object : record.isObject = true) :
    env.text record ≠ [] := by
  cases record with
  | object members => simp [Env.text, Json.toString]
  | _ => cases object

end RssDisk.JManager
