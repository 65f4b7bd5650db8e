import Mathlib.Data.List.AList

/-!
# Unordered maps

A hash map holds at most one value for each key, so it is an association list without repeated
keys. Its two insertions differ on a key that is present: `insert` replaces the value, while
`emplace` keeps it. The order in which a hash map is walked is not part of the map; what walks
one takes the order as a permutation of its entries.
-/

namespace RssDisk.Lib

open List

/-- A hash map from keys to values. -/
abbrev UMap (κ α : Type) := AList (fun _ : κ => α)

namespace UMap

variable {κ α : Type} [DecidableEq κ]

/-- Insert a value unless the key is present. -/
def emplace (map : UMap κ α) (key : κ) (value : α) : UMap κ α :=
  if (map.lookup key).isSome then map else map.insert key value

theorem lookup_emplace (map : UMap κ α) (key other : κ) (value : α) :
    (map.emplace key value).lookup other =
      if other = key then some ((map.lookup key).getD value) else map.lookup other := by
  unfold emplace
  by_cases same : other = key
  · subst same
    cases present : map.lookup other with
    | none => simp
    | some old => simp [present]
  · by_cases present : (map.lookup key).isSome
    · simp [present, same]
    · simp [present, same, AList.lookup_insert_ne]

omit [DecidableEq κ] in
theorem keys_map (change : κ → α → α) (entries : List (Sigma (fun _ : κ => α))) :
    (entries.map (fun entry => (⟨entry.1, change entry.1 entry.2⟩ : Sigma (fun _ : κ => α)))).keys =
      entries.keys := by
  rw [List.keys, map_map]
  rfl

/-- Every value changed, under the same keys. -/
def mapValues (change : κ → α → α) (map : UMap κ α) : UMap κ α where
  entries := map.entries.map (fun entry => ⟨entry.1, change entry.1 entry.2⟩)
  nodupKeys := by
    rw [List.NodupKeys, keys_map]
    exact map.nodupKeys

theorem lookup_mapValues (change : κ → α → α) (map : UMap κ α) (key : κ) :
    (map.mapValues change).lookup key = (map.lookup key).map (change key) := by
  obtain ⟨entries, once⟩ := map
  simp only [mapValues, AList.lookup]
  clear once
  induction entries with
  | nil => rfl
  | cons entry entries ih =>
    obtain ⟨other, value⟩ := entry
    by_cases same : key = other
    · subst same
      grind
    · rw [map_cons, dlookup_cons_ne _ _ same, dlookup_cons_ne _ _ same, ih]

/-- The orders in which a map can be walked. -/
def Walks (map : UMap κ α) (order : List (κ × α)) : Prop :=
  order.Perm (map.entries.map (fun entry => (entry.1, entry.2)))

instance [DecidableEq α] (map : UMap κ α) (order : List (κ × α)) : Decidable (map.Walks order) := by
  unfold Walks
  infer_instance

theorem Walks.mem_iff {map : UMap κ α} {order : List (κ × α)} (walks : map.Walks order) (key : κ)
    (value : α) : (key, value) ∈ order ↔ map.lookup key = some value := by
  have perm : order.Perm (map.entries.map (fun entry => (entry.1, entry.2))) := walks
  rw [perm.mem_iff, mem_map]
  constructor
  · rintro ⟨entry, present, same⟩
    cases same
    exact AList.mem_lookup_iff.mpr present
  · exact fun present => ⟨⟨key, value⟩, AList.mem_lookup_iff.mp present, rfl⟩

omit [DecidableEq κ] in
theorem Walks.eq_nil {order : List (κ × α)} (walks : Walks (∅ : UMap κ α) order) : order = [] :=
  List.Perm.eq_nil walks

omit [DecidableEq κ] in
theorem Walks.eq_singleton {key : κ} {value : α} {order : List (κ × α)}
    (walks : Walks (AList.singleton key value) order) : order = [(key, value)] :=
  perm_singleton.mp walks

theorem Walks.find_eq {map : UMap κ α} {order : List (κ × α)} (walks : map.Walks order) (key : κ) :
    (order.find? (fun entry => entry.1 = key)).map Prod.snd = map.lookup key := by
  cases found : order.find? (fun entry => entry.1 = key) with
  | some entry =>
    have at_ : entry.1 = key := by simpa using find?_some found
    subst at_
    exact ((walks.mem_iff entry.1 entry.2).mp (mem_of_find?_eq_some found)).symm
  | none =>
    cases present : map.lookup key with
    | none => rfl
    | some value =>
      have away := find?_eq_none.mp found (key, value) ((walks.mem_iff key value).mpr present)
      exact absurd (decide_eq_true rfl) away

omit [DecidableEq κ] in
theorem Walks.nodup {map : UMap κ α} {order : List (κ × α)} (walks : map.Walks order) :
    (order.map Prod.fst).Nodup := by
  have keys := walks.map Prod.fst
  rw [map_map] at keys
  exact keys.nodup_iff.mpr map.nodupKeys

theorem Walks.flatMap_eq {β : Type} {map : UMap κ α} {order : List (κ × α)}
    (walks : map.Walks order) (key : κ) (gather : κ × α → List β)
    (only : ∀ entry, entry.1 ≠ key → gather entry = []) :
    order.flatMap gather = ((map.lookup key).map (fun value => gather (key, value))).getD [] := by
  have nothing {entries : List (κ × α)} (away : key ∉ entries.map Prod.fst) :
      entries.flatMap gather = [] := by
    rw [flatMap_eq_nil_iff]
    intro entry present
    apply only
    rintro rfl
    exact away (mem_map_of_mem present)
  cases found : map.lookup key with
  | none =>
    apply nothing
    grind [walks.mem_iff]
  | some value =>
    obtain ⟨front, back, rfl⟩ := append_of_mem ((walks.mem_iff key value).mpr found)
    have once := walks.nodup
    rw [map_append, map_cons, nodup_middle, nodup_cons, mem_append,
      not_or] at once
    rw [flatMap_append, flatMap_cons, nothing once.1.1, nothing once.1.2, append_nil]
    rfl

end UMap

end RssDisk.Lib
