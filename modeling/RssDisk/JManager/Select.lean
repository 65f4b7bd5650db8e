import RssDisk.JManager.Store
import RssDisk.Lib.Permutation

/-!
# Searching through indexes

The indexed searches of a query select pieces one index after the other. When every one of them is
a comparison, the pieces that are left are those in which, for each indexed search, some record has
a wanted key. What `fetch` returns are the records of these pieces that meet the searches that are
still to be checked: all of them with blocks, and without blocks those that no index has settled.
-/

namespace RssDisk.JManager

open Lib BTree IndexUtility List AList Bool Store

variable (env : Env)

/-- Some record of a chunk has a wanted key in an index. -/
def hits (chunk : Chunk) (name : Bytes) (srch : Search) : Bool :=
  (chunk.keys env name).any (fun key => key ∈ wantedKeys srch)

/-- A search that is dropped once its index has selected the pieces. -/
def settled (block : Bool) (srch : Search) : Bool := !block && srch.isIndexed && srch.tp ≠ .string

/-- A chunk that every indexed search selects. -/
def selects (searches : UMap Bytes Search) (chunk : Chunk) : Bool :=
  searches.entries.all (fun entry => !entry.2.isIndexed || hits env chunk entry.1 entry.2)

/-- A record that meets every search that is still checked. -/
def meetsRest (block : Bool) (searches : UMap Bytes Search) (record : Json) : Bool :=
  searches.entries.all (fun entry =>
    settled block entry.2 || matchOne env record entry.1 entry.2)

variable {env} {searches : UMap Bytes Search}

theorem mem_order (walk : env.WalksAll) {κ α : Type} [DecidableEq κ] {map : UMap κ α} {key : κ}
    {value : α} : (key, value) ∈ env.order map ↔ map.lookup key = some value := by
  rw [(walk map).mem_iff, ← Option.mem_def, mem_lookup_iff]
  constructor
  · intro present
    obtain ⟨⟨k, v⟩, inside, same⟩ := mem_map.mp present
    cases same
    exact inside
  · exact fun present => mem_map.mpr ⟨_, present, rfl⟩

theorem all_entries {κ α : Type} [DecidableEq κ] {map : UMap κ α} {p : κ → α → Bool} :
    map.entries.all (fun entry => p entry.1 entry.2) = true ↔
      ∀ key value, map.lookup key = some value → p key value = true := by
  rw [all_eq_true]
  constructor
  · intro all key value looked
    exact all ⟨key, value⟩ (mem_lookup_iff.mp looked)
  · rintro all ⟨key, value⟩ present
    exact all key value (mem_lookup_iff.mpr present)

theorem matching_iff (walk : env.WalksAll) {item : Json} :
    matching env item searches = true ↔
      ∀ name srch, searches.lookup name = some srch → matchOne env item name srch = true := by
  rw [matching, all_eq_true]
  constructor
  · intro all name srch looked
    exact all (name, srch) ((mem_order walk).mpr looked)
  · rintro all ⟨name, srch⟩ present
    exact all name srch ((mem_order walk).mp present)

/-- Searches on an opened store as `fetch` runs them: indexed ones are comparisons on indexes that
hold keys of records. -/
structure Searchable (s : Store env) (searches : UMap Bytes Search) : Prop where
  indexed : ∀ name srch, searches.lookup name = some srch → srch.isIndexed = true → name ∈ s.names
  compare : ∀ name srch, searches.lookup name = some srch → srch.isIndexed = true →
    srch.op = .compare
  named : ∀ name srch, searches.lookup name = some srch → srch.isIndexed = true → name ≠ []
  ordinary : ∀ name srch, searches.lookup name = some srch → srch.isIndexed = true →
    s.format.block = true → name ≠ internalIdx

/-- The state of the loop over the indexed searches: which names are used, which pieces are
selected and which searches are left. -/
structure Selecting (s : Store env) (all searches : UMap Bytes Search) (passed : List Bytes)
    (selected : Option (UMap UInt32 UInt32)) : Prop where
  used : passed.Nodup ∧ ∀ name ∈ passed, ∃ srch, all.lookup name = some srch ∧ srch.isIndexed = true
  left : ∀ name, searches.lookup name =
    (all.lookup name).filter (fun srch => !(passed.contains name && settled s.format.block srch))
  started : selected = none ↔ passed = []
  /-- The selected pieces are those that every used search selects. -/
  chosen : ∀ p ∈ s.parts, passes selected (UInt32.ofNat p.offset) = true ↔
    ∀ name ∈ passed, ∀ srch, all.lookup name = some srch → hits env p.chunk name srch = true
  pieces : ∀ map, selected = some map → ∀ offset size, map.lookup offset = some size →
    ∃ p ∈ s.parts, UInt32.ofNat p.offset = offset ∧ UInt32.ofNat p.size = size

variable {s : Store env} {o : Opened} {selected : Option (UMap UInt32 UInt32)} {used : List Bytes}

theorem Store.parts_inj (zlib : env.ZlibInverse) (bodySmall : s.body.length < 2 ^ 32) {p q : Piece}
    (left : p ∈ s.parts) (right : q ∈ s.parts)
    (same : UInt32.ofNat p.offset = UInt32.ofNat q.offset) : p = q := by
  have equal : p.offset = q.offset := by
    rw [← (piece_toNat bodySmall left).1, same, (piece_toNat bodySmall right).1]
  have growing := pieces_pairwise env s.format.block s.chunks
    (fun chunk present => (s.ok chunk present).segment_ne_nil zlib _) 0
  have distinct : (s.parts.map Piece.offset).Nodup :=
    pairwise_map.mpr (growing.imp Nat.ne_of_lt)
  exact inj_on_of_nodup_map distinct left right equal

theorem indexEntries_length (env : Env) (name : Bytes) (start : Nat) (block : Bool)
    (chunks : List Chunk) :
    (indexEntries env name (pieces env block start chunks)).length ≤ (recordsOf chunks).length := by
  induction chunks generalizing start with
  | nil => exact Nat.le_refl _
  | cons chunk chunks ih =>
    have rest := ih (start + (segment env block chunk).length)
    have here : (chunk.keys env name).length ≤ chunk.records.length := length_filterMap_le _ _
    grind [indexEntries, pieces, recordsOf]

theorem fetchIndexedData_pieces (zlib : env.ZlibInverse) (bodySmall : s.body.length < 2 ^ 32)
    (few : s.records.length < 2 ^ 60) {index : Bytes × List IndexEntry}
    (present : index ∈ s.indexes)
    (ordinary : s.format.block = true → index.1 ≠ internalIdx) {srch : Search}
    (compare : srch.op = .compare) (selected : Option (UMap UInt32 UInt32)) (offset size : UInt32) :
    (fetchIndexedData srch (encodeEntries index.2) selected).lookup offset = some size ↔
      ∃ p ∈ s.parts, UInt32.ofNat p.offset = offset ∧ UInt32.ofNat p.size = size ∧
        hits env p.chunk index.1 srch = true ∧ passes selected offset = true := by
  have exact := s.exact index present ordinary
  have entry : ∀ e, e ∈ index.2 ↔ ∃ p ∈ s.parts, ∃ key ∈ p.chunk.keys env index.1,
      (⟨key, UInt32.ofNat p.offset, UInt32.ofNat p.size⟩ : IndexEntry) = e := by
    intro e
    rw [exact.mem_iff, indexEntries, mem_flatMap]
    simp only [mem_map]
    rfl
  have consistent : ∀ a ∈ index.2, ∀ b ∈ index.2, a.offset = b.offset → a.size = b.size := by
    grind [parts_inj]
  have count := indexEntries_length env index.1 0 s.format.block s.chunks
  rw [← exact.length_eq] at count
  rw [fetchIndexedData_compare (s.sorted index present) (lt_of_le_of_lt count few) consistent
    compare]
  constructor
  · rintro ⟨e, inside, wanted, pass, rfl, rfl⟩
    obtain ⟨p, part, key, held, rfl⟩ := (entry e).mp inside
    refine ⟨p, part, rfl, rfl, ?_, pass⟩
    rw [hits, any_eq_true]
    exact ⟨key, held, decide_eq_true wanted⟩
  · rintro ⟨p, part, rfl, rfl, hit, pass⟩
    rw [hits, any_eq_true] at hit
    obtain ⟨key, held, wanted⟩ := hit
    exact ⟨_, (entry _).mpr ⟨p, part, key, held, rfl⟩, of_decide_eq_true wanted, pass, rfl, rfl⟩

theorem Selecting.step (zlib : env.ZlibInverse) (bodySmall : s.body.length < 2 ^ 32)
    (few : s.records.length < 2 ^ 60) (shows : o.Shows s) {all : UMap Bytes Search}
    {passed : List Bytes} (searchable : Searchable s all)
    (state : Selecting s all searches passed selected) {name : Bytes} {srch : Search}
    (looked : searches.lookup name = some srch) (indexed : srch.isIndexed = true)
    (fresh : name ∉ passed) :
    Selecting s all
      (if !o.particularly && srch.tp ≠ .string then searches.erase name else searches)
      (name :: passed) (some (fetchIndexedData srch (o.index env name) selected)) := by
  have known : all.lookup name = some srch := by
    rw [state.left, Option.filter_eq_some_iff] at looked
    exact looked.1
  obtain ⟨index, present, rfl⟩ := mem_map.mp (searchable.indexed name srch known indexed)
  have picked := fetchIndexedData_pieces zlib bodySmall few present
    (searchable.ordinary _ srch known indexed) (searchable.compare _ srch known indexed) selected
  rw [shows.index index present]
  refine ⟨⟨nodup_cons.mpr ⟨fresh, state.used.1⟩, ?_⟩, ?_, by simp, ?_, ?_⟩
  · intro other used
    rcases mem_cons.mp used with rfl | before
    · exact ⟨srch, known, indexed⟩
    · exact state.used.2 other before
  · intro other
    have drop : (!o.particularly && decide (srch.tp ≠ .string)) = settled s.format.block srch := by
      rw [settled, shows.particularly, indexed, Bool.and_true]
    rw [drop]
    by_cases same : other = index.1
    · subst same
      cases gone : settled s.format.block srch with
      | true => simp [known, Option.filter, gone]
      | false =>
        grind
    · have kept : (if settled s.format.block srch = true then searches.erase index.1
          else searches).lookup other = searches.lookup other := by
        split
        · exact lookup_erase_ne same
        · rfl
      rw [kept, state.left]
      simp [same]
  · intro p part
    rw [passes, Option.isSome_iff_exists]
    constructor
    · rintro ⟨size, there⟩ other used other' found
      obtain ⟨q, inside, place, _, hit, pass⟩ := (picked _ _).mp there
      have equal := parts_inj zlib bodySmall inside part place
      subst equal
      rcases mem_cons.mp used with rfl | before
      · rw [known] at found
        cases found
        exact hit
      · exact (state.chosen q part).mp pass other before other' found
    · intro each
      refine ⟨UInt32.ofNat p.size, (picked _ _).mpr ⟨p, part, rfl, rfl, ?_, ?_⟩⟩
      · exact each _ mem_cons_self srch known
      · exact (state.chosen p part).mpr (fun other before =>
          each other (mem_cons_of_mem _ before))
  · grind

theorem selectPieces_spec (zlib : env.ZlibInverse) (walk : env.WalksAll)
    (bodySmall : s.body.length < 2 ^ 32) (few : s.records.length < 2 ^ 60) (shows : o.Shows s)
    {all : UMap Bytes Search} (searchable : Searchable s all) (fuel : Nat) {passed : List Bytes}
    (enough : all.keys.length < passed.length + fuel)
    (state : Selecting s all searches passed selected) :
    let last := selectPieces env o fuel searches passed selected
    ∃ used, Selecting s all last.1 used last.2 ∧
      ∀ name srch, all.lookup name = some srch → srch.isIndexed = true → name ∈ used := by
  induction fuel generalizing searches passed selected with
  | zero =>
    have inside : passed ⊆ all.keys := fun name used => by
      obtain ⟨srch, looked, _⟩ := state.used.2 name used
      rw [← AList.mem_keys, ← AList.lookup_isSome, looked]
      rfl
    have short := (subperm_of_subset state.used.1 inside).length_le
    omega
  | succ fuel ih =>
    rw [selectPieces]
    split
    · rename_i stopped
      refine ⟨passed, state, fun name srch looked indexed => ?_⟩
      by_contra unused
      have still : searches.lookup name = some srch := by
        rw [state.left, looked]
        simp [unused]
      have absurd := find?_eq_none.mp stopped (name, srch) ((mem_order walk).mpr still)
      simp [indexed, unused] at absurd
    · rename_i name srch found
      have here := (mem_order walk).mp (mem_of_find?_eq_some found)
      have wanted := find?_some found
      simp only [and_eq_true, not_eq_true', contains_eq_mem, decide_eq_false_iff_not]
        at wanted
      have known : all.lookup name = some srch := by
        rw [state.left, Option.filter_eq_some_iff] at here
        exact here.1
      rw [if_neg (searchable.named name srch known wanted.1)]
      exact ih (by simp; omega)
        (state.step zlib bodySmall few shows searchable here wanted.1 wanted.2)

theorem Selecting.start (s : Store env) (all : UMap Bytes Search) :
    Selecting s all all [] none := by
  refine ⟨⟨nodup_nil, by simp⟩, fun name => ?_, by simp, by simp [passes], by simp⟩
  cases all.lookup name <;> simp [Option.filter]

theorem Selecting.chosen_iff {all : UMap Bytes Search}
    (state : Selecting s all searches used selected)
    (complete : ∀ name srch, all.lookup name = some srch → srch.isIndexed = true → name ∈ used)
    {p : Piece} (part : p ∈ s.parts) :
    passes selected (UInt32.ofNat p.offset) = true ↔ selects env all p.chunk = true := by
  rw [state.chosen p part, selects,
    all_entries (p := fun name srch => !srch.isIndexed || hits env p.chunk name srch)]
  constructor
  · intro each name srch looked
    cases indexed : srch.isIndexed with
    | false => rfl
    | true => simpa using each name (complete name srch looked indexed) srch looked
  · intro each name used' srch looked
    obtain ⟨other, known, indexed⟩ := state.used.2 name used'
    rw [looked] at known
    cases known
    simpa [indexed] using each name srch looked

theorem Selecting.matching_iff_meetsRest (walk : env.WalksAll) {all : UMap Bytes Search}
    (state : Selecting s all searches used selected)
    (complete : ∀ name srch, all.lookup name = some srch → srch.isIndexed = true → name ∈ used)
    (record : Json) :
    matching env record searches = meetsRest env s.format.block all record := by
  rw [Bool.eq_iff_iff, matching_iff walk, meetsRest,
    all_entries
      (p := fun name srch => settled s.format.block srch || matchOne env record name srch)]
  constructor
  · intro each name srch looked
    cases gone : settled s.format.block srch with
    | true => rfl
    | false =>
      rw [Bool.false_or]
      apply each
      rw [state.left, looked]
      simp [Option.filter, gone]
  · intro each name srch there
    rw [state.left, Option.filter_eq_some_iff] at there
    obtain ⟨looked, kept⟩ := there
    have met := each name srch looked
    cases gone : settled s.format.block srch with
    | false => rwa [gone, Bool.false_or] at met
    | true =>
      have indexed : srch.isIndexed = true := by
        simp only [settled, Bool.and_eq_true] at gone
        exact gone.1.2
      simp [complete name srch looked indexed, gone] at kept

theorem selected_texts (zlib : env.ZlibInverse) (walk : env.WalksAll)
    (bodySmall : s.body.length < 2 ^ 32) (shows : o.Shows s) {all : UMap Bytes Search}
    {map : UMap UInt32 UInt32} (state : Selecting s all searches used (some map))
    (complete : ∀ name srch, all.lookup name = some srch → srch.isIndexed = true → name ∈ used) :
    ∃ ps : List Piece, ps.Perm (s.parts.filter (fun p => selects env all p.chunk)) ∧
      (env.order map).map (fun it => o.piece env it.1 it.2) =
        ps.map (fun p => p.chunk.text env) := by
  have distinct : (s.parts.map (fun p => UInt32.ofNat p.offset)).Nodup := by
    refine List.Nodup.map_on
      (fun p left q right same => parts_inj zlib bodySmall left right same) ?_
    have growing := pieces_pairwise env s.format.block s.chunks
      (fun chunk present => (s.ok chunk present).segment_ne_nil zlib _) 0
    exact growing.imp (fun before same => by rw [same] at before; exact Nat.lt_irrefl _ before)
  have perm : (env.order map).Perm ((s.parts.filter (fun p => selects env all p.chunk)).map
      (fun p => (UInt32.ofNat p.offset, UInt32.ofNat p.size))) := by
    rw [perm_ext_iff_of_nodup]
    · rintro ⟨offset, size⟩
      rw [mem_order walk]
      constructor
      · intro there
        obtain ⟨p, part, rfl, rfl⟩ := state.pieces map rfl offset size there
        refine mem_map.mpr ⟨p, mem_filter.mpr ⟨part, ?_⟩, rfl⟩
        rw [← state.chosen_iff complete part, passes, there]
        rfl
      · intro there
        obtain ⟨p, chosen, same⟩ := mem_map.mp there
        cases same
        obtain ⟨part, selected⟩ := mem_filter.mp chosen
        rw [← state.chosen_iff complete part, passes, Option.isSome_iff_exists] at selected
        obtain ⟨size, found⟩ := selected
        obtain ⟨q, inside, place, length⟩ := state.pieces map rfl _ size found
        rw [found, ← length, parts_inj zlib bodySmall inside part place]
    · have keys : ((env.order map).map Prod.fst).Nodup := by
        have names := (walk map).map Prod.fst
        rw [map_map] at names
        exact names.nodup_iff.mpr map.nodupKeys
      exact List.Nodup.of_map _ keys
    · have offsets : (((s.parts.filter (fun p => selects env all p.chunk)).map
          (fun p => (UInt32.ofNat p.offset, UInt32.ofNat p.size))).map Prod.fst).Nodup := by
        rw [map_map]
        exact distinct.sublist (filter_sublist.map _)
      exact List.Nodup.of_map _ offsets
  have texts := perm.map (fun it => o.piece env it.1 it.2)
  rw [map_map] at texts
  have each : (s.parts.filter (fun p => selects env all p.chunk)).map
      ((fun it => o.piece env it.1 it.2) ∘
      fun p => (UInt32.ofNat p.offset, UInt32.ofNat p.size)) =
      (s.parts.filter (fun p => selects env all p.chunk)).map (fun p => p.chunk.text env) :=
    map_congr_left (fun p chosen => shows.piece p (mem_filter.mp chosen).1)
  rw [each] at texts
  exact exists_perm_map texts

theorem Store.good (s : Store env) : Records env s.records := by
  have each : ∀ record ∈ s.records, ∃ chunk ∈ s.chunks, record ∈ chunk.records :=
    fun record present => mem_flatMap.mp present
  refine ⟨fun record present => ?_, fun record present => ?_, fun record present => ?_⟩
  all_goals obtain ⟨chunk, inside, within⟩ := each record present
  · exact (s.ok chunk inside).records.objects record within
  · exact (s.ok chunk inside).records.names record within
  · exact (s.ok chunk inside).records.readsBack record within

theorem Store.chunk_mem {p : Piece} (part : p ∈ s.parts) : p.chunk ∈ s.chunks := by
  rw [← pieces_map_chunk env s.format.block 0 s.chunks]
  exact mem_map_of_mem part

theorem records_of_parts {ps : List Piece} (inside : ∀ p ∈ ps, p ∈ s.parts) :
    ∀ record ∈ ps.flatMap (fun p => p.chunk.records), record ∈ s.records := by
  intro record present
  obtain ⟨p, part, within⟩ := mem_flatMap.mp present
  have all : s.parts.flatMap (fun p => p.chunk.records) = s.records := pieces_records 0 s.chunks
  rw [← all]
  exact mem_flatMap_of_mem (inside p part) within

theorem filtered_eq (json : env.JsonInverse) (walk : env.WalksAll) {records : List Json}
    (good : Records env records) (searches : UMap Bytes Search) :
    (if searches.entries = [] then commaJoin (records.map env.text)
      else commaJoin (((parseRecords env (commaJoin (records.map env.text))).filter
        (fun item => matching env item searches)).map env.text)) =
      commaJoin ((records.filter (fun item => matching env item searches)).map env.text) := by
  split
  · rename_i empty
    have all : ∀ item ∈ records, matching env item searches = true := by
      intro item _
      rw [matching_iff walk]
      intro name srch looked
      have present := mem_lookup_iff.mp looked
      rw [empty] at present
      cases present
    rw [filter_eq_self.mpr all]
  · rw [parseRecords_commaJoin json good]

theorem selected_records (searches : UMap Bytes Search) :
    (s.parts.filter (fun p => selects env searches p.chunk)).flatMap (fun p => p.chunk.records) =
      (s.chunks.filter (selects env searches)).flatMap Chunk.records := by
  conv_rhs => rw [← pieces_map_chunk env s.format.block 0 s.chunks]
  rw [filter_map, flatMap_map]
  rfl

theorem select_perm (lawful : env.Lawful) (bodySmall : s.body.length < 2 ^ 32)
    (few : s.records.length < 2 ^ 60) (shows : o.Shows s) (searchable : Searchable s searches) :
    ∃ records : List Json, o.select env searches = commaJoin (records.map env.text) ∧
      records.Perm (((s.chunks.filter (selects env searches)).flatMap Chunk.records).filter
        (meetsRest env s.format.block searches)) := by
  rw [← selected_records]
  have all : s.parts.flatMap (fun p => p.chunk.records) = s.records := pieces_records 0 s.chunks
  by_cases indexed : (env.order searches).any (fun it => it.2.isIndexed) = true
  · obtain ⟨used, state, complete⟩ := selectPieces_spec lawful.zlib lawful.walk bodySmall few shows
      searchable (searches.entries.length + 1) (by simp [AList.keys, List.keys])
      (Selecting.start s searches)
    obtain ⟨⟨name, srch⟩, present, wanted⟩ := any_eq_true.mp indexed
    have looked := (mem_order lawful.walk).mp present
    have some : searches.entries ≠ [] := by
      intro empty
      have inside := mem_lookup_iff.mp looked
      grind
    simp only [Opened.select, some, indexed, ↓reduceIte]
    generalize selectPieces env o (searches.entries.length + 1) searches [] none = last at state ⊢
    obtain ⟨left, selected⟩ := last
    cases selected with
    | none =>
      have unused := state.started.mp rfl
      rw [unused] at complete
      cases complete name srch looked wanted
    | some map =>
      obtain ⟨ps, perm, texts⟩ :=
        selected_texts lawful.zlib lawful.walk bodySmall shows state complete
      have inside : ∀ p ∈ ps, p ∈ s.parts := fun p part =>
        (mem_filter.mp (perm.mem_iff.mp part)).1
      have content : commaJoin ((env.order map).map (fun it => o.piece env it.1 it.2)) =
          commaJoin ((ps.flatMap (fun p => p.chunk.records)).map env.text) := by
        have ok : ∀ chunk ∈ ps.map Piece.chunk, chunk.Ok env := by
          intro chunk present
          obtain ⟨p, part, rfl⟩ := mem_map.mp present
          exact s.ok _ (chunk_mem (inside p part))
        have joined := commaJoin_chunks ok
        rw [texts]
        rw [map_map, recordsOf, flatMap_map] at joined
        exact joined
      have good := s.good.subset (records_of_parts inside)
      refine ⟨(ps.flatMap (fun p => p.chunk.records)).filter (fun item => matching env item left),
        ?_, ?_⟩
      · rw [Option.getD_some, content]
        exact filtered_eq lawful.json lawful.walk good left
      · have rest : (fun item => matching env item left) = meetsRest env s.format.block searches :=
          funext (fun record => state.matching_iff_meetsRest lawful.walk complete record)
        rw [rest]
        exact (perm.flatMap_right _).filter _
  · have plain : ∀ name srch, searches.lookup name = some srch → srch.isIndexed = false := by
      intro name srch looked
      by_contra marked
      exact indexed (any_eq_true.mpr
        ⟨(name, srch), (mem_order lawful.walk).mpr looked, by simpa using marked⟩)
    have every : s.parts.filter (fun p => selects env searches p.chunk) = s.parts := by
      rw [filter_eq_self]
      intro p _
      rw [selects,
        all_entries (p := fun name srch => !srch.isIndexed || hits env p.chunk name srch)]
      intro name srch looked
      simp [plain name srch looked]
    have rest : meetsRest env s.format.block searches = fun item => matching env item searches := by
      funext record
      rw [Bool.eq_iff_iff, matching_iff lawful.walk, meetsRest, all_entries
        (p := fun name srch => settled s.format.block srch || matchOne env record name srch)]
      refine forall_congr' fun name => forall_congr' fun srch => imp_congr_right fun looked => ?_
      simp [settled, plain name srch looked]
    refine ⟨s.records.filter (fun item => matching env item searches), ?_, ?_⟩
    · simp only [Opened.select, indexed, false_eq_true, ↓reduceIte, shows.allRecords]
      exact filtered_eq lawful.json lawful.walk s.good searches
    · rw [every, all, rest]

end RssDisk.JManager
