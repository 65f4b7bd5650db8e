import RssDisk.Index.Compare
import RssDisk.JManager.Blocks
import RssDisk.JManager.Title

/-!
# Databases and the files that hold them

A `Store` is a database in its own terms: chunks of records and, for each index, the sorted entries
of the records that have a key. `Stored` says that files hold a store: behind the header of the
file stands the title, with the data behind it or in a data file. What `fetch` opens in such files
shows the store: each index blob, the text of each piece and the text of all records.
-/

namespace RssDisk.JManager

open Lib BTree Bitbase IndexUtility List UInt32 MemoryMappedItem

/-- How a database is stored. -/
structure Format where
  /-- The data stand in a data file, which is version two; in version one behind the title. -/
  separate : Bool
  compressData : Bool
  block : Bool
  compressIndex : Bool
deriving DecidableEq, Repr

namespace Format

def version (format : Format) : Int := if format.separate then 2 else 1

/-- The word of a format in the title. -/
def word (format : Format) : UInt32 :=
  versionWord format.version format.compressData format.block format.compressIndex

theorem word_spec (format : Format) :
    format.word % 256 = (if format.separate then 2 else 1) ∧
      format.word.toNat.testBit 8 = format.compressData ∧
      format.word.toNat.testBit 9 = format.block ∧
      format.word.toNat.testBit 10 = format.compressIndex := by
  rcases format with ⟨_ | _, _ | _, _ | _, _ | _⟩ <;> decide

end Format

/-- The title with a word and some built indexes, with the bytes of their kinds. -/
def titleOf (kind : Bytes → UInt8) (word : UInt32) (built : List (Bytes × Bytes)) : Bytes :=
  magic ++ u32ToChars word ++ (u32ToChars (UInt32.ofNat (tableOf kind built).length) ++
    tableOf kind built ++ built.flatMap Prod.snd)

theorem titleOf_length (kind : Bytes → UInt8) (word : UInt32) (built : List (Bytes × Bytes)) :
    (titleOf kind word built).length =
      11 + (tableOf kind built).length + (built.flatMap Prod.snd).length := by
  simp only [titleOf, magic, length_append, u32ToChars_length, length_cons, length_nil]
  omega

theorem titleOf_append (kind : Bytes → UInt8) (word : UInt32) (built : List (Bytes × Bytes))
    (rest : Bytes) :
    titleOf kind word built ++ rest = magic ++ (u32ToChars word ++
      (u32ToChars (UInt32.ofNat (tableOf kind built).length) ++ (tableOf kind built ++
        (built.flatMap Prod.snd ++ rest)))) := by
  simp only [titleOf, append_assoc]

/-- A database: its format, its chunks of records and its indexes. -/
structure Store (env : Env) where
  format : Format
  chunks : List Chunk
  indexes : List (Bytes × List IndexEntry)
  ok : ∀ chunk ∈ chunks, chunk.Ok env
  single : format.block = false → ∀ chunk ∈ chunks, ∃ record, chunk.records = [record]
  distinct : (indexes.map Prod.fst).Nodup
  sorted : ∀ index ∈ indexes, Sorted index.2
  /-- An index holds one entry for each record that has a key in it, pointing to its piece. -/
  exact : ∀ index ∈ indexes, (format.block = true → index.1 ≠ internalIdx) →
    index.2.Perm (indexEntries env index.1 (pieces env format.block 0 chunks))
  internal : format.block = true →
    (internalIdx, Multimap.entries (internalEntries 0 (pieces env true 0 chunks))) ∈ indexes

namespace Store

variable {env : Env} (s : Store env)

/-- The pieces of the data. -/
def parts : List Piece := pieces env s.format.block 0 s.chunks

/-- The data before they are compressed as a whole. -/
def body : Bytes := bodyOf env s.format.block s.chunks

def records : List Json := recordsOf s.chunks

def names : List Bytes := s.indexes.map Prod.fst

/-- The data as they are stored. -/
def data : Bytes := if s.format.compressData then env.compress s.body else s.body

/-- The indexes as they are stored. -/
def built : List (Bytes × Bytes) :=
  s.indexes.map (fun index => (index.1,
    if s.format.compressIndex then env.compress (encodeEntries index.2) else encodeEntries index.2))

/-- The title, with the bytes of the kinds of the indexes. -/
def title (kind : Bytes → UInt8) : Bytes := titleOf kind s.format.word s.built

theorem title_eq (kind : Bytes → UInt8) : s.title kind = titleOf kind s.format.word s.built := rfl

theorem built_names : s.built.map Prod.fst = s.names := by
  simp [built, names, Function.comp_def]

theorem built_distinct : (s.built.map Prod.fst).Nodup := by
  rw [s.built_names]
  exact s.distinct

end Store

/-- The header of a file: 37 bytes, a number of days in at most nine characters, and a space. -/
def IsHeader (header : Bytes) : Prop :=
  ∃ fixed ttl : Bytes, header = fixed ++ (ttl ++ [32]) ∧ fixed.length = 37 ∧ ttl.length ≤ 9 ∧
    32 ∉ ttl

theorem skipTtl_eq (fixed ttl rest : Bytes) (n : Nat) (few : ttl.length < n) (none : 32 ∉ ttl) :
    skipTtl (fixed ++ (ttl ++ 32 :: rest)) n fixed.length = fixed.length + ttl.length + 1 := by
  induction ttl generalizing fixed n with
  | nil =>
    obtain ⟨n, rfl⟩ : ∃ k, n = k + 1 := ⟨n - 1, by simp at few; omega⟩
    simp [skipTtl]
  | cons digit ttl ih =>
    obtain ⟨n, rfl⟩ : ∃ k, n = k + 1 := ⟨n - 1, by simp at few; omega⟩
    simp only [mem_cons, not_or] at none
    simp only [length_cons] at few
    have here : (fixed ++ (digit :: ttl ++ 32 :: rest)).getD fixed.length 0 = digit := by simp
    have next := ih (fixed ++ [digit]) n (by omega) none.2
    simp only [append_assoc, cons_append, nil_append, length_append,
      length_cons, length_nil, Nat.zero_add] at next here ⊢
    rw [skipTtl, here, if_neg (Ne.symm none.1), next]
    omega

variable {header : Bytes}

theorem contentStart_header (isHeader : IsHeader header) (content : Bytes) :
    contentStart (header ++ content) = header.length := by
  obtain ⟨fixed, ttl, rfl, sized, few, none⟩ := isHeader
  have scanned := skipTtl_eq fixed ttl content 10 (by omega) none
  rw [sized] at scanned
  simp only [contentStart, append_assoc, cons_append, nil_append, scanned,
    length_append, length_cons, length_nil, sized]
  omega

/-- Files hold a store under a name, behind a header. -/
structure Stored {env : Env} (files : Files) (file header : Bytes) (kind : Bytes → UInt8)
    (s : Store env) : Prop where
  /-- The header has a number of days of at most nine characters. -/
  isHeader : IsHeader header
  /-- The header file holds the title and, in version one, the data. -/
  head : files.read file =
    some (header ++ (s.title kind ++ if s.format.separate then [] else s.data))
  separate : s.format.separate = true → files.read (file ++ jExtensionName) = some s.data
  titleSmall : header.length + (s.title kind).length < 2 ^ 32
  bodySmall : s.body.length < 2 ^ 32
  dataSmall : s.data.length < 2 ^ 32

/-- What `fetch` reads when it has opened a store. -/
structure Opened.Shows {env : Env} (o : Opened) (s : Store env) : Prop where
  particularly : o.particularly = s.format.block
  index : ∀ index ∈ s.indexes, o.index env index.1 = encodeEntries index.2
  piece : ∀ p ∈ s.parts,
    o.piece env (UInt32.ofNat p.offset) (UInt32.ofNat p.size) = p.chunk.text env
  allRecords : o.allRecords env = commaJoin (s.records.map env.text)

theorem retrieve_zero (m : MemoryMappedItem) (offset : Nat) : m.retrieve offset 0 = [] := by
  simp [retrieve]

/-- A mapped file shows some bytes from an offset to its end. -/
structure ShowsFrom (m : MemoryMappedItem) (l : Nat) (bytes : Bytes) : Prop where
  size : m.currentFileSize = l + bytes.length
  retrieve : ∀ offset n, offset + n ≤ bytes.length →
    m.retrieve (l + offset) n = (bytes.drop offset).take n

variable {m : MemoryMappedItem}

theorem showsFrom_whole (whole : m.isCompressed = false) (sized : m.currentFileSize = m.data.length)
    {before bytes : Bytes} (content : m.data = before ++ bytes) :
    ShowsFrom m before.length bytes where
  size := by rw [sized, content, length_append]
  retrieve offset n _ := by
    rw [retrieve_whole whole sized, content, ← drop_drop, drop_left]

theorem retrieve_before {l offset n : Nat} (placed : m.decompressedOffset = l)
    (grown : l ≤ m.currentFileSize) (ends : offset + n ≤ l) :
    m.retrieve offset n = (m.data.drop offset).take n := by
  rcases Nat.eq_zero_or_pos n with rfl | some
  · rw [retrieve_zero, take_zero]
  · have ahead : ¬ m.decompressedOffset ≤ offset := by omega
    have within : offset < m.currentFileSize := by omega
    have enough : min n (m.currentFileSize - offset) = n := by omega
    simp [retrieve, ahead, within, enough]

theorem showsFrom_decompressed {env : Env} (zlib : env.ZlibInverse) {m : MemoryMappedItem}
    (whole : m.isCompressed = false) (sized : m.currentFileSize = m.data.length)
    {before bytes : Bytes} (content : m.data = before ++ env.compress bytes)
    (small : before.length + bytes.length + (env.compress bytes).length < 2 ^ 64) :
    ShowsFrom (m.decompressed env before.length (env.compress bytes).length) before.length
      bytes := by
  have decompressed : env.decompressString (m.retrieve before.length (env.compress bytes).length) =
      bytes := by
    rw [retrieve_whole whole sized, content, drop_left, take_length, zlib bytes]
  have sizes : sizeAdd (sizeSub m.currentFileSize (env.compress bytes).length) bytes.length =
      before.length + bytes.length := by
    rw [sized, content, length_append, sizeSub_eq (by omega) (by omega), sizeAdd]
    omega
  have shown : m.decompressed env before.length (env.compress bytes).length =
      { m with decompressedData := bytes, decompressedOffset := before.length, isCompressed := true
               currentFileSize := before.length + bytes.length } := by
    simp only [MemoryMappedItem.decompressed, decompressed, sizes]
  rw [shown]
  refine ⟨rfl, fun offset n inside => ?_⟩
  have fits : sizeAdd offset n ≤ bytes.length := by
    rw [sizeAdd]
    omega
  simp [retrieve, fits]

theorem fetchAllIndexedData_encodeEntries {α : Type} (entries : List IndexEntry)
    (f : IndexEntry → α) :
    (fetchAllIndexedData (encodeEntries entries)).map (fun it => f it.toIndexEntry) =
      entries.map f := by
  rw [fetchAllIndexedData, calculateIndexSize, encodeEntries_length_div, map_map]
  refine ext_getElem (by simp) (fun cursor inside _ => ?_)
  rw [length_map, length_range] at inside
  simp [extractIndex_encodeEntries, entryAt_eq_getElem inside]

variable {env : Env} {s : Store env} {kind : Bytes → UInt8}

theorem Store.piece_toNat (bodySmall : s.body.length < 2 ^ 32) {p : Piece} (present : p ∈ s.parts) :
    (UInt32.ofNat p.offset).toNat = p.offset ∧ (UInt32.ofNat p.size).toNat = p.size := by
  obtain ⟨size, _, ends⟩ := pieces_bounds present
  have shorter : p.size ≤ (segment env s.format.block p.chunk).length := by
    rw [size]
    unfold pieceSize segment
    split <;> simp
  have whole : s.body.length = (bodyOf env s.format.block s.chunks).length := rfl
  constructor <;> exact toNat_ofNat_of_lt' (show _ < 2 ^ 32 by omega)

theorem piece_eq (zlib : env.ZlibInverse) {o : Opened} (shown : ShowsFrom o.data o.l s.body)
    (blocks : o.particularly = s.format.block) (bodySmall : s.body.length < 2 ^ 32) {p : Piece}
    (present : p ∈ s.parts) :
    o.piece env (UInt32.ofNat p.offset) (UInt32.ofNat p.size) = p.chunk.text env := by
  obtain ⟨offset, size⟩ := Store.piece_toNat bodySmall present
  obtain ⟨sized, _, ends⟩ := pieces_bounds present
  have segmented := pieces_segment present [] rfl []
  rw [nil_append, append_nil] at segmented
  have whole : s.body = bodyOf env s.format.block s.chunks := rfl
  rw [← whole] at segmented ends
  unfold Opened.piece
  rw [offset, size, blocks, sized]
  cases block : s.format.block with
  | true =>
    simp only [block, segment, pieceSize, ↓reduceIte] at segmented ends ⊢
    rw [shown.retrieve _ _ (by omega), segmented, zlib]
  | false =>
    simp only [block, segment, pieceSize, Bool.false_eq_true, ↓reduceIte, length_cons]
      at segmented ends ⊢
    have text := congrArg (List.drop 1) segmented
    rw [drop_take, drop_drop, Nat.add_sub_cancel, drop_one, tail_cons] at text
    rw [Nat.add_assoc, shown.retrieve _ _ (by omega), text]

theorem allRecords_eq (zlib : env.ZlibInverse) {o : Opened} (shown : ShowsFrom o.data o.l s.body)
    (blocks : o.particularly = s.format.block) (bodySmall : s.body.length < 2 ^ 32)
    (fits : o.l + s.body.length < 2 ^ 64)
    (indexed : ∀ index ∈ s.indexes, o.index env index.1 = encodeEntries index.2) :
    o.allRecords env = commaJoin (s.records.map env.text) := by
  have joined : commaJoin (s.chunks.map (Chunk.text env)) = commaJoin (s.records.map env.text) :=
    commaJoin_chunks s.ok
  unfold Opened.allRecords
  rw [blocks]
  cases block : s.format.block with
  | true =>
    have blob := indexed _ (s.internal block)
    have parts : s.parts = pieces env true 0 s.chunks := by rw [Store.parts, block]
    have texts : ((fetchAllIndexedData (o.index env internalIdx)).map
        (fun it => o.piece env it.offset it.size)) = s.chunks.map (Chunk.text env) := by
      rw [blob, fetchAllIndexedData_encodeEntries _ (fun e => o.piece env e.offset e.size)]
      have chunks := pieces_map_chunk env true 0 s.chunks
      rw [← parts] at chunks ⊢
      rw [← chunks]
      simp only [Multimap.entries, internalEntries, map_map]
      have each : ∀ entry ∈ s.parts.zipIdx, o.piece env (UInt32.ofNat entry.1.offset)
          (UInt32.ofNat entry.1.size) = entry.1.chunk.text env := fun entry present =>
        piece_eq zlib shown blocks bodySmall (fst_mem_of_mem_zipIdx present)
      rw [map_congr_left (g := fun entry => entry.1.chunk.text env) each]
      conv_rhs => rw [← zipIdx_map_fst 0 s.parts, map_map]
      rfl
    rw [if_pos rfl, texts, joined]
  | false =>
    have content : s.body = if s.chunks = [] then [] else
        44 :: commaJoin (s.records.map env.text) := by
      rw [Store.body, block, bodyOf_plain s.ok]
      rfl
    have size : sizeSub o.data.currentFileSize o.l = s.body.length := by
      rw [shown.size, sizeSub_eq (by omega) fits]
      omega
    simp only [Bool.false_eq_true, ↓reduceIte, size]
    by_cases empty : s.chunks = []
    · rw [content, if_pos empty, length_nil, if_neg (Nat.lt_irrefl 0), retrieve_zero,
        Store.records, empty]
      rfl
    · rw [if_neg empty] at content
      have length := congrArg List.length content
      rw [length_cons] at length
      rw [if_pos (by omega), shown.retrieve 1 _ (by omega), content, drop_one, tail_cons,
        length_cons, Nat.add_sub_cancel, take_length]

theorem word_read {word : UInt32} {rest : Bytes} (isHeader : IsHeader header)
    (whole : m.isCompressed = false) (sized : m.currentFileSize = m.data.length)
    (content : m.data = header ++ (magic ++ (u32ToChars word ++ rest))) :
    contentStart m.data = header.length ∧ header.length < m.currentFileSize ∧
      m.retrieve 0 header.length = header ∧ m.retrieve header.length 3 = magic ∧
      m.retrieveUint32 (header.length + 3) = word := by
  refine ⟨by rw [content, contentStart_header isHeader], ?_, ?_, ?_, ?_⟩
  · rw [sized, content]
    simp [magic]
  · rw [retrieve_whole whole sized, content, drop_zero, take_left]
  · rw [retrieve_whole whole sized, content]
    exact take_drop_append rfl rfl
  · rw [retrieveUint32, retrieve_whole whole sized, content, ← append_assoc header,
      take_drop_append (by simp [magic]) (by simp), charsToU32_u32ToChars]

theorem title_read (kind : Bytes → UInt8) {word : UInt32} {built : List (Bytes × Bytes)}
    {rest : Bytes} (isHeader : IsHeader header)
    (whole : m.isCompressed = false) (sized : m.currentFileSize = m.data.length)
    (content : m.data = header ++ (titleOf kind word built ++ rest))
    (small : header.length + (titleOf kind word built).length < 2 ^ 32) :
    contentStart m.data = header.length ∧ header.length < m.currentFileSize ∧
      m.retrieve 0 header.length = header ∧ m.retrieve header.length 3 = magic ∧
      m.retrieveUint32 (header.length + 3) = word ∧
      (m.retrieveUint32 (header.length + 7)).toNat = (tableOf kind built).length ∧
      readTable m (tableOf kind built).length (header.length + 11)
        (tableOf kind built).length =
        (queueOf built, header.length + 11 + (tableOf kind built).length) := by
  have length := titleOf_length kind word built
  rw [titleOf_append] at content
  obtain ⟨start, inside, front, marked, version⟩ := word_read isHeader whole sized content
  have read : ∀ offset size, m.retrieve offset size = (m.data.drop offset).take size :=
    retrieve_whole whole sized
  rw [content] at read
  have table : (UInt32.ofNat (tableOf kind built).length).toNat =
      (tableOf kind built).length :=
    toNat_ofNat_of_lt' (show _ < 2 ^ 32 by omega)
  refine ⟨start, inside, front, marked, version, ?_, ?_⟩
  · rw [retrieveUint32, read, ← append_assoc header,
      ← append_assoc (header ++ magic), take_drop_append (by simp [magic]) (by simp),
      charsToU32_u32ToChars, table]
  · refine @readTable_eq m kind built (header ++ magic ++ u32ToChars word ++
      u32ToChars (UInt32.ofNat (tableOf kind built).length))
      (built.flatMap Prod.snd ++ rest) _ _ (by simp [magic]) ?_ ?_ (by omega)
    · intro offset size
      grind
    · have each : ∀ built : List (Bytes × Bytes), built.length ≤ (tableOf kind built).length := by
        intro built
        induction built with
        | nil => exact Nat.le_refl _
        | cons index built ih =>
          have entry := tableEntry_length kind index
          rw [tableOf, flatMap_cons, length_append, length_cons]
          rw [tableOf] at ih
          omega
      exact each built

theorem section_read (kind : Bytes → UInt8) {word : UInt32} {built : List (Bytes × Bytes)}
    {title : Bytes} (isTitle : title = titleOf kind word built)
    (listed : (built.map Prod.fst).Nodup) (header rest : Bytes)
    (small : header.length + title.length < 2 ^ 32) :
    let placed := placeSections (queueOf built)
      (header.length + 11 + (tableOf kind built).length)
    placed.2 = header.length + title.length ∧
      ∀ index ∈ built, ∃ place, placed.1.lookup index.1 = some place ∧
        place.offset.toNat + place.size.toNat ≤ header.length + title.length ∧
        ((header ++ (title ++ rest)).drop place.offset.toNat).take place.size.toNat =
          index.2 := by
  subst isTitle
  have length := titleOf_length kind word built
  have distinct : ((queueOf built).map Prod.fst).Nodup := by
    have names : (queueOf built).map Prod.fst = built.map Prod.fst := by
      simp [queueOf, Function.comp_def]
    rw [names]
    exact listed
  obtain ⟨ends, places, _⟩ := placeSections_eq (queueOf built) distinct
    (header.length + 11 + (tableOf kind built).length)
  refine ⟨?_, fun index present => ?_⟩
  · rw [ends, listedSize_queueOf (by omega)]
    omega
  · obtain ⟨left, right, around⟩ := append_of_mem present
    have blobs : built.flatMap Prod.snd =
        left.flatMap Prod.snd ++ (index.2 ++ right.flatMap Prod.snd) := by
      rw [around, flatMap_append, flatMap_cons]
    have total := congrArg List.length blobs
    rw [length_append, length_append] at total
    have before : listedSize (queueOf left) = (left.flatMap Prod.snd).length :=
      listedSize_queueOf (by omega)
    refine ⟨_, places (queueOf left) index.1 (UInt32.ofNat index.2.length) (queueOf right)
      (by rw [around]; simp [queueOf]), ?_⟩
    have offset : (UInt32.ofNat (header.length + 11 + (tableOf kind built).length +
        listedSize (queueOf left))).toNat =
        header.length + 11 + (tableOf kind built).length + (left.flatMap Prod.snd).length := by
      rw [before]
      exact toNat_ofNat_of_lt' (show _ < 2 ^ 32 by omega)
    have size : (UInt32.ofNat index.2.length).toNat = index.2.length :=
      toNat_ofNat_of_lt' (show _ < 2 ^ 32 by omega)
    simp only [offset, size]
    refine ⟨by omega, ?_⟩
    have whole : header ++ (titleOf kind word built ++ rest) =
        (header ++ magic ++ u32ToChars word ++
          u32ToChars (UInt32.ofNat (tableOf kind built).length) ++ tableOf kind built ++
          left.flatMap Prod.snd) ++ (index.2 ++ (right.flatMap Prod.snd ++ rest)) := by
      rw [titleOf, blobs]
      simp only [append_assoc]
    rw [whole]
    exact take_drop_append (by simp [magic]; omega) rfl

theorem index_eq (zlib : env.ZlibInverse) {rest : Bytes}
    (small : header.length + (s.title kind).length < 2 ^ 32) {o : Opened}
    (sections : o.sections = (placeSections (queueOf s.built)
      (header.length + 11 + (tableOf kind s.built).length)).1)
    (packed : o.compressIndex = s.format.compressIndex)
    (read : ∀ offset n, offset + n ≤ header.length + (s.title kind).length →
      o.m.retrieve offset n = ((header ++ (s.title kind ++ rest)).drop offset).take n)
    {index : Bytes × List IndexEntry} (present : index ∈ s.indexes) :
    o.index env index.1 = encodeEntries index.2 := by
  obtain ⟨place, looked, inside, blob⟩ := (section_read kind (s.title_eq kind) s.built_distinct
    header rest small).2 _ (mem_map_of_mem present)
  simp only at looked blob
  simp only [Opened.index, sections, looked, Option.getD_some, read _ _ inside, blob, packed]
  split
  · exact zlib _
  · rfl

theorem openData_shows (zlib : env.ZlibInverse) {files : Files} {file : Bytes}
    (stored : Stored files file header kind s) :
    ∃ o, openData env files file (MemoryMappedItem.read files file) s.format.word
      (queueOf s.built) (header.length + 11 + (tableOf kind s.built).length) = some o ∧
      o.Shows s := by
  obtain ⟨version, compressed, blocks, packed⟩ := s.format.word_spec
  have ends := (section_read kind (s.title_eq kind) s.built_distinct header
    (if s.format.separate then [] else s.data) stored.titleSmall).1
  have titleSmall := stored.titleSmall
  have bodySmall := stored.bodySmall
  have dataSmall := stored.dataSmall
  have content : (MemoryMappedItem.read files file).data =
      header ++ (s.title kind ++ if s.format.separate then [] else s.data) := by
    simp [MemoryMappedItem.read, stored.head]
  -- whatever holds the data, what is opened shows the store once it shows the body and the title
  have shows : ∀ o : Opened, ShowsFrom o.data o.l s.body → o.l < 2 ^ 32 →
      o.particularly = s.format.block → o.sections = (placeSections (queueOf s.built)
        (header.length + 11 + (tableOf kind s.built).length)).1 →
      o.compressIndex = s.format.compressIndex →
      (∀ offset n, offset + n ≤ header.length + (s.title kind).length →
        o.m.retrieve offset n = ((MemoryMappedItem.read files file).data.drop offset).take n) →
      o.Shows s := by
    intro o shown low block sections compressIndex read
    rw [content] at read
    have index : ∀ index ∈ s.indexes, o.index env index.1 = encodeEntries index.2 :=
      fun index present => index_eq zlib titleSmall sections compressIndex read present
    exact ⟨block, index, fun p present => piece_eq zlib shown block bodySmall present,
      allRecords_eq zlib shown block bodySmall (by omega) index⟩
  unfold openData
  simp only [version, compressed, blocks, packed, ends]
  cases separate : s.format.separate with
  | true =>
    have data := stored.separate separate
    have held : (MemoryMappedItem.read files (file ++ jExtensionName)).data = [] ++ s.data := by
      simp [MemoryMappedItem.read, data]
    have size : (MemoryMappedItem.read files (file ++ jExtensionName)).currentFileSize =
        s.data.length := by
      simp [MemoryMappedItem.read, data]
    simp only [↓reduceIte, data]
    refine ⟨_, rfl, shows _ ?_ (Nat.two_pow_pos 32) rfl rfl rfl (fun offset n _ => ?_)⟩
    · rw [Store.data] at held size dataSmall
      split
      · rename_i whole
        simp only [whole, ↓reduceIte] at held size dataSmall
        rw [size]
        exact @showsFrom_decompressed env zlib _ rfl rfl [] s.body held (by simp; omega)
      · rename_i plain
        simp only [plain, Bool.false_eq_true, ↓reduceIte] at held
        exact showsFrom_whole rfl rfl held
    · exact retrieve_whole rfl rfl offset n
  | false =>
    have two : (1 : UInt32) ≠ 2 := by decide
    simp only [separate, Bool.false_eq_true, ↓reduceIte, two] at content ⊢
    rw [← append_assoc] at content
    have length : (header ++ s.title kind).length = header.length + (s.title kind).length :=
      length_append
    have size : sizeSub (MemoryMappedItem.read files file).currentFileSize
        (header.length + (s.title kind).length) = s.data.length := by
      have total := congrArg List.length content
      rw [length_append, length] at total
      have sized : (MemoryMappedItem.read files file).currentFileSize =
        (MemoryMappedItem.read files file).data.length := rfl
      rw [sized, total, sizeSub_eq (by omega) (by omega)]
      omega
    rw [Store.data] at content size dataSmall
    rw [size]
    -- the file as it is after its data are decompressed
    have shown : ShowsFrom (if s.format.compressData then
        (MemoryMappedItem.read files file).decompressed env
          (header.length + (s.title kind).length)
          (if s.format.compressData then env.compress s.body else s.body).length
        else MemoryMappedItem.read files file) (header.length + (s.title kind).length) s.body := by
      rw [← length]
      split
      · rename_i whole
        simp only [whole, ↓reduceIte] at content dataSmall ⊢
        exact showsFrom_decompressed zlib rfl rfl content (by omega)
      · rename_i plain
        simp only [plain, Bool.false_eq_true, ↓reduceIte] at content
        exact showsFrom_whole rfl rfl content
    refine ⟨_, rfl, shows _ shown titleSmall rfl rfl rfl (fun offset n inside => ?_)⟩
    have grown := shown.size
    simp only
    split at grown <;> rename_i whole
    · simp only [whole, ↓reduceIte] at grown ⊢
      exact retrieve_before (l := header.length + (s.title kind).length) rfl (by omega) inside
    · simp only [whole, Bool.false_eq_true, ↓reduceIte]
      exact retrieve_whole rfl rfl offset n

theorem fetch_opened {files : Files} {file jsonSearch rest : Bytes} {word : UInt32}
    {built : List (Bytes × Bytes)} (isHeader : IsHeader header)
    (small : header.length + (titleOf kind word built).length < 2 ^ 32)
    (head : files.read file = some (header ++ (titleOf kind word built ++ rest)))
    (version : word % 256 = 1 ∨ word % 256 = 2) {o : Opened}
    (opened : openData env files file (MemoryMappedItem.read files file) word (queueOf built)
      (header.length + 11 + (tableOf kind built).length) = some o) {query : Json}
    (parsed : env.parseJsonData jsonSearch = some query) (ro : ReadOptions) :
    fetch env files file jsonSearch ro = finishContent env ro (if ro.noHeader then [] else header)
      (91 :: o.select env (markIndexed (queueOf built) (querySearches env query)) ++ [93]) := by
  have content : (MemoryMappedItem.read files file).data =
      header ++ (titleOf kind word built ++ rest) := by simp [MemoryMappedItem.read, head]
  obtain ⟨start, inside, front, marked, isWord, table, queue⟩ :=
    title_read kind isHeader rfl rfl content small
  simp only [fetch, head, parsed, start, inside, front, marked, isWord, table, queue, version,
    and_self, ↓reduceIte, opened]

theorem Stored.fetch_eq (zlib : env.ZlibInverse) {files : Files} {file : Bytes}
    (stored : Stored files file header kind s) :
    ∃ o : Opened, o.Shows s ∧ ∀ jsonSearch query ro, env.parseJsonData jsonSearch = some query →
      fetch env files file jsonSearch ro =
        finishContent env ro (if ro.noHeader then [] else header)
          (91 :: o.select env (markIndexed (queueOf s.built) (querySearches env query)) ++
            [93]) := by
  obtain ⟨o, opened, shows⟩ := openData_shows zlib stored
  have version : s.format.word % 256 = 1 ∨ s.format.word % 256 = 2 := by
    rw [s.format.word_spec.1]
    split
    · exact .inr rfl
    · exact .inl rfl
  exact ⟨o, shows, fun jsonSearch query ro parsed =>
    fetch_opened stored.isHeader stored.titleSmall stored.head version opened parsed ro⟩

end RssDisk.JManager
