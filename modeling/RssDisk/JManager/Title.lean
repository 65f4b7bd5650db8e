import RssDisk.JManager.Layout

/-!
# Reading a title

A title lists its indexes in a table of names and sizes and then holds the indexes one after the
other. `fetch` and an append read the table back and add up the sizes, so on a title that was
built by the program they find each index where it was put, as long as the sizes fit the table.
-/

namespace RssDisk.JManager

open Lib BTree Bitbase List AList MemoryMappedItem

/-- One entry of the table, with the byte of its kind. -/
def tableEntry (kind : Bytes → UInt8) (index : Bytes × Bytes) : Bytes :=
  u32ToChars (UInt32.ofNat index.1.length) ++ index.1 ++
    u32ToChars (UInt32.ofNat index.2.length) ++ u8ToChars (kind index.1)

/-- The table of built indexes. -/
def tableOf (kind : Bytes → UInt8) (built : List (Bytes × Bytes)) : Bytes :=
  built.flatMap (tableEntry kind)

/-- The names and sizes that the table lists. -/
def queueOf (built : List (Bytes × Bytes)) : List (Bytes × UInt32) :=
  built.map (fun index => (index.1, UInt32.ofNat index.2.length))

/-- The sum of the sizes that a table lists. -/
def listedSize (queue : List (Bytes × UInt32)) : Nat := (queue.map (fun entry => entry.2.toNat)).sum

theorem encodeIndexes_eq (fields : UMap Bytes BaseType) (built : List (Bytes × Bytes)) :
    encodeIndexes fields built =
      let kind := fun name => ((fields.lookup name).getD .none).toByte
      u32ToChars (UInt32.ofNat (tableOf kind built).length) ++ tableOf kind built ++
        built.flatMap Prod.snd := rfl

theorem tableEntry_length (kind : Bytes → UInt8) (index : Bytes × Bytes) :
    (tableEntry kind index).length = 9 + index.1.length := by
  simp [tableEntry]
  omega

theorem retrieve_whole {m : MemoryMappedItem} (whole : m.isCompressed = false)
    (sized : m.currentFileSize = m.data.length) (offset size : Nat) :
    m.retrieve offset size = (m.data.drop offset).take size := by
  unfold retrieve
  simp only [whole, Bool.false_and, Bool.false_eq_true, ↓reduceIte, sized]
  split
  · rename_i inside
    rcases Nat.le_total size (m.data.length - offset) with fits | short
    · rw [Nat.min_eq_left fits]
    · rw [Nat.min_eq_right short, take_of_length_le (by simp),
        take_of_length_le (by simpa using short)]
  · grind [drop_eq_nil_of_le]

theorem take_drop_append {before middle after : Bytes} {offset size : Nat}
    (placed : before.length = offset) (sized : middle.length = size) :
    ((before ++ (middle ++ after)).drop offset).take size = middle := by
  rw [drop_left' placed, take_left' sized]

theorem readTable_eq {m : MemoryMappedItem} (kind : Bytes → UInt8) (built : List (Bytes × Bytes))
    {before after : Bytes} {l fuel : Nat} (placed : before.length = l)
    (stored : ∀ offset size, m.retrieve offset size =
      ((before ++ (tableOf kind built ++ after)).drop offset).take size)
    (enough : built.length ≤ fuel) (small : (tableOf kind built).length < 2 ^ 32) :
    readTable m fuel l (tableOf kind built).length =
      (queueOf built, l + (tableOf kind built).length) := by
  induction built generalizing before l fuel with
  | nil => cases fuel <;> simp [readTable, tableOf, queueOf]
  | cons index built ih =>
    obtain ⟨fuel, rfl⟩ : ∃ n, fuel = n + 1 := ⟨fuel - 1, by simp at enough; omega⟩
    have whole : tableOf kind (index :: built) = tableEntry kind index ++ tableOf kind built := rfl
    have entrySize := tableEntry_length kind index
    rw [whole, length_append, entrySize] at small
    rw [whole] at stored
    have nameSize : (UInt32.ofNat index.1.length).toNat = index.1.length := by
      rw [UInt32.toNat_ofNat_of_lt' (show _ < 2 ^ 32 by omega)]
    have readName : m.retrieveUint32 l = UInt32.ofNat index.1.length := by
      rw [retrieveUint32, stored, tableEntry]
      simp only [append_assoc]
      rw [take_drop_append placed (by simp), charsToU32_u32ToChars]
    have name : m.retrieve (l + 4) index.1.length = index.1 := by
      rw [stored, tableEntry]
      simp only [append_assoc]
      rw [← append_assoc before]
      exact take_drop_append (by simp [placed]) rfl
    have size : m.retrieveUint32 (l + 4 + index.1.length) = UInt32.ofNat index.2.length := by
      rw [retrieveUint32, stored, tableEntry]
      simp only [append_assoc]
      rw [← append_assoc before, ← append_assoc (before ++ _)]
      rw [take_drop_append (by simp [placed]; omega) (by simp), charsToU32_u32ToChars]
    have rest := @ih (before ++ tableEntry kind index) (l + 4 + index.1.length + 5) fuel
      (by simp [placed, entrySize]; omega)
      (fun offset size => by rw [stored offset size, append_assoc, append_assoc])
      (by simpa using enough) (by omega)
    have left : ((9 + index.1.length + (tableOf kind built).length : Nat) : Int) - 9 -
        (index.1.length : Nat) = ((tableOf kind built).length : Nat) := by
      push_cast
      ring
    rw [readTable, whole, length_append, entrySize, if_pos (by push_cast; omega)]
    simp only [readName, nameSize, name, size, left, rest]
    refine Prod.ext rfl ?_
    simp only
    omega

theorem placeSections_fold (queue : List (Bytes × UInt32)) (distinct : (queue.map Prod.fst).Nodup)
    (sections : UMap Bytes Section) (l : Nat)
    (sized : ∀ entry ∈ queue, ∃ offset, sections.lookup entry.1 = some ⟨offset, entry.2⟩) :
    let placed := queue.foldl (fun (sections, l) entry =>
      let placed := (sections.lookup entry.1).getD {}
      (sections.insert entry.1 { placed with offset := UInt32.ofNat l }, l + placed.size.toNat))
      (sections, l)
    placed.2 = l + listedSize queue ∧
      (∀ left name size right, queue = left ++ (name, size) :: right →
        placed.1.lookup name = some ⟨UInt32.ofNat (l + listedSize left), size⟩) ∧
      ∀ name, name ∉ queue.map Prod.fst → placed.1.lookup name = sections.lookup name := by
  induction queue generalizing sections l with
  | nil => exact ⟨rfl, by simp, fun _ _ => rfl⟩
  | cons entry queue ih =>
    rw [map_cons, nodup_cons] at distinct
    obtain ⟨offset, found⟩ := sized entry mem_cons_self
    obtain ⟨total, there, others⟩ := ih distinct.2
      (sections.insert entry.1 ⟨UInt32.ofNat l, entry.2⟩) (l + entry.2.toNat) (by
        intro next present
        have differs : next.1 ≠ entry.1 := fun same =>
          distinct.1 (same ▸ mem_map_of_mem present)
        obtain ⟨at_, looked⟩ := sized next (mem_cons_of_mem _ present)
        exact ⟨at_, by rw [lookup_insert_ne differs, looked]⟩)
    simp only [foldl_cons, found, Option.getD_some]
    refine ⟨?_, ?_, ?_⟩
    · rw [total]
      simp [listedSize]
      omega
    · intro left name size right split
      cases left with
      | nil =>
        simp only [nil_append, List.cons.injEq] at split
        obtain ⟨rfl, rfl⟩ := split
        rw [others name distinct.1, lookup_insert]
        simp [listedSize]
      | cons first left =>
        simp only [cons_append, List.cons.injEq] at split
        obtain ⟨rfl, rfl⟩ := split
        rw [there left name size right rfl]
        simp [listedSize, Nat.add_assoc]
    · intro name absent
      simp only [map_cons, mem_cons, not_or] at absent
      rw [others name absent.2, lookup_insert_ne absent.1]

theorem lookup_foldl_insert {α β : Type} (value : Bytes × α → β) (queue : List (Bytes × α))
    (distinct : (queue.map Prod.fst).Nodup) (map : UMap Bytes β) :
    let filled := queue.foldl (fun map entry => map.insert entry.1 (value entry)) map
    (∀ entry ∈ queue, filled.lookup entry.1 = some (value entry)) ∧
      ∀ name, name ∉ queue.map Prod.fst → filled.lookup name = map.lookup name := by
  induction queue generalizing map with
  | nil => exact ⟨by simp, fun _ _ => rfl⟩
  | cons entry queue ih =>
    rw [map_cons, nodup_cons] at distinct
    obtain ⟨there, others⟩ := ih distinct.2 (map.insert entry.1 (value entry))
    refine ⟨?_, ?_⟩
    · intro next present
      rcases mem_cons.mp present with rfl | later
      · rw [foldl_cons, others next.1 distinct.1, lookup_insert]
      · exact there next later
    · intro name absent
      simp only [map_cons, mem_cons, not_or] at absent
      rw [foldl_cons, others name absent.2, lookup_insert_ne absent.1]

theorem placeSections_eq (queue : List (Bytes × UInt32)) (distinct : (queue.map Prod.fst).Nodup)
    (l : Nat) :
    (placeSections queue l).2 = l + listedSize queue ∧
      (∀ left name size right, queue = left ++ (name, size) :: right →
        (placeSections queue l).1.lookup name =
          some ⟨UInt32.ofNat (l + listedSize left), size⟩) ∧
      ∀ name, name ∉ queue.map Prod.fst → (placeSections queue l).1.lookup name = none := by
  obtain ⟨sized, unsized⟩ := lookup_foldl_insert
    (fun entry => ({ size := entry.2 } : Section)) queue distinct ∅
  obtain ⟨total, there, others⟩ := placeSections_fold queue distinct _ l
    (fun entry present => ⟨0, sized entry present⟩)
  refine ⟨total, there, fun name absent => ?_⟩
  rw [placeSections, others name absent, unsized name absent]
  rfl

theorem listedSize_queueOf {built : List (Bytes × Bytes)}
    (small : (built.flatMap Prod.snd).length < 2 ^ 32) :
    listedSize (queueOf built) = (built.flatMap Prod.snd).length := by
  induction built with
  | nil => rfl
  | cons index built ih =>
    rw [flatMap_cons, length_append] at small ⊢
    have rest := ih (by omega)
    have size : (UInt32.ofNat index.2.length).toNat = index.2.length := by
      rw [UInt32.toNat_ofNat_of_lt' (show _ < 2 ^ 32 by omega)]
    simp only [listedSize, queueOf, map_cons, sum_cons, size] at rest ⊢
    omega

end RssDisk.JManager
