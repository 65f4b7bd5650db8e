import RssDisk.CManager.Payload
import RssDisk.Lib.Blocks
import RssDisk.Reference

/-!
# Batches of the database of keys

A client collects the encodings of many keys in one payload. The walk recovers each of them,
whatever bytes the keys and the values have, so that the batch has the effect of its entries one
after another.
-/

namespace RssDisk.CManager

open Lib Bitbase List

section

variable {clock : Nat → Int} {store : DataStore} {changes : List Change}

theorem applyAll_append (front back : List Change) :
    applyAll clock store (front ++ back) =
      applyAll (fun k => clock (front.length + k)) (applyAll clock store front) back := by
  induction front generalizing clock store with
  | nil => simp [applyAll]
  | cons change front ih =>
    simp only [cons_append, applyAll, ih, length_cons]
    grind

theorem lookup_apply_of_ne {now : Int} {change : Change} {key : Bytes} (ne : key ≠ change.key) :
    (change.apply now store).map.lookup key = store.map.lookup key := by
  unfold Change.apply
  split
  · exact AList.lookup_erase_ne ne
  · exact AList.lookup_insert_ne ne

theorem lookup_applyAll_of_notMem {key : Bytes} (other : key ∉ changes.map Change.key) :
    (applyAll clock store changes).map.lookup key = store.map.lookup key := by
  induction changes generalizing clock store with
  | nil => rfl
  | cons change changes ih =>
    rw [map_cons, mem_cons, not_or] at other
    rw [applyAll, ih other.2, lookup_apply_of_ne other.1]

theorem lookup_applyAll_last (front back : List Change) {change : Change}
    (content : change.item.content ≠ []) (last : change.key ∉ back.map Change.key) :
    (applyAll clock store (front ++ change :: back)).map.lookup change.key =
      some ⟨change.item, clock front.length + change.ttl.toInt * 10 ^ 9⟩ := by
  rw [applyAll_append, applyAll, lookup_applyAll_of_notMem last, Change.apply, if_neg content]
  exact AList.lookup_insert _

end

/-- What `prepare_cdb` is called with, and the time that it reads. -/
structure Entry where
  key : Bytes
  val : Bytes
  ttl : Int32
  time : Int64
deriving DecidableEq

section

variable (env : Env) (crc32 : Bytes → Int64)

namespace Entry

variable (e : Entry)

def encoded : Bytes := prepareCdb env crc32 e.time e.key e.val e.ttl

/-- The record that the encoding is meant to be. -/
def record : Record := ⟨e.time, crc32 e.val, e.ttl, e.key, env.compress e.val⟩

def change : Change := ⟨e.key, ⟨env.compress e.val, crc32 e.val, e.time⟩, e.ttl⟩

theorem length_encoded : (e.encoded env crc32).length = (e.record env crc32).size := by
  simp only [encoded, prepareCdb, record, Record.size, length_append, i64ToChars_length,
    i32ToChars_length]

theorem headerAt_encoded (rest : Bytes) :
    headerAt (e.encoded env crc32 ++ rest) 0 =
      ⟨e.time, crc32 e.val, e.ttl, Int32.ofNat e.key.length,
        Int32.ofNat (env.compress e.val).length⟩ := by
  simp [headerAt, encoded, prepareCdb, drop_append, drop_of_length_le]

theorem drop_encoded (rest : Bytes) (count : Nat) :
    (e.encoded env crc32 ++ rest).drop (28 + count) =
      (e.key ++ (env.compress e.val ++ rest)).drop count := by
  rw [← drop_drop]
  congr 1
  simp [encoded, prepareCdb, drop_append, drop_of_length_le]

theorem lt_length_encoded (key : e.key ≠ []) : 28 < (e.encoded env crc32).length := by
  have positive := length_pos_iff.mpr key
  rw [length_encoded, Record.size]
  simp only [record]
  omega

theorem readRecord_encoded (more : 28 < (e.encoded env crc32).length)
    (small : (e.encoded env crc32).length < 2 ^ 31) (rest : Bytes) :
    readRecord (e.encoded env crc32 ++ rest) = some (e.record env crc32, rest) := by
  rw [length_encoded, Record.size] at more small
  simp only [record] at more small
  have keySize : (Int32.ofNat e.key.length).toInt = e.key.length :=
    Int32.toInt_ofNat_of_lt (by omega)
  have contentSize : (Int32.ofNat (env.compress e.val).length).toInt =
      (env.compress e.val).length :=
    Int32.toInt_ofNat_of_lt (by omega)
  have whole : (e.encoded env crc32 ++ rest).length =
      28 + e.key.length + (env.compress e.val).length + rest.length := by
    rw [length_append, length_encoded]
    rfl
  have first := drop_encoded env crc32 e rest 0
  rw [Nat.add_zero, drop_zero] at first
  simp only [readRecord, headerAt_encoded, keySize, contentSize, Int.toNat_natCast, whole]
  rw [if_pos (by omega), first, drop_encoded, Nat.add_assoc, drop_encoded]
  simp [record]

end Entry

end

section

variable {env : Env} {crc32 : Bytes → Int64}

/-- The encodings of some entries. -/
def batch (env : Env) (crc32 : Bytes → Int64) (entries : List Entry) : Bytes :=
  entries.flatMap (Entry.encoded env crc32)

theorem records_batch {d : Bytes} {entries : List Entry}
    (small : ∀ e ∈ entries, (e.encoded env crc32).length < 2 ^ 31)
    (keys : ∀ e ∈ entries, e.key ≠ []) {place : Nat} (inside : place ≤ d.length)
    (rest : d.drop place = batch env crc32 entries) :
    Records d place (entries.map (Entry.record env crc32)) d.length := by
  induction entries generalizing place with
  | nil =>
    have last : place = d.length :=
      Nat.le_antisymm inside (drop_eq_nil_iff.mp rest)
    subst last
    exact .nil inside (by simp [readRecord])
  | cons e entries ih =>
    have parts : d.drop place = e.encoded env crc32 ++ batch env crc32 entries := rest
    have read := e.readRecord_encoded env crc32
      (e.lt_length_encoded env crc32 (keys e mem_cons_self)) (small e mem_cons_self)
      (batch env crc32 entries)
    rw [← parts] at read
    have size := e.length_encoded env crc32
    refine .cons read (ih (fun other member => small other (mem_cons_of_mem _ member))
      (fun other member => keys other (mem_cons_of_mem _ member)) ?_ ?_)
    · rw [← size]
      exact Blocks.block_le inside parts
    · rw [← size]
      exact Blocks.drop_block parts

theorem filterMap_change {entries : List Entry} (keys : ∀ e ∈ entries, e.key ≠ []) :
    (entries.map (Entry.record env crc32)).filterMap Record.change =
      entries.map (Entry.change env crc32) := by
  rw [filterMap_map, ← filterMap_eq_map]
  apply filterMap_congr
  intro e member
  simp [Entry.record, Record.change, Entry.change, keys e member]

theorem insert_batch_eq (clock : Nat → Int) {rounds : Nat} (store : DataStore)
    {entries : List Entry} (keys : ∀ e ∈ entries, e.key ≠ [])
    (small : (batch env crc32 entries).length < 2 ^ 30) (enough : entries.length < rounds) :
    insert clock rounds store (batch env crc32 entries) =
      some (applyAll clock store (entries.map (Entry.change env crc32)),
        decide (entries ≠ [])) := by
  have sized : (batch env crc32 entries).length < 2 ^ 63 := by omega
  have each : ∀ e ∈ entries, (e.encoded env crc32).length < 2 ^ 31 := by
    intro e member
    have shorter : (e.encoded env crc32).length ≤ (batch env crc32 entries).length :=
      Blocks.length_le_flatMap member
    omega
  have found : Records (batch env crc32 entries) 0 (entries.map (Entry.record env crc32))
      (batch env crc32 entries).length :=
    records_batch each keys (Nat.zero_le _) rfl
  have ends : round (batch env crc32 entries) (batch env crc32 entries).length = .ends := by
    rw [round_eq sized, if_neg (by omega), if_neg (by omega)]
  obtain ⟨trace, run, -⟩ := found.loop_eq sized (by omega)
    (loop_of_ends ends (rounds - entries.length - 1)) (by simp)
  have count : (entries.map (Entry.record env crc32)).length + (rounds - entries.length - 1 + 1) =
      rounds := by
    rw [length_map]
    omega
  rw [count, filterMap_change keys, append_nil, Nat.cast_zero] at run
  rw [insert, run]
  simp

/-- `insert` of the encodings of some entries, one after another. -/
def insertEach (env : Env) (crc32 : Bytes → Int64) (rounds : Nat) :
    (Nat → Int) → DataStore → List Entry → Option DataStore
  | _, store, [] => some store
  | clock, store, e :: entries =>
    (insert clock rounds store (e.encoded env crc32)).bind (fun done =>
      insertEach env crc32 rounds (fun k => clock (k + 1)) done.1 entries)

theorem insertEach_eq {clock : Nat → Int} {rounds : Nat} {store : DataStore} {entries : List Entry}
    (keys : ∀ e ∈ entries, e.key ≠ []) (small : (batch env crc32 entries).length < 2 ^ 30)
    (enough : 1 < rounds) :
    insertEach env crc32 rounds clock store entries =
      some (applyAll clock store (entries.map (Entry.change env crc32))) := by
  induction entries generalizing clock store with
  | nil => rfl
  | cons e entries ih =>
    have parts : batch env crc32 (e :: entries) =
      e.encoded env crc32 ++ batch env crc32 entries := rfl
    rw [parts, length_append] at small
    have one : batch env crc32 [e] = e.encoded env crc32 := append_nil _
    have first := @insert_batch_eq env crc32 clock rounds store [e]
      (by simpa using keys e mem_cons_self) (by rw [one]; omega) enough
    rw [one] at first
    rw [insertEach, first, Option.bind_some,
      ih (fun other member => keys other (mem_cons_of_mem _ member)) (by omega)]
    rfl

/-- A batch of keys has the effect of its entries one after another: the last entry of a key
decides, and the other keys stay. What is retrieved of a key that is valid is its time, its check
sum and its compressed value. -/
theorem insert_batch (env : Env) (crc32 : Bytes → Int64) (output : ∀ val, env.compress val ≠ [])
    (entries : List Entry) (keys : ∀ e ∈ entries, e.key ≠ [])
    (small : (batch env crc32 entries).length < 2 ^ 30) (clock : Nat → Int) (store : DataStore) :
    ∃ after : DataStore,
      (∀ rounds, entries.length < rounds →
        insert clock rounds store (batch env crc32 entries) = some (after, decide (entries ≠ []))) ∧
      (∀ rounds, 1 < rounds → insertEach env crc32 rounds clock store entries = some after) ∧
      (∀ key, key ∉ entries.map Entry.key → after.map.lookup key = store.map.lookup key) ∧
      ∀ front e back, entries = front ++ e :: back → e.key ∉ back.map Entry.key →
        let validUntil := clock front.length + e.ttl.toInt * 10 ^ 9
        after.map.lookup e.key = some ⟨(e.change env crc32).item, validUntil⟩ ∧
          ∀ now ≤ validUntil, retrieve now after e.key =
            some (i64ToChars e.time ++ i64ToChars (crc32 e.val) ++ env.compress e.val) := by
  have names : ∀ entries : List Entry,
      (entries.map (Entry.change env crc32)).map Change.key = entries.map Entry.key := by
    intro entries
    rw [map_map]
    rfl
  refine ⟨applyAll clock store (entries.map (Entry.change env crc32)), ?_, ?_, ?_, ?_⟩
  · grind [insert_batch_eq]
  · grind [insertEach_eq]
  · intro key other
    apply lookup_applyAll_of_notMem
    rwa [names]
  · intro front e back parts last validUntil
    have decided : (applyAll clock store (entries.map (Entry.change env crc32))).map.lookup e.key =
        some ⟨(e.change env crc32).item, validUntil⟩ := by
      have content : (e.change env crc32).item.content ≠ [] := output e.val
      have found := @lookup_applyAll_last clock store (front.map (Entry.change env crc32))
        (back.map (Entry.change env crc32)) (e.change env crc32) content (by rwa [names])
      rw [length_map] at found
      rw [parts, map_append, map_cons]
      exact found
    refine ⟨decided, fun now valid => ?_⟩
    rw [retrieve, MapTime.get, decided]
    simp only [if_pos valid]
    rfl

/-- Two entries of one key and one of another. -/
def someEntries : List Entry :=
  [⟨[97], [1], 60, 7⟩, ⟨[98], [2], 60, 8⟩, ⟨[97], [3], 30, 9⟩]

/-- The last entry of a key is retrieved as long as it is valid. -/
theorem insert_batch_sample :
    ∃ after, insert (fun _ => 0) 4 {} (batch Reference.env (fun _ => 5) someEntries) =
        some (after, true) ∧
      retrieve (30 * 10 ^ 9) after [97] = some (i64ToChars 9 ++ i64ToChars 5 ++ [120, 3]) := by
  have output : ∀ val, Reference.env.compress val ≠ [] := by
    intro val
    exact cons_ne_nil _ _
  obtain ⟨after, inserted, -, -, last⟩ := insert_batch Reference.env (fun _ => 5) output someEntries
    (by decide) (by decide) (fun _ => 0) {}
  have found := last [⟨[97], [1], 60, 7⟩, ⟨[98], [2], 60, 8⟩] ⟨[97], [3], 30, 9⟩ [] rfl (by decide)
  exact ⟨after, inserted 4 (by decide), found.2 _ (by decide)⟩

end

end RssDisk.CManager
