import RssDisk.CManager.Batch

/-!
# The database of keys on the disk

Before the server stops it writes the database of keys to a file, and it reads it back when it
starts. Each value is a block with its size in front, and the block holds the key, the time up to
which the value is valid, in whole seconds of the system clock, and the item. A value whose time has
come is left out when it is read back.

The system clock is ahead of the steady clock by a fixed number of nanoseconds as long as the
process runs; the number may be another one for the process that reads the file.
-/

namespace RssDisk

open Lib Bitbase List Option MapTime

namespace MapTime

variable {κ α : Type}

/-- `serialize`, for the order in which the map is walked. -/
def serialize (serializeFunction : Option (κ × TimedVal α → Bytes))
    (order : List (κ × TimedVal α)) : Bytes :=
  match serializeFunction with
  | some write => order.flatMap write
  | none => []

def steadyClockToTimeT (ahead t : Int) : Int64 := Int64.ofInt ((t + ahead).tdiv (10 ^ 9))

def timeTToSteadyClock (ahead : Int) (t : Int64) : Int := t.toInt * 10 ^ 9 - ahead

/-- The time of the system clock up to which a value is valid can be held in whole seconds. -/
def Convertible (ahead : Int) (v : TimedVal α) : Prop :=
  (steadyClockToTimeT ahead v.validUntil).toInt = (v.validUntil + ahead).tdiv (10 ^ 9)

/-- The steady time behind the way to the disk: the whole seconds of the system clock. -/
def wholeSeconds (ahead aheadAfter t : Int) : Int := (t + ahead).tdiv (10 ^ 9) * 10 ^ 9 - aheadAfter

end MapTime

variable {order : List (Bytes × TimedVal Item)}

namespace CManager

open MapTime

/-- What stands behind the size of a block. -/
def blockBody (ahead : Int) (p : Bytes × TimedVal Item) : Bytes :=
  i32ToChars (Int32.ofNat p.1.length) ++ p.1 ++
    i64ToChars (steadyClockToTimeT ahead p.2.validUntil) ++ i64ToChars p.2.val.timestamp ++
    i64ToChars p.2.val.checksum ++ i32ToChars (Int32.ofNat p.2.val.content.length) ++
    p.2.val.content

def serializeFunction (ahead : Int) (p : Bytes × TimedVal Item) : Bytes :=
  i32ToChars (Int32.ofNat (blockBody ahead p).length) ++ blockBody ahead p

/-- `deserialize_function` at a reading of the steady clock. -/
def deserializeFunction (ahead now : Int) (d : Bytes) : Option (Bytes × TimedVal Item) :=
  if 4 < d.length then
    let keySize := (charsToI32 (d.take 4)).toInt
    let start := toSize (4 + keySize)
    if start ≤ d.length then
      if toSize (start + 28) < d.length then
        let validTo := charsToI64 ((d.drop start).take 8)
        let timestamp := charsToI64 ((d.drop (start + 8)).take 8)
        let checksum := charsToI64 ((d.drop (start + 16)).take 8)
        let dataSize := (charsToI32 ((d.drop (start + 24)).take 4)).toInt
        if toSize (start + 28 + dataSize) ≤ d.length then
          let validUntil := timeTToSteadyClock ahead validTo
          let content := (d.drop (start + 28)).take (toSize dataSize)
          if now < validUntil then
            some ((d.drop 4).take (toSize keySize), ⟨⟨content, checksum, timestamp⟩, validUntil⟩)
          else none
        else none
      else none
    else none
  else none

/-- `serializeData`, for the order in which the map is walked. -/
def serializeData (ahead : Int) (order : List (Bytes × TimedVal Item)) : Bytes :=
  serialize (some (serializeFunction ahead)) order

/-- `deserializeData`; each round has its reading of the clock. -/
def deserializeData (ahead : Int) (readings : Nat → Int) (store : DataStore) (rounds : Nat)
    (data : Bytes) : Option DataStore :=
  store.deserialize (some (fun k => deserializeFunction ahead (readings k))) rounds data

section

variable {ahead : Int} {p : Bytes × TimedVal Item}

theorem length_blockBody (ahead : Int) (p : Bytes × TimedVal Item) :
    (blockBody ahead p).length = 32 + p.1.length + p.2.val.content.length := by
  simp only [blockBody, length_append, i64ToChars_length, i32ToChars_length]
  omega

/-- A key and a content of which a block is made. -/
structure Storable (p : Bytes × TimedVal Item) : Prop where
  content : p.2.val.content ≠ []
  small : 32 + p.1.length + p.2.val.content.length < 2 ^ 31

theorem drop_blockBody (ahead : Int) (p : Bytes × TimedVal Item) (count : Nat) :
    (blockBody ahead p).drop (4 + p.1.length + count) =
      (i64ToChars (steadyClockToTimeT ahead p.2.validUntil) ++ (i64ToChars p.2.val.timestamp ++
        (i64ToChars p.2.val.checksum ++ (i32ToChars (Int32.ofNat p.2.val.content.length) ++
          p.2.val.content)))).drop count := by
  have front : (i32ToChars (Int32.ofNat p.1.length) ++ p.1).length = 4 + p.1.length := by
    rw [length_append, i32ToChars_length]
  rw [← drop_drop]
  simp only [blockBody, append_assoc]
  rw [← append_assoc, drop_left' front]

theorem deserializeFunction_blockBody (storable : Storable p) (exact_ : Convertible ahead p.2)
    (aheadAfter now : Int) :
    deserializeFunction aheadAfter now (blockBody ahead p) =
      if now < wholeSeconds ahead aheadAfter p.2.validUntil then
        some (p.1, ⟨p.2.val, wholeSeconds ahead aheadAfter p.2.validUntil⟩)
      else none := by
  have length := length_blockBody ahead p
  have positive := length_pos_iff.mpr storable.content
  have small := storable.small
  have keySize : (charsToI32 ((blockBody ahead p).take 4)).toInt = p.1.length := by
    have field : (blockBody ahead p).take 4 = i32ToChars (Int32.ofNat p.1.length) := by
      simp [blockBody]
    rw [field, charsToI32_i32ToChars, Int32.toInt_ofNat_of_lt (by omega)]
  have key : ((blockBody ahead p).drop 4).take p.1.length = p.1 := by
    simp [blockBody]
  have start : toSize (4 + (p.1.length : Int)) = 4 + p.1.length := by
    unfold toSize
    omega
  have inner : toSize (((4 + p.1.length : Nat) : Int) + 28) = 4 + p.1.length + 28 := by
    unfold toSize
    omega
  have validTo : ((blockBody ahead p).drop (4 + p.1.length)).take 8 =
      i64ToChars (steadyClockToTimeT ahead p.2.validUntil) := by
    rw [← Nat.add_zero (4 + p.1.length), drop_blockBody]
    simp
  have timestamp : ((blockBody ahead p).drop (4 + p.1.length + 8)).take 8 =
      i64ToChars p.2.val.timestamp := by
    rw [drop_blockBody]
    simp
  have checksum : ((blockBody ahead p).drop (4 + p.1.length + 16)).take 8 =
      i64ToChars p.2.val.checksum := by
    rw [drop_blockBody]
    simp [drop_append, drop_of_length_le]
  have sizeText : ((blockBody ahead p).drop (4 + p.1.length + 24)).take 4 =
      i32ToChars (Int32.ofNat p.2.val.content.length) := by
    rw [drop_blockBody]
    simp [drop_append, drop_of_length_le]
  have content : (blockBody ahead p).drop (4 + p.1.length + 28) = p.2.val.content := by
    rw [drop_blockBody]
    simp [drop_append, drop_of_length_le]
  have dataSize : (Int32.ofNat p.2.val.content.length).toInt = p.2.val.content.length :=
    Int32.toInt_ofNat_of_lt (by omega)
  have stop : toSize (((4 + p.1.length : Nat) : Int) + 28 + (p.2.val.content.length : Int)) =
      4 + p.1.length + 28 + p.2.val.content.length := by
    unfold toSize
    omega
  have sized : toSize (p.2.val.content.length : Int) = p.2.val.content.length :=
    toSize_natCast (by omega)
  have held : toSize (p.1.length : Int) = p.1.length := toSize_natCast (by omega)
  have valid : timeTToSteadyClock aheadAfter (steadyClockToTimeT ahead p.2.validUntil) =
      wholeSeconds ahead aheadAfter p.2.validUntil := by
    rw [timeTToSteadyClock, exact_]
    rfl
  simp only [deserializeFunction, keySize, start, inner, validTo, timestamp, checksum, sizeText,
    content, charsToI64_i64ToChars, charsToI32_i32ToChars, dataSize, stop, sized, held, key, valid,
    take_length]
  rw [if_pos (by omega), if_pos (by omega), if_pos (by omega), if_pos (by omega)]

/-- What a round does with the block of an entry: the entry is put back with the time in whole
seconds, unless this time has come. -/
def reread (ahead aheadAfter now : Int) (m : DataStore) (p : Bytes × TimedVal Item) : DataStore :=
  if now < wholeSeconds ahead aheadAfter p.2.validUntil then
    m.restore (p.1, ⟨p.2.val, wholeSeconds ahead aheadAfter p.2.validUntil⟩)
  else m

theorem deserializeLoop_block (storable : Storable p) (exact_ : Convertible ahead p.2)
    {data : Bytes} (long : data.length < 2 ^ 63) {place : Nat} {rest : Bytes}
    (parts : data.drop place = serializeFunction ahead p ++ rest)
    (fits : place + (serializeFunction ahead p).length ≤ data.length) (aheadAfter : Int)
    (readings : Nat → Int) (rounds : Nat) (m : DataStore) :
    deserializeLoop (fun k => deserializeFunction aheadAfter (readings k)) data (rounds + 1)
        place m =
      deserializeLoop (fun k => deserializeFunction aheadAfter (readings k)) data rounds
        (place + (serializeFunction ahead p).length)
        (reread ahead aheadAfter (readings rounds) m p) := by
  have body := length_blockBody ahead p
  have small := storable.small
  have length : (serializeFunction ahead p).length = 4 + (blockBody ahead p).length := by
    rw [serializeFunction, length_append, i32ToChars_length]
  have size : (charsToI32 ((data.drop place).take 4)).toInt = (blockBody ahead p).length := by
    have field : (data.drop place).take 4 =
        i32ToChars (Int32.ofNat (blockBody ahead p).length) := by
      rw [parts, serializeFunction, append_assoc]
      exact take_left' (i32ToChars_length _)
    rw [field, charsToI32_i32ToChars, Int32.toInt_ofNat_of_lt (by omega)]
  have block : (data.drop (place + 4)).take (blockBody ahead p).length = blockBody ahead p := by
    rw [← drop_drop, parts, serializeFunction, append_assoc,
      drop_left' (i32ToChars_length _), take_left]
  have stop : toSize ((place : Int) + 4 + ((blockBody ahead p).length : Int)) =
      place + (serializeFunction ahead p).length := by
    unfold toSize
    omega
  have held : toSize ((blockBody ahead p).length : Int) = (blockBody ahead p).length :=
    toSize_natCast (by omega)
  rw [deserializeLoop, if_pos (by omega)]
  simp only [size, stop, held, block, deserializeFunction_blockBody storable exact_]
  rw [if_pos fits, reread]
  split_ifs <;> rfl

end

section

variable {ahead aheadAfter : Int}

theorem lookup_reread (now : Int) (m : DataStore) (p : Bytes × TimedVal Item) (key : Bytes) :
    (reread ahead aheadAfter now m p).map.lookup key =
      if key = p.1 ∧ now < wholeSeconds ahead aheadAfter p.2.validUntil then
        some ((m.map.lookup p.1).getD ⟨p.2.val, wholeSeconds ahead aheadAfter p.2.validUntil⟩)
      else m.map.lookup key := by
  rw [reread]
  by_cases early : now < wholeSeconds ahead aheadAfter p.2.validUntil
  · rw [if_pos early, restore, UMap.lookup_emplace]
    simp only [early, and_true]
  · rw [if_neg early, if_neg (fun both => early both.2)]

theorem lookup_rereads_of_notMem (readings : Nat → Int) {key : Bytes}
    (away : key ∉ order.map Prod.fst) (rounds : Nat) (m : DataStore) :
    (Blocks.foldRounds (fun k => reread ahead aheadAfter (readings k)) rounds m order).map.lookup
      key = m.map.lookup key := by
  induction order generalizing rounds m with
  | nil => rfl
  | cons p order ih =>
    rw [map_cons, mem_cons, not_or] at away
    rw [Blocks.foldRounds, ih away.2, lookup_reread, if_neg (fun both => away.1 both.1)]

theorem lookup_rereads (readings : Nat → Int) (once : (order.map Prod.fst).Nodup) {i : Nat}
    {p : Bytes × TimedVal Item} (at_ : order[i]? = some p) {m : DataStore}
    (empty : m.map.lookup p.1 = none) (rounds : Nat) :
    (Blocks.foldRounds (fun k => reread ahead aheadAfter (readings k)) rounds m order).map.lookup
        p.1 =
      if readings (rounds - 1 - i) < wholeSeconds ahead aheadAfter p.2.validUntil then
        some ⟨p.2.val, wholeSeconds ahead aheadAfter p.2.validUntil⟩
      else none := by
  induction order generalizing i m rounds with
  | nil => cases at_
  | cons q order ih =>
    rw [map_cons, nodup_cons] at once
    rw [Blocks.foldRounds]
    cases i with
    | zero =>
      cases at_
      rw [lookup_rereads_of_notMem readings once.1, lookup_reread, empty]
      simp
    | succ i =>
      have behind : order[i]? = some p := at_
      have other : p.1 ≠ q.1 := by
        intro same
        exact once.1 (same ▸ mem_map_of_mem (mem_of_getElem? behind))
      rw [ih once.2 behind _ (rounds - 1)]
      · rw [Nat.sub_sub (rounds - 1) 1 i, Nat.add_comm 1 i]
      · rw [lookup_reread, if_neg (fun both => other both.1), empty]

theorem deserializeData_eq (storable : ∀ p ∈ order, Storable p)
    (exact_ : ∀ p ∈ order, Convertible ahead p.2)
    (long : (serializeData ahead order).length < 2 ^ 63) (readings : Nat → Int) {rounds : Nat}
    (enough : order.length < rounds) :
    deserializeData aheadAfter readings {} rounds (serializeData ahead order) =
      some (Blocks.foldRounds (fun k => reread ahead aheadAfter (readings k)) rounds {} order) := by
  have walked := @Blocks.walk _ _ _ _
    (deserializeLoop (fun k => deserializeFunction aheadAfter (readings k))
      (serializeData ahead order))
    (serializeData ahead order) (serializeFunction ahead)
    (fun k => reread ahead aheadAfter (readings k)) id order
    (fun p member place rest parts fits rounds m =>
      deserializeLoop_block (storable p member) (exact_ p member) long parts fits _ _ rounds m)
    (fun rounds m => by
      rw [deserializeLoop, if_neg (by omega)]
      rfl)
    0 (Nat.zero_le _) rfl rounds enough {}
  rw [deserializeData, deserialize]
  by_cases more : 4 < (serializeData ahead order).length
  · exact (if_pos more).trans walked
  · cases order with
    | nil => rfl
    | cons p order =>
      have block : (serializeFunction ahead p).length ≤
          (serializeData ahead (p :: order)).length :=
        Blocks.length_le_flatMap mem_cons_self
      rw [serializeFunction, length_append, i32ToChars_length, length_blockBody] at block
      omega

end

section

variable {env : Env} {crc32 : Bytes → Int64}

/-- What is done with the database. -/
inductive Deed where
  | insert (clock : Nat → Int) (rounds : Nat) (entries : List Entry)
  | clearAll (n : Int)

def step (env : Env) (crc32 : Bytes → Int64) (store : DataStore) : Deed → Option DataStore
  | .insert clock rounds entries =>
    (insert clock rounds store (batch env crc32 entries)).map Prod.fst
  | .clearAll n => some (store.clearTtl n)

/-- The entries have keys, and the sizes of the encodings can be held. -/
def Fits (env : Env) (crc32 : Bytes → Int64) (_store : DataStore) : Deed → Prop
  | .insert _ _ entries => (∀ e ∈ entries, e.key ≠ [] ∧ (e.encoded env crc32).length < 2 ^ 31) ∧
      (batch env crc32 entries).length < 2 ^ 63
  | .clearAll _ => True

theorem Records.of_loop {d : Bytes} (sized : d.length < 2 ^ 63) {place : Nat}
    {records : List Record} (found : Records d place records d.length) {rounds : Nat}
    {walked : List Int × List Change} (run : loop d rounds place = some walked) :
    d.length + 28 < 2 ^ 31 ∧ walked.2 = records.filterMap Record.change := by
  generalize whole : d.length = last at found
  induction found generalizing rounds walked with
  | @nil place inside none =>
    subst whole
    have low : ¬ 2 ^ 31 ≤ d.length + 28 := by
      intro high
      rw [loop_of_fails (by rw [round_eq sized, if_pos high])] at run
      cases run
    have ends : round d (d.length : Nat) = .ends := by
      rw [round_eq sized, if_neg low, if_neg (by omega)]
    cases rounds with
    | zero => cases run
    | succ rounds =>
      grind [loop_of_ends]
  | @cons place last r rest records read others ih =>
    have low : place + r.size < 2 ^ 31 := by
      by_contra high
      rw [loop_of_fails (round_record_fails sized read (by omega))] at run
      cases run
    cases rounds with
    | zero => cases run
    | succ rounds =>
      rw [loop_of_goes (round_record sized read low), map_eq_some_iff] at run
      obtain ⟨rest, run, rfl⟩ := run
      obtain ⟨small, changes⟩ := ih run whole
      refine ⟨small, ?_⟩
      grind

/-- Every value of the database can be written as a block. -/
def Sound (store : DataStore) : Prop :=
  ∀ key v, store.map.lookup key = some v → Storable (key, v)

theorem Sound.applyAll {changes : List Change}
    (small : ∀ change ∈ changes, 32 + change.key.length + change.item.content.length < 2 ^ 31)
    {clock : Nat → Int} {store : DataStore} (sound : Sound store) :
    Sound (applyAll clock store changes) := by
  induction changes generalizing clock store with
  | nil => exact sound
  | cons change changes ih =>
    apply ih (fun other member => small other (mem_cons_of_mem _ member))
    intro key v found
    rw [Change.apply] at found
    split at found
    · exact sound key v (lookup_erase_some found)
    · rename_i content
      rw [MapTime.insert] at found
      by_cases same : key = change.key
      · subst same
        rw [AList.lookup_insert] at found
        cases found
        exact ⟨content, small change mem_cons_self⟩
      · rw [AList.lookup_insert_ne same] at found
        exact sound key v found

theorem Sound.step {store after : DataStore} (sound : Sound store) {deed : Deed}
    (fits : Fits env crc32 store deed) (done : step env crc32 store deed = some after) :
    Sound after := by
  cases deed with
  | clearAll n =>
    cases done
    intro key v found
    rw [clearTtl, lookup_clearKeys, Option.filter_eq_some_iff] at found
    exact sound key v found.1
  | insert clock rounds entries =>
    obtain ⟨each, sized⟩ := fits
    have keys : ∀ e ∈ entries, e.key ≠ [] := fun e member => (each e member).1
    have found : Records (batch env crc32 entries) 0 (entries.map (Entry.record env crc32))
        (batch env crc32 entries).length :=
      records_batch (fun e member => (each e member).2) keys (Nat.zero_le _) rfl
    simp only [CManager.step, CManager.insert, Option.map_map, Option.map_eq_some_iff] at done
    obtain ⟨walked, run, rfl⟩ := done
    obtain ⟨small, changes⟩ := found.of_loop sized run
    rw [filterMap_change keys] at changes
    apply sound.applyAll
    intro change member
    rw [changes] at member
    obtain ⟨e, inside, rfl⟩ := mem_map.mp member
    have shorter : (e.encoded env crc32).length ≤ (batch env crc32 entries).length :=
      Blocks.length_le_flatMap inside
    grind [e.length_encoded, Record.size, Entry.record, Entry.change]

/-- A database that was built of encoded keys and is written to the disk is read back: each value
whose time in whole seconds has not come, with this time, and nothing else. -/
theorem deserializeData_serializeData (env : Env) (crc32 : Bytes → Int64) {store : DataStore}
    (reached : Reaches (step env crc32) (Fits env crc32) {} store) {ahead : Int}
    (exact_ : ∀ key v, store.map.lookup key = some v → Convertible ahead v)
    {order : List (Bytes × TimedVal Item)} (walks : UMap.Walks store.map order)
    (long : (serializeData ahead order).length < 2 ^ 63) (aheadAfter : Int) (readings : Nat → Int)
    {rounds : Nat} (enough : order.length < rounds) :
    ∃ after : DataStore,
      deserializeData aheadAfter readings {} rounds (serializeData ahead order) = some after ∧
      (∀ key, store.map.lookup key = none → after.map.lookup key = none) ∧
      ∀ i key v, order[i]? = some (key, v) → after.map.lookup key =
        let whole := wholeSeconds ahead aheadAfter v.validUntil
        if readings (rounds - 1 - i) < whole then some ⟨v.val, whole⟩ else none := by
  have sound : Sound store := reached.invariant Sound (fun key v found => by cases found)
    (fun _ _ _ sound fits done => sound.step fits done)
  have stored : ∀ p ∈ order, store.map.lookup p.1 = some p.2 :=
    fun p member => (walks.mem_iff p.1 p.2).mp member
  refine ⟨_, deserializeData_eq (fun p member => sound p.1 p.2 (stored p member))
    (fun p member => exact_ p.1 p.2 (stored p member)) long readings enough, ?_, ?_⟩
  · intro key absent
    rw [lookup_rereads_of_notMem]
    · rfl
    · intro present
      obtain ⟨p, member, rfl⟩ := mem_map.mp present
      rw [stored p member] at absent
      cases absent
  · intro i key v at_
    exact lookup_rereads readings walks.nodup at_ rfl rounds

/-- Two keys, which are valid for 30 and for 60 seconds. -/
def someStore : DataStore :=
  applyAll (fun _ => 0) {} (someEntries.map (Entry.change Reference.env (fun _ => 5)))

/-- The entries of this database. -/
def someOrder : List (Bytes × TimedVal Item) :=
  [([97], ⟨⟨[120, 3], 5, 9⟩, 30 * 10 ^ 9⟩), ([98], ⟨⟨[120, 2], 5, 8⟩, 60 * 10 ^ 9⟩)]

/-- Forty seconds later one of two keys is read back, valid up to a whole second of the system
clock. -/
theorem deserializeData_serializeData_sample :
    ∃ after : DataStore,
      deserializeData 0 (fun _ => 40 * 10 ^ 9) {} 3 (serializeData 7 someOrder) = some after ∧
        after.map.lookup [97] = none ∧
        after.map.lookup [98] = some ⟨⟨[120, 2], 5, 8⟩, 60 * 10 ^ 9⟩ := by
  have reached : Reaches (step Reference.env (fun _ => 5)) (Fits Reference.env (fun _ => 5)) {}
      someStore := by
    apply Reaches.start.next (.insert (fun _ => 0) 4 someEntries)
    · constructor <;> decide
    · rw [step, insert_batch_eq _ _ (by decide) (by decide) (by decide)]
      rfl
  have walks : UMap.Walks someStore.map someOrder := by decide
  have exact_ : ∀ key v, someStore.map.lookup key = some v → Convertible 7 v := by
    intro key v found
    have all : ∀ p ∈ someOrder, (steadyClockToTimeT 7 p.2.validUntil).toInt =
        (p.2.validUntil + 7).tdiv (10 ^ 9) := by decide
    exact all (key, v) ((walks.mem_iff key v).mpr found)
  obtain ⟨after, read, -, lookups⟩ := deserializeData_serializeData Reference.env (fun _ => 5)
    reached exact_ walks (by decide) 0 (fun _ => 40 * 10 ^ 9) (by decide : someOrder.length < 3)
  exact ⟨after, read, lookups 0 _ _ rfl, lookups 1 _ _ rfl⟩

end

end CManager

end RssDisk
