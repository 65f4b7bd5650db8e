import RssDisk.Env
import RssDisk.MapTime

/-!
# The database of keys

`CDatabaseManager`: a map of values that expire. A payload is a sequence of records, each with a
header of 28 bytes that holds a time, a check sum, a number of seconds and the sizes of the key and
of the content. `insert` walks over the payload with a signed place and signed sizes. A size that
leads behind the payload ends nothing: the walk goes on behind the part that was read. A negative
size can lead back.
-/

namespace RssDisk.CManager

open Lib Bitbase List

/-- `CDatabaseManager::Item`. -/
structure Item where
  content : Bytes
  checksum : Int64
  timestamp : Int64
deriving DecidableEq, Repr

abbrev DataStore := MapTime Bytes Item

/-- A call on `dataStore`: a key with an item and the seconds for which it is valid. -/
structure Change where
  key : Bytes
  item : Item
  ttl : Int32
deriving DecidableEq, Repr

/-- `std::string::substr`, which throws behind the end. -/
def substr (d : Bytes) (pos n : Int) : Option Bytes :=
  if toSize pos ≤ d.length then some ((d.drop (toSize pos)).take (toSize n)) else none

structure Header where
  timestamp : Int64
  checksum : Int64
  ttl : Int32
  headerBytes : Int32
  contentBytes : Int32

def readHeader (d : Bytes) (pos : Int) : Option Header := do
  let timestamp ← substr d pos 8
  let checksum ← substr d (pos + 8) 8
  let ttl ← substr d (pos + 16) 4
  let headerBytes ← substr d (pos + 20) 4
  let contentBytes ← substr d (pos + 24) 4
  some ⟨charsToI64 timestamp, charsToI64 checksum, charsToI32 ttl, charsToI32 headerBytes,
    charsToI32 contentBytes⟩

/-- What one round of the loop of `insert` does. -/
inductive Round where
  | ends
  /-- `std::out_of_range`, or a sum that overflows, which is undefined. -/
  | fails
  | goes (pos : Int) (change : Option Change)
deriving DecidableEq, Repr

/-- A sum of signed numbers of 32 bits, which is undefined outside of their range. -/
def sum32 (n m : Int) : Option Int :=
  if -2 ^ 31 ≤ n + m ∧ n + m < 2 ^ 31 then some (n + m) else none

/-- The content behind a key. -/
def readContent (d : Bytes) (pos : Int) (h : Header) (key : Bytes) : Round :=
  match sum32 pos h.contentBytes.toInt with
  | none => .fails
  | some last =>
    if toSize last ≤ d.length then
      match substr d pos h.contentBytes.toInt with
      | none => .fails
      | some content =>
        .goes last
          (if key = [] then none else some ⟨key, ⟨content, h.checksum, h.timestamp⟩, h.ttl⟩)
    else .goes pos none

/-- The key and the content behind a header. -/
def readBody (d : Bytes) (pos : Int) (h : Header) : Round :=
  match sum32 pos h.headerBytes.toInt with
  | none => .fails
  | some behind =>
    if toSize behind ≤ d.length then
      match substr d pos h.headerBytes.toInt with
      | none => .fails
      | some key => readContent d behind h key
    else .goes pos none

/-- One round of the loop of `insert`. -/
def round (d : Bytes) (pos : Int) : Round :=
  match sum32 pos 28 with
  | none => .fails
  | some behind =>
    if toSize behind < d.length then
      match readHeader d pos with
      | none => .fails
      | some h => readBody d behind h
    else .ends

/-- The loop of `insert` from a place on, with a bound on its rounds: the places at which it reads
a header, and its changes. -/
def loop (d : Bytes) : Nat → Int → Option (List Int × List Change)
  | 0, _ => none
  | rounds + 1, pos =>
    match round d pos with
    | .ends => some ([], [])
    | .fails => none
    | .goes next change =>
      (loop d rounds next).map (fun rest => (pos :: rest.1, change.toList ++ rest.2))

/-- A change at a reading of the clock: an empty content erases the key. -/
def Change.apply (now : Int) (store : DataStore) (change : Change) : DataStore :=
  if change.item.content = [] then store.erase change.key
  else store.insert now change.key change.item change.ttl

/-- Changes one after another, each at its reading of the clock. -/
def applyAll (clock : Nat → Int) : DataStore → List Change → DataStore
  | store, [] => store
  | store, change :: changes =>
    applyAll (fun k => clock (k + 1)) (change.apply (clock 0) store) changes

/-- `insert`: the store afterwards and whether there was a record with a key; `none` when the walk
does not end within some rounds. -/
def insert (clock : Nat → Int) (rounds : Nat) (store : DataStore) (d : Bytes) :
    Option (DataStore × Bool) :=
  (loop d rounds 0).map (fun walked => (applyAll clock store walked.2, walked.2 ≠ []))

/-- `retrieve` at a reading of the clock. -/
def retrieve (now : Int) (store : DataStore) (key : Bytes) : Option Bytes :=
  (store.get now key).map (fun item =>
    i64ToChars item.timestamp ++ i64ToChars item.checksum ++ item.content)

/-- `client::prepare_cdb` at a time. -/
def prepareCdb (env : Env) (crc32 : Bytes → Int64) (time : Int64) (key val : Bytes) (ttl : Int32) :
    Bytes :=
  let valCompressed := env.compress val
  i64ToChars time ++ i64ToChars (crc32 val) ++ i32ToChars ttl ++
    i32ToChars (Int32.ofNat key.length) ++ i32ToChars (Int32.ofNat valCompressed.length) ++ key ++
    valCompressed

/-- A record that is complete. -/
structure Record where
  timestamp : Int64
  checksum : Int64
  ttl : Int32
  key : Bytes
  content : Bytes
deriving DecidableEq, Repr

namespace Record

variable (r : Record)

/-- The number of its bytes. -/
def size : Nat := 28 + r.key.length + r.content.length

/-- What it changes; without a key nothing. -/
def change : Option Change :=
  if r.key = [] then none else some ⟨r.key, ⟨r.content, r.checksum, r.timestamp⟩, r.ttl⟩

end Record

/-- The header at a place, as far as there are bytes. -/
def headerAt (d : Bytes) (place : Nat) : Header :=
  let field (start size : Nat) : Bytes := (d.drop (place + start)).take size
  ⟨charsToI64 (field 0 8), charsToI64 (field 8 8), charsToI32 (field 16 4),
    charsToI32 (field 20 4), charsToI32 (field 24 4)⟩

/-- The complete record at the front of a payload, and what follows it. A header without key and
content that ends the payload says nothing, and is left to the rest. -/
def readRecord (d : Bytes) : Option (Record × Bytes) :=
  let h := headerAt d 0
  let keySize := h.headerBytes.toInt
  let contentSize := h.contentBytes.toInt
  if 28 < d.length ∧ 0 ≤ keySize ∧ 0 ≤ contentSize ∧ 28 + keySize + contentSize ≤ d.length then
    some (⟨h.timestamp, h.checksum, h.ttl, (d.drop 28).take keySize.toNat,
      (d.drop (28 + keySize.toNat)).take contentSize.toNat⟩,
      d.drop (28 + keySize.toNat + contentSize.toNat))
  else none

/-- The complete records at the front of a payload, at most a number of them, and the rest. -/
def completeUpTo : Nat → Bytes → List Record × Bytes
  | 0, d => ([], d)
  | count + 1, d =>
    match readRecord d with
    | none => ([], d)
    | some (r, rest) => (r :: (completeUpTo count rest).1, (completeUpTo count rest).2)

/-- The longest sequence of complete records at the front of a payload, and the rest. -/
def complete (d : Bytes) : List Record × Bytes := completeUpTo d.length d

/-- The places of some records, and the place behind them. -/
def places (start : Nat) : List Record → List Nat
  | [] => [start]
  | r :: records => start :: places (start + r.size) records

variable {place : Nat}

section

variable {d : Bytes}

theorem toSize_le_iff {n : Int} (low : -2 ^ 31 ≤ n) (high : n < 2 ^ 31)
    (sized : d.length < 2 ^ 63) : toSize n ≤ d.length ↔ 0 ≤ n ∧ n ≤ d.length := by
  unfold toSize
  omega

theorem substr_eq (inside : place ≤ d.length) (sized : d.length < 2 ^ 63) (n : Int) :
    substr d place n = some ((d.drop place).take (toSize n)) := by
  have place_eq : toSize place = place := toSize_natCast (by omega)
  rw [substr, place_eq, if_pos inside]

theorem readHeader_eq (inside : place + 28 ≤ d.length) (sized : d.length < 2 ^ 63) :
    readHeader d place = some (headerAt d place) := by
  have part : ∀ offset size : Nat, offset ≤ 28 → size ≤ 8 →
      substr d ((place : Int) + (offset : Nat)) (size : Nat) =
        some ((d.drop (place + offset)).take size) := by
    intro offset size low small
    have held : toSize (size : Nat) = size := toSize_natCast (by omega)
    rw [← Int.natCast_add, substr_eq (by omega) sized, held]
  have first := part 0 8 (by decide) (by decide)
  have second := part 8 8 (by decide) (by decide)
  have third := part 16 4 (by decide) (by decide)
  have fourth := part 20 4 (by decide) (by decide)
  have fifth := part 24 4 (by decide) (by decide)
  simp only [Nat.cast_ofNat, Nat.cast_zero, Int.add_zero, Nat.add_zero]
    at first second third fourth fifth
  simp only [readHeader, first, second, third, fourth, fifth]
  rfl

theorem readContent_eq (sized : d.length < 2 ^ 63) (inside : place ≤ d.length)
    (start : place < 2 ^ 31) (h : Header) (key : Bytes) :
    readContent d place h key =
      if 2 ^ 31 ≤ place + h.contentBytes.toInt then .fails
      else if 0 ≤ place + h.contentBytes.toInt ∧ place + h.contentBytes.toInt ≤ d.length then
        .goes (place + h.contentBytes.toInt) (if key = [] then none else
          some ⟨key, ⟨(d.drop place).take (toSize h.contentBytes.toInt), h.checksum, h.timestamp⟩,
            h.ttl⟩)
      else .goes place none := by
  have low := h.contentBytes.le_toInt
  have high := h.contentBytes.toInt_lt
  rw [readContent, substr_eq inside sized]
  generalize h.contentBytes.toInt = size at low high ⊢
  by_cases past : 2 ^ 31 ≤ (place : Int) + size
  · rw [if_pos past, sum32, if_neg (by omega)]
  · rw [if_neg past, sum32, if_pos (by omega)]
    simp only [toSize_le_iff (by omega : -2 ^ 31 ≤ (place : Int) + size) (by omega) sized]

theorem readBody_eq (sized : d.length < 2 ^ 63) (inside : place ≤ d.length) (start : place < 2 ^ 31)
    (h : Header) :
    readBody d place h =
      if 2 ^ 31 ≤ place + h.headerBytes.toInt then .fails
      else if 0 ≤ place + h.headerBytes.toInt ∧ place + h.headerBytes.toInt ≤ d.length then
        readContent d (place + h.headerBytes.toInt) h
          ((d.drop place).take (toSize h.headerBytes.toInt))
      else .goes place none := by
  have low := h.headerBytes.le_toInt
  have high := h.headerBytes.toInt_lt
  rw [readBody, substr_eq inside sized]
  generalize h.headerBytes.toInt = size at low high ⊢
  by_cases past : 2 ^ 31 ≤ (place : Int) + size
  · rw [if_pos past, sum32, if_neg (by omega)]
  · rw [if_neg past, sum32, if_pos (by omega)]
    simp only [toSize_le_iff (by omega : -2 ^ 31 ≤ (place : Int) + size) (by omega) sized]

theorem round_eq (sized : d.length < 2 ^ 63) (place : Nat) :
    round d place =
      if 2 ^ 31 ≤ place + 28 then .fails
      else if place + 28 < d.length then readBody d (place + 28 : Nat) (headerAt d place)
      else .ends := by
  rw [round]
  by_cases past : 2 ^ 31 ≤ place + 28
  · rw [if_pos past, sum32, if_neg (by omega)]
  · have behind : toSize ((place : Int) + 28) = place + 28 := by
      unfold toSize
      omega
    rw [if_neg past, sum32, if_pos (by omega)]
    simp only [behind]
    by_cases more : place + 28 < d.length
    · rw [if_pos more, if_pos more, readHeader_eq (by omega) sized]
      rfl
    · rw [if_neg more, if_neg more]

theorem headerAt_drop (d : Bytes) (place : Nat) : headerAt (d.drop place) 0 = headerAt d place := by
  simp [headerAt, drop_drop]

theorem readRecord_eq_some {r : Record} {rest : Bytes}
    (read : readRecord (d.drop place) = some (r, rest)) :
    ∃ keySize contentSize : Nat,
      (headerAt d place).headerBytes.toInt = keySize ∧
        (headerAt d place).contentBytes.toInt = contentSize ∧
          r = ⟨(headerAt d place).timestamp, (headerAt d place).checksum, (headerAt d place).ttl,
            (d.drop (place + 28)).take keySize,
            (d.drop (place + 28 + keySize)).take contentSize⟩ ∧
          r.size = 28 + keySize + contentSize ∧ place + 28 < d.length ∧
            place + r.size ≤ d.length ∧ rest = d.drop (place + r.size) := by
  simp only [readRecord, headerAt_drop, drop_drop, length_drop] at read
  split at read
  · rename_i whole
    obtain ⟨long, keyLow, contentLow, fits⟩ := whole
    obtain ⟨keySize, keyEq⟩ := Int.eq_ofNat_of_zero_le keyLow
    obtain ⟨contentSize, contentEq⟩ := Int.eq_ofNat_of_zero_le contentLow
    simp only [keyEq, contentEq, Int.toNat_natCast, ← Nat.add_assoc] at read fits
    cases read
    have size : Record.size ⟨(headerAt d place).timestamp, (headerAt d place).checksum,
        (headerAt d place).ttl, (d.drop (place + 28)).take keySize,
        (d.drop (place + 28 + keySize)).take contentSize⟩ = 28 + keySize + contentSize := by
      simp only [Record.size, length_take, length_drop]
      omega
    refine ⟨keySize, contentSize, keyEq, contentEq, rfl, size, by omega, ?_, ?_⟩
    · rw [size]
      omega
    · rw [size, Nat.add_assoc, Nat.add_assoc, Nat.add_assoc]
  · cases read

theorem round_record (sized : d.length < 2 ^ 63) {place : Nat} {r : Record} {rest : Bytes}
    (read : readRecord (d.drop place) = some (r, rest)) (low : place + r.size < 2 ^ 31) :
    round d place = .goes (place + r.size : Nat) r.change := by
  obtain ⟨keySize, contentSize, keyEq, contentEq, parts, size, more, fits, -⟩ :=
    readRecord_eq_some read
  have key_eq : ((place + 28 : Nat) : Int) + keySize = (place + 28 + keySize : Nat) := by omega
  have content_eq : ((place + 28 + keySize : Nat) : Int) + contentSize =
    (place + r.size : Nat) := by omega
  have sizes : toSize keySize = keySize ∧ toSize contentSize = contentSize :=
    ⟨toSize_natCast (by omega), toSize_natCast (by omega)⟩
  rw [round_eq sized, if_neg (by omega), if_pos more, readBody_eq sized (by omega) (by omega),
    keyEq, key_eq, if_neg (by omega), if_pos (by omega),
    readContent_eq sized (by omega) (by omega), contentEq, content_eq, if_neg (by omega),
    if_pos (by omega), sizes.1, sizes.2, parts]
  rfl

theorem round_record_fails (sized : d.length < 2 ^ 63) {r : Record} {rest : Bytes}
    (read : readRecord (d.drop place) = some (r, rest)) (high : 2 ^ 31 ≤ place + r.size) :
    round d place = .fails := by
  obtain ⟨keySize, contentSize, keyEq, contentEq, -, size, more, fits, -⟩ :=
    readRecord_eq_some read
  rw [round_eq sized]
  by_cases header : 2 ^ 31 ≤ place + 28
  · rw [if_pos header]
  · rw [if_neg header, if_pos more, readBody_eq sized (by omega) (by omega), keyEq]
    by_cases key : 2 ^ 31 ≤ ((place + 28 : Nat) : Int) + keySize
    · rw [if_pos key]
    · have key_eq : ((place + 28 : Nat) : Int) + keySize = (place + 28 + keySize : Nat) := by omega
      rw [if_neg key, if_pos (by omega), key_eq, readContent_eq sized (by omega) (by omega),
        contentEq, if_pos (by omega)]

end

end RssDisk.CManager
