import Mathlib.Algebra.Order.BigOperators.Group.List
import RssDisk.CManager.Search
import RssDisk.CManager.Serialize
import RssDisk.Lib.Newest

/-!
# The keys of all servers

`client::parse_cdb_all` merges the answers of the servers to a search of keys. Each answer is a time
and some records. For a key the value with the greatest time is kept; of two with the same time it
is the one that came first. The list of servers of a key begins anew with a newer value, and every
later record of the key adds its server, whether its value is the one that is kept or not.
-/

namespace RssDisk.Client

open Lib Bitbase CManager List

inductive CdbOutDataFormat where
  | json
  | data
  | preferJson
deriving DecidableEq, Repr

/-- What the result holds of a key. -/
structure CdbValue where
  tms : Int64
  crc32 : Int64
  validTo : Int64
  data : Json
  /-- `readed`: the addresses of servers. -/
  readed : List UInt32

/-- The member `data` of a value. `Json::Reader` throws on texts that are nested too deep. -/
def dataOf (env : Env) (tooDeep : Bytes → Bool) (value : Bytes) : CdbOutDataFormat → Json
  | .data => .string value
  | .json => if tooDeep value then .string [] else (env.parse value).getD (.string [])
  | .preferJson => if tooDeep value then .string [] else (env.parse value).getD (.string value)

/-- A record of an answer. -/
structure CdbRecord where
  tms : Int64
  crc32 : Int64
  validUntilTms : Int64
  key : Bytes
  content : Bytes
deriving DecidableEq, Repr

section

variable (env : Env) (tooDeep : Bytes → Bool) (frm : CdbOutDataFormat)

/-- The value of a record, before a server is added. -/
def CdbRecord.fresh (r : CdbRecord) : CdbValue where
  tms := r.tms
  crc32 := r.crc32
  validTo := r.validUntilTms
  data := dataOf env tooDeep (env.decompressString r.content) frm
  readed := []

/-- What a record of a server makes of the value of its key. -/
def mergeValue (old : Option CdbValue) (ip : UInt32) (r : CdbRecord) : CdbValue :=
  let v := match old with
    | some old => if old.tms < r.tms then r.fresh env tooDeep frm else old
    | none => r.fresh env tooDeep frm
  { v with readed := v.readed ++ [ip] }

/-- A record of a server in the result. -/
def mergeRecord (ip : UInt32) (data : UMap Bytes CdbValue) (r : CdbRecord) : UMap Bytes CdbValue :=
  data.insert r.key (mergeValue env tooDeep frm (data.lookup r.key) ip r)

/-- The loop over the records of an answer from a place on, with a bound on its rounds; `none` for
`std::out_of_range`. -/
def parseRecords (ip : UInt32) (content : Bytes) :
    Nat → Nat → UMap Bytes CdbValue → Option (UMap Bytes CdbValue)
  | 0, _, _ => none
  | rounds + 1, start, data =>
    if toSize (start + 32) < content.length then
      let field (offset size : Nat) : Bytes := (content.drop (start + offset)).take size
      let keySize := (charsToI32 (field 24 4)).toInt
      let valSize := (charsToI32 (field 28 4)).toInt
      match substr content (start + 32) keySize, substr content (start + 32 + keySize) valSize with
      | some key, some packed =>
        parseRecords ip content rounds (toSize (start + 32 + keySize + valSize))
          (mergeRecord env tooDeep frm ip data ⟨charsToI64 (field 0 8), charsToI64 (field 8 8),
            charsToI64 (field 16 8), key, packed⟩)
      | _, _ => none
    else some data

/-- `parse_cdb_all` of the addresses and contents of some answers. -/
def parseCdbAll (rounds : Nat) : UMap Bytes CdbValue → List (UInt32 × Bytes) →
    Option (UMap Bytes CdbValue)
  | data, [] => some data
  | data, it :: info =>
    (if 40 < it.2.length then parseRecords env tooDeep frm it.1 it.2 rounds 8 data
      else some data).bind (fun data => parseCdbAll rounds data info)

end

/-- The record of an entry, for a conversion of the readings of the clock to times. -/
def CdbRecord.ofEntry (toTimeT : Int → Int64) (it : Bytes × TimedVal Item) : CdbRecord :=
  ⟨it.2.val.timestamp, it.2.val.checksum, toTimeT it.2.validUntil, it.1, it.2.val.content⟩

def CdbRecord.encoded (r : CdbRecord) : Bytes :=
  i64ToChars r.tms ++ i64ToChars r.crc32 ++ i64ToChars r.validUntilTms ++
    i32ToChars (Int32.ofNat r.key.length) ++ i32ToChars (Int32.ofNat r.content.length) ++ r.key ++
    r.content

/-- An answer of a server: records of different keys, each with a content, whose sizes can be
held. -/
structure CdbReply where
  ip : UInt32
  tmsLocal : Int64
  records : List CdbRecord
  once : (records.map CdbRecord.key).Nodup
  fits : ∀ r ∈ records, r.content ≠ [] ∧ 32 + r.key.length + r.content.length < 2 ^ 31
  long : (records.flatMap CdbRecord.encoded).length < 2 ^ 62

namespace CdbReply

def text (reply : CdbReply) : Bytes :=
  i64ToChars reply.tmsLocal ++ reply.records.flatMap CdbRecord.encoded

theorem exists_searchAll {env : Env} (walk : env.WalksAll) {store : DataStore} (sound : Sound store)
    (toTimeT : Int → Int64) (now : Int) (search : Bytes) (ip : UInt32)
    (long : (searchAll env toTimeT now store search).length < 2 ^ 62) :
    ∃ reply : CdbReply, reply.ip = ip ∧ reply.text = searchAll env toTimeT now store search ∧
      reply.records = (reported env store search).map (CdbRecord.ofEntry toTimeT) := by
  have walks : UMap.Walks store.map (env.order store.map) := walk store.map
  have text : searchAll env toTimeT now store search = i64ToChars (toTimeT now) ++
      ((reported env store search).map (CdbRecord.ofEntry toTimeT)).flatMap CdbRecord.encoded := by
    rw [searchAll, flatMap_map]
    rfl
  have once : ((reported env store search).map Prod.fst).Nodup :=
    walks.nodup.sublist (filter_sublist.map Prod.fst)
  refine ⟨⟨ip, toTimeT now, (reported env store search).map (CdbRecord.ofEntry toTimeT), ?_, ?_,
    ?_⟩, rfl, text.symm, rfl⟩
  · rw [map_map]
    exact once
  · intro r member
    obtain ⟨it, inside, rfl⟩ := mem_map.mp member
    have stored := (walks.mem_iff it.1 it.2).mp (mem_of_mem_filter inside)
    have storable := sound it.1 it.2 stored
    exact ⟨storable.content, storable.small⟩
  · grind

end CdbReply

section

variable {env : Env} {tooDeep : Bytes → Bool} {frm : CdbOutDataFormat}

theorem CdbRecord.length_encoded (r : CdbRecord) :
    r.encoded.length = 32 + r.key.length + r.content.length := by
  simp only [encoded, length_append, i64ToChars_length, i32ToChars_length]

theorem CdbRecord.drop_encoded (r : CdbRecord) (rest : Bytes) (count : Nat) :
    (r.encoded ++ rest).drop (32 + count) = (r.key ++ (r.content ++ rest)).drop count := by
  have front : (r.encoded ++ rest).drop 32 = r.key ++ (r.content ++ rest) := by
    simp [encoded, drop_append, drop_of_length_le]
  rw [← drop_drop, front]

theorem parseRecords_encoded {r : CdbRecord}
    (fits : r.content ≠ [] ∧ 32 + r.key.length + r.content.length < 2 ^ 31) (ip : UInt32)
    {content : Bytes} (long : content.length < 2 ^ 63) {place : Nat} {rest : Bytes}
    (parts : content.drop place = r.encoded ++ rest)
    (inside : place + r.encoded.length ≤ content.length) (rounds : Nat)
    (data : UMap Bytes CdbValue) :
    parseRecords env tooDeep frm ip content (rounds + 1) place data =
      parseRecords env tooDeep frm ip content rounds (place + r.encoded.length)
        (mergeRecord env tooDeep frm ip data r) := by
  have positive := length_pos_iff.mpr fits.1
  have length := r.length_encoded
  have field (offset : Nat) : content.drop (place + offset) = (r.encoded ++ rest).drop offset := by
    rw [← drop_drop, parts]
  have tms : (content.drop (place + 0)).take 8 = i64ToChars r.tms := by
    rw [field]
    simp [CdbRecord.encoded]
  have crc32 : (content.drop (place + 8)).take 8 = i64ToChars r.crc32 := by
    rw [field]
    simp [CdbRecord.encoded]
  have validUntilTms : (content.drop (place + 16)).take 8 = i64ToChars r.validUntilTms := by
    rw [field]
    simp [CdbRecord.encoded, drop_append, drop_of_length_le]
  have keySize : (charsToI32 ((content.drop (place + 24)).take 4)).toInt = r.key.length := by
    have text : (content.drop (place + 24)).take 4 = i32ToChars (Int32.ofNat r.key.length) := by
      rw [field]
      simp [CdbRecord.encoded, drop_append, drop_of_length_le]
    rw [text, charsToI32_i32ToChars, Int32.toInt_ofNat_of_lt (by omega)]
  have valSize : (charsToI32 ((content.drop (place + 28)).take 4)).toInt = r.content.length := by
    have text : (content.drop (place + 28)).take 4 =
        i32ToChars (Int32.ofNat r.content.length) := by
      rw [field]
      simp [CdbRecord.encoded, drop_append, drop_of_length_le]
    rw [text, charsToI32_i32ToChars, Int32.toInt_ofNat_of_lt (by omega)]
  have key : substr content ((place : Int) + 32) (r.key.length : Int) = some r.key := by
    have here : ((place : Int) + 32) = ((place + (32 + 0) : Nat) : Int) := by omega
    rw [here, substr_eq (by omega) long, toSize_natCast (by omega), field, r.drop_encoded,
      drop_zero, take_left]
  have packed : substr content ((place : Int) + 32 + (r.key.length : Int))
      (r.content.length : Int) = some r.content := by
    have here : (place : Int) + 32 + (r.key.length : Int) =
        ((place + (32 + r.key.length) : Nat) : Int) := by omega
    rw [here, substr_eq (by omega) long, toSize_natCast (by omega), field, r.drop_encoded,
      drop_left, take_left]
  have next : toSize ((place : Int) + 32) = place + 32 := by
    unfold toSize
    omega
  have stop : toSize ((place : Int) + 32 + (r.key.length : Int) + (r.content.length : Int)) =
      place + r.encoded.length := by
    unfold toSize
    omega
  simp only [parseRecords, tms, crc32, validUntilTms, keySize, valSize, key, packed, next, stop,
    charsToI64_i64ToChars]
  rw [if_pos (by omega)]

theorem parseRecords_text (reply : CdbReply) {rounds : Nat}
    (enough : reply.records.length < rounds) (data : UMap Bytes CdbValue) :
    (if 40 < reply.text.length then parseRecords env tooDeep frm reply.ip reply.text rounds 8 data
      else some data) =
      some (reply.records.foldl (mergeRecord env tooDeep frm reply.ip) data) := by
  have long := reply.long
  have length : reply.text.length = 8 + (reply.records.flatMap CdbRecord.encoded).length := by
    rw [CdbReply.text, length_append, i64ToChars_length]
  have walked := @Blocks.walk _ _ _ _ (parseRecords env tooDeep frm reply.ip reply.text)
    reply.text CdbRecord.encoded (fun _ => mergeRecord env tooDeep frm reply.ip) id reply.records
    (fun r member place rest parts inside rounds data =>
      parseRecords_encoded (reply.fits r member) reply.ip (by omega) parts inside rounds data)
    (fun rounds data => by
      rw [parseRecords, if_neg]
      · rfl
      · unfold toSize
        omega)
    8 (by omega) (drop_left' (i64ToChars_length _)) rounds enough data
  rw [Blocks.foldRounds_const] at walked
  by_cases more : 40 < reply.text.length
  · grind
  · rw [if_neg more]
    cases records : reply.records with
    | nil => rfl
    | cons r others =>
      have member : r ∈ reply.records := by
        grind
      have shorter : r.encoded.length ≤ (reply.records.flatMap CdbRecord.encoded).length :=
        Blocks.length_le_flatMap member
      have positive := length_pos_iff.mpr (reply.fits r member).1
      rw [r.length_encoded] at shorter
      omega

/-- The result for some answers, one after another. -/
def mergeReplies (env : Env) (tooDeep : Bytes → Bool) (frm : CdbOutDataFormat)
    (data : UMap Bytes CdbValue) (replies : List CdbReply) : UMap Bytes CdbValue :=
  replies.foldl (fun data reply => reply.records.foldl (mergeRecord env tooDeep frm reply.ip) data)
    data

theorem parseCdbAll_eq {replies : List CdbReply} {rounds : Nat}
    (enough : ∀ reply ∈ replies, reply.records.length < rounds) (data : UMap Bytes CdbValue) :
    parseCdbAll env tooDeep frm rounds data (replies.map (fun reply => (reply.ip, reply.text))) =
      some (mergeReplies env tooDeep frm data replies) := by
  induction replies generalizing data with
  | nil => rfl
  | cons reply replies ih =>
    rw [map_cons, parseCdbAll, parseRecords_text reply (enough reply mem_cons_self),
      Option.bind_some, ih (fun other member => enough other (mem_cons_of_mem _ member))]
    rfl

end

section

variable {env : Env} {tooDeep : Bytes → Bool} {frm : CdbOutDataFormat}

/-- The record of a key in an answer, with its server. -/
def CdbReply.copy (key : Bytes) (reply : CdbReply) : Option (UInt32 × CdbRecord) :=
  (reply.records.find? (fun r => r.key = key)).map (fun r => (reply.ip, r))

/-- The records of a key in some answers. -/
def copies (key : Bytes) (replies : List CdbReply) : List (UInt32 × CdbRecord) :=
  replies.filterMap (CdbReply.copy key)

def copyTms (c : UInt32 × CdbRecord) : Int := c.2.tms.toInt

/-- The value of a key for the record that is kept and the records that came since. -/
def valueOf (env : Env) (tooDeep : Bytes → Bool) (frm : CdbOutDataFormat)
    (kept : (UInt32 × CdbRecord) × List (UInt32 × CdbRecord)) : CdbValue :=
  { kept.1.2.fresh env tooDeep frm with readed := kept.2.map Prod.fst }

theorem mergeValue_valueOf (kept : Option ((UInt32 × CdbRecord) × List (UInt32 × CdbRecord)))
    (c : UInt32 × CdbRecord) :
    some (mergeValue env tooDeep frm (kept.map (valueOf env tooDeep frm)) c.1 c.2) =
      (pick copyTms kept c).map (valueOf env tooDeep frm) := by
  cases kept with
  | none => rfl
  | some kept =>
    obtain ⟨best, since⟩ := kept
    have newer : (valueOf env tooDeep frm (best, since)).tms < c.2.tms ↔
        copyTms best < copyTms c := Int64.lt_iff_toInt_lt
    rw [Option.map_some, mergeValue, pick]
    by_cases lt : copyTms best < copyTms c
    · rw [if_pos lt]
      simp only [newer.mpr lt, ↓reduceIte]
      rfl
    · rw [if_neg lt]
      simp only [newer, lt, ↓reduceIte]
      simp [valueOf]

theorem lookup_records_of_notMem {key : Bytes} {records : List CdbRecord}
    (away : key ∉ records.map CdbRecord.key) (ip : UInt32) (data : UMap Bytes CdbValue) :
    (records.foldl (mergeRecord env tooDeep frm ip) data).lookup key = data.lookup key := by
  induction records generalizing data with
  | nil => rfl
  | cons r records ih =>
    rw [map_cons, mem_cons, not_or] at away
    rw [foldl_cons, ih away.2, mergeRecord, AList.lookup_insert_ne away.1]

theorem lookup_reply (key : Bytes) (reply : CdbReply) (data : UMap Bytes CdbValue) :
    (reply.records.foldl (mergeRecord env tooDeep frm reply.ip) data).lookup key =
      match reply.copy key with
      | some c => some (mergeValue env tooDeep frm (data.lookup key) c.1 c.2)
      | none => data.lookup key := by
  have once := reply.once
  rw [CdbReply.copy]
  generalize reply.records = records at once
  induction records generalizing data with
  | nil => rfl
  | cons r records ih =>
    rw [map_cons, nodup_cons] at once
    rw [foldl_cons]
    by_cases own : r.key = key
    · subst own
      have first : (r :: records).find? (fun other => other.key = r.key) = some r :=
        find?_cons_of_pos (by simp)
      rw [lookup_records_of_notMem once.1, mergeRecord, AList.lookup_insert, first]
      rfl
    · have behind : (r :: records).find? (fun other => other.key = key) =
          records.find? (fun other => other.key = key) :=
        find?_cons_of_neg (by simpa using own)
      rw [ih _ once.2, behind, mergeRecord, AList.lookup_insert_ne (Ne.symm own)]

/-- The value of a key in the result: the first one of the newest, with the servers of the records
that came since. -/
theorem lookup_mergeReplies (key : Bytes) (replies : List CdbReply) :
    (mergeReplies env tooDeep frm ∅ replies).lookup key =
      (newest copyTms (copies key replies)).map (valueOf env tooDeep frm) := by
  have general (data : UMap Bytes CdbValue)
      (kept : Option ((UInt32 × CdbRecord) × List (UInt32 × CdbRecord)))
      (start : data.lookup key = kept.map (valueOf env tooDeep frm)) :
      (mergeReplies env tooDeep frm data replies).lookup key =
        ((copies key replies).foldl (pick copyTms) kept).map (valueOf env tooDeep frm) := by
    induction replies generalizing data kept with
    | nil => exact start
    | cons reply replies ih =>
      rw [mergeReplies, foldl_cons]
      cases found : reply.copy key with
      | none =>
        rw [copies, filterMap_cons_none found]
        apply ih
        rw [lookup_reply, found]
        exact start
      | some c =>
        rw [copies, filterMap_cons_some found, foldl_cons]
        apply ih
        rw [lookup_reply, found, start]
        exact mergeValue_valueOf kept c
  exact general ∅ none rfl

end

section

variable (env : Env) (tooDeep : Bytes → Bool) (frm : CdbOutDataFormat)

/-- Two values that differ in their servers only. -/
def CdbValue.SameAs (v w : CdbValue) : Prop :=
  v.tms = w.tms ∧ v.crc32 = w.crc32 ∧ v.validTo = w.validTo ∧ v.data = w.data

/-- Two values that differ in the order of their servers only. -/
def CdbValue.Alike (v w : CdbValue) : Prop := v.SameAs w ∧ v.readed.Perm w.readed

/-- `parse_cdb_all` returns a result for some answers. -/
def Parses (order : List CdbReply) (data : UMap Bytes CdbValue) : Prop :=
  ∀ rounds, (∀ reply ∈ order, reply.records.length < rounds) →
    parseCdbAll env tooDeep frm rounds ∅ (order.map (fun reply => (reply.ip, reply.text))) =
      some data

/-- What the value of a key is meant to be: one of the newest, with the servers that hold this
version. -/
structure Winner (cs : List (UInt32 × CdbRecord)) (v : CdbValue) : Prop where
  value : ∃ c ∈ cs, v.SameAs (c.2.fresh env tooDeep frm)
  newest : ∀ c ∈ cs, c.2.tms ≤ v.tms
  readed : ∀ ip, ip ∈ v.readed ↔ ∃ c ∈ cs, c.1 = ip ∧ c.2.tms = v.tms ∧ c.2.crc32 = v.crc32
  once : v.readed.Nodup

/-- What the result is meant to be: every key that an answer has, and no other. -/
def Faithful (replies : List CdbReply) (data : UMap Bytes CdbValue) : Prop :=
  ∀ key, match data.lookup key with
    | none => copies key replies = []
    | some v => Winner env tooDeep frm (copies key replies) v

variable {env tooDeep frm}

theorem parses_iff {order : List CdbReply} {data : UMap Bytes CdbValue} :
    Parses env tooDeep frm order data ↔ data = mergeReplies env tooDeep frm ∅ order := by
  constructor
  · intro parses
    have enough : ∀ reply ∈ order,
        reply.records.length < (order.map (fun reply => reply.records.length)).sum + 1 := by
      intro reply member
      exact Nat.lt_succ_of_le (le_sum_of_mem (mem_map_of_mem member))
    exact Option.some.inj ((parses _ enough).symm.trans (parseCdbAll_eq enough ∅))
  · rintro rfl rounds enough
    exact parseCdbAll_eq enough ∅

theorem copies_nodup {replies : List CdbReply} (distinct : (replies.map CdbReply.ip).Nodup)
    (key : Bytes) : ((copies key replies).map Prod.fst).Nodup := by
  have sublist : ((copies key replies).map Prod.fst).Sublist (replies.map CdbReply.ip) := by
    clear distinct
    induction replies with
    | nil => exact List.Sublist.refl _
    | cons reply replies ih =>
      cases found : reply.copy key with
      | none =>
        rw [copies, filterMap_cons_none found]
        exact ih.cons _
      | some c =>
        have own : c.1 = reply.ip := by
          obtain ⟨r, -, rfl⟩ := Option.map_eq_some_iff.mp found
          rfl
        rw [copies, filterMap_cons_some found, map_cons, map_cons, own]
        exact ih.cons_cons _
  exact distinct.sublist sublist

theorem exists_first {replies : List CdbReply} {key : Bytes} {c : UInt32 × CdbRecord}
    (member : c ∈ copies key replies) (le : ∀ d ∈ copies key replies, copyTms d ≤ copyTms c) :
    ∃ order : List CdbReply, order.Perm replies ∧
      (mergeReplies env tooDeep frm ∅ order).lookup key =
        some (valueOf env tooDeep frm (c, copies key order)) := by
  obtain ⟨reply, inside, found⟩ := mem_filterMap.mp member
  obtain ⟨front, back, rfl⟩ := append_of_mem inside
  have perm : (reply :: (front ++ back)).Perm (front ++ reply :: back) := perm_middle.symm
  have first : copies key (reply :: (front ++ back)) = c :: copies key (front ++ back) :=
    filterMap_cons_some found
  refine ⟨reply :: (front ++ back), perm, ?_⟩
  obtain ⟨best, since, kept, spec⟩ := @newest_spec _ _ _ copyTms
    (copies key (reply :: (front ++ back))) (by rw [first]; exact cons_ne_nil _ _)
  rw [first] at spec
  obtain ⟨rfl, rfl⟩ := spec.of_first (fun d behind => le d (by
    have among : d ∈ copies key (reply :: (front ++ back)) := by
      grind
    exact (perm.filterMap (CdbReply.copy key)).mem_iff.mp among))
  rw [lookup_mergeReplies, kept, Option.map_some, first]

theorem winner_of_agree {replies order : List CdbReply} (perm : order.Perm replies)
    (distinct : (replies.map CdbReply.ip).Nodup) {key : Bytes}
    (agree : ∀ c ∈ copies key replies, ∀ d ∈ copies key replies,
      (c.2.fresh env tooDeep frm).SameAs (d.2.fresh env tooDeep frm))
    {best : UInt32 × CdbRecord} {since : List (UInt32 × CdbRecord)}
    (spec : Newest copyTms (copies key order) best since) :
    best ∈ copies key replies ∧ since.Perm (copies key replies) ∧
      Winner env tooDeep frm (copies key replies) (valueOf env tooDeep frm (best, since)) := by
  have shuffled : (copies key order).Perm (copies key replies) := perm.filterMap _
  have isBest : best ∈ copies key replies := shuffled.mem_iff.mp spec.mem
  have same : ∀ c ∈ copies key replies, c.2.tms = best.2.tms ∧ c.2.crc32 = best.2.crc32 :=
    fun c member => ⟨(agree c member best isBest).1, (agree c member best isBest).2.1⟩
  have all : since = copies key order := by
    obtain ⟨front, parts, older⟩ := spec.split
    cases front with
    | nil => exact parts.symm
    | cons c front =>
      have among : c ∈ copies key order := by
        rw [parts]
        exact mem_append_left _ mem_cons_self
      have equal : copyTms c = copyTms best :=
        congrArg Int64.toInt (same c (shuffled.mem_iff.mp among)).1
      exact absurd equal (older c mem_cons_self).ne
  have listed : since.Perm (copies key replies) := by rwa [all]
  have servers : (since.map Prod.fst).Perm ((copies key replies).map Prod.fst) := listed.map _
  refine ⟨isBest, listed, ⟨best, isBest, rfl, rfl, rfl, rfl⟩, ?_, fun ip => ?_, ?_⟩
  · intro c member
    exact Int64.le_iff_toInt_le.mpr (le_of_eq (congrArg Int64.toInt (same c member).1))
  · change ip ∈ since.map Prod.fst ↔ _
    rw [servers.mem_iff, mem_map]
    constructor
    · rintro ⟨c, member, rfl⟩
      exact ⟨c, member, rfl, same c member⟩
    · rintro ⟨c, member, own, -⟩
      exact ⟨c, member, own⟩
  · exact servers.nodup_iff.mpr (copies_nodup distinct key)

/-- For every order of the answers the result is what it is meant to be, and the same one up to the
order of the servers, exactly when all servers that have a key agree about it. -/
theorem parseCdbAll_faithful_iff (env : Env) (tooDeep : Bytes → Bool) (frm : CdbOutDataFormat)
    (replies : List CdbReply) (distinct : (replies.map CdbReply.ip).Nodup) :
    (∀ order, order.Perm replies → ∃ data, Parses env tooDeep frm order data ∧
      Faithful env tooDeep frm replies data ∧
      ∀ order', order'.Perm replies → ∀ data', Parses env tooDeep frm order' data' →
        ∀ key, Option.Rel CdbValue.Alike (data.lookup key) (data'.lookup key)) ↔
      ∀ key, ∀ c ∈ copies key replies, ∀ d ∈ copies key replies,
        (c.2.fresh env tooDeep frm).SameAs (d.2.fresh env tooDeep frm) := by
  constructor
  · intro right key
    have single := inj_on_of_nodup_map (copies_nodup distinct key)
    -- a copy that no other one is newer than is the version of all servers
    have version {c : UInt32 × CdbRecord} (member : c ∈ copies key replies)
        (le : ∀ d ∈ copies key replies, copyTms d ≤ copyTms c) :
        ∀ d ∈ copies key replies, d.2.tms = c.2.tms ∧ d.2.crc32 = c.2.crc32 := by
      intro d other
      obtain ⟨order, perm, found⟩ := @exists_first env tooDeep frm replies key c member le
      obtain ⟨data, parses, faithful, -⟩ := right order perm
      rw [parses_iff.mp parses] at faithful
      have winner := faithful key
      rw [found] at winner
      have listed : d.1 ∈ (copies key order).map Prod.fst :=
        mem_map_of_mem ((perm.filterMap (CdbReply.copy key)).mem_iff.mpr other)
      obtain ⟨e, among, own, tms, crc32⟩ := (winner.readed d.1).mp listed
      rw [single among other own] at tms crc32
      exact ⟨tms, crc32⟩
    intro c member d other
    obtain ⟨best, since, -, spec⟩ := @newest_spec _ _ _ copyTms (copies key replies)
      (ne_nil_of_mem member)
    have alike := version spec.mem (fun e among => spec.le_best among)
    have most (e : UInt32 × CdbRecord) (among : e ∈ copies key replies) :
        ∀ f ∈ copies key replies, copyTms f ≤ copyTms e := by
      intro f inside
      rw [copyTms, copyTms, (alike f inside).1, (alike e among).1]
    obtain ⟨first, perm, found⟩ :=
      @exists_first env tooDeep frm replies key c member (most c member)
    obtain ⟨second, perm', found'⟩ :=
      @exists_first env tooDeep frm replies key d other (most d other)
    obtain ⟨data, parses, -, independent⟩ := right first perm
    have related := independent second perm' _ (parses_iff.mpr rfl) key
    rw [parses_iff.mp parses, found, found'] at related
    cases related with
    | some alike => exact alike.1
  · intro agree order perm
    have shuffled (key : Bytes) : (copies key order).Perm (copies key replies) := perm.filterMap _
    refine ⟨_, parses_iff.mpr rfl, fun key => ?_, fun order' perm' data' parses key => ?_⟩
    · rw [lookup_mergeReplies]
      cases found : copies key order with
      | nil => exact List.Perm.eq_nil (found ▸ (shuffled key).symm)
      | cons c cs =>
        obtain ⟨best, since, kept, spec⟩ := @newest_spec _ _ _ copyTms (copies key order)
          (by rw [found]; exact cons_ne_nil _ _)
        rw [← found, kept]
        exact (winner_of_agree perm distinct (agree key) spec).2.2
    · rw [parses_iff.mp parses, lookup_mergeReplies, lookup_mergeReplies]
      have shuffled' : (copies key order').Perm (copies key replies) := perm'.filterMap _
      by_cases nothing : copies key replies = []
      · have empty : copies key order = [] := List.Perm.eq_nil (nothing ▸ shuffled key)
        have empty' : copies key order' = [] := List.Perm.eq_nil (nothing ▸ shuffled')
        rw [empty, empty']
        exact .none
      · obtain ⟨best, since, kept, spec⟩ := @newest_spec _ _ _ copyTms (copies key order)
          (fun empty => nothing (List.Perm.eq_nil (empty ▸ (shuffled key).symm)))
        obtain ⟨best', since', kept', spec'⟩ := @newest_spec _ _ _ copyTms (copies key order')
          (fun empty => nothing (List.Perm.eq_nil (empty ▸ shuffled'.symm)))
        obtain ⟨member, listed, -⟩ := winner_of_agree perm distinct (agree key) spec
        obtain ⟨member', listed', -⟩ := winner_of_agree perm' distinct (agree key) spec'
        rw [kept, kept']
        exact .some ⟨agree key best member best' member',
          (listed.trans listed'.symm).map Prod.fst⟩

/-- An answer with one record of the key "a". -/
def sampleReply (ip : UInt32) (tms : Int64) : CdbReply where
  ip := ip
  tmsLocal := 0
  records := [⟨tms, 5, 9, [97], [120, 1]⟩]
  once := nodup_singleton _
  fits := by simp
  long := by simp [CdbRecord.encoded]

/-- Two servers with the same version are both listed, whichever answers first. -/
theorem parseCdbAll_faithful_iff_sample :
    [sampleReply 1 7, sampleReply 2 7].length = 2 ∧
    ∀ order, order.Perm [sampleReply 1 7, sampleReply 2 7] →
      ∃ data, Parses Reference.env (fun _ => false) .data order data ∧
        Faithful Reference.env (fun _ => false) .data [sampleReply 1 7, sampleReply 2 7] data := by
  refine ⟨rfl, fun order perm => ?_⟩
  have right := (parseCdbAll_faithful_iff Reference.env (fun _ => false) .data
    [sampleReply 1 7, sampleReply 2 7] (by decide)).mpr (by
      intro key c member d other
      have record (e : UInt32 × CdbRecord)
          (among : e ∈ copies key [sampleReply 1 7, sampleReply 2 7]) :
          e.2 = ⟨7, 5, 9, [97], [120, 1]⟩ := by
        obtain ⟨reply, inside, found⟩ := mem_filterMap.mp among
        obtain ⟨r, first, rfl⟩ := Option.map_eq_some_iff.mp found
        have held := mem_of_find?_eq_some first
        rcases mem_pair.mp inside with rfl | rfl
        · exact mem_singleton.mp held
        · exact mem_singleton.mp held
      rw [record c member, record d other]
      exact ⟨rfl, rfl, rfl, rfl⟩) order perm
  obtain ⟨data, parses, faithful, -⟩ := right
  exact ⟨data, parses, faithful⟩

/-- A server with an older version is listed with the newer one when it answers later. -/
theorem parseCdbAll_lists_older :
    (parseCdbAll Reference.env (fun _ => false) .data 2 ∅
      [(1, (sampleReply 1 8).text), (2, (sampleReply 2 7).text)]).map
        (fun data => (data.lookup [97]).map (fun v => (v.tms, v.readed))) =
      some (some (8, [1, 2])) ∧
    (parseCdbAll Reference.env (fun _ => false) .data 2 ∅
      [(2, (sampleReply 2 7).text), (1, (sampleReply 1 8).text)]).map
        (fun data => (data.lookup [97]).map (fun v => (v.tms, v.readed))) =
      some (some (8, [1])) := by
  decide +kernel

theorem find_reported (walk : env.WalksAll) (store : DataStore) (search key : Bytes) :
    (reported env store search).find? (fun it => it.1 = key) =
      ((store.map.lookup key).filter
        (fun v => (readSearch env search).meets env key v.val)).map (fun v => (key, v)) := by
  have walks : UMap.Walks store.map (env.order store.map) := walk store.map
  cases first : (reported env store search).find? (fun it => it.1 = key) with
  | some it =>
    obtain ⟨inside, meets⟩ := mem_filter.mp (mem_of_find?_eq_some first)
    have own : it.1 = key := by simpa using find?_some first
    subst own
    simp [(walks.mem_iff it.1 it.2).mp inside, meets]
  | none =>
    cases present : store.map.lookup key with
    | none => rfl
    | some v =>
      have inside := (walks.mem_iff key v).mpr present
      have fails : (readSearch env search).meets env key v.val ≠ true := fun meets =>
        find?_eq_none.mp first (key, v) (mem_filter.mpr ⟨inside, meets⟩) (decide_eq_true rfl)
      simp [fails]

/-- What a client makes of the answer of one server to a search: the values of the server that meet
the search, each with its address, and nothing else. -/
theorem parseCdbAll_searchAll (walk : env.WalksAll) {store : DataStore} (sound : Sound store)
    (toTimeT : Int → Int64) (now : Int) (search : Bytes) (ip : UInt32)
    (long : (searchAll env toTimeT now store search).length < 2 ^ 62) {rounds : Nat}
    (enough : (reported env store search).length < rounds) :
    ∃ data, parseCdbAll env tooDeep frm rounds ∅ [(ip, searchAll env toTimeT now store search)] =
        some data ∧
      ∀ key, data.lookup key = ((store.map.lookup key).filter
        (fun v => (readSearch env search).meets env key v.val)).map (fun v =>
          { (CdbRecord.ofEntry toTimeT (key, v)).fresh env tooDeep frm with readed := [ip] }) := by
  obtain ⟨reply, rfl, text, records⟩ :=
    CdbReply.exists_searchAll walk sound toTimeT now search ip long
  refine ⟨mergeReplies env tooDeep frm ∅ [reply], ?_, fun key => ?_⟩
  · rw [← text]
    have few : ∀ other ∈ [reply], other.records.length < rounds := by
      simpa [records] using enough
    exact parseCdbAll_eq few ∅
  · have copy : reply.copy key = ((reported env store search).find? (fun it => it.1 = key)).map
        (fun it => (reply.ip, CdbRecord.ofEntry toTimeT it)) := by
      rw [CdbReply.copy, records, find?_map, Option.map_map]
      rfl
    rw [lookup_mergeReplies, copies, filterMap_cons, copy, find_reported walk]
    cases (store.map.lookup key).filter _ <;> rfl

/-- A client finds the key of a server that holds one. -/
theorem parseCdbAll_searchAll_sample : ∃ data,
    parseCdbAll Reference.env (fun _ => false) .data 2 ∅
      [(7, searchAll Reference.env (fun _ => 5) 0 shortLived [])] = some data ∧
    (data.lookup [97]).map CdbValue.readed = some [7] := by
  have sound : Sound (applyAll (fun _ => 0) {} [⟨[97], ⟨[1], 2, 3⟩, 1⟩]) :=
    Sound.applyAll (by decide) (fun _ _ found => by cases found)
  obtain ⟨data, parses, held⟩ := parseCdbAll_searchAll Reference.env_lawful.walk sound
    (fun _ => 5) 0 [] 7 (by decide +kernel) (by decide +kernel : _ < 2)
  exact ⟨data, parses, by rw [held]; decide +kernel⟩

end

end RssDisk.Client
