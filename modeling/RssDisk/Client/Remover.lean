import RssDisk.CManager.Batch
import RssDisk.CManager.Search

/-!
# Removers of keys

Behind a write of keys `client::write_file` sends the servers that did not take it a payload that is
to erase these keys. For a batch it cuts the contents out of the records, so that each record says
that its key has no content. For a single key it encodes an empty value; this is compressed as every
value is, and a compressed value is not empty.
-/

namespace RssDisk.Client

open Lib Bitbase CManager List

/-- What one round of the cutting loop does. -/
inductive CutRound where
  | ends
  /-- `std::out_of_range`, or a sum that overflows, which is undefined. -/
  | fails
  /-- A record without its content is added, and the loop goes on at a place. -/
  | goes (pos : Int) (piece : Bytes)

/-- One round of the cutting loop of `write_file`. -/
def cutRound (content : Bytes) (pos : Int) : CutRound :=
  match sum32 pos 28 with
  | none => .fails
  | some behind =>
    if toSize behind < content.length then
      match substr content (pos + 20) 4, substr content (pos + 24) 4 with
      | some headerText, some contentText =>
        let headerBytes := (charsToI32 headerText).toInt
        let contentBytes := (charsToI32 contentText).toInt
        match sum32 behind headerBytes with
        | none => .fails
        | some keyEnd =>
          if toSize keyEnd ≤ content.length then
            match sum32 keyEnd contentBytes with
            | none => .fails
            | some last =>
              if toSize last ≤ content.length then
                match substr content pos 24, substr content behind headerBytes with
                | some front, some key => .goes last (front ++ i32ToChars 0 ++ key)
                | _, _ => .fails
              else .ends
          else .ends
      | _, _ => .fails
    else .ends

/-- The cutting loop from a place on, with a bound on its rounds. -/
def cutLoop (content : Bytes) : Nat → Int → Bytes → Option Bytes
  | 0, _, _ => none
  | rounds + 1, pos, cutted =>
    match cutRound content pos with
    | .ends => some cutted
    | .fails => none
    | .goes next piece => cutLoop content rounds next (cutted ++ piece)

/-- The remover of a batch, behind its number and identifier. -/
def batchRemover (rounds : Nat) (content : Bytes) : Option Bytes := cutLoop content rounds 0 []

/-- The remover of a single key, behind its number and identifier. -/
def keyRemover (env : Env) (crc32 : Bytes → Int64) (time : Int64) (filename : Bytes) : Bytes :=
  prepareCdb env crc32 time filename [] 1

section

variable {d : Bytes}

theorem sum32_natCast {n m : Nat} (small : n + m < 2 ^ 31) :
    sum32 n m = some ((n + m : Nat) : Int) := by
  rw [sum32, if_pos (by omega), Int.natCast_add]

theorem cutRound_record (sized : d.length < 2 ^ 63) {place : Nat} {r : Record} {rest : Bytes}
    (read : readRecord (d.drop place) = some (r, rest)) (low : place + r.size < 2 ^ 31) :
    cutRound d place =
      .goes (place + r.size : Nat) ((d.drop place).take 24 ++ i32ToChars 0 ++ r.key) := by
  obtain ⟨keySize, contentSize, keyEq, contentEq, parts, size, more, fits, -⟩ :=
    readRecord_eq_some read
  have field (offset count : Nat) (small : offset ≤ 28) (few : count ≤ 24) :
      substr d ((place : Int) + (offset : Nat)) (count : Nat) =
        some ((d.drop (place + offset)).take count) := by
    rw [← Int.natCast_add, substr_eq (by omega) sized, toSize_natCast (by omega)]
  have front := field 0 24 (by decide) (by decide)
  have first := field 20 4 (by decide) (by decide)
  have second := field 24 4 (by decide) (by decide)
  simp only [Nat.cast_ofNat, Nat.cast_zero, Int.add_zero, Nat.add_zero] at front first second
  have header : sum32 (place : Int) 28 = some ((place + 28 : Nat) : Int) := by
    rw [sum32, if_pos (by omega), Int.natCast_add place 28]
    rfl
  have keyed := @sum32_natCast (place + 28) keySize (by omega)
  have closed := @sum32_natCast (place + 28 + keySize) contentSize (by omega)
  have key : substr d ((place + 28 : Nat) : Int) keySize = some r.key := by
    rw [substr_eq (by omega) sized, toSize_natCast (by omega), parts]
  have last : place + 28 + keySize + contentSize = place + r.size := by omega
  have inside (n : Nat) (small : n ≤ d.length) : toSize n ≤ d.length := by
    rwa [toSize_natCast (by omega)]
  simp only [headerAt] at keyEq contentEq
  rw [cutRound, header]
  dsimp only
  rw [if_pos (by rwa [toSize_natCast (by omega)]), first, second]
  dsimp only
  rw [keyEq, contentEq, keyed]
  dsimp only
  rw [if_pos (inside _ (by omega)), closed]
  dsimp only
  rw [if_pos (inside _ (by omega)), front, key, last]

theorem cutRound_end (low : d.length + 28 < 2 ^ 31) : cutRound d d.length = .ends := by
  rw [cutRound, sum32, if_pos (by omega)]
  dsimp only
  rw [if_neg]
  unfold toSize
  omega

end

section

variable {env : Env} {crc32 : Bytes → Int64}

/-- An environment whose compressor leaves nothing. -/
def bare (env : Env) : Env := { env with compress := fun _ => [] }

theorem take_encoded (e : Entry) (rest : Bytes) :
    (e.encoded env crc32 ++ rest).take 24 ++ i32ToChars 0 ++ e.key =
      e.encoded (bare env) crc32 := by
  have front : (e.encoded env crc32 ++ rest).take 24 =
      i64ToChars e.time ++ i64ToChars (crc32 e.val) ++ i32ToChars e.ttl ++
        i32ToChars (Int32.ofNat e.key.length) := by
    have parts : e.encoded env crc32 ++ rest =
        (i64ToChars e.time ++ i64ToChars (crc32 e.val) ++ i32ToChars e.ttl ++
          i32ToChars (Int32.ofNat e.key.length)) ++
        (i32ToChars (Int32.ofNat (env.compress e.val).length) ++ e.key ++ env.compress e.val ++
          rest) := by
      simp [Entry.encoded, prepareCdb]
    rw [parts]
    exact take_left' (by simp)
  rw [front]
  simp [Entry.encoded, prepareCdb, bare]

theorem cutLoop_encoded {d : Bytes} (small : d.length < 2 ^ 30) {e : Entry} (key : e.key ≠ [])
    {place : Nat} {rest : Bytes} (parts : d.drop place = e.encoded env crc32 ++ rest)
    (fits : place + (e.encoded env crc32).length ≤ d.length) (rounds : Nat) (cutted : Bytes) :
    cutLoop d (rounds + 1) place cutted =
      cutLoop d rounds (place + (e.encoded env crc32).length : Nat)
        (cutted ++ e.encoded (bare env) crc32) := by
  have read := e.readRecord_encoded env crc32 (e.lt_length_encoded env crc32 key) (by omega) rest
  rw [← parts] at read
  have size := e.length_encoded env crc32
  have goes := cutRound_record (by omega) read (by omega)
  have piece : (d.drop place).take 24 ++ i32ToChars 0 ++ (e.record env crc32).key =
      e.encoded (bare env) crc32 := by
    rw [parts]
    exact take_encoded e _
  rw [cutLoop, goes, piece, size]

theorem batchRemover_batch {entries : List Entry} (keys : ∀ e ∈ entries, e.key ≠ [])
    (small : (batch env crc32 entries).length < 2 ^ 30) {rounds : Nat}
    (enough : entries.length < rounds) :
    batchRemover rounds (batch env crc32 entries) = some (batch (bare env) crc32 entries) := by
  have walked := @Blocks.walk _ _ _ _
    (fun rounds place cutted => cutLoop (batch env crc32 entries) rounds (place : Nat) cutted)
    (batch env crc32 entries) (Entry.encoded env crc32)
    (fun _ cutted e => cutted ++ e.encoded (bare env) crc32) id entries
    (fun e member place rest parts fits rounds cutted =>
      cutLoop_encoded small (keys e member) parts fits rounds cutted)
    (fun rounds cutted => by
      rw [cutLoop, cutRound_end (by omega)]
      rfl)
    0 (Nat.zero_le _) rfl rounds enough []
  rw [Blocks.foldRounds_const, Blocks.foldl_append_flatMap] at walked
  exact walked

theorem length_bare_le (entries : List Entry) :
    (batch (bare env) crc32 entries).length ≤ (batch env crc32 entries).length := by
  induction entries with
  | nil => exact Nat.le_refl _
  | cons e entries ih =>
    have shorter : (e.encoded (bare env) crc32).length ≤ (e.encoded env crc32).length := by
      rw [e.length_encoded, e.length_encoded]
      simp [Entry.record, Record.size, bare]
    simp only [batch, flatMap_cons, length_append] at ih ⊢
    omega

theorem lookup_applyAll_erases {clock : Nat → Int} {store : DataStore} {changes : List Change}
    (empty : ∀ change ∈ changes, change.item.content = []) (key : Bytes) :
    (applyAll clock store changes).map.lookup key =
      if key ∈ changes.map Change.key then none else store.map.lookup key := by
  induction changes generalizing clock store with
  | nil => rfl
  | cons change changes ih =>
    rw [applyAll, ih (fun other member => empty other (mem_cons_of_mem _ member)),
      Change.apply, if_pos (empty change mem_cons_self), map_cons]
    by_cases later : key ∈ changes.map Change.key
    · rw [if_pos later, if_pos (mem_cons_of_mem _ later)]
    · by_cases own : key = change.key
      · rw [if_neg later, if_pos (own ▸ mem_cons_self), own]
        exact AList.lookup_erase _ _
      · rw [if_neg later, if_neg]
        · exact AList.lookup_erase_ne own
        · simp only [mem_cons, not_or]
          exact ⟨own, later⟩

theorem insert_bare (clock : Nat → Int) (store : DataStore) {entries : List Entry}
    (keys : ∀ e ∈ entries, e.key ≠ []) (small : (batch env crc32 entries).length < 2 ^ 30) :
    ∃ after : DataStore,
      (∀ rounds, entries.length < rounds →
        insert clock rounds store (batch (bare env) crc32 entries) =
          some (after, decide (entries ≠ []))) ∧
      ∀ key, after.map.lookup key =
        if key ∈ entries.map Entry.key then none else store.map.lookup key := by
  have small : (batch (bare env) crc32 entries).length < 2 ^ 30 :=
    Nat.lt_of_le_of_lt (length_bare_le entries) small
  refine ⟨_, fun rounds enough => insert_batch_eq clock store keys small enough, fun key => ?_⟩
  rw [lookup_applyAll_erases]
  · rw [map_map]
    rfl
  · intro change member
    obtain ⟨e, -, rfl⟩ := mem_map.mp member
    rfl

/-- The remover of a batch erases the keys of the batch and leaves every other key as it is. -/
theorem batchRemover_erases (env : Env) (crc32 : Bytes → Int64) (entries : List Entry)
    (keys : ∀ e ∈ entries, e.key ≠ []) (small : (batch env crc32 entries).length < 2 ^ 30)
    (clock : Nat → Int) (store : DataStore) :
    ∃ (remover : Bytes) (after : DataStore),
      (∀ rounds, entries.length < rounds →
        batchRemover rounds (batch env crc32 entries) = some remover) ∧
      (∀ rounds, entries.length < rounds →
        insert clock rounds store remover = some (after, decide (entries ≠ []))) ∧
      ∀ key, after.map.lookup key =
        if key ∈ entries.map Entry.key then none else store.map.lookup key := by
  obtain ⟨after, inserted, lookups⟩ := insert_bare clock store keys small
  exact ⟨batch (bare env) crc32 entries, after, fun rounds enough =>
    batchRemover_batch keys small enough, inserted, lookups⟩

/-- Two keys are erased, and a third one stays. -/
theorem batchRemover_erases_sample :
    ∃ remover after,
      batchRemover 4 (batch Reference.env (fun _ => 5) someEntries) = some remover ∧
      insert (fun _ => 0) 4 (({} : DataStore).insert 0 [97] ⟨[1], 2, 3⟩ 9 |>.insert 0 [99]
        ⟨[4], 5, 6⟩ 9) remover = some (after, true) ∧
      after.map.lookup [97] = none ∧ after.map.lookup [99] = some ⟨⟨[4], 5, 6⟩, 9 * 10 ^ 9⟩ := by
  obtain ⟨remover, after, cuts, inserted, lookups⟩ := batchRemover_erases Reference.env (fun _ => 5)
    someEntries (by decide) (by decide) (fun _ => 0)
    (({} : DataStore).insert 0 [97] ⟨[1], 2, 3⟩ 9 |>.insert 0 [99] ⟨[4], 5, 6⟩ 9)
  refine ⟨remover, after, cuts 4 (by decide), inserted 4 (by decide), ?_, ?_⟩
  · rw [lookups]
    decide
  · rw [lookups]
    decide

end

/-- A key is neither retrieved nor found. -/
def Erased (env : Env) (now : Int) (store : DataStore) (key : Bytes) : Prop :=
  retrieve now store key = none ∧ ∀ item, ¬ Reports env store [] key item

section

variable {env : Env} {crc32 : Bytes → Int64}

theorem erased_of_lookup (walk : env.WalksAll) {now : Int} {store : DataStore} {key : Bytes}
    (absent : store.map.lookup key = none) : Erased env now store key := by
  constructor
  · rw [retrieve, MapTime.get, absent]
    rfl
  · intro item seen
    obtain ⟨validUntil, found⟩ := (reports_nil_iff walk).mp seen
    cases absent.symm.trans found

theorem insert_keyless (e : Entry) (none_ : e.key = [])
    (small : (e.encoded env crc32).length < 2 ^ 30) (clock : Nat → Int) {rounds : Nat}
    (enough : 1 < rounds) (store : DataStore) :
    insert clock rounds store (e.encoded env crc32) = some (store, false) := by
  obtain ⟨rounds, rfl⟩ : ∃ k, rounds = k + 2 := ⟨rounds - 2, by omega⟩
  have sized : (e.encoded env crc32).length < 2 ^ 63 := by omega
  have ends : round (e.encoded env crc32) (e.encoded env crc32).length = .ends := by
    rw [round_eq sized, if_neg (by omega), if_neg (by omega)]
  by_cases more : 28 < (e.encoded env crc32).length
  · have read := e.readRecord_encoded env crc32 more (by omega) []
    rw [append_nil] at read
    have size := e.length_encoded env crc32
    have goes := @round_record (e.encoded env crc32) sized 0 _ _ read (by omega)
    rw [Nat.zero_add, ← size] at goes
    have nothing : (e.record env crc32).change = none := if_pos none_
    rw [nothing] at goes
    rw [CManager.insert, show (0 : Int) = (0 : Nat) from rfl, loop_of_goes goes, loop_of_ends ends]
    rfl
  · have header : (e.encoded env crc32).length = 28 := by
      rw [e.length_encoded, Record.size] at more ⊢
      omega
    have start : round (e.encoded env crc32) 0 = .ends := by
      rw [show (0 : Int) = (0 : Nat) from rfl, round_eq sized, if_neg (by omega),
        if_neg (by omega)]
    rw [CManager.insert, loop_of_ends start]
    rfl

theorem insert_keyRemover (time : Int64) {key : Bytes} (some_ : key ≠ [])
    (small : (keyRemover env crc32 time key).length < 2 ^ 30) (clock : Nat → Int) {rounds : Nat}
    (enough : 1 < rounds) (store : DataStore) :
    insert clock rounds store (keyRemover env crc32 time key) =
      some (if env.compress [] = [] then store.erase key
        else store.insert (clock 0) key ⟨env.compress [], crc32 [], time⟩ 1, true) := by
  have one : batch env crc32 [⟨key, [], 1, time⟩] = keyRemover env crc32 time key :=
    append_nil _
  have inserted := @insert_batch_eq env crc32 clock rounds store [⟨key, [], 1, time⟩]
    (by simpa using some_) (by rwa [one]) enough
  rw [one] at inserted
  exact inserted

/-- Behind the remover of a batch with one key the key is gone. Behind the remover of a single key
it is gone exactly when the compressor leaves nothing of an empty value; an empty key is not
touched. -/
theorem keyRemover_erases_iff (walk : env.WalksAll) (crc32 : Bytes → Int64) (time : Int64)
    (e : Entry) (small : (e.encoded env crc32).length < 2 ^ 30)
    (fits : (keyRemover env crc32 time e.key).length < 2 ^ 30) (clock : Nat → Int)
    (store : DataStore) (now : Int) :
    (e.key ≠ [] → ∃ remover after,
      (∀ rounds, 1 < rounds → batchRemover rounds (e.encoded env crc32) = some remover) ∧
      (∀ rounds, 1 < rounds → insert clock rounds store remover = some (after, true)) ∧
        Erased env now after e.key) ∧
    ∃ after, (∀ rounds, 1 < rounds → insert clock rounds store (keyRemover env crc32 time e.key) =
        some (after, decide (e.key ≠ []))) ∧
      (Erased env now after e.key ↔
        if e.key = [] then Erased env now store [] else env.compress [] = []) := by
  constructor
  · intro some_
    have one : batch env crc32 [e] = e.encoded env crc32 := append_nil _
    have keys : ∀ other ∈ [e], other.key ≠ [] := by simpa using some_
    obtain ⟨after, inserted, lookups⟩ := @insert_bare env crc32 clock store [e] keys (by rwa [one])
    refine ⟨batch (bare env) crc32 [e], after, fun rounds enough => ?_, inserted, ?_⟩
    · rw [← one] at small ⊢
      exact batchRemover_batch keys small enough
    · apply erased_of_lookup walk
      rw [lookups]
      simp
  · by_cases empty : e.key = []
    · refine ⟨store, fun rounds enough => ?_, ?_⟩
      · rw [decide_eq_false (by simpa using empty)]
        exact insert_keyless ⟨e.key, [], 1, time⟩ empty fits clock enough store
      · rw [if_pos empty, empty]
    · rw [decide_eq_true empty, if_neg empty]
      refine ⟨_, fun rounds enough => insert_keyRemover time empty fits clock enough store, ?_⟩
      by_cases nothing : env.compress [] = []
      · rw [if_pos nothing]
        refine iff_of_true (erased_of_lookup walk ?_) nothing
        exact AList.lookup_erase _ _
      · rw [if_neg nothing]
        refine iff_of_false ?_ nothing
        rintro ⟨-, silent⟩
        apply silent ⟨env.compress [], crc32 [], time⟩
        exact (reports_nil_iff walk).mpr ⟨_, AList.lookup_insert _⟩

/-- A state with the key "a". -/
def withKey : DataStore := ({} : DataStore).insert 0 [97] ⟨[1], 2, 3⟩ 9

/-- The compressor of the reference surroundings leaves something of an empty value. -/
theorem keyRemover_erases_iff_sample :
    ∃ after, insert (fun _ => 0) 2 withKey (keyRemover Reference.env (fun _ => 0) 7 [97]) =
      some (after, true) ∧ ¬ Erased Reference.env 0 after [97] := by
  obtain ⟨-, after, inserted, erased⟩ := keyRemover_erases_iff Reference.env_lawful.walk
    (fun _ => 0) 7 ⟨[97], [1], 5, 6⟩ (by decide) (by decide) (fun _ => 0) withKey 0
  refine ⟨after, inserted 2 (by decide), ?_⟩
  rw [erased, if_neg (by decide)]
  decide

/-- The remover of the batch erases the key, and the remover of the single key leaves it with what
the compressor makes of an empty value. -/
theorem keyRemover_keeps :
    ((batchRemover 2 (batch Reference.env (fun _ => 0) [⟨[97], [1], 5, 6⟩])).bind fun remover =>
      (insert (fun _ => 0) 2 withKey remover).map fun after => retrieve 0 after.1 [97]) =
        some none ∧
    ((insert (fun _ => 0) 2 withKey (keyRemover Reference.env (fun _ => 0) 7 [97])).map
      fun after => retrieve 0 after.1 [97]) =
        some (some (i64ToChars 7 ++ i64ToChars 0 ++ Reference.env.compress [])) := by
  decide

end

end RssDisk.Client
