import RssDisk.Bitbase
import RssDisk.Lib.Multimap
import RssDisk.Lib.Reach
import RssDisk.Lib.Unordered

/-!
# A map whose values expire

`map_time`: a hash map with an expiry time for each value, and an index of keys by time. An entry
of the index stays when its key is erased or gets a new value, so the index holds more than the
current times; `clear_ttl` walks it up to the first time that has not come and looks into the map
for each key on the way.

The readings of the steady clock are numbers of nanoseconds.
-/

namespace RssDisk

open Lib AList

namespace Bitbase

/-- `chars_to_numeric` into a `std::int32_t`. -/
def charsToI32 (t : Bytes) : Int32 := (charsToU32 t).toInt32

/-- The four bytes of a `std::int32_t`, those of its unsigned image. -/
def i32ToChars (n : Int32) : Bytes := u32ToChars n.toUInt32

@[simp]
theorem charsToI32_i32ToChars (n : Int32) : charsToI32 (i32ToChars n) = n := by
  simp [charsToI32, i32ToChars]

@[simp]
theorem i32ToChars_length (n : Int32) : (i32ToChars n).length = 4 := by
  simp [i32ToChars]

end Bitbase

open Bitbase

/-- A signed number as a `std::size_t`. -/
def toSize (n : Int) : Nat := (n % 2 ^ 64).toNat

theorem toSize_natCast {n : Nat} (small : n < 2 ^ 64) : toSize n = n := by
  rw [toSize]
  omega

/-- `map_time::timed_val`. -/
structure TimedVal (α : Type) where
  val : α
  validUntil : Int
deriving DecidableEq, Repr

structure MapTime (κ α : Type) where
  map : UMap κ (TimedVal α) := ∅
  times : Multimap Int κ := ∅

namespace MapTime

variable {κ α : Type} [DecidableEq κ] (m : MapTime κ α)

/-- `insert` at a reading of the clock. -/
def insert (now : Int) (key : κ) (v : α) (ttlSec : Int32) : MapTime κ α :=
  let val : TimedVal α := ⟨v, now + ttlSec.toInt * 10 ^ 9⟩
  { map := m.map.insert key val, times := m.times.insert (val.validUntil, key) }

def erase (key : κ) : MapTime κ α := { m with map := m.map.erase key }

/-- `get` at a reading of the clock. -/
def get (now : Int) (key : κ) : Option α :=
  match m.map.lookup key with
  | some f => if now ≤ f.validUntil then some f.val else none
  | none => none

def removeIf (key : κ) (pred : α → Bool) : MapTime κ α :=
  match m.map.lookup key with
  | some f => if pred f.val then { m with map := m.map.erase key } else m
  | none => m

def clear : MapTime κ α := { map := ∅, times := ∅ }

/-- The walk of `clear_ttl` over the entries whose times have come. -/
def clearKeys (n : Int) : UMap κ (TimedVal α) → List (Int × κ) → UMap κ (TimedVal α)
  | map, [] => map
  | map, entry :: entries =>
    clearKeys n
      (match map.lookup entry.2 with
        | some f => if f.validUntil < n then map.erase entry.2 else map
        | none => map)
      entries

/-- `clear_ttl` at a reading of the clock. -/
def clearTtl (n : Int) : MapTime κ α where
  map := clearKeys n m.map (m.times.before n)
  times := m.times.eraseBefore n

/-- An item that was read back: it does not replace a value, and its time is recorded anyway. -/
def restore (item : κ × TimedVal α) : MapTime κ α where
  map := m.map.emplace item.1 item.2
  times := m.times.insert (item.2.validUntil, item.1)

/-- The loop of `deserialize`, with a bound on its rounds. A block size is signed, and the place
behind a block is a `std::size_t`, so a negative one leads back. `deserializeFunction` looks at the
clock and may answer differently in each round. -/
def deserializeLoop (deserializeFunction : Nat → Bytes → Option (κ × TimedVal α)) (data : Bytes) :
    Nat → Nat → MapTime κ α → Option (MapTime κ α)
  | 0, _, _ => none
  | rounds + 1, start, m =>
    if start + 4 ≤ data.length then
      let blockSize := (charsToI32 ((data.drop start).take 4)).toInt
      let stop := toSize (start + 4 + blockSize)
      if stop ≤ data.length then
        let block := (data.drop (start + 4)).take (toSize blockSize)
        deserializeLoop deserializeFunction data rounds stop
          (match deserializeFunction rounds block with
            | some item => m.restore item
            | none => m)
      else some m
    else some m

/-- `deserialize`; `none` when it does not end within some rounds. -/
def deserialize (deserializeFunction : Option (Nat → Bytes → Option (κ × TimedVal α)))
    (rounds : Nat) (data : Bytes) : Option (MapTime κ α) :=
  match deserializeFunction with
  | some read => if 4 < data.length then deserializeLoop read data rounds 0 m else some m
  | none => some m

/-- Every key has its current time in the index. -/
def Indexed : Prop := ∀ key v, m.map.lookup key = some v → (v.validUntil, key) ∈ m.times

variable {m}

theorem Indexed.of_subset (indexed : m.Indexed) {map : UMap κ (TimedVal α)}
    (subset : ∀ key v, map.lookup key = some v → m.map.lookup key = some v) :
    ({ m with map } : MapTime κ α).Indexed :=
  fun key v found => indexed key v (subset key v found)

theorem lookup_erase_some {map : UMap κ (TimedVal α)} {key other : κ} {v : TimedVal α}
    (found : (map.erase key).lookup other = some v) : map.lookup other = some v := by
  by_cases same : other = key
  · grind [lookup_erase]
  · rwa [lookup_erase_ne same] at found

theorem Indexed.insert (indexed : m.Indexed) (now : Int) (key : κ) (v : α) (ttlSec : Int32) :
    (m.insert now key v ttlSec).Indexed := by
  intro other w found
  apply Multimap.mem_insert.mpr
  by_cases same : other = key
  · grind [MapTime.insert, lookup_insert]
  · rw [MapTime.insert, lookup_insert_ne same] at found
    exact .inr (indexed other w found)

theorem Indexed.erase (indexed : m.Indexed) (key : κ) : (m.erase key).Indexed :=
  indexed.of_subset (fun _ _ found => lookup_erase_some found)

theorem Indexed.removeIf (indexed : m.Indexed) (key : κ) (pred : α → Bool) :
    (m.removeIf key pred).Indexed := by
  rw [MapTime.removeIf]
  split
  · split
    · exact indexed.erase key
    · exact indexed
  · exact indexed

theorem Indexed.restore (indexed : m.Indexed) (item : κ × TimedVal α) :
    (m.restore item).Indexed := by
  intro key v found
  apply Multimap.mem_insert.mpr
  rw [MapTime.restore, UMap.lookup_emplace] at found
  split at found
  · rename_i same
    subst same
    cases before : m.map.lookup item.1 with
    | none =>
      rw [before] at found
      grind
    | some old =>
      rw [before] at found
      cases found
      exact .inr (indexed item.1 old before)
  · exact .inr (indexed key v found)

theorem Indexed.deserializeLoop (indexed : m.Indexed)
    {read : Nat → Bytes → Option (κ × TimedVal α)} {data : Bytes} {rounds start : Nat}
    {after : MapTime κ α} (ends : deserializeLoop read data rounds start m = some after) :
    after.Indexed := by
  induction rounds generalizing start m with
  | zero => cases ends
  | succ rounds ih =>
    rw [MapTime.deserializeLoop] at ends
    split at ends
    · dsimp only at ends
      split at ends
      · apply ih _ ends
        split
        · exact indexed.restore _
        · exact indexed
      · cases ends
        exact indexed
    · cases ends
      exact indexed

theorem lookup_clearKeys (n : Int) (map : UMap κ (TimedVal α)) (entries : List (Int × κ))
    (key : κ) :
    (clearKeys n map entries).lookup key =
      (map.lookup key).filter
        (fun v => ¬ (v.validUntil < n ∧ key ∈ entries.map Prod.snd)) := by
  induction entries generalizing map with
  | nil => cases found : map.lookup key <;> simp [clearKeys, found, Option.filter]
  | cons entry entries ih =>
    rw [clearKeys, ih]
    by_cases same : key = entry.2
    · subst same
      cases found : map.lookup entry.2 with
      | none => simp [found]
      | some f =>
        by_cases early : f.validUntil < n
        · simp [early, Option.filter]
        · simp [early, found, Option.filter]
    · have kept : (match map.lookup entry.2 with
          | some f => if f.validUntil < n then map.erase entry.2 else map
          | none => map).lookup key = map.lookup key := by
        split
        · split
          · exact lookup_erase_ne same
          · rfl
        · rfl
      have member : key ∈ (entry :: entries).map Prod.snd ↔ key ∈ entries.map Prod.snd := by
        simp [same]
      simp only [kept, member]

/-- With an index that holds every current time, exactly the values whose times have passed are
cleared. -/
theorem Indexed.lookup_clearTtl (indexed : m.Indexed) (n : Int) (key : κ) :
    (m.clearTtl n).map.lookup key = (m.map.lookup key).filter (fun v => ¬ v.validUntil < n) := by
  rw [clearTtl, lookup_clearKeys]
  cases found : m.map.lookup key with
  | none => rfl
  | some v =>
    have met : v.validUntil < n → key ∈ (m.times.before n).map Prod.snd := fun early =>
      List.mem_map.mpr
        ⟨(v.validUntil, key), Multimap.mem_before.mpr ⟨indexed key v found, early⟩, rfl⟩
    by_cases early : v.validUntil < n
    · simp [Option.filter, early, met early]
    · simp [Option.filter, early]

theorem Indexed.clearTtl (indexed : m.Indexed) (n : Int) : (m.clearTtl n).Indexed := by
  intro key v found
  rw [indexed.lookup_clearTtl, Option.filter_eq_some_iff] at found
  have late : n ≤ v.validUntil := by simpa using found.2
  exact Multimap.mem_eraseBefore_of_le (indexed key v found.1) late

inductive Call (κ α : Type) where
  | insert (now : Int) (key : κ) (v : α) (ttlSec : Int32)
  | erase (key : κ)
  | removeIf (key : κ) (pred : α → Bool)
  /-- `deserialize`, which ends within some rounds. -/
  | deserialize (deserializeFunction : Option (Nat → Bytes → Option (κ × TimedVal α)))
      (rounds : Nat) (data : Bytes)
  | clearTtl (n : Int)
  | clear

/-- The map after a call that returns. -/
def step (m : MapTime κ α) : Call κ α → Option (MapTime κ α)
  | .insert now key v ttlSec => some (m.insert now key v ttlSec)
  | .erase key => some (m.erase key)
  | .removeIf key pred => some (m.removeIf key pred)
  | .deserialize deserializeFunction rounds data => m.deserialize deserializeFunction rounds data
  | .clearTtl n => some (m.clearTtl n)
  | .clear => some clear

theorem Indexed.step (indexed : m.Indexed) {call : Call κ α} {after : MapTime κ α}
    (returned : m.step call = some after) : after.Indexed := by
  cases call with
  | insert now key v ttlSec =>
    cases returned
    exact indexed.insert now key v ttlSec
  | erase key =>
    cases returned
    exact indexed.erase key
  | removeIf key pred =>
    cases returned
    exact indexed.removeIf key pred
  | deserialize deserializeFunction rounds data =>
    simp only [MapTime.step, MapTime.deserialize] at returned
    split at returned
    · split at returned
      · exact indexed.deserializeLoop returned
      · grind
    · grind
  | clearTtl n =>
    cases returned
    exact indexed.clearTtl n
  | clear =>
    cases returned
    intro key v found
    cases found

/-- After any history of calls every value has its time in the index, and `clear_ttl` leaves
exactly the values whose times have not passed. -/
theorem clearTtl_exact
    (reached : Reaches (step : MapTime κ α → Call κ α → Option _) (fun _ _ => True) {} m) :
    (∀ key v, m.map.lookup key = some v → (v.validUntil, key) ∈ m.times) ∧
      ∀ n key, (m.clearTtl n).map.lookup key =
        (m.map.lookup key).filter (fun v => ¬ v.validUntil < n) := by
  have indexed : m.Indexed := reached.invariant Indexed (fun key v found => by cases found)
    (fun _ _ _ indexed _ returned => indexed.step returned)
  exact ⟨indexed, indexed.lookup_clearTtl⟩

/-- A key that was inserted for one second and read back for longer is gone after two seconds. -/
theorem clearTtl_exact_sample :
    (({} : MapTime Nat Nat).insert 0 1 7 1 |>.restore (1, ⟨8, 5 * 10 ^ 9⟩)
      |>.clearTtl (2 * 10 ^ 9)).map.lookup 1 = none := by
  have reached : Reaches (step : MapTime Nat Nat → Call Nat Nat → Option _) (fun _ _ => True) {}
      (({} : MapTime Nat Nat).insert 0 1 7 1 |>.restore (1, ⟨8, 5 * 10 ^ 9⟩)) :=
    (Reaches.start.next (.insert 0 1 7 1) trivial rfl).next
      (.deserialize (some (fun _ _ => some (1, ⟨8, 5 * 10 ^ 9⟩))) 2 [0, 0, 0, 1, 0]) trivial rfl
  rw [(clearTtl_exact reached).2]
  decide

end MapTime

end RssDisk
