import RssDisk.EManager
import RssDisk.Lib.Blocks
import RssDisk.Reference

/-!
# Events that are queued

A client encodes an event with `prepare_edb`. The database of events takes the type off the front
and queues the rest, which begins with a size that the database does not look at again. What
`fetchEvents` returns of a type is the rests of its events, one after another and with nothing
between them; `fetch_edb_content` finds the events again by the sizes.
-/

namespace RssDisk.Client

open Lib Bitbase EManager List AList Int32

/-- `client::prepare_edb` at a time. -/
def prepareEdb (time : Int64) (typeEvent : Int32) (val : Bytes) (ttl : Int32) : Bytes :=
  let data := i32ToChars ttl ++ i64ToChars time ++ val
  i32ToChars typeEvent ++ i32ToChars (Int32.ofNat data.length) ++ data

/-- The loop of `fetch_edb_content` from a place on, with a bound on its rounds and with what the
function was called with so far. A time is turned to a date by `date_time::current_date_time`; the
sum of a size and four is undefined when it overflows. -/
def fetchEdbContent (currentDateTime : Int64 → DateTime) (data : Bytes) :
    Nat → Nat → List (DateTime × Bytes) → Option (List (DateTime × Bytes))
  | 0, _, _ => none
  | rounds + 1, start, calls =>
    if toSize (start + 4) < data.length then
      let dataSize := (charsToI32 ((data.drop start).take 4)).toInt
      if toSize (start + dataSize + 4) ≤ data.length then
        if 12 ≤ dataSize then
          let t := charsToI64 ((data.drop (start + 8)).take 8)
          let value := (data.drop (start + 16)).take (toSize (dataSize - 12))
          match CManager.sum32 dataSize 4 with
          | none => none
          | some size =>
            fetchEdbContent currentDateTime data rounds (toSize (start + size))
              (calls ++ [(currentDateTime t, value)])
        else some calls
      else some calls
    else some calls

/-- What `prepare_edb` is called with, and the time. -/
structure Event where
  typeEvent : Int32
  val : Bytes
  ttl : Int32
  time : Int64
deriving DecidableEq, Repr

namespace Event

variable (e : Event)

def encoded : Bytes := prepareEdb e.time e.typeEvent e.val e.ttl

/-- What is queued of the encoding. -/
def queued : Bytes :=
  i32ToChars (Int32.ofNat (12 + e.val.length)) ++ i32ToChars e.ttl ++ i64ToChars e.time ++ e.val

/-- The event in the queue. -/
def result (dtm : DateTime) : EventResult :=
  { eventType := e.typeEvent, payload := e.queued, dtm, timeToLive := e.ttl }

theorem encoded_eq : e.encoded = i32ToChars e.typeEvent ++ e.queued := by
  simp [encoded, prepareEdb, queued, Nat.add_comm, Nat.add_left_comm]

theorem length_encoded : e.encoded.length = 20 + e.val.length := by
  simp only [encoded, prepareEdb, length_append, i64ToChars_length, i32ToChars_length]
  omega

theorem length_queued : e.queued.length = 16 + e.val.length := by
  simp only [queued, length_append, i64ToChars_length, i32ToChars_length]

theorem drop_queued (rest : Bytes) (count : Nat) :
    (e.queued ++ rest).drop (8 + count) = (i64ToChars e.time ++ (e.val ++ rest)).drop count := by
  have front : (e.queued ++ rest).drop 8 = i64ToChars e.time ++ (e.val ++ rest) := by
    simp [queued, drop_append, drop_of_length_le]
  rw [← drop_drop, front]

theorem insert_encoded (low : e.typeEvent ≤ 0) (some_ : e.val ≠ [])
    (small : e.encoded.length < 2 ^ 31) (now : DateTime) (s : Events) :
    insert now s e.encoded = some ({ eventType := e.typeEvent, payload := e.queued },
      { s with
        eventQueue := s.eventQueue.insert e.typeEvent
          ((s.eventQueue.lookup e.typeEvent).getD [] ++ [e.result now]) }) := by
  have positive := length_pos_iff.mpr some_
  have length := e.length_encoded
  have type_ : charsToI32 (e.encoded.take 4) = e.typeEvent := by
    rw [encoded_eq, take_left' (i32ToChars_length _), charsToI32_i32ToChars]
  have payload : e.encoded.drop 4 = e.queued := by
    rw [encoded_eq, drop_left' (i32ToChars_length _)]
  have size : (charsToI32 (e.queued.take 4)).toInt = ((12 + e.val.length : Nat) : Int) := by
    have field : e.queued.take 4 = i32ToChars (Int32.ofNat (12 + e.val.length)) := by
      simp [queued]
    rw [field, charsToI32_i32ToChars, toInt_ofNat_of_lt (by omega)]
  have ttl : charsToI32 ((e.encoded.drop 8).take 4) = e.ttl := by
    have field : (e.encoded.drop 8).take 4 = i32ToChars e.ttl := by
      rw [show (8 : Nat) = 4 + 4 from rfl, ← drop_drop, payload]
      simp [queued]
    rw [field, charsToI32_i32ToChars]
  have sum : CManager.sum32 ((12 + e.val.length : Nat) : Int) 8 =
      some ((20 + e.val.length : Nat) : Int) := by
    rw [CManager.sum32, if_pos (by omega)]
    congr 1
    omega
  have inside : toSize ((20 + e.val.length : Nat) : Int) ≤ e.encoded.length := by
    rw [toSize_natCast (by omega), length]
  have other : ¬ 0 < e.typeEvent := Int32.not_lt.mpr low
  simp only [EManager.insert, type_, payload, size, ttl, sum]
  rw [if_pos (by omega), if_pos inside, if_neg other, if_pos (by omega), type_]
  rfl

theorem fetchEdbContent_queued {e : Event} (small : 16 + e.val.length < 2 ^ 31)
    (currentDateTime : Int64 → DateTime) {data : Bytes} (long : data.length < 2 ^ 63)
    {place : Nat} {rest : Bytes} (parts : data.drop place = e.queued ++ rest)
    (fits : place + e.queued.length ≤ data.length) (rounds : Nat)
    (calls : List (DateTime × Bytes)) :
    fetchEdbContent currentDateTime data (rounds + 1) place calls =
      fetchEdbContent currentDateTime data rounds (place + e.queued.length)
        (calls ++ [(currentDateTime e.time, e.val)]) := by
  have length := e.length_queued
  have size : (charsToI32 ((data.drop place).take 4)).toInt =
      ((12 + e.val.length : Nat) : Int) := by
    have field : (data.drop place).take 4 = i32ToChars (Int32.ofNat (12 + e.val.length)) := by
      rw [parts]
      simp [queued]
    rw [field, charsToI32_i32ToChars, toInt_ofNat_of_lt (by omega)]
  have time : (data.drop (place + 8)).take 8 = i64ToChars e.time := by
    rw [← drop_drop, parts, ← Nat.add_zero 8, drop_queued]
    simp
  have value : (data.drop (place + 16)).take e.val.length = e.val := by
    rw [← drop_drop, parts, show (16 : Nat) = 8 + 8 from rfl, drop_queued]
    simp
  have next : toSize ((place : Int) + 4) = place + 4 := by
    unfold toSize
    omega
  have stop : toSize ((place : Int) + ((12 + e.val.length : Nat) : Int) + 4) =
      place + e.queued.length := by
    unfold toSize
    omega
  have inner : toSize (((12 + e.val.length : Nat) : Int) - 12) = e.val.length := by
    unfold toSize
    omega
  have sum : CManager.sum32 ((12 + e.val.length : Nat) : Int) 4 =
      some ((16 + e.val.length : Nat) : Int) := by
    rw [CManager.sum32, if_pos (by omega)]
    congr 1
    omega
  have last : toSize ((place : Int) + ((16 + e.val.length : Nat) : Int)) =
      place + e.queued.length := by
    unfold toSize
    omega
  simp only [fetchEdbContent, size, time, charsToI64_i64ToChars, next, stop, inner, value,
    sum, last]
  rw [if_pos (by omega), if_pos (by omega), if_pos (by omega)]

end Event

theorem fetchEdbContent_eq {events : List Event} (small : ∀ e ∈ events, 16 + e.val.length < 2 ^ 31)
    (currentDateTime : Int64 → DateTime) {front : Bytes}
    (long : (front ++ events.flatMap Event.queued).length < 2 ^ 63) {rounds : Nat}
    (enough : events.length < rounds) :
    fetchEdbContent currentDateTime (front ++ events.flatMap Event.queued) rounds front.length [] =
      some (events.map (fun e => (currentDateTime e.time, e.val))) := by
  have walked := @Blocks.walk _ _ _ _
    (fetchEdbContent currentDateTime (front ++ events.flatMap Event.queued))
    (front ++ events.flatMap Event.queued) Event.queued
    (fun _ calls e => calls ++ [(currentDateTime e.time, e.val)]) id events
    (fun e member place rest parts fits rounds calls =>
      Event.fetchEdbContent_queued (small e member) currentDateTime long parts fits rounds calls)
    (fun rounds calls => by
      rw [fetchEdbContent, if_neg]
      · rfl
      · unfold toSize
        omega)
    front.length (by rw [length_append]; omega) drop_left rounds enough []
  rw [Blocks.foldRounds_const, Blocks.foldl_append_flatMap, nil_append] at walked
  rw [walked, id, ← map_eq_flatMap]

/-- The database of events, with the events that were inserted and the times of their insertions. -/
structure History where
  events : Events := {}
  inserted : List (DateTime × Event) := []

/-- What is done with the database of events. -/
inductive Deed where
  | insert (now : DateTime) (e : Event)
  | reset (readings : Int32 → Nat → DateTime)

namespace History

variable (h : History)

def step : Deed → Option History
  | .insert now e => (insert now h.events e.encoded).map (fun done =>
      { events := done.2, inserted := h.inserted ++ [(now, e)] })
  | .reset readings => some { h with events := reset readings h.events }

def encodings : Bytes := h.inserted.flatMap (fun p => p.2.encoded)

/-- The events have types that are not positive and values, all of them fit into two gibibytes, and
`reset` expires none. -/
def Lasting : Deed → Prop
  | .insert _ e => e.typeEvent ≤ 0 ∧ e.val ≠ [] ∧ (h.encodings ++ e.encoded).length < 2 ^ 31
  | .reset readings => ∀ entry ∈ h.events.eventQueue.entries,
      ∀ p ∈ entry.2.zipIdx, ¬ p.1.expired (readings entry.1 p.2)

instance : DecidablePred h.Lasting
  | .insert _ _ => inferInstanceAs (Decidable (_ ∧ _ ∧ _))
  | .reset _ => inferInstanceAs (Decidable (∀ entry ∈ _, ∀ p ∈ _, ¬ _))

/-- The events of a type, in the order of their insertions. -/
def ofType (typeEvent : Int32) : List (DateTime × Event) :=
  h.inserted.filter (fun p => p.2.typeEvent = typeEvent)

/-- The queue of each type holds its events in the order of their insertions. -/
structure Queues : Prop where
  queue : ∀ typeEvent, (h.events.eventQueue.lookup typeEvent).getD [] =
    (h.ofType typeEvent).map (fun p => p.2.result p.1)
  small : h.encodings.length < 2 ^ 31

variable {h}

theorem lookup_reset {readings : Int32 → Nat → DateTime} (lasting : h.Lasting (.reset readings))
    (typeEvent : Int32) :
    (reset readings h.events).eventQueue.lookup typeEvent =
      h.events.eventQueue.lookup typeEvent := by
  rw [EManager.reset, UMap.lookup_mapValues]
  cases found : h.events.eventQueue.lookup typeEvent with
  | none => rfl
  | some v =>
    have all : v.zipIdx.filter (fun p => ¬ p.1.expired (readings typeEvent p.2)) = v.zipIdx := by
      rw [filter_eq_self]
      intro p member
      exact decide_eq_true (lasting ⟨typeEvent, v⟩ (mem_lookup_iff.mp found) p member)
    exact congrArg some ((congrArg (List.map Prod.fst) all).trans (zipIdx_map_fst 0 v))

theorem Queues.step (queues : h.Queues) {deed : Deed} (lasting : h.Lasting deed) {after : History}
    (done : h.step deed = some after) : after.Queues := by
  cases deed with
  | reset readings =>
    cases done
    refine ⟨fun typeEvent => ?_, queues.small⟩
    rw [lookup_reset lasting]
    exact queues.queue typeEvent
  | insert now e =>
    obtain ⟨low, some_, small⟩ := lasting
    have own : e.encoded.length < 2 ^ 31 := by
      grind
    have inserted := e.insert_encoded low some_ own now h.events
    simp only [History.step, inserted, Option.map_some, Option.some.injEq] at done
    subst done
    refine ⟨fun typeEvent => ?_, ?_⟩
    · by_cases same : typeEvent = e.typeEvent
      · subst same
        grind [lookup_insert, ofType, queues.queue]
      · simp only [lookup_insert_ne same, ofType, filter_append]
        rw [queues.queue]
        simp [ofType, Ne.symm same]
    · simpa [encodings] using small

theorem foldl_joined (i : Int) (rs : List EventResult) (rr : EventResult)
    (own : rr.eventType = Int32.ofInt i) :
    rs.foldl (fun r0 r => r0.insert i { (r0.lookup i).getD {} with
        eventType := Int32.ofInt i, payload := ((r0.lookup i).getD {}).payload ++ r.payload })
        (AList.singleton i rr : UMap Int EventResult) =
      AList.singleton i { rr with payload := rr.payload ++ rs.flatMap EventResult.payload } := by
  induction rs generalizing rr with
  | nil => simp
  | cons r rs ih =>
    have found : (AList.singleton i rr : UMap Int EventResult).lookup i = some rr := by
      rw [← insert_empty, lookup_insert]
    rw [foldl_cons]
    simp only [found, Option.getD_some, insert_singleton_eq]
    rw [ih _ rfl]
    simp [own]

theorem queuedEvents_eq {s : Events} {recent : EventResult → Bool} {i : Int}
    (all : ∀ r ∈ (s.eventQueue.lookup (Int32.ofInt i)).getD [], recent r) :
    queuedEvents s recent ∅ i =
      match (s.eventQueue.lookup (Int32.ofInt i)).getD [] with
      | [] => ∅
      | rs => AList.singleton i
        { eventType := Int32.ofInt i, payload := rs.flatMap EventResult.payload } := by
  rw [queuedEvents, filter_eq_self.mpr all]
  cases (s.eventQueue.lookup (Int32.ofInt i)).getD [] with
  | nil => rfl
  | cons r rs =>
    exact foldl_joined i rs { eventType := Int32.ofInt i, payload := r.payload } rfl

theorem fetchEvents_one {env : Env} (walk : env.WalksAll) {s : Events} {now : DateTime} {k : Bytes}
    {seconds i : Int} (query : numbersOf k = [seconds, i]) (low : i ≤ 0)
    (window : ∀ r ∈ (s.eventQueue.lookup (Int32.ofInt i)).getD [], secsTo env r.dtm now < seconds) :
    (fetchEvents env now s k).flatMap EventResult.payload =
      ((s.eventQueue.lookup (Int32.ofInt i)).getD []).flatMap EventResult.payload := by
  have wanted : env.order (UMap.emplace ∅ i () : UMap Int Unit) = [(i, ())] :=
    UMap.Walks.eq_singleton (walk (UMap.emplace ∅ i ()))
  have joined := @queuedEvents_eq s (fun r => secsTo env r.dtm now < seconds) i
    (fun r member => decide_eq_true (window r member))
  have queued : [i].filter (fun i => decide (i ≤ 0)) = [i] :=
    filter_cons_of_pos (decide_eq_true low)
  have stored : [i].filter (fun i => decide (0 < i)) = [] :=
    filter_cons_of_neg (by simpa using low)
  simp only [fetchEvents, query, foldl_cons, foldl_nil, wanted, map_cons,
    map_nil, queued, stored, flatMap_nil, nil_append, joined]
  cases (s.eventQueue.lookup (Int32.ofInt i)).getD [] with
  | nil =>
    have none_ : env.order (∅ : UMap Int EventResult) = [] := UMap.Walks.eq_nil (walk ∅)
    rw [none_]
    rfl
  | cons r rs =>
    rw [UMap.Walks.eq_singleton (walk (AList.singleton i _))]
    simp

theorem length_queued_le (h : History) (typeEvent : Int32) :
    (((h.ofType typeEvent).map Prod.snd).flatMap Event.queued).length ≤ h.encodings.length := by
  rw [ofType, encodings]
  induction h.inserted with
  | nil => exact Nat.le_refl _
  | cons p inserted ih =>
    have encoded := p.2.length_encoded
    have queued := p.2.length_queued
    rw [flatMap_cons, length_append, filter_cons]
    split
    · grind
    · omega

/-- The events of a type are called back with in the order of their insertions, each with its time
and its value, whatever stands before them. -/
theorem fetchEdbContent_fetchEvents {env : Env} (walk : env.WalksAll) {h : History}
    (reached : Reaches step Lasting {} h) {typeEvent : Int32} (low : typeEvent ≤ 0) {now : DateTime}
    {seconds : Int} (window : ∀ p ∈ h.inserted, secsTo env p.1 now < seconds) {k : Bytes}
    (query : numbersOf k = [seconds, typeEvent.toInt]) (currentDateTime : Int64 → DateTime)
    {front : Bytes} (short : front.length < 2 ^ 31) {rounds : Nat}
    (enough : h.inserted.length < rounds) :
    fetchEdbContent currentDateTime
        (front ++ (fetchEvents env now h.events k).flatMap EventResult.payload) rounds
        front.length [] =
      some ((h.ofType typeEvent).map (fun p => (currentDateTime p.2.time, p.2.val))) := by
  have queues : h.Queues := reached.invariant Queues
    ⟨fun typeEvent => rfl, by decide⟩ (fun _ _ _ queues lasting done => queues.step lasting done)
  have own : Int32.ofInt typeEvent.toInt = typeEvent := ofInt_toInt typeEvent
  have subset : ∀ p ∈ h.ofType typeEvent, p ∈ h.inserted :=
    fun p member => mem_of_mem_filter member
  have inside : ∀ r ∈ (h.events.eventQueue.lookup (Int32.ofInt typeEvent.toInt)).getD [],
      secsTo env r.dtm now < seconds := by
    rw [own, queues.queue]
    intro r member
    obtain ⟨p, kept, rfl⟩ := mem_map.mp member
    exact window p (subset p kept)
  have joined : ((h.ofType typeEvent).map (fun p => p.2.result p.1)).flatMap EventResult.payload =
      ((h.ofType typeEvent).map Prod.snd).flatMap Event.queued := by
    rw [flatMap_map, flatMap_map]
    rfl
  have total := length_queued_le h typeEvent
  have bound := queues.small
  have small : ∀ e ∈ (h.ofType typeEvent).map Prod.snd, 16 + e.val.length < 2 ^ 31 := by
    intro e member
    have shorter : e.queued.length ≤
        (((h.ofType typeEvent).map Prod.snd).flatMap Event.queued).length :=
      Blocks.length_le_flatMap member
    rw [e.length_queued] at shorter
    omega
  have fewer : ((h.ofType typeEvent).map Prod.snd).length < rounds := by
    rw [length_map]
    exact Nat.lt_of_le_of_lt (length_filter_le _ _) enough
  rw [fetchEvents_one walk query (le_iff_toInt_le.mp low) inside, own, queues.queue, joined,
    fetchEdbContent_eq small currentDateTime (by rw [length_append]; omega) fewer,
    map_map]
  rfl

def noon : DateTime := { date := ⟨2024, 2, 28⟩, time := ⟨12, 0, 0⟩, isValidDate := true }

/-- Three events of two types, with a reset between them. -/
def someDeeds : List Deed :=
  [.insert noon ⟨0, [1, 2], 60, 7⟩, .insert noon ⟨-1, [3], 60, 8⟩, .reset (fun _ _ => noon),
    .insert noon ⟨0, [4], 60, 9⟩]

/-- The events of type zero are called back with in their order, those of the other type are not. -/
theorem fetchEdbContent_fetchEvents_sample :
    ∃ h : History, Reaches step Lasting {} h ∧
      fetchEdbContent (fun t => { noon with time := ⟨12, 0, t.toInt⟩ })
        ([0, 0] ++ (fetchEvents Reference.env noon h.events [54, 48, 44, 48]).flatMap
          EventResult.payload) 4 2 [] =
        some [({ noon with time := ⟨12, 0, 7⟩ }, [1, 2]),
          ({ noon with time := ⟨12, 0, 9⟩ }, [4])] := by
  have ran : ∃ h, Reaches step Lasting {} h ∧ h.inserted =
      [(noon, ⟨0, [1, 2], 60, 7⟩), (noon, ⟨-1, [3], 60, 8⟩), (noon, ⟨0, [4], 60, 9⟩)] :=
    Reaches.of_runActions_any someDeeds (by decide +kernel)
  obtain ⟨h, reached, inserted⟩ := ran
  have window : ∀ p ∈ h.inserted, secsTo Reference.env p.1 noon < 60 := by
    rw [inserted]
    decide
  have query : EManager.numbersOf [54, 48, 44, 48] = [60, (0 : Int32).toInt] := by decide
  have short : ([0, 0] : Bytes).length < 2 ^ 31 := by decide
  have enough : h.inserted.length < 4 := by
    rw [inserted]
    decide
  refine ⟨h, reached, ?_⟩
  have called := fetchEdbContent_fetchEvents Reference.env_lawful.walk reached (by decide) window
    query (fun t => { noon with time := ⟨12, 0, t.toInt⟩ }) short enough
  rw [ofType, inserted] at called
  exact called

end History

end RssDisk.Client
