import RssDisk.CManager
import RssDisk.Disk

/-!
# The database of events

`EDatabaseManager`: events of a positive type are kept by their names, the last one of each name;
the others are queued for a number of seconds. An event arrives as its type and the size of a name,
both in four bytes. The size is signed, and is compared with the size of the text as if it were
not.
-/

namespace RssDisk.EManager

open Lib Bitbase

/-- `EDatabaseManager::EventResult`. -/
structure EventResult where
  eventType : Int32 := 0
  payload : Bytes := []
  dtm : DateTime := {}
  timeToLive : Int32 := 0
deriving DecidableEq, Repr

/-- `EDatabaseManager`. -/
structure Events where
  eventStorage : UMap Int32 (UMap Bytes EventResult) := ∅
  eventQueue : UMap Int32 (List EventResult) := ∅

/-- `insert`; `none` when the sum that is compared with the size of the text overflows, which is
undefined. -/
def insert (now : DateTime) (s : Events) (d : Bytes) : Option (EventResult × Events) :=
  if 8 < d.length then
    let eventType := charsToI32 (d.take 4)
    let headerBytes := (charsToI32 ((d.drop 4).take 4)).toInt
    match CManager.sum32 headerBytes 8 with
    | none => none
    | some last =>
      if toSize last ≤ d.length then
        if 0 < eventType then
          let name := (d.drop 8).take (toSize headerBytes)
          let value := d.drop (toSize last)
          let named := ((s.eventStorage.lookup eventType).getD ∅).insert name
            { eventType, payload := value, dtm := now }
          some ({ eventType, payload := name },
            { s with eventStorage := s.eventStorage.insert eventType named })
        else if 12 < headerBytes then
          let payload := d.drop 4
          let timeToLive := charsToI32 ((d.drop 8).take 4)
          let queue := (s.eventQueue.lookup eventType).getD [] ++
            [{ eventType, payload, dtm := now, timeToLive }]
          some ({ eventType, payload },
            { s with eventQueue := s.eventQueue.insert eventType queue })
        else some ({ eventType }, s)
      else some ({ eventType }, s)
  else some ({}, s)

/-- Whether the seconds of a queued event have passed. -/
def EventResult.expired (now : DateTime) (r : EventResult) : Bool :=
  r.dtm.lt (now.addSecs (toInt32 (-r.timeToLive.toInt)))

/-- `reset`. The clock is read for each event: at a type and a place in its queue. -/
def reset (readings : Int32 → Nat → DateTime) (s : Events) : Events :=
  { s with
    eventQueue := s.eventQueue.mapValues (fun eventType v =>
      (v.zipIdx.filter (fun (r, i) => ¬ r.expired (readings eventType i))).map Prod.fst) }

/-- `retrieve`: the event of a type and a name, which stand before and behind a bar. -/
def retrieve (s : Events) (k : Bytes) : EventResult :=
  let typed : Bytes × Bytes :=
    if 124 ∈ k then (k.takeWhile (· ≠ 124), (k.dropWhile (· ≠ 124)).drop 1) else ([], [])
  let eventType := Int32.ofInt ((BasefuncStd.stoi typed.1).getD 0)
  match s.eventStorage.lookup eventType with
  | some named => (named.lookup typed.2).getD { eventType }
  | none => { eventType }

variable (env : Env)

/-- `date_time::secs_to`. -/
def secsTo (first second : DateTime) : Int :=
  (env.mktime second.date second.time).toInt - (env.mktime first.date first.time).toInt

/-- The numbers of a text with commas between them. -/
def numbersOf (text : Bytes) : List Int := (Disk.split text 44).filterMap BasefuncStd.stoi

/-- The events of a positive type that are kept. -/
def storedEvents (s : Events) (recent : EventResult → Bool) (i : Int) : List EventResult :=
  match s.eventStorage.lookup (Int32.ofInt i) with
  | some named => ((env.order named).map Prod.snd).filter recent
  | none => []

/-- The queued events of a type, joined to one. -/
def queuedEvents (s : Events) (recent : EventResult → Bool) (r0 : UMap Int EventResult) (i : Int) :
    UMap Int EventResult :=
  (((s.eventQueue.lookup (Int32.ofInt i)).getD []).filter recent).foldl (fun r0 r =>
    let rr := (r0.lookup i).getD {}
    r0.insert i { rr with eventType := Int32.ofInt i, payload := rr.payload ++ r.payload }) r0

/-- `fetchEvents`: the events of some types that are younger than a number of seconds. -/
def fetchEvents (now : DateTime) (s : Events) (k : Bytes) : List EventResult :=
  match numbersOf k with
  | [] => []
  | seconds :: types =>
    let wanted : UMap Int Unit := types.foldl (fun wanted i => wanted.emplace i ()) ∅
    let recent (r : EventResult) : Bool := secsTo env r.dtm now < seconds
    let order := (env.order wanted).map Prod.fst
    let r0 := (order.filter (fun i => i ≤ 0)).foldl (queuedEvents s recent) ∅
    (order.filter (fun i => 0 < i)).flatMap (storedEvents env s recent) ++
      (env.order r0).map Prod.snd

end RssDisk.EManager
