import Mathlib.Data.Finset.Basic
import RssDisk.Lib.Cut
import RssDisk.Lib.Reach
import RssDisk.MapTime
import RssDisk.Reference

/-!
# Events that are gathered from several servers

`client::listen_events` gathers what comes in on all connections by its text, with the addresses of
the servers that sent it; the data of an event are asked of the first one. `dispatch_events` hands
on what has not come again for some time. The functions of the `time_cache` hold its lock.
-/

namespace RssDisk.Client.Gathering

open Lib Bitbase BasefuncStd List

/-- A message, and the address of the server that sent it. -/
abbrev Message := UInt32 × Bytes

/-- The type of a message, the type of its event, and what stands behind both. -/
def header (str : Bytes) : Int × Int × Bytes :=
  match cut [124] str with
  | none => (0, 0, [])
  | some (front, rest) => match cut [124] rest with
    | none => (0, 0, [])
    | some (ev, name) =>
      let type := (stoi front).getD 0
      (type, if type = 12 then (stoi (ev ++ [124])).getD 0 else 0, name)

/-- What a message is gathered under. -/
def idOf (m : Message) : Bytes :=
  let (_, evType, name) := header m.2
  if evType < 0 then replicate 9 48 ++ i32ToChars (Int32.ofInt evType) ++ name else m.2

/-- The data of an event with a name are asked for. -/
def asks (m : Message) : Bool := (header m.2).1 = 12 ∧ 0 < (header m.2).2.1

/-- `event_items`, with what came in, what was taken out, to be handed on or not, and the messages
whose data were asked for. -/
structure Events where
  /-- The addresses, and `last_set_cache`. -/
  eventItems : UMap Bytes (Finset UInt32 × Int) := ∅
  heard : List Message := []
  taken : List (Bytes × Finset UInt32 × Bool) := []
  asked : List Message := []

inductive Action
  | receive (m : Message) (t : Int)
  /-- `dispatch_events`. -/
  | dispatch (minimumMSec tNow : Int)
  /-- `clear_cache`. -/
  | clear (t : Int)
deriving DecidableEq

namespace Events

variable (env : Env) (s : Events)

/-- An item that was not set for more than a number of whole units is taken out. -/
def takeOld (handed : Bool) (unit limit now : Int) (id : Bytes) : Events :=
  match (s.eventItems.lookup id).filter (fun it => limit < (now - it.2).tdiv unit) with
  | some it => { s with
      eventItems := s.eventItems.erase id
      taken := s.taken ++ [(id, it.1, handed)] }
  | none => s

/-- The loops of `get_old_events_and_clear` and `clear_cache`. -/
def take (handed : Bool) (unit limit now : Int) : Events :=
  ((env.order s.eventItems).map Prod.fst).foldl (fun s => s.takeOld handed unit limit now) s

/-- The callback of a connection, with `update_or_add`. -/
def receive (m : Message) (t : Int) : Events :=
  let ips := ((s.eventItems.lookup (idOf m)).map Prod.fst).getD ∅
  { s with
    eventItems := s.eventItems.insert (idOf m) (insert m.1 ips, t)
    heard := s.heard ++ [m]
    asked := if ips = ∅ ∧ asks m then s.asked ++ [m] else s.asked }

def step : Action → Option Events
  | .receive m t => some (s.receive m t)
  | .dispatch minimumMSec tNow => some (s.take env true (10 ^ 6) minimumMSec tNow)
  | .clear t => some (s.take env false (10 ^ 9) 600 t)

end Events

/-- What was heard under an id falls into groups of consecutive messages: what was taken out is each
group once, with the addresses in it, what waits is the rest, and data were asked for with the first
message of each group. -/
structure Grouped (s : Events) (id : Bytes) (groups : List (List Message)) (rest : List Message) :
    Prop where
  filled : [] ∉ groups
  heard : groups.flatten ++ rest = s.heard.filter (fun m => idOf m = id)
  taken : (s.taken.filter (fun it => it.1 = id)).map (fun it => it.2.1) =
    groups.map (fun group => (group.map Prod.fst).toFinset)
  waiting : (s.eventItems.lookup id).map Prod.fst =
    if rest = [] then none else some (rest.map Prod.fst).toFinset
  asked : s.asked.filter (fun m => idOf m = id) = ((groups ++ [rest]).filterMap head?).filter asks

variable {env : Env} {s t : Events} {id : Bytes} {groups : List (List Message)}
  {rest : List Message}

theorem Grouped.receive (grouped : Grouped s id groups rest) (m : Message) (now : Int) :
    Grouped (s.receive m now) id groups (if idOf m = id then rest ++ [m] else rest) := by
  obtain ⟨filled, heard, taken, waiting, asked⟩ := grouped
  by_cases own : idOf m = id
  · subst own
    have value : ((s.eventItems.lookup (idOf m)).map Prod.fst).getD ∅ =
        (rest.map Prod.fst).toFinset := by
      rw [waiting]
      cases rest <;> rfl
    rw [Events.receive, value, if_pos rfl]
    refine ⟨filled, by simp [← heard], taken, ?_, ?_⟩
    · rw [AList.lookup_insert, if_neg (by simp)]
      exact congrArg some (by ext; simp)
    · cases rest with
      | nil => cases first : asks m <;> simp [first, asked]
      | cons first rest => simpa using asked
  · rw [if_neg own]
    refine ⟨filled, by simp [Events.receive, heard, own], taken, ?_, ?_⟩
    · rw [Events.receive, AList.lookup_insert_ne (Ne.symm own), waiting]
    · rw [← asked, Events.receive]
      split
      · simp [own]
      · rfl

theorem Grouped.takeOld (grouped : Grouped s id groups rest) (handed : Bool)
    (unit limit now : Int) (other : Bytes) :
    ∃ groups rest, Grouped (s.takeOld handed unit limit now other) id groups rest := by
  unfold Events.takeOld
  split
  · rename_i it found
    obtain ⟨filled, heard, taken, waiting, asked⟩ := grouped
    by_cases own : other = id
    · subst own
      rw [(Option.filter_eq_some_iff.mp found).1] at waiting
      have some_ : rest ≠ [] := by
        rintro rfl
        cases waiting
      rw [if_neg some_] at waiting
      refine ⟨groups ++ [rest], [], by simpa [filled] using some_.symm, by simpa using heard,
        ?_, ?_, ?_⟩
      · simpa [taken] using Option.some.inj waiting
      · rw [AList.lookup_erase]
        rfl
      · grind
    · refine ⟨groups, rest, filled, heard, by simpa [own] using taken, ?_, asked⟩
      rw [AList.lookup_erase_ne (Ne.symm own)]
      exact waiting
  · exact ⟨groups, rest, grouped⟩

theorem Grouped.take (grouped : Grouped s id groups rest) (handed : Bool)
    (unit limit now : Int) :
    ∃ groups rest, Grouped (s.take env handed unit limit now) id groups rest :=
  foldlRecOn (motive := fun s => ∃ groups rest, Grouped s id groups rest) _ _
    ⟨groups, rest, grouped⟩
    (fun _ ⟨_, _, grouped⟩ other _ => grouped.takeOld handed unit limit now other)

theorem Grouped.step {action : Action} (grouped : Grouped s id groups rest)
    (taken : s.step env action = some t) : ∃ groups rest, Grouped t id groups rest := by
  cases action with
  | receive m now =>
    cases taken
    exact ⟨_, _, grouped.receive m now⟩
  | dispatch minimumMSec tNow =>
    cases taken
    exact grouped.take ..
  | clear now =>
    cases taken
    exact grouped.take ..

/-- Along every run, whatever servers send, and whenever it is handed on or dropped. -/
theorem gathered_once (run : Reaches (Events.step env) (fun _ _ => True) {} s) (id : Bytes) :
    ∃ groups rest, Grouped s id groups rest :=
  run.invariant (fun s => ∃ groups rest, Grouped s id groups rest)
    ⟨[], [], by simp, rfl, rfl, rfl, rfl⟩
    (fun _ _ _ ⟨_, _, grouped⟩ _ taken => grouped.step taken)

/-- Two servers send an event, which is handed on once, with the addresses of both. -/
theorem gathered_once_sample : ∃ s : Events,
    s.taken = [([49, 50, 124, 53, 124, 97], {1, 2}, true)] ∧
      ∃ groups rest, Grouped s [49, 50, 124, 53, 124, 97] groups rest := by
  have ran : ∃ s, Reaches (Events.step Reference.env) (fun _ _ => True) {} s ∧
      s.taken = [([49, 50, 124, 53, 124, 97], {1, 2}, true)] :=
    Reaches.of_runActions_any [.receive (1, [49, 50, 124, 53, 124, 97]) 0,
      .receive (2, [49, 50, 124, 53, 124, 97]) 5, .dispatch 1 (10 ^ 9)] (by decide +kernel)
  obtain ⟨s, run, taken⟩ := ran
  exact ⟨s, taken, gathered_once run _⟩

end RssDisk.Client.Gathering
