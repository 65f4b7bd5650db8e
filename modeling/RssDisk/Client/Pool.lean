import Mathlib.Data.Finset.Basic
import RssDisk.EManager
import RssDisk.Lib.Places
import RssDisk.Reference

/-!
# The pool of clients

`pool::ClientMutex` hands out clients to guards. It looks at nothing of a client but its
`pool_index`, so a pooled client is known by its index here, and one that got no place in the pool
is known only to its guard, which has the index -1. `acquire`, `release` and `clear` each hold the
lock while they change the pool, so a run of the threads is a sequence of them. Guards are not
copied: each one is destroyed once.
-/

namespace RssDisk.Client.Pool

open Lib EManager List

/-- A `guard` that is alive. -/
structure Guard where
  index : Int
  /-- The client that it holds, if this is pooled. -/
  c : Option Int
deriving DecidableEq

/-- `ClientMutex`, with the guards that are alive. -/
structure ClientMutex where
  clients : List Int := []
  /-- When an index was used last. -/
  activeClients : UMap Int DateTime := ∅
  inUse : Finset Int := ∅
  minClients : Int32
  maxClients : Int32
  /-- The indexes that no client has. -/
  availableIndices : List Int := []
  guards : List Guard := []

namespace ClientMutex

/-- An index is used at a time. -/
def use (p : ClientMutex) (poolIndex : Int) (now : DateTime) : ClientMutex :=
  { p with
    activeClients := p.activeClients.insert poolIndex now
    inUse := insert poolIndex p.inUse }

/-- `acquire`: the first client that is not in use, or a new one, for which `init_settings` may
fail. A size is compared with `maxClients` as if this were unsigned. -/
def acquire (initSuccess : Bool) (now : DateTime) (p : ClientMutex) : ClientMutex × Guard :=
  let found := p.clients.find? (· ∉ p.inUse)
  let index := found.getD (-1)
  let p := if found.isSome then p.use index now else p
  if index = -1 ∧ p.clients.length < toSize p.maxClients.toInt then
    match if initSuccess then p.availableIndices.getLast? else none with
    | some poolIndex =>
      let p : ClientMutex := { p with
        availableIndices := p.availableIndices.dropLast
        clients := p.clients ++ [poolIndex] }
      (p.use poolIndex now, ⟨poolIndex, some poolIndex⟩)
    | none => (p, ⟨-1, none⟩)
  else (p, ⟨index, found⟩)

def release (index : Int) (p : ClientMutex) : ClientMutex :=
  { p with inUse := p.inUse.erase index }

/-- The indexes that `clear` wants to delete: of clients that nobody has used for an hour. -/
def toDelete (env : Env) (currentTime : DateTime) (p : ClientMutex) : List Int :=
  p.clients.filter (fun poolIndex =>
    (p.activeClients.lookup poolIndex).any (3600 ≤ secsTo env · currentTime) ∧
      poolIndex ∉ p.inUse)

/-- The first client with an index is taken out of the pool. -/
def delete (p : ClientMutex) (poolIndex : Int) : ClientMutex :=
  if poolIndex ∈ p.clients then
    { p with
      clients := p.clients.erase poolIndex
      availableIndices := p.availableIndices ++ [poolIndex] }
  else p

/-- Clients are taken out until the pool has its smallest size. -/
def deleteAll (p : ClientMutex) : List Int → ClientMutex
  | [] => p
  | poolIndex :: rest =>
    let p := p.delete poolIndex
    if p.clients.length ≤ toSize p.minClients.toInt then p else p.deleteAll rest

def clear (env : Env) (currentTime : DateTime) (p : ClientMutex) : ClientMutex :=
  if toSize p.minClients.toInt < p.clients.length then p.deleteAll (p.toDelete env currentTime)
  else p

/-- `stop`, up to the wait for the guards. -/
def stop (p : ClientMutex) : ClientMutex :=
  { p with minClients := 0, maxClients := 0, availableIndices := [], clients := [] }

/-- The first loop of `initialize`, up to an index. -/
def startClients (initSuccess : Nat → Bool) (p : ClientMutex) : Nat → ClientMutex
  | 0 => p
  | i + 1 =>
    let p := p.startClients initSuccess i
    if initSuccess i then { p with clients := p.clients ++ [(i : Int)] }
    else { p with availableIndices := p.availableIndices ++ [(i : Int)] }

/-- The indexes below a size. -/
def indices (size : Int32) : List Int := (List.range size.toInt.toNat).map Int.ofNat

/-- `initialize` of a new pool. -/
def initializeClients (startMinClients minClients maxClients : Int32) (initSuccess : Nat → Bool) :
    ClientMutex :=
  let p := startClients initSuccess { minClients, maxClients } startMinClients.toInt.toNat
  { p with
    availableIndices :=
      p.availableIndices ++ (indices maxClients).drop startMinClients.toInt.toNat }

end ClientMutex

/-- What the threads do: a guard is made or destroyed, the pool is cleared or stopped. -/
inductive Action
  | acquire (initSuccess : Bool) (now : DateTime)
  | release (place : Nat)
  | clear (currentTime : DateTime)
  | stop
deriving DecidableEq

/-- A step of a thread that holds the lock. -/
def step (env : Env) (p : ClientMutex) : Action → Option ClientMutex
  | .acquire initSuccess now =>
    some { (p.acquire initSuccess now).1 with
      guards := p.guards ++ [(p.acquire initSuccess now).2] }
  | .release place => p.guards[place]?.map (fun g =>
      { p.release g.index with guards := p.guards.eraseIdx place })
  | .clear currentTime => some (p.clear env currentTime)
  | .stop => some p.stop

open ClientMutex

/-- What holds of a pool over some indexes until it is stopped: every one of them is that of a
client or available, an index in use is that of a client, and a guard holds the client with its
index, which is in use, or none that is pooled. -/
structure Sound (all : List Int) (p : ClientMutex) : Prop where
  whole : (p.clients ++ p.availableIndices).Perm all
  used : ∀ i ∈ p.inUse, i ∈ p.clients
  holds : ∀ g ∈ p.guards, g = ⟨-1, none⟩ ∨ g.c = some g.index ∧ g.index ∈ p.inUse
  apart : p.guards.Pairwise (fun g h => g.index = h.index → g.index = -1)

variable {all : List Int} {p q : ClientMutex} {g : Guard} {i : Int}

section

variable (sound : Sound all p)

include sound

theorem Sound.add (whole : (q.clients ++ q.availableIndices).Perm all)
    (used : ∀ i ∈ q.inUse, i ∈ q.clients) (busy : ∀ i ∈ p.inUse, i ∈ q.inUse)
    (free : g.index ∉ p.inUse)
    (holds : g = ⟨-1, none⟩ ∨ g.c = some g.index ∧ g.index ∈ q.inUse) :
    Sound all { q with guards := p.guards ++ [g] } where
  whole
  used
  holds := by
    intro h member
    rcases mem_append.mp member with before | last
    · exact (sound.holds h before).imp_right (fun held => ⟨held.1, busy _ held.2⟩)
    · grind
  apart := by
    refine pairwise_append.mpr ⟨sound.apart, pairwise_singleton _ _, ?_⟩
    intro h member other last same
    rw [mem_singleton.mp last] at same
    rcases sound.holds h member with rfl | held
    · rfl
    · exact absurd (same ▸ held.2) free

variable (placed : -1 ∉ all)

include placed

theorem Sound.ne_none (member : i ∈ p.clients) : i ≠ -1 := by
  rintro rfl
  exact placed (sound.whole.subset (mem_append_left _ member))

theorem Sound.turnAway : Sound all { p with guards := p.guards ++ [⟨-1, none⟩] } := by
  apply sound.add sound.whole sound.used (fun _ => id) _ (.inl rfl)
  exact fun used => sound.ne_none placed (sound.used _ used) rfl

theorem Sound.acquire (once : all.Nodup) (initSuccess : Bool) (now : DateTime) :
    Sound all { (p.acquire initSuccess now).1 with
        guards := p.guards ++ [(p.acquire initSuccess now).2] } ∧
      (p.acquire initSuccess now).1.minClients = p.minClients := by
  unfold ClientMutex.acquire
  cases found : p.clients.find? (· ∉ p.inUse) with
  | some c =>
    have member := mem_of_find?_eq_some found
    simp only [Option.getD_some, Option.isSome_some, ↓reduceIte, sound.ne_none placed member,
      false_and]
    refine ⟨?_, rfl⟩
    apply sound.add (q := p.use c now) sound.whole
    · intro i used
      rcases Finset.mem_insert.mp used with rfl | before
      · exact member
      · exact sound.used i before
    · exact fun i used => Finset.mem_insert_of_mem used
    · simpa using find?_some found
    · exact .inr ⟨rfl, Finset.mem_insert_self _ _⟩
  | none =>
    simp only [Option.getD_none, Option.isSome_none, Bool.false_eq_true, ↓reduceIte, true_and]
    split
    · split
      · rename_i poolIndex last
        obtain ⟨-, last⟩ := Option.ite_none_right_eq_some.mp last
        have available : poolIndex ∈ p.availableIndices := mem_of_getLast? last
        have apart := (nodup_append.mp (sound.whole.nodup_iff.mpr once)).2.2
        refine ⟨?_, rfl⟩
        apply sound.add (q := use _ poolIndex now)
        · have moved := (perm_append_singleton poolIndex p.availableIndices.dropLast).symm
          rw [dropLast_append_getLast? _ last] at moved
          simp only [use, append_assoc]
          exact (moved.append_left _).trans sound.whole
        · intro i used
          rcases Finset.mem_insert.mp used with rfl | before
          · exact mem_append_right _ (mem_singleton_self _)
          · exact mem_append_left _ (sound.used i before)
        · exact fun i used => Finset.mem_insert_of_mem used
        · exact fun used => apart _ (sound.used _ used) _ available rfl
        · exact .inr ⟨rfl, Finset.mem_insert_self _ _⟩
      · exact ⟨sound.turnAway placed, rfl⟩
    · exact ⟨sound.turnAway placed, rfl⟩

theorem Sound.release {place : Nat} (found : p.guards[place]? = some g) :
    Sound all { p.release g.index with guards := p.guards.eraseIdx place } where
  whole := sound.whole
  used := fun i used => sound.used i (Finset.mem_of_mem_erase used)
  holds := by
    intro h member
    refine (sound.holds h (mem_of_mem_eraseIdx member)).imp_right ?_
    rintro ⟨held, used⟩
    -- the index of another guard is not erased, unless both were -1
    refine ⟨held, Finset.mem_erase.mpr ⟨fun same => ?_, used⟩⟩
    apply sound.ne_none placed (sound.used _ used)
    have apart := sound.apart
    obtain ⟨front, back, whole, erased, -⟩ := split_place found
    rw [whole, pairwise_append, pairwise_cons] at apart
    rw [erased] at member
    rcases mem_append.mp member with before | behind
    · exact apart.2.2 h before g mem_cons_self same
    · rw [same]
      exact apart.2.1.1 h behind same.symm
  apart := sound.apart.sublist (eraseIdx_sublist ..)

end

/-- Clients that are not in use are taken out of the pool. -/
structure Cut (p q : ClientMutex) : Prop where
  whole : (q.clients ++ q.availableIndices).Perm (p.clients ++ p.availableIndices)
  stays : ∀ i ∈ p.clients, i ∈ p.inUse → i ∈ q.clients
  rest : q = { p with clients := q.clients, availableIndices := q.availableIndices }

theorem Cut.refl (p : ClientMutex) : Cut p p := ⟨.refl _, fun _ member _ => member, rfl⟩

theorem Sound.cut (sound : Sound all p) (cut : Cut p q) : Sound all q := by
  obtain ⟨whole, stays, rest⟩ := cut
  rw [rest]
  exact ⟨whole.trans sound.whole, fun i used => stays i (sound.used i used) used, sound.holds,
    sound.apart⟩

theorem Cut.delete (cut : Cut p q) (free : i ∉ p.inUse) :
    Cut p (q.delete i) ∧ q.clients.length ≤ (q.delete i).clients.length + 1 := by
  unfold ClientMutex.delete
  split
  · rename_i member
    refine ⟨⟨?_, ?_, by rw [cut.rest]⟩, ?_⟩
    · refine List.Perm.trans ?_ cut.whole
      rw [← append_assoc]
      refine (perm_append_singleton ..).trans ?_
      exact (perm_cons_erase member).symm.append_right _
    · intro other inside used
      refine (mem_erase_of_ne ?_).mpr (cut.stays other inside used)
      grind
    · grind
  · exact ⟨cut, Nat.le_succ _⟩

theorem Cut.deleteAll (cut : Cut p q) {poolIndexes : List Int}
    (free : ∀ i ∈ poolIndexes, i ∉ p.inUse)
    (room : toSize p.minClients.toInt < q.clients.length) :
    Cut p (q.deleteAll poolIndexes) ∧
      toSize p.minClients.toInt ≤ (q.deleteAll poolIndexes).clients.length := by
  induction poolIndexes generalizing q with
  | nil => exact ⟨cut, Nat.le_of_lt room⟩
  | cons i rest ih =>
    obtain ⟨next, one⟩ := cut.delete (free i mem_cons_self)
    have same : (q.delete i).minClients = p.minClients := by rw [next.rest]
    rw [ClientMutex.deleteAll, same]
    split
    · exact ⟨next, by omega⟩
    · exact ih next (fun j member => free j (mem_cons_of_mem _ member)) (by omega)

theorem clear_cut (env : Env) (currentTime : DateTime) (p : ClientMutex) :
    Cut p (p.clear env currentTime) ∧ ((p.clear env currentTime).clients = p.clients ∨
      p.minClients.toInt ≤ (p.clear env currentTime).clients.length) := by
  unfold clear
  split
  · rename_i room
    have free : ∀ i ∈ p.toDelete env currentTime, i ∉ p.inUse := by
      intro i member
      have chosen := (mem_filter.mp member).2
      grind
    obtain ⟨cut, least⟩ := (Cut.refl p).deleteAll free room
    refine ⟨cut, .inr ?_⟩
    have low := p.minClients.toInt_lt
    unfold toSize at least
    omega
  · exact ⟨.refl p, .inl rfl⟩

theorem startClients_sound (initSuccess : Nat → Bool) (minClients maxClients : Int32) (n : Nat) :
    let p := startClients initSuccess { minClients, maxClients } n
    (p.clients ++ p.availableIndices).Perm ((List.range n).map Int.ofNat) ∧ p.inUse = ∅ ∧
      p.guards = [] ∧ p.minClients = minClients := by
  induction n with
  | zero => exact ⟨.refl _, rfl, rfl, rfl⟩
  | succ n ih =>
    obtain ⟨whole, kept⟩ := ih
    have more := whole.append_right [Int.ofNat n]
    rw [append_assoc] at more
    dsimp only
    rw [startClients, range_succ, map_append]
    split
    · refine ⟨?_, kept⟩
      have moved := (perm_append_singleton (Int.ofNat n)
        (startClients initSuccess { minClients, maxClients } n).availableIndices).symm
      simp only [append_assoc]
      exact (moved.append_left _).trans more
    · exact ⟨more, kept⟩

theorem initializeClients_sound {startMinClients maxClients : Int32}
    (fits : startMinClients ≤ maxClients) (minClients : Int32) (initSuccess : Nat → Bool) :
    Sound (indices maxClients)
        (initializeClients startMinClients minClients maxClients initSuccess) ∧
      (initializeClients startMinClients minClients maxClients initSuccess).minClients =
        minClients := by
  obtain ⟨whole, idle, alone, least⟩ := startClients_sound initSuccess minClients maxClients
    startMinClients.toInt.toNat
  have less : startMinClients.toInt.toNat ≤ maxClients.toInt.toNat :=
    Int.toNat_le_toNat (Int32.le_iff_toInt_le.mp fits)
  have first : (indices maxClients).take startMinClients.toInt.toNat =
      (List.range startMinClients.toInt.toNat).map Int.ofNat := by
    rw [indices, ← map_take, take_range, Nat.min_eq_left less]
  rw [initializeClients]
  generalize startClients initSuccess { minClients, maxClients } startMinClients.toInt.toNat = p
    at whole idle alone least ⊢
  refine ⟨⟨?_, by simp [idle], by simp [alone], by simp [alone]⟩, least⟩
  have all := whole.append_right ((indices maxClients).drop startMinClients.toInt.toNat)
  rw [← first, take_append_drop, append_assoc] at all
  exact all

theorem Sound.step {env : Env} {action : Action} (sound : Sound all p) (once : all.Nodup)
    (placed : -1 ∉ all) (running : action ≠ .stop) (taken : step env p action = some q) :
    Sound all q ∧ q.minClients = p.minClients := by
  cases action with
  | acquire initSuccess now =>
    cases taken
    exact sound.acquire placed once initSuccess now
  | release place =>
    obtain ⟨g, found, rfl⟩ := Option.map_eq_some_iff.mp taken
    exact ⟨sound.release placed found, rfl⟩
  | clear currentTime =>
    cases taken
    have cut := (clear_cut env currentTime p).1
    exact ⟨sound.cut cut, by rw [cut.rest]⟩
  | stop => exact absurd rfl running

/-- Over all sizes with the first not above the largest, all outcomes of the initialisations and all
runs of the threads until the pool is stopped: the clients have different indexes, which are with
the available ones those below the largest size, an index in use is that of a client, no two guards
hold one client, and `clear` neither removes a client in use nor leaves fewer than the smallest
size. -/
theorem acquire_release_clear (env : Env) {startMinClients maxClients : Int32}
    (fits : startMinClients ≤ maxClients) (minClients : Int32) (initSuccess : Nat → Bool)
    (run : Reaches (step env) (fun _ action => action ≠ .stop)
      (initializeClients startMinClients minClients maxClients initSuccess) p) :
    p.clients.Nodup ∧ (p.clients ++ p.availableIndices).Perm (indices maxClients) ∧
      (∀ i ∈ p.inUse, i ∈ p.clients) ∧
      (p.guards.Pairwise fun g h => ∀ c ∈ p.clients, ¬ (g.c = some c ∧ h.c = some c)) ∧
      ∀ now, (∀ c ∈ p.clients, c ∈ p.inUse → c ∈ (p.clear env now).clients) ∧
        ((p.clear env now).clients = p.clients ∨
          minClients.toInt ≤ (p.clear env now).clients.length) := by
  have once : (indices maxClients).Nodup := nodup_range.map Int.ofNat_injective
  have placed : -1 ∉ indices maxClients := by simp [indices]
  obtain ⟨sound, least⟩ := run.invariant
    (fun p => Sound (indices maxClients) p ∧ p.minClients = minClients)
    (initializeClients_sound fits minClients initSuccess) (by
      rintro p action q ⟨sound, least⟩ running taken
      obtain ⟨sound, same⟩ := sound.step once placed running taken
      exact ⟨sound, same.trans least⟩)
  have index {g : Guard} {c : Int} (guard : g ∈ p.guards) (held : g.c = some c) : g.index = c := by
    rcases sound.holds g guard with rfl | ⟨own, -⟩
    · cases held
    · exact Option.some.inj (own.symm.trans held)
  refine ⟨?_, sound.whole, sound.used, ?_, fun now => ?_⟩
  · exact (nodup_append.mp (sound.whole.nodup_iff.mpr once)).1
  · refine sound.apart.imp_of_mem ?_
    rintro g h first second apart c member ⟨here, there⟩
    apply sound.ne_none placed member
    rw [← index first here]
    exact apart ((index first here).trans (index second there).symm)
  · obtain ⟨cut, size⟩ := clear_cut env now p
    exact ⟨cut.stays, least ▸ size⟩

def eight : DateTime := { date := ⟨2024, 2, 28⟩, time := ⟨8, 0, 0⟩, isValidDate := true }

/-- Two guards at eight o'clock; one of them is destroyed. Two hours later the client that it held
leaves the pool, and the other one stays. -/
theorem acquire_release_clear_sample :
    ∃ p : ClientMutex, p.clients = [0] ∧ p.availableIndices = [1, 2] ∧
      (p.clients ++ p.availableIndices).Perm (indices 3) := by
  have ran : ∃ p, Reaches (step Reference.env) (fun _ action => action ≠ .stop)
      (initializeClients 1 1 3 (fun _ => true)) p ∧ p.clients = [0] ∧ p.availableIndices = [1, 2] :=
    Reaches.of_runActions_any [.acquire true eight, .acquire true eight, .release 1,
      .clear { eight with time := ⟨10, 0, 0⟩ }] (by decide +kernel)
  obtain ⟨p, run, clients, available⟩ := ran
  exact ⟨p, clients, available, (acquire_release_clear Reference.env (by decide) 1 _ run).2.1⟩

end RssDisk.Client.Pool
