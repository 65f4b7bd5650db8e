import Mathlib.Data.List.Basic
import Mathlib.Order.Lattice
import RssDisk.Lib.Reach

/-!
# Copies of one value on several servers

Every write has a version. It replaces the copy of one server and is announced to all others; a
server that processes an announcement drops a copy with a smaller version.
-/

namespace RssDisk.Lib

open List Function

variable {ι E V : Type}

/-- The copies of the servers, and what was written and announced. -/
structure Replicas (ι E V : Type) where
  copy : ι → Option V
  seen : ι → List E
  pending : List (ι × E)
  written : List E

/-- What can happen to the copies. -/
inductive Replication (ι E : Type) where
  /-- A server takes a write, which may be one that leaves no copy. -/
  | write (server : ι) (e : E) (kept : Bool)
  | process (server : ι) (e : E)

namespace Replicas

variable [DecidableEq ι] [DecidableEq E] [LinearOrder V] (version : E → V) (servers : List ι)

/-- Nothing was written. -/
def empty : Replicas ι E V := ⟨fun _ => none, fun _ => [], [], []⟩

/-- One event, on the servers of a list. -/
def step (s : Replicas ι E V) : Replication ι E → Option (Replicas ι E V)
  | .write server e kept =>
    if server ∈ servers then
      some {
        copy := Function.update s.copy server (if kept then some (version e) else none)
        seen := Function.update s.seen server (e :: s.seen server)
        pending := s.pending ++ (servers.filter (· ≠ server)).map (fun other => (other, e))
        written := e :: s.written }
    else none
  | .process server e =>
    if (server, e) ∈ s.pending then
      some { s with
        copy := Function.update s.copy server
          ((s.copy server).filter (fun copy => ¬ copy < version e))
        seen := Function.update s.seen server (e :: s.seen server)
        pending := s.pending.erase (server, e) }
    else none

/-- A server takes only writes that are not below what it has taken or processed. -/
def Rising (s : Replicas ι E V) : Replication ι E → Prop
  | .write server e _ => ∀ other ∈ s.seen server, version other ≤ version e
  | .process _ _ => True

/-- Every write has reached every server or is announced to it, and every copy is of a write and
not below what its server has seen. -/
structure Good (s : Replicas ι E V) : Prop where
  /-- Every write has reached every server or is announced to it. -/
  reaches : ∀ server ∈ servers, ∀ e ∈ s.written, e ∈ s.seen server ∨ (server, e) ∈ s.pending
  /-- Every copy is of a write, and not below what its server has seen. -/
  newest : ∀ server copy, s.copy server = some copy →
    (∃ e ∈ s.written, version e = copy) ∧ ∀ e ∈ s.seen server, version e ≤ copy

variable {version servers} {s t : Replicas ι E V}

theorem Good.write {server : ι} {e : E} {kept : Bool} (good : Good version servers s)
    (rising : s.Rising version (.write server e kept))
    (taken : s.step version servers (.write server e kept) = some t) : Good version servers t := by
  rw [Replicas.step] at taken
  split at taken
  · cases taken
    refine ⟨fun other member w present => ?_, fun other copy held => ?_⟩
    · by_cases same : other = server
      · subst same
        rcases mem_cons.mp present with rfl | old
        · exact .inl (by simp)
        · rcases good.reaches other member w old with seen | pending
          · exact .inl (by simp [seen])
          · exact .inr (by simp [pending])
      · rcases mem_cons.mp present with rfl | old
        · exact .inr (by simp [member, same])
        · rcases good.reaches other member w old with seen | pending
          · exact .inl (by simpa [same] using seen)
          · exact .inr (by simp [pending])
    · by_cases same : other = server
      · subst same
        simp only [update_self] at held ⊢
        split at held
        · cases held
          refine ⟨⟨e, mem_cons_self, rfl⟩, fun w present => ?_⟩
          rcases mem_cons.mp present with rfl | old
          · exact le_refl _
          · exact rising w old
        · cases held
      · simp only [update_of_ne same] at held ⊢
        obtain ⟨⟨w, inside, its⟩, above⟩ := good.newest other copy held
        exact ⟨⟨w, mem_cons_of_mem _ inside, its⟩, above⟩
  · cases taken

theorem Good.process {server : ι} {e : E} (good : Good version servers s)
    (taken : s.step version servers (.process server e) = some t) : Good version servers t := by
  rw [Replicas.step] at taken
  split at taken
  · cases taken
    refine ⟨fun other member w present => ?_, fun other copy held => ?_⟩
    · rcases good.reaches other member w present with seen | pending
      · left
        by_cases same : other = server
        · subst same
          simp [seen]
        · simpa [same] using seen
      · by_cases same : (other, w) = (server, e)
        · grind
        · exact .inr ((mem_erase_of_ne same).mpr pending)
    · by_cases same : other = server
      · subst same
        simp only [update_self] at held ⊢
        obtain ⟨old, notBelow⟩ := Option.filter_eq_some_iff.mp held
        obtain ⟨inside, above⟩ := good.newest other copy old
        refine ⟨inside, fun w present => ?_⟩
        rcases mem_cons.mp present with rfl | earlier
        · exact not_lt.mp (by simpa using notBelow)
        · exact above w earlier
      · grind [good.newest]
  · cases taken

theorem copy_greatest (reached : Reaches (step version servers) (Rising version) empty s)
    (settled : s.pending = []) {server : ι} (member : server ∈ servers) {copy : V}
    (held : s.copy server = some copy) :
    (∃ e ∈ s.written, version e = copy) ∧ ∀ e ∈ s.written, version e ≤ copy := by
  have initial : Good version servers (empty : Replicas ι E V) :=
    ⟨fun _ _ _ present => (by cases present), fun _ _ held => (by cases held)⟩
  have good : Good version servers s := by
    refine reached.invariant (Good version servers) initial (fun s event t good rising taken => ?_)
    cases event with
    | write server e kept => exact good.write rising taken
    | process server e => exact good.process taken
  obtain ⟨inside, above⟩ := good.newest server copy held
  refine ⟨inside, fun e present => ?_⟩
  rcases good.reaches server member e present with seen | pending
  · exact above e seen
  · rw [settled] at pending
    cases pending

end Replicas

end RssDisk.Lib
