import RssDisk.CManager.Batch
import RssDisk.Lib.Places
import RssDisk.Lib.Reach

/-!
# Keys whose write is delayed

`pool::add_delayed_cdb` encodes a key and puts it behind the others under a lock, and
`pool::write_delayed_cdb` takes all of them and gives them to `write_file` as one batch. It tries up
to three times to get a client for this; then the batch is gone.
-/

namespace RssDisk.Client.Pool

open Lib CManager List

/-- A thread in `write_delayed_cdb`: the text that it took, and the attempts that failed. -/
structure Writer where
  d : Bytes
  i : Nat := 0
deriving DecidableEq

/-- The delayed keys of a pool, with the threads that write. -/
structure Delayed where
  delayedCdb : Bytes := []
  writers : List Writer := []
  /-- The texts that were given to `write_file`. -/
  written : List Bytes := []
  /-- The texts that no client was got for. -/
  lost : List Bytes := []
  /-- What was added so far. -/
  added : List Entry := []

/-- What the threads do. -/
inductive Delay
  | add (e : Entry)
  /-- `std::swap`. -/
  | swap
  /-- A round of a thread that writes, which gets a client or not. -/
  | attempt (place : Nat) (got : Bool)
deriving DecidableEq

section

variable (env : Env) (crc32 : Bytes → Int64) {s t : Delayed}

/-- A step of a thread. -/
def Delayed.step (s : Delayed) : Delay → Option Delayed
  | .add e => some { s with
      delayedCdb := s.delayedCdb ++ e.encoded env crc32
      added := s.added ++ [e] }
  | .swap => some { s with delayedCdb := [], writers := s.writers ++ [⟨s.delayedCdb, 0⟩] }
  | .attempt place got => s.writers[place]?.map (fun w =>
      if got then
        { s with writers := s.writers.eraseIdx place, written := s.written ++ [w.d] }
      else if w.i + 1 < 3 then { s with writers := s.writers.set place ⟨w.d, w.i + 1⟩ }
      else { s with writers := s.writers.eraseIdx place, lost := s.lost ++ [w.d] })

/-- The texts that `write_file` got, that a thread holds or that are lost are the batches of
consecutive parts of what was added, each once; what is behind the parts is still to be taken. -/
def Accounted (s : Delayed) : Prop :=
  ∃ (parts : List (List Entry)) (rest : List Entry), parts.flatten ++ rest = s.added ∧
    s.delayedCdb = batch env crc32 rest ∧
    (s.written ++ s.writers.map Writer.d ++ s.lost).Perm (parts.map (batch env crc32))

variable {env crc32}

theorem Accounted.step {action : Delay} (accounted : Accounted env crc32 s)
    (taken : s.step env crc32 action = some t) : Accounted env crc32 t := by
  obtain ⟨parts, rest, added, delayed, texts⟩ := accounted
  cases action with
  | add e =>
    cases taken
    refine ⟨parts, rest ++ [e], ?_, ?_, texts⟩
    · rw [← append_assoc, added]
    · simp [delayed, batch]
  | swap =>
    cases taken
    refine ⟨parts ++ [rest], [], by simp [added], rfl, ?_⟩
    rw [perm_iff_count] at texts ⊢
    intro text
    have count := texts text
    simp only [map_append, count_append, map_cons, map_nil, delayed] at count ⊢
    omega
  | attempt place got =>
    obtain ⟨w, found, rfl⟩ := Option.map_eq_some_iff.mp taken
    obtain ⟨front, back, whole, erased, replaced⟩ := split_place found
    refine ⟨parts, rest, ?_, ?_, ?_⟩
    · split_ifs <;> exact added
    · split_ifs <;> exact delayed
    · rw [perm_iff_count] at texts ⊢
      intro text
      have count := texts text
      rw [whole] at count
      split_ifs <;> simp only [erased, replaced, map_append, map_cons, count_append, count_cons,
        count_nil] at count ⊢ <;> omega

/-- Along every run of the threads, whichever of them get a client. -/
theorem delayed_accounted (run : Reaches (Delayed.step env crc32) (fun _ _ => True) {} s) :
    Accounted env crc32 s :=
  run.invariant (Accounted env crc32) ⟨[], [], rfl, rfl, .refl _⟩
    (fun _ _ _ accounted _ taken => accounted.step taken)

/-- A key is written, and the batch with the next one is lost. -/
theorem delayed_accounted_sample : ∃ s : Delayed,
    (s.written.length = 1 ∧ s.lost.length = 1) ∧ Accounted Reference.env (fun _ => 0) s := by
  obtain ⟨s, run, counts⟩ : ∃ s, Reaches (Delayed.step Reference.env (fun _ => 0))
      (fun _ _ => True) {} s ∧ s.written.length = 1 ∧ s.lost.length = 1 :=
    Reaches.of_runActions_any [.add ⟨[97], [1], 5, 0⟩, .swap, .add ⟨[98], [2], 5, 0⟩, .swap,
      .attempt 1 false, .attempt 1 false, .attempt 0 true, .attempt 0 false] (by decide +kernel)
  exact ⟨s, counts, delayed_accounted run⟩

end

end RssDisk.Client.Pool
