import Mathlib.Data.List.Basic
import Mathlib.Logic.Function.Iterate

/-!
# Calls that wait for answers

A call sends requests on some connections and counts how many answers are outstanding. While it
waits, a callback handles every message that arrives on the connections; it may add to what the call
found, and it may count the message as an answer. The waiting thread looks at the counter now and
then, and ends the call when it is zero; else the call ends when its time is over.

A message that is counted ends a call before the answer on its connection arrives, when it comes as
often as answers are outstanding.
-/

namespace RssDisk.Lib.Await

open List

variable {ι μ σ : Type}

/-- The callbacks of a call: for messages, and for requests that could not be sent. -/
structure Callbacks (ι μ σ : Type) where
  counts : ι → μ → Bool
  onMessage : ι → μ → σ → σ
  onFailure : ι → σ → σ

/-- What happens while a call waits. -/
inductive Event (ι μ : Type) where
  | message (i : ι) (m : μ)
  | failure (i : ι)
  | wake
deriving DecidableEq, Repr

structure Waiting (σ : Type) where
  count : Int
  found : σ
  ended : Bool := false

variable (c : Callbacks ι μ σ)

def step (w : Waiting σ) (event : Event ι μ) : Waiting σ :=
  if w.ended then w
  else
    match event with
    | .message i m =>
      { w with
        count := if c.counts i m then w.count - 1 else w.count
        found := c.onMessage i m w.found }
    | .failure i => { w with count := w.count - 1, found := c.onFailure i w.found }
    | .wake => if w.count = 0 then { w with ended := true } else w

/-- What was found when the call ends, for the events up to the end of its time. -/
def result (count : Int) (found : σ) (events : List (Event ι μ)) : σ :=
  (events.foldl (step c) { count, found }).found

/-- A run with messages of a class inserted at some points. -/
inductive Inserted (added : ι → μ → Prop) : List (Event ι μ) → List (Event ι μ) → Prop
  | nil : Inserted added [] []
  | keep (event : Event ι μ) {run run' : List (Event ι μ)} (rest : Inserted added run run') :
      Inserted added (event :: run) (event :: run')
  | add {i : ι} {m : μ} (is : added i m) {run run' : List (Event ι μ)}
      (rest : Inserted added run run') : Inserted added run (.message i m :: run')

variable {c} {added : ι → μ → Prop}

theorem Inserted.refl (run : List (Event ι μ)) : Inserted added run run := by
  induction run with
  | nil => exact .nil
  | cons event run ih => exact .keep event ih

theorem Inserted.replicate {i : ι} {m : μ} (is : added i m) (n : Nat) (run : List (Event ι μ)) :
    Inserted added run (List.replicate n (.message i m) ++ run) := by
  induction n with
  | zero => exact .refl run
  | succ n ih => exact .add is ih

theorem Inserted.eq (nothing : ∀ i m, ¬ added i m) {run run' : List (Event ι μ)}
    (inserted : Inserted added run run') : run' = run := by
  induction inserted with
  | nil => rfl
  | keep event rest ih => rw [ih]
  | add is rest ih => exact absurd is (nothing _ _)

/-- The callback neither counts a message nor adds anything. -/
def Callbacks.Neutral (c : Callbacks ι μ σ) (i : ι) (m : μ) : Prop :=
  c.counts i m = false ∧ ∀ found, c.onMessage i m found = found

theorem Callbacks.Neutral.step {i : ι} {m : μ} (neutral : c.Neutral i m) (w : Waiting σ) :
    step c w (.message i m) = w := by
  rw [Await.step]
  split
  · rfl
  · simp only [neutral.1, neutral.2, Bool.false_eq_true, ↓reduceIte]

theorem Inserted.foldl_eq (neutral : ∀ i m, added i m → c.Neutral i m)
    {run run' : List (Event ι μ)} (inserted : Inserted added run run') (w : Waiting σ) :
    run'.foldl (Await.step c) w = run.foldl (Await.step c) w := by
  induction inserted generalizing w with
  | nil => rfl
  | keep event rest ih => exact ih _
  | add is rest ih =>
    rw [foldl_cons, (neutral _ _ is).step]
    exact ih w

theorem Inserted.result_eq (neutral : ∀ i m, added i m → c.Neutral i m)
    {run run' : List (Event ι μ)} (inserted : Inserted added run run') (count : Int) (found : σ) :
    result c count found run' = result c count found run :=
  congrArg Waiting.found (inserted.foldl_eq neutral _)

theorem result_awaited (c : Callbacks ι μ σ) {count : Int} (outstanding : count ≠ 0) (i : ι)
    (own : μ) (found : σ) :
    result c count found [.wake, .message i own] = c.onMessage i own found := by
  have waits : step c { count, found } .wake = { count, found } := if_neg outstanding
  rw [result, foldl_cons, waits]
  rfl

theorem foldl_replicate {i : ι} {m : μ} (counted : c.counts i m = true) (n : Nat) (count : Int)
    (found : σ) :
    (List.replicate n (.message i m)).foldl (step c) { count, found } =
      { count := count - n, found := (c.onMessage i m)^[n] found } := by
  induction n generalizing count found with
  | zero => simp
  | succ n ih =>
    have first : step c { count, found } (.message i m) =
        { count := count - 1, found := c.onMessage i m found } := by
      simp only [step, Bool.false_eq_true, ↓reduceIte, counted]
    rw [replicate_succ, foldl_cons, first, ih, Function.iterate_succ_apply]
    congr 1
    omega

theorem result_cut {i : ι} {m : μ} (counted : c.counts i m = true) (n : Nat) (own : μ)
    (found : σ) :
    result c n found (List.replicate n (.message i m) ++ [.wake, .message i own]) =
      (c.onMessage i m)^[n] found := by
  rw [result, foldl_append, foldl_replicate counted, Int.sub_self]
  rfl

/-- A call for which a message that is counted does not matter: what is seen of the answer on its
connection is seen of copies of the message. -/
theorem ignored_counted {τ : Type} {see : σ → τ} {n : Nat} {found : σ}
    (ignored : ∀ run run' : List (Event ι μ), Inserted added run run' →
      see (result c n found run') = see (result c n found run))
    (outstanding : n ≠ 0) {i : ι} {m : μ} (is : added i m) (counted : c.counts i m = true)
    (own : μ) : see ((c.onMessage i m)^[n] found) = see (c.onMessage i own found) := by
  have same := ignored _ _ (.replicate is n [.wake, .message i own])
  rw [result_cut counted, result_awaited c (Int.natCast_ne_zero.mpr outstanding)] at same
  exact same

end RssDisk.Lib.Await
