import RssDisk.Client.Stored
import RssDisk.Server.Places

/-!
# Scans over the number of days

Four functions skip the number of days in the header of a file with the same loop. Its condition
`i < size, n < 10` is the value of its second part only, so that the loop reads up to ten positions
whether or not they lie in the text.
-/

namespace RssDisk.Client

open Lib Server JManager List

/-- The positions that a scan reads: at most `n` from a position on, up to the first space. -/
def ttlReads (text : Bytes) : Nat → Nat → List Nat
  | 0, _ => []
  | n + 1, i => if text.getD i 0 = 32 then [i] else i :: ttlReads text n (i + 1)

/-- The functions that scan. -/
inductive Scanner where
  | fetch
  | retrieveCompressedData
  | readFileInfo
  /-- `rssdisk::fetch_content` from a position. -/
  | fetchContent (startFrom : Nat)
deriving DecidableEq, Repr

namespace Scanner

/-- What a function scans: the content of a file or its first bytes, or a message. -/
def text : Scanner → Bytes → Bytes
  | readFileInfo, file => file.take 64
  | _, input => input

/-- Where the scan starts, if it is reached. `fetch_content` does not scan a value of the database
of keys, and throws before the scan when the date would start behind the end of the message. -/
def start : Scanner → Bytes → Option Nat
  | fetch, _ | retrieveCompressedData, _ => some 37
  | readFileInfo, content =>
    if 18 < content.length then
      let type := WType.ofInt ((BasefuncStd.stoi (content.take 2)).getD 7)
      if type = .updatable ∨ type = .updatableWithoutCompress ∨ type = .jdb ∨ type = .ajdb then
        some (18 + 20)
      else some (2 + 20)
    else none
  | fetchContent startFrom, message =>
    let type := WType.ofText ((message.drop startFrom).take 2)
    if type ≠ .cdb ∧ startFrom + 2 + rawSize type ≤ message.length then
      some (startFrom + 2 + rawSize type + 19)
    else none

/-- What the callers let through: any file, a message of more than 32 bytes with its mark, or the
file in an answer to the request for many files when it is not empty. -/
def Admits : Scanner → Bytes → Prop
  | fetchContent startFrom, message =>
    (startFrom = 9 ∧ 32 < message.length) ∨ (startFrom = 0 ∧ message ≠ [])
  | _, _ => True

instance (scanner : Scanner) (input : Bytes) : Decidable (scanner.Admits input) := by
  cases scanner <;> unfold Admits <;> infer_instance

end Scanner

theorem ttlReads_inside_iff (text : Bytes) (n start : Nat) :
    (∀ i ∈ ttlReads text n start, i < text.length) ↔
      32 ∈ (text.drop start).take n ∨ n = 0 ∨ start + n ≤ text.length := by
  induction n generalizing start with
  | zero => simp [ttlReads]
  | succ n ih =>
    rw [ttlReads]
    by_cases inside : start < text.length
    · have read : text.getD start 0 = text[start] := by simp [inside]
      rw [drop_eq_getElem_cons inside, take_succ_cons, mem_cons, read]
      split
      · grind
      · rename_i other
        rw [forall_mem_cons, ih]
        simp only [inside, true_and, Ne.symm other, false_or, Nat.succ_ne_zero]
        exact or_congr_right (by omega)
    · have none : text.getD start 0 = 0 := by
        simp [getElem?_eq_none (Nat.le_of_not_lt inside)]
      rw [none, if_neg (by decide), drop_eq_nil_of_le (Nat.le_of_not_lt inside)]
      refine iff_of_false (fun all => inside (all start mem_cons_self)) ?_
      grind

/-- The scan of a function reads inside of what it scans, exactly if there is a space among the ten
characters from its start on, or all ten are there. -/
theorem scan_inside_iff (scanner : Scanner) (input : Bytes) :
    (∀ start ∈ scanner.start (scanner.text input),
        ∀ i ∈ ttlReads (scanner.text input) 10 start, i < (scanner.text input).length) ↔
      ∀ start ∈ scanner.start (scanner.text input),
        32 ∈ ((scanner.text input).drop start).take 10 ∨
          start + 10 ≤ (scanner.text input).length := by
  simp only [ttlReads_inside_iff, show (10 : Nat) ≠ 0 by decide, false_or]

/-- An empty file, a file of 19 bytes and a message of 33 bytes are let through, and the scans read
behind their ends. -/
theorem scan_outside :
    let outside (scanner : Scanner) (content : Bytes) : Prop :=
      scanner.Admits content ∧ ∃ start ∈ scanner.start (scanner.text content),
        start ∈ ttlReads (scanner.text content) 10 start ∧ (scanner.text content).length ≤ start
    outside .fetch [] ∧ outside .retrieveCompressedData [] ∧
      outside .readFileInfo (List.replicate 19 48) ∧
      outside (.fetchContent 9)
        (List.replicate 9 48 ++ WType.updatable.digits ++ List.replicate 22 48) ∧
      outside (.fetchContent 0) WType.insertOnly.digits := by
  dsimp only
  decide

end RssDisk.Client
