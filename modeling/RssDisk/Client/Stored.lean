import RssDisk.Client

/-!
# Stored files

A file is stored as a header and a body: a type with its raw bytes, a date, and a number of days in
front of a space. `fetch_content` finds the parts in an answer by their positions.
-/

namespace RssDisk.Client

open Lib Bitbase Server List

/-- The number of raw bytes behind a type in a stored file. -/
def rawSize : WType → Nat
  | .updatable | .updatableWithoutCompress | .jdb | .ajdb => 16
  | .appendable => 8
  | _ => 0

/-- A file as it is sent: a header with the days in front of a space, and a body. -/
structure Stored where
  type : WType
  raw : Bytes
  date : Bytes
  days : Bytes
  body : Bytes
  named : type ≠ .cdb ∧ type ≠ .unnamed
  raw_length : raw.length = rawSize type
  date_length : date.length = 19
  days_some : days ≠ []
  days_space : 32 ∉ days

def Stored.text (f : Stored) : Bytes := f.type.digits ++ f.raw ++ f.date ++ (f.days ++ 32 :: f.body)

/-- What the header of a file tells. -/
def Stored.info (f : Stored) : ReadInfo where
  fileType := f.type
  fileTms := if rawSize f.type = 0 then 0 else charsToI64 (f.raw.take 8)
  fileCrc32 := if rawSize f.type = 16 then charsToI64 ((f.raw.drop 8).take 8) else 0
  fileCreated := DateTime.parseDateTime f.date
  ttlDays := ((BasefuncStd.stoi f.days).map toInt16).getD (-1)

theorem length_digits {type : WType} (named : type ≠ .unnamed) : type.digits.length = 2 := by
  cases type <;> first | rfl | exact absurd rfl named

theorem readTtl_eq (before days rest : Bytes) (n : Nat) (few : days.length < n) (none : 32 ∉ days)
    (ttl : Bytes) :
    readTtl (before ++ (days ++ 32 :: rest)) n before.length ttl =
      (ttl ++ days, before.length + days.length + 1) := by
  induction days generalizing before n ttl with
  | nil =>
    obtain ⟨n, rfl⟩ : ∃ k, n = k + 1 := ⟨n - 1, by simp at few; omega⟩
    simp [readTtl]
  | cons digit days ih =>
    obtain ⟨n, rfl⟩ : ∃ k, n = k + 1 := ⟨n - 1, by simp at few; omega⟩
    simp only [mem_cons, not_or] at none
    simp only [length_cons] at few
    have here : (before ++ (digit :: days ++ 32 :: rest)).getD before.length 0 = digit := by simp
    have next := ih (before ++ [digit]) n (by omega) none.2 (ttl ++ [digit])
    simp only [append_assoc, cons_append, nil_append, length_append,
      length_cons, length_nil, Nat.zero_add] at next here ⊢
    rw [readTtl, here, if_neg (Ne.symm none.1), next]
    grind

theorem Stored.fields (f : Stored) (mark tail : Bytes) {text : Bytes}
    (parts : text = mark ++ (f.type.digits ++ f.raw ++ f.date ++ tail)) :
    (text.drop mark.length).take 2 = f.type.digits ∧
      (8 ≤ rawSize f.type → (text.drop (mark.length + 2)).take 8 = f.raw.take 8) ∧
      (rawSize f.type = 16 → (text.drop (mark.length + 10)).take 8 = (f.raw.drop 8).take 8) ∧
      (text.drop (mark.length + (2 + rawSize f.type))).take 19 = f.date ∧
      text.drop (mark.length + (21 + rawSize f.type)) = tail := by
  have two := length_digits f.named.2
  have raw := f.raw_length
  have whole : text.drop mark.length = f.type.digits ++ (f.raw ++ (f.date ++ tail)) := by
    rw [parts, drop_left, append_assoc, append_assoc]
  have behind : text.drop (mark.length + 2) = f.raw ++ (f.date ++ tail) := by
    rw [← drop_drop, whole, drop_left' two]
  have date : text.drop (mark.length + (2 + rawSize f.type)) = f.date ++ tail := by
    rw [← Nat.add_assoc, ← drop_drop, behind, drop_left' raw]
  refine ⟨?_, fun long => ?_, fun long => ?_, ?_, ?_⟩
  · rw [whole, take_left' two]
  · rw [behind, take_append_of_le_length (by omega)]
  · rw [show mark.length + 10 = mark.length + 2 + 8 from rfl, ← drop_drop, behind,
      drop_append_of_le_length (by omega),
      take_append_of_le_length (by rw [length_drop]; omega)]
  · rw [date, take_left' f.date_length]
  · rw [show 21 + rawSize f.type = 2 + rawSize f.type + 19 by omega, ← Nat.add_assoc,
      ← drop_drop, date, drop_left' f.date_length]

theorem readTtl_take (before days rest : Bytes) (n : Nat) (many : n ≤ days.length)
    (none : 32 ∉ days) (ttl : Bytes) :
    readTtl (before ++ (days ++ rest)) n before.length ttl =
      (ttl ++ days.take n, before.length + n) := by
  induction n generalizing before days ttl with
  | zero => simp [readTtl]
  | succ n ih =>
    cases days with
    | nil => simp at many
    | cons digit days =>
      simp only [mem_cons, not_or] at none
      have here : (before ++ (digit :: days ++ rest)).getD before.length 0 = digit := by simp
      have next := ih (before ++ [digit]) days (by simpa using many) none.2 (ttl ++ [digit])
      simp only [append_assoc, cons_append, nil_append, length_append,
        length_cons, length_nil, Nat.zero_add] at next here ⊢
      rw [readTtl, here, if_neg (Ne.symm none.1), next, take_succ_cons]
      grind

section

variable {mark : Bytes} (nine : mark.length = 9) (f : Stored)

include nine

theorem Stored.front :
    mark ++ f.text = (mark ++ f.type.digits ++ f.raw ++ f.date) ++ (f.days ++ 32 :: f.body) ∧
      (mark ++ f.type.digits ++ f.raw ++ f.date).length = 30 + rawSize f.type := by
  refine ⟨by simp only [Stored.text, append_assoc], ?_⟩
  simp only [length_append, f.date_length, length_digits f.named.2, f.raw_length]
  omega

/-- What `fetch_content` takes from a file, by what it finds for the number of days. -/
theorem fetchContent_eq {ttl : Bytes} {last : Nat}
    (scan : readTtl (mark ++ f.text) 10 (30 + rawSize f.type) [] = (ttl, last))
    (inside : last < (mark ++ f.text).length) :
    fetchContent (mark ++ f.text) 9 = { f.info with
      ttlDays := ((BasefuncStd.stoi ttl).map toInt16).getD (-1)
      header := (mark ++ f.text).take last
      content := (mark ++ f.text).drop last } := by
  obtain ⟨typed, timed, summed, dated, -⟩ :=
    f.fields mark (f.days ++ 32 :: f.body) (rfl : mark ++ f.text = _)
  have isType := WType.ofText_digits f.type f.named.2
  have named := f.named
  rw [nine] at typed timed summed dated
  unfold Stored.info
  generalize mark ++ f.text = text at typed timed summed dated scan inside ⊢
  generalize f.type = type at typed timed summed dated isType scan named ⊢
  cases type with
  | cdb => exact absurd rfl named.1
  | unnamed => exact absurd rfl named.2
  | _ =>
    simp only [rawSize, Nat.reduceAdd, Nat.reduceLeDiff, Nat.reduceEqDiff, forall_const]
      at timed summed dated scan ⊢
    simp only [fetchContent, typed, isType, Nat.reduceAdd, timed, summed, dated, scan, inside,
      ↓reduceIte]

theorem fetchContent_text {f : Stored} (short : f.days.length ≤ 9) (some_ : f.body ≠ []) :
    ∃ header, fetchContent (mark ++ f.text) 9 = { f.info with header, content := f.body } := by
  have positive := length_pos_iff.mpr some_
  obtain ⟨front, place⟩ := f.front nine
  have scan := readTtl_eq (mark ++ f.type.digits ++ f.raw ++ f.date) f.days f.body 10
    (by omega) f.days_space []
  rw [← front, place, nil_append] at scan
  have inside : 30 + rawSize f.type + f.days.length + 1 < (mark ++ f.text).length := by
    rw [front, length_append, place, length_append, length_cons]
    omega
  have body : (mark ++ f.text).drop (30 + rawSize f.type + f.days.length + 1) = f.body := by
    rw [front, ← place, Nat.add_assoc, ← drop_drop, drop_left, ← drop_drop, drop_left]
    rfl
  rw [fetchContent_eq nine f scan inside, body]
  exact ⟨_, rfl⟩

/-- Behind ten characters of the number of days the space is not found, and the rest of the number
and the space are taken for the beginning of the body. -/
theorem fetchContent_long (long : 10 ≤ f.days.length) :
    (fetchContent (mark ++ f.text) 9).fileType = f.type ∧
      (fetchContent (mark ++ f.text) 9).content = f.days.drop 10 ++ 32 :: f.body := by
  obtain ⟨front, place⟩ := f.front nine
  have scan := readTtl_take (mark ++ f.type.digits ++ f.raw ++ f.date) f.days (32 :: f.body) 10
    long f.days_space []
  rw [← front, place, nil_append] at scan
  have inside : 30 + rawSize f.type + 10 < (mark ++ f.text).length := by
    rw [front, length_append, place, length_append, length_cons]
    omega
  have body : (mark ++ f.text).drop (30 + rawSize f.type + 10) =
      f.days.drop 10 ++ 32 :: f.body := by
    rw [front, ← place, ← drop_drop, drop_left, drop_append_of_le_length long]
  rw [fetchContent_eq nine f scan inside, body]
  exact ⟨rfl, rfl⟩

end

end RssDisk.Client
