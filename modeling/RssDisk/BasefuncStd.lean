import Mathlib.Data.Nat.Digits.Lemmas
import RssDisk.Bitbase

/-!
# Numbers in text and other helpers

`basefunc_std::stoi` reads a decimal number with the standard library and leaves its target
alone when that throws, so a caller that initialised the target keeps its initial value.
-/

namespace RssDisk.BasefuncStd

open List

/-- `std::isspace` in the C locale. -/
def isSpace (c : UInt8) : Bool := c = 32 || (9 ≤ c && c ≤ 13)

/-- `std::isdigit`. -/
def isDigit (c : UInt8) : Bool := 48 ≤ c && c ≤ 57

/-- The value of a run of decimal digits. -/
def digitsValue (digits : Bytes) : Nat := digits.foldl (fun n c => n * 10 + (c.toNat - 48)) 0

/-- `std::strtol` in base ten on the whole integers: leading white space, one sign and the
digits after it; `none` without a digit. -/
def strtol (text : Bytes) : Option Int :=
  let unsigned (negative : Bool) (rest : Bytes) : Option Int :=
    let digits := rest.takeWhile isDigit
    if digits = [] then none
    else some (if negative then -(digitsValue digits : Int) else digitsValue digits)
  match text.dropWhile isSpace with
  | 45 :: rest => unsigned true rest
  | 43 :: rest => unsigned false rest
  | rest => unsigned false rest

/-- `std::stol`, which throws outside `std::int64_t`. -/
def stol (text : Bytes) : Option Int64 :=
  match strtol text with
  | some n => if -2 ^ 63 ≤ n ∧ n < 2 ^ 63 then some (Int64.ofInt n) else none
  | none => none

/-- `std::stoul`, which throws for more than 64 bits and takes a negative number modulo them. -/
def stoul (text : Bytes) : Option UInt64 :=
  match strtol text with
  | some n => if n.natAbs < 2 ^ 64 then some (UInt64.ofInt n) else none
  | none => none

/-- `std::stoi`, which throws outside `std::int32_t`. -/
def stoi (text : Bytes) : Option Int :=
  match strtol text with
  | some n => if -2 ^ 31 ≤ n ∧ n < 2 ^ 31 then some n else none
  | none => none

/-- The decimal digits of a natural number. -/
def natText (n : Nat) : Bytes :=
  if n = 0 then [48] else ((Nat.digits 10 n).reverse).map (fun d => UInt8.ofNat (48 + d))

/-- `std::to_string` of a number. -/
def toString (n : Int) : Bytes :=
  if n < 0 then 45 :: natText n.natAbs else natText n.natAbs

theorem digit_byte : ∀ d < 10, isDigit (UInt8.ofNat (48 + d)) = true ∧
    (UInt8.ofNat (48 + d)).toNat - 48 = d := by
  decide

theorem isDigit_iff {c : UInt8} : isDigit c = true ↔ 48 ≤ c.toNat ∧ c.toNat ≤ 57 := by
  simp [isDigit, UInt8.le_iff_toNat_le]

theorem isDigit_spec {c : UInt8} (digit : isDigit c = true) :
    isSpace c = false ∧ c ≠ 45 ∧ c ≠ 43 := by
  simp only [isDigit, Bool.and_eq_true, decide_eq_true_eq, UInt8.le_iff_toNat_le] at digit
  have low : 48 ≤ c.toNat := digit.1
  have apart : ∀ b : UInt8, b.toNat < 48 → c ≠ b := fun b small same => by
    rw [same] at low
    omega
  have above : ¬ c ≤ 13 := by
    grind [UInt8.le_iff_toNat_le]
  refine ⟨?_, apart 45 (by decide), apart 43 (by decide)⟩
  simp [isSpace, apart 32 (by decide), above]

theorem natText_div_ten {n : Nat} (large : 10 ≤ n) :
    natText n = natText (n / 10) ++ [UInt8.ofNat (48 + n % 10)] := by
  rw [natText, if_neg (by omega), natText, if_neg (by omega),
    Nat.digits_def' (by decide) (by omega)]
  simp

theorem natText_isDigit (n : Nat) : ∀ c ∈ natText n, isDigit c = true := by
  unfold natText
  split
  · intro c present
    rw [mem_singleton.mp present]
    rfl
  · intro c present
    obtain ⟨d, digit, rfl⟩ := mem_map.mp present
    exact (digit_byte d (Nat.digits_lt_base (by decide) (mem_reverse.mp digit))).1

theorem natText_ne_nil (n : Nat) : natText n ≠ [] := by
  unfold natText
  split
  · decide
  · rename_i some
    simpa [Nat.digits_eq_nil_iff_eq_zero] using some

theorem digitsValue_natText (n : Nat) : digitsValue (natText n) = n := by
  have fold : ∀ digits : List Nat, (∀ d ∈ digits, d < 10) →
      digitsValue ((digits.reverse).map (fun d => UInt8.ofNat (48 + d))) =
        Nat.ofDigits 10 digits := by
    intro digits
    induction digits with
    | nil => exact fun _ => rfl
    | cons d digits ih =>
      intro small
      have rest := ih (fun other present => small other (mem_cons_of_mem _ present))
      have last := (digit_byte d (small d mem_cons_self)).2
      rw [digitsValue] at rest
      rw [digitsValue, reverse_cons, map_append, foldl_append, rest, map_cons,
        map_nil, foldl_cons, foldl_nil, last, Nat.ofDigits_cons]
      ring
  unfold natText
  split
  · rename_i zero
    rw [zero]
    rfl
  · rw [fold _ (fun d present => Nat.digits_lt_base (by decide) present), Nat.ofDigits_digits]

theorem takeWhile_digits {digits rest : Bytes} (all : ∀ c ∈ digits, isDigit c = true)
    (ends : ∀ c ∈ rest.head?, isDigit c = false) :
    (digits ++ rest).takeWhile isDigit = digits := by
  rw [takeWhile_append_of_pos all]
  cases rest with
  | nil => simp
  | cons c rest => simp [ends c rfl]

theorem takeWhile_natText (n : Nat) (rest : Bytes)
    (ends : ∀ c ∈ rest.head?, isDigit c = false) :
    (natText n ++ rest).takeWhile isDigit = natText n :=
  takeWhile_digits (natText_isDigit n) ends

theorem strtol_digits {digits rest : Bytes} (some_ : digits ≠ [])
    (all : ∀ c ∈ digits, isDigit c = true) (ends : ∀ c ∈ rest.head?, isDigit c = false) :
    strtol (digits ++ rest) = some (digitsValue digits : Int) := by
  have taken := takeWhile_digits all ends
  obtain ⟨c, others, rfl⟩ := exists_cons_of_ne_nil some_
  obtain ⟨space, minus, plus⟩ := isDigit_spec (all c mem_cons_self)
  rw [cons_append] at taken ⊢
  have skip : (c :: (others ++ rest)).dropWhile isSpace = c :: (others ++ rest) := by
    rw [dropWhile_cons_of_neg (by simp [space])]
  simp only [strtol, skip]
  split
  · grind
  · grind
  · simp only [taken, cons_ne_nil, ↓reduceIte, Bool.false_eq_true]

theorem strtol_toString (n : Int) : strtol (toString n) = some n := by
  have digits := takeWhile_natText n.natAbs [] (by simp)
  rw [append_nil] at digits
  have some := natText_ne_nil n.natAbs
  have value := digitsValue_natText n.natAbs
  unfold toString
  split
  · rename_i negative
    have skip : (45 :: natText n.natAbs).dropWhile isSpace = 45 :: natText n.natAbs := by
      rw [dropWhile_cons_of_neg (by decide)]
    simp only [strtol, skip, digits, some, ↓reduceIte, value]
    congr 1
    omega
  · rename_i positive
    have read := strtol_digits some (natText_isDigit n.natAbs)
      (fun c none => absurd none (by simp) : ∀ c ∈ ([] : Bytes).head?, _)
    grind

theorem toString_inj {m n : Int} (same : toString m = toString n) : m = n := by
  have read := strtol_toString m
  rw [same, strtol_toString] at read
  exact (Option.some.inj read).symm

theorem toString_length_four {n : Int} (low : 1000 ≤ n) (high : n ≤ 9999) :
    (toString n).length = 4 := by
  have count : (Nat.digits 10 n.natAbs).length = 4 := by
    rw [Nat.length_digits 10 n.natAbs (by decide) (by omega)]
    have log : Nat.log 10 n.natAbs = 3 :=
      (Nat.log_eq_iff (Or.inl (by decide))).mpr ⟨by omega, by omega⟩
    omega
  rw [toString, if_neg (by omega), natText, if_neg (by omega), length_map,
    length_reverse, count]

theorem toString_bytes {n : Int} {c : UInt8} (present : c ∈ toString n) :
    isDigit c = true ∨ c = 45 := by
  unfold toString at present
  split at present
  · rcases mem_cons.mp present with sign | digit
    · exact .inr sign
    · exact .inl (natText_isDigit _ c digit)
  · exact .inl (natText_isDigit _ c present)

theorem toString_ne_nil (n : Int) : toString n ≠ [] := by
  unfold toString
  split
  · exact cons_ne_nil _ _
  · exact natText_ne_nil _

theorem space_not_mem_toString (n : Int) : 32 ∉ toString n := by
  intro present
  have byte := toString_bytes present
  revert byte
  decide

theorem natText_length_le {n count : Nat} (positive : 0 < count) :
    (natText n).length ≤ count ↔ n < 10 ^ count := by
  unfold natText
  split
  · rename_i zero
    exact iff_of_true positive (by rw [zero]; exact Nat.pow_pos (by decide))
  · rw [length_map, length_reverse]
    exact Nat.digits_length_le_iff (by decide) _

/-- How long a printed number is: that of its digits, and a sign. -/
theorem toString_length (n : Int) :
    (toString n).length = (natText n.natAbs).length + if n < 0 then 1 else 0 := by
  unfold toString
  split <;> rfl

theorem toString_range {n : Int} (short : (toString n).length ≤ 9) : -2 ^ 31 ≤ n ∧ n < 2 ^ 31 := by
  rw [toString_length] at short
  have small := (natText_length_le (by decide)).mp (Nat.le_trans (Nat.le_add_right _ _) short)
  omega

/-- Behind the first character a printed number has digits only. -/
theorem toString_drop_isDigit (n : Int) {k : Nat} (behind : 0 < k) :
    ∀ c ∈ (toString n).drop k, isDigit c = true := by
  obtain ⟨k, rfl⟩ := Nat.exists_eq_add_of_lt behind
  intro c present
  unfold toString at present
  split at present
  · rw [Nat.zero_add, drop_succ_cons] at present
    exact natText_isDigit _ c (mem_of_mem_drop present)
  · exact natText_isDigit _ c (mem_of_mem_drop present)

theorem stoi_toString {n : Int} (fits : -2 ^ 31 ≤ n ∧ n < 2 ^ 31) : stoi (toString n) = some n := by
  rw [stoi, strtol_toString]
  exact if_pos fits

theorem natText_append_inj {m n : Nat} {x y : Bytes} (left : ∀ c ∈ x.head?, isDigit c = false)
    (right : ∀ c ∈ y.head?, isDigit c = false) (same : natText m ++ x = natText n ++ y) :
    m = n ∧ x = y := by
  have digits := congrArg (List.takeWhile isDigit) same
  rw [takeWhile_natText m x left, takeWhile_natText n y right] at digits
  have value := congrArg digitsValue digits
  rw [digitsValue_natText, digitsValue_natText] at value
  subst value
  exact ⟨rfl, append_cancel_left same⟩

theorem natText_ne_minus {n : Nat} {x y : Bytes} : natText n ++ x ≠ 45 :: y := by
  intro same
  cases text : natText n with
  | nil => exact natText_ne_nil n text
  | cons c rest =>
    have digit := natText_isDigit n c (by rw [text]; exact mem_cons_self)
    rw [text, cons_append] at same
    obtain rfl := (List.cons.inj same).1
    exact absurd digit (by decide)

theorem toString_append_inj {m n : Int} {x y : Bytes} (left : ∀ c ∈ x.head?, isDigit c = false)
    (right : ∀ c ∈ y.head?, isDigit c = false) (same : toString m ++ x = toString n ++ y) :
    m = n ∧ x = y := by
  unfold toString at same
  split at same
  · split at same
    · obtain ⟨value, rest⟩ := natText_append_inj left right (List.cons.inj same).2
      exact ⟨by omega, rest⟩
    · exact absurd same.symm natText_ne_minus
  · split at same
    · exact absurd same natText_ne_minus
    · obtain ⟨value, rest⟩ := natText_append_inj left right same
      exact ⟨by omega, rest⟩

theorem zero_toString_ne {m n : Int} {x y : Bytes} (small : m < 10) (large : ¬ n < 10)
    (left : ∀ c ∈ x.head?, isDigit c = false) (right : ∀ c ∈ y.head?, isDigit c = false) :
    48 :: (toString m ++ x) ≠ toString n ++ y := by
  intro same
  have positive : ¬ n < 0 := by omega
  rw [show toString n = natText n.natAbs from if_neg positive] at same
  have value := congrArg (fun text => digitsValue (text.takeWhile isDigit)) same
  rw [takeWhile_natText n.natAbs y right, digitsValue_natText,
    takeWhile_cons_of_pos (by decide)] at value
  have skip : ∀ digits : Bytes, digitsValue (48 :: digits) = digitsValue digits := fun _ => rfl
  rw [skip] at value
  unfold toString at value
  split at value
  · rw [cons_append, takeWhile_cons_of_neg (by decide)] at value
    have zero : digitsValue [] = 0 := rfl
    omega
  · rw [takeWhile_natText m.natAbs x left, digitsValue_natText] at value
    omega

end RssDisk.BasefuncStd
