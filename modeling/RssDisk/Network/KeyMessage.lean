import RssDisk.CManager
import RssDisk.Reference

/-!
# The message of the key exchange

`tcp_client::connect` sends the size of the prime as four bytes, the generator, the prime and its
public value as decimal digits. `compress_number` goes over all of it, and not only over the
digits: it writes a pair of digits as one character when their number is the code of an upper case
letter or of `a`, `b` or `c`, and `uncompress_number` writes every such character as the two digits
of its code. A byte of the size that is such a code comes back as two digits, and everything behind
it is read at a wrong place.
-/

namespace RssDisk

open List Option

namespace BasefuncStd

/-- The numbers of two digits that `compress_number` writes as one character. -/
def IsCode (c : Int) : Prop := 65 ≤ c ∧ c ≤ 90 ∨ 97 ≤ c ∧ c ≤ 99

instance (c : Int) : Decidable (IsCode c) := inferInstanceAs (Decidable (_ ∨ _))

/-- What `compress_number` adds for two characters. -/
def compressPair (a b : UInt8) : Bytes :=
  match stoi [a, b] with
  | some c => if IsCode c then [UInt8.ofNat c.toNat] else [a, b]
  | none => [a, b]

/-- The loop of `compress_number` over whole pairs, and a character behind them. -/
def compressPairs : Bytes → Bytes
  | a :: b :: k => compressPair a b ++ compressPairs k
  | k => k

/-- The loop of `uncompress_number`; a `char` above 127 is negative, and no code. -/
def expandCodes (k : Bytes) : Bytes :=
  k.flatMap fun c => if IsCode c.toNat then toString c.toNat else [c]

/-- `basefunc_std::compress_number`. The size is an `int`: when it is odd, everything behind the
pairs is added, which from `2 ^ 32` characters on is more than one. With the least `int`, where
`sz - 1` is undefined, nothing is. -/
def compressNumber (k : Bytes) : Bytes :=
  let sz := (toInt32 k.length).toNat
  compressPairs (k.take (sz / 2 * 2)) ++ if sz / 2 * 2 < sz then k.drop (sz / 2 * 2) else []

/-- `basefunc_std::uncompress_number`; the size is an `int`. -/
def uncompressNumber (k : Bytes) : Bytes := expandCodes (k.take (toInt32 k.length).toNat)

theorem strtol_le_nine {a b : UInt8} {n : Int} (other : isDigit a = false)
    (read : strtol [a, b] = some n) : n ≤ 9 := by
  -- without a digit in the first place at most one digit is read
  have one (negative : Bool) {rest : Bytes} (short : rest.length ≤ 1)
      (value : (if rest.takeWhile isDigit = [] then none
        else some (if negative = true then -(digitsValue (rest.takeWhile isDigit) : Int)
          else digitsValue (rest.takeWhile isDigit))) = some n) : n ≤ 9 := by
    rcases rest with _ | ⟨c, _ | ⟨_, _⟩⟩
    · simp at value
    · by_cases digit : isDigit c = true
      · have bound := isDigit_iff.mp digit
        cases negative <;> simp [digit, digitsValue] at value <;> omega
      · simp [digit] at value
    · simp at short
  have shorter (text : Bytes) : (text.dropWhile isSpace).length ≤ text.length :=
    (dropWhile_sublist isSpace).length_le
  have all := shorter [a, b]
  simp only [strtol] at read
  split at read
  · rename_i rest same
    simp only [same, length_cons, length_nil] at all
    exact one true (by omega) read
  · rename_i rest same
    simp only [same, length_cons, length_nil] at all
    exact one false (by omega) read
  · by_cases space : isSpace a = true
    · have kept : [a, b].dropWhile isSpace = [b].dropWhile isSpace := by
        simp [List.dropWhile, space]
      rw [kept] at read
      exact one false (shorter [b]) read
    · simp [List.dropWhile, space, other] at read

theorem stoi_pair {a b : UInt8} {c : Int} (read : stoi [a, b] = some c) (large : 10 ≤ c) :
    toString c = [a, b] ∧ isDigit a = true ∧ isDigit b = true := by
  have value : strtol [a, b] = some c := by
    unfold stoi at read
    split at read
    · rename_i n value
      grind
    · cases read
  by_cases first : isDigit a = true
  · have low := isDigit_iff.mp first
    by_cases second : isDigit b = true
    · have high := isDigit_iff.mp second
      have both := @strtol_digits [a, b] [] (by simp) (by simp [first, second]) (by simp)
      rw [append_nil, value] at both
      have number : c = ((a.toNat - 48) * 10 + (b.toNat - 48) : Nat) := by
        simpa [digitsValue] using both
      have one : ∀ d < 10, natText d = [UInt8.ofNat (48 + d)] := by decide
      refine ⟨?_, first, second⟩
      rw [toString, if_neg (by omega), natText_div_ten (by omega), one _ (by omega),
        show 48 + c.natAbs / 10 = a.toNat by omega, show 48 + c.natAbs % 10 = b.toNat by omega]
      simp
    · have single := @strtol_digits [a] [b] (by simp) (by simp [first]) (by simp [second])
      rw [show [a] ++ [b] = [a, b] from rfl, value] at single
      simp [digitsValue] at single
      omega
  · have := strtol_le_nine (by simpa using first) value
    omega

theorem expandCodes_append (k l : Bytes) :
    expandCodes (k ++ l) = expandCodes k ++ expandCodes l := flatMap_append

theorem expandCodes_eq_self {k : Bytes} (plain : ∀ c ∈ k, ¬ IsCode c.toNat) :
    expandCodes k = k := by
  induction k with
  | nil => rfl
  | cons c k ih =>
    have rest := ih fun d member => plain d (mem_cons_of_mem _ member)
    rw [expandCodes] at rest
    rw [expandCodes, flatMap_cons, if_neg (plain c mem_cons_self), rest]
    rfl

theorem not_isCode {c : UInt8} (digit : isDigit c = true) : ¬ IsCode c.toNat := by
  have bound := isDigit_iff.mp digit
  unfold IsCode
  omega

theorem expandCodes_digits {k : Bytes} (digits : ∀ c ∈ k, isDigit c = true) :
    expandCodes k = k :=
  expandCodes_eq_self fun c member => not_isCode (digits c member)

theorem expandCodes_compressPair (a b : UInt8) :
    expandCodes (compressPair a b) = expandCodes [a, b] := by
  unfold compressPair
  split
  · rename_i c read
    split
    · rename_i code
      have range : 65 ≤ c ∧ c ≤ 99 := by
        unfold IsCode at code
        omega
      obtain ⟨text, first, second⟩ := stoi_pair read (by omega)
      have back : ((UInt8.ofNat c.toNat).toNat : Int) = c := by
        rw [UInt8.toNat_ofNat']
        omega
      rw [expandCodes_digits (k := [a, b]) (by simp [first, second]), expandCodes,
        flatMap_singleton, back, if_pos code, text]
    · rfl
  · rfl

theorem expandCodes_compressPairs (k : Bytes) :
    expandCodes (compressPairs k) = expandCodes k := by
  fun_induction compressPairs k with
  | case1 a b k ih =>
    rw [expandCodes_append, expandCodes_compressPair, ih, ← expandCodes_append]
    rfl
  | case2 k => rfl

theorem length_expandCodes (k : Bytes) :
    (expandCodes k).length = k.length + k.countP (fun c => IsCode c.toNat) := by
  have two : ∀ n < 100, 65 ≤ n → (toString (n : Nat)).length = 2 := by decide
  induction k with
  | nil => rfl
  | cons c k ih =>
    rw [expandCodes] at ih
    rw [expandCodes, flatMap_cons, length_append, ih, countP_cons,
      length_cons]
    by_cases code : IsCode c.toNat
    · have wide : (toString c.toNat).length = 2 := by
        unfold IsCode at code
        exact two c.toNat (by omega) (by omega)
      simp only [code, ↓reduceIte, wide, decide_true]
      omega
    · simp only [code, ↓reduceIte, length_singleton, decide_false, Bool.false_eq_true]
      omega

theorem length_compressPairs (k : Bytes) : (compressPairs k).length ≤ k.length := by
  fun_induction compressPairs k with
  | case1 a b k ih =>
    have pair : (compressPair a b).length ≤ 2 := by
      unfold compressPair
      split
      · split <;> simp
      · exact Nat.le_refl 2
    grind
  | case2 k => exact Nat.le_refl _

theorem uncompressNumber_compressNumber (k : Bytes) :
    uncompressNumber (compressNumber k) = expandCodes (k.take (toInt32 k.length).toNat) := by
  obtain ⟨sz, size⟩ : ∃ sz, (toInt32 k.length).toNat = sz := ⟨_, rfl⟩
  have range : sz < 2 ^ 31 ∧ sz ≤ k.length ∧ (0 < sz → 2 ^ 32 ∣ k.length - sz) := by
    rw [toInt32] at size
    omega
  have pairs := length_compressPairs (k.take (sz / 2 * 2))
  rw [length_take] at pairs
  simp only [uncompressNumber, compressNumber, size]
  split
  · rename_i odd
    have counted : (toInt32 (compressPairs (k.take (sz / 2 * 2)) ++
        k.drop (sz / 2 * 2)).length).toNat = (compressPairs (k.take (sz / 2 * 2))).length + 1 := by
      rw [length_append, length_drop, toInt32]
      omega
    rw [counted, take_length_add_append, expandCodes_append, expandCodes_compressPairs,
      ← expandCodes_append, ← take_add, show sz / 2 * 2 + 1 = sz by omega]
  · rename_i even
    have same : sz / 2 * 2 = sz := by omega
    rw [same] at pairs ⊢
    rw [append_nil, toInt32_eq (by omega) (by omega), Int.toNat_natCast, take_length,
      expandCodes_compressPairs]

/-- A string of digits comes back exactly when its size is an `int`. -/
theorem digits_come_back_iff {k : Bytes} (digits : ∀ c ∈ k, isDigit c = true) :
    uncompressNumber (compressNumber k) = k ↔ k.length < 2 ^ 31 := by
  rw [uncompressNumber_compressNumber,
    expandCodes_digits fun c member => digits c (mem_of_mem_take member), take_eq_self_iff,
    toInt32]
  omega

theorem digits_come_back_odd :
    uncompressNumber (compressNumber [49, 54, 53, 57, 57]) = [49, 54, 53, 57, 57] :=
  (digits_come_back_iff (all_eq_true.mp (by decide))).mpr (by decide)

/-- Of `2 ^ 31 + 1` ones nothing is left. -/
theorem digits_lost :
    uncompressNumber (compressNumber (List.replicate (2 ^ 31 + 1) 49)) = [] := by
  rw [uncompressNumber_compressNumber, length_replicate]
  rfl

end BasefuncStd

namespace Network

open BasefuncStd Bitbase CManager

/-- The message that `tcp_client::connect` sends for a generator, a prime and a public value. -/
def keyMessage (env : Env) (g p A : Bytes) : Bytes :=
  env.compress (compressNumber (numericToChars p.length 4 ++ g ++ p ++ A))

/-- The generator, the prime and the public value that `process_message` reads from it; `none` when
it stops or throws. -/
def readKeys (env : Env) (str : Bytes) : Option (Bytes × Bytes × Bytes) :=
  let keys := uncompressNumber (env.decompressString str)
  if 4 < keys.length then
    let sizeOfP := (charsToI32 (keys.take 4)).toInt
    if toSize (7 + sizeOfP) < keys.length then
      (substr keys 4 1).bind fun g =>
        (substr keys 5 sizeOfP).bind fun p =>
          (substr keys (5 + sizeOfP) (-1)).map fun A => (g, p, A)
    else none
  else none

section

variable {env : Env} {g p A : Bytes}

theorem uncompressNumber_sent (zlib : env.ZlibInverse)
    (digits : ∀ c ∈ g ++ p ++ A, isDigit c = true) (fits : (g ++ p ++ A).length + 4 < 2 ^ 31) :
    uncompressNumber (env.decompressString (keyMessage env g p A)) =
      expandCodes (numericToChars p.length 4) ++ (g ++ p ++ A) := by
  have size : (numericToChars p.length 4 ++ (g ++ p ++ A)).length = 4 + (g ++ p ++ A).length := by
    rw [length_append, numericToChars_length]
  rw [keyMessage, zlib, uncompressNumber_compressNumber, append_assoc, append_assoc,
    ← append_assoc g, toInt32_eq (by omega) (by omega), Int.toNat_natCast, take_length,
    expandCodes_append, expandCodes_digits digits]

theorem charsToI32_size {n : Nat} (small : n < 2 ^ 31) :
    (charsToI32 (numericToChars n 4)).toInt = n := by
  rw [charsToI32, charsToU32, charsToNumeric_numericToChars, Nat.mod_eq_of_lt (by omega)]
  have word : (UInt32.ofNat n).toInt32 = Int32.ofNat n := rfl
  rw [word, Int32.toInt_ofNat_of_lt small]

theorem substr_append {before after : Bytes} {place : Int} (n : Int)
    (sized : (before ++ after).length < 2 ^ 63) (at_ : place = before.length) :
    substr (before ++ after) place n = some (after.take (toSize n)) := by
  rw [at_, substr_eq (by simp) sized, drop_left]

theorem readKeys_of_size {str L : Bytes} (four : L.length = 4) (one : g.length = 1)
    (three : 3 ≤ A.length) (fits : 5 + p.length + A.length < 2 ^ 31)
    (size : (charsToI32 L).toInt = p.length)
    (keys : uncompressNumber (env.decompressString str) = L ++ (g ++ p ++ A)) :
    readKeys env str = some (g, p, A) := by
  have total : (L ++ (g ++ p ++ A)).length = 5 + p.length + A.length := by
    grind
  have first : substr (L ++ (g ++ p ++ A)) 4 1 = some g := by
    rw [substr_append 1 (by omega) (by omega), append_assoc,
      show toSize 1 = g.length from one.symm, take_left]
  have second : substr (L ++ (g ++ p ++ A)) 5 p.length = some p := by
    have front : (L ++ g).length = 5 := by
      rw [length_append, four, one]
    rw [append_assoc g, ← append_assoc L] at total ⊢
    rw [substr_append _ (by omega) (by omega), toSize_natCast (by omega), take_left]
  have third : substr (L ++ (g ++ p ++ A)) (5 + p.length) (-1) = some A := by
    have front : (L ++ (g ++ p)).length = 5 + p.length := by
      grind
    rw [← append_assoc L] at total ⊢
    rw [substr_append _ (by omega) (by omega), take_of_length_le]
    exact show A.length ≤ 2 ^ 64 - 1 by omega
  have room : toSize (7 + p.length) < (L ++ (g ++ p ++ A)).length := by
    unfold toSize
    omega
  simp only [readKeys, keys]
  rw [if_pos (by omega), take_left' four, size, if_pos room, first, second, third]
  rfl

theorem length_le_of_substr {keys : Bytes} {sizeOfP : Int} (sized : keys.length < 2 ^ 63)
    (low : -2 ^ 31 ≤ sizeOfP) (high : sizeOfP < 2 ^ 31) (prime : substr keys 5 sizeOfP = some p)
    (value : substr keys (5 + sizeOfP) (-1) = some A) :
    keys.length ≤ 5 + p.length + A.length := by
  obtain ⟨-, prime⟩ := ite_none_right_eq_some.mp prime
  obtain ⟨-, value⟩ := ite_none_right_eq_some.mp value
  simp only [Option.some.injEq] at prime value
  subst prime value
  simp only [length_take, length_drop]
  unfold toSize at *
  omega

/-- The server reads what the client sent exactly when no byte of the size of the prime is the code
of an upper case letter or of `a`, `b` or `c`. -/
theorem readKeys_keyMessage_iff (zlib : env.ZlibInverse) (one : g.length = 1)
    (three : 3 ≤ A.length) (digits : ∀ c ∈ g ++ p ++ A, isDigit c = true)
    (fits : 5 + p.length + A.length < 2 ^ 31) :
    readKeys env (keyMessage env g p A) = some (g, p, A) ↔
      ∀ c ∈ numericToChars p.length 4, ¬ IsCode c.toNat := by
  have four : (numericToChars p.length 4).length = 4 := numericToChars_length ..
  have front := length_expandCodes (numericToChars p.length 4)
  have keys := uncompressNumber_sent zlib digits (by simp only [length_append]; omega)
  constructor
  · intro read c member code
    have more : 0 < (numericToChars p.length 4).countP (fun c => IsCode c.toNat) :=
      countP_pos_iff.mpr ⟨c, member, by simpa using code⟩
    have most := countP_le_length (l := numericToChars p.length 4)
      (p := fun c => IsCode c.toNat)
    simp only [readKeys, ite_none_right_eq_some, bind_eq_some_iff,
      map_eq_some_iff, Prod.mk.injEq] at read
    obtain ⟨-, -, -, -, prime, substrP, value, substrA, -, rfl, rfl⟩ := read
    have all := length_le_of_substr (by rw [keys]; simp only [length_append]; omega)
      (Int32.le_toInt _) (Int32.toInt_lt _) substrP substrA
    rw [keys] at all
    simp only [length_append] at all
    omega
  · intro plain
    rw [expandCodes_eq_self plain] at keys
    exact readKeys_of_size four one three fits (charsToI32_size (by omega)) keys

end

theorem readKeys_keyMessage_iff_one_digit :
    readKeys Reference.env (keyMessage Reference.env [50] [55] [49, 50, 51]) =
      some ([50], [55], [49, 50, 51]) :=
  (readKeys_keyMessage_iff Reference.env_lawful.zlib (by decide) (by decide)
    (all_eq_true.mp (by decide)) (by decide)).mpr
    (show ∀ c ∈ ([0, 0, 0, 1] : Bytes), ¬ IsCode c.toNat by simp [IsCode])

/-- The prime 10 ^ 64 + 57 has 65 digits, which is the code of `A`. With the generator two and the
public value 123 the server reads the generator five. -/
theorem readKeys_moved :
    let p : Bytes := 49 :: List.replicate 62 48 ++ [53, 55]
    ∀ env : Env, env.ZlibInverse → readKeys env (keyMessage env [50] p [49, 50, 51]) =
      some ([53], 50 :: p.take 53, p.drop 53 ++ [49, 50, 51]) := by
  intro p env zlib
  have keys := uncompressNumber_sent (g := [50]) (p := p) (A := [49, 50, 51]) zlib
    (all_eq_true.mp (by decide)) (by decide)
  simp only [readKeys, keys]
  decide

end Network

end RssDisk
