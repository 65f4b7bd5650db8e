import RssDisk.Bitbase

/-!
# Integer types in byte strings

`numeric_to_chars` and `chars_to_numeric` are templates: they shift and add in the integer type of
their argument. A shift to the right keeps the sign, and a byte that is shifted into the sign bit
makes the sum negative. The bytes are those of the number modulo the number of values of the type,
so the round trips are those of plain numbers, and bytes compare as unsigned numbers do.
-/

namespace RssDisk.Bitbase

open List

/-- An integer type: how many bytes it has, and whether it has a sign. -/
structure IntType where
  size : Nat
  signed : Bool

namespace IntType

/-- The number of values of a type. -/
def card (T : IntType) : Nat := 256 ^ T.size

/-- The numbers that a type holds. -/
def Holds (T : IntType) (n : Int) : Prop :=
  if T.signed then -T.card ≤ n * 2 ∧ n * 2 < T.card else 0 ≤ n ∧ n < T.card

/-- The number of a type that has the low bits of a number. -/
def cast (T : IntType) (n : Int) : Int :=
  if T.signed then n.bmod T.card else n % T.card

/-- The loop of `numeric_to_chars`, for the last bytes of a number. -/
def shiftedChars (n : Int) : Nat → Bytes
  | 0 => []
  | sz + 1 => UInt8.ofNat (n >>> (8 * sz) % 256).toNat :: shiftedChars n sz

/-- `bitbase::numeric_to_chars` of a number of the type. -/
def numericToChars (T : IntType) (n : Int) : Bytes := shiftedChars n T.size

/-- `bitbase::chars_to_numeric` into the type: from the last byte on the sum is cut to it. -/
def charsToNumeric (T : IntType) : Bytes → Int
  | [] => 0
  | c :: t => T.cast (T.charsToNumeric t + T.cast c.toNat * 2 ^ (8 * t.length))

end IntType

theorem charsToNumeric_cons (c : UInt8) (t : Bytes) :
    charsToNumeric (c :: t) = c.toNat * 256 ^ t.length + charsToNumeric t := by
  rw [charsToNumeric, Nat.shiftLeft_eq, Nat.pow_mul]

theorem charsToNumeric_lt (t : Bytes) : charsToNumeric t < 256 ^ t.length := by
  induction t with
  | nil => decide
  | cons c t ih =>
    have byte : c.toNat + 1 ≤ 256 := c.toNat_lt
    calc charsToNumeric (c :: t) < (c.toNat + 1) * 256 ^ t.length := by
          rw [charsToNumeric_cons, Nat.add_mul]
          omega
      _ ≤ 256 * 256 ^ t.length := Nat.mul_le_mul_right _ byte
      _ = 256 ^ (c :: t).length := by rw [length_cons, Nat.pow_succ, Nat.mul_comm]

theorem lt_iff_charsToNumeric_lt {t u : Bytes} (same : t.length = u.length) :
    t < u ↔ charsToNumeric t < charsToNumeric u := by
  induction t generalizing u with
  | nil =>
    cases u with
    | nil => simp
    | cons d u => cases same
  | cons c t ih =>
    cases u with
    | nil => cases same
    | cons d u =>
      have same : t.length = u.length := Nat.succ.inj same
      have first := charsToNumeric_lt t
      have second := charsToNumeric_lt u
      rw [cons_lt_cons_iff, ih same, charsToNumeric_cons, charsToNumeric_cons, same,
        UInt8.lt_iff_toNat_lt, ← UInt8.toNat_inj]
      rw [same] at first
      generalize 256 ^ u.length = scale at first second ⊢
      rcases Nat.lt_trichotomy c.toNat d.toNat with less | equal | more
      · have step := Nat.mul_le_mul_right scale (Nat.succ_le_of_lt less)
        grind
      · rw [equal]
        omega
      · have step := Nat.mul_le_mul_right scale (Nat.succ_le_of_lt more)
        grind

theorem charsToNumeric_inj {t u : Bytes} (length : t.length = u.length)
    (same : charsToNumeric t = charsToNumeric u) : t = u := by
  have first : ¬ t < u := by
    rw [lt_iff_charsToNumeric_lt length, same]
    exact Nat.lt_irrefl _
  have second : ¬ u < t := by
    rw [lt_iff_charsToNumeric_lt length.symm, same]
    exact Nat.lt_irrefl _
  exact List.le_antisymm (List.not_lt.mp second) (List.not_lt.mp first)

namespace IntType

variable {T : IntType}

theorem length_shiftedChars (n : Int) (sz : Nat) : (shiftedChars n sz).length = sz := by
  induction sz with
  | zero => rfl
  | succ sz ih => rw [shiftedChars, length_cons, ih]

theorem charsToNumeric_shiftedChars (n : Int) (sz : Nat) :
    (Bitbase.charsToNumeric (shiftedChars n sz) : Int) = n % (256 ^ sz : Nat) := by
  induction sz with
  | zero => simp [shiftedChars, Bitbase.charsToNumeric]
  | succ sz ih =>
    have byte : ((UInt8.ofNat (n >>> (8 * sz) % 256).toNat).toNat : Int) =
        n / (256 ^ sz : Nat) % 256 := by
      have scale : 2 ^ (8 * sz) = 256 ^ sz := by rw [Nat.pow_mul]
      rw [Int.shiftRight_eq_div_pow, scale, UInt8.toNat_ofNat']
      omega
    have split : n % (256 ^ sz * 256 : Nat) =
        n / (256 ^ sz : Nat) % 256 * (256 ^ sz : Nat) + n % (256 ^ sz : Nat) := by
      rw [Nat.cast_mul, Int.emod_def, ← Int.ediv_ediv_of_nonneg (by positivity),
        Int.emod_def (n / _) 256, Int.emod_def n (256 ^ sz : Nat)]
      ring
    rw [shiftedChars, charsToNumeric_cons, length_shiftedChars, Nat.cast_add, Nat.cast_mul, byte,
      ih, Nat.pow_succ, split]

theorem cast_emod (n : Int) : T.cast n % T.card = n % T.card := by
  rw [cast]
  split
  · exact Int.bmod_emod
  · exact Int.emod_emod n _

theorem cast_congr {m n : Int} (same : m % T.card = n % T.card) : T.cast m = T.cast n := by
  rw [cast, cast, ← Int.emod_bmod m, ← Int.emod_bmod n, same]

theorem cast_eq {n : Int} (holds : T.Holds n) : T.cast n = n := by
  rw [Holds] at holds
  rw [cast]
  split
  · rename_i signed
    rw [if_pos signed] at holds
    exact Int.bmod_eq_of_le_mul_two holds.1 holds.2
  · rename_i unsigned
    rw [if_neg unsigned] at holds
    exact Int.emod_eq_of_lt holds.1 holds.2

theorem charsToNumeric_eq (t : Bytes) : T.charsToNumeric t = T.cast (Bitbase.charsToNumeric t) := by
  induction t with
  | nil =>
    have zero : T.cast 0 = 0 := by simp [cast]
    exact zero.symm
  | cons c t ih =>
    have scale : (2 : Int) ^ (8 * t.length) = (256 ^ t.length : Nat) := by
      rw [pow_mul]
      norm_num
    apply cast_congr
    rw [ih, Int.add_emod, cast_emod, Int.mul_emod, cast_emod, ← Int.mul_emod, ← Int.add_emod,
      charsToNumeric_cons, Nat.add_comm, scale, Nat.cast_add, Nat.cast_mul]

theorem charsToNumeric_numericToChars (n : Int) :
    T.charsToNumeric (T.numericToChars n) = T.cast n := by
  rw [charsToNumeric_eq, numericToChars, charsToNumeric_shiftedChars]
  exact cast_congr (Int.emod_emod n _)

/-- For every integer type: reading the bytes of a number gives the number, writing the number that
is read from as many bytes as the type has gives the bytes, and for a type without a sign the bytes
compare as the numbers do. -/
theorem chars_numeric_exact (T : IntType) :
    (∀ n, T.Holds n → T.charsToNumeric (T.numericToChars n) = n) ∧
      (∀ t : Bytes, t.length = T.size → T.numericToChars (T.charsToNumeric t) = t) ∧
      (T.signed = false → ∀ m n, T.Holds m → T.Holds n →
        (T.numericToChars m < T.numericToChars n ↔ m < n)) := by
  refine ⟨fun n holds => ?_, fun t whole => ?_, fun unsigned m n first second => ?_⟩
  · rw [charsToNumeric_numericToChars, cast_eq holds]
  · have length : (T.numericToChars (T.charsToNumeric t)).length = t.length := by
      rw [numericToChars, length_shiftedChars, whole]
    apply charsToNumeric_inj length
    have bound := charsToNumeric_lt t
    rw [whole] at bound
    rw [← Int.natCast_inj, numericToChars, charsToNumeric_shiftedChars, charsToNumeric_eq]
    exact (cast_emod _).trans (Int.emod_eq_of_lt (Int.natCast_nonneg _) (by exact_mod_cast bound))
  · have exact_ {n : Int} (holds : T.Holds n) : n % T.card = n := by
      rw [Holds, unsigned] at holds
      exact Int.emod_eq_of_lt holds.1 holds.2
    have length : (T.numericToChars m).length = (T.numericToChars n).length := by
      rw [numericToChars, numericToChars, length_shiftedChars, length_shiftedChars]
    rw [lt_iff_charsToNumeric_lt length, ← Int.ofNat_lt, numericToChars, numericToChars,
      charsToNumeric_shiftedChars, charsToNumeric_shiftedChars]
    exact iff_of_eq (congrArg₂ _ (exact_ first) (exact_ second))

end IntType

open IntType

end RssDisk.Bitbase
