import Mathlib.Tactic.Ring
import Mathlib.Tactic.Linarith
import Mathlib.Data.List.Basic

/-!
# Raw numbers in byte strings

`bitbase` writes a number as its bytes, most significant first, and reads it back by adding
shifted bytes. Signed and unsigned values of one width share their bytes, so both directions
work on the unsigned value; the typed readers cut the sum to the receiving type.
-/

namespace RssDisk

/-- `std::string`: a sequence of bytes of any length. -/
abbrev Bytes := List UInt8

/-- `std::size_t` subtraction, which wraps below zero. -/
def sizeSub (left right : Nat) : Nat := (left + 2 ^ 64 - right) % 2 ^ 64

theorem sizeSub_eq {left right : Nat} (ordered : right ≤ left) (bound : left < 2 ^ 64) :
    sizeSub left right = left - right := by
  have shifted : left + 2 ^ 64 - right = left - right + 2 ^ 64 := by omega
  rw [sizeSub, shifted, Nat.add_mod_right]
  exact Nat.mod_eq_of_lt (by omega)

/-- A number as the `std::int32_t` that holds its low bits. -/
def toInt32 (n : Int) : Int := (n + 2 ^ 31) % 2 ^ 32 - 2 ^ 31

/-- A number as the `std::int64_t` that holds its low bits. -/
def toInt64 (n : Int) : Int := (n + 2 ^ 63) % 2 ^ 64 - 2 ^ 63

theorem toInt64_eq {n : Int} (low : -2 ^ 63 ≤ n) (high : n < 2 ^ 63) : toInt64 n = n := by
  grind [toInt64]

theorem toInt32_eq {n : Int} (low : -2 ^ 31 ≤ n) (high : n < 2 ^ 31) : toInt32 n = n := by
  grind [toInt32]

namespace Bitbase

/-- `bitbase::numeric_to_chars`: the low `sz` bytes of a number, most significant first. -/
def numericToChars (n : Nat) : Nat → Bytes
  | 0 => []
  | sz + 1 => UInt8.ofNat (n >>> (8 * sz)) :: numericToChars n sz

/-- `bitbase::chars_to_numeric` before the sum is cut to the receiving type: the byte with
`j` bytes after it is added at bit `8 * j`. -/
def charsToNumeric : Bytes → Nat
  | [] => 0
  | c :: t => c.toNat <<< (8 * t.length) + charsToNumeric t

/-- The four bytes of a `std::uint32_t`. -/
def u32ToChars (n : UInt32) : Bytes := numericToChars n.toNat 4

/-- The eight bytes of a `std::int64_t`, those of its unsigned image. -/
def i64ToChars (n : Int64) : Bytes := numericToChars n.toUInt64.toNat 8

/-- The eight bytes of a `std::uint64_t`. -/
def u64ToChars (n : UInt64) : Bytes := numericToChars n.toNat 8

/-- The byte of a `std::uint8_t`. -/
def u8ToChars (n : UInt8) : Bytes := numericToChars n.toNat 1

/-- `chars_to_numeric` into a `std::uint32_t`. -/
def charsToU32 (t : Bytes) : UInt32 := UInt32.ofNat (charsToNumeric t)

/-- `chars_to_numeric` into a `std::int64_t`. -/
def charsToI64 (t : Bytes) : Int64 := (UInt64.ofNat (charsToNumeric t)).toInt64

/-- `chars_to_numeric` into a `std::uint64_t`. -/
def charsToU64 (t : Bytes) : UInt64 := UInt64.ofNat (charsToNumeric t)

@[simp] theorem numericToChars_length (n sz : Nat) : (numericToChars n sz).length = sz := by
  induction sz with
  | zero => rfl
  | succ sz ih => simp [numericToChars, ih]

theorem charsToNumeric_numericToChars (n sz : Nat) :
    charsToNumeric (numericToChars n sz) = n % 256 ^ sz := by
  induction sz with
  | zero => simp [numericToChars, charsToNumeric, Nat.mod_one]
  | succ sz ih =>
    have scale : (2 : Nat) ^ (8 * sz) = 256 ^ sz := by rw [Nat.pow_mul]
    have split : n % 256 ^ (sz + 1) = n % 256 ^ sz + 256 ^ sz * (n / 256 ^ sz % 2 ^ 8) :=
      Nat.mod_mul
    simp only [numericToChars, charsToNumeric, numericToChars_length, ih, Nat.shiftLeft_eq,
      Nat.shiftRight_eq_div_pow, UInt8.toNat_ofNat', scale]
    rw [split, Nat.mul_comm, Nat.add_comm]

@[simp] theorem charsToU32_u32ToChars (n : UInt32) : charsToU32 (u32ToChars n) = n := by
  rw [charsToU32, u32ToChars, charsToNumeric_numericToChars]
  rw [Nat.mod_eq_of_lt (by simpa using n.toNat_lt)]
  simp

@[simp] theorem charsToI64_i64ToChars (n : Int64) : charsToI64 (i64ToChars n) = n := by
  rw [charsToI64, i64ToChars, charsToNumeric_numericToChars]
  rw [Nat.mod_eq_of_lt (by simpa using n.toUInt64.toNat_lt)]
  simp

@[simp] theorem charsToU64_u64ToChars (n : UInt64) : charsToU64 (u64ToChars n) = n := by
  rw [charsToU64, u64ToChars, charsToNumeric_numericToChars]
  rw [Nat.mod_eq_of_lt (by simpa using n.toNat_lt)]
  simp

@[simp] theorem u32ToChars_length (n : UInt32) : (u32ToChars n).length = 4 := by
  simp [u32ToChars]

@[simp] theorem i64ToChars_length (n : Int64) : (i64ToChars n).length = 8 := by
  simp [i64ToChars]

@[simp] theorem u64ToChars_length (n : UInt64) : (u64ToChars n).length = 8 := by
  simp [u64ToChars]

@[simp] theorem u8ToChars_length (n : UInt8) : (u8ToChars n).length = 1 := by
  simp [u8ToChars]

end Bitbase

end RssDisk
