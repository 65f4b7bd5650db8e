import RssDisk.BTree.Match
import RssDisk.DateTime.Texts
import RssDisk.Reference

/-!
# Instants as index keys

`try_make_date_index` takes the quotes from a printed string, cuts it to 19 characters, reads it in
the format of its length and returns the epoch of what was read. A date, with or without a time,
gets the key of its instant up to whole seconds. A time without a date leaves the date invalid, so
its key is zero.
-/

namespace RssDisk.BTree

open DateTime List BasefuncStd Json Int64 Bool

/-- The formats that are read: a date with a time, which a fraction of a second and more may follow,
a date, a time, and a time without seconds. -/
inductive Form where
  | dateTime (zone : Bytes)
  | date
  | time
  | shortTime
deriving DecidableEq, Repr

def Form.hasDate : Form → Bool
  | .dateTime _ => true
  | .date => true
  | _ => false

/-- What a string denotes. -/
structure Stamp where
  date : Date := {}
  time : Time := {}
  fraction : Bytes := []
  /-- A space stands between the date and the time, and not a `T`. -/
  spaced : Bool := false
deriving DecidableEq, Repr

namespace Stamp

/-- The string, in a format. -/
def text (s : Stamp) : Form → Bytes
  | .dateTime zone =>
    dateText s.date ++ (if s.spaced then 32 else 84) :: timeText s.time ++
      (if s.fraction = [] then [] else 46 :: s.fraction) ++ zone
  | .date => dateText s.date
  | .time => timeText s.time
  | .shortTime => shortTimeText s.time

/-- The date and the time up to whole seconds are the same. -/
def SameSecond (a b : Stamp) : Prop := a.date = b.date ∧ a.time = b.time

end Stamp

variable {env : Env}

/-- A character of a string that is read. -/
def IsBody (c : UInt8) : Prop := IsPlain c ∨ c = 84

theorem IsBody.spec {c : UInt8} (body : IsBody c) : c ≠ 34 ∧ escape c = [c] := by
  rcases body with (digit | rfl | rfl | rfl) | rfl
  · have each : ∀ n < 10, UInt8.ofNat (48 + n) ≠ 34 ∧
        escape (UInt8.ofNat (48 + n)) = [UInt8.ofNat (48 + n)] := by decide
    simp only [isDigit, and_eq_true, decide_eq_true_eq, UInt8.le_iff_toNat_le]
      at digit
    have low : 48 ≤ c.toNat := digit.1
    have high : c.toNat ≤ 57 := digit.2
    have same : UInt8.ofNat (48 + (c.toNat - 48)) = c := by
      rw [Nat.add_sub_cancel' low, UInt8.ofNat_toNat]
    have spec := each (c.toNat - 48) (by omega)
    grind
  all_goals decide

/-- The key of a string in a format. -/
def Stamp.key (env : Env) (s : Stamp) (form : Form) : Int64 :=
  if form.hasDate then env.mktime s.date s.time else 0

namespace Stamp

theorem SameSecond.key_eq {a b : Stamp} (same : a.SameSecond b) (form : Form) :
    a.key env form = b.key env form := by
  rw [key, key, same.1, same.2]

end Stamp

/-- Ten o'clock on a day in spring, with a fraction of a second. -/
def morning : Stamp :=
  { date := ⟨2021, 3, 28⟩, time := ⟨10, 0, 0⟩, fraction := [53, 48] }

/-- Eleven o'clock on the same day. -/
def later : Stamp := { morning with time := ⟨11, 0, 0⟩, fraction := [], spaced := true }

end RssDisk.BTree
