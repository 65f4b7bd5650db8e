import RssDisk.DateTime

/-!
# Days of the calendar

The days from the first day of the first year to a date. Carrying days into months and years keeps
this number, so `add_days` goes forward by as many days as it is given; the order of dates is the
order of their numbers, and different dates are printed differently.
-/

namespace RssDisk.DateTime

open BasefuncStd List

/-- A date of the calendar. -/
structure IsDate (date : Date) : Prop where
  year : 1 ≤ date.year
  firstMonth : 1 ≤ date.month
  lastMonth : date.month ≤ 12
  firstDay : 1 ≤ date.day
  lastDay : date.day ≤ countDaysInMonth date.month date.year

theorem IsCalendar.isDate {dt : DateTime} (calendar : dt.IsCalendar) : IsDate dt.date := by
  obtain ⟨year, month, day, _⟩ := calendar
  exact ⟨by omega, month.1, month.2, day.1, day.2⟩

def daysBeforeYear (year : Int) : Int :=
  365 * (year - 1) + (year - 1) / 4 - (year - 1) / 100 + (year - 1) / 400

/-- The days of a year before one of its months, the months counted from zero. -/
def daysBeforeMonth (year : Int) : Nat → Int
  | 0 => 0
  | month + 1 => daysBeforeMonth year month + countDaysInMonth (month + 1) year

/-- The number of a day. -/
def dayNumber (date : Date) : Int :=
  daysBeforeYear date.year + daysBeforeMonth date.year (date.month - 1).toNat + date.day

theorem le_countDaysInMonth (month year : Int) : 28 ≤ countDaysInMonth month year := by
  unfold countDaysInMonth
  repeat' split
  all_goals omega

theorem countDaysInMonth_february (year : Int) :
    countDaysInMonth 2 year =
      if (year % 4 = 0 ∧ year % 100 ≠ 0) ∨ year % 400 = 0 then 29 else 28 := by
  have divides (k : Int) : year.tmod k = 0 ↔ year % k = 0 := by
    rw [← Int.dvd_iff_tmod_eq_zero, Int.dvd_iff_emod_eq_zero]
  simp only [countDaysInMonth, ne_eq, divides]
  rfl

theorem countDaysInMonth_others (year : Int) :
    countDaysInMonth 1 year = 31 ∧ countDaysInMonth 3 year = 31 ∧ countDaysInMonth 4 year = 30 ∧
      countDaysInMonth 5 year = 31 ∧ countDaysInMonth 6 year = 30 ∧
      countDaysInMonth 7 year = 31 ∧ countDaysInMonth 8 year = 31 ∧
      countDaysInMonth 9 year = 30 ∧ countDaysInMonth 10 year = 31 ∧
      countDaysInMonth 11 year = 30 ∧ countDaysInMonth 12 year = 31 :=
  ⟨rfl, rfl, rfl, rfl, rfl, rfl, rfl, rfl, rfl, rfl, rfl⟩

theorem daysBeforeYear_succ (year : Int) :
    daysBeforeYear (year + 1) = daysBeforeYear year + daysBeforeMonth year 12 := by
  have months : daysBeforeMonth year 12 = 337 + countDaysInMonth 2 year := by
    have others := countDaysInMonth_others year
    simp only [daysBeforeMonth]
    norm_num
    omega
  rw [months, countDaysInMonth_february, daysBeforeYear, daysBeforeYear]
  split
  · omega
  · omega

theorem daysBeforeYear_lt {a b : Int} (less : a < b) :
    daysBeforeYear a + 365 ≤ daysBeforeYear b := by
  unfold daysBeforeYear
  omega

theorem daysBeforeMonth_mono (year : Int) {m n : Nat} (le : m ≤ n) :
    daysBeforeMonth year m ≤ daysBeforeMonth year n := by
  refine monotone_nat_of_le_succ (fun month => ?_) le
  have days := le_countDaysInMonth (month + 1) year
  rw [daysBeforeMonth]
  omega

theorem daysBeforeMonth_succ (year : Int) {month : Int} (first : 1 ≤ month) :
    daysBeforeMonth year month.toNat =
      daysBeforeMonth year (month - 1).toNat + countDaysInMonth month year := by
  have next : month.toNat = (month - 1).toNat + 1 := by omega
  have back : (((month - 1).toNat : Nat) : Int) + 1 = month := by omega
  rw [next, daysBeforeMonth, back]

theorem dayNumber_nextMonth (year month day : Int) (first : 1 ≤ month) :
    dayNumber ⟨year, month + 1, day⟩ =
      dayNumber ⟨year, month, day⟩ + countDaysInMonth month year := by
  have step := daysBeforeMonth_succ year first
  have moved : (month + 1 - 1).toNat = month.toNat := by omega
  simp only [dayNumber, moved]
  omega

theorem dayNumber_nextYear (year day : Int) :
    dayNumber ⟨year + 1, 1, day⟩ = dayNumber ⟨year, 12, day⟩ + countDaysInMonth 12 year := by
  have step := daysBeforeMonth_succ year (show 1 ≤ (12 : Int) by decide)
  have twelve : (12 : Int).toNat = 12 := rfl
  have start : daysBeforeMonth (year + 1) ((1 : Int) - 1).toNat = 0 := rfl
  rw [twelve] at step
  simp only [dayNumber, start, daysBeforeYear_succ year]
  omega

theorem dayNumber_day (year month day more : Int) :
    dayNumber ⟨year, month, day + more⟩ = dayNumber ⟨year, month, day⟩ + more := by
  simp only [dayNumber]
  omega

/-- A day of a month, in any year. -/
structure IsDay (date : Date) : Prop where
  firstMonth : 1 ≤ date.month
  lastMonth : date.month ≤ 12
  firstDay : 1 ≤ date.day
  lastDay : date.day ≤ countDaysInMonth date.month date.year

theorem incrMonth_spec (fuel : Nat) (date : Date) (month : 1 ≤ date.month ∧ date.month ≤ 12)
    (day : 1 ≤ date.day) (enough : date.day ≤ 28 * fuel) :
    IsDay (incrMonth fuel date) ∧ dayNumber (incrMonth fuel date) = dayNumber date ∧
      date.year ≤ (incrMonth fuel date).year := by
  induction fuel generalizing date with
  | zero => omega
  | succ fuel ih =>
    have days := le_countDaysInMonth date.month date.year
    rw [incrMonth]
    by_cases past : countDaysInMonth date.month date.year < date.day
    · have split : dayNumber date = dayNumber ⟨date.year, date.month,
          date.day - countDaysInMonth date.month date.year⟩ +
            countDaysInMonth date.month date.year := by
        rw [← dayNumber_day]
        simp
      rw [if_pos past]
      by_cases inside : date.month < 12
      · rw [if_pos inside]
        obtain ⟨isDay, same, later⟩ := ih ⟨date.year, date.month + 1,
          date.day - countDaysInMonth date.month date.year⟩ (by simp only; omega)
            (by simp only; omega) (by simp only; omega)
        refine ⟨isDay, same.trans ?_, later⟩
        rw [dayNumber_nextMonth _ _ _ month.1, split]
      · rw [if_neg inside]
        have last : date.month = 12 := by omega
        obtain ⟨isDay, same, later⟩ := ih ⟨date.year + 1, 1,
          date.day - countDaysInMonth date.month date.year⟩ (by simp only; omega)
            (by simp only; omega) (by simp only; omega)
        refine ⟨isDay, same.trans ?_, by simp only at later; omega⟩
        rw [dayNumber_nextYear, split, last]
    · rw [if_neg past]
      exact ⟨⟨month.1, month.2, day, by omega⟩, rfl, le_rfl⟩

theorem decrMonth_spec (fuel : Nat) (date : Date) (month : 1 ≤ date.month ∧ date.month ≤ 12)
    (day : date.day ≤ countDaysInMonth date.month date.year) (enough : 1 - date.day ≤ 28 * fuel) :
    IsDay (decrMonth fuel date) ∧ dayNumber (decrMonth fuel date) = dayNumber date := by
  induction fuel generalizing date with
  | zero =>
    have first : 1 ≤ date.day := by omega
    exact ⟨⟨month.1, month.2, first, day⟩, rfl⟩
  | succ fuel ih =>
    rw [decrMonth]
    by_cases before : date.day < 1
    · rw [if_pos before]
      by_cases inside : 1 < date.month
      · have days := le_countDaysInMonth (date.month - 1) date.year
        obtain ⟨isDay, same⟩ := ih ⟨date.year, date.month - 1,
          date.day + countDaysInMonth (date.month - 1) date.year⟩ (by simp only; omega)
            (by simp only; omega) (by simp only; omega)
        simp only [if_pos inside]
        refine ⟨isDay, same.trans ?_⟩
        have next := dayNumber_nextMonth date.year (date.month - 1) date.day (by omega)
        rw [Int.sub_add_cancel] at next
        rw [dayNumber_day, ← next]
      · have first : date.month = 1 := by omega
        have days := le_countDaysInMonth 12 (date.year - 1)
        obtain ⟨isDay, same⟩ := ih ⟨date.year - 1, 12,
          date.day + countDaysInMonth 12 (date.year - 1)⟩ (by simp only; omega)
            (by simp only; omega) (by simp only; omega)
        simp only [if_neg inside]
        refine ⟨isDay, same.trans ?_⟩
        have next := dayNumber_nextYear (date.year - 1) date.day
        rw [Int.sub_add_cancel] at next
        rw [dayNumber_day, ← next, ← first]
    · rw [if_neg before]
      exact ⟨⟨month.1, month.2, by omega, day⟩, rfl⟩

theorem tdiv_sub_emod (lower : Int) {max : Int} (positive : 0 < max) :
    (lower - lower % max).tdiv max = lower / max := by
  have whole : lower - lower % max = max * (lower / max) := by
    have := Int.emod_add_mul_ediv lower max
    omega
  rw [whole, Int.mul_tdiv_cancel_left _ (Int.ne_of_gt positive)]

theorem decr_value {lower max : Int} (positive : 0 < max) (below : lower ≤ 0) :
    (if max + lower.tmod max = max then 0 else max + lower.tmod max) = lower % max := by
  have high := Int.emod_lt_of_pos lower positive
  have low := Int.emod_nonneg lower (Int.ne_of_gt positive)
  rw [Int.tmod_eq_emod]
  by_cases divides : 0 ≤ lower ∨ max ∣ lower
  · have zero : lower % max = 0 := by
      rcases divides with above | divides
      · rw [show lower = 0 by omega, Int.zero_emod]
      · exact Int.emod_eq_zero_of_dvd divides
    simp [divides, zero]
  · rw [if_neg divides]
    split <;> omega

theorem carry_eq (lower upper : Int) {max : Int} (positive : 0 < max) :
    carry lower upper max = (lower % max, upper + lower / max) := by
  have none (zero : lower / max = 0) : lower % max = lower := by
    have := Int.emod_add_mul_ediv lower max
    rw [zero] at this
    omega
  unfold carry incr decr
  by_cases above : 0 < lower
  · rw [if_pos above, Int.tmod_eq_emod_of_nonneg above.le, tdiv_sub_emod lower positive]
    by_cases zero : lower / max = 0
    · simp [zero, none zero]
    · simp [zero]
  · rw [if_neg above]
    have value := decr_value positive (show lower ≤ 0 by omega)
    simp only [value, tdiv_sub_emod lower positive]
    by_cases zero : lower / max = 0
    · simp [zero, none zero]
    · simp [zero]

theorem carry_keeps {lower max : Int} (upper : Int) (low : 0 ≤ lower) (high : lower < max) :
    carry lower upper max = (lower, upper) := by
  rw [carry_eq lower upper (by omega), Int.emod_eq_of_lt low high,
    Int.ediv_eq_zero_of_lt low high, Int.add_zero]

theorem addDays_spec {dt : DateTime} (calendar : dt.IsCalendar) {days : Int} (forward : 0 ≤ days)
    (fits : dt.date.day + days < 2 ^ 31) :
    IsDate (addDays dt days).date ∧
      dayNumber (addDays dt days).date = dayNumber dt.date + days := by
  obtain ⟨year, month, day, hour, minute, second⟩ := calendar
  have kept : toInt32 (dt.date.day + days) = dt.date.day + days := toInt32_eq (by omega) fits
  have positive : 0 < dt.date.day + days := by omega
  have result : (addDays dt days).date = incrMonth ((dt.date.day + days).natAbs + 1)
      { dt.date with day := dt.date.day + days } := by
    simp only [addDays, incrAll, kept, carry_keeps _ second.1 (show dt.time.second < 60 by omega),
      carry_keeps _ minute.1 (show dt.time.minute < 60 by omega),
      carry_keeps _ hour.1 (show dt.time.hour < 24 by omega), positive, ↓reduceIte]
  obtain ⟨isDay, same, later⟩ := incrMonth_spec ((dt.date.day + days).natAbs + 1)
    { dt.date with day := dt.date.day + days } month (by simp only; omega) (by simp only; omega)
  rw [result]
  exact ⟨⟨(show 1 ≤ dt.date.year by omega).trans later, isDay.firstMonth, isDay.lastMonth,
    isDay.firstDay, isDay.lastDay⟩, same.trans (dayNumber_day ..)⟩

theorem dayNumber_lt {a b : Date} (month : 1 ≤ a.month ∧ a.month ≤ 12)
    (day : a.day ≤ countDaysInMonth a.month a.year) (other : 1 ≤ b.day) (lt : a.lt b = true) :
    dayNumber a < dayNumber b := by
  have step := daysBeforeMonth_succ a.year month.1
  simp only [Date.lt, Bool.or_eq_true, Bool.and_eq_true, decide_eq_true_eq] at lt
  rcases lt with (year | ⟨year, later⟩) | ⟨⟨year, same⟩, days⟩
  · have whole := daysBeforeYear_succ a.year
    have whole' : daysBeforeYear (a.year + 1) ≤ daysBeforeYear b.year := by
      rcases Int.lt_or_eq_of_le (show a.year + 1 ≤ b.year by omega) with less | equal
      · have := daysBeforeYear_lt less
        omega
      · rw [equal]
    have upTo : daysBeforeMonth a.year a.month.toNat ≤ daysBeforeMonth a.year 12 :=
      daysBeforeMonth_mono a.year (by omega)
    have from0 : daysBeforeMonth b.year 0 ≤ daysBeforeMonth b.year (b.month - 1).toNat :=
      daysBeforeMonth_mono b.year (Nat.zero_le _)
    rw [daysBeforeMonth] at from0
    unfold dayNumber
    omega
  · have upTo : daysBeforeMonth a.year a.month.toNat ≤ daysBeforeMonth a.year (b.month - 1).toNat :=
      daysBeforeMonth_mono a.year (by omega)
    unfold dayNumber
    rw [← year]
    omega
  · unfold dayNumber
    grind

theorem dayNumber_le {a b : Date} (first : IsDate a) (second : IsDate b) (le : a.le b = true) :
    dayNumber a ≤ dayNumber b := by
  simp only [Date.le, Bool.or_eq_true, decide_eq_true_eq] at le
  rcases le with lt | same
  · exact Int.le_of_lt (dayNumber_lt ⟨first.firstMonth, first.lastMonth⟩ first.lastDay
      second.firstDay lt)
  · rw [same]

theorem twoDigits_append_inj {m n : Int} {x y : Bytes} (left : ∀ c ∈ x.head?, isDigit c = false)
    (right : ∀ c ∈ y.head?, isDigit c = false) (same : twoDigits m ++ x = twoDigits n ++ y) :
    m = n ∧ x = y := by
  unfold twoDigits at same
  split at same
  · rename_i small
    split at same
    · exact toString_append_inj left right (List.cons.inj same).2
    · rename_i large
      exact absurd same (zero_toString_ne small large left right)
  · rename_i large
    split at same
    · rename_i small
      exact absurd same.symm (zero_toString_ne small large right left)
    · exact toString_append_inj left right same

theorem getDate_inj {a b : Date} (same : getDate a = getDate b) : a = b := by
  have dash : ∀ text : Bytes, ∀ c ∈ (45 :: text).head?, isDigit c = false := by
    intro text c first
    obtain rfl := Option.some.inj first
    decide
  simp only [getDate, append_assoc, cons_append] at same
  obtain ⟨year, rest⟩ := toString_append_inj (dash _) (dash _) same
  obtain ⟨month, rest⟩ := twoDigits_append_inj (dash _) (dash _) (List.cons.inj rest).2
  have ends : ∀ c ∈ ([] : Bytes).head?, isDigit c = false := by simp
  have last := (List.cons.inj rest).2
  obtain ⟨day, _⟩ := twoDigits_append_inj (x := []) (y := []) ends ends (by simpa using last)
  cases a
  cases b
  grind

theorem getDate_bytes {date : Date} {c : UInt8} (present : c ∈ getDate date) :
    isDigit c = true ∨ c = 45 := by
  have two : ∀ {n : Int}, c ∈ twoDigits n → isDigit c = true ∨ c = 45 := by
    intro n inside
    unfold twoDigits at inside
    rcases mem_append.mp inside with zero | digit
    · split at zero
      · rw [mem_singleton.mp zero]
        decide
      · cases zero
    · exact toString_bytes digit
  simp only [getDate, mem_append, mem_cons] at present
  rcases present with (year | dash | month) | dash | day
  · exact toString_bytes year
  · exact .inr dash
  · exact two month
  · exact .inr dash
  · exact two day

end RssDisk.DateTime
