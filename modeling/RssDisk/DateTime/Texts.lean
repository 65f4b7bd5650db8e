import Mathlib.Data.List.TakeWhile
import RssDisk.Calendar

/-!
# Texts of dates and times

A number in a fixed width is scanned back, and with it the texts of dates and times in the formats
that `parse_date_time` takes. A date, with or without a time, is read back as it is. A time alone is
read, but only the flag of the time is set, so the date is not valid.
-/

namespace RssDisk.DateTime

open BasefuncStd List

/-- The last decimal digits of a number. -/
def padded : Nat → Nat → Bytes
  | 0, _ => []
  | width + 1, n => padded width (n / 10) ++ [UInt8.ofNat (48 + n % 10)]

theorem padded_length (width n : Nat) : (padded width n).length = width := by
  induction width generalizing n with
  | zero => rfl
  | succ width ih => rw [padded, length_append, ih]; rfl

theorem padded_isDigit (width n : Nat) : ∀ c ∈ padded width n, isDigit c = true := by
  induction width generalizing n with
  | zero => exact fun c present => absurd present not_mem_nil
  | succ width ih =>
    intro c present
    rcases mem_append.mp present with early | last
    · exact ih _ c early
    · grind [digit_byte]

theorem digitsValue_padded (width n : Nat) (small : n < 10 ^ width) :
    digitsValue (padded width n) = n := by
  induction width generalizing n with
  | zero =>
    have zero : n = 0 := by simpa using small
    rw [zero]
    rfl
  | succ width ih =>
    have front := ih (n / 10) (by rw [pow_succ] at small; omega)
    have last := (digit_byte (n % 10) (Nat.mod_lt n (by decide))).2
    rw [digitsValue] at front ⊢
    rw [padded, foldl_append, front, foldl_cons, foldl_nil, last]
    omega

theorem scanNumber_padded {width n : Nat} (wide : 0 < width) (small : n < 10 ^ width)
    (fits : n < 2 ^ 31) {rest : Bytes} (ends : ∀ c ∈ rest.head?, isDigit c = false) :
    scanNumber (padded width n ++ rest) = some ((n : Int), rest) := by
  have digits := padded_isDigit width n
  have filled : padded width n ≠ [] := by
    rw [← length_pos_iff, padded_length]
    exact wide
  obtain ⟨first, others, text⟩ := exists_cons_of_ne_nil filled
  obtain ⟨noSpace, noMinus, noPlus⟩ := isDigit_spec (digits first (by rw [text]; simp))
  have taken := takeWhile_digits digits ends
  have dropped : (padded width n ++ rest).dropWhile isDigit = rest := by
    rw [dropWhile_append_of_pos digits]
    cases rest with
    | nil => rfl
    | cons c rest => simp [ends c rfl]
  have read := digitsValue_padded width n small
  have value : min ((n : Nat) : Int) (2 ^ 63 - 1) = n := by omega
  rw [text, cons_append] at taken dropped ⊢
  rw [text] at read
  have skip : (first :: (others ++ rest)).dropWhile isSpace = first :: (others ++ rest) :=
    dropWhile_cons_of_neg (by simp [noSpace])
  simp only [scanNumber, skip]
  split
  · grind
  · grind
  · simp only [taken, dropped, cons_ne_nil, ↓reduceIte, read, Bool.false_eq_true, value]
    rw [toInt32_eq (by omega) (by omega)]

theorem sscanf_padded {width : Nat} {n : Int} (wide : 0 < width) (low : 0 ≤ n)
    (small : n < 10 ^ width) (fits : n < 2 ^ 31) (format : List Scan) {rest : Bytes}
    (ends : ∀ c ∈ rest.head?, isDigit c = false) :
    sscanf (.number :: format) (padded width n.toNat ++ rest) = n :: sscanf format rest := by
  have same : ((n.toNat : Nat) : Int) = n := Int.toNat_of_nonneg low
  have less : n.toNat < 10 ^ width := by
    have cast : ((n.toNat : Nat) : Int) < ((10 ^ width : Nat) : Int) := by
      rw [same]
      exact_mod_cast small
    exact_mod_cast cast
  rw [sscanf, scanNumber_padded wide less (by omega) ends, same]

/-- The text of a date: `yyyy-MM-dd`. -/
def dateText (date : Date) : Bytes :=
  padded 4 date.year.toNat ++ 45 :: (padded 2 date.month.toNat ++ 45 :: padded 2 date.day.toNat)

/-- The text of a time: `HH:mm:ss`. -/
def timeText (time : Time) : Bytes :=
  padded 2 time.hour.toNat ++ 58 :: (padded 2 time.minute.toNat ++ 58 :: padded 2 time.second.toNat)

/-- The text of a time without seconds: `HH:mm`. -/
def shortTimeText (time : Time) : Bytes :=
  padded 2 time.hour.toNat ++ 58 :: padded 2 time.minute.toNat

structure IsTime (time : Time) : Prop where
  hour : 0 ≤ time.hour ∧ time.hour ≤ 23
  minute : 0 ≤ time.minute ∧ time.minute ≤ 59
  second : 0 ≤ time.second ∧ time.second ≤ 59

/-- A date of the calendar with a year of at most four digits. -/
structure IsPrintable (date : Date) : Prop where
  year : 0 ≤ date.year ∧ date.year ≤ 9999
  month : 1 ≤ date.month ∧ date.month ≤ 12
  day : 1 ≤ date.day ∧ date.day ≤ countDaysInMonth date.month date.year

/-- A character of a text of a date or a time. -/
def IsPlain (c : UInt8) : Prop := isDigit c = true ∨ c = 45 ∨ c = 58 ∨ c = 32

theorem dateText_plain (date : Date) : ∀ c ∈ dateText date, IsPlain c := by
  intro c present
  simp only [dateText, mem_append, mem_cons] at present
  rcases present with year | dash | month | dash | day
  · exact .inl (padded_isDigit _ _ c year)
  · exact .inr (.inl dash)
  · exact .inl (padded_isDigit _ _ c month)
  · exact .inr (.inl dash)
  · exact .inl (padded_isDigit _ _ c day)

theorem timeText_plain (time : Time) : ∀ c ∈ timeText time, IsPlain c := by
  intro c present
  simp only [timeText, mem_append, mem_cons] at present
  rcases present with hour | colon | minute | colon | second
  · exact .inl (padded_isDigit _ _ c hour)
  · exact .inr (.inr (.inl colon))
  · exact .inl (padded_isDigit _ _ c minute)
  · exact .inr (.inr (.inl colon))
  · exact .inl (padded_isDigit _ _ c second)

theorem takeWhile_plain {text : Bytes} (plain : ∀ c ∈ text, IsPlain c) :
    text.takeWhile (· ≠ 0) = text := by
  rw [takeWhile_eq_self_iff]
  intro c present
  have differs : c ≠ 0 := by
    rintro rfl
    rcases plain 0 present with digit | dash | colon | space
    · exact absurd digit (by decide)
    · exact absurd dash (by decide)
    · exact absurd colon (by decide)
    · exact absurd space (by decide)
  simpa using differs

theorem head_not_digit {c : UInt8} (other : isDigit c = false) (text : Bytes) :
    ∀ d ∈ (c :: text).head?, isDigit d = false := by
  intro d first
  rwa [← Option.some.inj first]

theorem sscanf_dateText {date : Date} (printable : IsPrintable date) (format : List Scan)
    {rest : Bytes} (ends : ∀ c ∈ rest.head?, isDigit c = false) :
    sscanf (dateFormat ++ format) (dateText date ++ rest) =
      date.year :: date.month :: date.day :: sscanf format rest := by
  obtain ⟨year, month, day⟩ := printable
  have most := countDaysInMonth_le date.month date.year
  have dash := head_not_digit (show isDigit 45 = false by decide)
  simp only [dateText, dateFormat, append_assoc, cons_append, nil_append]
  rw [sscanf_padded (by decide) (by omega) (by omega) (by omega) _ (dash _), sscanf, if_pos rfl,
    sscanf_padded (by decide) (by omega) (by omega) (by omega) _ (dash _), sscanf, if_pos rfl,
    sscanf_padded (by decide) (by omega) (by omega) (by omega) _ ends]

theorem sscanf_timeText {time : Time} (isTime : IsTime time) :
    sscanf timeFormat (timeText time) = [time.hour, time.minute, time.second] := by
  obtain ⟨hour, minute, second⟩ := isTime
  have colon := head_not_digit (show isDigit 58 = false by decide)
  have last := @sscanf_padded 2 time.second (by decide) second.1 (by omega) (by omega) [] []
    (fun c none => by cases none)
  rw [append_nil] at last
  rw [timeText, timeFormat, sscanf_padded (by decide) hour.1 (by omega) (by omega) _ (colon _),
    sscanf, if_pos rfl, sscanf_padded (by decide) minute.1 (by omega) (by omega) _ (colon _),
    sscanf, if_pos rfl, last]
  rfl

theorem incrAll_eq {dt : DateTime} (date : IsPrintable dt.date) (time : IsTime dt.time) :
    dt.incrAll = dt := by
  obtain ⟨hour, minute, second⟩ := time
  have positive : 0 < dt.date.day := by
    have := date.day
    omega
  have inside : ¬ countDaysInMonth dt.date.month dt.date.year < dt.date.day := by
    have := date.day
    omega
  simp only [incrAll, carry_keeps _ second.1 (show dt.time.second < 60 by omega),
    carry_keeps _ minute.1 (show dt.time.minute < 60 by omega),
    carry_keeps _ hour.1 (show dt.time.hour < 24 by omega), positive, ↓reduceIte, incrMonth, inside]

theorem parseDateTime_dateTime {date : Date} {time : Time} (printable : IsPrintable date)
    (isTime : IsTime time) :
    parseDateTime (dateText date ++ 32 :: timeText time) = some ⟨date, time, true⟩ := by
  have plain : ∀ c ∈ dateText date ++ 32 :: timeText time, IsPlain c := by
    intro c present
    rcases mem_append.mp present with front | back
    · exact dateText_plain date c front
    · rcases mem_cons.mp back with space | later
      · exact .inr (.inr (.inr space))
      · exact timeText_plain time c later
  have size : (dateText date ++ 32 :: timeText time).length = 19 := by
    simp [dateText, timeText, padded_length]
  have scanned := sscanf_dateText printable (.space :: timeFormat)
    (head_not_digit (show isDigit 32 = false by decide) (timeText time))
  have skip : (32 :: timeText time).dropWhile isSpace = timeText time := by
    have first : isSpace 32 = true := by decide
    have digit : ∀ c ∈ (timeText time).head?, isSpace c = false := by
      intro c present
      have width := padded_length 2 time.hour.toNat
      rcases hour : padded 2 time.hour.toNat with _ | ⟨d, more⟩
      · grind
      · rw [timeText, hour] at present
        have isDigit := padded_isDigit 2 time.hour.toNat d (by rw [hour]; simp)
        rw [← Option.some.inj present]
        exact (isDigit_spec isDigit).1
    rw [dropWhile_cons_of_pos first]
    cases text : timeText time with
    | nil => rfl
    | cons c rest =>
      rw [dropWhile_cons_of_neg]
      grind
  rw [sscanf, skip, sscanf_timeText isTime] at scanned
  have exact_ := @incrAll_eq ⟨date, time, true⟩ printable isTime
  simp only [parseDateTime, size, ↓reduceIte, takeWhile_plain plain, scanned]
  exact congrArg some exact_

theorem twoDigits_eq {n : Int} (low : 0 ≤ n) (high : n ≤ 99) : twoDigits n = padded 2 n.toNat := by
  have each : ∀ k < 100, twoDigits (k : Nat) = padded 2 k := by decide
  have same : ((n.toNat : Nat) : Int) = n := Int.toNat_of_nonneg low
  rw [← same]
  exact each n.toNat (by omega)

theorem getDateTime_eq {dt : DateTime} (calendar : dt.IsCalendar) :
    getDateTime dt = dateText dt.date ++ 32 :: timeText dt.time := by
  obtain ⟨year, month, day, hour, minute, second⟩ := calendar
  have most := countDaysInMonth_le dt.date.month dt.date.year
  have one : ∀ k < 10, natText k = padded 1 k := by decide
  have four : BasefuncStd.toString dt.date.year = padded 4 dt.date.year.toNat := by
    rw [BasefuncStd.toString, if_neg (by omega),
      show dt.date.year.natAbs = dt.date.year.toNat by omega, natText_div_ten (by omega),
      natText_div_ten (by omega), natText_div_ten (by omega), one _ (by omega)]
    rfl
  rw [getDateTime, getDate, getTime, four, twoDigits_eq (by omega) (by omega),
    twoDigits_eq (by omega) (by omega), twoDigits_eq hour.1 (by omega),
    twoDigits_eq minute.1 (by omega), twoDigits_eq second.1 (by omega)]
  simp only [dateText, timeText, append_assoc, cons_append]

theorem parseDateTime_getDateTime {dt : DateTime} (calendar : dt.IsCalendar) :
    parseDateTime (getDateTime dt) = some ⟨dt.date, dt.time, true⟩ := by
  rw [getDateTime_eq calendar]
  obtain ⟨year, month, day, time⟩ := calendar
  exact parseDateTime_dateTime ⟨⟨by omega, year.2⟩, month, day⟩ ⟨time.1, time.2.1, time.2.2⟩

end RssDisk.DateTime
