import RssDisk.BasefuncStd

/-!
# Dates and times

`date_time`: a calendar date with a time of day. Every change of a field is followed by `incr_all`,
which carries seconds into minutes, minutes into hours, hours into days and days into months and
years. A text is scanned with one of four formats; a time without a date leaves the date invalid.
-/

namespace RssDisk

open BasefuncStd

/-- `date_time::date__`. -/
structure Date where
  year : Int := 0
  month : Int := 0
  day : Int := 0
deriving DecidableEq, Repr

/-- `date__::operator<`. -/
def Date.lt (a b : Date) : Bool :=
  a.year < b.year || (a.year = b.year && a.month < b.month) ||
    (a.year = b.year && a.month = b.month && a.day < b.day)

/-- `date__::operator<=`. -/
def Date.le (a b : Date) : Bool := a.lt b || a = b

/-- `date_time::time__`. -/
structure Time where
  hour : Int := 0
  minute : Int := 0
  second : Int := 0
deriving DecidableEq, Repr

/-- `time__::operator<`. -/
def Time.lt (a b : Time) : Bool :=
  a.hour < b.hour || (a.hour = b.hour && a.minute < b.minute) ||
    (a.hour = b.hour && a.minute = b.minute && a.second < b.second)

structure DateTime where
  date : Date := {}
  time : Time := {}
  isValidDate : Bool := false
deriving DecidableEq, Repr

namespace DateTime

def countDaysInMonth (month year : Int) : Int :=
  if month = 4 ∨ month = 6 ∨ month = 9 ∨ month = 11 then 30
  else if month = 2 then
    if (year.tmod 4 = 0 ∧ year.tmod 100 ≠ 0) ∨ year.tmod 400 = 0 then 29 else 28
  else 31

/-- `incr`: carry whole multiples of `max` from one field into the next. -/
def incr (lower upper max : Int) : Int × Int :=
  let carry := (lower - lower.tmod max).tdiv max
  if carry ≠ 0 then (lower.tmod max, upper + carry) else (lower, upper)

/-- `decr`: borrow from the next field until a field is not negative. -/
def decr (lower upper max : Int) : Int × Int :=
  let value := max + lower.tmod max
  let value := if value = max then 0 else value
  let carry := (lower - value).tdiv max
  if carry ≠ 0 then (value, upper + carry) else (lower, upper)

/-- One field of `incr_all`. -/
def carry (lower upper max : Int) : Int × Int :=
  if 0 < lower then incr lower upper max else decr lower upper max

/-- `incr_month`: carry days into months, with the number of months left to try. -/
def incrMonth : Nat → Date → Date
  | 0, date => date
  | fuel + 1, date =>
    let maxDay := countDaysInMonth date.month date.year
    if maxDay < date.day then
      if date.month < 12 then
        incrMonth fuel { date with month := date.month + 1, day := date.day - maxDay }
      else
        incrMonth fuel { year := date.year + 1, month := 1, day := date.day - maxDay }
    else date

/-- `decr_month`: borrow days from months, with the number of months left to try. -/
def decrMonth : Nat → Date → Date
  | 0, date => date
  | fuel + 1, date =>
    if date.day < 1 then
      let earlier : Date :=
        if 1 < date.month then { date with month := date.month - 1 }
        else { date with year := date.year - 1, month := 12 }
      decrMonth fuel
        { earlier with day := date.day + countDaysInMonth earlier.month earlier.year }
    else date

/-- `incr_all` on the fields that are read afterwards. A month has at least 28 days, so the
distance of the day from zero bounds the number of months. -/
def incrAll (dt : DateTime) : DateTime :=
  let (second, minute) := carry dt.time.second dt.time.minute 60
  let (minute, hour) := carry minute dt.time.hour 60
  let (hour, day) := carry hour dt.date.day 24
  let date := { dt.date with day }
  let date := if 0 < day then incrMonth (day.natAbs + 1) date else decrMonth (day.natAbs + 1) date
  { dt with date, time := { hour, minute, second } }

/-- `incr_month` with room on the stack for a number of its calls, of which each calls the next one;
`none` when the room does not suffice. -/
def incrMonthOn : Nat → Date → Option Date
  | 0, _ => none
  | stack + 1, date =>
    let maxDay := countDaysInMonth date.month date.year
    if maxDay < date.day then
      if date.month < 12 then
        incrMonthOn stack { date with month := date.month + 1, day := date.day - maxDay }
      else
        incrMonthOn stack { year := date.year + 1, month := 1, day := date.day - maxDay }
    else some date

/-- `decr_month` with room on the stack for a number of its calls. -/
def decrMonthOn : Nat → Date → Option Date
  | 0, _ => none
  | stack + 1, date =>
    if date.day < 1 then
      let earlier : Date :=
        if 1 < date.month then { date with month := date.month - 1 }
        else { date with year := date.year - 1, month := 12 }
      decrMonthOn stack
        { earlier with day := date.day + countDaysInMonth earlier.month earlier.year }
    else some date

/-- `incr_all` with room on the stack for a number of calls of `incr_month` or `decr_month`. -/
def incrAllOn (stack : Nat) (dt : DateTime) : Option DateTime :=
  let (second, minute) := carry dt.time.second dt.time.minute 60
  let (minute, hour) := carry minute dt.time.hour 60
  let (hour, day) := carry hour dt.date.day 24
  let date := { dt.date with day }
  (if 0 < day then incrMonthOn stack date else decrMonthOn stack date).map
    (fun date => { dt with date, time := { hour, minute, second } })

def addDays (dt : DateTime) (days : Int) : DateTime :=
  { dt with date := { dt.date with day := toInt32 (dt.date.day + days) } }.incrAll

def addSecs (dt : DateTime) (secs : Int) : DateTime :=
  { dt with time := { dt.time with second := toInt32 (dt.time.second + secs) } }.incrAll

/-- `date_time::operator<`. -/
def lt (a b : DateTime) : Bool := a.date.lt b.date || (a.date = b.date && a.time.lt b.time)

/-- A number with two digits at least. -/
def twoDigits (n : Int) : Bytes := (if n < 10 then [48] else []) ++ BasefuncStd.toString n

/-- `get_date`, with a dash between the fields. -/
def getDate (date : Date) : Bytes :=
  BasefuncStd.toString date.year ++ 45 :: twoDigits date.month ++ 45 :: twoDigits date.day

/-- A date of the calendar with a year of four digits, and a time of day. -/
def IsCalendar (dt : DateTime) : Prop :=
  (1000 ≤ dt.date.year ∧ dt.date.year ≤ 9999) ∧ (1 ≤ dt.date.month ∧ dt.date.month ≤ 12) ∧
    (1 ≤ dt.date.day ∧ dt.date.day ≤ countDaysInMonth dt.date.month dt.date.year) ∧
    (0 ≤ dt.time.hour ∧ dt.time.hour ≤ 23) ∧ (0 ≤ dt.time.minute ∧ dt.time.minute ≤ 59) ∧
    (0 ≤ dt.time.second ∧ dt.time.second ≤ 59)

instance (dt : DateTime) : Decidable dt.IsCalendar := by
  unfold IsCalendar
  infer_instance

/-- `get_time`, with a colon between the fields. -/
def getTime (time : Time) : Bytes :=
  twoDigits time.hour ++ 58 :: twoDigits time.minute ++ 58 :: twoDigits time.second

def getDateTime (dt : DateTime) : Bytes := getDate dt.date ++ 32 :: getTime dt.time

/-- A conversion of `sscanf`. -/
inductive Scan where
  /-- `%d`. -/
  | number
  | space
  | char (c : UInt8)
deriving DecidableEq, Repr

/-- `%d`: the number at the start of a text, after white space, and what follows it. The value is
cut to `std::strtol`'s range and then to an `int`. -/
def scanNumber (text : Bytes) : Option (Int × Bytes) :=
  let text := text.dropWhile isSpace
  let (negative, rest) : Bool × Bytes :=
    match text with
    | 45 :: rest => (true, rest)
    | 43 :: rest => (false, rest)
    | rest => (false, rest)
  let digits := rest.takeWhile isDigit
  if digits = [] then none
  else
    let value : Int := digitsValue digits
    let value := if negative then max (-value) (-2 ^ 63) else min value (2 ^ 63 - 1)
    some (toInt32 value, rest.dropWhile isDigit)

/-- `sscanf`: the numbers that are read before the text stops matching the format. -/
def sscanf : List Scan → Bytes → List Int
  | [], _ => []
  | .number :: format, text =>
    match scanNumber text with
    | some (value, rest) => value :: sscanf format rest
    | none => []
  | .space :: format, text => sscanf format (text.dropWhile isSpace)
  | .char c :: format, text =>
    match text with
    | d :: rest => if d = c then sscanf format rest else []
    | [] => []

/-- The scan of `yyyy-MM-dd`. -/
def dateFormat : List Scan := [.number, .char 45, .number, .char 45, .number]

/-- The scan of `HH:mm:ss`. -/
def timeFormat : List Scan := [.number, .char 58, .number, .char 58, .number]

/-- `parse_date_time` with the format of a text of 19, 10, 8 or 5 characters. -/
def parseDateTime (text : Bytes) : Option DateTime :=
  let scanned := text.takeWhile (· ≠ 0)
  if text.length = 19 then
    match sscanf (dateFormat ++ .space :: timeFormat) scanned with
    | [year, month, day, hour, minute, second] =>
      some (incrAll { date := { year, month, day }, time := { hour, minute, second },
                      isValidDate := true })
    | _ => none
  else if text.length = 10 then
    match sscanf dateFormat scanned with
    | [year, month, day] => some (incrAll { date := { year, month, day }, isValidDate := true })
    | _ => none
  else if text.length = 8 then
    match sscanf timeFormat scanned with
    | [hour, minute, second] => some (incrAll { time := { hour, minute, second } })
    | _ => none
  else if text.length = 5 then
    match sscanf [.number, .char 58, .number] scanned with
    | [hour, minute] => some (incrAll { time := { hour, minute } })
    | _ => none
  else none

/-- `parse_date_time` of a date without a time; a text of eight characters is taken for a time. -/
def parseDate (text : Bytes) : Option Date :=
  let scanned := text.takeWhile (· ≠ 0)
  if text.length = 8 then
    match sscanf timeFormat scanned with
    | [hour, minute, second] => some (incrAll { time := { hour, minute, second } }).date
    | _ => none
  else
    match sscanf dateFormat scanned with
    | [year, month, day] => some (incrAll { date := { year, month, day } }).date
    | _ => none

/-- `get_time_from_epoch`, with the conversion of local time as `mktime`. -/
def getTimeFromEpoch (mktime : Date → Time → Int64) (dt : DateTime) : Int64 :=
  if dt.isValidDate then mktime dt.date dt.time else 0

theorem twoDigits_length {n : Int} (low : 0 ≤ n) (high : n ≤ 99) : (twoDigits n).length = 2 := by
  have each : ∀ k < 100, (twoDigits (k : Nat)).length = 2 := by decide
  have same : ((n.toNat : Nat) : Int) = n := Int.toNat_of_nonneg low
  rw [← same]
  exact each n.toNat (by omega)

theorem countDaysInMonth_le (month year : Int) : countDaysInMonth month year ≤ 31 := by
  unfold countDaysInMonth
  repeat' split
  all_goals omega

theorem getDateTime_length {dt : DateTime} (calendar : dt.IsCalendar) :
    (getDateTime dt).length = 19 := by
  obtain ⟨year, month, day, hour, minute, second⟩ := calendar
  have most := countDaysInMonth_le dt.date.month dt.date.year
  have four : (BasefuncStd.toString dt.date.year).length = 4 :=
    BasefuncStd.toString_length_four year.1 year.2
  simp only [getDateTime, getDate, getTime, List.length_append, List.length_cons, four,
    twoDigits_length (show 0 ≤ dt.date.month by omega) (by omega),
    twoDigits_length (show 0 ≤ dt.date.day by omega) (by omega),
    twoDigits_length hour.1 (by omega), twoDigits_length minute.1 (by omega),
    twoDigits_length second.1 (by omega)]

end DateTime

end RssDisk
