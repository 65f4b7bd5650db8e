import RssDisk.Calendar

/-!
# Adding to a date and a time

`add_days`, `add_hours`, `add_mins` and `add_secs` add an amount to one field and call `incr_all`,
which carries or borrows from the milliseconds up to the years. Remainders in the source round to
zero and those of the calendar do not, so the fields of a negative amount are the place to look at:
`incr_all` keeps the instant that the fields denote and brings them into range, for amounts in both
directions and in years before the first one. `incr_month` and `decr_month` call themselves once for
each month, and a result that is too many months away does not come about.
-/

namespace RssDisk.DateTime

/-- `date_time` with its milliseconds. -/
structure Stamp where
  dt : DateTime
  thousendSecond : Int := 0
deriving DecidableEq

namespace Stamp

/-- `incr_all`, from the milliseconds on. -/
def incrAll (stack : Nat) (s : Stamp) : Option Stamp :=
  let (thousendSecond, second) := carry s.thousendSecond s.dt.time.second 1000
  (incrAllOn stack { s.dt with time := { s.dt.time with second } }).map
    (fun dt => ⟨dt, thousendSecond⟩)

def addSecs (stack : Nat) (s : Stamp) (sec : Int) : Option Stamp :=
  { s with dt.time.second := toInt32 (s.dt.time.second + sec) }.incrAll stack

def addMins (stack : Nat) (s : Stamp) (min : Int) : Option Stamp :=
  { s with dt.time.minute := toInt32 (s.dt.time.minute + min) }.incrAll stack

def addHours (stack : Nat) (s : Stamp) (hour : Int) : Option Stamp :=
  { s with dt.time.hour := toInt32 (s.dt.time.hour + hour) }.incrAll stack

def addDays (stack : Nat) (s : Stamp) (day : Int) : Option Stamp :=
  { s with dt.date.day := toInt32 (s.dt.date.day + day) }.incrAll stack

/-- `date_time::operator<`. -/
def lt (a b : Stamp) : Bool :=
  a.dt.date.lt b.dt.date || (a.dt.date = b.dt.date &&
    (a.dt.time.lt b.dt.time || (a.dt.time = b.dt.time && a.thousendSecond < b.thousendSecond)))

/-- All fields are in range. -/
structure Normal (s : Stamp) : Prop where
  day : IsDay s.dt.date
  hour : 0 ≤ s.dt.time.hour ∧ s.dt.time.hour < 24
  minute : 0 ≤ s.dt.time.minute ∧ s.dt.time.minute < 60
  second : 0 ≤ s.dt.time.second ∧ s.dt.time.second < 60
  thousend : 0 ≤ s.thousendSecond ∧ s.thousendSecond < 1000

/-- The milliseconds of the day that some fields denote, in range or not. -/
def msec (s : Stamp) : Int :=
  ((s.dt.time.hour * 60 + s.dt.time.minute) * 60 + s.dt.time.second) * 1000 + s.thousendSecond

/-- The milliseconds up to the instant that some fields denote. -/
def instant (s : Stamp) : Int := dayNumber s.dt.date * 86400000 + s.msec

end Stamp

theorem date_cases {a b : Date} (first : IsDay a) (second : IsDay b) :
    a.lt b = true ∧ dayNumber a < dayNumber b ∨ a = b ∨
      (a.lt b = false ∧ a ≠ b) ∧ dayNumber b < dayNumber a := by
  have earlier := dayNumber_lt (a := a) (b := b) ⟨first.firstMonth, first.lastMonth⟩ first.lastDay
    second.firstDay
  have later := dayNumber_lt (a := b) (b := a) ⟨second.firstMonth, second.lastMonth⟩ second.lastDay
    first.firstDay
  by_cases less : a.lt b = true
  · exact .inl ⟨less, earlier less⟩
  · by_cases same : a = b
    · exact .inr (.inl same)
    · refine .inr (.inr ⟨⟨by simpa using less, same⟩, later ?_⟩)
      obtain ⟨_, _, _⟩ := a
      obtain ⟨_, _, _⟩ := b
      simp only [Date.lt, Bool.or_eq_true, Bool.and_eq_true, decide_eq_true_eq,
        Date.mk.injEq] at less same ⊢
      omega

/-- The number of a month. -/
def months (date : Date) : Int := date.year * 12 + date.month

/-- How many months two dates are apart. -/
def monthsBetween (a b : Date) : Nat := (months a - months b).natAbs

theorem months_le {a b : Date} (first : IsDay a) (month : 1 ≤ b.month ∧ b.month ≤ 12)
    (day : 1 ≤ b.day) (le : dayNumber b ≤ dayNumber a) : months b ≤ months a := by
  by_contra later
  have less : a.lt b = true := by
    have := first.firstMonth
    have := first.lastMonth
    simp only [Date.lt, months, Bool.or_eq_true, Bool.and_eq_true, decide_eq_true_eq] at later ⊢
    omega
  have := dayNumber_lt ⟨first.firstMonth, first.lastMonth⟩ first.lastDay day less
  omega

theorem le_months {a b : Date} (first : IsDay a) (month : 1 ≤ b.month ∧ b.month ≤ 12)
    (day : b.day ≤ countDaysInMonth b.month b.year) (le : dayNumber a ≤ dayNumber b) :
    months a ≤ months b := by
  by_contra later
  have less : b.lt a = true := by
    have := first.firstMonth
    have := first.lastMonth
    simp only [Date.lt, months, Bool.or_eq_true, Bool.and_eq_true, decide_eq_true_eq] at later ⊢
    omega
  have := dayNumber_lt month day first.firstDay less
  omega

theorem eq_of_dayNumber {a b : Date} (first : IsDay a) (second : IsDay b)
    (same : dayNumber a = dayNumber b) : a = b := by
  rcases date_cases first second with ⟨-, days⟩ | equal | ⟨-, days⟩
  · omega
  · exact equal
  · omega

/-- The calls of `incr_month` reach the day of the calendar exactly when the stack has room for one
more than the months on the way. -/
theorem incrMonthOn_eq (stack : Nat) (date : Date) (month : 1 ≤ date.month ∧ date.month ≤ 12)
    (day : 1 ≤ date.day) {t : Date} (isDay : IsDay t) (same : dayNumber t = dayNumber date) :
    incrMonthOn stack date = if months t - months date < stack then some t else none := by
  induction stack generalizing date with
  | zero =>
    have := months_le isDay month day same.ge
    rw [incrMonthOn, if_neg (by omega)]
  | succ stack ih =>
    rw [incrMonthOn]
    by_cases past : countDaysInMonth date.month date.year < date.day
    · have split : dayNumber date = dayNumber ⟨date.year, date.month,
          date.day - countDaysInMonth date.month date.year⟩ +
            countDaysInMonth date.month date.year := by
        rw [← dayNumber_day]
        simp
      rw [if_pos past]
      by_cases inside : date.month < 12
      · rw [if_pos inside, ih _ (by simp only; omega) (by simp only; omega)
          (by rw [dayNumber_nextMonth _ _ _ month.1, ← split, same])]
        simp only [months, Nat.cast_add, Nat.cast_one]
        grind
      · have last : date.month = 12 := by omega
        rw [if_neg inside, ih _ (by simp) (by simp only; omega)
          (by rw [dayNumber_nextYear, ← last, ← split, same])]
        simp only [months, Nat.cast_add, Nat.cast_one]
        congr 1
        simp only [eq_iff_iff]
        omega
    · have here : t = date := eq_of_dayNumber isDay ⟨month.1, month.2, day, by omega⟩ same
      rw [if_neg past, here, if_pos (by omega)]

/-- The calls of `decr_month` reach the day of the calendar exactly when the stack has room for one
more than the months on the way. -/
theorem decrMonthOn_eq (stack : Nat) (date : Date) (month : 1 ≤ date.month ∧ date.month ≤ 12)
    (day : date.day ≤ countDaysInMonth date.month date.year) {t : Date} (isDay : IsDay t)
    (same : dayNumber t = dayNumber date) :
    decrMonthOn stack date = if months date - months t < stack then some t else none := by
  induction stack generalizing date with
  | zero =>
    have := le_months isDay month day same.le
    rw [decrMonthOn, if_neg (by omega)]
  | succ stack ih =>
    rw [decrMonthOn]
    by_cases before : date.day < 1
    · rw [if_pos before]
      by_cases inside : 1 < date.month
      · have next := dayNumber_nextMonth date.year (date.month - 1) date.day (by omega)
        rw [Int.sub_add_cancel] at next
        simp only [if_pos inside]
        rw [ih _ (by simp only; omega) (by simp only; omega)
          (by rw [dayNumber_day, ← next, same])]
        simp only [months, Nat.cast_add, Nat.cast_one]
        grind
      · have first : date.month = 1 := by omega
        have next := dayNumber_nextYear (date.year - 1) date.day
        rw [Int.sub_add_cancel] at next
        simp only [if_neg inside]
        rw [ih _ (by simp) (by simp only; omega)
          (by rw [dayNumber_day, ← next, same, ← first])]
        simp only [months, Nat.cast_add, Nat.cast_one]
        congr 1
        simp only [eq_iff_iff]
        omega
    · have here : t = date := eq_of_dayNumber isDay ⟨month.1, month.2, by omega, day⟩ same
      rw [if_neg before, here, if_pos (by omega)]

theorem incrAll_time (dt : DateTime) :
    let minute := dt.time.minute + dt.time.second / 60
    let hour := dt.time.hour + minute / 60
    dt.incrAll.time = ⟨hour % 24, minute % 60, dt.time.second % 60⟩ := by
  simp only [incrAll, carry_eq _ _ (show (0 : Int) < 60 by decide),
    carry_eq _ _ (show (0 : Int) < 24 by decide)]

theorem incrAll_date {dt : DateTime} (month : 1 ≤ dt.date.month ∧ dt.date.month ≤ 12) :
    let minute := dt.time.minute + dt.time.second / 60
    let hour := dt.time.hour + minute / 60
    IsDay dt.incrAll.date ∧ dayNumber dt.incrAll.date = dayNumber dt.date + hour / 24 := by
  intro minute hour
  have moved : dayNumber { dt.date with day := dt.date.day + hour / 24 } =
      dayNumber dt.date + hour / 24 := dayNumber_day ..
  simp only [incrAll, carry_eq _ _ (show (0 : Int) < 60 by decide),
    carry_eq _ _ (show (0 : Int) < 24 by decide)]
  rw [← moved]
  split
  · obtain ⟨isDay, same, -⟩ := incrMonth_spec ((dt.date.day + hour / 24).natAbs + 1)
      { dt.date with day := dt.date.day + hour / 24 } month (by simp only; omega)
      (by simp only; omega)
    exact ⟨isDay, same⟩
  · have days := le_countDaysInMonth dt.date.month dt.date.year
    exact decrMonth_spec _ { dt.date with day := dt.date.day + hour / 24 } month
      (by simp only; omega) (by simp only; omega)

/-- `incr_all` ends exactly when the stack has room for one call more than the months on the way. -/
theorem incrAllOn_eq (stack : Nat) {dt : DateTime}
    (month : 1 ≤ dt.date.month ∧ dt.date.month ≤ 12) :
    incrAllOn stack dt =
      if monthsBetween dt.date dt.incrAll.date < stack then some dt.incrAll else none := by
  obtain ⟨isDay, same⟩ := incrAll_date month
  rw [← dayNumber_day] at same
  have days := le_countDaysInMonth dt.date.month dt.date.year
  have time := incrAll_time dt
  simp only [incrAllOn, carry_eq _ _ (show (0 : Int) < 60 by decide),
    carry_eq _ _ (show (0 : Int) < 24 by decide)]
  simp only at time
  rw [← time]
  generalize dt.date.day + (dt.time.hour + (dt.time.minute + dt.time.second / 60) / 60) / 24 = day
    at same ⊢
  have reached : (if 0 < day then incrMonthOn stack { dt.date with day }
      else decrMonthOn stack { dt.date with day }) =
        if monthsBetween dt.date dt.incrAll.date < stack then some dt.incrAll.date else none := by
    have own : months { dt.date with day } = months dt.date := rfl
    split
    · have later := @months_le _ { dt.date with day } isDay month (by simp only; omega) same.ge
      rw [incrMonthOn_eq stack { dt.date with day } month (by simp only; omega) isDay same, own]
      congr 1
      simp only [monthsBetween, eq_iff_iff]
      omega
    · have earlier := @le_months _ { dt.date with day } isDay month (by simp only; omega) same.le
      rw [decrMonthOn_eq stack { dt.date with day } month (by simp only; omega) isDay same, own]
      congr 1
      simp only [monthsBetween, eq_iff_iff]
      omega
  rw [reached]
  split
  · rfl
  · rfl

namespace Stamp

/-- The fields in range that denote the same instant. -/
def settled (s : Stamp) : Stamp :=
  ⟨{ s.dt with time := { s.dt.time with
    second := s.dt.time.second + s.thousendSecond / 1000 } }.incrAll, s.thousendSecond % 1000⟩

theorem settled_spec {s : Stamp} (month : 1 ≤ s.dt.date.month ∧ s.dt.date.month ≤ 12) :
    s.settled.Normal ∧ s.settled.instant = s.instant := by
  have time := incrAll_time { s.dt with time := { s.dt.time with
    second := s.dt.time.second + s.thousendSecond / 1000 } }
  obtain ⟨isDay, days⟩ := @incrAll_date { s.dt with time := { s.dt.time with
    second := s.dt.time.second + s.thousendSecond / 1000 } } month
  refine ⟨⟨isDay, ?_, ?_, ?_, ?_⟩, ?_⟩
  · simp only [settled, time]
    omega
  · simp only [settled, time]
    omega
  · simp only [settled, time]
    omega
  · simp only [settled]
    omega
  · simp only [settled, instant, msec, time, days]
    omega

theorem incrAll_eq (stack : Nat) {s : Stamp}
    (month : 1 ≤ s.dt.date.month ∧ s.dt.date.month ≤ 12) :
    s.incrAll stack =
      if monthsBetween s.dt.date s.settled.dt.date < stack then some s.settled else none := by
  have second := carry_eq s.thousendSecond s.dt.time.second (show (0 : Int) < 1000 by decide)
  have ended := @incrAllOn_eq stack { s.dt with time := { s.dt.time with
    second := s.dt.time.second + s.thousendSecond / 1000 } } month
  simp only [incrAll, second, ended]
  rw [apply_ite (Option.map _)]
  rfl

theorem Normal.msec_range {s : Stamp} (normal : s.Normal) : 0 ≤ s.msec ∧ s.msec < 86400000 := by
  obtain ⟨-, hour, minute, second, thousend⟩ := normal
  unfold msec
  omega

theorem lt_iff {a b : Stamp} (first : a.Normal) (second : b.Normal) :
    a.lt b = true ↔ a.instant < b.instant := by
  have range := first.msec_range
  have range' := second.msec_range
  rcases date_cases first.day second.day with ⟨less, days⟩ | same | ⟨⟨notLess, other⟩, days⟩
  · have moved : a.instant < b.instant := by
      unfold instant
      omega
    simp [lt, less, moved]
  · obtain ⟨-, hour, minute, sec, thousend⟩ := first
    obtain ⟨-, hour', minute', sec', thousend'⟩ := second
    have never : b.dt.date.lt b.dt.date = false := by simp [Date.lt]
    obtain ⟨⟨_, ⟨_, _, _⟩, _⟩, _⟩ := a
    obtain ⟨⟨_, ⟨_, _, _⟩, _⟩, _⟩ := b
    simp only at *
    simp only [lt, instant, msec, same, never, Time.lt, Time.mk.injEq, Bool.false_or, decide_true,
      Bool.true_and, Bool.or_eq_true, Bool.and_eq_true, decide_eq_true_eq]
    omega
  · have moved : ¬ a.instant < b.instant := by
      unfold instant
      omega
    simp [lt, notLess, other, moved]

theorem date_of_instant {a b : Stamp} (first : a.Normal) (second : b.Normal)
    (same : a.instant = b.instant) : a.dt.date = b.dt.date := by
  have range := first.msec_range
  have range' := second.msec_range
  unfold instant at same
  exact eq_of_dayNumber first.day second.day (by omega)

theorem eq_of_instant {a b : Stamp} (first : a.Normal) (second : b.Normal)
    (same : a.instant = b.instant) (valid : a.dt.isValidDate = b.dt.isValidDate) : a = b := by
  have date := date_of_instant first second same
  unfold instant at same
  rw [date] at same
  obtain ⟨-, hour, minute, sec, thousend⟩ := first
  obtain ⟨-, hour', minute', sec', thousend'⟩ := second
  obtain ⟨⟨_, ⟨_, _, _⟩, _⟩, _⟩ := a
  obtain ⟨⟨_, ⟨_, _, _⟩, _⟩, _⟩ := b
  simp only [msec] at *
  simp only [Stamp.mk.injEq, DateTime.mk.injEq, Time.mk.injEq, date, valid, true_and, and_true]
  omega

end Stamp

/-- The fields that an amount can be added to. -/
inductive Part where
  | days
  | hours
  | mins
  | secs

namespace Part

/-- The function that adds to the field. -/
def add (stack : Nat) : Part → Stamp → Int → Option Stamp
  | days => Stamp.addDays stack
  | hours => Stamp.addHours stack
  | mins => Stamp.addMins stack
  | secs => Stamp.addSecs stack

/-- The milliseconds of one unit of the field. -/
def msecs : Part → Int
  | days => 86400000
  | hours => 3600000
  | mins => 60000
  | secs => 1000

/-- The value of the field, and that from which `decr` borrows for it. -/
def field (s : Stamp) : Part → Int × Int
  | days => (s.dt.date.day, 1)
  | hours => (s.dt.time.hour, 24)
  | mins => (s.dt.time.minute, 60)
  | secs => (s.dt.time.second, 60)

/-- Neither the sum of a field and an amount nor what `decr` makes of it leaves an `int`. -/
def Takes (part : Part) (s : Stamp) (n : Int) : Prop :=
  -2 ^ 31 ≤ (part.field s).2 * (((part.field s).1 + n) / (part.field s).2) ∧
    (part.field s).1 + n < 2 ^ 31

/-- Adding an amount leaves all fields in range and moves the instant by as many units. Adding the
opposite amount restores the fields, and results are in the order of the amounts. -/
def Exact (stack : Nat) (part : Part) (s : Stamp) (n : Int) : Prop :=
  ∃ t, part.add stack s n = some t ∧ t.Normal ∧ t.instant = s.instant + part.msecs * n ∧
    (part.Takes t (-n) → part.add stack t (-n) = some s) ∧
    ∀ m u, part.Takes s m → part.add stack s m = some u → (t.lt u = true ↔ n < m)

variable {stack : Nat} {s : Stamp} {n : Int}

theorem add_spec (stack : Nat) (part : Part) (normal : s.Normal) (takes : part.Takes s n) :
    ∃ t : Stamp, t.Normal ∧ t.instant = s.instant + part.msecs * n ∧
      t.dt.isValidDate = s.dt.isValidDate ∧ part.add stack s n =
        if monthsBetween s.dt.date t.dt.date < stack then some t else none := by
  have month := And.intro normal.day.firstMonth normal.day.lastMonth
  -- what `incr_all` makes of fields whose instant was moved
  have settles {moved : Stamp} (own : moved.dt.date.month = s.dt.date.month)
      (year : moved.dt.date.year = s.dt.date.year)
      (valid : moved.dt.isValidDate = s.dt.isValidDate)
      (instant : moved.instant = s.instant + part.msecs * n) :
      ∃ t : Stamp, t.Normal ∧ t.instant = s.instant + part.msecs * n ∧
        t.dt.isValidDate = s.dt.isValidDate ∧ moved.incrAll stack =
          if monthsBetween s.dt.date t.dt.date < stack then some t else none := by
    obtain ⟨inRange, same⟩ := @Stamp.settled_spec moved (by rw [own]; exact month)
    refine ⟨moved.settled, inRange, same.trans instant, valid, ?_⟩
    rw [Stamp.incrAll_eq stack (by rw [own]; exact month), monthsBetween, monthsBetween, months,
      months, own, year]
    rfl
  have days : dayNumber ⟨s.dt.date.year, s.dt.date.month, s.dt.date.day + n⟩ =
      dayNumber s.dt.date + n := dayNumber_day ..
  cases part
  all_goals
    simp only [Takes, field] at takes
    simp only [add, Stamp.addDays, Stamp.addHours, Stamp.addMins, Stamp.addSecs]
    rw [toInt32_eq (by omega) (by omega)]
    refine settles rfl rfl rfl ?_
    simp only [Stamp.instant, Stamp.msec, msecs, days]
    omega

theorem add_eq (part : Part) (normal : s.Normal) (takes : part.Takes s n) {t : Stamp}
    (result : t.Normal) (moved : t.instant = s.instant + part.msecs * n)
    (valid : t.dt.isValidDate = s.dt.isValidDate) :
    part.add stack s n = if monthsBetween s.dt.date t.dt.date < stack then some t else none := by
  obtain ⟨u, result', moved', valid', added⟩ := part.add_spec stack normal takes
  rw [added, Stamp.eq_of_instant result' result (moved'.trans moved.symm)
    (valid'.trans valid.symm)]

/-- An amount is added exactly when the stack has room for one call more than the months between
the date and the one that the calendar has for the moved instant. -/
theorem add_exact (stack : Nat) (part : Part) (normal : s.Normal) (takes : part.Takes s n) :
    part.Exact stack s n ↔ ∃ t : Stamp, t.Normal ∧ t.instant = s.instant + part.msecs * n ∧
      monthsBetween s.dt.date t.dt.date < stack := by
  obtain ⟨t, result, moved, valid, added⟩ := part.add_spec stack normal takes
  constructor
  · rintro ⟨u, done, -⟩
    refine ⟨t, result, moved, ?_⟩
    by_contra far
    grind
  · rintro ⟨u, result', moved', near⟩
    have date := Stamp.date_of_instant result' result (moved'.trans moved.symm)
    rw [date] at near
    refine ⟨t, by rw [added, if_pos near], result, moved, fun back => ?_, fun m u other done => ?_⟩
    · rw [part.add_eq result back normal (by rw [moved, mul_neg, Int.add_neg_cancel_right])
        valid.symm, if_pos (by rwa [monthsBetween, ← Int.natAbs_neg, neg_sub])]
    · obtain ⟨v, result', moved', -, added'⟩ := part.add_spec stack normal other
      rw [added'] at done
      split at done
      · cases done
        rw [Stamp.lt_iff result result', moved, moved']
        cases part <;> simp only [msecs] <;> omega
      · cases done

/-- The last millisecond but one of a leap day. -/
def leapDay : Stamp := ⟨{ date := ⟨2024, 2, 29⟩, time := ⟨23, 59, 59⟩ }, 998⟩

theorem leapDay_normal : leapDay.Normal :=
  ⟨⟨by decide, by decide, by decide, by decide⟩, by decide, by decide, by decide, by decide⟩

/-- One second after it, on a stack with room for two calls. -/
theorem add_exact_leap_day : secs.Exact 2 leapDay 1 :=
  (add_exact 2 secs leapDay_normal ⟨by decide, by decide⟩).mpr
    ⟨⟨{ date := ⟨2024, 3, 1⟩ }, 998⟩,
      ⟨⟨by decide, by decide, by decide, by decide⟩, by decide, by decide, by decide, by decide⟩,
      by decide, by decide⟩

/-- Ten million days after it, and before it, are too far for the 174762 calls for which there is
room on a stack of 8 MiB when each takes 48 bytes. -/
theorem add_days_overflows :
    days.add 174762 leapDay 10000000 = none ∧ days.add 174762 leapDay (-10000000) = none := by
  constructor
  · rw [days.add_eq leapDay_normal ⟨by decide, by decide⟩
      (t := ⟨{ leapDay.dt with date := ⟨29403, 3, 27⟩ }, 998⟩)
      ⟨⟨by decide, by decide, by decide, by decide⟩, by decide, by decide, by decide, by decide⟩
      (by decide) rfl]
    decide
  · rw [days.add_eq leapDay_normal ⟨by decide, by decide⟩
      (t := ⟨{ leapDay.dt with date := ⟨-25355, 2, 3⟩ }, 998⟩)
      ⟨⟨by decide, by decide, by decide, by decide⟩, by decide, by decide, by decide, by decide⟩
      (by decide) rfl]
    decide

end Part

end RssDisk.DateTime
