import Mathlib.Data.Nat.Basic
import Mathlib.Tactic.Common
import Mathlib.Tactic.IntervalCases

/-!
# The calendar

Dates of the Gregorian calendar, carried back to the year zero, and the number of days that
lie before a date. Years and months are counted one after another, so the number is what the
lengths of months say; the closed form over whole years is proved from it. Dates are ordered
by year, month and day, which is the order of their numbers.
-/

namespace Calendar

/-- The year has a twenty-ninth of February, by the rule of the Gregorian calendar. -/
def IsLeap (year : ℕ) : Prop := year % 4 = 0 ∧ (year % 100 ≠ 0 ∨ year % 400 = 0)

instance decidableIsLeap (year : ℕ) : Decidable (IsLeap year) :=
  inferInstanceAs (Decidable (_ ∧ _))

/-- The days of a month; January is the first one. -/
def monthLength (year : ℕ) : ℕ → ℕ
  | 1 | 3 | 5 | 7 | 8 | 10 | 12 => 31
  | 4 | 6 | 9 | 11 => 30
  | 2 => if IsLeap year then 29 else 28
  | _ => 0

/-- No month has more than 31 days, in whatever year. -/
theorem monthLength_le (year month : ℕ) : monthLength year month ≤ 31 := by
  unfold monthLength
  split <;> first | decide | (split <;> decide)

/-- The days of a year before a month. -/
def daysBeforeMonth (year : ℕ) : ℕ → ℕ
  | 0 => 0
  | month + 1 => daysBeforeMonth year month + monthLength year month

/-- The number of days of a year, which are those before a thirteenth month. -/
def yearLength (year : ℕ) : ℕ := daysBeforeMonth year 13

/-- The days before a year, from the year zero on. -/
def daysBeforeYear : ℕ → ℕ
  | 0 => 0
  | year + 1 => daysBeforeYear year + yearLength year

/-- A day of the calendar; month and day are those of a day that the year has. -/
structure Date where
  /-- The year. -/
  year : ℕ
  /-- The month, from one on. -/
  month : ℕ
  /-- The day of the month, from one on. -/
  day : ℕ
  /-- There is a month before or at it. -/
  month_pos : 1 ≤ month
  /-- There are twelve months. -/
  month_le : month ≤ 12
  /-- There is a day before or at it. -/
  day_pos : 1 ≤ day
  /-- The month has the day. -/
  day_le : day ≤ monthLength year month

/-- The number of days from the first day of the calendar to a date. -/
def Date.dayNumber (d : Date) : ℕ :=
  daysBeforeYear d.year + daysBeforeMonth d.year d.month + (d.day - 1)

/-- The days before the year of a date lie before the date. -/
theorem Date.daysBeforeYear_le (d : Date) : daysBeforeYear d.year ≤ d.dayNumber := by
  rw [Date.dayNumber, Nat.add_assoc]
  exact Nat.le_add_right _ _

/-! ## Whole years -/

/-- A year has 365 days, and one more in a leap year. -/
theorem yearLength_eq (year : ℕ) : yearLength year = if IsLeap year then 366 else 365 := by
  simp only [yearLength, daysBeforeMonth, monthLength]
  split <;> rfl

/-- The days before a year are counted by the leap years before it, in closed form. -/
theorem daysBeforeYear_eq (year : ℕ) :
    daysBeforeYear year = 365 * year + (year + 3) / 4 - (year + 99) / 100 + (year + 399) / 400 := by
  induction year with
  | zero => rfl
  | succ year ih =>
    rw [daysBeforeYear, ih, yearLength_eq]
    by_cases h : IsLeap year
    · rw [if_pos h]
      unfold IsLeap at h
      omega
    · rw [if_neg h]
      unfold IsLeap at h
      omega

/-! ## The order of dates -/

/-- A later year begins after at least as many days. -/
theorem daysBeforeYear_mono {y y' : ℕ} (h : y ≤ y') : daysBeforeYear y ≤ daysBeforeYear y' := by
  induction y', h using Nat.le_induction with
  | base => exact le_rfl
  | succ y' _ ih =>
    rw [daysBeforeYear]
    omega

/-- A later month of a year begins after at least as many days. -/
theorem daysBeforeMonth_mono (year : ℕ) {m m' : ℕ} (h : m ≤ m') :
    daysBeforeMonth year m ≤ daysBeforeMonth year m' := by
  induction m', h using Nat.le_induction with
  | base => exact le_rfl
  | succ m' _ ih =>
    rw [daysBeforeMonth]
    omega

/-- A date lies before the beginning of the next month. -/
theorem Date.lt_next_month (d : Date) :
    daysBeforeMonth d.year d.month + (d.day - 1) < daysBeforeMonth d.year (d.month + 1) := by
  have hpos := d.day_pos
  have hle := d.day_le
  rw [daysBeforeMonth]
  omega

/-- A date lies before the beginning of the next year. -/
theorem Date.dayNumber_lt (d : Date) : d.dayNumber < daysBeforeYear (d.year + 1) := by
  have hmonth := d.lt_next_month
  have hyear : daysBeforeMonth d.year (d.month + 1) ≤ yearLength d.year :=
    daysBeforeMonth_mono d.year (by have := d.month_le; omega)
  rw [daysBeforeYear, dayNumber]
  omega

/-- The order of dates by year, month and day. -/
def Date.order (a b : Date) : Ordering :=
  (compare a.year b.year).then ((compare a.month b.month).then (compare a.day b.day))

/-- A date that comes first has the smaller number. -/
theorem Date.dayNumber_lt_of_order {a b : Date} (h : a.order b = .lt) :
    a.dayNumber < b.dayNumber := by
  rw [order, Ordering.then_eq_lt, Ordering.then_eq_lt] at h
  have hb : daysBeforeYear b.year + daysBeforeMonth b.year b.month ≤ b.dayNumber :=
    Nat.le_add_right _ _
  rcases h with hyear | ⟨hyear, hmonth | ⟨hmonth, hday⟩⟩
  · have hlt := a.dayNumber_lt
    have hmono := daysBeforeYear_mono (Nat.succ_le_of_lt (Nat.compare_eq_lt.mp hyear))
    rw [Nat.succ_eq_add_one] at hmono
    omega
  · have heq := Nat.compare_eq_eq.mp hyear
    have hlt := a.lt_next_month
    have hmono := daysBeforeMonth_mono b.year (Nat.succ_le_of_lt (Nat.compare_eq_lt.mp hmonth))
    rw [Nat.succ_eq_add_one] at hmono
    rw [dayNumber, heq]
    rw [heq] at hlt
    omega
  · have heq := Nat.compare_eq_eq.mp hyear
    have heq' := Nat.compare_eq_eq.mp hmonth
    have hlt := Nat.compare_eq_lt.mp hday
    have hpos := a.day_pos
    rw [dayNumber, dayNumber, heq, heq']
    omega

/-- **Dates are ordered as their day numbers are,** so that a number tells its date. -/
theorem Date.compare_dayNumber (a b : Date) : compare a.dayNumber b.dayNumber = a.order b := by
  have hswap : b.order a = (a.order b).swap := by
    simp only [order, Ordering.swap_then, Nat.compare_swap]
  cases h : a.order b with
  | lt => exact Nat.compare_eq_lt.mpr (Date.dayNumber_lt_of_order h)
  | gt =>
    rw [h] at hswap
    exact Nat.compare_eq_gt.mpr (Date.dayNumber_lt_of_order hswap)
  | eq =>
    rw [order, Ordering.then_eq_eq, Ordering.then_eq_eq] at h
    obtain ⟨hyear, hmonth, hday⟩ := h
    rw [Nat.compare_eq_eq, dayNumber, dayNumber, Nat.compare_eq_eq.mp hyear,
      Nat.compare_eq_eq.mp hmonth, Nat.compare_eq_eq.mp hday]

/-! ## Years from March

A leap day is the last one of a year that starts in March, so the months before it have their
days at the same places in every year, and the years of an era of four hundred are found by
division.
-/

/-- The days of an era before a year of it, from March to March. -/
def eraYearStart (year : ℕ) : ℕ := 365 * year + year / 4 - year / 100

/-- A day of an era with its leap days taken out. -/
def withoutLeapDays (day : ℕ) : ℕ := day - day / 1460 + day / 36524 - day / 146096

/-- The days of a year before a month, with March as the month zero. -/
def marchStart (month : ℕ) : ℕ := (153 * month + 2) / 5

/-- Taking the leap days out keeps the order of days. -/
theorem withoutLeapDays_mono {day day' : ℕ} (h : day ≤ day') (h' : day' ≤ 146096) :
    withoutLeapDays day ≤ withoutLeapDays day' := by
  induction day', h using Nat.le_induction with
  | base => exact le_rfl
  | succ day' _ ih =>
    have hstep : withoutLeapDays day' ≤ withoutLeapDays (day' + 1) := by
      unfold withoutLeapDays
      omega
    exact Nat.le_trans (ih (by omega)) hstep

/-- The first day of a year starts it, and the day before does not. -/
theorem withoutLeapDays_eraYearStart {year : ℕ} (h : year < 400) :
    365 * year ≤ withoutLeapDays (eraYearStart year) ∧
      (0 < year → withoutLeapDays (eraYearStart year - 1) < 365 * year) := by
  have htable : ∀ y < 400, 365 * y ≤ withoutLeapDays (eraYearStart y) ∧
      (0 < y → withoutLeapDays (eraYearStart y - 1) < 365 * y) := by
    decide +kernel
  exact htable year h

/-- The year of an era that a day lies in. -/
def eraYear (day : ℕ) : ℕ := withoutLeapDays day / 365

/-- A day within an era of four hundred years lies in one of these years. -/
theorem eraYear_lt {day : ℕ} (h : day ≤ 146096) : eraYear day < 400 := by
  have hmono := withoutLeapDays_mono h le_rfl
  have hlast : withoutLeapDays 146096 = 145999 := rfl
  unfold eraYear
  omega

/-- A day does not lie before the first day of the year that is computed for it. -/
theorem eraYearStart_eraYear_le {day : ℕ} (h : day ≤ 146096) :
    eraYearStart (eraYear day) ≤ day := by
  by_contra hlt
  have hyear := eraYear_lt h
  have hpos : 0 < eraYear day := by
    by_contra hzero
    rw [Nat.eq_zero_of_not_pos hzero] at hlt
    exact hlt (Nat.zero_le day)
  have hbefore := (withoutLeapDays_eraYearStart hyear).2 hpos
  have hstart : eraYearStart (eraYear day) - 1 ≤ 146096 := by
    unfold eraYearStart
    omega
  have hmono := withoutLeapDays_mono (show day ≤ eraYearStart (eraYear day) - 1 by omega) hstart
  have hdiv : 365 * eraYear day ≤ withoutLeapDays day := Nat.mul_div_le _ _
  omega

/-- A day lies before the year after its own. -/
theorem lt_eraYearStart_succ {day : ℕ} (h : day ≤ 146096) (hlast : eraYear day < 399) :
    day < eraYearStart (eraYear day + 1) := by
  by_contra hge
  have hnext := (withoutLeapDays_eraYearStart (show eraYear day + 1 < 400 by omega)).1
  have hmono := withoutLeapDays_mono (Nat.not_lt.mp hge) h
  have hdiv : withoutLeapDays day < 365 * (eraYear day + 1) := by
    unfold eraYear
    omega
  omega

/-- The years of an era follow one another, each beginning where the one before it ends. -/
theorem eraYearStart_succ {year : ℕ} (h : year < 399) :
    eraYearStart (year + 1) = eraYearStart year + yearLength (year + 1) := by
  have hfour : (year + 1) / 4 = year / 4 + if (year + 1) % 4 = 0 then 1 else 0 := by
    split <;> omega
  have hhundred : (year + 1) / 100 = year / 100 + if (year + 1) % 100 = 0 then 1 else 0 := by
    split <;> omega
  have hlength : yearLength (year + 1) + (if (year + 1) % 100 = 0 then 1 else 0) =
      365 + if (year + 1) % 4 = 0 then 1 else 0 := by
    rw [yearLength_eq]
    by_cases hleap : IsLeap (year + 1)
    · rw [if_pos hleap]
      unfold IsLeap at hleap
      split_ifs <;> omega
    · rw [if_neg hleap]
      unfold IsLeap at hleap
      split_ifs <;> omega
  unfold eraYearStart
  omega

/-- **A day of an era lies in its year.** The year is a leap year when the next February has
a leap day. -/
theorem sub_eraYearStart_lt {day : ℕ} (h : day ≤ 146096) (era : ℕ) :
    day - eraYearStart (eraYear day) < yearLength (400 * era + eraYear day + 1) := by
  have hyear := eraYear_lt h
  have hleap : IsLeap (400 * era + eraYear day + 1) ↔ IsLeap (eraYear day + 1) := by
    unfold IsLeap
    omega
  have hlength : yearLength (400 * era + eraYear day + 1) = yearLength (eraYear day + 1) := by
    simp only [yearLength_eq, hleap]
  rw [hlength]
  rcases Nat.lt_or_ge (eraYear day) 399 with hlt | hge
  · have hnext := lt_eraYearStart_succ h hlt
    have hle := eraYearStart_eraYear_le h
    rw [eraYearStart_succ hlt] at hnext
    omega
  · have heq : eraYear day = 399 := by omega
    have hstart : eraYearStart 399 = 145731 := rfl
    have hlast : yearLength (399 + 1) = 366 := rfl
    rw [heq, hstart, hlast]
    omega

/-- The days before the March of a year have a closed form, as the leap day lies before it. -/
theorem days_before_march (year : ℕ) :
    daysBeforeYear year + daysBeforeMonth year 3 =
      365 * year + year / 4 - year / 100 + year / 400 + 60 := by
  have hmonths : daysBeforeMonth year 3 = 31 + if IsLeap year then 29 else 28 := by
    simp only [daysBeforeMonth, monthLength]
  have hfour : (year + 3) / 4 = year / 4 + if year % 4 = 0 then 0 else 1 := by
    split <;> omega
  have hhundred : (year + 99) / 100 = year / 100 + if year % 100 = 0 then 0 else 1 := by
    split <;> omega
  have hfourHundred : (year + 399) / 400 = year / 400 + if year % 400 = 0 then 0 else 1 := by
    split <;> omega
  rw [hmonths, daysBeforeYear_eq, hfour, hhundred, hfourHundred]
  by_cases h : IsLeap year
  · rw [if_pos h]
    unfold IsLeap at h
    split_ifs <;> omega
  · rw [if_neg h]
    unfold IsLeap at h
    split_ifs <;> omega

/-- The days of a year from March on are those of its era and those of the eras before. -/
theorem days_before_march_of_era (era year : ℕ) (h : year < 400) :
    daysBeforeYear (400 * era + year) + daysBeforeMonth (400 * era + year) 3 =
      146097 * era + eraYearStart year + 60 := by
  rw [days_before_march, eraYearStart]
  omega

/-- The months from March on start at the same days of every year. -/
theorem daysBeforeMonth_march (year : ℕ) {month : ℕ} (h : month ≤ 10) :
    daysBeforeMonth year (month + 3) = daysBeforeMonth year 3 + marchStart month := by
  interval_cases month <;> rfl

/-- The months from March to December have the same days in every year. -/
theorem monthLength_march (year : ℕ) {month : ℕ} (h : month < 10) :
    monthLength year (month + 3) + marchStart month = marchStart (month + 1) := by
  interval_cases month <;> rfl

/-- January comes 306 days after the March before. -/
theorem daysBeforeYear_succ_march (year : ℕ) :
    daysBeforeYear (year + 1) = daysBeforeYear year + daysBeforeMonth year 3 + 306 := by
  have hyear : yearLength year = daysBeforeMonth year 3 + marchStart 10 :=
    daysBeforeMonth_march year le_rfl
  have hstart : marchStart 10 = 306 := rfl
  rw [daysBeforeYear]
  omega

/-- **A day of a year that starts in March is a date.** The month is found by division; January
and February are in the next year. -/
theorem exists_date_of_march {year day : ℕ} (h : day < yearLength (year + 1)) :
    ∃ date : Date, date.dayNumber = daysBeforeYear year + daysBeforeMonth year 3 + day ∧
      date.year = (if (5 * day + 2) / 153 < 10 then year else year + 1) ∧
      date.month = (if (5 * day + 2) / 153 < 10 then (5 * day + 2) / 153 + 3
        else (5 * day + 2) / 153 - 9) ∧
      date.day = day - marchStart ((5 * day + 2) / 153) + 1 := by
  have hlength := yearLength_eq (year + 1)
  have hday : day < 366 := by
    split at hlength <;> omega
  obtain ⟨month, hmonth⟩ : ∃ month, month = (5 * day + 2) / 153 := ⟨_, rfl⟩
  have hlow : marchStart month ≤ day := by
    unfold marchStart
    omega
  have hhigh : day < marchStart (month + 1) := by
    unfold marchStart
    omega
  rw [← hmonth]
  rcases (by omega : month < 10 ∨ month = 10 ∨ month = 11) with hspring | rfl | rfl
  · have hbefore := daysBeforeMonth_march year (show month ≤ 10 by omega)
    have hle : day - marchStart month + 1 ≤ monthLength year (month + 3) := by
      have hdays := monthLength_march year hspring
      omega
    rw [if_pos hspring, if_pos hspring]
    refine ⟨⟨year, month + 3, day - marchStart month + 1, by omega, by omega,
      Nat.le_add_left 1 _, hle⟩, ?_, rfl, rfl, rfl⟩
    change daysBeforeYear year + daysBeforeMonth year (month + 3) +
      (day - marchStart month + 1 - 1) = _
    rw [hbefore]
    omega
  · have hdays : marchStart (10 + 1) = 337 := rfl
    have hle : day - 306 + 1 ≤ monthLength (year + 1) 1 := by
      change day - 306 + 1 ≤ 31
      omega
    have hlow : 306 ≤ day := hlow
    refine ⟨⟨year + 1, 1, day - 306 + 1, by decide, by decide, Nat.le_add_left 1 _, hle⟩,
      ?_, rfl, rfl, rfl⟩
    change daysBeforeYear (year + 1) + 0 + (day - 306 + 1 - 1) = _
    rw [daysBeforeYear_succ_march]
    omega
  · have hfebruary : monthLength (year + 1) 2 + 337 = yearLength (year + 1) := by
      rw [hlength, monthLength]
      split <;> rfl
    have hlow : 337 ≤ day := hlow
    have hle : day - 337 + 1 ≤ monthLength (year + 1) 2 := by
      omega
    refine ⟨⟨year + 1, 2, day - 337 + 1, by decide, by decide, Nat.le_add_left 1 _, hle⟩,
      ?_, rfl, rfl, rfl⟩
    change daysBeforeYear (year + 1) + 31 + (day - 337 + 1 - 1) = _
    rw [daysBeforeYear_succ_march]
    omega

/-! ## Times of the day -/

/-- A millisecond of a day of the calendar. -/
structure Moment where
  /-- The day. -/
  date : Date
  /-- The hour of the day. -/
  hour : ℕ
  /-- The minute of the hour. -/
  minute : ℕ
  /-- The second of the minute. -/
  second : ℕ
  /-- The millisecond of the second. -/
  milli : ℕ
  /-- A day has 24 hours. -/
  hour_lt : hour < 24
  /-- An hour has 60 minutes. -/
  minute_lt : minute < 60
  /-- A minute has 60 seconds. -/
  second_lt : second < 60
  /-- A second has 1000 milliseconds. -/
  milli_lt : milli < 1000

/-- The milliseconds before a moment, from the year zero on. -/
def Moment.millis (t : Moment) : ℕ :=
  (((t.date.dayNumber * 24 + t.hour) * 60 + t.minute) * 60 + t.second) * 1000 + t.milli

/-- The order of moments by date and time of the day. -/
def Moment.order (a b : Moment) : Ordering :=
  (a.date.order b.date).then ((compare a.hour b.hour).then ((compare a.minute b.minute).then
    ((compare a.second b.second).then (compare a.milli b.milli))))

/-- A place value of a number that is written in mixed radices. -/
theorem compare_mul_add {m n r s k : ℕ} (hr : r < k) (hs : s < k) :
    compare (m * k + r) (n * k + s) = (compare m n).then (compare r s) := by
  rcases lt_trichotomy m n with h | rfl | h
  · have hmul : (m + 1) * k ≤ n * k := Nat.mul_le_mul_right k h
    rw [Nat.succ_mul] at hmul
    rw [Nat.compare_eq_lt.mpr h, Nat.compare_eq_lt.mpr (by omega)]
    rfl
  · rw [Nat.compare_eq_eq.mpr rfl, Ordering.eq_then]
    rcases lt_trichotomy r s with h | h | h
    · rw [Nat.compare_eq_lt.mpr h, Nat.compare_eq_lt.mpr (by omega)]
    · rw [Nat.compare_eq_eq.mpr h, Nat.compare_eq_eq.mpr (by omega)]
    · rw [Nat.compare_eq_gt.mpr h, Nat.compare_eq_gt.mpr (by omega)]
  · have hmul : (n + 1) * k ≤ m * k := Nat.mul_le_mul_right k h
    rw [Nat.succ_mul] at hmul
    rw [Nat.compare_eq_gt.mpr h, Nat.compare_eq_gt.mpr (by omega)]
    rfl

/-- **Moments are ordered as the milliseconds before them are.** -/
theorem Moment.compare_millis (a b : Moment) : compare a.millis b.millis = a.order b := by
  rw [millis, millis, compare_mul_add a.milli_lt b.milli_lt,
    compare_mul_add a.second_lt b.second_lt, compare_mul_add a.minute_lt b.minute_lt,
    compare_mul_add a.hour_lt b.hour_lt, Date.compare_dayNumber, Ordering.then_assoc,
    Ordering.then_assoc, Ordering.then_assoc, order]

end Calendar
