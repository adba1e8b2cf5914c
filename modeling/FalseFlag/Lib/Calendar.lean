/-
  The calendar.

  An INSTANT is a number of nanoseconds since the beginning of the year 1; a `DateTime` is a year, a
  month, a day and a time of day, in the Gregorian calendar extended to all years, without leap
  seconds.  The two are in bijection (`instant_ofInstant`, `ofInstant_instant`), and instants compare
  as date-times do, field after field (`instant_lt_iff`).

  The way back divides by the lengths of 400, 100, 4 and 1 years, and corrects the two that may come
  out one too large at the end of a leap year.
-/
import Mathlib.Data.Nat.Find
import Mathlib.Tactic.IntervalCases
import Mathlib.Order.Basic

namespace Calendar

/-! ## Years and months -/

def isLeap (y : ℤ) : Bool := y % 4 = 0 && (y % 100 ≠ 0 || y % 400 = 0)

/-- The length of a month; there is none with number 0. -/
def daysIn (y : ℤ) : ℕ → ℕ
  | 1 | 3 | 5 | 7 | 8 | 10 | 12 => 31
  | 4 | 6 | 9 | 11 => 30
  | 2 => if isLeap y then 29 else 28
  | _ => 0

/-- The days of a year before a month. -/
def daysBefore (y : ℤ) : ℕ → ℕ
  | 0 => 0
  | m + 1 => daysBefore y m + daysIn y m

/-- The days before a year. -/
def yearStart (y : ℤ) : ℤ := 365 * (y - 1) + (y - 1) / 4 - (y - 1) / 100 + (y - 1) / 400

theorem isLeap_iff (y : ℤ) : isLeap y = true ↔ y % 4 = 0 ∧ (y % 100 ≠ 0 ∨ y % 400 = 0) := by
  rw [isLeap, Bool.and_eq_true, Bool.or_eq_true, decide_eq_true_iff, decide_eq_true_iff,
    decide_eq_true_iff]

theorem daysBefore_mono (y : ℤ) {m m' : ℕ} (h : m < m') :
    daysBefore y m + daysIn y m ≤ daysBefore y m' := by
  induction m' with
  | zero => omega
  | succ m' ih =>
    show _ ≤ daysBefore y m' + daysIn y m'
    rcases Nat.lt_succ_iff_lt_or_eq.mp h with h | rfl
    · have hm := ih h
      omega
    · exact le_refl _

/-- A year has 365 days, or 366. -/
theorem daysBefore_year (y : ℤ) : daysBefore y 13 = if isLeap y then 366 else 365 := by
  show 0 + 0 + 31 + (if isLeap y then 29 else 28) + 31 + 30 + 31 + 30 + 31 + 31 + 30 + 31 + 30 + 31 =
    if isLeap y then 366 else 365
  split
  · rfl
  · rfl

theorem yearStart_succ (y : ℤ) : yearStart (y + 1) = yearStart y + daysBefore y 13 := by
  rw [daysBefore_year, yearStart, yearStart]
  rcases Bool.eq_false_or_eq_true (isLeap y) with h | h
  · rw [h, if_pos rfl]
    rw [isLeap_iff] at h
    push_cast
    omega
  · rw [h, if_neg Bool.false_ne_true]
    have h : ¬ (y % 4 = 0 ∧ (y % 100 ≠ 0 ∨ y % 400 = 0)) := by
      rw [← isLeap_iff, h]
      exact Bool.false_ne_true
    push_cast
    omega

/-- Later years start later. -/
theorem yearStart_mono {y y' : ℤ} (h : y ≤ y') : yearStart y ≤ yearStart y' := by
  rw [yearStart, yearStart]
  omega

/-! ## Date-times -/

/-- A date and a time of day. -/
@[ext] structure DateTime where
  year : ℤ
  month : ℕ
  day : ℕ
  hour : ℕ
  minute : ℕ
  second : ℕ
  nano : ℕ
  month_pos : 1 ≤ month
  month_le : month ≤ 12
  day_pos : 1 ≤ day
  day_le : day ≤ daysIn year month
  hour_lt : hour < 24
  minute_lt : minute < 60
  second_lt : second < 60
  nano_lt : nano < 1000000000
  deriving DecidableEq

namespace DateTime

/-- The days before a date. -/
def dayNumber (c : DateTime) : ℤ := yearStart c.year + daysBefore c.year c.month + (c.day - 1)

def timeOfDay (c : DateTime) : ℤ :=
  ((c.hour * 60 + c.minute) * 60 + c.second) * 1000000000 + c.nano

/-- The instant of a date-time. -/
def instant (c : DateTime) : ℤ := c.dayNumber * 86400000000000 + c.timeOfDay

/-- One date-time is before another, field after field. -/
def Before (a b : DateTime) : Prop :=
  a.year < b.year ∨ a.year = b.year ∧ (a.month < b.month ∨ a.month = b.month ∧
    (a.day < b.day ∨ a.day = b.day ∧ (a.hour < b.hour ∨ a.hour = b.hour ∧
      (a.minute < b.minute ∨ a.minute = b.minute ∧ (a.second < b.second ∨ a.second = b.second ∧
        a.nano < b.nano)))))

theorem timeOfDay_nonneg (c : DateTime) : 0 ≤ c.timeOfDay := by
  rw [timeOfDay]
  omega

theorem timeOfDay_lt (c : DateTime) : c.timeOfDay < 86400000000000 := by
  have hhour := c.hour_lt
  have hminute := c.minute_lt
  have hsecond := c.second_lt
  have hnano := c.nano_lt
  rw [timeOfDay]
  omega

/-- A date is in its year. -/
theorem dayNumber_lt (c : DateTime) : c.dayNumber < yearStart (c.year + 1) := by
  have hday := c.day_le
  have hmonth : daysBefore c.year c.month + daysIn c.year c.month ≤ daysBefore c.year 13 :=
    daysBefore_mono c.year (Nat.lt_succ_of_le c.month_le)
  rw [yearStart_succ, dayNumber]
  omega

theorem dayNumber_lt_of_year {a b : DateTime} (h : a.year < b.year) :
    a.dayNumber < b.dayNumber := by
  have hstart : yearStart (a.year + 1) ≤ yearStart b.year := yearStart_mono (by omega)
  have ha := a.dayNumber_lt
  have hb := b.day_pos
  show _ < yearStart b.year + daysBefore b.year b.month + (b.day - 1)
  omega

theorem dayNumber_lt_of_month {a b : DateTime} (hyear : a.year = b.year) (h : a.month < b.month) :
    a.dayNumber < b.dayNumber := by
  have hmonth := daysBefore_mono a.year h
  have ha := a.day_le
  have hb := b.day_pos
  rw [dayNumber, dayNumber, ← hyear]
  omega

/-- A later day is a later instant. -/
theorem instant_lt_of_dayNumber {a b : DateTime} (h : a.dayNumber < b.dayNumber) :
    a.instant < b.instant := by
  have ha := a.timeOfDay_lt
  have hb := b.timeOfDay_nonneg
  rw [instant, instant]
  omega

/-- Instants grow with date-times. -/
theorem instant_lt_of_before {a b : DateTime} (h : a.Before b) : a.instant < b.instant := by
  rcases h with h | ⟨hyear, h⟩
  · exact instant_lt_of_dayNumber (dayNumber_lt_of_year h)
  rcases h with h | ⟨hmonth, h⟩
  · exact instant_lt_of_dayNumber (dayNumber_lt_of_month hyear h)
  -- the dates are in one month, and the rest is arithmetic
  have ha1 := a.minute_lt
  have ha2 := a.second_lt
  have ha3 := a.nano_lt
  have ha4 := a.hour_lt
  rw [instant, instant, dayNumber, dayNumber, timeOfDay, timeOfDay, hyear, hmonth]
  omega

/-- Of two dates, one is before the other. -/
theorem before_trichotomy (a b : DateTime) : a.Before b ∨ a = b ∨ b.Before a := by
  rw [DateTime.ext_iff, Before, Before]
  omega

/-- **Instants compare as date-times do.** -/
theorem instant_lt_iff {a b : DateTime} : a.instant < b.instant ↔ a.Before b := by
  refine ⟨fun h => ?_, instant_lt_of_before⟩
  rcases before_trichotomy a b with hab | rfl | hba
  · exact hab
  · omega
  · have hlt := instant_lt_of_before hba
    omega

/-- Dates are told apart by their instants. -/
theorem instant_injective : Function.Injective instant := by
  intro a b h
  rcases before_trichotomy a b with hab | rfl | hba
  · have hlt := instant_lt_of_before hab
    omega
  · rfl
  · have hlt := instant_lt_of_before hba
    omega

end DateTime

/-! ## The way back -/

/-- The year of a day number, and the day of that year. -/
def yearAndDay (d : ℤ) : ℤ × ℤ :=
  let n400 := d / 146097
  let d := d % 146097
  let n100 := if d / 36524 = 4 then 3 else d / 36524
  let d := d - 36524 * n100
  let n4 := d / 1461
  let d := d % 1461
  let n1 := if d / 365 = 4 then 3 else d / 365
  (400 * n400 + 100 * n100 + 4 * n4 + n1 + 1, d - 365 * n1)

/-- The start of a year that is written in cycles. -/
theorem yearStart_cycles {a b c e : ℤ} (hb : 0 ≤ b ∧ b ≤ 3) (hc : 0 ≤ c ∧ c ≤ 24)
    (he : 0 ≤ e ∧ e ≤ 3) :
    yearStart (400 * a + 100 * b + 4 * c + e + 1) = 146097 * a + 36524 * b + 1461 * c + 365 * e := by
  have h4 : (400 * a + 100 * b + 4 * c + e + 1 - 1) / 4 = 100 * a + 25 * b + c := by omega
  have h100 : (400 * a + 100 * b + 4 * c + e + 1 - 1) / 100 = 4 * a + b := by omega
  have h400 : (400 * a + 100 * b + 4 * c + e + 1 - 1) / 400 = a := by omega
  rw [yearStart, h4, h100, h400]
  omega

theorem yearAndDay_spec (d : ℤ) :
    yearStart (yearAndDay d).1 + (yearAndDay d).2 = d ∧ 0 ≤ (yearAndDay d).2 ∧
      (yearAndDay d).2 < daysBefore (yearAndDay d).1 13 := by
  -- the quotients, with what is left after each
  obtain ⟨a, r, hd, hr⟩ : ∃ a r, d = 146097 * a + r ∧ 0 ≤ r ∧ r < 146097 ∧
      a = d / 146097 ∧ r = d % 146097 := ⟨_, _, by omega, by omega, by omega, rfl, rfl⟩
  obtain ⟨b, hb⟩ : ∃ b, b = if r / 36524 = 4 then 3 else r / 36524 := ⟨_, rfl⟩
  have hb' : 0 ≤ b ∧ b ≤ 3 ∧ 0 ≤ r - 36524 * b ∧ r - 36524 * b ≤ 36524 ∧
      (r - 36524 * b = 36524 → b = 3) := by
    split at hb <;> omega
  obtain ⟨c, u, hs, hu⟩ : ∃ c u, r - 36524 * b = 1461 * c + u ∧ 0 ≤ u ∧ u < 1461 ∧
      c = (r - 36524 * b) / 1461 ∧ u = (r - 36524 * b) % 1461 :=
    ⟨_, _, by omega, by omega, by omega, rfl, rfl⟩
  obtain ⟨e, he⟩ : ∃ e, e = if u / 365 = 4 then 3 else u / 365 := ⟨_, rfl⟩
  have he' : 0 ≤ e ∧ e ≤ 3 ∧ 0 ≤ u - 365 * e ∧ u - 365 * e ≤ 365 ∧ (u - 365 * e = 365 → e = 3) := by
    split at he <;> omega
  have hyear : yearAndDay d = (400 * a + 100 * b + 4 * c + e + 1, u - 365 * e) := by
    rw [yearAndDay, ← hr.2.2.1, ← hr.2.2.2, ← hb, ← hu.2.2.1, ← hu.2.2.2, ← he]
  have hc : 0 ≤ c ∧ c ≤ 24 := by omega
  have hstart := @yearStart_cycles a b c e ⟨hb'.1, hb'.2.1⟩ hc ⟨he'.1, he'.2.1⟩
  rw [hyear]
  refine ⟨by rw [hstart]; omega, he'.2.2.1, ?_⟩
  rw [daysBefore_year]
  -- day 365 is there only if the year is a leap year
  rcases lt_or_eq_of_le he'.2.2.2.1 with hlt | heq
  · split
    · show u - 365 * e < 366
      omega
    · exact hlt
  · have hleap : isLeap (400 * a + 100 * b + 4 * c + e + 1) = true := by
      rw [isLeap_iff]
      have he3 := he'.2.2.2.2 heq
      omega
    rw [if_pos hleap]
    show u - 365 * e < 366
    omega

/-- The month of a day of a year. -/
def monthOf (y : ℤ) (d : ℕ) : ℕ := Nat.findGreatest (fun m => daysBefore y m ≤ d) 12

theorem monthOf_spec {y : ℤ} {d : ℕ} (h : d < daysBefore y 13) :
    1 ≤ monthOf y d ∧ monthOf y d ≤ 12 ∧ daysBefore y (monthOf y d) ≤ d ∧
      d < daysBefore y (monthOf y d) + daysIn y (monthOf y d) := by
  have hone : daysBefore y 1 ≤ d := Nat.zero_le _
  refine ⟨Nat.le_findGreatest (by omega) hone, Nat.findGreatest_le 12, ?_, ?_⟩
  · exact @Nat.findGreatest_spec 1 (fun m => daysBefore y m ≤ d) _ 12 (by omega) hone
  · show d < daysBefore y (monthOf y d + 1)
    rcases Nat.lt_or_ge (monthOf y d) 12 with hlt | hge
    · refine Nat.lt_of_not_le fun hle => ?_
      have hgreatest : Nat.findGreatest (fun m => daysBefore y m ≤ d) 12 < monthOf y d + 1 :=
        Nat.lt_succ_self _
      exact Nat.findGreatest_is_greatest hgreatest hlt hle
    · have heq : monthOf y d = 12 := le_antisymm (Nat.findGreatest_le 12) hge
      rw [heq]
      exact h

/-- The month of a day number, and the days before it. -/
theorem monthOf_yearAndDay (d : ℤ) :
    1 ≤ monthOf (yearAndDay d).1 (yearAndDay d).2.toNat ∧
    monthOf (yearAndDay d).1 (yearAndDay d).2.toNat ≤ 12 ∧
    daysBefore (yearAndDay d).1 (monthOf (yearAndDay d).1 (yearAndDay d).2.toNat) ≤
      (yearAndDay d).2.toNat ∧
    (yearAndDay d).2.toNat <
      daysBefore (yearAndDay d).1 (monthOf (yearAndDay d).1 (yearAndDay d).2.toNat) +
        daysIn (yearAndDay d).1 (monthOf (yearAndDay d).1 (yearAndDay d).2.toNat) := by
  obtain ⟨-, hnonneg, hlt⟩ := yearAndDay_spec d
  exact monthOf_spec (by omega)

/-- The date-time of an instant. -/
def ofInstant (t : ℤ) : DateTime where
  year := (yearAndDay (t / 86400000000000)).1
  month := monthOf (yearAndDay (t / 86400000000000)).1 (yearAndDay (t / 86400000000000)).2.toNat
  day := (yearAndDay (t / 86400000000000)).2.toNat - daysBefore (yearAndDay (t / 86400000000000)).1
    (monthOf (yearAndDay (t / 86400000000000)).1 (yearAndDay (t / 86400000000000)).2.toNat) + 1
  hour := (t % 86400000000000 / 3600000000000).toNat
  minute := (t % 86400000000000 / 60000000000 % 60).toNat
  second := (t % 86400000000000 / 1000000000 % 60).toNat
  nano := (t % 86400000000000 % 1000000000).toNat
  month_pos := (monthOf_yearAndDay _).1
  month_le := (monthOf_yearAndDay _).2.1
  day_pos := Nat.le_add_left 1 _
  day_le := by
    have hmonth := monthOf_yearAndDay (t / 86400000000000)
    omega
  hour_lt := by omega
  minute_lt := by omega
  second_lt := by omega
  nano_lt := by omega

/-- **An instant is the instant of its date-time.** -/
theorem instant_ofInstant (t : ℤ) : (ofInstant t).instant = t := by
  obtain ⟨hstart, hnonneg, -⟩ := yearAndDay_spec (t / 86400000000000)
  obtain ⟨-, -, hle, -⟩ := monthOf_yearAndDay (t / 86400000000000)
  have hday : (ofInstant t).dayNumber = t / 86400000000000 := by
    simp only [DateTime.dayNumber, ofInstant]
    omega
  have htime : (ofInstant t).timeOfDay = t % 86400000000000 := by
    simp only [DateTime.timeOfDay, ofInstant]
    omega
  rw [DateTime.instant, hday, htime]
  omega

/-- The date of an instant is the one it came from. -/
theorem ofInstant_instant (c : DateTime) : ofInstant c.instant = c :=
  DateTime.instant_injective (instant_ofInstant c.instant)

/-- The year of an instant is below `y` iff the instant is before `y`. -/
theorem year_lt_iff (t y : ℤ) : (ofInstant t).year < y ↔ t < yearStart y * 86400000000000 := by
  have hday : (ofInstant t).dayNumber * 86400000000000 + (ofInstant t).timeOfDay = t :=
    instant_ofInstant t
  have htime := (ofInstant t).timeOfDay_lt
  have htime0 := (ofInstant t).timeOfDay_nonneg
  constructor
  · intro h
    have hlt := (ofInstant t).dayNumber_lt
    have hstart : yearStart ((ofInstant t).year + 1) ≤ yearStart y := yearStart_mono (by omega)
    omega
  · intro h
    by_contra hge
    have hstart : yearStart y ≤ yearStart (ofInstant t).year := yearStart_mono (by omega)
    have hpos := (ofInstant t).day_pos
    rw [DateTime.dayNumber] at hday
    omega

/-- The date-time in whole milliseconds. -/
def DateTime.toMilli (c : DateTime) : DateTime :=
  { c with
    nano := c.nano / 1000000 * 1000000
    nano_lt := lt_of_le_of_lt (Nat.div_mul_le_self _ _) c.nano_lt }

/-- A second has a whole number of milliseconds, so the instant is cut off in the same place. -/
theorem instant_toMilli (c : DateTime) : c.toMilli.instant = c.instant / 1000000 * 1000000 := by
  simp only [DateTime.instant, DateTime.dayNumber, DateTime.timeOfDay, DateTime.toMilli]
  omega

end Calendar
