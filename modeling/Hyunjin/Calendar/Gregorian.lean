import Mathlib

/-!
# Gregorian dates

Dates of the Gregorian calendar, extended to all years. The days are numbered from the first day of
the year 1, a Monday, and the next day has the next number (`ordinal_next`). A week of the year is
counted from the one that includes 4 January, with its Monday as its first day.
-/

namespace Calendar

/-! ## Years and months -/

/-- A leap year. -/
def IsLeap (year : ℤ) : Prop := year % 4 = 0 ∧ (year % 100 ≠ 0 ∨ year % 400 = 0)

instance (year : ℤ) : Decidable (IsLeap year) := inferInstanceAs (Decidable (_ ∧ _))

/-- The days of a month. -/
def daysInMonth (year : ℤ) (month : ℕ) : ℤ :=
  if month = 2 then if IsLeap year then 29 else 28
  else if month = 4 ∨ month = 6 ∨ month = 9 ∨ month = 11 then 30
  else 31

/-- The days of the first months of a year. -/
def daysOfMonths (year : ℤ) : ℕ → ℤ
  | 0 => 0
  | month + 1 => daysOfMonths year month + daysInMonth year (month + 1)

/-- The leap years up to a year, from the year 1 on. -/
def leapDays (year : ℤ) : ℤ := year / 4 - year / 100 + year / 400

theorem leapDays_eq (year : ℤ) :
    leapDays year = leapDays (year - 1) + if IsLeap year then 1 else 0 := by
  unfold leapDays IsLeap
  split_ifs with h <;> omega

/-- A number of years as 400-year cycles, centuries, 4-year cycles and single years. -/
structure Cycles where
  eras : ℤ
  centuries : ℤ
  olympiads : ℤ
  years : ℤ
  centuries_lt : 0 ≤ centuries ∧ centuries < 4
  olympiads_lt : 0 ≤ olympiads ∧ olympiads < 25
  years_lt : 0 ≤ years ∧ years < 4

namespace Cycles

def total (c : Cycles) : ℤ := 400 * c.eras + 100 * c.centuries + 4 * c.olympiads + c.years

theorem exists_total_eq (n : ℤ) : ∃ c : Cycles, c.total = n := by
  refine ⟨⟨n / 400, n % 400 / 100, n % 100 / 4, n % 4, ?_, ?_, ?_⟩, ?_⟩
  · omega
  · omega
  · omega
  · simp only [total]
    omega

theorem leapDays_total (c : Cycles) :
    leapDays c.total = 97 * c.eras + 24 * c.centuries + c.olympiads := by
  obtain ⟨q, c, f, i, hc, hf, hi⟩ := c
  simp only [leapDays, total]
  omega

/-- The leap years end the cycles of four years, but not the first three centuries. -/
theorem isLeap_total_succ (c : Cycles) :
    IsLeap (c.total + 1) ↔ c.years = 3 ∧ (c.olympiads ≠ 24 ∨ c.centuries = 3) := by
  obtain ⟨q, c, f, i, hc, hf, hi⟩ := c
  simp only [IsLeap, total]
  omega

/-- The last day of a leap year is the only one after 364 others. -/
theorem le_or_last (c : Cycles) {n : ℤ}
    (h : n ≤ 364 + if IsLeap (c.total + 1) then 1 else 0) :
    n ≤ 364 ∨ n = 365 ∧ c.years = 3 ∧ (c.olympiads ≠ 24 ∨ c.centuries = 3) := by
  rw [← c.isLeap_total_succ]
  split_ifs at h with hleap
  · rcases Int.lt_or_eq_of_le h with hlt | heq
    · exact .inl (Int.le_of_lt_add_one hlt)
    · exact .inr ⟨heq, hleap⟩
  · exact .inl (h.trans (by decide))

end Cycles

/-- The days before the year, from the year 1 on. -/
def daysBefore (year : ℤ) : ℤ := 365 * (year - 1) + leapDays (year - 1)

theorem daysBefore_succ (year : ℤ) :
    daysBefore (year + 1) = daysBefore year + 365 + if IsLeap year then 1 else 0 := by
  rw [daysBefore, daysBefore, Int.add_sub_cancel, leapDays_eq]
  omega

theorem daysOfMonths_twelve (year : ℤ) :
    daysOfMonths year 12 = 365 + if IsLeap year then 1 else 0 := by
  by_cases hleap : IsLeap year <;> simp [daysOfMonths, daysInMonth, hleap]

/-- The months from March on follow each other as the numbers `(153 * k + 2) / 5`. -/
theorem daysOfMonths_of_le_two (year : ℤ) {month : ℕ} (hpos : 1 ≤ month) (h : month ≤ 2) :
    daysOfMonths year (month - 1) = (153 * (month + 9) + 2) / 5 - 306 := by
  interval_cases month <;> simp [daysOfMonths, daysInMonth]

theorem daysOfMonths_of_gt_two (year : ℤ) {month : ℕ} (h : 2 < month) (hle : month ≤ 12) :
    daysOfMonths year (month - 1) =
      (153 * (month - 3) + 2) / 5 + 59 + if IsLeap year then 1 else 0 := by
  by_cases hleap : IsLeap year <;> interval_cases month <;>
    simp [daysOfMonths, daysInMonth, hleap]

theorem one_le_daysInMonth (year : ℤ) (month : ℕ) : 1 ≤ daysInMonth year month := by
  unfold daysInMonth
  split_ifs <;> decide

theorem daysInMonth_two (year : ℤ) :
    daysInMonth year 2 = 28 + if IsLeap year then 1 else 0 := by
  rw [daysInMonth, if_pos rfl]
  split_ifs <;> rfl

theorem daysInMonth_of_gt_two (year : ℤ) {month : ℕ} (h : 2 < month) (hle : month ≤ 12) :
    daysInMonth year month = (153 * (month - 2) + 2) / 5 - (153 * (month - 3) + 2) / 5 := by
  interval_cases month <;> simp [daysInMonth]

theorem daysOfMonths_mono (year : ℤ) : Monotone (daysOfMonths year) :=
  monotone_nat_of_le_succ fun month ↦
    Int.le_add_of_nonneg_right (Int.le_of_lt (one_le_daysInMonth year (month + 1)))

/-! ## Dates -/

/-- A date of the calendar. -/
@[ext] structure Date where
  year : ℤ
  month : ℕ
  day : ℤ
  one_le_month : 1 ≤ month
  month_le : month ≤ 12
  one_le_day : 1 ≤ day
  day_le : day ≤ daysInMonth year month

namespace Date

/-- The day of the year. -/
def yearday (date : Date) : ℤ := daysOfMonths date.year (date.month - 1) + date.day

/-- The number of the day; 1 January of the year 1 has the number 1. -/
def ordinal (date : Date) : ℤ := daysBefore date.year + date.yearday

/-- The next day. -/
def next (date : Date) : Date :=
  if hday : date.day < daysInMonth date.year date.month then
    { date with
      day := date.day + 1
      one_le_day := Int.le_add_one date.one_le_day
      day_le := hday }
  else if hmonth : date.month < 12 then
    { year := date.year, month := date.month + 1, day := 1
      one_le_month := Nat.le_add_left 1 date.month
      month_le := hmonth
      one_le_day := le_rfl
      day_le := one_le_daysInMonth _ _ }
  else
    { year := date.year + 1, month := 1, day := 1
      one_le_month := le_rfl
      month_le := by decide
      one_le_day := le_rfl
      day_le := one_le_daysInMonth _ _ }

/-- **The next day** has the next number. -/
theorem ordinal_next (date : Date) : date.next.ordinal = date.ordinal + 1 := by
  rw [next]
  split_ifs with hday hmonth
  · simp only [ordinal, yearday]
    omega
  · have hlast : date.day = daysInMonth date.year date.month :=
      le_antisymm date.day_le (not_lt.mp hday)
    obtain ⟨month, hmonth⟩ := Nat.exists_eq_add_of_le' date.one_le_month
    simp only [ordinal, yearday, hlast, hmonth, Nat.add_sub_cancel, daysOfMonths]
    omega
  · have hlast : date.day = daysInMonth date.year date.month :=
      le_antisymm date.day_le (not_lt.mp hday)
    have hdecember : date.month = 12 := le_antisymm date.month_le (not_lt.mp hmonth)
    have htwelve : daysOfMonths date.year 11 + daysInMonth date.year 12 =
        365 + if IsLeap date.year then 1 else 0 := daysOfMonths_twelve date.year
    simp only [ordinal, yearday, hlast, hdecember, daysBefore_succ, Nat.reduceSub]
    rw [daysOfMonths]
    omega

/-- After `n` days. -/
theorem ordinal_iterate_next (date : Date) (n : ℕ) :
    (next^[n] date).ordinal = date.ordinal + n := by
  induction n with
  | zero => simp
  | succ n ih =>
    rw [Function.iterate_succ_apply', ordinal_next, ih]
    omega

theorem year_le_iterate_next (date : Date) (n : ℕ) : date.year ≤ (next^[n] date).year := by
  induction n with
  | zero => exact le_rfl
  | succ n ih =>
    refine ih.trans ?_
    rw [Function.iterate_succ_apply', next]
    split_ifs
    · exact le_rfl
    · exact le_rfl
    · exact Int.le_add_one le_rfl

theorem one_le_yearday (date : Date) : 1 ≤ date.yearday :=
  Int.add_le_add (daysOfMonths_mono date.year (Nat.zero_le _)) date.one_le_day

theorem yearday_le (date : Date) : date.yearday ≤ 365 + if IsLeap date.year then 1 else 0 := by
  obtain ⟨month, hmonth⟩ := Nat.exists_eq_add_of_le' date.one_le_month
  have hday := date.day_le
  have hle := daysOfMonths_mono date.year date.month_le
  rw [daysOfMonths_twelve] at hle
  rw [hmonth] at hday hle
  rw [daysOfMonths] at hle
  rw [yearday, hmonth, Nat.add_sub_cancel]
  omega

/-- January has the first 31 days. -/
theorem month_eq_one_iff (date : Date) : date.month = 1 ↔ date.yearday ≤ 31 := by
  have hday := date.one_le_day
  have hle := date.day_le
  constructor
  · intro h
    rw [h] at hle
    rwa [yearday, h, Nat.sub_self, daysOfMonths, zero_add]
  · intro h
    by_contra hne
    have hmono : daysOfMonths date.year 1 ≤ daysOfMonths date.year (date.month - 1) :=
      daysOfMonths_mono date.year (by have := date.one_le_month; omega)
    have hjanuary : daysOfMonths date.year 1 = 31 := rfl
    rw [yearday] at h
    omega

/-- December has the last 31 days. -/
theorem month_eq_twelve_iff (date : Date) :
    date.month = 12 ↔ 334 + (if IsLeap date.year then 1 else 0) < date.yearday := by
  have hday := date.one_le_day
  have hle := date.day_le
  have hdecember : daysOfMonths date.year 11 + 31 = 365 + if IsLeap date.year then 1 else 0 :=
    daysOfMonths_twelve date.year
  constructor
  · intro h
    simp only [yearday, h, Nat.reduceSub]
    omega
  · intro h
    by_contra hne
    obtain ⟨month, hmonth⟩ := Nat.exists_eq_add_of_le' date.one_le_month
    have hmono : daysOfMonths date.year (month + 1) ≤ daysOfMonths date.year 11 :=
      daysOfMonths_mono date.year (by have := date.month_le; omega)
    rw [daysOfMonths] at hmono
    rw [hmonth] at hle
    rw [yearday, hmonth, Nat.add_sub_cancel] at h
    omega

end Date

/-! ## Weeks -/

/-- The Monday of the week of a day. -/
def monday (n : ℤ) : ℤ := n - (n - 1) % 7

/-- The first day of the week that includes 4 January. -/
def weekOne (year : ℤ) : ℤ := monday (daysBefore year + 4)

/-- The day `n` is in the week `week` of the year `year`. -/
structure IsoWeek (n year week : ℤ) : Prop where
  starts : weekOne year ≤ n
  ends : n < weekOne (year + 1)
  number : week = (n - weekOne year) / 7 + 1

/-- **A week belongs to the year** that has its Thursday. -/
theorem isoWeek_iff (n year week : ℤ) : IsoWeek n year week ↔
    daysBefore year < monday n + 3 ∧ monday n + 3 ≤ daysBefore (year + 1) ∧
      week = (monday n + 3 - daysBefore year - 1) / 7 + 1 := by
  have hiff : IsoWeek n year week ↔ weekOne year ≤ n ∧ n < weekOne (year + 1) ∧
      week = (n - weekOne year) / 7 + 1 := ⟨fun h ↦ ⟨h.1, h.2, h.3⟩, fun h ↦ ⟨h.1, h.2.1, h.2.2⟩⟩
  rw [hiff]
  unfold weekOne monday
  omega

end Calendar
