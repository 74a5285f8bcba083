import Hyunjin.Calendar.Gregorian
import Hyunjin.Text.Decimal
import Mathlib.Tactic.Ring

/-!
# Names of rotated logs

`__get_logname` adds the start of the current period to the name of the log. The days are counted as
Julian day numbers, and a period of `n` days starts where the number is a multiple of `n`. A number
is turned back into a date by the macro `_jdn2ymd`, and for a week the number of the week is found
from the day number alone. A `long` has all numbers here: there is no overflow.
-/

namespace Hyunjin

open Calendar

/-! ## Julian day numbers -/

/-- `__ymd2jdn` -/
def ymd2jdn (yy mm dd : ℤ) : ℤ :=
  let m := mm
  let a := (14 - m).tdiv 12
  let y := yy + 4800 - a
  let m := m + 12 * a - 3
  dd + (153 * m + 2).tdiv 5 + y * 365 + y.tdiv 4 - y.tdiv 100 + y.tdiv 400 - 32045

/-- `_jdn2ymd`, a year with its month and day. -/
def jdn2ymd (j : ℤ) : ℤ × ℤ × ℤ :=
  let a := j + 32044
  let b := (4 * a + 3).tdiv 146097
  let c := a - (b * 146097).tdiv 4
  let d := (4 * c + 3).tdiv 1461
  let e := c - (1461 * d).tdiv 4
  let f := (5 * e + 2).tdiv 153
  (b * 100 + d - 4800 + f.tdiv 10, f + 3 - 12 * f.tdiv 10, e - (153 * f + 2).tdiv 5 + 1)

/-! ## The names -/

/-- The time as `gmtime` and `localtime` break it down. -/
structure Tm where
  tmYear : ℤ
  tmMon : ℤ
  tmMday : ℤ
  tmYday : ℤ

/-- The fields are in their ranges, and the year is one from 1970 to 9999. -/
def Tm.Usable (tm : Tm) : Prop :=
  0 ≤ tm.tmMon ∧ tm.tmMon < 12 ∧ 70 ≤ tm.tmYear ∧ tm.tmYear ≤ 9999 - 1900 ∧
    1 ≤ tm.tmMday ∧ tm.tmMday ≤ 31 ∧ 0 ≤ tm.tmYday ∧ tm.tmYday ≤ 366

instance (tm : Tm) : Decidable tm.Usable := by
  unfold Tm.Usable
  infer_instance

/-- The characters of a string. -/
def literal (s : String) : List U8 := s.toList.map fun c ↦ BitVec.ofNat 8 c.toNat

/-- A number as `%02d` prints it, where a sign takes one of the places. -/
def twoDigits (n : ℤ) : List U8 :=
  if n < 0 then literal "-" ++ decimal n.natAbs else padded 2 n.natAbs

def monnames : List (List U8) :=
  ["jan", "feb", "mar", "apr", "may", "jun", "jul", "aug", "sep", "oct", "nov", "dec"].map literal

/-- The year and the week of a weekly log. -/
def yearWeek (year month mday : ℤ) : ℤ × ℤ :=
  let jdn := ymd2jdn year month mday
  let d4 := (jdn + 31741 - jdn % 7) % 146097 % 36524 % 1461
  let L := d4 / 1460
  let week := ((d4 - L) % 365 + L) / 7 + 1
  (year + ((if week = 1 ∧ month = 12 then 1 else 0) - if 51 < week ∧ month = 1 then 1 else 0), week)

/-- The date of a log for any other number of days. -/
def periodStart (logfileLimit year month day : ℤ) : ℤ × ℤ × ℤ :=
  if 1 < logfileLimit then
    let jdn := ymd2jdn year month day
    jdn2ymd (jdn - jdn % logfileLimit)
  else (year, month, day)

/-- A date as two digits each of the year, the month and the day. -/
def dateStamp (date : ℤ × ℤ × ℤ) : List U8 :=
  twoDigits (date.1.tmod 100) ++ twoDigits date.2.1 ++ twoDigits date.2.2

/-- What is added to the name of a log that is rotated. -/
def rotsuffix (logfileLimit : ℤ) (tm : Tm) : List U8 :=
  if 28 ≤ logfileLimit ∧ logfileLimit ≤ 31 then
    twoDigits (tm.tmYear.tmod 100) ++ monnames.getD tm.tmMon.toNat []
  else if logfileLimit = 365 then padded 4 (tm.tmYear + 1900).natAbs
  else if logfileLimit = 7 then
    let (year, week) := yearWeek (tm.tmYear + 1900) (tm.tmMon + 1) tm.tmMday
    twoDigits (year.tmod 100) ++ literal "w" ++ twoDigits week
  else dateStamp (periodStart logfileLimit (tm.tmYear + 1900) (tm.tmMon + 1) tm.tmMday)

/-- What a log is limited by. -/
inductive LogfileType
  | none
  | noLimit
  | restart
  | fifo
  | rotate

/-- `__get_logname` for a buffer of `buflen` bytes; `none` if there is no log. -/
def getLogname (logfileType : LogfileType) (logfileLimit : ℤ) (now : Option Tm) (logfile : List U8)
    (buflen : ℕ) : Option (List U8) :=
  let plain := if logfile = [] then Option.none else some (logfile.take (buflen - 1))
  if buflen = 0 then .none
  else match logfileType with
    | .none => .none
    | .rotate => if 0 < logfileLimit then (now.filter fun tm ↦ tm.Usable).map fun tm ↦
        (logfile ++ rotsuffix logfileLimit tm ++ literal ".log").take (buflen - 1) else .none
    | .restart => if logfileLimit < 1 then .none else plain
    | .fifo => plain
    | .noLimit => plain

/-! ## Dates and numbers -/

/-- The Julian day number of a date. -/
def jdnOf (date : Date) : ℤ := ymd2jdn date.year date.month date.day

/-- The years here start at 1 March, the first of them in the year -4800. -/
theorem ymd2jdn_eq {yy mm dd : ℤ} (hyear : -4800 < yy) (hpos : 1 ≤ mm) (hle : mm ≤ 12) :
    ymd2jdn yy mm dd = if mm ≤ 2 then
        dd + (153 * (mm + 9) + 2) / 5 + 365 * (yy + 4799) + leapDays (yy + 4799) - 32045
      else dd + (153 * (mm - 3) + 2) / 5 + 365 * (yy + 4800) + leapDays (yy + 4800) - 32045 := by
  have ha : (14 - mm).tdiv 12 = if mm ≤ 2 then 1 else 0 := by
    rw [Int.tdiv_eq_ediv_of_nonneg (by omega)]
    split_ifs <;> omega
  simp only [ymd2jdn, ha, leapDays]
  split_ifs with h
  · rw [Int.tdiv_eq_ediv_of_nonneg (by omega), Int.tdiv_eq_ediv_of_nonneg (by omega),
      Int.tdiv_eq_ediv_of_nonneg (by omega), Int.tdiv_eq_ediv_of_nonneg (by omega)]
    omega
  · rw [Int.tdiv_eq_ediv_of_nonneg (by omega), Int.tdiv_eq_ediv_of_nonneg (by omega),
      Int.tdiv_eq_ediv_of_nonneg (by omega), Int.tdiv_eq_ediv_of_nonneg (by omega)]
    omega

/-- **Julian day numbers count the days.** -/
theorem jdnOf_eq {date : Date} (hyear : -4800 < date.year) :
    jdnOf date = date.ordinal + 1721425 := by
  have hpos := date.one_le_month
  have hle := date.month_le
  rw [jdnOf, ymd2jdn_eq hyear (by omega) (by omega), Date.ordinal, Date.yearday, daysBefore]
  rcases Nat.lt_or_ge 2 date.month with h | h
  · have hleap := leapDays_eq date.year
    rw [if_neg (by omega), daysOfMonths_of_gt_two _ h hle]
    unfold leapDays at hleap ⊢
    omega
  · rw [if_pos (by omega), daysOfMonths_of_le_two _ hpos h]
    unfold leapDays
    omega

/-- The divisions give back a year and a month that are counted from March. The year is found over
cycles of 100 years, and the rest over cycles of four years. -/
theorem jdn2ymd_march {Y M day : ℤ} (hY : 0 ≤ Y) (hM : 0 ≤ M ∧ M ≤ 11) (hpos : 1 ≤ day)
    (hmonth : day + (153 * M + 2) / 5 ≤ (153 * (M + 1) + 2) / 5)
    (hday : day + (153 * M + 2) / 5 ≤ 365 + if IsLeap (Y + 1) then 1 else 0) :
    jdn2ymd (day + (153 * M + 2) / 5 + 365 * Y + leapDays Y - 32045) =
      (Y - 4800 + M / 10, M + 3 - 12 * (M / 10), day) := by
  obtain ⟨Y, rfl⟩ := Cycles.exists_total_eq Y
  obtain ⟨e, he⟩ : ∃ e, e = day - 1 + (153 * M + 2) / 5 := ⟨_, rfl⟩
  rw [show day + (153 * M + 2) / 5 = e + 1 by omega] at hmonth hday ⊢
  rw [Y.leapDays_total]
  have hlast := Y.le_or_last (n := e) (by split_ifs at hday ⊢ <;> omega)
  have hfirst : 0 ≤ e := by
    omega
  have hf : (5 * e + 2).tdiv 153 = M := by
    rw [Int.tdiv_eq_ediv_of_nonneg (by omega)]
    omega
  have hfive : (153 * M + 2).tdiv 5 = (153 * M + 2) / 5 := Int.tdiv_eq_ediv_of_nonneg (by omega)
  obtain ⟨q, c, f, i, hc, hfour, hi⟩ := Y
  dsimp only [Cycles.total] at *
  have hq : 0 ≤ q := by
    omega
  clear hmonth hday
  have ha : e + 1 + 365 * (400 * q + 100 * c + 4 * f + i) + (97 * q + 24 * c + f) - 32045 + 32044 =
      146097 * q + 36524 * c + 1461 * f + 365 * i + e := by
    omega
  have hb : (4 * (146097 * q + 36524 * c + 1461 * f + 365 * i + e) + 3).tdiv 146097 =
      4 * q + c := by
    rw [Int.tdiv_eq_ediv_of_nonneg (by omega)]
    omega
  have hrest : 146097 * q + 36524 * c + 1461 * f + 365 * i + e - ((4 * q + c) * 146097).tdiv 4 =
      1461 * f + 365 * i + e := by
    rw [Int.tdiv_eq_ediv_of_nonneg (by omega)]
    omega
  have hd : (4 * (1461 * f + 365 * i + e) + 3).tdiv 1461 = 4 * f + i := by
    rw [Int.tdiv_eq_ediv_of_nonneg (by omega)]
    omega
  have hyearday : 1461 * f + 365 * i + e - (1461 * (4 * f + i)).tdiv 4 = e := by
    rw [Int.tdiv_eq_ediv_of_nonneg (by omega)]
    omega
  simp only [jdn2ymd, ha, hb, hrest, hd, hyearday, hf, hfive, Int.tdiv_eq_ediv_of_nonneg hM.1]
  refine Prod.ext ?_ (Prod.ext rfl ?_)
  · dsimp only
    omega
  · dsimp only
    omega

theorem isLeap_add_4800 (year : ℤ) : IsLeap (year + 4800) ↔ IsLeap year := by
  unfold IsLeap
  omega

theorem leapDays_add_4800 (year : ℤ) : leapDays (year + 4800) = leapDays year + 1164 := by
  unfold leapDays
  omega

/-- **A date is found again** from its number. -/
theorem jdn2ymd_jdnOf {date : Date} (hyear : -4800 < date.year) :
    jdn2ymd (jdnOf date) = (date.year, (date.month : ℤ), date.day) := by
  obtain ⟨year, month, day, hpos, hle, hday, hday_le⟩ := date
  dsimp only [jdnOf] at hyear ⊢
  rw [ymd2jdn_eq hyear (by omega) (by omega)]
  rcases Nat.lt_or_ge 2 month with h | h
  · rw [daysInMonth_of_gt_two year h hle] at hday_le
    rw [if_neg (by omega), jdn2ymd_march (by omega) (by omega) hday (by omega)
      (by split_ifs <;> omega)]
    refine Prod.ext ?_ (Prod.ext ?_ rfl)
    · dsimp only
      omega
    · dsimp only
      omega
  · have hday_le' : day ≤ 31 ∧ (month = 2 → day ≤ 28 + if IsLeap year then 1 else 0) := by
      constructor
      · refine hday_le.trans ?_
        unfold daysInMonth
        split_ifs <;> decide
      · rintro rfl
        rwa [daysInMonth_two] at hday_le
    have hlast : day + (153 * (month + 9) + 2) / 5 ≤
        365 + if IsLeap (year + 4799 + 1) then 1 else 0 := by
      rw [show year + 4799 + 1 = year + 4800 by omega]
      simp only [isLeap_add_4800]
      split_ifs at hday_le' ⊢ <;> omega
    rw [if_pos (by omega), jdn2ymd_march (by omega) (by omega) hday
      (by split_ifs at hlast <;> omega) hlast]
    refine Prod.ext ?_ (Prod.ext ?_ rfl)
    · dsimp only
      omega
    · dsimp only
      omega

/-- The first day that has a number. -/
def dayZero : Date := ⟨-4713, 11, 24, by decide, by decide, by decide, by decide⟩

/-- **Every number is that of a date.** -/
theorem exists_jdnOf_eq {j : ℤ} (h : 0 ≤ j) :
    ∃ date : Date, -4800 < date.year ∧ jdnOf date = j := by
  obtain ⟨n, rfl⟩ := Int.eq_ofNat_of_zero_le h
  have hyear : -4800 < (Date.next^[n] dayZero).year :=
    Int.lt_of_lt_of_le (by decide) (dayZero.year_le_iterate_next n)
  refine ⟨_, hyear, ?_⟩
  rw [jdnOf_eq hyear, Date.ordinal_iterate_next, show dayZero.ordinal = -1721425 by decide]
  omega

/-! ## Dates of logs -/

/-- A date from the year 1 on. -/
abbrev LogDate := {date : Date // 1 ≤ date.year}

/-- The time that is broken down to a date. -/
def tmOf (date : Date) : Tm := ⟨date.year - 1900, date.month - 1, date.day, date.yearday - 1⟩

/-- The number of days after which a log with a date is changed; those of a day, a week, a month and
a year have names of their own. -/
abbrev Period :=
  {n : ℤ // 1 < n ∧ n ≠ 7 ∧ ¬(28 ≤ n ∧ n ≤ 31) ∧ n ≠ 365}

theorem jdnOf_nonneg (date : LogDate) : 0 ≤ jdnOf date.1 := by
  have hyear := date.2
  have hday := date.1.one_le_yearday
  rw [jdnOf_eq (by omega), Date.ordinal, daysBefore, leapDays]
  omega

theorem sub_emod_of_dvd {first j n : ℤ} (hdvd : n ∣ first) (hle : first ≤ j) (hlt : j < first + n) :
    j - j % n = first := by
  obtain ⟨k, rfl⟩ := hdvd
  obtain ⟨r, rfl⟩ := Int.exists_add_of_le hle
  rw [Int.add_comm, Int.add_mul_emod_self_left,
    Int.emod_eq_of_lt (by omega) (Int.lt_of_add_lt_add_left hlt)]
  omega

/-- **The stamp** is the date of the day on which the period starts. -/
theorem rotsuffix_period {n : Period} {date : LogDate} {first : Date} (hyear : -4800 < first.year)
    (h : jdnOf date.1 - jdnOf date.1 % n = jdnOf first) :
    rotsuffix n (tmOf date) = dateStamp (first.year, (first.month : ℤ), first.day) := by
  obtain ⟨n, hn, hweek, hmonth, hyears⟩ := n
  rw [rotsuffix, if_neg hmonth, if_neg hyears, if_neg hweek]
  simp only [periodStart, tmOf, Int.sub_add_cancel, if_pos hn]
  rw [show ymd2jdn date.1.year date.1.month date.1.day = jdnOf date.1 from rfl, h,
    jdn2ymd_jdnOf hyear]

/-! ## Weeks -/

/-- The day of the year in a cycle of four years, of which the last is a leap year. -/
theorem yearday_olympiad {i r : ℤ} (hi : 0 ≤ i ∧ i < 4) (hpos : 0 ≤ r)
    (hle : r ≤ 364 ∨ r = 365 ∧ i = 3) :
    0 ≤ 365 * i + r ∧ 365 * i + r ≤ 1460 ∧ (365 * i + r = 1460 → r = 365) ∧
      (365 * i + r - (365 * i + r) / 1460) % 365 + (365 * i + r) / 1460 = r := by
  omega

/-- The rests in the cycles. They fail on the last day of 400 years only, which is no Thursday. -/
theorem emod_cycles {q c f s : ℤ} (hc : 0 ≤ c ∧ c < 4) (hf : 0 ≤ f ∧ f < 25) (hpos : 0 ≤ s)
    (hle : s ≤ 1460) (hlast : s = 1460 → f ≠ 24 ∨ c = 3)
    (hthursday : (36524 * c + 1461 * f + s + 146097 * q) % 7 = 3) :
    (36524 * c + 1461 * f + s + 146097 * q) % 146097 % 36524 % 1461 = s := by
  have hlt : 36524 * c + 1461 * f + s < 146097 := by
    omega
  have hday : (36524 * c + 1461 * f + s) % 7 = 3 := by
    rwa [show 146097 * q = 7 * (20871 * q) by ring, Int.add_mul_emod_self_left] at hthursday
  have hera : (36524 * c + 1461 * f + s + 146097 * q) % 146097 = 36524 * c + 1461 * f + s := by
    rw [Int.add_mul_emod_self_left]
    exact Int.emod_eq_of_lt (by omega) hlt
  have hcentury : 1461 * f + s < 36524 := by
    by_contra hge
    have hend : s = 1460 ∧ f = 24 := by
      omega
    have hthree : c = 3 := (hlast hend.1).resolve_left (not_not_intro hend.2)
    rw [hthree, hend.1, hend.2] at hday
    exact absurd hday (by decide)
  rw [hera, show 36524 * c + 1461 * f + s = 1461 * f + s + 36524 * c by omega,
    Int.add_mul_emod_self_left, Int.emod_eq_of_lt (by omega) hcentury,
    show 1461 * f + s = s + 1461 * f by omega, Int.add_mul_emod_self_left]
  exact Int.emod_eq_of_lt hpos (by omega)

/-- The day of the year of a Thursday is found by the divisions. -/
theorem yearday_thursday {z T r : ℤ} (hT : T = 365 * z + leapDays z + r) (hpos : 0 ≤ r)
    (hle : r ≤ 364 + if IsLeap (z + 1) then 1 else 0) (hthursday : T % 7 = 3) :
    (T % 146097 % 36524 % 1461 - T % 146097 % 36524 % 1461 / 1460) % 365 +
      T % 146097 % 36524 % 1461 / 1460 = r := by
  obtain ⟨z, rfl⟩ := Cycles.exists_total_eq z
  have hlast := z.le_or_last hle
  rw [z.leapDays_total] at hT
  have hfour : r ≤ 364 ∨ r = 365 ∧ z.years = 3 := hlast.imp_right fun h ↦ ⟨h.1, h.2.1⟩
  obtain ⟨hfirst, hend, heq, hday⟩ := yearday_olympiad z.years_lt hpos hfour
  have hcentury (h : 365 * z.years + r = 1460) : z.olympiads ≠ 24 ∨ z.centuries = 3 := by
    rcases hlast with hlt | hleap
    · exact absurd (heq h) (ne_of_lt (Int.lt_of_le_of_lt hlt (by decide)))
    · exact hleap.2.2
  have hsum : T = 36524 * z.centuries + 1461 * z.olympiads + (365 * z.years + r) +
      146097 * z.eras := by
    rw [hT, Cycles.total]
    ring
  rw [hsum] at hthursday
  rw [hsum, emod_cycles z.centuries_lt z.olympiads_lt hfirst hend hcentury hthursday]
  exact hday

/-- The days from 1 January of the year -4799 to the Thursday of a week. -/
theorem thursday_eq (n : ℤ) :
    n + 1721425 + 31741 - (n + 1721425) % 7 = monday n + 3 + 1753163 := by
  unfold monday
  omega

theorem monday_mod_seven (n : ℤ) : monday n % 7 = 1 := by
  unfold monday
  omega

/-- **The year and the week** are those of the calendar. -/
theorem isoWeek_yearWeek (date : LogDate) :
    IsoWeek date.1.ordinal (yearWeek date.1.year date.1.month date.1.day).1
      (yearWeek date.1.year date.1.month date.1.day).2 := by
  obtain ⟨date, hyear⟩ := date
  have hjdn : ymd2jdn date.year date.month date.day = date.ordinal + 1721425 :=
    jdnOf_eq (by omega)
  obtain ⟨t, ht⟩ : ∃ t, t = monday date.ordinal + 3 := ⟨_, rfl⟩
  have hnear : date.ordinal - 3 ≤ t ∧ t ≤ date.ordinal + 3 := by
    rw [ht, monday]
    omega
  have hthursday : (t + 1753163) % 7 = 3 := by
    have := monday_mod_seven date.ordinal
    omega
  -- the day of the year of the Thursday, in whichever year it is
  have hrest {year : ℤ} (hlt : daysBefore year < t) (hle : t ≤ daysBefore (year + 1)) :
      ((t + 1753163) % 146097 % 36524 % 1461 - (t + 1753163) % 146097 % 36524 % 1461 / 1460) % 365 +
        (t + 1753163) % 146097 % 36524 % 1461 / 1460 = t - daysBefore year - 1 := by
    refine yearday_thursday (z := year + 4799) ?_ (by omega) ?_ hthursday
    · have hleap := leapDays_add_4800 (year - 1)
      rw [show year - 1 + 4800 = year + 4799 by omega] at hleap
      rw [hleap, daysBefore]
      omega
    · rw [daysBefore_succ] at hle
      rw [show year + 4799 + 1 = year + 4800 by omega]
      simp only [isLeap_add_4800]
      omega
  have hfirst := date.one_le_yearday
  have hlast := date.yearday_le
  have hjanuary := date.month_eq_one_iff
  have hdecember := date.month_eq_twelve_iff
  have hnext := daysBefore_succ date.year
  rw [isoWeek_iff, ← ht]
  simp only [yearWeek, hjdn, thursday_eq, ← ht]
  generalize _ % 365 + (t + 1753163) % 146097 % 36524 % 1461 / 1460 = rest at hrest ⊢
  rw [Date.ordinal] at hnear
  rcases Int.lt_or_le (daysBefore date.year) t with hlt | hbefore
  · rcases Int.lt_or_le (daysBefore (date.year + 1)) t with hafter | hle
    · -- the last days of December, in the first week of the next year
      have hyears := daysBefore_succ (date.year + 1)
      have hweek := hrest hafter (by omega)
      rw [if_pos (by omega), if_neg (by omega), Int.sub_zero, ← hweek]
      exact ⟨hafter, by omega, rfl⟩
    · have hweek := hrest hlt hle
      rw [if_neg (by omega), if_neg (by omega), Int.sub_zero, Int.add_zero, ← hweek]
      exact ⟨hlt, hle, rfl⟩
  · -- the first days of January, in the last week of the year before
    have hyears := daysBefore_succ (date.year - 1)
    rw [Int.sub_add_cancel] at hyears
    have hbegun : daysBefore (date.year - 1) < t := by
      omega
    have hweek := hrest hbegun (by rwa [Int.sub_add_cancel])
    rw [if_neg (by omega), if_pos (by omega), show date.year + (0 - 1) = date.year - 1 by omega,
      Int.sub_add_cancel, ← hweek]
    exact ⟨hbegun, hbefore, rfl⟩

/-- A period starts with a day. -/
theorem exists_jdnOf_eq_start (n : Period) (date : LogDate) :
    ∃ first : Date, -4800 < first.year ∧ jdnOf first = jdnOf date.1 - jdnOf date.1 % n := by
  have hn : 0 < n.1 := Int.lt_trans Int.zero_lt_one n.2.1
  have hquot := Int.mul_nonneg hn.le (Int.ediv_nonneg (jdnOf_nonneg date) hn.le)
  refine exists_jdnOf_eq ?_
  rwa [Int.emod_def, Int.sub_sub_self]

/-- The first day of a period, and the stamp of all its days. -/
theorem exists_first (n : Period) (date : LogDate) :
    ∃ first : Date, n.1 ∣ jdnOf first ∧ jdnOf first ≤ jdnOf date.1 ∧
      jdnOf date.1 < jdnOf first + n ∧
      ∀ other : LogDate, jdnOf first ≤ jdnOf other.1 → jdnOf other.1 < jdnOf first + n →
        rotsuffix n (tmOf other) = dateStamp (first.year, (first.month : ℤ), first.day) := by
  have hn : 0 < n.1 := Int.lt_trans Int.zero_lt_one n.2.1
  obtain ⟨first, hyear, heq⟩ := exists_jdnOf_eq_start n date
  have hdvd : n.1 ∣ jdnOf first := heq ▸ Int.dvd_self_sub_emod
  have hmod := Int.emod_nonneg (jdnOf date.1) hn.ne'
  have hlt := Int.emod_lt_of_pos (jdnOf date.1) hn
  refine ⟨first, hdvd, by omega, by omega, fun other hle hend ↦ ?_⟩
  exact rotsuffix_period hyear (sub_emod_of_dvd hdvd hle hend)

/-- **Numbers, dates and weeks.** The next day has the next number, a date is found again from its
number, all the days of a period have the date of the first day as their stamp, and a weekly log has
the year and the week of the calendar. -/
theorem log_dates_exact (date : LogDate) (n : Period) :
    jdnOf date.1.next = jdnOf date.1 + 1 ∧
    jdn2ymd (jdnOf date.1) = (date.1.year, (date.1.month : ℤ), date.1.day) ∧
    (∃ first : Date, n.1 ∣ jdnOf first ∧ jdnOf first ≤ jdnOf date.1 ∧
      jdnOf date.1 < jdnOf first + n ∧
      ∀ other : LogDate, jdnOf first ≤ jdnOf other.1 → jdnOf other.1 < jdnOf first + n →
        rotsuffix n (tmOf other) = dateStamp (first.year, (first.month : ℤ), first.day)) ∧
    ∃ year week, IsoWeek date.1.ordinal year week ∧
      rotsuffix 7 (tmOf date) = twoDigits (year.tmod 100) ++ literal "w" ++ twoDigits week := by
  have hyear : -4800 < date.1.year := Int.lt_of_lt_of_le (by decide) date.2
  refine ⟨?_, jdn2ymd_jdnOf hyear, exists_first n date, ?_⟩
  · have hnext : -4800 < date.1.next.year :=
      hyear.trans_le (date.1.year_le_iterate_next 1)
    rw [jdnOf_eq hnext, jdnOf_eq hyear, Date.ordinal_next]
    ring
  · refine ⟨_, _, isoWeek_yearWeek date, ?_⟩
    rw [rotsuffix, if_neg (by decide), if_neg (by decide), if_pos rfl]
    simp only [tmOf, Int.sub_add_cancel]

/-- The first day of a period of ten days. -/
def leapDay : LogDate := ⟨⟨2024, 2, 29, by decide, by decide, by decide, by decide⟩, by decide⟩

/-- The last day of that period. -/
def tenthDay : LogDate := ⟨⟨2024, 3, 9, by decide, by decide, by decide, by decide⟩, by decide⟩

theorem log_dates_exact_tenDays : rotsuffix 10 (tmOf leapDay) = rotsuffix 10 (tmOf tenthDay) := by
  obtain ⟨-, -, ⟨first, hdvd, hle, hlt, hstamp⟩, -⟩ := log_dates_exact leapDay ⟨10, by decide⟩
  have hday : jdnOf leapDay.1 = 2460370 := by decide
  have htenth : jdnOf tenthDay.1 = 2460379 := by decide
  dsimp only at hdvd hlt hstamp
  rw [hstamp leapDay hle hlt, hstamp tenthDay (by omega) (by omega)]

end Hyunjin
