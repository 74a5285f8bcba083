import Hyunjin.Word.Signed
import Mathlib.Tactic.Ring

/-!
# Clock readings from a tick counter

Where no better clock is at hand a reading is computed from a 32-bit counter of ticks and the number
of times the counter has wrapped. With 32-bit longs the time of all the wraps cannot be formed in
one word, so the seconds and the fraction of a second that a wrap takes are multiplied and added
separately.

The fraction left from the wraps and the fraction left from the ticks are each below a second. The
sum of the two is not reduced again: a reading is right exactly as long as that sum stays below a
second and the seconds fit a signed word (`readsRight_iff`).

## Differences

`CliClock` and `__compute_run_times` borrow a second when the fractions are in the wrong order. On
two readings that are right, both report the exact time between them.
-/

namespace Hyunjin

/-- `struct timeval`, both of whose fields are signed 32-bit longs. -/
structure Timeval where
  tvSec : U32
  tvUsec : U32
  deriving DecidableEq

def ULONG_MAX : U32 := 0xffffffff#32

/-- The seconds and the left-over ticks of all the wraps. Division by ten comes first because the
number of ticks in a wrap does not fit a word. -/
def wrapAdjustment (hz wrapCtr : U32) : U32 × U32 :=
  if wrapCtr ≠ 0#32 then
    let wadj := wrapCtr * (6#32 + 10#32 * ((ULONG_MAX / 10#32) % (hz / 10#32)))
    let sadj := wrapCtr * ((ULONG_MAX / 10#32) / (hz / 10#32))
    (sadj + wadj / hz, wadj % hz)
  else (0#32, 0#32)

def clks2tv (hz ticks wrapCtr : U32) : Timeval :=
  let (sadj, wadj) := wrapAdjustment hz wrapCtr
  { tvSec := ticks / hz + sadj
    tvUsec := (ticks % hz + wadj) * ((1000000#32 + hz >>> 1) / hz) }

/-- The time that `CliClock` reports for a reading of the monotonic clock, given the first one. -/
def cliClock (base now : Timeval) : Option Timeval :=
  if now.tvSec.slt base.tvSec
      ∨ (now.tvSec = base.tvSec ∧ now.tvUsec.slt base.tvUsec) then none
  else
    let now := if now.tvUsec.slt base.tvUsec then
        { tvSec := now.tvSec - 1#32, tvUsec := now.tvUsec + 1000000#32 }
      else now
    some { tvSec := now.tvSec - base.tvSec, tvUsec := now.tvUsec - base.tvUsec }

/-- The time of the last run in `__compute_run_times`, where all words are unsigned. -/
def lastRuntime (runstart clockStop : Timeval) : Option Timeval :=
  if clockStop.tvSec < runstart.tvSec
      ∨ (clockStop.tvSec = runstart.tvSec ∧ clockStop.tvUsec < runstart.tvUsec) then none
  else
    let elapsed := if clockStop.tvUsec < runstart.tvUsec then
        { tvSec := clockStop.tvSec - 1#32, tvUsec := clockStop.tvUsec + 1000000#32 }
      else clockStop
    some { tvSec := elapsed.tvSec - runstart.tvSec, tvUsec := elapsed.tvUsec - runstart.tvUsec }

/-! ## What a reading stands for -/

/-- All the ticks since the counter started. -/
def allTicks (ticks wrapCtr : U32) : ℕ := wrapCtr.toNat * 2 ^ 32 + ticks.toNat

/-- The whole seconds that all the wraps take. -/
def wrapSeconds (hz wrapCtr : U32) : ℕ :=
  wrapCtr.toNat * (2 ^ 32 / hz.toNat) + wrapCtr.toNat * (2 ^ 32 % hz.toNat) / hz.toNat

/-- The ticks that are left of all the wraps, less than a second. -/
def wrapFraction (hz wrapCtr : U32) : ℕ := wrapCtr.toNat * (2 ^ 32 % hz.toNat) % hz.toNat

/-- A reading is normalised and shows `n` microseconds. -/
structure Timeval.Shows (tv : Timeval) (n : ℕ) : Prop where
  tvSec : tv.tvSec.toInt = (n / 10 ^ 6 : ℕ)
  tvUsec : tv.tvUsec.toInt = (n % 10 ^ 6 : ℕ)

/-- A frequency that `__clks2tv` can count exactly: a multiple of ten that divides a million. -/
structure Frequency (hz : U32) : Prop where
  ten_dvd : 10 ∣ hz.toNat
  dvd : hz.toNat ∣ 10 ^ 6

/-- The fractions of a second left from the wraps and from the ticks make no second together, and
the seconds fit a signed word. -/
def StaysBelow (hz ticks wrapCtr : U32) : Prop :=
  wrapFraction hz wrapCtr + ticks.toNat % hz.toNat < hz.toNat
    ∧ allTicks ticks wrapCtr / hz.toNat < 2 ^ 31

instance (hz ticks wrapCtr : U32) : Decidable (StaysBelow hz ticks wrapCtr) :=
  inferInstanceAs (Decidable (_ ∧ _))

/-! ## What is computed -/

theorem shows_def {tv : Timeval} {n : ℕ} :
    tv.Shows n
      ↔ tv.tvSec.toNat = n / 10 ^ 6 ∧ n / 10 ^ 6 < 2 ^ 31 ∧ tv.tvUsec.toNat = n % 10 ^ 6 := by
  have husec : n % 10 ^ 6 < 2 ^ 31 := (Nat.mod_lt n (by norm_num)).trans (by norm_num)
  constructor
  · rintro ⟨hs, hu⟩
    rw [toInt_eq_natCast_iff] at hs hu
    exact ⟨hs.1, hs.2, hu.1⟩
  · rintro ⟨hs, hlt, hu⟩
    exact ⟨toInt_eq_natCast_iff.mpr ⟨hs, hlt⟩, toInt_eq_natCast_iff.mpr ⟨hu, husec⟩⟩

section Frequency

variable {hz : U32} (hhz : Frequency hz)

include hhz

theorem Frequency.exists_mul : ∃ k, hz.toNat * k = 10 ^ 6 ∧ 0 < hz.toNat ∧ 0 < k := by
  obtain ⟨k, hk⟩ := hhz.dvd
  refine ⟨k, hk.symm, ?_, ?_⟩
  · refine Nat.pos_of_ne_zero fun h ↦ ?_
    rw [h, Nat.zero_mul] at hk
    exact absurd hk (by norm_num)
  · refine Nat.pos_of_ne_zero fun h ↦ ?_
    rw [h, Nat.mul_zero] at hk
    exact absurd hk (by norm_num)

/-- Rounding the division of a million to the nearest changes nothing, as there is no remainder. -/
theorem Frequency.toNat_usecPerTick :
    ((1000000#32 + hz >>> 1) / hz).toNat = 10 ^ 6 / hz.toNat := by
  obtain ⟨k, hk, hpos, hkpos⟩ := hhz.exists_mul
  have hle : hz.toNat ≤ 10 ^ 6 := Nat.le_of_dvd (by norm_num) hhz.dvd
  have hsum : (1000000#32 + hz >>> 1).toNat = 10 ^ 6 + hz.toNat / 2 := by
    rw [BitVec.toNat_add, BitVec.toNat_ushiftRight, BitVec.toNat_ofNat, Nat.shiftRight_eq_div_pow]
    omega
  rw [BitVec.toNat_udiv, hsum, ← hk, Nat.mul_add_div hpos, Nat.mul_div_cancel_left k hpos,
    Nat.div_eq_of_lt (Nat.div_lt_self hpos one_lt_two), Nat.add_zero]

/-- The two constants of a wrap are the quotient and the remainder of `2 ^ 32`. -/
theorem Frequency.toNat_wrapConstants :
    (6#32 + 10#32 * ((ULONG_MAX / 10#32) % (hz / 10#32))).toNat = 2 ^ 32 % hz.toNat
      ∧ ((ULONG_MAX / 10#32) / (hz / 10#32)).toNat = 2 ^ 32 / hz.toNat := by
  obtain ⟨m, hm⟩ := hhz.ten_dvd
  obtain ⟨-, -, hpos, -⟩ := hhz.exists_mul
  have hle : hz.toNat ≤ 10 ^ 6 := Nat.le_of_dvd (by norm_num) hhz.dvd
  have hdiv : (hz / 10#32).toNat = m := by
    rw [BitVec.toNat_udiv, hm, BitVec.toNat_ofNat]
    exact Nat.mul_div_cancel_left m (by norm_num)
  have hmax : (ULONG_MAX / 10#32).toNat = 2 ^ 32 / 10 := by decide +kernel
  have hrem : 2 ^ 32 / 10 % m < m := Nat.mod_lt _ (by omega)
  constructor
  · rw [BitVec.toNat_add, BitVec.toNat_mul, BitVec.toNat_umod, hdiv, hmax, hm, Nat.mod_mul,
      BitVec.toNat_ofNat, BitVec.toNat_ofNat]
    omega
  · rw [BitVec.toNat_udiv, hdiv, hmax, hm, Nat.div_div_eq_div_mul]

variable {wrapCtr : U32} (hwrap : wrapCtr.toNat * hz.toNat < 2 ^ 32)

include hwrap

theorem Frequency.toNat_wrapAdjustment :
    (wrapAdjustment hz wrapCtr).1.toNat = wrapSeconds hz wrapCtr % 2 ^ 32
      ∧ (wrapAdjustment hz wrapCtr).2.toNat = wrapFraction hz wrapCtr := by
  obtain ⟨hw, hs⟩ := hhz.toNat_wrapConstants
  obtain ⟨-, -, hpos, -⟩ := hhz.exists_mul
  rw [wrapAdjustment]
  split_ifs with h
  · have hlt : wrapCtr.toNat * (2 ^ 32 % hz.toNat) < 2 ^ 32 :=
      (Nat.mul_le_mul_left _ (Nat.mod_lt _ hpos).le).trans_lt hwrap
    have hwadj : (wrapCtr * (6#32 + 10#32 * ((ULONG_MAX / 10#32) % (hz / 10#32)))).toNat
        = wrapCtr.toNat * (2 ^ 32 % hz.toNat) := by
      rw [BitVec.toNat_mul, hw, Nat.mod_eq_of_lt hlt]
    have hsadj : (wrapCtr * ((ULONG_MAX / 10#32) / (hz / 10#32))).toNat
        = wrapCtr.toNat * (2 ^ 32 / hz.toNat) % 2 ^ 32 := by
      rw [BitVec.toNat_mul, hs]
    constructor
    · rw [BitVec.toNat_add, hsadj, BitVec.toNat_udiv, hwadj, Nat.mod_add_mod, wrapSeconds]
    · rw [BitVec.toNat_umod, hwadj, wrapFraction]
  · rw [not_not.mp h]
    simp [wrapSeconds, wrapFraction]

/-- The microseconds are the sum of both fractions, which is not reduced. -/
theorem Frequency.toNat_tvUsec (ticks : U32) :
    (clks2tv hz ticks wrapCtr).tvUsec.toNat
      = (wrapFraction hz wrapCtr + ticks.toNat % hz.toNat) * (10 ^ 6 / hz.toNat) := by
  obtain ⟨k, hk, hpos, -⟩ := hhz.exists_mul
  have hfrac : ticks.toNat % hz.toNat < hz.toNat := Nat.mod_lt _ hpos
  have hwadj : wrapFraction hz wrapCtr < hz.toNat := Nat.mod_lt _ hpos
  have hle : hz.toNat ≤ 10 ^ 6 := Nat.le_of_dvd (by norm_num) hhz.dvd
  have hsum : (wrapFraction hz wrapCtr + ticks.toNat % hz.toNat) * k ≤ 2 * 10 ^ 6 := by
    calc _ ≤ (2 * hz.toNat) * k := Nat.mul_le_mul_right k (by omega)
      _ = 2 * 10 ^ 6 := by rw [Nat.mul_assoc, hk]
  have hdiv : 10 ^ 6 / hz.toNat = k := by rw [← hk, Nat.mul_div_cancel_left k hpos]
  rw [clks2tv]
  dsimp only
  rw [BitVec.toNat_mul, hhz.toNat_usecPerTick, BitVec.toNat_add,
    (hhz.toNat_wrapAdjustment hwrap).2, BitVec.toNat_umod, Nat.add_comm (ticks.toNat % _), hdiv,
    Nat.mod_eq_of_lt (a := _ + _) (by omega), Nat.mod_eq_of_lt (by omega)]

/-- The seconds, but for a second that the two fractions make together. -/
theorem Frequency.toNat_tvSec (ticks : U32) :
    (clks2tv hz ticks wrapCtr).tvSec.toNat
      = (wrapSeconds hz wrapCtr + ticks.toNat / hz.toNat) % 2 ^ 32 := by
  rw [clks2tv]
  dsimp only
  rw [BitVec.toNat_add, (hhz.toNat_wrapAdjustment hwrap).1, BitVec.toNat_udiv, Nat.add_mod_mod,
    Nat.add_comm (ticks.toNat / _)]

omit hwrap in
/-- All the ticks in whole seconds: the seconds of the wraps, those of the ticks, and a second if
the two fractions make one together. -/
theorem Frequency.allTicks_div (ticks : U32) :
    allTicks ticks wrapCtr / hz.toNat
      = wrapSeconds hz wrapCtr + ticks.toNat / hz.toNat
          + if hz.toNat ≤ wrapFraction hz wrapCtr + ticks.toNat % hz.toNat then 1 else 0 := by
  obtain ⟨-, -, hpos, -⟩ := hhz.exists_mul
  have hsplit : allTicks ticks wrapCtr
      = hz.toNat * (wrapCtr.toNat * (2 ^ 32 / hz.toNat))
        + (wrapCtr.toNat * (2 ^ 32 % hz.toNat) + ticks.toNat) := by
    calc allTicks ticks wrapCtr
        = wrapCtr.toNat * (hz.toNat * (2 ^ 32 / hz.toNat) + 2 ^ 32 % hz.toNat)
            + ticks.toNat := by rw [Nat.div_add_mod, allTicks]
      _ = _ := by ring
  rw [hsplit, Nat.mul_add_div hpos, Nat.add_div hpos, ← Nat.add_assoc, ← Nat.add_assoc,
    wrapSeconds, wrapFraction]

omit hhz hwrap in
theorem allTicks_mod (ticks : U32) :
    allTicks ticks wrapCtr % hz.toNat
      = (wrapFraction hz wrapCtr + ticks.toNat % hz.toNat) % hz.toNat := by
  rw [allTicks, wrapFraction, Nat.add_mod, Nat.mul_mod,
    Nat.mul_mod wrapCtr.toNat (2 ^ 32 % hz.toNat), Nat.mod_mod]

/-- **When a reading is right.** -/
theorem Frequency.shows_clks2tv (ticks : U32) :
    (clks2tv hz ticks wrapCtr).Shows (allTicks ticks wrapCtr * (10 ^ 6 / hz.toNat))
      ↔ StaysBelow hz ticks wrapCtr := by
  obtain ⟨k, hk, hpos, hkpos⟩ := hhz.exists_mul
  have hdiv : 10 ^ 6 / hz.toNat = k := by rw [← hk, Nat.mul_div_cancel_left k hpos]
  have hsecs : allTicks ticks wrapCtr * k / 10 ^ 6 = allTicks ticks wrapCtr / hz.toNat := by
    rw [← hk, Nat.mul_div_mul_right _ _ hkpos]
  have husecs : allTicks ticks wrapCtr * k % 10 ^ 6 = allTicks ticks wrapCtr % hz.toNat * k := by
    rw [← hk, Nat.mul_mod_mul_right]
  rw [shows_def, hhz.toNat_tvSec hwrap, hhz.toNat_tvUsec hwrap, hdiv, hsecs, husecs, StaysBelow,
    hhz.allTicks_div, allTicks_mod, Nat.mul_left_inj hkpos.ne']
  constructor
  · rintro ⟨-, hlt, hu⟩
    exact ⟨hu ▸ Nat.mod_lt _ hpos, hlt⟩
  · rintro ⟨hfrac, hlt⟩
    rw [if_neg (by omega), Nat.add_zero] at hlt ⊢
    exact ⟨Nat.mod_eq_of_lt (hlt.trans (by norm_num)), hlt, (Nat.mod_eq_of_lt hfrac).symm⟩

end Frequency

/-! ## Differences of readings -/

/-- The time reported between a reading at `m` and one at `n` microseconds; a failure is the report
that the clock went backwards. -/
def ReportsTime (d : Option Timeval) (m n : ℕ) : Prop :=
  match d with
  | none => n < m
  | some d => m ≤ n ∧ d.Shows (n - m)

variable {base now : Timeval} {m n : ℕ}

/-- The difference of two readings, once a second is borrowed where it has to be. -/
theorem reportsTime_sub {secs usecs : U32} (hle : m ≤ n) (hsec : base.tvSec.toNat ≤ secs.toNat)
    (husec : base.tvUsec.toNat ≤ usecs.toNat)
    (hsecs : secs.toNat - base.tvSec.toNat = (n - m) / 10 ^ 6) (hlt : (n - m) / 10 ^ 6 < 2 ^ 31)
    (husecs : usecs.toNat - base.tvUsec.toNat = (n - m) % 10 ^ 6) :
    ReportsTime (some { tvSec := secs - base.tvSec, tvUsec := usecs - base.tvUsec }) m n := by
  rw [ReportsTime, shows_def, BitVec.toNat_sub_of_le (BitVec.le_def.mpr hsec),
    BitVec.toNat_sub_of_le (BitVec.le_def.mpr husec)]
  exact ⟨hle, hsecs, hlt, husecs⟩

theorem Timeval.Shows.reportsTime_lastRuntime (hbase : base.Shows m) (hnow : now.Shows n) :
    ReportsTime (lastRuntime base now) m n := by
  obtain ⟨hbs, hbl, hbu⟩ := shows_def.mp hbase
  obtain ⟨hs, hl, hu⟩ := shows_def.mp hnow
  rw [lastRuntime]
  split_ifs with hback hborrow
  · simp only [BitVec.lt_def, ← BitVec.toNat_inj, hs, hbs, hu, hbu] at hback
    rw [ReportsTime]
    omega
  · simp only [BitVec.lt_def, ← BitVec.toNat_inj, hs, hbs, hu, hbu] at hback hborrow
    have hsec : (now.tvSec - 1#32).toNat = n / 10 ^ 6 - 1 := by
      have hpos : 1#32 ≤ now.tvSec := by
        rw [BitVec.le_def, hs, BitVec.toNat_ofNat]
        omega
      rw [BitVec.toNat_sub_of_le hpos, hs, BitVec.toNat_ofNat]
    have husec : (now.tvUsec + 1000000#32).toNat = n % 10 ^ 6 + 10 ^ 6 := by
      rw [BitVec.toNat_add, hu, BitVec.toNat_ofNat]
      omega
    dsimp only
    apply reportsTime_sub <;> omega
  · simp only [BitVec.lt_def, ← BitVec.toNat_inj, hs, hbs, hu, hbu] at hback hborrow
    apply reportsTime_sub <;> omega

/-- On right readings the signed comparisons of `CliClock` and the unsigned ones of the run times
agree. -/
theorem Timeval.Shows.cliClock_eq (hbase : base.Shows m) (hnow : now.Shows n) :
    cliClock base now = lastRuntime base now := by
  obtain ⟨hbs, hbl, hbu⟩ := shows_def.mp hbase
  obtain ⟨hs, hl, hu⟩ := shows_def.mp hnow
  have hsec : now.tvSec.slt base.tvSec = now.tvSec.ult base.tvSec :=
    slt_eq_ult (by omega) (by omega)
  have husec : now.tvUsec.slt base.tvUsec = now.tvUsec.ult base.tvUsec :=
    slt_eq_ult (by omega) (by omega)
  simp only [cliClock, lastRuntime, hsec, husec, BitVec.ult_iff_lt]

theorem Timeval.Shows.reportsTime_cliClock (hbase : base.Shows m) (hnow : now.Shows n) :
    ReportsTime (cliClock base now) m n :=
  hbase.cliClock_eq hnow ▸ hbase.reportsTime_lastRuntime hnow

/-! ## Two readings -/

/-- The microseconds that a reading of a counter should show. -/
def micros (hz ticks wrapCtr : U32) : ℕ := allTicks ticks wrapCtr * (10 ^ 6 / hz.toNat)

/-- Two readings of a counter are right, and so is the time that is reported between them. -/
structure ReadsRight (hz ticks₀ wrap₀ ticks wrap : U32) : Prop where
  first : (clks2tv hz ticks₀ wrap₀).Shows (micros hz ticks₀ wrap₀)
  second : (clks2tv hz ticks wrap).Shows (micros hz ticks wrap)
  clock : ReportsTime (cliClock (clks2tv hz ticks₀ wrap₀) (clks2tv hz ticks wrap))
    (micros hz ticks₀ wrap₀) (micros hz ticks wrap)
  runtime : ReportsTime (lastRuntime (clks2tv hz ticks₀ wrap₀) (clks2tv hz ticks wrap))
    (micros hz ticks₀ wrap₀) (micros hz ticks wrap)

/-- **Readings are right** exactly as long as the fractions of a second left from the wraps and from
the ticks make no second together, and the seconds fit a signed word. -/
theorem readsRight_iff {hz : U32} (hhz : Frequency hz) {ticks₀ wrap₀ ticks wrap : U32}
    (hwrap₀ : wrap₀.toNat * hz.toNat < 2 ^ 32) (hwrap : wrap.toNat * hz.toNat < 2 ^ 32) :
    ReadsRight hz ticks₀ wrap₀ ticks wrap
      ↔ StaysBelow hz ticks₀ wrap₀ ∧ StaysBelow hz ticks wrap := by
  constructor
  · intro h
    exact ⟨(hhz.shows_clks2tv hwrap₀ ticks₀).mp h.first,
      (hhz.shows_clks2tv hwrap ticks).mp h.second⟩
  · rintro ⟨hbelow₀, hbelow⟩
    have hfirst := (hhz.shows_clks2tv hwrap₀ ticks₀).mpr hbelow₀
    have hsecond := (hhz.shows_clks2tv hwrap ticks).mpr hbelow
    exact ⟨hfirst, hsecond, hfirst.reportsTime_cliClock hsecond,
      hfirst.reportsTime_lastRuntime hsecond⟩

/-- A millisecond counter, a second before its first wrap and a second after it. -/
theorem readsRight_milliseconds : ReadsRight 1000#32 4294966296#32 0#32 0#32 1#32 :=
  (readsRight_iff ⟨by decide +kernel, by decide +kernel⟩ (by decide +kernel)
    (by decide +kernel)).mpr (by decide +kernel)

/-- 704 milliseconds after the first wrap the reading has a million microseconds. -/
theorem not_readsRight_milliseconds :
    Frequency 1000#32 ∧ ¬ReadsRight 1000#32 0#32 0#32 704#32 1#32 := by
  refine ⟨⟨by decide +kernel, by decide +kernel⟩, fun h ↦ ?_⟩
  have husec := h.second.tvUsec
  exact absurd husec (by decide +kernel)

end Hyunjin
