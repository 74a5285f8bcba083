import Hyunjin.Buffer.Base
import Hyunjin.Word.Signed

/-!
# The threshold of a buffer

How much work is fetched follows from the thresholds of the configuration and from the speed of the
machine. `ClientGetInThreshold` and `__get_thresh_secs` form some products in 32 bits and divide
them afterwards. How a product is formed is a parameter here: it wraps, as it does on the machine,
or it is checked, and then there is no result if it does not fit its type.

The formulas are exact as long as the products fit (`thresholds_exact`), and one case apart: where a
packet takes more than a hundred days there are no units per day, and a time threshold is taken for
none.
-/

namespace Hyunjin

/-! ## Products -/

/-- How the product of two `int` and of two `unsigned int` is formed. -/
structure Products where
  int : ℤ → ℤ → Option ℤ
  unsigned : U32 → U32 → Option U32

/-- A product loses what is beyond 32 bits. -/
def Products.wrapping : Products where
  int a b := some ((a * b).bmod (2 ^ 32))
  unsigned a b := some (a * b)

/-- A product that does not fit is undefined. -/
def Products.checked : Products where
  int a b := if -2 ^ 31 ≤ a * b ∧ a * b < 2 ^ 31 then some (a * b) else none
  unsigned a b := if a.toNat * b.toNat < 2 ^ 32 then some (a * b) else none

/-! ## The speed -/

/-- The problems that are loaded, the processors that are configured and detected, and what
`CliGetContestWorkUnitSpeed` returns: the seconds that a packet takes, and whether that is from a
benchmark. -/
structure Crunching where
  problemCountLoaded : ℤ
  numcpu : ℤ
  detectedProcessors : ℤ
  bestTime : U32
  wasForced : Bool

/-- The number of crunchers and of processors. -/
def getNumCAndP (e : Crunching) : U32 × U32 :=
  let numprocs := if e.numcpu < 0 then e.detectedProcessors else e.numcpu
  let numprocs := if numprocs < 1 then 1 else numprocs
  let numcrunchers := if e.problemCountLoaded = 0 then numprocs else e.problemCountLoaded
  (BitVec.ofInt 32 numcrunchers, BitVec.ofInt 32 numprocs)

/-- The speed of a benchmark is per processor, any other is per cruncher. -/
def divx (e : Crunching) : U32 := if e.wasForced then (getNumCAndP e).2 else (getNumCAndP e).1

/-- The seconds to completion. -/
def secsToCompletion (p : Products) (e : Crunching) (statsUnits : U32) : Option U32 := do
  let secs ← p.unsigned statsUnits e.bestTime
  let div ← p.unsigned (divx e) 100#32
  if div = 0#32 then none else some (secs / div)

/-- The stats units of a day. -/
def unitsPerDay (p : Products) (e : Crunching) : Option U32 := do
  let secs ← p.unsigned (100#32 * 24#32 * 3600#32) (divx e)
  some (secs / e.bestTime)

/-- `__get_thresh_secs`, with the number of crunchers if it sets it. -/
def getThreshSecs (p : Products) (e : Crunching) (statsUnits : U32) :
    Option (U32 × Option U32) :=
  if e.bestTime ≠ 0#32 then
    (if statsUnits ≠ 0#32 then secsToCompletion p e statsUnits else unitsPerDay p e).map
      (·, some (getNumCAndP e).1)
  else some (0#32, none)

/-! ## The threshold -/

def OGR_P2 : U32 := 6#32

/-- The kinds of processors that have defaults of their own. -/
inductive ClientCpu
  | gpu
  | cellbe
  | other

/-- The cores that the client is built with. -/
structure ClientBuild where
  cpu : ClientCpu
  haveRC5_72Cores : Bool
  haveOGRCores : Bool

/-- The default threshold of a cruncher, in stats units. -/
def bufthreshDefault (build : ClientBuild) (contestid : U32) : U32 :=
  if contestid = RC5_72 ∧ build.haveRC5_72Cores then
    match build.cpu with
    | .gpu => 6#32 * 200#32 * 100#32
    | .cellbe => 6#32 * 24#32 * 100#32
    | .other => 6#32 * 4#32 * 100#32
  else if contestid = OGR_NG ∧ build.haveOGRCores then 24#32 * 100#32
  else 1000#32

/-- The thresholds of the configuration: packets, and hours. -/
structure Thresholds where
  inthreshold : U32 → ℤ
  timethreshold : U32 → ℤ

/-- A time threshold is not implemented for OGR. -/
def Thresholds.withoutOGR (c : Thresholds) : Thresholds :=
  { c with
    timethreshold := fun contestid ↦
      if contestid = OGR_P2 ∨ contestid = OGR_NG then 0 else c.timethreshold contestid }

/-- The threshold by the number of packets. -/
def unitThreshold (p : Products) (inthreshold : ℤ) : Option U32 :=
  if 0 < inthreshold then (p.int inthreshold 100).map (BitVec.ofInt 32) else some 0#32

/-- The threshold by time, and the number of crunchers if it is determined. -/
def timeThreshold (p : Products) (e : Crunching) (timethreshold : ℤ) :
    Option (U32 × Option U32) :=
  if 0 < timethreshold then do
    let (secs, numcrunchers) ← getThreshSecs p e 0#32
    if secs ≠ 0#32 then do
      let hours ← p.unsigned (BitVec.ofInt 32 timethreshold) secs
      some (1#32 + hours / 24#32, numcrunchers)
    else some (0#32, numcrunchers)
  else some (0#32, none)

/-- The default, if neither threshold is set. -/
def determined (p : Products) (default bufthresh numcrunchers : U32) : Option U32 :=
  if bufthresh < 1#32 then p.unsigned default numcrunchers else some bufthresh

/-- One packet for each cruncher at least. -/
def atLeastOneEach (p : Products) (bufthresh numcrunchers : U32) : Option U32 := do
  let least ← p.unsigned numcrunchers 100#32
  if bufthresh < least then p.unsigned numcrunchers 100#32 else some bufthresh

/-- The number of crunchers, if it is not determined yet. -/
def determinedCrunchers (e : Crunching) (numcrunchers : Option U32) : U32 :=
  let n := numcrunchers.getD 0#32
  if n < 1#32 then (getNumCAndP e).1 else n

def clientGetInThreshold (p : Products) (build : ClientBuild) (e : Crunching) (c : Thresholds)
    (contestid : U32) : Option U32 := do
  let c := c.withoutOGR
  if CONTEST_COUNT ≤ contestid then some 1000#32
  else do
    let bufthresh ← unitThreshold p (c.inthreshold contestid)
    let (timethresh, numcrunchers) ← timeThreshold p e (c.timethreshold contestid)
    let bufthresh := if bufthresh < timethresh then timethresh else bufthresh
    let numcrunchers := determinedCrunchers e numcrunchers
    let bufthresh ← determined p (bufthreshDefault build contestid) bufthresh numcrunchers
    atLeastOneEach p bufthresh numcrunchers

/-! ## The formulas -/

/-- `__get_thresh_secs` in exact arithmetic. -/
def exactSecs (e : Crunching) (statsUnits : U32) : ℕ :=
  if statsUnits ≠ 0#32 then statsUnits.toNat * e.bestTime.toNat / (100 * (divx e).toNat)
  else 100 * 86400 * (divx e).toNat / e.bestTime.toNat

/-- The threshold by time in exact arithmetic. -/
def exactTimeThreshold (e : Crunching) (hours : ℕ) : ℕ :=
  if 0 < hours then 1 + hours * exactSecs e 0#32 / 24 else 0

/-- `ClientGetInThreshold` in exact arithmetic. -/
def exactInThreshold (build : ClientBuild) (e : Crunching) (c : Thresholds) (contestid : U32) : ℕ :=
  let thresh := max (100 * (c.inthreshold contestid).toNat)
    (exactTimeThreshold e (c.withoutOGR.timethreshold contestid).toNat)
  max (if thresh = 0 then (bufthreshDefault build contestid).toNat * (getNumCAndP e).1.toNat
    else thresh) (100 * (getNumCAndP e).1.toNat)

/-- A speed is known, and there are crunchers and processors. -/
structure Crunching.Ok (e : Crunching) : Prop where
  crunchers : 1 ≤ (getNumCAndP e).1.toNat ∧ (getNumCAndP e).1.toNat ≤ 512
  procs : 1 ≤ (getNumCAndP e).2.toNat
  bestTime : 1 ≤ e.bestTime.toNat

/-- If the exact value fits, no product wraps and the result is the exact value. -/
def SecsExact (e : Crunching) (statsUnits : U32) : Prop :=
  exactSecs e statsUnits < 2 ^ 32 →
    getThreshSecs .checked e statsUnits ≠ none
      ∧ ∃ secs n, getThreshSecs .wrapping e statsUnits = some (secs, n)
        ∧ secs.toNat = exactSecs e statsUnits

def InThresholdExact (build : ClientBuild) (e : Crunching) (c : Thresholds) (contestid : U32) :
    Prop :=
  exactInThreshold build e c contestid < 2 ^ 32 →
    clientGetInThreshold .checked build e c contestid ≠ none
      ∧ ∃ thresh, clientGetInThreshold .wrapping build e c contestid = some thresh
        ∧ thresh.toNat = exactInThreshold build e c contestid

/-- The products of the formula fit 32 bits, if its value does. -/
def SecsFit (e : Crunching) (statsUnits : U32) : Prop :=
  exactSecs e statsUnits < 2 ^ 32 →
    if statsUnits ≠ 0#32 then
      statsUnits.toNat * e.bestTime.toNat < 2 ^ 32 ∧ 100 * (divx e).toNat < 2 ^ 32
    else 100 * 86400 * (divx e).toNat < 2 ^ 32

/-- The products fit, and a time threshold stands for one unit a day at least if it stands alone. -/
def InThresholdFits (build : ClientBuild) (e : Crunching) (c : Thresholds) (contestid : U32) :
    Prop :=
  exactInThreshold build e c contestid < 2 ^ 32 →
    100 * c.inthreshold contestid < 2 ^ 31
      ∧ (0 < c.withoutOGR.timethreshold contestid →
        100 * 86400 * (divx e).toNat < 2 ^ 32
          ∧ (c.withoutOGR.timethreshold contestid).toNat * exactSecs e 0#32 < 2 ^ 32
          ∧ (c.inthreshold contestid = 0 → e.bestTime.toNat ≤ 100 * 86400 * (divx e).toNat))

/-! ## Products that fit -/

/-- Products that fit are exact. -/
structure Products.Exact (p : Products) : Prop where
  int : ∀ a b, -2 ^ 31 ≤ a * b → a * b < 2 ^ 31 → p.int a b = some (a * b)
  unsigned : ∀ a b : U32, a.toNat * b.toNat < 2 ^ 32 → p.unsigned a b = some (a * b)

theorem exact_checked : Products.checked.Exact :=
  ⟨fun _ _ hle hlt ↦ if_pos ⟨hle, hlt⟩, fun _ _ hlt ↦ if_pos hlt⟩

theorem exact_wrapping : Products.wrapping.Exact := by
  refine ⟨fun a b hle hlt ↦ congrArg some ?_, fun _ _ _ ↦ rfl⟩
  rw [Int.bmod_eq_of_le] <;> omega

theorem toNat_mul_of_lt {a b : U32} (h : a.toNat * b.toNat < 2 ^ 32) :
    (a * b).toNat = a.toNat * b.toNat := by
  rw [BitVec.toNat_mul, Nat.mod_eq_of_lt h]

section Exact

variable {p : Products} {e : Crunching}

theorem Crunching.Ok.divx_pos (h : e.Ok) : 1 ≤ (divx e).toNat := by
  rw [divx]
  split_ifs
  exacts [h.procs, h.crunchers.1]

theorem Crunching.Ok.bestTime_ne (h : e.Ok) : e.bestTime ≠ 0#32 := by
  intro hzero
  have hpos := h.bestTime
  rw [hzero] at hpos
  exact absurd hpos (by decide)

theorem secsToCompletion_eq (hp : p.Exact) (h : e.Ok) {statsUnits : U32}
    (hsecs : statsUnits.toNat * e.bestTime.toNat < 2 ^ 32) (hdiv : 100 * (divx e).toNat < 2 ^ 32) :
    ∃ secs, secsToCompletion p e statsUnits = some secs
      ∧ secs.toNat = statsUnits.toNat * e.bestTime.toNat / (100 * (divx e).toNat) := by
  have hpos := h.divx_pos
  have hdiv' : (divx e).toNat * (100#32).toNat < 2 ^ 32 := by
    rw [Nat.mul_comm]
    exact hdiv
  have htoNat : (divx e * 100#32).toNat = 100 * (divx e).toNat := by
    rw [toNat_mul_of_lt hdiv', Nat.mul_comm]
    rfl
  have hne : divx e * 100#32 ≠ 0#32 := by
    intro hzero
    rw [hzero] at htoNat
    have : (0#32).toNat = 0 := rfl
    omega
  refine ⟨statsUnits * e.bestTime / (divx e * 100#32), ?_, ?_⟩
  · rw [secsToCompletion]
    simp only [hp.unsigned _ _ hsecs, hp.unsigned _ _ hdiv', Option.bind_eq_bind, Option.bind_some,
      if_neg hne]
  · rw [BitVec.toNat_udiv, htoNat, toNat_mul_of_lt hsecs]

theorem unitsPerDay_eq (hp : p.Exact) (hsecs : 100 * 86400 * (divx e).toNat < 2 ^ 32) :
    ∃ secs, unitsPerDay p e = some secs
      ∧ secs.toNat = 100 * 86400 * (divx e).toNat / e.bestTime.toNat := by
  have hconst : (100#32 * 24#32 * 3600#32).toNat = 100 * 86400 := rfl
  have hfit : (100#32 * 24#32 * 3600#32).toNat * (divx e).toNat < 2 ^ 32 := hsecs
  refine ⟨100#32 * 24#32 * 3600#32 * divx e / e.bestTime, ?_, ?_⟩
  · rw [unitsPerDay, hp.unsigned _ _ hfit]
    rfl
  · rw [BitVec.toNat_udiv, toNat_mul_of_lt hfit, hconst]

theorem secsToCompletion_checked {statsUnits : U32}
    (h : secsToCompletion .checked e statsUnits ≠ none) :
    statsUnits.toNat * e.bestTime.toNat < 2 ^ 32 ∧ 100 * (divx e).toNat < 2 ^ 32 := by
  rw [secsToCompletion, Products.checked] at h
  dsimp only at h
  split_ifs at h with hsecs hdiv
  · exact ⟨hsecs, by rw [Nat.mul_comm]; exact hdiv⟩
  all_goals exact absurd rfl h

theorem unitsPerDay_checked (h : unitsPerDay .checked e ≠ none) :
    100 * 86400 * (divx e).toNat < 2 ^ 32 := by
  rw [unitsPerDay, Products.checked] at h
  dsimp only at h
  split_ifs at h with hsecs
  · exact hsecs
  · exact absurd rfl h

/-- **The seconds are exact** if and only if the products fit. -/
theorem secsExact_iff (h : e.Ok) (statsUnits : U32) :
    SecsExact e statsUnits ↔ SecsFit e statsUnits := by
  refine forall_congr' fun _ ↦ ?_
  rw [getThreshSecs, getThreshSecs, if_pos h.bestTime_ne, if_pos h.bestTime_ne, exactSecs, Ne,
    Option.map_eq_none_iff]
  split_ifs with hunits
  · refine ⟨fun hexact ↦ secsToCompletion_checked hexact.1, fun ⟨hsecs, hdiv⟩ ↦ ?_⟩
    obtain ⟨secs, hchecked, -⟩ := secsToCompletion_eq exact_checked h hsecs hdiv
    obtain ⟨secs', hwrapping, hvalue⟩ := secsToCompletion_eq exact_wrapping h hsecs hdiv
    exact ⟨by rw [hchecked]; exact Option.some_ne_none _, secs', _, by rw [hwrapping]; rfl, hvalue⟩
  · refine ⟨fun hexact ↦ unitsPerDay_checked hexact.1, fun hsecs ↦ ?_⟩
    obtain ⟨secs, hchecked, -⟩ := unitsPerDay_eq exact_checked hsecs
    obtain ⟨secs', hwrapping, hvalue⟩ := unitsPerDay_eq exact_wrapping hsecs
    exact ⟨by rw [hchecked]; exact Option.some_ne_none _, secs', _, by rw [hwrapping]; rfl, hvalue⟩

end Exact

/-! ## The threshold -/

section Threshold

variable {p : Products} {e : Crunching} {build : ClientBuild} {c : Thresholds} {contestid : U32}

/-- What the code takes for the threshold by time: nothing if there are no units per day. -/
def timeUnits (e : Crunching) (hours : ℤ) : ℕ :=
  if 0 < hours ∧ exactSecs e 0#32 ≠ 0 then 1 + hours.toNat * exactSecs e 0#32 / 24 else 0

theorem exactSecs_zero (e : Crunching) :
    exactSecs e 0#32 = 100 * 86400 * (divx e).toNat / e.bestTime.toNat :=
  if_neg (not_not.mpr rfl)

theorem getThreshSecs_zero (hp : p.Exact) (h : e.Ok)
    (hsecs : 100 * 86400 * (divx e).toNat < 2 ^ 32) :
    ∃ secs, getThreshSecs p e 0#32 = some (secs, some (getNumCAndP e).1)
      ∧ secs.toNat = exactSecs e 0#32 := by
  obtain ⟨secs, hday, hvalue⟩ := unitsPerDay_eq hp hsecs
  refine ⟨secs, ?_, hvalue.trans (exactSecs_zero e).symm⟩
  rw [getThreshSecs, if_pos h.bestTime_ne, if_neg (not_not.mpr rfl), hday]
  rfl

theorem timeThreshold_eq (hp : p.Exact) (h : e.Ok) {hours : ℤ} (hlt : hours < 2 ^ 31)
    (hfits : 0 < hours → 100 * 86400 * (divx e).toNat < 2 ^ 32
      ∧ hours.toNat * exactSecs e 0#32 < 2 ^ 32) :
    ∃ t n, timeThreshold p e hours = some (t, n) ∧ (n = none ∨ n = some (getNumCAndP e).1)
      ∧ t.toNat = timeUnits e hours := by
  rw [timeThreshold, timeUnits]
  by_cases hpos : 0 < hours
  · obtain ⟨hday, hhours⟩ := hfits hpos
    obtain ⟨secs, hsecs, hvalue⟩ := getThreshSecs_zero hp h hday
    rw [if_pos hpos, hsecs, Option.bind_eq_bind, Option.bind_some]
    dsimp only
    by_cases hzero : secs = 0#32
    · rw [if_neg (not_not.mpr hzero), if_neg fun hand ↦ hand.2 (by rw [← hvalue, hzero]; rfl)]
      exact ⟨_, _, rfl, .inr rfl, rfl⟩
    · have hne : exactSecs e 0#32 ≠ 0 := by
        rw [← hvalue]
        exact fun heq ↦ hzero (BitVec.eq_of_toNat_eq heq)
      have hint : (BitVec.ofInt 32 hours).toNat = hours.toNat := by
        rw [BitVec.toNat_ofInt]
        omega
      have hprod : (BitVec.ofInt 32 hours).toNat * secs.toNat < 2 ^ 32 := by rwa [hint, hvalue]
      rw [if_pos hzero, if_pos ⟨hpos, hne⟩, hp.unsigned _ _ hprod, Option.bind_eq_bind,
        Option.bind_some]
      refine ⟨_, _, rfl, .inr rfl, ?_⟩
      have hconst : (1#32).toNat = 1 ∧ (24#32).toNat = 24 := ⟨rfl, rfl⟩
      rw [BitVec.toNat_add, BitVec.toNat_udiv, toNat_mul_of_lt hprod, hint, hvalue, hconst.1,
        hconst.2]
      exact Nat.mod_eq_of_lt (by omega)
  · rw [if_neg hpos, if_neg fun hand ↦ hpos hand.1]
    exact ⟨_, _, rfl, .inl rfl, rfl⟩

theorem unitThreshold_eq (hp : p.Exact) {inthreshold : ℤ} (hle : 0 ≤ inthreshold)
    (hlt : 100 * inthreshold < 2 ^ 31) :
    ∃ t, unitThreshold p inthreshold = some t ∧ t.toNat = 100 * inthreshold.toNat := by
  rw [unitThreshold]
  by_cases hpos : 0 < inthreshold
  · rw [if_pos hpos, hp.int _ _ (by omega) (by omega), Option.map_some]
    refine ⟨_, rfl, ?_⟩
    rw [BitVec.toNat_ofInt]
    omega
  · rw [if_neg hpos, show inthreshold = 0 by omega]
    exact ⟨_, rfl, rfl⟩

theorem bufthreshDefault_spec (build : ClientBuild) (contestid : U32) :
    100 < (bufthreshDefault build contestid).toNat
      ∧ (bufthreshDefault build contestid).toNat ≤ 120000 := by
  rw [bufthreshDefault]
  split_ifs
  · cases build.cpu <;> decide
  · decide
  · decide

theorem determined_eq (hp : p.Exact) {default numcrunchers : U32} (bufthresh : U32)
    (h : default.toNat * numcrunchers.toNat < 2 ^ 32) :
    ∃ t, determined p default bufthresh numcrunchers = some t
      ∧ t.toNat = if bufthresh.toNat = 0 then default.toNat * numcrunchers.toNat
        else bufthresh.toNat := by
  have hiff : bufthresh < 1#32 ↔ bufthresh.toNat = 0 := Nat.lt_one_iff
  rw [determined]
  simp only [hiff]
  split_ifs
  · exact ⟨_, hp.unsigned _ _ h, toNat_mul_of_lt h⟩
  · exact ⟨_, rfl, rfl⟩

theorem atLeastOneEach_eq (hp : p.Exact) (bufthresh : U32) {numcrunchers : U32}
    (h : 100 * numcrunchers.toNat < 2 ^ 32) :
    ∃ t, atLeastOneEach p bufthresh numcrunchers = some t
      ∧ t.toNat = max bufthresh.toNat (100 * numcrunchers.toNat) := by
  have hfit : numcrunchers.toNat * (100#32).toNat < 2 ^ 32 := by
    rw [Nat.mul_comm]
    exact h
  have hleast : (numcrunchers * 100#32).toNat = 100 * numcrunchers.toNat := by
    rw [toNat_mul_of_lt hfit, Nat.mul_comm]
    rfl
  rw [atLeastOneEach, hp.unsigned _ _ hfit, Option.bind_eq_bind, Option.bind_some]
  by_cases hlt : bufthresh < numcrunchers * 100#32
  · rw [if_pos hlt]
    rw [BitVec.lt_def, hleast] at hlt
    exact ⟨_, rfl, by rw [hleast, Nat.max_eq_right hlt.le]⟩
  · rw [if_neg hlt]
    rw [BitVec.lt_def, hleast, not_lt] at hlt
    exact ⟨_, rfl, by rw [Nat.max_eq_left hlt]⟩

/-- **The threshold**, if the products fit. -/
theorem clientGetInThreshold_eq (hp : p.Exact) (build : ClientBuild) (h : e.Ok)
    (hcontest : contestid < CONTEST_COUNT)
    (hle : 0 ≤ c.inthreshold contestid) (hlt : 100 * c.inthreshold contestid < 2 ^ 31)
    (htime : c.withoutOGR.timethreshold contestid < 2 ^ 31)
    (hfits : 0 < c.withoutOGR.timethreshold contestid → 100 * 86400 * (divx e).toNat < 2 ^ 32
      ∧ (c.withoutOGR.timethreshold contestid).toNat * exactSecs e 0#32 < 2 ^ 32) :
    ∃ t, clientGetInThreshold p build e c contestid = some t
      ∧ t.toNat = max (if max (100 * (c.inthreshold contestid).toNat)
            (timeUnits e (c.withoutOGR.timethreshold contestid)) = 0 then
          (bufthreshDefault build contestid).toNat * (getNumCAndP e).1.toNat
        else max (100 * (c.inthreshold contestid).toNat)
          (timeUnits e (c.withoutOGR.timethreshold contestid)))
        (100 * (getNumCAndP e).1.toNat) := by
  obtain ⟨hfew, hmany⟩ := h.crunchers
  obtain ⟨-, hdefault⟩ := bufthreshDefault_spec build contestid
  obtain ⟨units, hunits, hunitsValue⟩ := unitThreshold_eq hp hle hlt
  obtain ⟨time, n, hthresh, hn, htimeValue⟩ := timeThreshold_eq hp h htime hfits
  have hcrunchers : determinedCrunchers e n = (getNumCAndP e).1 := by
    rcases hn with rfl | rfl
    · rfl
    · exact ite_self _
  have hmax : (if units < time then time else units).toNat
      = max (100 * (c.inthreshold contestid).toNat)
        (timeUnits e (c.withoutOGR.timethreshold contestid)) := by
    rw [← hunitsValue, ← htimeValue]
    split_ifs with hless
    · exact (Nat.max_eq_right (Nat.le_of_lt hless)).symm
    · exact (Nat.max_eq_left (Nat.le_of_not_lt hless)).symm
  have hproduct : (bufthreshDefault build contestid).toNat * (getNumCAndP e).1.toNat < 2 ^ 32 :=
    (Nat.mul_le_mul hdefault hmany).trans_lt (by decide)
  obtain ⟨whole, hwhole, hwholeValue⟩ := determined_eq hp
    (if units < time then time else units) hproduct
  obtain ⟨t, ht, htValue⟩ := atLeastOneEach_eq hp whole
    (show 100 * (getNumCAndP e).1.toNat < 2 ^ 32 by omega)
  refine ⟨t, ?_, ?_⟩
  · rw [clientGetInThreshold, if_neg (BitVec.not_le.mpr hcontest)]
    have hin : c.withoutOGR.inthreshold contestid = c.inthreshold contestid := rfl
    simp only [hin, hunits, hthresh, Option.bind_eq_bind, Option.bind_some, hcrunchers, hwhole, ht]
  · rw [htValue, hwholeValue, hmax]

theorem timeThreshold_checked (h : e.Ok) {hours : ℤ} (hlt : hours < 2 ^ 31) (hpos : 0 < hours)
    (hsome : timeThreshold .checked e hours ≠ none) :
    100 * 86400 * (divx e).toNat < 2 ^ 32 ∧ hours.toNat * exactSecs e 0#32 < 2 ^ 32 := by
  have hday : 100 * 86400 * (divx e).toNat < 2 ^ 32 := by
    refine unitsPerDay_checked fun hnone ↦ hsome ?_
    rw [timeThreshold, if_pos hpos, getThreshSecs, if_pos h.bestTime_ne,
      if_neg (not_not.mpr rfl), hnone]
    rfl
  obtain ⟨secs, hsecs, hvalue⟩ := getThreshSecs_zero exact_checked h hday
  refine ⟨hday, ?_⟩
  rw [timeThreshold, if_pos hpos, hsecs, Option.bind_eq_bind, Option.bind_some] at hsome
  dsimp only at hsome
  have hint : (BitVec.ofInt 32 hours).toNat = hours.toNat := by
    rw [BitVec.toNat_ofInt]
    omega
  by_cases hzero : secs = 0#32
  · rw [← hvalue, hzero]
    exact (Nat.mul_zero hours.toNat).trans_lt (by decide)
  · rw [if_pos hzero, Products.checked] at hsome
    dsimp only at hsome
    split_ifs at hsome with hfit
    · rwa [hint, hvalue] at hfit
    · exact absurd rfl hsome

theorem unitThreshold_checked {inthreshold : ℤ} (hle : 0 ≤ inthreshold)
    (hsome : unitThreshold .checked inthreshold ≠ none) : 100 * inthreshold < 2 ^ 31 := by
  rw [unitThreshold, Products.checked] at hsome
  dsimp only at hsome
  split_ifs at hsome with hpos hfit
  · omega
  · exact absurd rfl hsome
  · omega

/-- A checked run forms products that fit. -/
theorem clientGetInThreshold_checked (h : e.Ok) (hcontest : contestid < CONTEST_COUNT)
    (hle : 0 ≤ c.inthreshold contestid)
    (htime : c.withoutOGR.timethreshold contestid < 2 ^ 31)
    (hsome : clientGetInThreshold .checked build e c contestid ≠ none) :
    100 * c.inthreshold contestid < 2 ^ 31
      ∧ (0 < c.withoutOGR.timethreshold contestid →
        100 * 86400 * (divx e).toNat < 2 ^ 32
          ∧ (c.withoutOGR.timethreshold contestid).toNat * exactSecs e 0#32 < 2 ^ 32) := by
  have hin : c.withoutOGR.inthreshold contestid = c.inthreshold contestid := rfl
  rw [clientGetInThreshold, if_neg (BitVec.not_le.mpr hcontest), hin] at hsome
  refine ⟨unitThreshold_checked hle fun hnone ↦ hsome ?_,
    fun hpos ↦ timeThreshold_checked h htime hpos fun hnone ↦ hsome ?_⟩
  · rw [hnone]
    rfl
  · rw [hnone]
    cases unitThreshold .checked (c.inthreshold contestid) <;> rfl

/-- Without units per day, a time threshold that stands alone is taken for none. -/
theorem max_timeUnits_iff (build : ClientBuild) (h : e.Ok) (hle : 0 ≤ c.inthreshold contestid) :
    max (if max (100 * (c.inthreshold contestid).toNat)
            (timeUnits e (c.withoutOGR.timethreshold contestid)) = 0 then
          (bufthreshDefault build contestid).toNat * (getNumCAndP e).1.toNat
        else max (100 * (c.inthreshold contestid).toNat)
          (timeUnits e (c.withoutOGR.timethreshold contestid)))
        (100 * (getNumCAndP e).1.toNat) = exactInThreshold build e c contestid
      ↔ (0 < c.withoutOGR.timethreshold contestid → c.inthreshold contestid = 0 →
        e.bestTime.toNat ≤ 100 * 86400 * (divx e).toNat) := by
  obtain ⟨hdefault, -⟩ := bufthreshDefault_spec build contestid
  have hfew := h.crunchers.1
  have hday : e.bestTime.toNat ≤ 100 * 86400 * (divx e).toNat ↔ exactSecs e 0#32 ≠ 0 := by
    rw [exactSecs_zero, Ne, Nat.div_eq_zero_iff_lt h.bestTime, not_lt]
  rw [hday, exactInThreshold, exactTimeThreshold, timeUnits]
  generalize exactSecs e 0#32 = secs
  generalize c.withoutOGR.timethreshold contestid = hours
  generalize c.inthreshold contestid = units at hle ⊢
  generalize (getNumCAndP e).1.toNat = n at hfew ⊢
  generalize (bufthreshDefault build contestid).toNat = default at hdefault ⊢
  have hmore : 100 * n < default * n := Nat.mul_lt_mul_of_pos_right hdefault hfew
  generalize default * n = whole at hmore ⊢
  by_cases hpos : 0 < hours
  · have htime : (if 0 < hours.toNat then 1 + hours.toNat * secs / 24 else 0)
        = 1 + hours.toNat * secs / 24 := if_pos (by omega)
    by_cases hzero : secs = 0
    · have hcode : (if 0 < hours ∧ secs ≠ 0 then 1 + hours.toNat * secs / 24 else 0) = 0 :=
        if_neg fun hand ↦ hand.2 hzero
      rw [htime, hcode, hzero, Nat.mul_zero, Nat.zero_div]
      rcases hle.eq_or_lt with rfl | hunits
      · rw [Int.toNat_zero, if_pos (show max (100 * 0) 0 = 0 from rfl),
          if_neg (show ¬max (100 * 0) (1 + 0) = 0 by decide)]
        exact ⟨fun heq ↦ by omega, fun h ↦ absurd rfl (h hpos rfl)⟩
      · rw [if_neg (show ¬max (100 * units.toNat) 0 = 0 by omega),
          if_neg (show ¬max (100 * units.toNat) (1 + 0) = 0 by omega)]
        exact ⟨fun _ _ h ↦ by omega, fun _ ↦ by omega⟩
    · have hcode : (if 0 < hours ∧ secs ≠ 0 then 1 + hours.toNat * secs / 24 else 0)
          = 1 + hours.toNat * secs / 24 := if_pos ⟨hpos, hzero⟩
      rw [htime, hcode]
      exact ⟨fun _ _ _ ↦ hzero, fun _ ↦ rfl⟩
  · have htime : (if 0 < hours.toNat then 1 + hours.toNat * secs / 24 else 0) = 0 :=
      if_neg (by omega)
    have hcode : (if 0 < hours ∧ secs ≠ 0 then 1 + hours.toNat * secs / 24 else 0) = 0 :=
      if_neg fun hand ↦ hpos hand.1
    rw [htime, hcode]
    exact ⟨fun _ h ↦ absurd h hpos, fun _ ↦ rfl⟩

/-- **The threshold is exact** if and only if the products fit, and there are units per day where
only a time threshold is set. -/
theorem inThresholdExact_iff (h : e.Ok) (hcontest : contestid < CONTEST_COUNT)
    (hle : 0 ≤ c.inthreshold contestid) (htime : c.withoutOGR.timethreshold contestid < 2 ^ 31) :
    InThresholdExact build e c contestid ↔ InThresholdFits build e c contestid := by
  refine forall_congr' fun _ ↦ ⟨fun ⟨hchecked, t, hwrapping, hvalue⟩ ↦ ?_,
    fun ⟨hunits, hfits⟩ ↦ ?_⟩
  · obtain ⟨hunits, hfits⟩ := clientGetInThreshold_checked h hcontest hle htime hchecked
    obtain ⟨t', hrun, hvalue'⟩ := clientGetInThreshold_eq exact_wrapping build h
      hcontest hle hunits htime hfits
    obtain rfl : t' = t := Option.some.inj (hrun.symm.trans hwrapping)
    rw [hvalue, eq_comm, max_timeUnits_iff build h hle] at hvalue'
    exact ⟨hunits, fun hpos ↦ ⟨(hfits hpos).1, (hfits hpos).2, hvalue' hpos⟩⟩
  · have hfits' := fun hpos ↦ (hfits hpos).imp_right And.left
    obtain ⟨t, hchecked, -⟩ := clientGetInThreshold_eq exact_checked build h hcontest
      hle hunits htime hfits'
    obtain ⟨t', hwrapping, hvalue⟩ := clientGetInThreshold_eq exact_wrapping build h
      hcontest hle hunits htime hfits'
    refine ⟨by rw [hchecked]; exact Option.some_ne_none _, t', hwrapping, ?_⟩
    rw [hvalue, max_timeUnits_iff build h hle]
    exact fun hpos ↦ (hfits hpos).2.2

/-- **The thresholds are exact** if and only if the products fit, and there are units per day where
only a time threshold is set. -/
theorem thresholds_exact (build : ClientBuild) (e : Crunching) (c : Thresholds) (contestid : U32)
    (statsUnits : U32) (h : e.Ok) (hcontest : contestid < CONTEST_COUNT)
    (hle : 0 ≤ c.inthreshold contestid) (htime : c.timethreshold contestid < 2 ^ 31) :
    (SecsExact e statsUnits ↔ SecsFit e statsUnits)
      ∧ (InThresholdExact build e c contestid ↔ InThresholdFits build e c contestid) := by
  have htime' : c.withoutOGR.timethreshold contestid < 2 ^ 31 := by
    dsimp only [Thresholds.withoutOGR]
    split_ifs
    · decide
    · exact htime
  exact ⟨secsExact_iff h statsUnits, inThresholdExact_iff h hcontest hle htime'⟩

end Threshold

/-- A processor that takes a day for a packet. -/
def SLOW : Crunching := ⟨1, 1, 1, 86400#32, false⟩

theorem ok_slow : SLOW.Ok := ⟨by decide, by decide, by decide⟩

/-- 10 packets for RC5-72, and a week. -/
def WEEK : Thresholds := ⟨fun _ ↦ 10, fun _ ↦ 168⟩

theorem thresholds_exact_week :
    SecsExact SLOW 0#32 ∧ InThresholdExact ⟨.gpu, true, false⟩ SLOW WEEK RC5_72 := by
  have hexact := thresholds_exact ⟨.gpu, true, false⟩ SLOW WEEK RC5_72 0#32 ok_slow (by decide)
    (by decide) (by decide)
  have hsecs : SecsFit SLOW 0#32 := by
    rw [SecsFit]
    decide
  have hfits : InThresholdFits ⟨.gpu, true, false⟩ SLOW WEEK RC5_72 := by
    rw [InThresholdFits]
    decide
  exact ⟨hexact.1.mpr hsecs, hexact.2.mpr hfits⟩

/-- A thousand packets of a day each are 86400000 seconds: the result is 500654. -/
theorem not_secsExact_slow :
    ¬∀ (build : ClientBuild) (e : Crunching) (c : Thresholds) (contestid : U32) (statsUnits : U32),
      e.Ok → contestid < CONTEST_COUNT → 0 ≤ c.inthreshold contestid →
      c.timethreshold contestid < 2 ^ 31 →
      SecsExact e statsUnits ∧ InThresholdExact build e c contestid := by
  intro h
  obtain ⟨-, secs, n, hrun, hvalue⟩ := (h ⟨.gpu, true, false⟩ SLOW WEEK RC5_72 100000#32 ok_slow
    (by decide) (by decide) (by decide)).1 (by decide)
  have hcode : getThreshSecs .wrapping SLOW 100000#32 = some (500654#32, some 1#32) := by decide
  obtain rfl : 500654#32 = secs := congrArg Prod.fst (Option.some.inj (hcode.symm.trans hrun))
  exact absurd hvalue (by decide)

end Hyunjin
