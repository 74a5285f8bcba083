import Hyunjin.Clock.Ticks
import Hyunjin.Core.Reference
import Hyunjin.Run.Histories
import Mathlib.Algebra.BigOperators.Group.List.Basic

/-!
# Run times

The time that a problem has run is added up in `__compute_run_times`, and what the packets of a
contest have taken in `CliAddContestInfoSummaryData`. Both carry a second by hand. The first does so
as soon as there are a million microseconds, the second only if there are more: the microseconds of
a contest are a million where a packet fills up a second (`addTime_shows_iff`).
-/

namespace Hyunjin

/-- A time with less than a million microseconds. -/
abbrev ClockTime := {tv : Timeval // tv.tvUsec.toNat < 10 ^ 6}

/-- The microseconds of a time, read without a sign. -/
def Timeval.usecs (tv : Timeval) : ℕ := tv.tvSec.toNat * 10 ^ 6 + tv.tvUsec.toNat

/-! ## The run times of a problem -/

/-- The times in the public data of a problem. -/
structure RunTimes where
  runtimeSec : U32
  runtimeUsec : U32
  lastRuntimeSec : U32
  lastRuntimeUsec : U32
  lastRuntimeIsInvalid : Bool
  elapsedTimeSec : U32
  elapsedTimeUsec : U32

/-- The arguments of a call of `__compute_run_times`, and what the clocks say in it. A clock that
fails is read a second time. -/
structure RunCall where
  runstart : ClockTime
  usingPtime : Bool
  coreResultcode : Resultcode
  monotonicClock : Option ClockTime
  monotonicRetry : Option ClockTime
  threadUserTime : Option ClockTime
  laterClock : Option ClockTime
  laterRetry : Option ClockTime

/-- The times of a problem with what is passed by reference. -/
structure RunState where
  prob : RunTimes
  probstart : Timeval
  usingPtime : Bool

/-- The seconds of a start that is not known. -/
def NO_START : U32 := 0xffffffff#32

/-- `clock_stop` where it is the time of the clock on the wall. -/
def RunCall.timeNow (call : RunCall) : Option ClockTime :=
  if call.runstart.1.tvSec = NO_START ∨ call.usingPtime then none
  else call.monotonicClock <|> call.monotonicRetry

/-- `clock_stop`, if the run has a start and a stop. -/
def RunCall.clockStop (call : RunCall) : Option ClockTime :=
  if call.runstart.1.tvSec = NO_START then none
  else if call.usingPtime then call.threadUserTime
  else call.timeNow

/-- The run is added to the run time, with a carry. -/
def RunTimes.addRun (prob : RunTimes) (last : Timeval) : RunTimes :=
  let elapsedhi := last.tvSec + prob.runtimeSec
  let elapsedlo := last.tvUsec + prob.runtimeUsec
  let (elapsedhi, elapsedlo) :=
    if 1000000#32 ≤ elapsedlo then (elapsedhi + 1#32, elapsedlo - 1000000#32)
    else (elapsedhi, elapsedlo)
  { prob with
    lastRuntimeSec := last.tvSec, lastRuntimeUsec := last.tvUsec, lastRuntimeIsInvalid := false
    runtimeSec := elapsedhi, runtimeUsec := elapsedlo }

def RunTimes.noRun (prob : RunTimes) : RunTimes :=
  { prob with lastRuntimeSec := 0#32, lastRuntimeUsec := 0#32, lastRuntimeIsInvalid := true }

/-- The time on the wall since the problem was started, or else the time that it has run. -/
def RunTimes.finish (prob : RunTimes) (elapsed : Option Timeval) : RunTimes :=
  let elapsed := elapsed.getD ⟨prob.runtimeSec, prob.runtimeUsec⟩
  { prob with elapsedTimeSec := elapsed.tvSec, elapsedTimeUsec := elapsed.tvUsec }

/-- `__compute_run_times` -/
def computeRunTimes (s : RunState) (call : RunCall) : RunState :=
  let last := call.clockStop.bind fun stop ↦ lastRuntime call.runstart.1 stop.1
  let prob := last.elim s.prob.noRun s.prob.addRun
  let usingPtime :=
    if call.runstart.1.tvSec ≠ NO_START ∧ call.usingPtime ∧ call.threadUserTime = none then false
    else s.usingPtime
  if call.coreResultcode = .working then
    let probstart := if s.probstart.tvSec = NO_START then call.timeNow.elim s.probstart (·.1)
      else s.probstart
    ⟨prob, probstart, usingPtime⟩
  else
    let now := if s.probstart.tvSec = NO_START then none
      else call.timeNow <|> call.laterClock <|> call.laterRetry
    ⟨prob.finish (now.bind fun now ↦ lastRuntime s.probstart now.1), s.probstart, usingPtime⟩

/-- The times of a problem that has just been loaded. -/
def RunTimes.loaded : RunTimes := ⟨0#32, 0#32, 0#32, 0#32, true, 0#32, 0#32⟩

/-- The time between the start and the stop of a run; a clock that goes backwards shows none. -/
def RunCall.elapsed (call : RunCall) : ℕ :=
  call.clockStop.elim 0 fun stop ↦ stop.1.usecs - call.runstart.1.usecs

/-- The time of a run is the exact time between its start and its stop. -/
theorem lastRuntime_usecs (start stop : ClockTime) :
    match lastRuntime start.1 stop.1 with
    | none => stop.1.usecs < start.1.usecs
    | some last => last.usecs + start.1.usecs = stop.1.usecs ∧ last.tvUsec.toNat < 10 ^ 6 := by
  obtain ⟨⟨sec₀, usec₀⟩, h₀⟩ := start
  obtain ⟨⟨sec, usec⟩, h⟩ := stop
  have hsec := sec.isLt
  simp only [lastRuntime, Timeval.usecs] at h₀ h ⊢
  by_cases hback : sec < sec₀ ∨ sec = sec₀ ∧ usec < usec₀
  · rw [if_pos hback]
    rw [BitVec.lt_def, BitVec.lt_def, ← BitVec.toNat_inj] at hback
    dsimp only
    omega
  rw [if_neg hback]
  rw [BitVec.lt_def, BitVec.lt_def, ← BitVec.toNat_inj] at hback
  by_cases hborrow : usec < usec₀
  · rw [if_pos hborrow]
    rw [BitVec.lt_def] at hborrow
    have hlo : (usec + 1000000#32 - usec₀).toNat = usec.toNat + 10 ^ 6 - usec₀.toNat := by
      rw [BitVec.toNat_sub, BitVec.toNat_add, BitVec.toNat_ofNat]
      omega
    have hhi : (sec - 1#32 - sec₀).toNat + sec₀.toNat + 1 = sec.toNat := by
      rw [BitVec.toNat_sub, BitVec.toNat_sub, BitVec.toNat_ofNat]
      omega
    dsimp only
    rw [hlo]
    omega
  · rw [if_neg hborrow]
    rw [BitVec.lt_def] at hborrow
    have hlo : (usec - usec₀).toNat = usec.toNat - usec₀.toNat := by
      rw [BitVec.toNat_sub]
      omega
    have hhi : (sec - sec₀).toNat = sec.toNat - sec₀.toNat := by
      rw [BitVec.toNat_sub]
      omega
    dsimp only
    rw [hlo, hhi]
    omega

/-- The run time is `n` microseconds, but for seconds that do not fit a word. -/
structure RunTimes.Accumulates (prob : RunTimes) (n : ℕ) : Prop where
  sec : prob.runtimeSec.toNat = n / 10 ^ 6 % 2 ^ 32
  usec : prob.runtimeUsec.toNat = n % 10 ^ 6

theorem RunTimes.Accumulates.addRun {prob : RunTimes} {n : ℕ} (h : prob.Accumulates n)
    {last : Timeval} (hlast : last.tvUsec.toNat < 10 ^ 6) :
    (prob.addRun last).Accumulates (n + last.usecs) := by
  obtain ⟨hsec, husec⟩ := h
  have hlt := last.tvSec.isLt
  have hlo : (last.tvUsec + prob.runtimeUsec).toNat = last.tvUsec.toNat + n % 10 ^ 6 := by
    rw [BitVec.toNat_add, husec]
    omega
  simp only [RunTimes.addRun]
  by_cases hcarry : 1000000#32 ≤ last.tvUsec + prob.runtimeUsec
  · simp only [if_pos hcarry]
    rw [BitVec.le_def, hlo, BitVec.toNat_ofNat] at hcarry
    constructor
    · dsimp only
      rw [BitVec.toNat_add, BitVec.toNat_add, hsec, BitVec.toNat_ofNat, Timeval.usecs]
      omega
    · dsimp only
      rw [BitVec.toNat_sub, hlo, BitVec.toNat_ofNat, Timeval.usecs]
      omega
  · simp only [if_neg hcarry]
    rw [BitVec.le_def, hlo, BitVec.toNat_ofNat] at hcarry
    constructor
    · dsimp only
      rw [BitVec.toNat_add, hsec, Timeval.usecs]
      omega
    · dsimp only
      rw [hlo, Timeval.usecs]
      omega

theorem RunTimes.Accumulates.finish {prob : RunTimes} {n : ℕ} (h : prob.Accumulates n)
    (elapsed : Option Timeval) : (prob.finish elapsed).Accumulates n := ⟨h.sec, h.usec⟩

/-- **A call adds the time of its run** to the run time. -/
theorem accumulates_computeRunTimes {s : RunState} {n : ℕ} (h : s.prob.Accumulates n)
    (call : RunCall) : (computeRunTimes s call).prob.Accumulates (n + call.elapsed) := by
  have hrun : ((call.clockStop.bind fun stop ↦ lastRuntime call.runstart.1 stop.1).elim
      s.prob.noRun s.prob.addRun).Accumulates (n + call.elapsed) := by
    rw [RunCall.elapsed]
    cases call.clockStop with
    | none => exact ⟨h.sec, h.usec⟩
    | some stop =>
      have hlast := lastRuntime_usecs call.runstart stop
      rw [Option.bind_some, Option.elim_some]
      cases hvalid : lastRuntime call.runstart.1 stop.1 with
      | none =>
        rw [hvalid] at hlast
        rw [Nat.sub_eq_zero_of_le hlast.le]
        exact ⟨h.sec, h.usec⟩
      | some last =>
        rw [hvalid] at hlast
        obtain ⟨hsum, hlt⟩ := hlast
        rw [← hsum, Nat.add_sub_cancel]
        exact h.addRun hlt
  simp only [computeRunTimes]
  by_cases hworking : call.coreResultcode = .working
  · rw [if_pos hworking]
    exact hrun
  · rw [if_neg hworking]
    exact hrun.finish _

/-- The run time is the sum of the times of the runs, with less than a million microseconds. -/
def RuntimeShows (past : List RunCall) (s : RunState) : Prop :=
  s.prob.runtimeSec.toNat * 10 ^ 6 + s.prob.runtimeUsec.toNat = (past.map RunCall.elapsed).sum
    ∧ s.prob.runtimeUsec.toNat < 10 ^ 6

/-- **The run time is exact** as long as its seconds fit a word. -/
theorem runtimeShows_iff {past : List RunCall} {s : RunState}
    (h : s.prob.Accumulates (past.map RunCall.elapsed).sum) :
    RuntimeShows past s ↔ (past.map RunCall.elapsed).sum / 10 ^ 6 < 2 ^ 32 := by
  obtain ⟨hsec, husec⟩ := h
  rw [RuntimeShows, hsec, husec]
  omega

/-- The runs of a problem, from where it has been loaded. -/
def RuntimeExact (s : RunState) (calls : List RunCall) : Prop :=
  Run.Throughout computeRunTimes { s with prob := RunTimes.loaded } RuntimeShows calls

theorem accumulates_foldl (s : RunState) (calls : List RunCall) :
    (calls.foldl computeRunTimes { s with prob := RunTimes.loaded }).prob.Accumulates
      (calls.map RunCall.elapsed).sum := by
  induction calls using List.reverseRecOn with
  | nil =>
    rw [List.map_nil, List.sum_nil]
    exact ⟨rfl, rfl⟩
  | append_singleton calls call ih =>
    rw [List.foldl_append, List.map_append, List.sum_append, List.map_singleton, List.sum_singleton]
    exact accumulates_computeRunTimes ih call

theorem runtimeExact_iff (s : RunState) (calls : List RunCall) :
    RuntimeExact s calls ↔ (calls.map RunCall.elapsed).sum / 10 ^ 6 < 2 ^ 32 := by
  constructor
  · intro h
    exact (runtimeShows_iff (accumulates_foldl s calls)).mp (h calls List.prefix_rfl)
  · rintro hfits past ⟨rest, rfl⟩
    rw [List.map_append, List.sum_append] at hfits
    exact (runtimeShows_iff (accumulates_foldl s past)).mpr (by omega)

/-! ## The summary of a contest -/

/-- What is added up for a contest. -/
structure ContestInfo where
  contestID : ℤ
  blocksDone : U32
  iterDoneHi : U32
  iterDoneLo : U32
  timeDone : Timeval
  unitsDone : U32

def ContestInfo.start (contestID : ℤ) : ContestInfo :=
  ⟨contestID, 0#32, 0#32, 0#32, ⟨0#32, 0#32⟩, 0#32⟩

/-- The contests from `RC5` to `OGR_P2`. -/
def conStats : List ContestInfo := [0, 1, 2, 3, 4, 5, 6].map ContestInfo.start

/-- A time is added, with a carry; the fields are signed longs. -/
def Timeval.addTime (timeDone addtime : Timeval) : Timeval :=
  let tvSec := timeDone.tvSec + addtime.tvSec
  let tvUsec := timeDone.tvUsec + addtime.tvUsec
  if (1000000#32).slt tvUsec then ⟨tvSec + tvUsec.sdiv 1000000#32, tvUsec.srem 1000000#32⟩
  else ⟨tvSec, tvUsec⟩

def ContestInfo.add (conInfo : ContestInfo) (iterHi iterLo : U32) (addtime : Timeval)
    (addunits : U32) : ContestInfo :=
  let iterLo := iterLo + conInfo.iterDoneLo
  let iterDoneHi := if iterLo < conInfo.iterDoneLo then conInfo.iterDoneHi + 1#32
    else conInfo.iterDoneHi
  { conInfo with
    blocksDone := conInfo.blocksDone + 1#32
    iterDoneLo := iterLo
    iterDoneHi := iterDoneHi + iterHi
    unitsDone := conInfo.unitsDone + addunits
    timeDone := conInfo.timeDone.addTime addtime }

/-- The first entry with an id is changed; `none` if there is no such entry. -/
def changeContestInfo (contestid : ℤ) (change : ContestInfo → ContestInfo) :
    List ContestInfo → Option (List ContestInfo)
  | [] => none
  | conInfo :: stats => if conInfo.contestID = contestid then some (change conInfo :: stats)
    else (changeContestInfo contestid change stats).map (conInfo :: ·)

/-- `CliAddContestInfoSummaryData`; a pointer to no time is an error. -/
def cliAddContestInfoSummaryData (stats : List ContestInfo) (contestid : ℤ) (iterHi iterLo : U32)
    (addtime : Option Timeval) (addunits : U32) : List ContestInfo × ℤ :=
  match addtime.bind fun addtime ↦
      changeContestInfo contestid (·.add iterHi iterLo addtime addunits) stats with
  | none => (stats, -1)
  | some stats => (stats, 0)

/-- A packet that has been completed. -/
structure DonePacket where
  contestid : ℤ
  iterHi : U32
  iterLo : U32
  time : ClockTime
  units : U32

def addPacket (stats : List ContestInfo) (packet : DonePacket) : List ContestInfo :=
  (cliAddContestInfoSummaryData stats packet.contestid packet.iterHi packet.iterLo
    (some packet.time.1) packet.units).1

/-! ## Sums of packets -/

/-- The packets of one contest. -/
def packetsOf (contestid : ℤ) (packets : List DonePacket) : List DonePacket :=
  packets.filter (·.contestid = contestid)

def iterSum (packets : List DonePacket) : ℕ :=
  (packets.map fun packet ↦ packet.iterHi.toNat * 2 ^ 32 + packet.iterLo.toNat).sum

def timeSum (packets : List DonePacket) : ℕ := (packets.map fun packet ↦ packet.time.1.usecs).sum

def unitSum (packets : List DonePacket) : ℕ := (packets.map fun packet ↦ packet.units.toNat).sum

/-- An entry has the exact sums of the packets of its contest. -/
structure ContestInfo.Sums (conInfo : ContestInfo) (packets : List DonePacket) : Prop where
  time : conInfo.timeDone.Shows (timeSum packets)
  iter : conInfo.iterDoneHi.toNat * 2 ^ 32 + conInfo.iterDoneLo.toNat = iterSum packets % 2 ^ 64
  units : conInfo.unitsDone.toNat = unitSum packets

theorem ContestInfo.sums_start (contestid : ℤ) : (ContestInfo.start contestid).Sums [] where
  time := ⟨by simp [ContestInfo.start, timeSum], by simp [ContestInfo.start, timeSum]⟩
  iter := by simp [ContestInfo.start, iterSum]
  units := by simp [ContestInfo.start, unitSum]

/-- What can be added to the packets of a contest: the sums fit their words, and the microseconds do
not come to exactly a million. -/
structure Addable (packets : List DonePacket) (packet : DonePacket) : Prop where
  time : timeSum (packets ++ [packet]) / 10 ^ 6 < 2 ^ 31
  units : unitSum (packets ++ [packet]) < 2 ^ 32
  not_million : timeSum packets % 10 ^ 6 + packet.time.1.tvUsec.toNat ≠ 10 ^ 6

theorem timeSum_append (packets : List DonePacket) (packet : DonePacket) :
    timeSum (packets ++ [packet]) = timeSum packets + packet.time.1.usecs := by
  rw [timeSum, timeSum, List.map_append, List.sum_append, List.map_singleton, List.sum_singleton]

theorem iterSum_append (packets : List DonePacket) (packet : DonePacket) :
    iterSum (packets ++ [packet]) =
      iterSum packets + (packet.iterHi.toNat * 2 ^ 32 + packet.iterLo.toNat) := by
  rw [iterSum, iterSum, List.map_append, List.sum_append, List.map_singleton, List.sum_singleton]

theorem unitSum_append (packets : List DonePacket) (packet : DonePacket) :
    unitSum (packets ++ [packet]) = unitSum packets + packet.units.toNat := by
  rw [unitSum, unitSum, List.map_append, List.sum_append, List.map_singleton, List.sum_singleton]

/-! ## One packet -/

theorem toNat_sdiv_srem {x y : U32} (hx : x.toNat < 2 ^ 31) (hy : y.toNat < 2 ^ 31) :
    (x.sdiv y).toNat = x.toNat / y.toNat ∧ (x.srem y).toNat = x.toNat % y.toNat := by
  have hmsb {z : U32} (hz : z.toNat < 2 ^ 31) : z.msb = false := by
    rw [BitVec.msb_eq_decide, decide_eq_false (by omega)]
  rw [BitVec.sdiv_eq, BitVec.srem_eq, hmsb hx, hmsb hy]
  exact ⟨BitVec.toNat_udiv, BitVec.toNat_umod⟩

/-- **A time is added exactly** unless the microseconds come to exactly a million. -/
theorem addTime_shows_iff {timeDone addtime : Timeval} {n : ℕ} (h : timeDone.Shows n)
    (hadd : addtime.tvUsec.toNat < 10 ^ 6) : (timeDone.addTime addtime).Shows (n + addtime.usecs) ↔
      (n + addtime.usecs) / 10 ^ 6 < 2 ^ 31 ∧ n % 10 ^ 6 + addtime.tvUsec.toNat ≠ 10 ^ 6 := by
  obtain ⟨hsec, hlt, husec⟩ := shows_def.mp h
  have hadds := addtime.tvSec.isLt
  have hlo : (timeDone.tvUsec + addtime.tvUsec).toNat = n % 10 ^ 6 + addtime.tvUsec.toNat := by
    rw [BitVec.toNat_add, husec]
    omega
  have hcarry : (1000000#32).slt (timeDone.tvUsec + addtime.tvUsec) = true ↔
      10 ^ 6 < n % 10 ^ 6 + addtime.tvUsec.toNat := by
    rw [slt_eq_ult (by decide) (by omega), BitVec.ult_iff_lt, BitVec.lt_def, hlo]
    rfl
  rw [shows_def]
  simp only [Timeval.addTime, hcarry]
  by_cases hmore : 10 ^ 6 < n % 10 ^ 6 + addtime.tvUsec.toNat
  · obtain ⟨hdiv, hrem⟩ := toNat_sdiv_srem (x := timeDone.tvUsec + addtime.tvUsec)
      (y := 1000000#32) (by omega) (by decide)
    rw [hlo, show (1000000#32).toNat = 10 ^ 6 from rfl] at hdiv hrem
    rw [if_pos hmore]
    simp only [hrem, BitVec.toNat_add, hdiv, hsec, Timeval.usecs]
    omega
  · rw [if_neg hmore]
    simp only [hlo, BitVec.toNat_add, hsec, Timeval.usecs]
    omega

/-- The carry between the words of the iterations is right, whatever they are. -/
theorem iterDone_add (conInfo : ContestInfo) (iterHi iterLo : U32) (addtime : Timeval)
    (addunits : U32) :
    (conInfo.add iterHi iterLo addtime addunits).iterDoneHi.toNat * 2 ^ 32 +
        (conInfo.add iterHi iterLo addtime addunits).iterDoneLo.toNat =
      (conInfo.iterDoneHi.toNat * 2 ^ 32 + conInfo.iterDoneLo.toNat +
        (iterHi.toNat * 2 ^ 32 + iterLo.toNat)) % 2 ^ 64 := by
  have hlo := conInfo.iterDoneLo.isLt
  have hlo' := iterLo.isLt
  simp only [ContestInfo.add]
  by_cases hcarry : iterLo + conInfo.iterDoneLo < conInfo.iterDoneLo
  · rw [if_pos hcarry]
    rw [BitVec.lt_def, BitVec.toNat_add] at hcarry
    simp only [BitVec.toNat_add, BitVec.toNat_ofNat]
    omega
  · rw [if_neg hcarry]
    rw [BitVec.lt_def, BitVec.toNat_add] at hcarry
    simp only [BitVec.toNat_add]
    omega

/-- **A packet keeps the sums exact** if and only if it can be added. -/
theorem ContestInfo.Sums.add_iff {conInfo : ContestInfo} {packets : List DonePacket}
    (h : conInfo.Sums packets) (packet : DonePacket) :
    (conInfo.add packet.iterHi packet.iterLo packet.time.1 packet.units).Sums
      (packets ++ [packet]) ↔ Addable packets packet := by
  have htime := addTime_shows_iff h.time packet.time.2
  rw [← timeSum_append] at htime
  have hunits : (conInfo.unitsDone + packet.units).toNat = unitSum (packets ++ [packet]) ↔
      unitSum (packets ++ [packet]) < 2 ^ 32 := by
    rw [unitSum_append, BitVec.toNat_add, h.units]
    omega
  constructor
  · intro hnext
    obtain ⟨hfits, hne⟩ := htime.mp hnext.time
    exact ⟨hfits, hunits.mp hnext.units, hne⟩
  · intro hok
    refine ⟨htime.mpr ⟨hok.time, hok.not_million⟩, ?_, hunits.mpr hok.units⟩
    rw [iterDone_add, h.iter, Nat.mod_add_mod, iterSum_append]

/-! ## All packets -/

/-- The table lists the contests, each with the sums of its packets. -/
structure SummaryShows (packets : List DonePacket) (stats : List ContestInfo) : Prop where
  ids : stats.map ContestInfo.contestID = conStats.map ContestInfo.contestID
  sums : ∀ conInfo ∈ stats, conInfo.Sums (packetsOf conInfo.contestID packets)

/-- The packet is one of no contest, or can be added to those of its contest. -/
def PacketFits (past : List DonePacket) (packet : DonePacket) : Prop :=
  packet.contestid ∈ conStats.map ContestInfo.contestID →
    Addable (packetsOf packet.contestid past) packet

theorem packetsOf_append (contestid : ℤ) (past : List DonePacket) (packet : DonePacket) :
    packetsOf contestid (past ++ [packet]) = packetsOf contestid past ++
      if packet.contestid = contestid then [packet] else [] := by
  rw [packetsOf, List.filter_append]
  by_cases h : packet.contestid = contestid
  · rw [if_pos h, List.filter_singleton, decide_eq_true h]
    rfl
  · rw [if_neg h, List.filter_singleton, decide_eq_false h]
    rfl

/-- The entries of other contests stay, as no contest is listed twice. -/
theorem changeContestInfo_eq (contestid : ℤ) (change : ContestInfo → ContestInfo)
    {stats : List ContestInfo} (hnodup : (stats.map ContestInfo.contestID).Nodup) :
    (changeContestInfo contestid change stats).getD stats = stats.map fun conInfo ↦
      if conInfo.contestID = contestid then change conInfo else conInfo := by
  induction stats with
  | nil => rfl
  | cons conInfo stats ih =>
    rw [List.map_cons, List.nodup_cons] at hnodup
    rw [changeContestInfo, List.map_cons]
    by_cases h : conInfo.contestID = contestid
    · have hother : stats.map (fun conInfo ↦ if conInfo.contestID = contestid then change conInfo
          else conInfo) = stats := by
        refine (List.map_congr_left fun other hother ↦ if_neg fun heq ↦ hnodup.1 ?_).trans
          (List.map_id stats)
        rw [h, ← heq]
        exact List.mem_map_of_mem hother
      rw [if_pos h, if_pos h, hother, Option.getD_some]
    · rw [if_neg h, if_neg h, ← ih hnodup.2]
      cases changeContestInfo contestid change stats <;> rfl

theorem addPacket_eq {stats : List ContestInfo}
    (hnodup : (stats.map ContestInfo.contestID).Nodup) (packet : DonePacket) :
    addPacket stats packet = stats.map fun conInfo ↦ if conInfo.contestID = packet.contestid
      then conInfo.add packet.iterHi packet.iterLo packet.time.1 packet.units else conInfo := by
  rw [← changeContestInfo_eq _ _ hnodup, addPacket, cliAddContestInfoSummaryData, Option.bind_some]
  cases changeContestInfo packet.contestid _ stats <;> rfl

theorem SummaryShows.add_iff {past : List DonePacket} {stats : List ContestInfo}
    (h : SummaryShows past stats) (packet : DonePacket) :
    SummaryShows (past ++ [packet]) (addPacket stats packet) ↔ PacketFits past packet := by
  have hnodup : (stats.map ContestInfo.contestID).Nodup := by
    rw [h.ids]
    decide
  rw [addPacket_eq hnodup]
  constructor
  · intro hnext hmem
    rw [← h.ids] at hmem
    obtain ⟨conInfo, hconInfo, hid⟩ := List.mem_map.mp hmem
    have hsums := hnext.sums _ (List.mem_map_of_mem hconInfo)
    rw [if_pos hid] at hsums
    change ContestInfo.Sums _ (packetsOf conInfo.contestID _) at hsums
    rw [packetsOf_append, if_pos hid.symm] at hsums
    rw [← hid]
    exact ((h.sums conInfo hconInfo).add_iff packet).mp hsums
  · intro hfits
    constructor
    · rw [← h.ids, List.map_map]
      refine List.map_congr_left fun conInfo _ ↦ ?_
      rw [Function.comp_apply]
      split_ifs <;> rfl
    · intro next hnext
      obtain ⟨conInfo, hconInfo, rfl⟩ := List.mem_map.mp hnext
      have hsums := h.sums conInfo hconInfo
      by_cases hid : conInfo.contestID = packet.contestid
      · rw [if_pos hid]
        change ContestInfo.Sums _ (packetsOf conInfo.contestID _)
        rw [packetsOf_append, if_pos hid.symm]
        refine (hsums.add_iff packet).mpr ?_
        rw [hid]
        refine hfits ?_
        rw [← h.ids, ← hid]
        exact List.mem_map_of_mem hconInfo
      · rw [if_neg hid, packetsOf_append, if_neg (Ne.symm hid), List.append_nil]
        exact hsums

/-- The completed packets, from where nothing has been added yet. -/
def SummaryExact (packets : List DonePacket) : Prop :=
  Run.Throughout addPacket conStats SummaryShows packets

theorem summaryExact_iff (packets : List DonePacket) :
    SummaryExact packets ↔ Run.EachAllowed PacketFits packets := by
  refine Run.throughout_iff ⟨rfl, fun conInfo hconInfo ↦ ?_⟩ (fun _ packet _ h ↦ h.add_iff packet) _
  obtain ⟨contestid, -, rfl⟩ := List.mem_map.mp hconInfo
  exact ContestInfo.sums_start contestid

/-- **Times, iterations and units are added up exactly** as long as they fit their words, and no
packet brings the microseconds of its contest to exactly a million. -/
theorem run_times_exact (s : RunState) (calls : List RunCall) (packets : List DonePacket) :
    (RuntimeExact s calls ↔ (calls.map RunCall.elapsed).sum / 10 ^ 6 < 2 ^ 32) ∧
    (SummaryExact packets ↔ Run.EachAllowed PacketFits packets) :=
  ⟨runtimeExact_iff s calls, summaryExact_iff packets⟩

/-- A packet of contest 5 that has taken half a second. -/
def halfSecond : DonePacket := ⟨5, 0#32, 1#32, ⟨⟨0#32, 500000#32⟩, by decide⟩, 1#32⟩

/-- **Two halves of a second** are left as a million microseconds. -/
theorem not_summaryExact : ¬∀ packets, SummaryExact packets := fun h ↦
  ((summaryExact_iff [halfSecond, halfSecond]).mp (h _) [halfSecond] halfSecond List.prefix_rfl
    (by decide)).not_million (by decide +kernel)

end Hyunjin
