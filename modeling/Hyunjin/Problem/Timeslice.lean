import Hyunjin.Run.Machine
import Hyunjin.Word.Signed

/-!
# The timeslice of an OGR-NG cruncher

After each run of its problem `Go_mt` chooses how many nodes the next run may take. For OGR-NG it
keeps sliding averages of the nodes done and of the microseconds that took, and asks for what goes
into a fixed time at that rate. The averages are signed, the samples are not: the fifteenfold of an
average is an `int` product, and the rest of the computation is unsigned.

The product of the time average overflows after a stall of 40 minutes. Otherwise all is well but for
one case: when the time average comes out as zero, the nodes done are taken for the next timeslice
as they are.
-/

namespace Hyunjin

/-- `__dyn_timeslice_struct` -/
structure DynTimeslice where
  usec : U32
  max : U32
  min : U32
  optimal : U32

/-- The entry of OGR-NG in both tables; the time is 200000 microseconds but for a few platforms. -/
def dynTimesliceOgrNg (usec : U32) : DynTimeslice :=
  { usec, max := 0x8000000#32, min := 0x10#32, optimal := 0x10000#32 }

/-- What `Go_mt` keeps from run to run: the sliding averages, the table, and the next timeslice. -/
structure Cruncher where
  ixes : ℤ
  usecs : ℤ
  table : DynTimeslice
  tslice : U32

/-- A run of the problem: whether there is more to do, the nodes done, and a valid runtime. -/
structure CrunchRun where
  working : Bool
  tslice : U32
  runtimeUsec : U32

/-- A product of two `int`s; undefined when it overflows. -/
def intMul (a b : ℤ) : Option ℤ := if -2 ^ 31 ≤ a * b ∧ a * b < 2 ^ 31 then some (a * b) else none

/-- `(avg*15 + sample)/16`: the sum and the quotient are unsigned. -/
def slide (avg : ℤ) (sample : U32) : Option ℤ := do
  let product ← intMul avg 15
  some ((BitVec.ofInt 32 product + sample) / 16#32).toInt

/-- `TS_MULDIV`, in 64 bits; undefined when the divisor is zero. -/
def tsMuldiv (muld : U32) (mulr divr : ℤ) : Option U32 :=
  if divr = 0 then none
  else some ((muld.setWidth 64 * BitVec.ofInt 64 mulr / BitVec.ofInt 64 divr).setWidth 32)

/-- The timeslice for the next round, and the averages. -/
def Cruncher.tune (s : Cruncher) (run : CrunchRun) : Option Cruncher := do
  let ixes ← slide s.ixes run.tslice
  let usecs ← slide s.usecs run.runtimeUsec
  if usecs ≠ 0 then
    let optimal ← tsMuldiv s.table.usec ixes usecs
    let optimal := if optimal < s.table.min then s.table.min else optimal
    let optimal := if s.table.max < optimal then s.table.max else optimal
    some { s with ixes, usecs, tslice := optimal }
  else some { s with tslice := run.tslice }

/-- A problem that is finished leaves its timeslice to the next one, if it is larger than what the
table has. -/
def Cruncher.leave (s : Cruncher) (run : CrunchRun) : Cruncher :=
  let optimal := if s.table.optimal < run.tslice then run.tslice else s.table.optimal
  { s with table := { s.table with optimal }, tslice := optimal }

/-- One round of `Go_mt`. -/
def Cruncher.round (s : Cruncher) (run : CrunchRun) : Option Cruncher :=
  if s.tslice = 0#32 then
    some { s with tslice := if run.working then run.tslice else s.table.optimal }
  else if run.working then s.tune run
  else some (s.leave run)

/-- A cruncher that has not run yet, with its first problem. -/
def Cruncher.start (usec : U32) : Cruncher :=
  { ixes := 0, usecs := 0, table := dynTimesliceOgrNg usec, tslice := 0x10000#32 }

/-! ## One average -/

/-- The average that a sample leaves. -/
def slid (avg : ℕ) (sample : U32) : ℕ := (avg * 15 + sample.toNat) % 2 ^ 32 / 16

theorem slide_eq {avg : ℕ} (havg : avg * 15 < 2 ^ 31) (sample : U32) :
    slide avg sample = some (slid avg sample : ℤ) := by
  have hmul : intMul avg 15 = some ((avg * 15 : ℕ) : ℤ) := by
    rw [intMul, if_pos (by omega)]
    norm_cast
  rw [slide, hmul, Option.bind_eq_bind, Option.bind_some]
  refine congrArg some ?_
  rw [toInt_eq_natCast_iff, BitVec.toNat_udiv, BitVec.toNat_add, BitVec.ofInt_natCast,
    BitVec.toNat_ofNat, Nat.mod_add_mod, slid]
  refine ⟨rfl, ?_⟩
  omega

theorem slide_none {avg : ℕ} (havg : 2 ^ 31 ≤ avg * 15) (sample : U32) :
    slide avg sample = none := by
  rw [slide, intMul, if_neg (by omega)]
  rfl

/-- An average is at most the larger one of the last average and the sample. -/
theorem slid_le (avg : ℕ) (sample : U32) : slid avg sample ≤ max avg sample.toNat := by
  have hmod := Nat.mod_le (avg * 15 + sample.toNat) (2 ^ 32)
  rw [slid]
  omega

/-! ## One round -/

/-- The timeslice that fits the table, as `tune` makes it of the one that it has computed. -/
def DynTimeslice.clamp (table : DynTimeslice) (optimal : U32) : U32 :=
  let optimal := if optimal < table.min then table.min else optimal
  if table.max < optimal then table.max else optimal

theorem DynTimeslice.clamp_mem (table : DynTimeslice) (h : table.min ≤ table.max) (optimal : U32) :
    table.min ≤ table.clamp optimal ∧ table.clamp optimal ≤ table.max := by
  simp only [clamp, BitVec.le_def, BitVec.lt_def] at h ⊢
  split_ifs <;> omega

/-- **What a round does**, if the products do not overflow. -/
theorem Cruncher.tune_eq {s : Cruncher} (run : CrunchRun) {i u : ℕ} (hi : s.ixes = i)
    (hu : s.usecs = u) (hilt : i * 15 < 2 ^ 31) (hult : u * 15 < 2 ^ 31) :
    ∃ q, s.tune run = some (if slid u run.runtimeUsec = 0 then { s with tslice := run.tslice }
      else { s with
        ixes := slid i run.tslice
        usecs := slid u run.runtimeUsec
        tslice := s.table.clamp q }) := by
  rw [tune, hi, hu, slide_eq hilt, slide_eq hult]
  simp only [Option.bind_eq_bind, Option.bind_some]
  by_cases hzero : slid u run.runtimeUsec = 0
  · refine ⟨0#32, ?_⟩
    rw [if_pos hzero, if_neg (by rw [hzero]; decide), ← hi, ← hu]
  · have hne : (slid u run.runtimeUsec : ℤ) ≠ 0 := Nat.cast_ne_zero.mpr hzero
    rw [if_pos hne, tsMuldiv, if_neg hne]
    exact ⟨_, by rw [if_neg hzero]; rfl⟩

theorem Cruncher.tune_none {s : Cruncher} {run : CrunchRun} {i u : ℕ} (hi : s.ixes = i)
    (hu : s.usecs = u) (hilt : i * 15 < 2 ^ 31) (hult : 2 ^ 31 ≤ u * 15) : s.tune run = none := by
  rw [tune, hi, hu, slide_eq hilt, slide_none hult]
  rfl

/-- The largest samples that a cruncher has seen, beside it. -/
structure Watched where
  cruncher : Option Cruncher
  nodes : ℕ
  time : ℕ

def watch (run : CrunchRun) (w : Watched) : Unit × Watched :=
  ((), {
    cruncher := w.cruncher.bind (·.round run)
    nodes := if run.working then max w.nodes run.tslice.toNat else w.nodes
    time := if run.working then max w.time run.runtimeUsec.toNat else w.time })

/-- Node counts go up to the maximum of the table, and the runtime is valid. -/
structure CrunchRun.Valid (run : CrunchRun) : Prop where
  tslice : run.tslice.toNat ≤ 0x8000000
  runtimeUsec : run.runtimeUsec ≠ 0xffffffff#32

/-- The round is defined, the next timeslice is in the range of the table, and the averages are not
negative and not above the largest samples. -/
def InRange (run : CrunchRun) (w : Watched) : Prop :=
  ∃ s, (watch run w).2.cruncher = some s
    ∧ s.table.min ≤ s.tslice ∧ s.tslice ≤ s.table.max
    ∧ 0 ≤ s.ixes ∧ s.ixes ≤ (watch run w).2.nodes
    ∧ 0 ≤ s.usecs ∧ s.usecs ≤ (watch run w).2.time

/-- The time average can be multiplied, and if it comes out as zero the nodes done are not too
few. -/
def Tunable (run : CrunchRun) (w : Watched) : Prop :=
  ∃ s, w.cruncher = some s ∧ (run.working →
    s.usecs * 15 < 2 ^ 31
      ∧ ((s.usecs * 15 + run.runtimeUsec.toNat) % 2 ^ 32 < 16 → s.table.min ≤ run.tslice))

/-- What holds of a cruncher between the rounds, with the largest samples that it has seen. -/
structure Cruncher.Steady (s : Cruncher) (nodes time : ℕ) : Prop where
  min : s.table.min = 0x10#32
  max : s.table.max = 0x8000000#32
  optimal : 0x10#32 ≤ s.table.optimal ∧ s.table.optimal ≤ 0x8000000#32
  tslice : 0x10#32 ≤ s.tslice ∧ s.tslice ≤ 0x8000000#32
  ixes : ∃ i : ℕ, s.ixes = i ∧ i ≤ nodes
  usecs : ∃ u : ℕ, s.usecs = u ∧ u ≤ time
  nodes : nodes ≤ 0x8000000

def Watched.Steady (w : Watched) : Prop := ∃ s, w.cruncher = some s ∧ s.Steady w.nodes w.time

section Round

variable {run : CrunchRun} {s : Cruncher} {nodes time : ℕ}

theorem Cruncher.Steady.tslice_ne_zero (hs : s.Steady nodes time) : s.tslice ≠ 0#32 := by
  intro h
  have hmin := hs.tslice.1
  rw [h] at hmin
  exact absurd hmin (by decide)

/-- A finished problem leaves a timeslice in range. -/
theorem Cruncher.Steady.round_finished (hs : s.Steady nodes time) (hrun : run.Valid)
    (hfinished : run.working = false) :
    s.round run = some (s.leave run) ∧ (s.leave run).Steady nodes time := by
  have hmem : 0x10#32 ≤ (if s.table.optimal < run.tslice then run.tslice else s.table.optimal)
      ∧ (if s.table.optimal < run.tslice then run.tslice else s.table.optimal)
        ≤ 0x8000000#32 := by
    have hopt := hs.optimal; have htslice := hrun.tslice
    simp only [BitVec.le_def, BitVec.lt_def] at hopt ⊢
    simp only [BitVec.toNat_ofNat] at hopt ⊢
    split_ifs <;> omega
  refine ⟨?_, ⟨hs.min, hs.max, hmem, hmem, hs.ixes, hs.usecs, hs.nodes⟩⟩
  rw [round, if_neg hs.tslice_ne_zero, if_neg (by simp [hfinished])]

/-- **A round that tunes the timeslice.** If the product of the time average fits, only a time
average of zero can leave a timeslice out of range. -/
theorem Cruncher.Steady.round_working (hs : s.Steady nodes time) (hrun : run.Valid)
    (hworking : run.working = true) {u : ℕ} (hu : s.usecs = u) (hult : u * 15 < 2 ^ 31) :
    ∃ s', s.round run = some s' ∧ s'.table = s.table
      ∧ (slid u run.runtimeUsec = 0 → s'.tslice = run.tslice)
      ∧ (slid u run.runtimeUsec ≠ 0 ∨ 0x10#32 ≤ run.tslice →
        s'.Steady (Max.max nodes run.tslice.toNat) (Max.max time run.runtimeUsec.toNat)) := by
  obtain ⟨i, hi, hile⟩ := hs.ixes
  obtain ⟨u', hu', hule⟩ := hs.usecs
  obtain rfl : u' = u := by exact_mod_cast hu'.symm.trans hu
  have hnodes := hs.nodes; have htslice := hrun.tslice
  obtain ⟨q, hq⟩ := tune_eq run hi hu (by omega) hult
  have hround : s.round run = s.tune run := by
    rw [round, if_neg hs.tslice_ne_zero, if_pos hworking]
  rw [hround, hq]
  refine ⟨_, rfl, by split_ifs <;> rfl, fun hzero ↦ by rw [if_pos hzero], fun hrange ↦ ?_⟩
  split_ifs with hzero
  · have hle : run.tslice ≤ 0x8000000#32 := by
      rw [BitVec.le_def]
      exact htslice
    exact ⟨hs.min, hs.max, hs.optimal, ⟨hrange.resolve_left (not_not.mpr hzero), hle⟩,
      ⟨i, hi, by omega⟩, ⟨u', hu, by omega⟩, by omega⟩
  · have hclamp := s.table.clamp_mem (by rw [hs.min, hs.max]; decide) q
    rw [hs.min, hs.max] at hclamp
    have hixes := slid_le i run.tslice
    have husecs := slid_le u' run.runtimeUsec
    exact ⟨hs.min, hs.max, hs.optimal, hclamp, ⟨_, rfl, by omega⟩, ⟨_, rfl, by omega⟩, by omega⟩

end Round

/-! ## Whole runs -/

theorem Cruncher.Steady.inRange {s : Cruncher} {run : CrunchRun} {w : Watched}
    (hs : s.Steady (watch run w).2.nodes (watch run w).2.time)
    (hcruncher : (watch run w).2.cruncher = some s) : InRange run w := by
  obtain ⟨i, hi, hile⟩ := hs.ixes
  obtain ⟨u, hu, hule⟩ := hs.usecs
  refine ⟨s, hcruncher, hs.min ▸ hs.tslice.1, hs.max ▸ hs.tslice.2, ?_, ?_, ?_, ?_⟩
  · exact hi ▸ Int.natCast_nonneg i
  · exact hi ▸ Int.ofNat_le.mpr hile
  · exact hu ▸ Int.natCast_nonneg u
  · exact hu ▸ Int.ofNat_le.mpr hule

/-- The average that comes out as zero. -/
theorem slid_eq_zero_iff {s : Cruncher} {u : ℕ} (hu : s.usecs = u) (sample : U32) :
    slid u sample = 0 ↔ (s.usecs * 15 + sample.toNat) % 2 ^ 32 < 16 := by
  rw [hu, slid]
  omega

theorem mul_usecs_lt_iff {s : Cruncher} {u : ℕ} (hu : s.usecs = u) :
    s.usecs * 15 < 2 ^ 31 ↔ u * 15 < 2 ^ 31 := by
  rw [hu]
  omega

/-- A steady cruncher stays so in every round that can be tuned. -/
theorem Watched.Steady.watch {run : CrunchRun} {w : Watched} (hw : w.Steady) (hrun : run.Valid)
    (htunable : Tunable run w) : (watch run w).2.Steady := by
  obtain ⟨s, hcruncher, hs⟩ := hw
  obtain ⟨s₁, hs₁, htune⟩ := htunable
  obtain rfl : s = s₁ := Option.some.inj (hcruncher.symm.trans hs₁)
  cases hworking : run.working with
  | false =>
    obtain ⟨hround, hsteady⟩ := hs.round_finished hrun hworking
    refine ⟨_, by rw [Hyunjin.watch, hcruncher, Option.bind_some, hround], ?_⟩
    simpa only [Hyunjin.watch, hworking, Bool.false_eq_true, if_false] using hsteady
  | true =>
    obtain ⟨hlt, hzero⟩ := htune hworking
    obtain ⟨u, hu, -⟩ := hs.usecs
    obtain ⟨s', hround, -, -, hsteady⟩ :=
      hs.round_working hrun hworking hu ((mul_usecs_lt_iff hu).mp hlt)
    refine ⟨s', by rw [Hyunjin.watch, hcruncher, Option.bind_some, hround], ?_⟩
    have hrange : slid u run.runtimeUsec ≠ 0 ∨ 0x10#32 ≤ run.tslice := by
      rw [Ne, slid_eq_zero_iff hu, ← imp_iff_not_or, ← hs.min]
      exact hzero
    simpa only [Hyunjin.watch, hworking, if_true] using hsteady hrange

theorem Watched.Steady.inRange_iff {run : CrunchRun} {w : Watched} (hw : w.Steady)
    (hrun : run.Valid) : InRange run w ↔ Tunable run w := by
  constructor
  · rintro ⟨s', hs', hmin, -⟩
    obtain ⟨s, hcruncher, hs⟩ := hw
    rw [Hyunjin.watch, hcruncher, Option.bind_some] at hs'
    dsimp only at hs'
    refine ⟨s, hcruncher, fun hworking ↦ ?_⟩
    obtain ⟨i, hi, hile⟩ := hs.ixes
    obtain ⟨u, hu, -⟩ := hs.usecs
    have hnodes := hs.nodes
    rw [mul_usecs_lt_iff hu, ← slid_eq_zero_iff hu]
    have hlt : u * 15 < 2 ^ 31 := by
      by_contra hge
      rw [Cruncher.round, if_neg hs.tslice_ne_zero, if_pos hworking,
        Cruncher.tune_none hi hu (by omega) (not_lt.mp hge)] at hs'
      exact nomatch hs'
    obtain ⟨s₁, hround, htable, hzero, -⟩ := hs.round_working hrun hworking hu hlt
    obtain rfl : s₁ = s' := Option.some.inj (hround.symm.trans hs')
    exact ⟨hlt, fun h ↦ by rwa [hzero h, htable] at hmin⟩
  · intro htunable
    obtain ⟨s, hcruncher, hs⟩ := hw.watch hrun htunable
    exact hs.inRange hcruncher

theorem steady_start (usec : U32) : Watched.Steady ⟨some (.start usec), 0, 0⟩ := by
  refine ⟨_, rfl, rfl, rfl, ?_, ?_, ⟨0, rfl, le_rfl⟩, ⟨0, rfl, le_rfl⟩, by norm_num⟩
  · change 0x10#32 ≤ 0x10000#32 ∧ 0x10000#32 ≤ 0x8000000#32
    decide
  · change 0x10#32 ≤ 0x10000#32 ∧ 0x10000#32 ≤ 0x8000000#32
    decide

/-- **The timeslice stays in range** in every round of a run exactly as long as in every round the
time average can be multiplied, and too few nodes are not done in no time. -/
theorem timeslice_iff (usec : U32) {runs : List CrunchRun} (hruns : ∀ run ∈ runs, run.Valid) :
    Run.Guarded watch InRange runs ⟨some (.start usec), 0, 0⟩
      ↔ Run.Guarded watch Tunable runs ⟨some (.start usec), 0, 0⟩ :=
  Run.guarded_congr (fun _ _ hrun hw ↦ hw.inRange_iff hrun)
    (fun _ _ hrun hw htunable ↦ hw.watch hrun htunable) hruns (steady_start usec)

/-- A run at an even rate, the end of a problem, and a run of the next one. -/
theorem timeslice_even :
    Run.Guarded watch InRange
      [⟨true, 65536#32, 200000#32⟩, ⟨false, 70000#32, 100000#32⟩, ⟨true, 70000#32, 210000#32⟩]
      ⟨some (.start 200000#32), 0, 0⟩ := by
  refine (timeslice_iff 200000#32 ?_).mpr ?_
  · intro run hrun
    simp only [List.mem_cons, List.not_mem_nil, or_false] at hrun
    rcases hrun with rfl | rfl | rfl <;> exact ⟨by decide +kernel, by decide +kernel⟩
  · exact ⟨⟨_, rfl, fun _ ↦ by decide +kernel⟩, ⟨_, rfl, fun h ↦ by revert h; decide +kernel⟩,
      ⟨_, rfl, fun _ ↦ by decide +kernel⟩, trivial⟩

/-- After a stall of an hour and more the product of the time average overflows. -/
theorem not_timeslice_stall :
    ¬Run.Guarded watch InRange
      [⟨true, 65536#32, 4294967294#32⟩, ⟨true, 65536#32, 200000#32⟩]
      ⟨some (.start 200000#32), 0, 0⟩ := by
  rintro ⟨-, ⟨s, hs, -⟩, -⟩
  exact absurd (Option.isSome_iff_exists.mpr ⟨s, hs⟩) (by decide +kernel)

end Hyunjin
