import Hyunjin.Julia.Driver

/-!
# The Julia port agrees with the driver

The port and the driver are run side by side. A launch of either leaves the same result words
(`launch_shifted`), a scan of the words finds the same keys (`scanThreads_of`), and so they leave a
pass in the same state, up to the width of the count of matches, which is the number of matches of
`Search.search` in the port and that number modulo `2³²` in the driver.

They part at the end of the `int64_t`s. A range that ends in the last three of them is rounded up to
whole pipelines past the greatest `int64_t`. Without an exact match, `done` overflows in the driver,
and in the port it wraps and the next launch has no threads.
-/

namespace Hyunjin.Julia

open Word Search

/-! ## The kernels are the same -/

/-- Masking the amount twice is masking it once. -/
theorem hyRotl_and (x n : U32) : hyRotl x (n &&& 0x1F#32) = hyRotl x n := by
  simp only [hyRotl, BitVec.and_assoc, BitVec.and_self]

theorem mix_eq : mix = hyMix := by
  funext s
  simp only [mix, hyRotl_and]
  rfl

theorem r72Encrypt_eq (plain : Block) (key : Key72) :
    r72Encrypt plain key = hyEncrypt plain key := by
  have hround (S : Vector U32 26) : round S = hyRound S := by
    funext b i
    simp only [round, hyRotl_and]
    rfl
  have hexpand : expand key = hyExpand key := by
    rw [expand, hyExpand, mix_eq, hyTable]
  simp only [r72Encrypt, hyEncrypt, hexpand, hround]

/-- The same memory, with indices from 1. -/
structure Shifted (jm cm : DeviceMem) : Prop where
  apply : ∀ i, jm (i + 1) = cm i

private theorem Shifted.orInto {jm cm : DeviceMem} (h : Shifted jm cm) (idx : ℕ) (bits : U32) :
    Shifted (orInto jm (idx + 1) bits) (atomicOr cm idx bits) where
  apply i := by
    simp only [Julia.orInto, atomicOr, Function.update_apply, Nat.add_right_cancel_iff, h.apply]

private theorem kernelLane_shifted (a : KernelArgs) (idx : ℕ) {jm cm : DeviceMem}
    (h : Shifted jm cm) (k : ℕ) :
    ∃ jm', kernelLane a idx (BitVec.ofNat 32 idx * BitVec.ofNat 32 PIPELINE) jm k = some jm' ∧
      Shifted jm' (Hyunjin.kernelLane a idx cm k) := by
  have hpipeline : PIPELINE = HYUNJIN_PIPELINE := rfl
  have hone := h.orInto idx (1#32 <<< (2 * k))
  have htwo := hone.orInto idx (2#32 <<< (2 * k))
  rw [kernelLane, hyIncrementL0_eq, Option.map_some, hpipeline]
  refine ⟨_, rfl, ?_⟩
  simp only [r72Encrypt_eq, Hyunjin.kernelLane]
  generalize hyEncrypt a.plain (Hyunjin.hyIncrementL0 a.L0
    (BitVec.ofNat 32 idx * BitVec.ofNat 32 HYUNJIN_PIPELINE + BitVec.ofNat 32 k)) = c
  by_cases hlo : c.lo = a.cypher.lo
  · rw [if_pos hlo, if_pos hlo]
    by_cases hhi : c.hi = a.cypher.hi
    · rw [if_pos hhi, if_pos hhi]
      exact htwo
    · rw [if_neg hhi, if_neg hhi]
      exact hone
  · rw [if_neg hlo, if_neg hlo]
    exact h

/-- A fold that cannot fail simulates another if each of its steps does. -/
private theorem exists_foldlM {α β γ : Type*} {R : β → γ → Prop} {f : β → α → Option β}
    {g : γ → α → γ} (hstep : ∀ x b c, R b c → ∃ b', f b x = some b' ∧ R b' (g c x)) (l : List α)
    {b : β} {c : γ} (h : R b c) : ∃ b', l.foldlM f b = some b' ∧ R b' (l.foldl g c) := by
  induction l generalizing b c with
  | nil => exact ⟨b, rfl, h⟩
  | cons x l ih =>
    obtain ⟨b', hb', hR⟩ := hstep x b c h
    obtain ⟨b'', hb'', hR'⟩ := ih hR
    refine ⟨b'', ?_, hR'⟩
    rw [List.foldlM_cons, hb']
    exact hb''

private theorem kernel_shifted {a : KernelArgs} (ha : a.processAmount ≤ 2 ^ 32) (bd bx tx : ℕ)
    {jm cm : DeviceMem} (h : Shifted jm cm) :
    ∃ jm', hyunjinR72Kernel a bd bx tx jm = some jm' ∧
      Shifted jm' (Hyunjin.hyunjinR72Kernel a bd bx tx cm) := by
  simp only [hyunjinR72Kernel, Hyunjin.hyunjinR72Kernel]
  generalize bx * bd + tx = idx
  by_cases hidx : a.processAmount ≤ idx
  · rw [if_pos hidx, if_pos hidx]
    exact ⟨jm, rfl, h⟩
  · have hlane (k : ℕ) (jm cm : DeviceMem) (hm : Shifted jm cm) := kernelLane_shifted a idx hm k
    rw [if_neg hidx, if_neg hidx, toUnsigned_natCast (by omega), Option.bind_some]
    exact exists_foldlM hlane (List.range HYUNJIN_PIPELINE) h

/-- **A launch of the port leaves the words of a launch of the driver.** -/
theorem launch_shifted {a : KernelArgs} (ha : a.processAmount ≤ 2 ^ 32) (bd : ℕ)
    (order : List (ℕ × ℕ)) {jm cm : DeviceMem} (h : Shifted jm cm) :
    ∃ jm', launch a bd order jm = some jm' ∧ Shifted jm' (Hyunjin.launch a bd order cm) := by
  have hthread (t : ℕ × ℕ) (jm cm : DeviceMem) (hm : Shifted jm cm) :=
    kernel_shifted ha bd t.1 t.2 hm
  exact exists_foldlM hthread order h

/-! ## The scans are the same -/

/-- The results of the driver with a count of its own. -/
def RunOut.of (count : ℕ) (out : DriverOut) : RunOut where
  ret := out.ret
  iterationsOut := out.iterationsOut
  nCheck := int64 count
  check := out.check
  found := out.found
  resL0 := out.resL0

theorem RunOut.nCheck_of (count : ℕ) (out : DriverOut) :
    (RunOut.of count out).nCheck = int64 count := by
  rw [RunOut.of]

/-- The scan of a word, at words and numbers that fit. The counts grow alike, by at most one a key,
but the driver's wraps at 32 bits. -/
private theorem scanLanes_of (base : Key72) {done j : ℕ} (word : U32)
    (hdone : done + HYUNJIN_PIPELINE * (j + 1) ≤ 2 ^ 63) (hj : HYUNJIN_PIPELINE * (j + 1) ≤ 2 ^ 32)
    (ks : List ℕ) (hks : ∀ k ∈ ks, k < HYUNJIN_PIPELINE) (count : ℕ) (out : DriverOut) :
    ∃ d ≤ ks.length,
      scanLanes base done word (j + 1) ks (.of count out)
        = some (.of (count + d) (Hyunjin.scanLanes base done word j ks out)) ∧
      (Hyunjin.scanLanes base done word j ks out).nCheck = out.nCheck + BitVec.ofNat 32 d := by
  induction ks generalizing count out with
  | nil => exact ⟨0, Nat.le_refl 0, rfl, (BitVec.add_zero _).symm⟩
  | cons k ks ih =>
    have hk := hks k List.mem_cons_self
    have hrest := ih fun k' hk' ↦ hks k' (List.mem_cons_of_mem _ hk')
    rw [scanLanes, Hyunjin.scanLanes]
    by_cases hone : word &&& 1#32 <<< (2 * k) ≠ 0#32
    · have hoffset : (PIPELINE : ℤ) * ((j + 1 : ℕ) - 1) + k = (HYUNJIN_PIPELINE * j + k : ℕ) := by
        rw [PIPELINE, HYUNJIN_PIPELINE]
        omega
      rw [Nat.mul_succ] at hj hdone
      have hcount : int64 (int64 count + 1) = int64 (count + 1 : ℕ) := by
        rw [int64, int64, int64, Int.bmod_add_bmod, Int.natCast_succ]
      have hat : int64 (done + (HYUNJIN_PIPELINE * j + k : ℕ))
          = (done + (HYUNJIN_PIPELINE * j + k) : ℕ) := by
        rw [int64_of_mem (by omega) (by omega)]
        exact (Int.natCast_add ..).symm
      rw [if_pos hone, if_pos hone]
      simp only [hoffset, toUnsigned_natCast (w := 32) (n := HYUNJIN_PIPELINE * j + k) (by omega),
        Option.bind_some, hyIncrementL0_eq, RunOut.of, hcount, hat]
      by_cases htwo : word &&& 2#32 <<< (2 * k) ≠ 0#32
      · rw [if_pos htwo, if_pos htwo]
        exact ⟨1, Nat.succ_le_succ (Nat.zero_le _), rfl, rfl⟩
      · rw [if_neg htwo, if_neg htwo]
        obtain ⟨d, hd, hscan, hn⟩ := hrest (count + 1) { out with
          nCheck := out.nCheck + 1#32
          check := Hyunjin.hyIncrementL0 base (BitVec.ofNat 32 (HYUNJIN_PIPELINE * j + k)) }
        refine ⟨d + 1, Nat.succ_le_succ hd, ?_, ?_⟩
        · rw [Nat.add_comm d, ← Nat.add_assoc]
          exact hscan
        · rw [hn, Nat.add_comm d, BitVec.ofNat_add 1 d]
          exact BitVec.add_assoc ..
    · rw [if_neg hone, if_neg hone]
      obtain ⟨d, hd, hscan, hn⟩ := hrest count out
      exact ⟨d, Nat.le_succ_of_le hd, hscan, hn⟩

private theorem scanThreads_of (base : Key72) {done : ℕ} {jm cm : DeviceMem} (hmem : Shifted jm cm)
    (n a : ℕ) (hdone : done + HYUNJIN_PIPELINE * (a + n) ≤ 2 ^ 63)
    (ha : HYUNJIN_PIPELINE * (a + n) ≤ 2 ^ 32) (count : ℕ) (out : DriverOut) :
    ∃ d ≤ HYUNJIN_PIPELINE * n,
      scanThreads base done jm (List.range' (a + 1) n) (.of count out)
        = some (.of (count + d) (Hyunjin.scanThreads base done cm (List.range' a n) out)) ∧
      (Hyunjin.scanThreads base done cm (List.range' a n) out).nCheck
        = out.nCheck + BitVec.ofNat 32 d := by
  induction n generalizing a count out with
  | zero => exact ⟨0, Nat.le_refl 0, rfl, (BitVec.add_zero _).symm⟩
  | succ n ih =>
    have hsum : a + (n + 1) = a + 1 + n := by omega
    have hword : HYUNJIN_PIPELINE * (a + 1) ≤ HYUNJIN_PIPELINE * (a + (n + 1)) :=
      Nat.mul_le_mul_left _ (by omega)
    rw [List.range'_succ, List.range'_succ, scanThreads, Hyunjin.scanThreads, hmem.apply]
    by_cases hzero : cm a = 0#32
    · rw [if_pos hzero, if_pos hzero]
      obtain ⟨d, hd, hscan, hn⟩ := ih (a + 1) (hsum ▸ hdone) (hsum ▸ ha) count out
      exact ⟨d, hd.trans (Nat.mul_le_mul_left _ n.le_succ), hscan, hn⟩
    · rw [if_neg hzero, if_neg hzero]
      obtain ⟨d, hd, hscan, hn⟩ := scanLanes_of base (cm a)
        ((Nat.add_le_add_left hword done).trans hdone) (hword.trans ha)
        (List.range HYUNJIN_PIPELINE) (fun k hk ↦ List.mem_range.mp hk) count out
      rw [List.length_range] at hd
      have hpipeline : PIPELINE = HYUNJIN_PIPELINE := rfl
      rw [hpipeline, hscan, Option.bind_some]
      generalize Hyunjin.scanLanes base done (cm a) a (List.range HYUNJIN_PIPELINE) out = out' at *
      by_cases hfound : out'.ret = some .found
      · have hfound' : (RunOut.of (count + d) out').ret = some .found := hfound
        rw [if_pos hfound']
        dsimp only
        rw [if_pos hfound]
        exact ⟨d, hd.trans (Nat.le_mul_of_pos_right _ n.succ_pos), rfl, hn⟩
      · have hfound' : ¬(RunOut.of (count + d) out').ret = some .found := hfound
        rw [if_neg hfound']
        dsimp only
        rw [if_neg hfound]
        obtain ⟨d', hd', hscan', hn'⟩ := ih (a + 1) (hsum ▸ hdone) (hsum ▸ ha) (count + d) out'
        refine ⟨d + d', ?_, ?_, ?_⟩
        · rw [Nat.mul_succ, Nat.add_comm d]
          exact Nat.add_le_add hd' hd
        · rw [hscan', Nat.add_assoc]
        · rw [hn', hn, BitVec.ofNat_add, BitVec.add_assoc]

/-! ## The passes are the same -/

theorem RunOut.of_finish (count : ℕ) (out : DriverOut) (base : Key72) (done : ℕ) :
    (RunOut.of count out).finish base done = .of count (out.finish base done) := by
  by_cases hret : out.ret = some .nothing
  · simp [RunOut.finish, RunOut.of, DriverOut.finish, hret]
  · simp [RunOut.finish, RunOut.of, DriverOut.finish, hret]

theorem threadsThisPass_eq (nthreads : BlockThreads) (remain : ℕ) :
    threadsThisPass nthreads remain = Hyunjin.threadsThisPass nthreads remain := by
  have hn := nthreads.property
  rw [threadsThisPass, Hyunjin.threadsThisPass, keysThisPass_eq, PIPELINE, HYUNJIN_PIPELINE,
    MAX_GRID, Hyunjin.MAX_GRID, Int.tdiv_eq_ediv_of_nonneg (by omega)]
  omega

theorem gridThisPass_eq (nthreads : BlockThreads) {n : ℕ} (hn : 0 < n) :
    gridThisPass nthreads n = ((n + nthreads.val - 1) / nthreads.val : ℕ) := by
  have hsub : ((n : ℤ) + nthreads.val - 1) = (n + nthreads.val - 1 : ℕ) := by omega
  rw [gridThisPass, hsub, Int.tdiv_eq_ediv_of_nonneg (Int.natCast_nonneg _), Int.natCast_ediv]

/-- A device of the driver that runs threads as this one does. -/
private def CudaJl.device (jl : CudaJl) : Cuda := { Cuda.sequential with order := jl.order }

/-- A pass of the port scans what the driver would, and finds the same. -/
private theorem exists_scan {jl : CudaJl} (hjl : jl.Faithful) (plain cypher : Block)
    (nthreads : BlockThreads) (pass : ℕ) {done m : ℕ} (base : Key72)
    (hsmall : HYUNJIN_PIPELINE * m < 2 ^ 32) (hdone : done + HYUNJIN_PIPELINE * m ≤ 2 ^ 63)
    (count : ℕ) {out : DriverOut} (hret : out.ret ≠ some .found) :
    let r := search (verdict plain cypher) refKeyStep (HYUNJIN_PIPELINE * m) base.norm
    ∃ hRes, launch ⟨plain, cypher, base, m⟩ nthreads.val
        (jl.order pass ((m + nthreads.val - 1) / nthreads.val) nthreads.val) (fun _ ↦ 0#32)
          = some hRes ∧
      scanThreads base done hRes (List.range' 1 m) (.of count out)
        = some (.of (count + r.matched.length) (out.note done r)) := by
  intro r
  have hzero : Shifted (fun _ ↦ 0#32) fun i ↦ if i < m then 0#32 else 0#32 :=
    ⟨fun i ↦ (ite_self _).symm⟩
  have hm : m ≤ 2 ^ 32 := by
    rw [HYUNJIN_PIPELINE] at hsmall
    omega
  have hfits : done + HYUNJIN_PIPELINE * (0 + m) ≤ 2 ^ 63 := by rwa [Nat.zero_add]
  have hwords : HYUNJIN_PIPELINE * (0 + m) ≤ 2 ^ 32 := by
    rw [Nat.zero_add]
    exact hsmall.le
  have hruns : jl.device.RunsThreads := hjl.order
  obtain ⟨hRes, hlaunch, hmem⟩ := launch_shifted (a := ⟨plain, cypher, base, m⟩) hm nthreads.val
    (jl.order pass ((m + nthreads.val - 1) / nthreads.val) nthreads.val) hzero
  obtain ⟨d, hd, hscan, hn⟩ := scanThreads_of base hmem m 0 hfits hwords count out
  have hnote : Hyunjin.scanThreads base done _ _ out = out.note done r :=
    scanThreads_launch_norm hruns plain cypher nthreads pass done base (fun _ ↦ 0#32) hsmall hret
  rw [List.range_eq_range'] at hnote
  rw [CudaJl.device] at hnote
  rw [hnote] at hscan hn
  -- a pass has fewer keys than a 32-bit count has values, so the two counts of it are the same
  have hcount : d = r.matched.length := by
    have hlen : r.matched.length ≤ HYUNJIN_PIPELINE * m := length_matched_le _ _
    have hword := congrArg BitVec.toNat (BitVec.add_right_inj _ |>.mp hn)
    rw [BitVec.toNat_ofNat, BitVec.toNat_ofNat, Nat.mod_eq_of_lt (by omega),
      Nat.mod_eq_of_lt (by omega)] at hword
    exact hword.symm
  exact ⟨hRes, hlaunch, hcount ▸ hscan⟩

/-! ## The loops are the same -/

/-- A pass of the port, as long as `done` stays within `2⁶³`. -/
theorem passLoop_step {jl : CudaJl} (hjl : jl.Faithful) (plain cypher : Block)
    (nthreads : BlockThreads) {iterationsIn : ℕ} (hin : iterationsIn < 2 ^ 63) (pass : ℕ)
    {done m : ℕ} (hlt : done < iterationsIn)
    (hm : Hyunjin.threadsThisPass nthreads (iterationsIn - done) = m)
    (hdone : done + HYUNJIN_PIPELINE * m ≤ 2 ^ 63) (base : Key72) (count : ℕ) {out : DriverOut}
    (hret : out.ret ≠ some .found) :
    let r := search (verdict plain cypher) refKeyStep (HYUNJIN_PIPELINE * m) base.norm
    passLoop jl plain cypher nthreads iterationsIn pass done base (.of count out) =
      if r.found then
        some (.of (count + r.matched.length) ((out.note done r).finish base done))
      else passLoop jl plain cypher nthreads iterationsIn (pass + 1)
        (int64 (done + HYUNJIN_PIPELINE * m : ℕ)) r.cursor
        (.of (count + r.matched.length) (out.note done r)) := by
  intro r
  have hleft : int64 ((iterationsIn : ℤ) - done) = (iterationsIn - done : ℕ) := by
    rw [int64_of_mem (by omega) (by omega), Int.ofNat_sub hlt.le]
  have hpos := threadsThisPass_pos nthreads (Nat.sub_pos_of_lt hlt)
  have hsmall := threadsThisPass_mul_lt nthreads (iterationsIn - done)
  rw [hm] at hpos hsmall
  have hn := nthreads.property.1
  have hgrid : ¬((((m + nthreads.val - 1) / nthreads.val : ℕ) : ℤ) ≤ 0) := by
    have hdiv : 0 < (m + nthreads.val - 1) / nthreads.val := Nat.div_pos (by omega) (by omega)
    omega
  have hword : m < 2 ^ 32 := by
    rw [HYUNJIN_PIPELINE] at hsmall
    omega
  have hkeys : (m : ℤ) * PIPELINE = (m * HYUNJIN_PIPELINE : ℕ) := (Int.natCast_mul ..).symm
  obtain ⟨hRes, hlaunch, hscan⟩ := exists_scan hjl plain cypher nthreads pass base hsmall
    hdone count
    hret
  rw [passLoop, if_pos (Int.ofNat_lt.mpr hlt)]
  simp only [hleft, threadsThisPass_eq, hm]
  rw [gridThisPass_eq nthreads hpos, if_neg hgrid, hjl.succeeds, if_neg Bool.true_eq_false.mp,
    toUnsigned_natCast hword, Option.bind_some, BitVec.toNat_ofNat, Nat.mod_eq_of_lt hword,
    Int.toNat_natCast, Int.toNat_natCast, hlaunch, Option.bind_some, hscan, Option.bind_some, hkeys]
  have hfound : (RunOut.of (count + r.matched.length) (out.note done r)).ret = some .found ↔
      r.found = true := ret_note_ne_found hret done r
  rcases hf : r.found with _ | _
  · have hno : ¬(RunOut.of (count + r.matched.length) (out.note done r)).ret = some .found := by
      rw [hfound, hf]
      exact Bool.false_ne_true
    rw [if_neg hno, if_neg Bool.false_ne_true, toUnsigned_natCast (by rwa [Nat.mul_comm]),
      Option.bind_some, hyIncrementL0_eq, Option.bind_some, hyIncrementL0_pass base hsmall hf,
      ← Int.natCast_add, Nat.mul_comm m]
  · rw [if_pos (hfound.mpr hf), if_pos rfl, RunOut.of_finish]

theorem wholeKeys_le {iterationsIn : ℕ} (hin : iterationsIn < 2 ^ 63) :
    wholeKeys iterationsIn ≤ 2 ^ 63 := by
  rw [wholeKeys, HYUNJIN_PIPELINE]
  omega

/-- **The port leaves the loop with the results of the driver** and the number of matches, unless it
gets past the last `Int64` without an exact match. -/
theorem passLoop_of {cuda : Cuda} (hc : cuda.Faithful) {jl : CudaJl} (hjl : jl.Faithful)
    (plain cypher : Block) (nthreads : BlockThreads) {iterationsIn : ℕ}
      (hin : iterationsIn < 2 ^ 63)
    (pass done : ℕ) (base : Key72) (mem : DeviceMem) (count : ℕ) {out : DriverOut}
    (hret : out.ret = some .nothing) (hdvd : HYUNJIN_PIPELINE ∣ done)
    (hle : done ≤ wholeKeys iterationsIn) :
    let r := search (verdict plain cypher) refKeyStep (wholeKeys iterationsIn - done) base.norm
    r.found = true ∨ wholeKeys iterationsIn < 2 ^ 63 →
    passLoop jl plain cypher nthreads iterationsIn pass done base (.of count out) =
      some (.of (count + r.matched.length)
        (Hyunjin.passLoop cuda plain cypher nthreads iterationsIn pass done base mem out)) := by
  induction hrem : iterationsIn - done using Nat.strong_induction_on
    generalizing pass done base mem count out with
  | _ remain ih =>
    intro r hends
    by_cases hlt : done < iterationsIn
    · have hwhole := wholeKeys_le hin
      have hret' : out.ret ≠ some .found := by
        rw [hret]
        decide
      obtain ⟨hdvd', hle'⟩ := done_add_keys_le nthreads hlt hdvd
      obtain ⟨mem', hstep⟩ := passLoop_step_norm hc plain cypher nthreads pass hlt base mem hret
      have hjstep := passLoop_step hjl plain cypher nthreads hin pass hlt rfl
        (hle'.trans hwhole) base
        count hret'
      have hpos : 0 < HYUNJIN_PIPELINE * Hyunjin.threadsThisPass nthreads (iterationsIn - done) :=
        Nat.mul_pos (by decide) (threadsThisPass_pos nthreads (by omega))
      generalize HYUNJIN_PIPELINE * Hyunjin.threadsThisPass nthreads (iterationsIn - done) = n at *
      have hsplit : r = (search (verdict plain cypher) refKeyStep n base.norm).andThen
          (search (verdict plain cypher) refKeyStep (wholeKeys iterationsIn - (done + n))) := by
        have hsum : wholeKeys iterationsIn - done = n + (wholeKeys iterationsIn - (done + n)) := by
          omega
        rw [← search_add, ← hsum]
      rw [hsplit] at hends ⊢
      rw [hstep, hjstep]
      rcases hfound : (search (verdict plain cypher) refKeyStep n base.norm).found with _ | _
      · have hnothing : (out.note done (search (verdict plain cypher) refKeyStep n base.norm)).ret =
            some .nothing := (ret_note_of_not_found _ _ hfound).trans hret
        have hcursor := (valid_cursor_search base.valid_norm (verdict plain cypher) n).norm_eq
        rw [Outcome.andThen, hfound] at hends ⊢
        simp only [Bool.false_eq_true, if_false, List.length_append, ← Nat.add_assoc] at hends ⊢
        -- an exact match still to come leaves room for a key, and so for `done`
        have hfits : done + n < 2 ^ 63 := by
          rcases hends with hmatch | hsmall
          · have hsome := (found_iff_cursor.mp hmatch).1
            omega
          · omega
        rw [int64_of_mem (by omega) (by exact_mod_cast hfits)]
        have hrest := ih _ (by omega) (pass + 1) (done + n)
          (search (verdict plain cypher) refKeyStep n base.norm).cursor mem'
          (count + (search (verdict plain cypher) refKeyStep n base.norm).matched.length) hnothing
          hdvd' hle' rfl
        rw [hcursor] at hrest
        exact hrest hends
      · rw [if_pos rfl, if_pos rfl, Outcome.andThen_of_found hfound]
    · have hend := eq_wholeKeys hdvd hle hlt
      have hzero : r = ⟨0, base.norm, [], false⟩ := by
        rw [← search_zero (verdict plain cypher) refKeyStep, ← Nat.sub_self done]
        exact congrArg (search _ _ · _) (congrArg (· - done) hend.symm)
      rw [passLoop, if_neg (by exact_mod_cast hlt), Hyunjin.passLoop, if_neg hlt, hzero,
        RunOut.of_finish]
      rfl

/-! ## The drivers agree -/

/-- The results of the port are those of the driver, as numbers. -/
structure SameResults (c : DriverOut) (j : RunOut) : Prop where
  status : j.ret = c.ret
  iterationsOut : j.iterationsOut = c.iterationsOut
  nCheck : j.nCheck = c.nCheck.toNat
  check : j.check = c.check
  found : j.found = c.found
  resL0 : j.resL0 = c.resL0

/-- Both drivers have a result, and it is the same. -/
def Agree (cuda : Cuda) (jl : CudaJl) (plain cypher : Block) (l0 : Key72)
    (iterationsIn : BitVec 64) (device : ℤ) (blockSize : U32) : Prop :=
  ∃ c j, hyunjinR72RunInt64 cuda plain cypher l0 iterationsIn device blockSize.toInt = some c ∧
    hyunjinR72Run jl plain cypher l0 iterationsIn.toInt device blockSize.toInt = some j ∧
    SameResults c j

/-- The search of the keys of a request. -/
def requestSearch (plain cypher : Block) (l0 : Key72) (iterationsIn : BitVec 64) : Outcome Key72 :=
  search (verdict plain cypher) refKeyStep (wholeKeys iterationsIn.toInt.toNat) l0.norm

theorem clampThreads_eq (blockSize : ℤ) : clampThreads blockSize
    = Hyunjin.clampThreads blockSize := by
  refine Subtype.ext ?_
  simp only [clampThreads, Hyunjin.clampThreads, BLOCK_SIZE, HYUNJIN_BLOCK_SIZE]
  split_ifs <;> omega

/-- On a faithful device the port is its pass loop, which has nothing to do for a negative count. -/
private theorem hyunjinR72Run_eq {jl : CudaJl} (hjl : jl.Faithful) (plain cypher : Block)
    (l0 : Key72) (iterationsIn : BitVec 64) (device : ℤ) (blockSize : U32) :
    hyunjinR72Run jl plain cypher l0 iterationsIn.toInt device blockSize.toInt =
      passLoop jl plain cypher (Hyunjin.clampThreads blockSize.toInt) iterationsIn.toInt.toNat 0
        (0 : ℕ) l0 (.of 0 (.start l0)) := by
  have hblock : toSigned 64 blockSize.toInt = some (BitVec.ofInt 64 blockSize.toInt) := by
    refine toSigned_eq_some ?_
    have hlo := BitVec.le_toInt blockSize
    have hhi := BitVec.toInt_lt (x := blockSize)
    omega
  have hblock' : (BitVec.ofInt 64 blockSize.toInt).toInt = blockSize.toInt := by
    have hlo := BitVec.le_toInt blockSize
    have hhi := BitVec.toInt_lt (x := blockSize)
    rw [BitVec.toInt_ofInt]
    exact int64_of_mem (by omega) (by omega)
  have hiters : toSigned 64 iterationsIn.toInt = some (BitVec.ofInt 64 iterationsIn.toInt) :=
    toSigned_eq_some ⟨BitVec.le_toInt iterationsIn, BitVec.toInt_lt⟩
  rw [hyunjinR72Run, hjl.functional, if_neg Bool.true_eq_false.mp, hblock, Option.bind_some, hiters,
    Option.bind_some, hblock', BitVec.ofInt_toInt, clampThreads_eq]
  by_cases hneg : iterationsIn.toInt < 0
  · rw [passLoop, passLoop, if_neg (by omega), if_neg (by omega)]
    rfl
  · rw [Int.toNat_of_nonneg (by omega)]
    rfl

/-- The counts are the same number exactly when it is below `2³²`. -/
private theorem int64_eq_ofNat_iff {n : ℕ} (hn : n ≤ 2 ^ 63) :
    int64 n = ((BitVec.ofNat 32 n).toNat : ℤ) ↔ n < 2 ^ 32 := by
  rw [BitVec.toNat_ofNat]
  rcases Nat.lt_or_eq_of_le hn with hlt | rfl
  · rw [int64_of_mem (by omega) (by omega)]
    omega
  · decide

theorem wholeKeys_lt_iff {x : ℤ} : wholeKeys x.toNat < 2 ^ 63 ↔ x ≤ 2 ^ 63 - 4 := by
  rw [wholeKeys, HYUNJIN_PIPELINE]
  omega

/-- The driver has a result exactly when the range ends in time or contains an exact match, and then
the port has the same with a count of its own. -/
private theorem exists_result {cuda : Cuda} (hc : cuda.Faithful) {jl : CudaJl} (hjl : jl.Faithful)
    (plain cypher : Block) (l0 : Key72) (iterationsIn : BitVec 64) (device : ℤ) (blockSize : U32) :
    let r := requestSearch plain cypher l0 iterationsIn
    (r.found = true ∨ iterationsIn.toInt ≤ 2 ^ 63 - 4 →
      ∃ c, hyunjinR72RunInt64 cuda plain cypher l0 iterationsIn device blockSize.toInt = some c ∧
        c.nCheck = BitVec.ofNat 32 r.matched.length ∧
        hyunjinR72Run jl plain cypher l0 iterationsIn.toInt device blockSize.toInt
          = some (.of r.matched.length c)) ∧
    (¬(r.found = true ∨ iterationsIn.toInt ≤ 2 ^ 63 - 4) →
      hyunjinR72RunInt64 cuda plain cypher l0 iterationsIn device blockSize.toInt = none) := by
  intro r
  obtain ⟨mem, hrun⟩ := hyunjinR72RunInt64_eq hc plain cypher l0 iterationsIn device blockSize.toInt
  have hin : iterationsIn.toInt.toNat < 2 ^ 63 := by
    have hlt := BitVec.toInt_lt (x := iterationsIn)
    omega
  have hstart : (DriverOut.start l0).ret = some .nothing := rfl
  have hint := passLoopInt64_eq cuda plain cypher (Hyunjin.clampThreads blockSize.toInt) hin 0 0
    (by decide) l0 mem hstart
  obtain ⟨b, hb⟩ := passLoop_norm hc plain cypher (Hyunjin.clampThreads blockSize.toInt) 0 0 l0 mem
    hstart (Nat.dvd_zero _) (Nat.zero_le (wholeKeys iterationsIn.toInt.toNat))
  have hport := passLoop_of hc hjl plain cypher
    (Hyunjin.clampThreads blockSize.toInt) hin 0 0 l0 mem
    0 hstart (Nat.dvd_zero _) (Nat.zero_le _)
  have hsearch : search (verdict plain cypher) refKeyStep
    (wholeKeys iterationsIn.toInt.toNat) l0.norm
      = r := rfl
  rw [Nat.sub_zero, hsearch] at hb
  rw [Nat.sub_zero] at hport
  rw [hyunjinR72Run_eq hjl, hrun, hint, ← wholeKeys_lt_iff]
  generalize Hyunjin.passLoop cuda plain cypher (Hyunjin.clampThreads blockSize.toInt)
    iterationsIn.toInt.toNat 0 0 l0 mem (.start l0) = out at *
  have hcount : out.nCheck = BitVec.ofNat 32 r.matched.length := by
    rw [hb]
    exact BitVec.zero_add _
  have hover : out.ret = some .nothing ∧ 2 ^ 63 ≤ out.iterationsOut ↔
      ¬(r.found = true ∨ wholeKeys iterationsIn.toInt.toNat < 2 ^ 63) := by
    rcases hf : r.found with _ | _
    · have hsteps : r.steps = wholeKeys iterationsIn.toInt.toNat := steps_of_not_found hf
      rw [← hsteps, hb]
      simp [DriverOut.note, DriverOut.start, hf]
    · rw [hb]
      simp [DriverOut.note, DriverOut.start, hf]
  constructor
  · intro hends
    refine ⟨out, if_neg (fun h ↦ hover.mp h hends), hcount, ?_⟩
    rw [hport hends, Nat.zero_add]
    rfl
  · intro hends
    exact if_pos (hover.mpr hends)

/-- **The port computes what the driver computes** exactly when the range ends before the last three
`int64_t`s or contains an exact match, and there are less than `2³²` matches up to the first exact
one. -/
theorem drivers_agree_iff {cuda : Cuda} (hc : cuda.Faithful) {jl : CudaJl} (hjl : jl.Faithful)
    (plain cypher : Block) (l0 : Key72) (iterationsIn : BitVec 64) (device : ℤ) (blockSize : U32) :
    Agree cuda jl plain cypher l0 iterationsIn device blockSize ↔
      ((requestSearch plain cypher l0 iterationsIn).found = true ∨
          iterationsIn.toInt ≤ 2 ^ 63 - 4) ∧
        (requestSearch plain cypher l0 iterationsIn).matched.length < 2 ^ 32 := by
  obtain ⟨hsome, hnone⟩ := exists_result hc hjl plain cypher l0 iterationsIn device blockSize
  have hin : iterationsIn.toInt.toNat < 2 ^ 63 := by
    have hlt := BitVec.toInt_lt (x := iterationsIn)
    omega
  have hlen : (requestSearch plain cypher l0 iterationsIn).matched.length ≤ 2 ^ 63 :=
    (length_matched_le _ _).trans (wholeKeys_le hin)
  generalize requestSearch plain cypher l0 iterationsIn = r at *
  by_cases hends : r.found = true ∨ iterationsIn.toInt ≤ 2 ^ 63 - 4
  · obtain ⟨c, hdriver, hcount, hport⟩ := hsome hends
    have hsame : SameResults c (.of r.matched.length c) ↔ r.matched.length < 2 ^ 32 := by
      rw [← int64_eq_ofNat_iff hlen, ← hcount, ← RunOut.nCheck_of r.matched.length c]
      exact ⟨fun h ↦ h.nCheck, fun h ↦ ⟨rfl, rfl, h, rfl, rfl, rfl⟩⟩
    rw [and_iff_right hends, ← hsame]
    constructor
    · rintro ⟨c', j, hc', hj, h⟩
      cases hdriver.symm.trans hc'
      cases hport.symm.trans hj
      exact h
    · exact fun h ↦ ⟨c, _, hdriver, hport, h⟩
  · refine iff_of_false ?_ fun h ↦ hends h.1
    rintro ⟨c, j, hc', -, -⟩
    cases (hnone hends).symm.trans hc'

/-- Four keys of the self-test, with a match in the second lane. -/
theorem drivers_agree_selfTest :
    Agree Cuda.sequential CudaJl.sequential ⟨0x2FF17AF3#32, 0x3F3CA653#32⟩
      ⟨0x2FB7852A#32, 0x562D285A#32⟩ ⟨0x84#32, 0xFEE1D4C0#32, 0x53030CC9#32⟩ 4#64 0 256#32 :=
  (drivers_agree_iff Cuda.faithful_sequential CudaJl.faithful_sequential _ _ _ _ _ _).mpr
    ⟨Or.inr (by decide), (length_matched_le _ _).trans_lt (by decide)⟩

/-- There are more cyphertexts than keys in the longest range, so one of them is not found in it,
and the driver has no result. -/
theorem not_drivers_agree_unmatched :
    ∃ cypher : Block, ¬Agree Cuda.sequential CudaJl.sequential ⟨0#32, 0#32⟩ cypher
      ⟨0#32, 0#32, 0#32⟩ 0x7FFFFFFFFFFFFFFF#64 0 256#32 := by
  have hwhole : wholeKeys (0x7FFFFFFFFFFFFFFF#64).toInt.toNat ≤ 2 ^ 63 := wholeKeys_le (by decide)
  obtain ⟨cypher, hmiss⟩ := exists_unmatched_block ⟨0#32, 0#32⟩ (Key72.norm ⟨0#32, 0#32, 0#32⟩)
    (hwhole.trans_lt (by decide : 2 ^ 63 < 2 ^ 64))
  refine ⟨cypher, ?_⟩
  rintro ⟨c, j, hc, -, -⟩
  have hends : ¬((requestSearch ⟨0#32, 0#32⟩ cypher ⟨0#32, 0#32, 0#32⟩
      0x7FFFFFFFFFFFFFFF#64).found = true ∨
        (0x7FFFFFFFFFFFFFFF#64).toInt ≤ 2 ^ 63 - 4) := by
    rintro (hfound | hle)
    · obtain ⟨i, hi, hhit⟩ := found_iff_exists.mp hfound
      exact hmiss i hi hhit
    · exact absurd hle (by decide)
  have hnone := (exists_result Cuda.faithful_sequential CudaJl.faithful_sequential _ _ _ _ 0
    256#32).2 hends
  cases hnone.symm.trans hc

end Hyunjin.Julia
