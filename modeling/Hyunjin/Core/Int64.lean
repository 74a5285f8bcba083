import Hyunjin.Core.Launches

/-!
# The driver's 64-bit counters

The driver counts keys in `int64_t`, where an addition that overflows has no defined result.
`hyunjinR72RunInt64` is the driver with that taken into account. The one sum that can overflow is
the `done` of the next pass: what is left to do, the keys of a pass and the place of a match in it
are all bounded by the range or by the size of a launch.

## What a pass does from any starting key

The key words of a request are 32 bits each, but only the low byte of `hi` belongs to a key. The
driver never looks at the words of its base key, it only increments them, and an increment depends
on no more of the base key than its sum with zero does (`hyIncrementL0_norm`). So a run from any
three words searches the same keys as one from the key they stand for.
-/

namespace Hyunjin

open Word Search

/-- The pass loop with an `int64_t` for `done`. -/
def passLoopInt64 (cuda : Cuda) (plain cypher : Block) (nthreads : BlockThreads) (iterationsIn : ℕ)
    (pass done : ℕ) (base : Key72) (dResults : DeviceMem) (out : DriverOut) : Option DriverOut :=
  if done < iterationsIn then
    let n := threadsThisPass nthreads (iterationsIn - done)
    let grid := (n + nthreads.val - 1) / nthreads.val
    if cuda.memsetAsync pass = false then some ({ out with ret := none }.finish base done)
    else
      let dResults : DeviceMem := fun i ↦ if i < n then 0#32 else dResults i
      if cuda.launch pass = false then some ({ out with ret := none }.finish base done)
      else
        let dResults := launch ⟨plain, cypher, base, n⟩ nthreads.val
          (cuda.order pass grid nthreads.val) dResults
        if cuda.synchronize pass = false then some ({ out with ret := none }.finish base done)
        else if cuda.memcpy pass = false then some ({ out with ret := none }.finish base done)
        else
          let out := scanThreads base done dResults (List.range n) out
          if out.ret = some .found then some (out.finish base done)
          else if done + n * HYUNJIN_PIPELINE < 2 ^ 63 then
            passLoopInt64 cuda plain cypher nthreads iterationsIn (pass + 1)
              (done + n * HYUNJIN_PIPELINE)
              (hyIncrementL0 base (BitVec.ofNat 32 n * BitVec.ofNat 32 HYUNJIN_PIPELINE))
              dResults out
          else none
  else some (out.finish base done)
termination_by iterationsIn - done
decreasing_by
  have hn := threadsThisPass_pos nthreads (Nat.sub_pos_of_lt ‹done < iterationsIn›)
  simp only [HYUNJIN_PIPELINE]
  omega

/-- The driver, for an `int64_t` number of keys. -/
def hyunjinR72RunInt64 (cuda : Cuda) (plain cypher : Block) (l0 : Key72)
    (iterationsIn : BitVec 64) (device blockSize : ℤ) : Option DriverOut :=
  let out : DriverOut := ⟨some .nothing, 0, 0#32, ⟨0#32, 0#32, 0#32⟩, ⟨0#32, 0#32, 0#32⟩, l0⟩
  let failed := some { out with ret := none }
  match cuda.getDeviceCount with
  | none => failed
  | some devCount =>
    if devCount ≤ 0 then failed
    else
      let device := if device < 0 ∨ devCount ≤ device then 0 else device
      match cuda.getDevice with
      | none => failed
      | some curdev =>
        if curdev ≠ device ∧ cuda.setDevice device = false then failed
        else
          let nthreads := clampThreads blockSize
          match cuda.cudaMalloc with
          | none => failed
          | some dResults =>
            if cuda.malloc = false then failed
            else passLoopInt64 cuda plain cypher nthreads iterationsIn.toInt.toNat 0 0 l0
              dResults out

/-! ## The counters fit, or the loop is over -/

/-- A pass takes `done` at most three keys past the range. -/
theorem done_add_keys_lt (nthreads : BlockThreads) {iterationsIn done : ℕ}
    (h : done < iterationsIn) :
    done + threadsThisPass nthreads (iterationsIn - done) * HYUNJIN_PIPELINE
      < iterationsIn + 4 := by
  rw [threadsThisPass, keysThisPass_eq, HYUNJIN_PIPELINE]
  omega

/-- **The counters matter at the end of the range only:** the loop has no defined result when it
gets to the end without an exact match and the end is not an `int64_t`, and else it is
`passLoop`. -/
theorem passLoopInt64_eq (cuda : Cuda) (plain cypher : Block) (nthreads : BlockThreads)
    {iterationsIn : ℕ} (hin : iterationsIn < 2 ^ 63) (pass done : ℕ) (hdone : done < 2 ^ 63)
    (base : Key72) (dResults : DeviceMem) {out : DriverOut} (hret : out.ret = some .nothing) :
    passLoopInt64 cuda plain cypher nthreads iterationsIn pass done base dResults out =
      let out := passLoop cuda plain cypher nthreads iterationsIn pass done base dResults out
      if out.ret = some .nothing ∧ 2 ^ 63 ≤ out.iterationsOut then none else some out := by
  induction hrem : iterationsIn - done using Nat.strong_induction_on
    generalizing pass done base dResults out with
  | _ remain ih =>
    rw [passLoopInt64, passLoop]
    by_cases hlt : done < iterationsIn
    · have hpos := threadsThisPass_pos nthreads (Nat.sub_pos_of_lt hlt)
      have hless : iterationsIn
          - (done + threadsThisPass nthreads (iterationsIn - done) * HYUNJIN_PIPELINE)
            < remain := by
        rw [HYUNJIN_PIPELINE]
        omega
      have hend := done_add_keys_lt nthreads hlt
      have hfailed : ¬(({ out with ret := none }.finish base done).ret = some .nothing ∧
          2 ^ 63 ≤ ({ out with ret := none }.finish base done).iterationsOut) := by
        rintro ⟨hnothing, -⟩
        cases hnothing
      rw [if_pos hlt, if_pos hlt]
      dsimp only
      generalize threadsThisPass nthreads (iterationsIn - done) = n at *
      by_cases hset : cuda.memsetAsync pass = false
      · rw [if_pos hset, if_pos hset, if_neg hfailed]
      rw [if_neg hset, if_neg hset]
      by_cases hlaunch : cuda.launch pass = false
      · rw [if_pos hlaunch, if_pos hlaunch, if_neg hfailed]
      rw [if_neg hlaunch, if_neg hlaunch]
      by_cases hsync : cuda.synchronize pass = false
      · rw [if_pos hsync, if_pos hsync, if_neg hfailed]
      rw [if_neg hsync, if_neg hsync]
      by_cases hcopy : cuda.memcpy pass = false
      · rw [if_pos hcopy, if_pos hcopy, if_neg hfailed]
      rw [if_neg hcopy, if_neg hcopy]
      generalize launch ⟨plain, cypher, base, n⟩ nthreads.val
        (cuda.order pass ((n + nthreads.val - 1) / nthreads.val) nthreads.val)
        (fun i ↦ if i < n then 0#32 else dResults i) = hRes
      rcases scanThreads_ret base done hRes (List.range n) out with hscan | ⟨hscan, -⟩
      · have hnothing := hscan.trans hret
        have hno : (scanThreads base done hRes (List.range n) out).ret ≠ some .found := by
          rw [hnothing]
          decide
        rw [if_neg hno, if_neg hno]
        by_cases hfits : done + n * HYUNJIN_PIPELINE < 2 ^ 63
        · rw [if_pos hfits]
          exact ih _ hless _ _ hfits _ _ hnothing rfl
        · -- the range ends before the counter does, so this was the last pass
          have hover : ¬done + n * HYUNJIN_PIPELINE < iterationsIn := by omega
          rw [if_neg hfits, passLoop, if_neg hover, DriverOut.finish, if_pos hnothing]
          exact (if_pos ⟨hnothing, Nat.le_of_not_lt hfits⟩).symm
      · have hfound : ¬(((scanThreads base done hRes (List.range n) out).finish base done).ret
            = some .nothing ∧ 2 ^ 63 ≤
              ((scanThreads base done hRes (List.range n) out).finish base
                done).iterationsOut) := by
          rintro ⟨hnothing, -⟩
          cases hscan.symm.trans hnothing
        rw [if_pos hscan, if_pos hscan, if_neg hfound]
    · have hfits : ¬((out.finish base done).ret = some .nothing ∧
          2 ^ 63 ≤ (out.finish base done).iterationsOut) := by
        rintro ⟨-, hbig⟩
        rw [DriverOut.finish, if_pos hret] at hbig
        exact absurd hdone (Nat.not_lt.mpr hbig)
      rw [if_neg hlt, if_neg hlt, if_neg hfits]

/-! ## From any starting key -/

/-- The key that three words stand for. -/
def Key72.norm (k : Key72) : Key72 := hyIncrementL0 k 0#32

theorem Key72.valid_norm (k : Key72) : k.norm.Valid := valid_hyIncrementL0 k 0#32

/-- An increment of the words is one of the key they stand for. -/
theorem hyIncrementL0_norm (k : Key72) (amount : U32) :
    hyIncrementL0 k.norm amount = hyIncrementL0 k amount := by
  refine Key72.index_inj (valid_hyIncrementL0 _ _) (valid_hyIncrementL0 _ _) ?_
  rw [index_hyIncrementL0, Key72.norm, index_hyIncrementL0, index_hyIncrementL0]
  simp only [BitVec.toNat_ofNat, Nat.zero_mod, Nat.add_zero, Nat.mod_add_mod]

/-- A key of the orbit is the sum of the words and its distance. -/
theorem hyIncrementL0_eq_norm (k : Key72) (amount : U32) :
    hyIncrementL0 k amount = refKeyStep^[amount.toNat] k.norm := by
  rw [← hyIncrementL0_norm, hyIncrementL0_eq_iterate k.valid_norm]

theorem Key72.Valid.norm_eq {k : Key72} (h : k.Valid) : k.norm = k := by
  rw [Key72.norm, hyIncrementL0_eq_iterate h]
  rfl

private theorem scanLanes_norm (base : Key72) (done : ℕ) (word : U32) (j : ℕ) (ks : List ℕ)
    (out : DriverOut) :
    scanLanes base done word j ks out = scanLanes base.norm done word j ks out := by
  induction ks generalizing out with
  | nil => rfl
  | cons k ks ih => simp only [scanLanes, hyIncrementL0_norm, ih]

private theorem scanThreads_norm (base : Key72) (done : ℕ) (hRes : DeviceMem) (js : List ℕ)
    (out : DriverOut) :
    scanThreads base done hRes js out = scanThreads base.norm done hRes js out := by
  induction js generalizing out with
  | nil => rfl
  | cons j js ih => simp only [scanThreads, ← scanLanes_norm, ih]

private theorem launch_norm (plain cypher : Block) (base : Key72) (n blockDim : ℕ)
    (order : List (ℕ × ℕ)) (mem : DeviceMem) :
    launch ⟨plain, cypher, base, n⟩ blockDim order mem
      = launch ⟨plain, cypher, base.norm, n⟩ blockDim order mem := by
  have hlane : kernelLane ⟨plain, cypher, base, n⟩ = kernelLane ⟨plain, cypher, base.norm, n⟩ := by
    funext idx mem k
    simp only [kernelLane, hyIncrementL0_norm]
  simp only [launch, hyunjinR72Kernel, hlane]

/-- The scan after a launch from any three words. -/
theorem scanThreads_launch_norm {cuda : Cuda} (hruns : cuda.RunsThreads) (plain cypher : Block)
    (nthreads : BlockThreads) (pass done : ℕ) (base : Key72) (mem : DeviceMem) {m : ℕ}
    (hsmall : HYUNJIN_PIPELINE * m < 2 ^ 32) {out : DriverOut} (hret : out.ret ≠ some .found) :
    scanThreads base done (launch ⟨plain, cypher, base, m⟩ nthreads.val
        (cuda.order pass ((m + nthreads.val - 1) / nthreads.val) nthreads.val)
        fun i ↦ if i < m then 0#32 else mem i) (List.range m) out
      = out.note done
          (search (verdict plain cypher) refKeyStep (HYUNJIN_PIPELINE * m) base.norm) := by
  rw [scanThreads_norm, launch_norm]
  exact scanThreads_launch hruns plain cypher nthreads pass done base.valid_norm mem hsmall hret

/-- The base of the next pass is where the search of a pass without a hit has left its cursor. -/
theorem hyIncrementL0_pass (base : Key72) {test : Key72 → Verdict} {m : ℕ}
    (hsmall : HYUNJIN_PIPELINE * m < 2 ^ 32)
    (hfound : (search test refKeyStep (HYUNJIN_PIPELINE * m) base.norm).found = false) :
    hyIncrementL0 base (BitVec.ofNat 32 (m * HYUNJIN_PIPELINE)) =
      (search test refKeyStep (HYUNJIN_PIPELINE * m) base.norm).cursor := by
  rw [cursor_search, steps_of_not_found hfound, hyIncrementL0_eq_norm, BitVec.toNat_ofNat,
    Nat.mul_comm m, Nat.mod_eq_of_lt hsmall]

/-- A pass of the loop on a faithful device, from any three words. -/
theorem passLoop_step_norm {cuda : Cuda} (hc : cuda.Faithful) (plain cypher : Block)
    (nthreads : BlockThreads) {iterationsIn : ℕ} (pass : ℕ) {done : ℕ} (hlt : done < iterationsIn)
    (base : Key72) (mem : DeviceMem) {out : DriverOut} (hret : out.ret = some .nothing) :
    let n := HYUNJIN_PIPELINE * threadsThisPass nthreads (iterationsIn - done)
    let r := search (verdict plain cypher) refKeyStep n base.norm
    ∃ mem', passLoop cuda plain cypher nthreads iterationsIn pass done base mem out =
      if r.found then (out.note done r).finish base done
      else passLoop cuda plain cypher nthreads iterationsIn (pass + 1) (done + n) r.cursor mem'
        (out.note done r) := by
  intro n r
  have hsmall := threadsThisPass_mul_lt nthreads (iterationsIn - done)
  have hret' : out.ret ≠ some .found := by
    rw [hret]
    decide
  have hscan := scanThreads_launch_norm hc.order plain cypher nthreads pass done base mem
    hsmall hret'
  set m := threadsThisPass nthreads (iterationsIn - done) with hm
  refine ⟨launch ⟨plain, cypher, base, m⟩ nthreads.val
    (cuda.order pass ((m + nthreads.val - 1) / nthreads.val) nthreads.val)
    fun i ↦ if i < m then 0#32 else mem i, ?_⟩
  rw [passLoop, if_pos hlt, ← hm]
  simp only [hc.memsetAsync, hc.launch, hc.synchronize, hc.memcpy, Bool.true_eq_false, if_false,
    hscan, ret_note_ne_found hret']
  rcases hfound : r.found with _ | _
  · rw [if_neg Bool.false_ne_true, if_neg Bool.false_ne_true, ← BitVec.ofNat_mul,
      hyIncrementL0_pass base hsmall hfound, Nat.mul_comm m]
  · rw [if_pos rfl, if_pos rfl]

/-! ## The whole range -/

/-- The keys of a range, in whole pipelines. -/
def wholeKeys (iterationsIn : ℕ) : ℕ :=
  HYUNJIN_PIPELINE * ((iterationsIn + HYUNJIN_PIPELINE - 1) / HYUNJIN_PIPELINE)

/-- A pass ends at whole pipelines, in the range so extended. -/
theorem done_add_keys_le (nthreads : BlockThreads) {iterationsIn done : ℕ}
    (hlt : done < iterationsIn) (hdvd : HYUNJIN_PIPELINE ∣ done) :
    HYUNJIN_PIPELINE ∣ done + HYUNJIN_PIPELINE * threadsThisPass nthreads (iterationsIn - done) ∧
    done + HYUNJIN_PIPELINE * threadsThisPass nthreads (iterationsIn - done)
      ≤ wholeKeys iterationsIn := by
  refine ⟨Nat.dvd_add hdvd (Nat.dvd_mul_right ..), ?_⟩
  obtain ⟨d, rfl⟩ := hdvd
  rw [HYUNJIN_PIPELINE] at hlt
  rw [threadsThisPass, keysThisPass_eq, wholeKeys, HYUNJIN_PIPELINE, MAX_GRID]
  omega

theorem eq_wholeKeys {iterationsIn done : ℕ} (hdvd : HYUNJIN_PIPELINE ∣ done)
    (hle : done ≤ wholeKeys iterationsIn) (hend : ¬done < iterationsIn) :
    done = wholeKeys iterationsIn := by
  obtain ⟨d, rfl⟩ := hdvd
  rw [wholeKeys, HYUNJIN_PIPELINE] at *
  omega

/-- **The pass loop reports the search of whole pipelines,** from any three words and for any number
of keys. -/
theorem passLoop_norm {cuda : Cuda} (hc : cuda.Faithful) (plain cypher : Block)
    (nthreads : BlockThreads) {iterationsIn : ℕ} (pass done : ℕ) (base : Key72) (mem : DeviceMem)
    {out : DriverOut} (hret : out.ret = some .nothing) (hdvd : HYUNJIN_PIPELINE ∣ done)
    (hle : done ≤ wholeKeys iterationsIn) :
    let r := search (verdict plain cypher) refKeyStep (wholeKeys iterationsIn - done) base.norm
    ∃ b, passLoop cuda plain cypher nthreads iterationsIn pass done base mem out =
      { out.note done r with resL0 := b, iterationsOut := done + r.steps } := by
  induction hrem : iterationsIn - done using Nat.strong_induction_on
    generalizing pass done base mem out with
  | _ remain ih =>
    intro r
    by_cases hlt : done < iterationsIn
    · obtain ⟨mem', hstep⟩ := passLoop_step_norm hc plain cypher nthreads pass hlt base mem hret
      obtain ⟨hdvd', hle'⟩ := done_add_keys_le nthreads hlt hdvd
      have hpos : 0 < HYUNJIN_PIPELINE * threadsThisPass nthreads (iterationsIn - done) :=
        Nat.mul_pos (by decide) (threadsThisPass_pos nthreads (by omega))
      generalize HYUNJIN_PIPELINE * threadsThisPass nthreads (iterationsIn - done) = n at *
      have hsplit : r = (search (verdict plain cypher) refKeyStep n base.norm).andThen
          (search (verdict plain cypher) refKeyStep (wholeKeys iterationsIn - (done + n))) := by
        have hsum : wholeKeys iterationsIn - done = n + (wholeKeys iterationsIn - (done + n)) := by
          omega
        rw [← search_add, ← hsum]
      rw [hstep, hsplit]
      rcases hfound : (search (verdict plain cypher) refKeyStep n base.norm).found with _ | _
      · have hsteps := steps_of_not_found hfound
        have hret' : (out.note done (search (verdict plain cypher) refKeyStep n base.norm)).ret =
            some .nothing := (ret_note_of_not_found _ _ hfound).trans hret
        have hcursor := (valid_cursor_search base.valid_norm (verdict plain cypher) n).norm_eq
        obtain ⟨b, hb⟩ := ih _ (by omega) (pass + 1) (done + n)
          (search (verdict plain cypher) refKeyStep n base.norm).cursor mem' hret' hdvd' hle' rfl
        rw [hcursor] at hb
        refine ⟨b, ?_⟩
        rw [if_neg Bool.false_ne_true, hb, note_andThen _ _ hfound, Outcome.andThen, hfound, hsteps]
        simp only [Bool.false_eq_true, if_false, Nat.add_assoc]
      · rw [if_pos rfl, Outcome.andThen_of_found hfound]
        refine ⟨base, ?_⟩
        simp [DriverOut.finish, DriverOut.note, hfound]
    · have hend := eq_wholeKeys hdvd hle hlt
      have hzero : r = ⟨0, base.norm, [], false⟩ := by
        rw [← search_zero (verdict plain cypher) refKeyStep, ← Nat.sub_self done]
        exact congrArg (search _ _ · _) (congrArg (· - done) hend.symm)
      rw [passLoop, if_neg hlt, hzero, note_empty]
      exact ⟨base, by simp [DriverOut.finish, hret]⟩

/-- On a faithful device the driver is its pass loop. -/
theorem hyunjinR72RunInt64_eq {cuda : Cuda} (hc : cuda.Faithful) (plain cypher : Block) (l0 : Key72)
    (iterationsIn : BitVec 64) (device blockSize : ℤ) :
    ∃ mem, hyunjinR72RunInt64 cuda plain cypher l0 iterationsIn device blockSize =
      passLoopInt64 cuda plain cypher (clampThreads blockSize) iterationsIn.toInt.toNat 0 0 l0 mem
        (.start l0) := by
  obtain ⟨devCount, hcount, hpos⟩ := hc.getDeviceCount
  obtain ⟨curdev, hcur⟩ := hc.getDevice
  obtain ⟨mem, hmem⟩ := hc.cudaMalloc
  refine ⟨mem, ?_⟩
  rw [hyunjinR72RunInt64]
  simp only [hcount, hcur, hmem, hc.setDevice, hc.malloc, Int.not_le.mpr hpos, Bool.true_eq_false,
    and_false, if_false]
  rfl

end Hyunjin
