import Hyunjin.Core.Agreement

/-!
# Failures of the CUDA core

Any call of the CUDA runtime can fail. The driver then returns a negative code, and the shim leaves
the cursor and the count of iterations alone, so that the same range can be tried again. But the
partial matches of the passes before the failure stand in the driver's out-parameters, and the shim
adds them to the check block before it looks at the return code.

A `FailurePoint` is the call that fails, as far as it matters: one before the loop, or one in a
given pass. All passes before a failing one are full ones, so the keys they have tested are known
(`FailurePoint.keysBefore`).
-/

namespace Hyunjin

open Search

/-! ## Failing passes -/

/-- The keys of a pass that is not the last one. -/
def passKeys (nthreads : BlockThreads) : ℕ := HYUNJIN_PIPELINE * (nthreads.val * MAX_GRID)

theorem passKeys_pos (nthreads : BlockThreads) : 0 < passKeys nthreads := by
  have hn := nthreads.property.1
  rw [passKeys, HYUNJIN_PIPELINE, MAX_GRID]
  omega

theorem threadsThisPass_full {nthreads : BlockThreads} {remain : ℕ}
    (h : HYUNJIN_PIPELINE * threadsThisPass nthreads remain < remain ∨ passKeys nthreads < remain) :
    HYUNJIN_PIPELINE * threadsThisPass nthreads remain = passKeys nthreads := by
  rw [threadsThisPass, keysThisPass_eq, HYUNJIN_PIPELINE, MAX_GRID] at *
  rw [passKeys, HYUNJIN_PIPELINE, MAX_GRID] at *
  omega

section PassLoop

variable {cuda : Cuda} (hruns : cuda.RunsThreads) (plain cypher : Block) (nthreads : BlockThreads)
  {iterationsIn : ℕ}

/-- A failing pass ends the loop with what there is. -/
theorem passLoop_of_fails {pass done : ℕ} (hlt : done < iterationsIn)
    (hpass : ¬cuda.PassSucceeds pass) (base : Key72) (mem : DeviceMem) (out : DriverOut) :
    passLoop cuda plain cypher nthreads iterationsIn pass done base mem out =
      { out with ret := none, resL0 := base } := by
  have hsome : cuda.memsetAsync pass = false ∨ cuda.launch pass = false ∨
      cuda.synchronize pass = false ∨ cuda.memcpy pass = false := by
    by_contra hall
    simp only [not_or, Bool.not_eq_false] at hall
    exact hpass ⟨hall.1, hall.2.1, hall.2.2.1, hall.2.2.2⟩
  have hfinish : { out with ret := none }.finish base done =
      { out with ret := none, resL0 := base } := by simp [DriverOut.finish]
  rw [passLoop, if_pos hlt]
  rcases hsome with h | h | h | h <;> simp only [h, if_true, hfinish, ite_self]

include hruns

/-- **A failure reports the search of the passes before it**, but for the return code. -/
theorem passLoop_fails {m pass done : ℕ} {base : Key72} (hbase : base.Valid) (mem : DeviceMem)
    {out : DriverOut} (hret : out.ret = some .nothing)
    (hbefore : ∀ q < m, cuda.PassSucceeds (pass + q)) (hpass : ¬cuda.PassSucceeds (pass + m))
    (hreached : done + m * passKeys nthreads < iterationsIn)
    (hfound : (search (verdict plain cypher) refKeyStep (m * passKeys nthreads) base).found
      = false) :
    ∃ b, passLoop cuda plain cypher nthreads iterationsIn pass done base mem out =
      { out.note done (search (verdict plain cypher) refKeyStep (m * passKeys nthreads) base) with
        ret := none
        resL0 := b } := by
  induction m generalizing pass done base mem out with
  | zero =>
    rw [Nat.zero_mul, Nat.add_zero] at hreached
    rw [Nat.zero_mul, search_zero, note_empty]
    exact ⟨base, passLoop_of_fails plain cypher nthreads hreached hpass base mem out⟩
  | succ m ih =>
    rw [Nat.succ_mul, Nat.add_comm (m * _)] at hreached hfound ⊢
    have hlt : done < iterationsIn := by omega
    have hfull : HYUNJIN_PIPELINE * threadsThisPass nthreads (iterationsIn - done) =
        passKeys nthreads := threadsThisPass_full (Or.inr (by omega))
    have hfirst : cuda.PassSucceeds pass := hbefore 0 (Nat.succ_pos m)
    obtain ⟨mem', hstep⟩ := passLoop_step hruns plain cypher nthreads hlt hfirst hbase mem hret
    rw [hfull] at hstep
    rw [search_add, Outcome.found_andThen_eq_false] at hfound
    obtain ⟨hmiss, hrest⟩ := hfound
    have hret' : (out.note done
        (search (verdict plain cypher) refKeyStep (passKeys nthreads) base)).ret = some .nothing :=
      (ret_note_of_not_found _ _ hmiss).trans hret
    have hbefore' : ∀ q < m, cuda.PassSucceeds (pass + 1 + q) := by
      intro q hq
      rw [Nat.add_assoc, Nat.add_comm 1]
      exact hbefore (q + 1) (Nat.succ_lt_succ hq)
    have hpass' : ¬cuda.PassSucceeds (pass + 1 + m) := by rwa [Nat.add_assoc, Nat.add_comm 1]
    have hreached' : done + passKeys nthreads + m * passKeys nthreads < iterationsIn := by omega
    obtain ⟨b, hb⟩ := ih (valid_cursor_search hbase _ _) mem' hret' hbefore' hpass' hreached' hrest
    refine ⟨b, ?_⟩
    rw [hstep, hmiss, if_neg Bool.false_ne_true, hb, search_add, note_andThen _ _ hmiss,
      steps_of_not_found hmiss]

/-- If the loop returns a negative code, a pass has failed. -/
theorem exists_of_passLoop_ret {pass done : ℕ} {base : Key72} (hbase : base.Valid) (mem : DeviceMem)
    {out : DriverOut} (hret : out.ret = some .nothing)
    (hnone : (passLoop cuda plain cypher nthreads iterationsIn pass done base mem out).ret = none) :
    ∃ m, (∀ q < m, cuda.PassSucceeds (pass + q)) ∧ ¬cuda.PassSucceeds (pass + m) ∧
      done + m * passKeys nthreads < iterationsIn ∧
      (search (verdict plain cypher) refKeyStep (m * passKeys nthreads) base).found = false := by
  induction hrem : iterationsIn - done using Nat.strong_induction_on
    generalizing pass done base mem out with
  | _ remain ih =>
    by_cases hlt : done < iterationsIn
    swap
    · -- the loop is over, and nothing has failed
      rw [passLoop, if_neg hlt, DriverOut.finish, hret] at hnone
      cases hnone
    by_cases hpass : cuda.PassSucceeds pass
    swap
    · refine ⟨0, fun q hq ↦ absurd hq (Nat.not_lt_zero q), hpass, ?_, ?_⟩
      · rwa [Nat.zero_mul]
      · rw [Nat.zero_mul, search_zero]
    obtain ⟨mem', hstep⟩ := passLoop_step hruns plain cypher nthreads hlt hpass hbase mem hret
    rw [hstep, hrem] at hnone
    have hpos : 0 < HYUNJIN_PIPELINE * threadsThisPass nthreads remain :=
      Nat.mul_pos (by decide) (threadsThisPass_pos nthreads (by omega))
    rcases hfound : (search (verdict plain cypher) refKeyStep
      (HYUNJIN_PIPELINE * threadsThisPass nthreads remain) base).found with _ | _
    swap
    · rw [hfound, if_pos rfl] at hnone
      simp [DriverOut.finish, DriverOut.note, hfound] at hnone
    rw [hfound, if_neg Bool.false_ne_true] at hnone
    have hret' : (out.note done (search (verdict plain cypher) refKeyStep
        (HYUNJIN_PIPELINE * threadsThisPass nthreads remain) base)).ret = some .nothing :=
      (ret_note_of_not_found _ _ hfound).trans hret
    obtain ⟨m, hbefore, hfails, hreached, hmiss⟩ :=
      ih _ (by omega) (valid_cursor_search hbase _ _) mem' hret' hnone rfl
    -- a pass that leaves work behind is a full one
    have hfull : HYUNJIN_PIPELINE * threadsThisPass nthreads remain = passKeys nthreads :=
      threadsThisPass_full (Or.inl (by omega))
    rw [hfull] at hfound hreached hmiss
    refine ⟨m + 1, ?_, ?_, ?_, ?_⟩
    · intro q hq
      cases q with
      | zero => exact hpass
      | succ q =>
        have hnext := hbefore q (Nat.lt_of_succ_lt_succ hq)
        rwa [Nat.add_assoc, Nat.add_comm 1] at hnext
    · rwa [Nat.add_assoc, Nat.add_comm 1] at hfails
    · rw [Nat.succ_mul]
      omega
    · rw [Nat.succ_mul, Nat.add_comm (m * _), search_add, Outcome.found_andThen_eq_false]
      exact ⟨hfound, hmiss⟩

end PassLoop

/-! ## Failing runs -/

/-- A call before the pass loop fails, on the device that the shim asks for. -/
def Cuda.SetupFails (cuda : Cuda) : Prop :=
  (∀ n, cuda.getDeviceCount = some n → n ≤ 0) ∨ cuda.getDevice = none ∨
    (cuda.getDevice ≠ some 0 ∧ cuda.setDevice 0 = false) ∨ cuda.cudaMalloc = none ∨
      cuda.malloc = false

/-- Where a run of the driver fails. -/
inductive FailurePoint
  | setup
  | pass (p : ℕ)

/-- The keys of the full passes before the failure. -/
def FailurePoint.keysBefore : FailurePoint → ℕ
  | setup => 0
  | pass p => p * passKeys (clampThreads HYUNJIN_BLOCK_SIZE_DEFAULT)

/-- The run comes to the call and it fails. -/
def Cuda.FailsAt (cuda : Cuda) (w : RC572UnitWork) (iterations : U32) : FailurePoint → Prop
  | .setup => cuda.SetupFails
  | .pass p => ¬cuda.SetupFails ∧ (∀ q < p, cuda.PassSucceeds q) ∧ ¬cuda.PassSucceeds p ∧
      (FailurePoint.pass p).keysBefore < iterations.toNat ∧
      ∀ i < (FailurePoint.pass p).keysBefore, w.verdict (refKeyStep^[i] w.L0) ≠ .hit

/-- Before the loop, the driver fails or comes to the first pass. -/
theorem hyunjinR72Run_setup (cuda : Cuda) (plain cypher : Block) (l0 : Key72) (iterationsIn : ℕ)
    (blockSize : ℤ) :
    let out : DriverOut := ⟨some .nothing, 0, 0#32, ⟨0#32, 0#32, 0#32⟩, ⟨0#32, 0#32, 0#32⟩, l0⟩
    let result := hyunjinR72Run cuda plain cypher l0 iterationsIn 0 blockSize
    (cuda.SetupFails ∧ result = { out with ret := none }) ∨
      (¬cuda.SetupFails ∧ ∃ mem, result =
        passLoop cuda plain cypher (clampThreads blockSize) iterationsIn 0 0 l0 mem out) := by
  intro out result
  simp only [result, hyunjinR72Run, ite_self, Int.toNat_natCast, Cuda.SetupFails]
  rcases hcount : cuda.getDeviceCount with _ | devCount
  · exact Or.inl ⟨by simp, rfl⟩
  rcases hdev : cuda.getDevice with _ | curdev
  · exact Or.inl ⟨by simp, ite_self _⟩
  rcases hmem : cuda.cudaMalloc with _ | mem
  · exact Or.inl ⟨by simp, by simp only [ite_self]; rfl⟩
  by_cases hpos : devCount ≤ 0
  · exact Or.inl ⟨by simp [hpos], if_pos hpos⟩
  by_cases hset : curdev ≠ 0 ∧ cuda.setDevice 0 = false
  · exact Or.inl ⟨by simp [hset], by simp only [if_pos hset, ite_self]; rfl⟩
  by_cases hmalloc : cuda.malloc = false
  · exact Or.inl ⟨by simp [hmalloc], by simp only [if_pos hmalloc, ite_self]; rfl⟩
  · simp only [if_neg hpos, if_neg hset, if_neg hmalloc]
    refine Or.inr ⟨?_, mem, rfl⟩
    simpa [hpos, hmalloc] using hset

theorem Cuda.FailsAt.keysBefore_lt {cuda : Cuda} {w : RC572UnitWork} {iterations : U32}
    {point : FailurePoint} (h : cuda.FailsAt w iterations point) : point.keysBefore < 2 ^ 32 := by
  cases point with
  | setup => exact Nat.two_pow_pos 32
  | pass p => exact h.2.2.2.1.trans iterations.isLt

section Shim

variable {cuda : Cuda} (hruns : cuda.RunsThreads) {w : RC572UnitWork} (hvalid : w.L0.Valid)
  {iterations : U32}

include hruns hvalid

/-- **What the shim returns after a failure**: the partial matches seen so far are in the check
block. -/
theorem rc572UnitFuncHyunjin_fails {point : FailurePoint} (h : cuda.FailsAt w iterations point) :
    rc572UnitFuncHyunjin cuda w iterations =
      { rescode := none
        work := { w with check :=
          w.check.noteMatches (search w.verdict refKeyStep point.keysBefore w.L0).matched }
        iterations := iterations } := by
  have hsetup := hyunjinR72Run_setup cuda w.plain w.cypher w.L0 iterations.toNat
    HYUNJIN_BLOCK_SIZE_DEFAULT
  have hlength : (search w.verdict refKeyStep point.keysBefore w.L0).matched.length ≤
      point.keysBefore := length_matched_le ..
  have hcheck := merge_check w (hlength.trans_lt h.keysBefore_lt)
  cases point with
  | setup =>
    rcases hsetup with ⟨-, hrun⟩ | ⟨hnot, -⟩
    · rw [rc572UnitFuncHyunjin, hrun]
      simp [FailurePoint.keysBefore, CheckBlock.noteMatches]
    · exact absurd h hnot
  | pass p =>
    obtain ⟨hnot, hbefore, hpass, hreached, hmiss⟩ := h
    rcases hsetup with ⟨hfails, -⟩ | ⟨-, mem, hrun⟩
    · exact absurd hfails hnot
    have hfound : (search w.verdict refKeyStep (FailurePoint.pass p).keysBefore w.L0).found
      = false := by
      refine Bool.eq_false_iff.mpr ?_
      intro hfound
      obtain ⟨i, hi, hhit⟩ := found_iff_exists.mp hfound
      exact hmiss i hi hhit
    have hbefore' : ∀ q < p, cuda.PassSucceeds (0 + q) := by simpa using hbefore
    have hpass' : ¬cuda.PassSucceeds (0 + p) := by rwa [Nat.zero_add]
    have hreached' : 0 + (FailurePoint.pass p).keysBefore
      < iterations.toNat := by rwa [Nat.zero_add]
    have hret : (⟨some .nothing, 0, 0#32, ⟨0#32, 0#32, 0#32⟩, ⟨0#32, 0#32, 0#32⟩, w.L0⟩ :
      DriverOut).ret = some .nothing := rfl
    obtain ⟨b, hb⟩ := passLoop_fails hruns w.plain w.cypher
      (clampThreads HYUNJIN_BLOCK_SIZE_DEFAULT) hvalid mem hret hbefore' hpass' hreached' hfound
    have hfold : search (verdict w.plain w.cypher) refKeyStep
        (p * passKeys (clampThreads HYUNJIN_BLOCK_SIZE_DEFAULT)) w.L0 =
          search w.verdict refKeyStep (FailurePoint.pass p).keysBefore w.L0 := rfl
    rw [hfold] at hb
    rw [rc572UnitFuncHyunjin, hrun, hb]
    simp only [DriverOut.note, BitVec.zero_add, hcheck]

/-- The shim returns a negative code exactly when some call has failed. -/
theorem rescode_eq_none_iff : (rc572UnitFuncHyunjin cuda w iterations).rescode = none ↔
    ∃ point, cuda.FailsAt w iterations point := by
  constructor
  · intro hnone
    rcases hyunjinR72Run_setup cuda w.plain w.cypher w.L0 iterations.toNat
      HYUNJIN_BLOCK_SIZE_DEFAULT with ⟨hfails, -⟩ | ⟨hnot, mem, hrun⟩
    · exact ⟨.setup, hfails⟩
    · have hret : (⟨some .nothing, 0, 0#32, ⟨0#32, 0#32, 0#32⟩, ⟨0#32, 0#32, 0#32⟩, w.L0⟩ :
        DriverOut).ret = some .nothing := rfl
      have hloop : (hyunjinR72Run cuda w.plain w.cypher w.L0 iterations.toNat 0
          HYUNJIN_BLOCK_SIZE_DEFAULT).ret = none := by
        rw [rc572UnitFuncHyunjin] at hnone
        rcases hcode : (hyunjinR72Run cuda w.plain w.cypher w.L0 iterations.toNat 0
          HYUNJIN_BLOCK_SIZE_DEFAULT).ret with _ | _ | _ | _
        · rfl
        all_goals simp [hcode] at hnone
      rw [hrun] at hloop
      obtain ⟨p, hbefore, hpass, hreached, hfound⟩ := exists_of_passLoop_ret hruns w.plain w.cypher
        (clampThreads HYUNJIN_BLOCK_SIZE_DEFAULT) hvalid mem hret hloop
      simp only [Nat.zero_add] at hbefore hpass hreached
      refine ⟨.pass p, hnot, hbefore, hpass, hreached, ?_⟩
      intro i hi hhit
      have hexists := found_iff_exists.mpr ⟨i, hi, hhit⟩
      exact absurd (hexists.symm.trans hfound) Bool.true_eq_false.mp
  · rintro ⟨point, h⟩
    rw [rc572UnitFuncHyunjin_fails hruns hvalid h]

end Shim

/-! ## When a failure leaves no trace -/

/-- The count tells whether there was a match, as long as it has not gone round. -/
theorem count_noteMatches_search (check : CheckBlock) (w : RC572UnitWork) {n : ℕ}
    (hn : n < 2 ^ 32) :
    (check.noteMatches (search w.verdict refKeyStep n w.L0).matched).count = check.count ↔
      ∀ i < n, w.verdict (refKeyStep^[i] w.L0) = .miss := by
  have hlength : (search w.verdict refKeyStep n w.L0).matched.length ≤ n := length_matched_le ..
  rw [noteMatches_eq]
  simp only [BitVec.add_right_eq_self]
  rw [ofNat_length_eq_zero_iff (hlength.trans_lt hn),
    matched_eq_nil_iff]

/-- A match before the failure stays in the unit work. -/
theorem work_ne_of_match {cuda : Cuda} (hruns : cuda.RunsThreads) {w : RC572UnitWork}
    (hvalid : w.L0.Valid) {iterations : U32} {point : FailurePoint}
    (h : cuda.FailsAt w iterations point) {i : ℕ} (hi : i < point.keysBefore)
    (hmatch : w.verdict (refKeyStep^[i] w.L0) ≠ .miss) :
    (rc572UnitFuncHyunjin cuda w iterations).work ≠ w := by
  rw [rc572UnitFuncHyunjin_fails hruns hvalid h]
  intro hsame
  have hcount := congrArg (fun w : RC572UnitWork ↦ w.check.count) hsame
  exact hmatch ((count_noteMatches_search w.check w h.keysBefore_lt).mp hcount i hi)

/-- **When a failed call leaves no trace.** The core returns a negative code exactly at a failure
point, and the cursor and the count of iterations are untouched. The unit work is, and a retry of
the same range on a device that works returns what a first try would have, exactly when no key of
the passes before the failure was a match, not even a partial one. -/
theorem failure_undisturbed_iff {cuda : Cuda} (hruns : cuda.RunsThreads) (w : RC572UnitWork)
    (hL0 : w.L0.hi.toNat ≤ 0xFF) (iterations : U32) :
    let r := rc572UnitFuncHyunjin cuda w iterations
    (r.rescode = none ↔ ∃ point, cuda.FailsAt w iterations point) ∧
      ∀ point, cuda.FailsAt w iterations point →
        r.work.L0 = w.L0 ∧ r.iterations = iterations ∧
        (r.work = w ↔ ∀ i < point.keysBefore, w.verdict (refKeyStep^[i] w.L0) = .miss) ∧
        ∀ cuda' : Cuda, cuda'.Faithful → HYUNJIN_PIPELINE ∣ iterations.toNat →
          (rc572UnitFuncHyunjin cuda' r.work iterations = rc572UnitFuncHyunjin cuda' w iterations ↔
            ∀ i < point.keysBefore, w.verdict (refKeyStep^[i] w.L0) = .miss) := by
  intro r
  have hvalid : w.L0.Valid := Nat.lt_succ_of_le hL0
  refine ⟨rescode_eq_none_iff hruns hvalid, ?_⟩
  intro point h
  have hcount := count_noteMatches_search w.check w h.keysBefore_lt
  have hnone (hmiss : ∀ i < point.keysBefore, w.verdict (refKeyStep^[i] w.L0) = .miss) :
      w.check.noteMatches (search w.verdict refKeyStep point.keysBefore w.L0).matched
        = w.check := by
    rw [matched_eq_nil_iff.mpr hmiss]
    rfl
  have hr : r = _ := rc572UnitFuncHyunjin_fails hruns hvalid h
  rw [hr]
  generalize w.check.noteMatches (search w.verdict refKeyStep point.keysBefore w.L0).matched
    = check'
    at hcount hnone
  refine ⟨rfl, rfl, ?_, ?_⟩
  · constructor
    · intro hsame
      exact hcount.mp (congrArg (fun w : RC572UnitWork ↦ w.check.count) hsame)
    · intro hmiss
      rw [hnone hmiss]
  · intro cuda' hc' hpipe
    have hfresh := faithful_hyunjin hc' w iterations hvalid hpipe
    have hretry := faithful_hyunjin hc' { w with check := check' } iterations hvalid hpipe
    rw [hfresh, hretry]
    constructor
    · intro hsame
      -- both tries count the matches of the whole range, the second one on top of the first
      have hcounts := congrArg (fun c : CoreReturn ↦ c.work.check.count) hsame
      simp only [coreReturn, noteMatches_eq] at hcounts
      exact hcount.mp ((BitVec.add_left_inj _).mp hcounts)
    · intro hmiss
      rw [hnone hmiss]

/-- A device that does not launch. -/
theorem failure_undisturbed_iff_launch :
    let cuda : Cuda := { Cuda.sequential with launch := fun _ ↦ false }
    let w : RC572UnitWork :=
      ⟨⟨0x2FF17AF3#32, 0x3F3CA653#32⟩, ⟨0x2FB7852A#32, 0x562D285A#32⟩,
        ⟨0x85#32, 0xFEE1D4C0#32, 0x53030CC9#32⟩, ⟨0#32, ⟨0#32, 0#32, 0#32⟩⟩⟩
    (rc572UnitFuncHyunjin cuda w 48#32).rescode = none ∧ (rc572UnitFuncHyunjin cuda w 48#32).work
      = w := by
  intro cuda w
  have hruns : cuda.RunsThreads := fun _ _ _ ↦ List.Perm.refl _
  obtain ⟨hcode, hpoint⟩ := failure_undisturbed_iff hruns w (by decide) 48#32
  have hfails : cuda.FailsAt w 48#32 (.pass 0) := by
    refine ⟨?_, nofun, fun h ↦ absurd h.launch Bool.false_ne_true, by decide, ?_⟩
    · simp [Cuda.SetupFails, cuda, Cuda.sequential]
    · simp [FailurePoint.keysBefore]
  refine ⟨hcode.mpr ⟨_, hfails⟩, (hpoint _ hfails).2.2.1.mpr ?_⟩
  simp [FailurePoint.keysBefore]

/-- **A failure counts a match twice.** The first key of the range is a partial match, and the
second pass fails. -/
theorem failure_disturbs :
    let cuda : Cuda := { Cuda.sequential with launch := fun pass ↦ decide (pass = 0) }
    ∃ hi : U32,
      let w : RC572UnitWork :=
        ⟨⟨0x2FF17AF3#32, 0x3F3CA653#32⟩, ⟨hi, 0x562D285A#32⟩,
          ⟨0x85#32, 0xFEE1D4C0#32, 0x53030CC9#32⟩, ⟨0#32, ⟨0#32, 0#32, 0#32⟩⟩⟩
      cuda.FailsAt w 0x08000000#32 (.pass 1) ∧
        (rc572UnitFuncHyunjin cuda w 0x08000000#32).rescode = none ∧
        (rc572UnitFuncHyunjin cuda w 0x08000000#32).work ≠ w := by
  intro cuda
  obtain ⟨hi, hunmatched⟩ := exists_unmatched ⟨0x2FF17AF3#32, 0x3F3CA653#32⟩
    ⟨0x85#32, 0xFEE1D4C0#32, 0x53030CC9#32⟩
    (n := (FailurePoint.pass 1).keysBefore) (by decide)
  refine ⟨hi, ?_⟩
  intro w
  have hruns : cuda.RunsThreads := fun _ _ _ ↦ List.Perm.refl _
  have hvalid : w.L0.Valid := by
    have h : (⟨0x85#32, 0xFEE1D4C0#32, 0x53030CC9#32⟩ : Key72).Valid := by decide
    exact h
  have hfails : cuda.FailsAt w 0x08000000#32 (.pass 1) := by
    refine ⟨?_, ?_, fun h ↦ absurd h.launch Bool.false_ne_true, by decide, ?_⟩
    · simp [Cuda.SetupFails, cuda, Cuda.sequential]
    · intro q hq
      obtain rfl : q = 0 := Nat.lt_one_iff.mp hq
      exact ⟨rfl, rfl, rfl, rfl⟩
    · intro i hi' hhit
      exact hunmatched i hi' (verdict_eq_hit.mp hhit).2
  have hpos : 0 < (FailurePoint.pass 1).keysBefore := Nat.mul_pos Nat.one_pos (passKeys_pos _)
  have hlo : (refEncrypt ⟨0x2FF17AF3#32, 0x3F3CA653#32⟩
    ⟨0x85#32, 0xFEE1D4C0#32, 0x53030CC9#32⟩).lo = 0x562D285A#32 := by decide +kernel
  have hmatch : verdict ⟨0x2FF17AF3#32, 0x3F3CA653#32⟩ ⟨hi, 0x562D285A#32⟩
      ⟨0x85#32, 0xFEE1D4C0#32, 0x53030CC9#32⟩ ≠ .miss := by
    rw [ne_eq, verdict_eq_miss]
    exact not_not.mpr hlo
  exact ⟨hfails, (rescode_eq_none_iff hruns hvalid).mpr ⟨_, hfails⟩,
    work_ne_of_match hruns hvalid hfails hpos hmatch⟩

end Hyunjin
