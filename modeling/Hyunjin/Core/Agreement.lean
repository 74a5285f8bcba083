import Hyunjin.Core.Driver

/-!
# The CUDA core agrees with the reference core

The driver's scan visits result bits by lane, thread and pass. Each of the three loops is shown to
report, through `DriverOut.note`, the search of the keys it is responsible for; `Search.search_add`
joins the pieces. Base keys of later passes and the keys recomputed from a lane's offset are
iterates of the reference core's key step, so both cores search one orbit, with wrap at `2⁷²`
included.
-/

namespace Hyunjin

open Word Search

/-! ## Reporting a search into the out-parameters -/

/-- Report the outcome of a search that began `done` keys into the range. -/
def DriverOut.note (out : DriverOut) (done : ℕ) (r : Outcome Key72) : DriverOut :=
  { out with
    nCheck := out.nCheck + BitVec.ofNat 32 r.matched.length
    check := r.matched.getLast?.getD out.check
    found := if r.found then r.cursor else out.found
    iterationsOut := if r.found then done + r.steps else out.iterationsOut
    ret := if r.found then some .found else out.ret }

@[simp] theorem note_empty (out : DriverOut) (done steps : ℕ) (k : Key72) :
    out.note done ⟨steps, k, [], false⟩ = out := by
  simp [DriverOut.note]

theorem note_andThen_of_found (out : DriverOut) (done : ℕ) {r : Outcome Key72}
    (h : r.found = true) (f : Key72 → Outcome Key72) :
    out.note done (r.andThen f) = out.note done r := by
  rw [Outcome.andThen_of_found h]

theorem note_andThen (out : DriverOut) (done : ℕ) {r : Outcome Key72} (h : r.found = false)
    (f : Key72 → Outcome Key72) :
    out.note done (r.andThen f) = (out.note done r).note (done + r.steps) (f r.cursor) := by
  simp [DriverOut.note, Outcome.andThen, h, BitVec.ofNat_add, BitVec.add_assoc, Nat.add_assoc]

theorem ret_note_ne_found {out : DriverOut} (h : out.ret ≠ some .found) (done : ℕ)
    (r : Outcome Key72) : (out.note done r).ret = some .found ↔ r.found = true := by
  rcases hr : r.found with _ | _ <;> simp [DriverOut.note, hr, h]

theorem ret_note_of_not_found (out : DriverOut) (done : ℕ) {r : Outcome Key72}
    (h : r.found = false) : (out.note done r).ret = out.ret := by
  rw [DriverOut.note, h, if_neg Bool.false_ne_true]

theorem valid_cursor_search {k : Key72} (hk : k.Valid) (test : Key72 → Verdict) (n : ℕ) :
    (search test refKeyStep n k).cursor.Valid := by
  rw [cursor_search]
  exact valid_iterate_refKeyStep hk _

/-! ## One word, then one result vector -/

section Scan

variable {test : Key72 → Verdict} {base : Key72} (hbase : base.Valid) (done : ℕ)

include hbase

/-- The scan of a word reports the search of its thread's keys. -/
theorem scanLanes_eq {j : ℕ} (hj : HYUNJIN_PIPELINE * (j + 1) ≤ 2 ^ 32) {v : ℕ → Verdict}
    (hv : ∀ k < HYUNJIN_PIPELINE, v k = test (refKeyStep^[HYUNJIN_PIPELINE * j + k] base)) :
    ∀ (n a : ℕ) (out : DriverOut), a + n ≤ HYUNJIN_PIPELINE →
      scanLanes base done (laneWord v) j (List.range' a n) out =
        out.note (done + (HYUNJIN_PIPELINE * j + a))
          (search test refKeyStep n (refKeyStep^[HYUNJIN_PIPELINE * j + a] base)) := by
  intro n
  induction n with
  | zero => intro a out _; simp [scanLanes]
  | succ n ih =>
    intro a out ha
    have hlt : a < HYUNJIN_PIPELINE := by omega
    have hsmall : HYUNJIN_PIPELINE * j + a < 2 ^ 32 := by rw [Nat.mul_succ] at hj; omega
    have hkey : hyIncrementL0 base (BitVec.ofNat 32 (HYUNJIN_PIPELINE * j + a))
        = refKeyStep^[HYUNJIN_PIPELINE * j + a] base := by
      rw [hyIncrementL0_eq_iterate hbase, BitVec.toNat_ofNat, Nat.mod_eq_of_lt hsmall]
    have hnext : refKeyStep (refKeyStep^[HYUNJIN_PIPELINE * j + a] base)
        = refKeyStep^[HYUNJIN_PIPELINE * j + (a + 1)] base :=
      (Function.iterate_succ_apply' ..).symm
    have hone := laneWord_and_one v hlt
    have htwo := laneWord_and_two v hlt
    rw [hv a hlt] at hone htwo
    have hrest := ih (a + 1)
    rw [List.range'_succ, scanLanes, Nat.add_comm n 1, search_add]
    rcases hverdict : test (refKeyStep^[HYUNJIN_PIPELINE * j + a] base) with _ | _ | _
    · have hno : ¬laneWord v &&& 1#32 <<< (2 * a) ≠ 0#32 := fun h ↦ hone.mp h hverdict
      rw [if_neg hno, hrest out (by omega), search_one_miss hverdict, note_andThen _ _ rfl,
        note_empty, hnext]
      rfl
    · have hpartial : laneWord v &&& 1#32 <<< (2 * a) ≠ 0#32 := hone.mpr (by simp [hverdict])
      have hno : ¬laneWord v &&& 2#32 <<< (2 * a) ≠ 0#32 := fun h ↦ by
        rw [htwo, hverdict] at h
        exact Verdict.noConfusion h
      rw [if_pos hpartial, if_neg hno, hrest _ (by omega), search_one_near hverdict,
        note_andThen _ _ rfl, hnext, hkey]
      rfl
    · have hpartial : laneWord v &&& 1#32 <<< (2 * a) ≠ 0#32 := hone.mpr (by simp [hverdict])
      rw [if_pos hpartial, if_pos (htwo.mpr hverdict), search_succ_hit hverdict,
        note_andThen_of_found _ _ rfl, hkey]
      rfl

/-- The scan of the result vector reports the search of all the keys of the launch. -/
theorem scanThreads_eq {hRes : DeviceMem} {v : ℕ → ℕ → Verdict} {m : ℕ}
    (hm : HYUNJIN_PIPELINE * m ≤ 2 ^ 32) (hres : ∀ j < m, hRes j = laneWord (v j))
    (hv : ∀ j < m, ∀ k < HYUNJIN_PIPELINE,
      v j k = test (refKeyStep^[HYUNJIN_PIPELINE * j + k] base)) :
    ∀ (n a : ℕ) (out : DriverOut), a + n ≤ m → out.ret ≠ some .found →
      scanThreads base done hRes (List.range' a n) out =
        out.note (done + HYUNJIN_PIPELINE * a)
          (search test refKeyStep (HYUNJIN_PIPELINE * n)
            (refKeyStep^[HYUNJIN_PIPELINE * a] base)) := by
  intro n
  induction n with
  | zero => intro a out _ _; simp [scanThreads]
  | succ n ih =>
    intro a out ha hret
    have hlt : a < m := by omega
    have hj : HYUNJIN_PIPELINE * (a + 1) ≤ 2 ^ 32 := (Nat.mul_le_mul_left _ hlt).trans hm
    have hword := scanLanes_eq hbase done hj (hv a hlt) HYUNJIN_PIPELINE 0 out (by omega)
    rw [← hres a hlt, ← List.range_eq_range'] at hword
    -- a zero word holds no match, so skipping it is the same as scanning it
    have hstep : scanThreads base done hRes (List.range' a (n + 1)) out =
        let out := scanLanes base done (hRes a) a (List.range HYUNJIN_PIPELINE) out
        if out.ret = some .found then out
        else scanThreads base done hRes (List.range' (a + 1) n) out := by
      rw [List.range'_succ, scanThreads]
      split_ifs with hzero
      · have hskip : scanLanes base done (hRes a) a (List.range HYUNJIN_PIPELINE) out = out := by
          simp [hzero, scanLanes, HYUNJIN_PIPELINE, List.range_succ]
        simp [hskip, hret]
      · rfl
    rw [hstep]
    simp only [hword, ret_note_ne_found hret, Nat.add_zero]
    rw [Nat.mul_succ, Nat.add_comm (HYUNJIN_PIPELINE * n), search_add]
    split_ifs with hfound
    · rw [note_andThen_of_found _ _ hfound]
    · have hfound' := Bool.eq_false_of_not_eq_true hfound
      have hsteps := steps_of_not_found hfound'
      rw [note_andThen _ _ hfound', cursor_search, hsteps, ← Function.iterate_add_apply,
        ih _ _ (by omega) ((ret_note_ne_found hret _ _).not.mpr hfound), Nat.add_assoc,
        ← Nat.mul_succ, Nat.add_comm HYUNJIN_PIPELINE, ← Nat.mul_succ]

end Scan

/-! ## One launch -/

/-- The words the host copies back after a launch on a faithful device. -/
theorem launch_faithful {cuda : Cuda} (hruns : cuda.RunsThreads) (a : KernelArgs)
    (nthreads : BlockThreads) (pass : ℕ) (mem : DeviceMem) {j : ℕ} (hj : j < a.processAmount) :
    launch a nthreads.val
        (cuda.order pass ((a.processAmount + nthreads.val - 1) / nthreads.val) nthreads.val)
        (fun i ↦ if i < a.processAmount then 0#32 else mem i) j = laneWord (a.lane j) := by
  have hn : 0 < nthreads.val := by have := nthreads.property.1; omega
  have hgrid : j / nthreads.val < (a.processAmount + nthreads.val - 1) / nthreads.val := by
    rw [Nat.div_lt_iff_lt_mul hn]
    have := Nat.lt_div_mul_add (a := a.processAmount + nthreads.val - 1) hn
    omega
  have hrun : ∃ t ∈ cuda.order pass ((a.processAmount + nthreads.val - 1) / nthreads.val)
      nthreads.val, t.1 * nthreads.val + t.2 = j := by
    refine ⟨(j / nthreads.val, j % nthreads.val), (hruns ..).mem_iff.mpr ?_, ?_⟩
    · rw [List.mem_product, List.mem_range, List.mem_range]
      exact ⟨hgrid, Nat.mod_lt j hn⟩
    · rw [Nat.mul_comm]
      exact Nat.div_add_mod j nthreads.val
  rw [launch_apply, if_pos ⟨hrun, hj⟩, if_pos hj, BitVec.zero_or]

/-- Lane `k` of thread `j` tests the key `4 · j + k` steps from the base. -/
theorem lane_eq {a : KernelArgs} (hbase : a.L0.Valid) {j k : ℕ} (hk : k < HYUNJIN_PIPELINE)
    (hj : HYUNJIN_PIPELINE * (j + 1) ≤ 2 ^ 32) :
    a.lane j k = verdict a.plain a.cypher (refKeyStep^[HYUNJIN_PIPELINE * j + k] a.L0) := by
  have hamount : (BitVec.ofNat 32 j * BitVec.ofNat 32 HYUNJIN_PIPELINE + BitVec.ofNat 32 k).toNat
      = HYUNJIN_PIPELINE * j + k := by
    rw [← BitVec.ofNat_mul, ← BitVec.ofNat_add, BitVec.toNat_ofNat, Nat.mul_comm j]
    rw [Nat.mul_succ] at hj
    exact Nat.mod_eq_of_lt (by omega)
  rw [KernelArgs.lane, hyIncrementL0_eq_iterate hbase, hamount]

/-! ## The pass loop -/

theorem threadsThisPass_mul_le (nthreads : BlockThreads) {remain : ℕ}
    (h : HYUNJIN_PIPELINE ∣ remain) :
    HYUNJIN_PIPELINE * threadsThisPass nthreads remain ≤ remain := by
  obtain ⟨r, rfl⟩ := h
  rw [threadsThisPass, keysThisPass_eq, HYUNJIN_PIPELINE, MAX_GRID]
  omega

theorem threadsThisPass_mul_lt (nthreads : BlockThreads) (remain : ℕ) :
    HYUNJIN_PIPELINE * threadsThisPass nthreads remain < 2 ^ 32 := by
  have hn := nthreads.property.2
  rw [threadsThisPass, keysThisPass_eq, HYUNJIN_PIPELINE, MAX_GRID]
  omega

/-- The scan of what a launch leaves in memory reports the search of the keys of the launch. -/
theorem scanThreads_launch {cuda : Cuda} (hruns : cuda.RunsThreads) (plain cypher : Block)
    (nthreads : BlockThreads) (pass done : ℕ) {base : Key72} (hbase : base.Valid) (mem : DeviceMem)
    {m : ℕ} (hsmall : HYUNJIN_PIPELINE * m < 2 ^ 32) {out : DriverOut}
    (hret : out.ret ≠ some .found) :
    scanThreads base done (launch ⟨plain, cypher, base, m⟩ nthreads.val
        (cuda.order pass ((m + nthreads.val - 1) / nthreads.val) nthreads.val)
        fun i ↦ if i < m then 0#32 else mem i) (List.range m) out
      = out.note done (search (verdict plain cypher) refKeyStep (HYUNJIN_PIPELINE * m) base) := by
  have hlane : ∀ j < m, ∀ k < HYUNJIN_PIPELINE, KernelArgs.lane ⟨plain, cypher, base, m⟩ j k =
      verdict plain cypher (refKeyStep^[HYUNJIN_PIPELINE * j + k] base) := fun j hj k hk ↦
    lane_eq (a := ⟨plain, cypher, base, m⟩) hbase hk
      ((Nat.mul_le_mul_left _ hj).trans hsmall.le)
  have hscan := scanThreads_eq hbase done hsmall.le
    (fun j hj ↦ launch_faithful hruns ⟨plain, cypher, base, m⟩ nthreads pass mem hj) hlane
    m 0 out (by omega) hret
  rw [← List.range_eq_range'] at hscan
  simpa only [Nat.mul_zero, Nat.add_zero, Function.iterate_zero_apply] using hscan

/-- **A pass without failures reports the search of its keys**, and the loop goes on from the
search's cursor unless there was a hit. -/
theorem passLoop_step {cuda : Cuda} (hruns : cuda.RunsThreads) (plain cypher : Block)
    (nthreads : BlockThreads) {iterationsIn pass done : ℕ} (hlt : done < iterationsIn)
    (hpass : cuda.PassSucceeds pass) {base : Key72} (hbase : base.Valid) (mem : DeviceMem)
    {out : DriverOut} (hret : out.ret = some .nothing) :
    let n := HYUNJIN_PIPELINE * threadsThisPass nthreads (iterationsIn - done)
    let r := search (verdict plain cypher) refKeyStep n base
    ∃ mem', passLoop cuda plain cypher nthreads iterationsIn pass done base mem out =
      if r.found then (out.note done r).finish base done
      else passLoop cuda plain cypher nthreads iterationsIn (pass + 1) (done + n) r.cursor mem'
        (out.note done r) := by
  intro n r
  set m := threadsThisPass nthreads (iterationsIn - done) with hm
  have hsmall : HYUNJIN_PIPELINE * m < 2 ^ 32 := threadsThisPass_mul_lt ..
  have hret' : out.ret ≠ some .found := by
    rw [hret]
    decide
  have hscan := scanThreads_launch hruns plain cypher nthreads pass done hbase mem hsmall hret'
  refine ⟨launch ⟨plain, cypher, base, m⟩ nthreads.val
    (cuda.order pass ((m + nthreads.val - 1) / nthreads.val) nthreads.val)
    fun i ↦ if i < m then 0#32 else mem i, ?_⟩
  rw [passLoop, if_pos hlt, ← hm]
  simp only [hpass.memsetAsync, hpass.launch, hpass.synchronize, hpass.memcpy, Bool.true_eq_false,
    if_false, hscan, ret_note_ne_found hret']
  rcases hfound : r.found with _ | _
  · have hcursor : hyIncrementL0 base (BitVec.ofNat 32 m * BitVec.ofNat 32 HYUNJIN_PIPELINE) =
        r.cursor := by
      rw [cursor_search, steps_of_not_found hfound, hyIncrementL0_eq_iterate hbase,
        ← BitVec.ofNat_mul, BitVec.toNat_ofNat, Nat.mul_comm m, Nat.mod_eq_of_lt hsmall]
    rw [if_neg Bool.false_ne_true, if_neg Bool.false_ne_true, hcursor, Nat.mul_comm m]
  · rw [if_pos rfl, if_pos rfl]

/-- **The pass loop reports the search of the whole range.** After a hit the cursor is not
reported, and the base key of the pass stands in its place. -/
theorem passLoop_eq {cuda : Cuda} (hc : cuda.Faithful) (plain cypher : Block)
    (nthreads : BlockThreads) {iterationsIn : ℕ} (pass done : ℕ) {base : Key72}
    (hbase : base.Valid) (mem : DeviceMem) {out : DriverOut} (hret : out.ret = some .nothing)
    (hdvd : HYUNJIN_PIPELINE ∣ iterationsIn - done) (hdone : done ≤ iterationsIn) :
    let r := search (verdict plain cypher) refKeyStep (iterationsIn - done) base
    ∃ b, passLoop cuda plain cypher nthreads iterationsIn pass done base mem out =
      { out.note done r with
        resL0 := if r.found then b else r.cursor
        iterationsOut := done + r.steps } := by
  induction hrem : iterationsIn - done using Nat.strong_induction_on
    generalizing pass done base mem out with
  | _ remain ih =>
    intro r
    rw [hrem] at hdvd
    by_cases hlt : done < iterationsIn
    · obtain ⟨mem', hstep⟩ := passLoop_step hc.order plain cypher nthreads hlt
        (hc.passSucceeds pass) hbase mem hret
      have hle := threadsThisPass_mul_le nthreads hdvd
      have hpos : 0 < HYUNJIN_PIPELINE * threadsThisPass nthreads remain :=
        Nat.mul_pos (by decide) (threadsThisPass_pos nthreads (by omega))
      rw [hrem] at hstep
      set n := HYUNJIN_PIPELINE * threadsThisPass nthreads remain
      have hsplit : r = (search (verdict plain cypher) refKeyStep n base).andThen
          (search (verdict plain cypher) refKeyStep (remain - n)) := by
        rw [← search_add, Nat.add_sub_cancel' hle]
      rw [hstep, hsplit]
      rcases hfound : (search (verdict plain cypher) refKeyStep n base).found with _ | _
      · have hsteps := steps_of_not_found hfound
        have hret' : (out.note done (search (verdict plain cypher) refKeyStep n base)).ret =
            some .nothing := (ret_note_of_not_found _ _ hfound).trans hret
        have hleft : iterationsIn - (done + n) = remain - n := by omega
        rw [if_neg Bool.false_ne_true, note_andThen _ _ hfound, Outcome.andThen, hfound]
        simp only [Bool.false_eq_true, if_false, hsteps]
        obtain ⟨b, hb⟩ := ih (remain - n) (by omega) (pass + 1) (done + n)
          (valid_cursor_search hbase _ n) mem' hret'
          (hleft ▸ Nat.dvd_sub hdvd (Nat.dvd_mul_right ..)) (by omega) hleft
        refine ⟨b, ?_⟩
        rw [hb, Nat.add_assoc]
      · rw [if_pos rfl, Outcome.andThen_of_found hfound]
        refine ⟨base, ?_⟩
        simp [DriverOut.finish, DriverOut.note, hfound]
    · have hzero : remain = 0 := by omega
      subst hzero
      rw [passLoop, if_neg hlt]
      exact ⟨base, by simp [r, DriverOut.finish, hret, DriverOut.note]⟩

theorem hyunjinR72Run_eq {cuda : Cuda} (hc : cuda.Faithful) (plain cypher : Block) {l0 : Key72}
    (hl0 : l0.Valid) {iterationsIn : ℕ} (hdvd : HYUNJIN_PIPELINE ∣ iterationsIn)
    (device blockSize : ℤ) :
    let r := search (verdict plain cypher) refKeyStep iterationsIn l0
    ∃ b, hyunjinR72Run cuda plain cypher l0 iterationsIn device blockSize =
      { ret := some (if r.found then .found else .nothing)
        iterationsOut := r.steps
        nCheck := BitVec.ofNat 32 r.matched.length
        check := r.matched.getLast?.getD ⟨0#32, 0#32, 0#32⟩
        found := if r.found then r.cursor else ⟨0#32, 0#32, 0#32⟩
        resL0 := if r.found then b else r.cursor } := by
  intro r
  obtain ⟨devCount, hcount, hpos⟩ := hc.getDeviceCount
  obtain ⟨curdev, hcur⟩ := hc.getDevice
  obtain ⟨mem, hmem⟩ := hc.cudaMalloc
  have hret : (⟨some .nothing, 0, 0#32, ⟨0#32, 0#32, 0#32⟩,
    ⟨0#32, 0#32, 0#32⟩, l0⟩ : DriverOut).ret =
    some .nothing := rfl
  have hdvd' : HYUNJIN_PIPELINE ∣ iterationsIn - 0 := by simpa using hdvd
  obtain ⟨b, hb⟩ := passLoop_eq hc plain cypher (clampThreads blockSize) 0 0 hl0 mem hret hdvd'
    (Nat.zero_le _)
  refine ⟨b, ?_⟩
  rw [hyunjinR72Run]
  simp only [hcount, hcur, hmem, hc.setDevice, hc.malloc, Int.not_le.mpr hpos, Bool.true_eq_false,
    and_false, if_false, Int.toNat_natCast]
  rw [hb, Nat.sub_zero]
  rcases hr : (search (verdict plain cypher) refKeyStep iterationsIn l0).found with _ | _ <;>
    simp [DriverOut.note, r, hr]

/-! ## The two cores -/

theorem noteMatches_eq (c : CheckBlock) (keys : List Key72) :
    c.noteMatches keys =
      ⟨c.count + BitVec.ofNat 32 keys.length, keys.getLast?.getD c.key⟩ := by
  induction keys generalizing c with
  | nil => simp [CheckBlock.noteMatches]
  | cons key keys ih =>
    have hlast (k : Key72) : (key :: keys).getLast?.getD k = keys.getLast?.getD key := by
      rw [List.getLast?_cons, Option.getD_some]
    rw [CheckBlock.noteMatches, List.foldl_cons, ← CheckBlock.noteMatches, ih, hlast,
      List.length_cons, BitVec.ofNat_add, BitVec.add_assoc, BitVec.add_comm 1#32]

/-- A core, as the client calls it. -/
abbrev Core := RC572UnitWork → U32 → CoreReturn

/-- A core that, started on a 72-bit key for a count of whole pipelines, reports the search of that
many keys. -/
def Core.Faithful (core : Core) : Prop :=
  ∀ (w : RC572UnitWork) (iterations : U32), w.L0.Valid → HYUNJIN_PIPELINE ∣ iterations.toNat →
    core w iterations = coreReturn w (search w.verdict refKeyStep iterations.toNat w.L0)

theorem faithful_ansiRef : Core.Faithful rc572UnitFuncAnsiRef :=
  fun w iterations _ _ ↦ rc572UnitFuncAnsiRef_eq w iterations

/-- A word counts fewer than `2³²` matches without wrapping to zero. -/
theorem ofNat_length_eq_zero_iff {keys : List Key72} (hkeys : keys.length < 2 ^ 32) :
    BitVec.ofNat 32 keys.length = 0#32 ↔ keys = [] := by
  rw [← List.length_eq_zero_iff]
  constructor
  · intro h
    have hval := congrArg BitVec.toNat h
    rwa [BitVec.toNat_ofNat, Nat.mod_eq_of_lt hkeys] at hval
  · intro h
    rw [h]

/-- The shim's update of the check block. The driver's counter is a word, so it must not have
wrapped for zero to mean that there was no match. -/
theorem merge_check (w : RC572UnitWork) {keys : List Key72} (hkeys : keys.length < 2 ^ 32) :
    (if BitVec.ofNat 32 keys.length ≠ 0#32 then
      { w with check := ⟨w.check.count + BitVec.ofNat 32 keys.length,
                         keys.getLast?.getD ⟨0#32, 0#32, 0#32⟩⟩ }
      else w) = { w with check := w.check.noteMatches keys } := by
  simp only [ne_eq, ofNat_length_eq_zero_iff hkeys]
  rw [noteMatches_eq]
  by_cases hnil : keys = []
  · simp [hnil]
  · rw [if_pos hnil, List.getLast?_eq_some_getLast hnil]
    rfl

/-- **On a faithful device the CUDA core reports the search.** -/
theorem faithful_hyunjin {cuda : Cuda} (hc : cuda.Faithful) :
    Core.Faithful (rc572UnitFuncHyunjin cuda) := by
  intro w iterations hvalid hpipe
  obtain ⟨b, hb⟩ := hyunjinR72Run_eq hc w.plain w.cypher hvalid hpipe 0
    HYUNJIN_BLOCK_SIZE_DEFAULT
  rw [rc572UnitFuncHyunjin, hb]
  have hlength : (search w.verdict refKeyStep iterations.toNat w.L0).matched.length ≤
      iterations.toNat := length_matched_le ..
  have hfold : verdict w.plain w.cypher = w.verdict := rfl
  rw [hfold]
  set r := search w.verdict refKeyStep iterations.toNat w.L0
  have hcheck := merge_check w (hlength.trans_lt iterations.isLt)
  rcases hr : r.found with _ | _ <;> simp [hcheck, coreReturn, hr]

/-- **The CUDA core and the reference core return the same.** On a faithful device, for every unit
work whose key is a 72-bit key and every count of whole pipelines, the result code, the unit work
and the iteration count are those of the reference core. -/
theorem rc572UnitFuncHyunjin_eq_ansiRef {cuda : Cuda} (hc : cuda.Faithful) (w : RC572UnitWork)
    (hL0 : w.L0.hi.toNat ≤ 0xFF) (iterations : U32)
    (hpipe : HYUNJIN_PIPELINE ∣ iterations.toNat) :
    rc572UnitFuncHyunjin cuda w iterations = rc572UnitFuncAnsiRef w iterations := by
  have hvalid : w.L0.Valid := Nat.lt_succ_of_le hL0
  rw [faithful_hyunjin hc w iterations hvalid hpipe, rc572UnitFuncAnsiRef_eq]

/-- The agreement on the self-test's work, started three keys before the match. -/
theorem rc572UnitFuncHyunjin_eq_ansiRef_selftest :
    let w : RC572UnitWork :=
      ⟨⟨0x2FF17AF3#32, 0x3F3CA653#32⟩, ⟨0x2FB7852A#32, 0x562D285A#32⟩,
        ⟨0x82#32, 0xFEE1D4C0#32, 0x53030CC9#32⟩, ⟨0#32, ⟨0#32, 0#32, 0#32⟩⟩⟩
    rc572UnitFuncHyunjin Cuda.sequential w 8#32 = rc572UnitFuncAnsiRef w 8#32 :=
  rc572UnitFuncHyunjin_eq_ansiRef Cuda.faithful_sequential _ (by decide) _ (by decide)

end Hyunjin
