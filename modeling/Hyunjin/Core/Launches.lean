import Hyunjin.Core.Agreement

/-!
# How the launches cut up the range

`passLoopLog` is the pass loop with a log of its launches. A launch tests the keys of its threads,
four to a thread, and a key is placed by the pass, the block, the thread and the lane that test it
(`Place`). Whatever the runtime answers and whatever the keys are, the logged launches follow each
other without gap or overlap, so that every offset below their end has exactly one place and the
offsets from there on have none (`passLoopLog_partitions`).

The log need not reach the end of the range. The loop is left at an exact match and at a call that
fails, and no pass is made for what is left then.
-/

namespace Hyunjin

open Word Search

/-- One launch of the kernel: the keys of the range behind it, its threads that have work, its
blocks and its base key. -/
structure Launch where
  done : ℕ
  nthreadsThisPass : ℕ
  grid : ℕ
  base : Key72
  deriving DecidableEq, Repr

namespace Launch

/-- The keys a launch tests. -/
def keys (l : Launch) : ℕ := HYUNJIN_PIPELINE * l.nthreadsThisPass

/-- The key that lane `k` of thread `idx` tests, as the kernel computes it. -/
def key (l : Launch) (idx k : ℕ) : Key72 :=
  hyIncrementL0 l.base (BitVec.ofNat 32 idx * BitVec.ofNat 32 HYUNJIN_PIPELINE + BitVec.ofNat 32 k)

/-- The keys a launch tests, by thread and lane. -/
def testedKeys (l : Launch) : List Key72 :=
  (List.range l.keys).map fun n ↦ l.key (n / HYUNJIN_PIPELINE) (n % HYUNJIN_PIPELINE)

end Launch

/-- Where a key is tested. -/
structure Place where
  pass : ℕ
  block : ℕ
  thread : ℕ
  lane : ℕ
  deriving DecidableEq, Repr

/-- The index a thread of `bd` threads a block computes for itself. -/
def Place.idx (p : Place) (bd : ℕ) : ℕ := p.block * bd + p.thread

/-- A launch of `bd` threads a block tests the key `offset` at a place: the place is a thread of the
launch that does not return at once, and one of its lanes. -/
structure Launch.Tests (l : Launch) (bd : ℕ) (p : Place) (offset : ℕ) : Prop where
  block : p.block < l.grid
  thread : p.thread < bd
  idx : p.idx bd < l.nthreadsThisPass
  lane : p.lane < HYUNJIN_PIPELINE
  offset : offset = l.done + (HYUNJIN_PIPELINE * p.idx bd + p.lane)

/-- **A place tests a key exactly if the kernel does.** Whatever the texts are, a thread that tests
the key of a lane leaves the verdict on it in the bits of the lane. One that returns at once leaves
nothing there, not even where the key is a match. -/
theorem Launch.exists_tests_iff (l : Launch) {bd : ℕ} {p : Place} (hblock : p.block < l.grid)
    (hthread : p.thread < bd) (hlane : p.lane < HYUNJIN_PIPELINE) :
    (∃ offset, l.Tests bd p offset) ↔ ∀ plain cypher, ∀ b < 2,
      (hyunjinR72Kernel ⟨plain, cypher, l.base, l.nthreadsThisPass⟩ bd p.block p.thread
        (fun _ ↦ 0#32) (p.idx bd)).getLsbD (2 * p.lane + b)
        = (verdict plain cypher (l.key (p.idx bd) p.lane)).bits.getLsbD b := by
  constructor
  · rintro ⟨offset, htests⟩ plain cypher b hb
    rw [kernel_apply, if_pos ⟨rfl, htests.idx⟩, BitVec.zero_or, getLsbD_laneWord _ hlane hb]
    rfl
  · intro hkernel
    refine ⟨_, hblock, hthread, Nat.lt_of_not_le fun hidle ↦ ?_, hlane, rfl⟩
    -- with the text that the key encrypts to, there would be a mark
    have hmark := hkernel ⟨0#32, 0#32⟩ (refEncrypt ⟨0#32, 0#32⟩ (l.key (p.idx bd) p.lane)) 0
      (by decide)
    rw [kernel_apply, if_neg fun h ↦ Nat.not_lt.mpr hidle h.2, BitVec.getLsbD_zero, verdict,
      if_pos rfl, if_pos rfl] at hmark
    exact Bool.noConfusion hmark

/-- Some launch of a log tests the key `offset` at a place. -/
def Tested (log : List Launch) (bd : ℕ) (p : Place) (offset : ℕ) : Prop :=
  ∃ l, log[p.pass]? = some l ∧ l.Tests bd p offset

/-- The keys tested by the launches of a log. -/
def keysTested (log : List Launch) : ℕ := (log.map Launch.keys).sum

/-- **No word runs over in a launch**, for the kernel (its thread indices and its key offsets) and
for the host (its scan and its advance). -/
structure Launch.Fits (l : Launch) (nthreads : BlockThreads) : Prop where
  grid : l.grid ≤ MAX_GRID
  /-- Every index that is written or scanned has a result word. -/
  results : l.nthreadsThisPass ≤ nthreads.val * MAX_GRID
  /-- The `int` product and sum of the kernel, and the `int` casts of the number of threads. -/
  index : ∀ bx < l.grid, ∀ tx < nthreads.val, bx * nthreads.val + tx < 2 ^ 31
  amount : l.nthreadsThisPass < 2 ^ 31
  /-- The `u32` offset of a lane. -/
  lane : ∀ idx < l.nthreadsThisPass, ∀ k < HYUNJIN_PIPELINE,
    (BitVec.ofNat 32 idx * BitVec.ofNat 32 HYUNJIN_PIPELINE : U32).toNat = idx * HYUNJIN_PIPELINE ∧
      (BitVec.ofNat 32 idx * BitVec.ofNat 32 HYUNJIN_PIPELINE + BitVec.ofNat 32 k : U32).toNat
        = idx * HYUNJIN_PIPELINE + k
  /-- The `u32` cast of the offset that the host scans at. -/
  scan : ∀ j < l.nthreadsThisPass, ∀ k < HYUNJIN_PIPELINE,
    (BitVec.ofNat 32 (HYUNJIN_PIPELINE * j + k) : U32).toNat = HYUNJIN_PIPELINE * j + k
  /-- The `u32` product by which the base key advances. -/
  advance : (BitVec.ofNat 32 l.nthreadsThisPass * BitVec.ofNat 32 HYUNJIN_PIPELINE : U32).toNat
    = l.nthreadsThisPass * HYUNJIN_PIPELINE

/-! ## Consecutive launches -/

/-- The launches of a log follow each other from `start` on, each with threads for all its keys, the
base key of each as far from `l0` as the launch is. -/
inductive Consecutive (l0 : Key72) (nthreads : BlockThreads) : ℕ → List Launch → Prop
  | nil (start : ℕ) : Consecutive l0 nthreads start []
  | cons {l : Launch} {log : List Launch} (fits : l.Fits nthreads)
      (threads : l.nthreadsThisPass ≤ l.grid * nthreads.val)
      (base : l.base.index % 2 ^ 72 = (l0.index + l.done) % 2 ^ 72)
      (rest : Consecutive l0 nthreads (l.done + l.keys) log) :
      Consecutive l0 nthreads l.done (l :: log)

section Places

variable {l0 : Key72} {nthreads : BlockThreads}

theorem tested_cons_zero {l : Launch} {log : List Launch} {bd offset : ℕ} {p : Place}
    (h : p.pass = 0) : Tested (l :: log) bd p offset ↔ l.Tests bd p offset := by
  rw [Tested, h, List.getElem?_cons_zero]
  constructor
  · rintro ⟨l', hl', htests⟩
    rwa [Option.some.inj hl']
  · intro htests
    exact ⟨l, rfl, htests⟩

theorem Launch.Tests.congr_pass {l : Launch} {bd offset : ℕ} {p : Place} (h : l.Tests bd p offset)
    (pass : ℕ) : l.Tests bd { p with pass := pass } offset :=
  ⟨h.block, h.thread, h.idx, h.lane, h.offset⟩

theorem tested_cons_succ {l : Launch} {log : List Launch} {bd offset n : ℕ} {p : Place}
    (h : p.pass = n + 1) : Tested (l :: log) bd p offset
      ↔ Tested log bd { p with pass := n } offset := by
  rw [Tested, Tested, h, List.getElem?_cons_succ]
  constructor
  · rintro ⟨l', hl', htests⟩
    exact ⟨l', hl', htests.congr_pass n⟩
  · rintro ⟨l', hl', htests⟩
    exact ⟨l', hl', htests.block, htests.thread, htests.idx, htests.lane, htests.offset⟩

/-- A key tested by a launch is one of the keys of the launch. -/
theorem Launch.Tests.offset_lt {l : Launch} {bd offset : ℕ} {p : Place} (h : l.Tests bd p offset) :
    l.done ≤ offset ∧ offset < l.done + l.keys := by
  have hidx := h.idx
  have hlane := h.lane
  have hoffset := h.offset
  rw [keys]
  rw [HYUNJIN_PIPELINE] at hlane hoffset ⊢
  omega

theorem Consecutive.le_offset {start : ℕ} {log : List Launch}
    (hlog : Consecutive l0 nthreads start log)
    {p : Place} {offset : ℕ} (h : Tested log nthreads.val p offset) :
    start ≤ offset ∧ offset < start + keysTested log := by
  induction hlog generalizing p with
  | nil =>
    obtain ⟨l, hl, -⟩ := h
    cases hl
  | @cons l log _ _ _ _ ih =>
    rw [keysTested, List.map_cons, List.sum_cons]
    rcases hpass : p.pass with _ | n
    · have hoffset := ((tested_cons_zero hpass).mp h).offset_lt
      omega
    · have hoffset := ih ((tested_cons_succ hpass).mp h)
      rw [keysTested] at hoffset
      omega

/-- A thread and a lane are known by the offset they test. -/
theorem Launch.Tests.place_eq {l : Launch} {bd offset : ℕ} {p q : Place} (hp : l.Tests bd p offset)
    (hq : l.Tests bd q offset) (hpass : p.pass = q.pass) : p = q := by
  have hbd : 0 < bd := Nat.zero_lt_of_lt hp.thread
  have hsame : HYUNJIN_PIPELINE * p.idx bd + p.lane = HYUNJIN_PIPELINE * q.idx bd + q.lane :=
    Nat.add_left_cancel (hp.offset.symm.trans hq.offset)
  have hplane := hp.lane
  have hqlane := hq.lane
  rw [HYUNJIN_PIPELINE] at hsame hplane hqlane
  have hidx : p.idx bd = q.idx bd := by omega
  have hlane : p.lane = q.lane := by omega
  rw [Place.idx, Place.idx, Nat.mul_comm, Nat.mul_comm q.block] at hidx
  have hblock : p.block = q.block := by
    have hdiv := congrArg (· / bd) hidx
    simpa only [Nat.mul_add_div hbd, Nat.div_eq_of_lt hp.thread, Nat.div_eq_of_lt hq.thread,
      Nat.add_zero] using hdiv
  have hthread : p.thread = q.thread := by
    rw [hblock] at hidx
    exact Nat.add_left_cancel hidx
  obtain ⟨pass, block, thread, lane⟩ := p
  obtain ⟨pass', block', thread', lane'⟩ := q
  simp_all

/-- No key is tested twice. -/
theorem Consecutive.place_eq {start : ℕ} {log : List Launch}
    (hlog : Consecutive l0 nthreads start log) {p q : Place} {offset : ℕ}
    (hp : Tested log nthreads.val p offset) (hq : Tested log nthreads.val q offset) : p = q := by
  induction hlog generalizing p q with
  | nil =>
    obtain ⟨l, hl, -⟩ := hp
    cases hl
  | cons _ _ _ rest ih =>
    rcases hpp : p.pass with _ | m <;> rcases hqp : q.pass with _ | n
    · exact ((tested_cons_zero hpp).mp hp).place_eq ((tested_cons_zero hqp).mp hq)
        (hpp.trans hqp.symm)
    · have hfirst := ((tested_cons_zero hpp).mp hp).offset_lt
      have hlater := rest.le_offset ((tested_cons_succ hqp).mp hq)
      omega
    · have hfirst := ((tested_cons_zero hqp).mp hq).offset_lt
      have hlater := rest.le_offset ((tested_cons_succ hpp).mp hp)
      omega
    · have hrest := ih ((tested_cons_succ hpp).mp hp) ((tested_cons_succ hqp).mp hq)
      obtain ⟨pass, block, thread, lane⟩ := p
      obtain ⟨pass', block', thread', lane'⟩ := q
      simp_all

/-- A launch with threads for all its keys tests each of them. -/
theorem Launch.exists_tests {l : Launch} (hbd : 0 < nthreads.val)
    (hthreads : l.nthreadsThisPass ≤ l.grid * nthreads.val) {offset : ℕ} (hle : l.done ≤ offset)
    (hlt : offset < l.done + l.keys) (pass : ℕ) :
    ∃ p : Place, p.pass = pass ∧ l.Tests nthreads.val p offset := by
  obtain ⟨d, rfl⟩ := Nat.exists_eq_add_of_le hle
  have hd : d / HYUNJIN_PIPELINE < l.nthreadsThisPass := by
    rw [keys] at hlt
    rw [Nat.div_lt_iff_lt_mul (by decide), Nat.mul_comm]
    exact Nat.lt_of_add_lt_add_left hlt
  have hidx : d / HYUNJIN_PIPELINE / nthreads.val * nthreads.val
      + d / HYUNJIN_PIPELINE % nthreads.val = d / HYUNJIN_PIPELINE := Nat.div_add_mod' _ _
  refine ⟨⟨pass, d / HYUNJIN_PIPELINE / nthreads.val, d / HYUNJIN_PIPELINE % nthreads.val,
    d % HYUNJIN_PIPELINE⟩, rfl, ?_, Nat.mod_lt _ hbd, ?_, Nat.mod_lt _ (by decide), ?_⟩
  · exact Nat.div_lt_of_lt_mul (by rw [Nat.mul_comm]; exact hd.trans_le hthreads)
  · rw [Place.idx, hidx]
    exact hd
  · rw [Place.idx, hidx, Nat.div_add_mod]

/-- Every key up to the end of the log is tested. -/
theorem Consecutive.exists_tested {start : ℕ} {log : List Launch}
    (hlog : Consecutive l0 nthreads start log) {offset : ℕ} (hle : start ≤ offset)
    (hlt : offset < start + keysTested log) : ∃ p, Tested log nthreads.val p offset := by
  have hbd : 0 < nthreads.val := Nat.zero_lt_of_lt nthreads.property.1
  induction hlog with
  | nil start =>
    rw [keysTested, List.map_nil, List.sum_nil] at hlt
    omega
  | @cons l log _ threads _ _ ih =>
    rw [keysTested, List.map_cons, List.sum_cons] at hlt
    by_cases hfirst : offset < l.done + l.keys
    · obtain ⟨p, hp, htests⟩ := l.exists_tests hbd threads hle hfirst 0
      exact ⟨p, (tested_cons_zero hp).mpr htests⟩
    · obtain ⟨p, hp⟩ := ih (Nat.le_of_not_lt hfirst) (by rw [keysTested]; omega)
      exact ⟨{ p with pass := p.pass + 1 }, (tested_cons_succ rfl).mpr hp⟩

end Places

/-! ## The launches of the pass loop -/

/-- The pass loop, with the launches it makes. -/
def passLoopLog (cuda : Cuda) (plain cypher : Block) (nthreads : BlockThreads) (iterationsIn : ℕ)
    (pass done : ℕ) (base : Key72) (dResults : DeviceMem) (out : DriverOut) :
    DriverOut × List Launch :=
  if done < iterationsIn then
    let n := threadsThisPass nthreads (iterationsIn - done)
    let grid := (n + nthreads.val - 1) / nthreads.val
    if cuda.memsetAsync pass = false then ({ out with ret := none }.finish base done, [])
    else
      let dResults : DeviceMem := fun i ↦ if i < n then 0#32 else dResults i
      if cuda.launch pass = false then ({ out with ret := none }.finish base done, [])
      else
        let l : Launch := ⟨done, n, grid, base⟩
        let dResults := launch ⟨plain, cypher, base, n⟩ nthreads.val
          (cuda.order pass grid nthreads.val) dResults
        if cuda.synchronize pass = false then ({ out with ret := none }.finish base done, [l])
        else if cuda.memcpy pass = false then ({ out with ret := none }.finish base done, [l])
        else
          let out := scanThreads base done dResults (List.range n) out
          if out.ret = some .found then (out.finish base done, [l])
          else
            let rest := passLoopLog cuda plain cypher nthreads iterationsIn (pass + 1)
              (done + n * HYUNJIN_PIPELINE)
              (hyIncrementL0 base (BitVec.ofNat 32 n * BitVec.ofNat 32 HYUNJIN_PIPELINE))
              dResults out
            (rest.1, l :: rest.2)
  else (out.finish base done, [])
termination_by iterationsIn - done
decreasing_by
  have hn := threadsThisPass_pos nthreads (Nat.sub_pos_of_lt ‹done < iterationsIn›)
  simp only [HYUNJIN_PIPELINE]
  omega

/-- The log is kept without changing the loop. -/
theorem passLoopLog_fst (cuda : Cuda) (plain cypher : Block) (nthreads : BlockThreads)
    (iterationsIn pass done : ℕ) (base : Key72) (dResults : DeviceMem) (out : DriverOut) :
    (passLoopLog cuda plain cypher nthreads iterationsIn pass done base dResults out).1
      = passLoop cuda plain cypher nthreads iterationsIn pass done base dResults out := by
  induction hrem : iterationsIn - done using Nat.strong_induction_on
    generalizing pass done base dResults out with
  | _ remain ih =>
    rw [passLoopLog, passLoop]
    by_cases hlt : done < iterationsIn
    · have hpos := threadsThisPass_pos nthreads (Nat.sub_pos_of_lt hlt)
      have hless : iterationsIn
          - (done + threadsThisPass nthreads (iterationsIn - done) * HYUNJIN_PIPELINE)
            < remain := by
        rw [HYUNJIN_PIPELINE]
        omega
      rw [if_pos hlt, if_pos hlt]
      dsimp only
      split_ifs
      · rfl
      · rfl
      · rfl
      · rfl
      · rfl
      · exact ih _ hless _ _ _ _ _ rfl
    · rw [if_neg hlt, if_neg hlt]

/-- The scan reports an exact match among the keys of the launch, or leaves the result as it is. -/
theorem scanLanes_ret (base : Key72) (done : ℕ) (word : U32) (j : ℕ) (ks : List ℕ)
    (out : DriverOut) :
    (scanLanes base done word j ks out).ret = out.ret ∨
      (scanLanes base done word j ks out).ret = some .found ∧ ∃ k ∈ ks,
        (scanLanes base done word j ks out).iterationsOut = done + (HYUNJIN_PIPELINE * j + k) := by
  induction ks generalizing out with
  | nil => exact Or.inl rfl
  | cons k ks ih =>
    have hrest (o : DriverOut) (ho : o.ret = out.ret) :
        (scanLanes base done word j ks o).ret = out.ret ∨
          (scanLanes base done word j ks o).ret = some .found ∧ ∃ k' ∈ k :: ks,
            (scanLanes base done word j ks o).iterationsOut
              = done + (HYUNJIN_PIPELINE * j + k') := by
      rcases ih o with h | ⟨h, k', hk', hout⟩
      · exact Or.inl (h.trans ho)
      · exact Or.inr ⟨h, k', List.mem_cons_of_mem _ hk', hout⟩
    rw [scanLanes]
    split_ifs with hone htwo
    · exact Or.inr ⟨rfl, k, List.mem_cons_self, rfl⟩
    · exact hrest _ rfl
    · exact hrest _ rfl

theorem scanThreads_ret (base : Key72) (done : ℕ) (hRes : DeviceMem) (js : List ℕ)
    (out : DriverOut) : (scanThreads base done hRes js out).ret = out.ret ∨
      (scanThreads base done hRes js out).ret = some .found ∧
        ∃ j ∈ js, ∃ k < HYUNJIN_PIPELINE, (scanThreads base done hRes js out).iterationsOut
          = done + (HYUNJIN_PIPELINE * j + k) := by
  induction js generalizing out with
  | nil => exact Or.inl rfl
  | cons j js ih =>
    have hrest (o : DriverOut) (ho : o.ret = out.ret) :
        (scanThreads base done hRes js o).ret = out.ret ∨
          (scanThreads base done hRes js o).ret = some .found ∧ ∃ j' ∈ j :: js,
            ∃ k < HYUNJIN_PIPELINE, (scanThreads base done hRes js o).iterationsOut
              = done + (HYUNJIN_PIPELINE * j' + k) := by
      rcases ih o with h | ⟨h, j', hj', hout⟩
      · exact Or.inl (h.trans ho)
      · exact Or.inr ⟨h, j', List.mem_cons_of_mem _ hj', hout⟩
    rw [scanThreads]
    dsimp only
    split_ifs with hzero hfound
    · exact hrest out rfl
    · rcases scanLanes_ret base done (hRes j) j (List.range HYUNJIN_PIPELINE) out with
        h | ⟨h, k, hk, hout⟩
      · exact Or.inl h
      · exact Or.inr ⟨h, j, List.mem_cons_self, k, List.mem_range.mp hk, hout⟩
    · rcases scanLanes_ret base done (hRes j) j (List.range HYUNJIN_PIPELINE) out with h | ⟨h, -⟩
      · exact hrest _ h
      · exact absurd h hfound

/-- The launch of a pass has threads for the keys of the pass, and fits. -/
theorem fits_launch (nthreads : BlockThreads) (done remain : ℕ) (base : Key72) :
    let n := threadsThisPass nthreads remain
    let l : Launch := ⟨done, n, (n + nthreads.val - 1) / nthreads.val, base⟩
    l.Fits nthreads ∧ l.nthreadsThisPass ≤ l.grid * nthreads.val := by
  intro n l
  have hlow := nthreads.property.1
  have hhigh := nthreads.property.2
  have hpos : 0 < nthreads.val := by omega
  have hn : n ≤ nthreads.val * MAX_GRID := by
    simp only [n, threadsThisPass, keysThisPass_eq, HYUNJIN_PIPELINE]
    omega
  have hn26 : n < 2 ^ 27 := by
    rw [MAX_GRID] at hn
    omega
  have hgrid : l.grid ≤ MAX_GRID := by
    refine Nat.le_of_lt_succ ((Nat.div_lt_iff_lt_mul hpos).mpr ?_)
    rw [Nat.succ_mul, Nat.mul_comm MAX_GRID]
    omega
  have hlane (idx k : ℕ) (hidx : idx < n) (hk : k < HYUNJIN_PIPELINE) :
      HYUNJIN_PIPELINE * idx + k < 2 ^ 32 := by
    rw [HYUNJIN_PIPELINE] at hk ⊢
    omega
  have hword (m k : ℕ) (h : m * HYUNJIN_PIPELINE + k < 2 ^ 32) :
      (BitVec.ofNat 32 m * BitVec.ofNat 32 HYUNJIN_PIPELINE + BitVec.ofNat 32 k : U32).toNat
        = m * HYUNJIN_PIPELINE + k := by
    rw [← BitVec.ofNat_mul, ← BitVec.ofNat_add, BitVec.toNat_ofNat, Nat.mod_eq_of_lt h]
  have hproduct (m : ℕ) (h : m ≤ n) :
      (BitVec.ofNat 32 m * BitVec.ofNat 32 HYUNJIN_PIPELINE : U32).toNat
        = m * HYUNJIN_PIPELINE := by
    rw [← BitVec.ofNat_mul, BitVec.toNat_ofNat, Nat.mod_eq_of_lt]
    rw [HYUNJIN_PIPELINE]
    omega
  constructor
  · refine ⟨hgrid, hn, ?_, by dsimp only [l]; omega, ?_, ?_, hproduct n le_rfl⟩
    · intro bx hbx tx htx
      have hbx' : bx * nthreads.val ≤ MAX_GRID * 1024 :=
        Nat.mul_le_mul (hbx.le.trans hgrid) hhigh
      rw [MAX_GRID] at hbx'
      omega
    · intro idx hidx k hk
      refine ⟨hproduct idx (Nat.le_of_lt hidx), hword idx k ?_⟩
      rw [Nat.mul_comm]
      exact hlane idx k hidx hk
    · intro j hj k hk
      rw [BitVec.toNat_ofNat, Nat.mod_eq_of_lt (hlane j k hj hk)]
  · have hdiv := Nat.lt_div_mul_add (a := n + nthreads.val - 1) hpos
    dsimp only [l]
    omega

/-- What the pass loop owes: its log is consecutive from where it stands, runs over the range by
less than a thread's keys, and is short of the range only when the loop is left early; a match that
is reported was tested. -/
structure LogInv (l0 : Key72) (nthreads : BlockThreads) (iterationsIn done : ℕ)
    (r : DriverOut × List Launch) : Prop where
  consecutive : Consecutive l0 nthreads done r.2
  overshoot : done < iterationsIn + HYUNJIN_PIPELINE →
    done + keysTested r.2 < iterationsIn + HYUNJIN_PIPELINE
  nothing : r.1.ret = some .nothing → iterationsIn ≤ done + keysTested r.2
  found : r.1.ret = some .found → r.1.iterationsOut < done + keysTested r.2
  length : r.2.length ≤ iterationsIn - done

/-- The log of a loop that stops without a launch. -/
private theorem logInv_nil {l0 : Key72} {nthreads : BlockThreads} {iterationsIn done : ℕ}
    {out : DriverOut} (hnothing : out.ret = some .nothing → iterationsIn ≤ done)
    (hfound : out.ret ≠ some .found) : LogInv l0 nthreads iterationsIn done (out, []) :=
  ⟨Consecutive.nil done, id, hnothing, fun h ↦ absurd h hfound, Nat.zero_le _⟩

section Run

variable {l0 : Key72} {nthreads : BlockThreads} {iterationsIn done : ℕ} {base : Key72}

/-- The log of one launch that covers the pass. -/
private theorem consecutive_launch (hbase : base.index % 2 ^ 72 = (l0.index + done) % 2 ^ 72)
    {log : List Launch}
    (hrest : Consecutive l0 nthreads
      (done + threadsThisPass nthreads (iterationsIn - done) * HYUNJIN_PIPELINE) log) :
    Consecutive l0 nthreads done
      (⟨done, threadsThisPass nthreads (iterationsIn - done),
        (threadsThisPass nthreads (iterationsIn - done) + nthreads.val - 1) / nthreads.val, base⟩
        :: log) := by
  obtain ⟨hfits, hthreads⟩ := fits_launch nthreads done (iterationsIn - done) base
  have hkeys := Nat.mul_comm (threadsThisPass nthreads (iterationsIn - done)) HYUNJIN_PIPELINE
  rw [hkeys] at hrest
  exact Consecutive.cons hfits hthreads hbase hrest

/-- A pass runs over the range by less than a thread's keys. -/
private theorem threadsThisPass_mul_lt_add (nthreads : BlockThreads) (hlt : done < iterationsIn) :
    done + HYUNJIN_PIPELINE * threadsThisPass nthreads (iterationsIn - done)
      < iterationsIn + HYUNJIN_PIPELINE := by
  rw [threadsThisPass, keysThisPass_eq, HYUNJIN_PIPELINE]
  omega

/-- The log of a loop that is left after its first launch. -/
private theorem logInv_single (hbase : base.index % 2 ^ 72 = (l0.index + done) % 2 ^ 72)
    (hlt : done < iterationsIn) {out : DriverOut} (hnothing : out.ret ≠ some .nothing)
    (hfound : out.ret = some .found → out.iterationsOut
      < done + HYUNJIN_PIPELINE * threadsThisPass nthreads (iterationsIn - done)) :
    LogInv l0 nthreads iterationsIn done (out,
      [⟨done, threadsThisPass nthreads (iterationsIn - done),
        (threadsThisPass nthreads (iterationsIn - done) + nthreads.val - 1) / nthreads.val,
        base⟩]) := by
  have hlast := threadsThisPass_mul_lt_add nthreads hlt
  refine ⟨consecutive_launch hbase (Consecutive.nil _), fun _ ↦ ?_, fun h ↦ absurd h hnothing, ?_,
    ?_⟩
  · rwa [keysTested, List.map_singleton, List.sum_singleton, Launch.keys]
  · rwa [keysTested, List.map_singleton, List.sum_singleton, Launch.keys]
  · rw [List.length_singleton]
    omega

end Run

/-- **The log of the pass loop**, by induction on what is left of the range: a pass that is made
adds its launch in front of the log of the passes after it. -/
theorem logInv_passLoopLog (cuda : Cuda) (plain cypher : Block) {l0 : Key72}
    (nthreads : BlockThreads) (iterationsIn pass done : ℕ) {base : Key72}
    (hbase : base.index % 2 ^ 72 = (l0.index + done) % 2 ^ 72) (mem : DeviceMem) {out : DriverOut}
    (hret : out.ret = some .nothing) :
    LogInv l0 nthreads iterationsIn done
      (passLoopLog cuda plain cypher nthreads iterationsIn pass done base mem out) := by
  induction hrem : iterationsIn - done using Nat.strong_induction_on
    generalizing pass done base mem out with
  | _ remain ih =>
    rw [passLoopLog]
    by_cases hlt : done < iterationsIn
    swap
    · rw [if_neg hlt]
      refine logInv_nil (fun _ ↦ Nat.le_of_not_lt hlt) ?_
      rw [DriverOut.finish, hret]
      decide
    have hpos := threadsThisPass_pos nthreads (Nat.sub_pos_of_lt hlt)
    rw [if_pos hlt]
    dsimp only
    set n := threadsThisPass nthreads (iterationsIn - done) with hn
    split_ifs with hmemset hlaunch hsync hmemcpy hfound
    · exact logInv_nil (fun h ↦ by cases h) fun h ↦ by cases h
    · exact logInv_nil (fun h ↦ by cases h) fun h ↦ by cases h
    · exact logInv_single hbase hlt (fun h ↦ by cases h) fun h ↦ by cases h
    · exact logInv_single hbase hlt (fun h ↦ by cases h) fun h ↦ by cases h
    · refine logInv_single hbase hlt ?_ fun _ ↦ ?_
      · intro h
        exact absurd (hfound.symm.trans h) (by decide)
      · rcases scanThreads_ret base done _ (List.range n) out with h | ⟨-, j, hj, k, hk, hout⟩
        · exact absurd (hfound.symm.trans (h.trans hret)) (by decide)
        · have hjn := List.mem_range.mp hj
          rw [DriverOut.finish, hfound, if_neg (by decide), hout, ← hn]
          rw [HYUNJIN_PIPELINE] at hk ⊢
          omega
    · have hret' := (scanThreads_ret base done (launch ⟨plain, cypher, base, n⟩ nthreads.val
        (cuda.order pass ((n + nthreads.val - 1) / nthreads.val) nthreads.val)
        fun i ↦ if i < n then 0#32 else mem i) (List.range n) out).resolve_right
          fun h ↦ hfound h.1
      have hadvance := (fits_launch nthreads done (iterationsIn - done) base).1.advance
      dsimp only at hadvance
      rw [← hn] at hadvance
      have hbase' : (hyIncrementL0 base
          (BitVec.ofNat 32 n * BitVec.ofNat 32 HYUNJIN_PIPELINE)).index % 2 ^ 72
            = (l0.index + (done + n * HYUNJIN_PIPELINE)) % 2 ^ 72 := by
        rw [index_hyIncrementL0, hadvance, Nat.mod_mod, ← Nat.add_assoc, Nat.add_mod base.index,
          hbase, ← Nat.add_mod]
      have hless : iterationsIn - (done + n * HYUNJIN_PIPELINE) < remain := by
        rw [HYUNJIN_PIPELINE]
        omega
      have hrest := ih _ hless (pass + 1) (done + n * HYUNJIN_PIPELINE) hbase' (launch
        ⟨plain, cypher, base, n⟩ nthreads.val
        (cuda.order pass ((n + nthreads.val - 1) / nthreads.val) nthreads.val)
        fun i ↦ if i < n then 0#32 else mem i) (hret'.trans hret) rfl
      have hlast := threadsThisPass_mul_lt_add nthreads hlt
      have hkeys : ∀ log : List Launch, keysTested
          (⟨done, n, (n + nthreads.val - 1) / nthreads.val, base⟩ :: log)
            = n * HYUNJIN_PIPELINE + keysTested log := fun log ↦ by
        rw [keysTested, List.map_cons, List.sum_cons, Launch.keys, Nat.mul_comm, keysTested]
      rw [← hn, Nat.mul_comm] at hlast
      refine ⟨consecutive_launch hbase hrest.consecutive, fun _ ↦ ?_, fun h ↦ ?_, fun h ↦ ?_, ?_⟩
      · rw [hkeys, ← Nat.add_assoc]
        exact hrest.overshoot hlast
      · rw [hkeys, ← Nat.add_assoc]
        exact hrest.nothing h
      · rw [hkeys, ← Nat.add_assoc]
        exact hrest.found h
      · have hlength := hrest.length
        rw [List.length_cons]
        omega

/-- What a driver starts the pass loop with. -/
def DriverOut.start (l0 : Key72) : DriverOut :=
  ⟨some .nothing, 0, 0#32, ⟨0#32, 0#32, 0#32⟩, ⟨0#32, 0#32, 0#32⟩, l0⟩

/-- On a faithful device the driver is its pass loop, and so makes the launches of the log. -/
theorem hyunjinR72Run_eq_passLoopLog {cuda : Cuda} (hc : cuda.Faithful) (plain cypher : Block)
    (l0 : Key72) (iterationsIn device blockSize : ℤ) :
    ∃ mem, hyunjinR72Run cuda plain cypher l0 iterationsIn device blockSize =
      (passLoopLog cuda plain cypher (clampThreads blockSize) iterationsIn.toNat 0 0 l0 mem
        (.start l0)).1 := by
  obtain ⟨devCount, hcount, hpos⟩ := hc.getDeviceCount
  obtain ⟨curdev, hcur⟩ := hc.getDevice
  obtain ⟨mem, hmem⟩ := hc.cudaMalloc
  refine ⟨mem, ?_⟩
  rw [hyunjinR72Run, passLoopLog_fst]
  simp only [hcount, hcur, hmem, hc.setDevice, hc.malloc, Int.not_le.mpr hpos, Bool.true_eq_false,
    and_false, if_false]
  rfl

/-- The key tested at a place is as far from `l0` as its offset says. -/
theorem Consecutive.index_key {l0 : Key72} {nthreads : BlockThreads} {start : ℕ} {log : List Launch}
    (hlog : Consecutive l0 nthreads start log) {l : Launch} (hl : l ∈ log) {p : Place} {offset : ℕ}
    (h : l.Tests nthreads.val p offset) :
    (l.key (p.idx nthreads.val) p.lane).index = (l0.index + offset) % 2 ^ 72 := by
  induction hlog with
  | nil => cases hl
  | cons fits _ hbase _ ih =>
    rcases List.mem_cons.mp hl with rfl | hl
    · rw [Launch.key, index_hyIncrementL0, (fits.lane _ h.idx _ h.lane).2, h.offset, Nat.add_mod,
        hbase, ← Nat.add_mod, Nat.mul_comm HYUNJIN_PIPELINE, Nat.add_assoc]
    · exact ih hl

theorem Consecutive.fits {l0 : Key72} {nthreads : BlockThreads} {start : ℕ} {log : List Launch}
    (hlog : Consecutive l0 nthreads start log) {l : Launch} (hl : l ∈ log) : l.Fits nthreads := by
  induction hlog with
  | nil => cases hl
  | cons fits _ _ _ ih =>
    rcases List.mem_cons.mp hl with rfl | hl
    · exact fits
    · exact ih hl

/-- **The launches test the keys of their range in order**, whatever the passes, blocks and threads
they are cut into. -/
theorem Consecutive.flatMap_testedKeys {l0 : Key72} (hl0 : l0.Valid) {nthreads : BlockThreads}
    {start : ℕ} {log : List Launch} (hlog : Consecutive l0 nthreads start log) :
    log.flatMap Launch.testedKeys =
      (List.range' start (keysTested log)).map (refKeyStep^[·] l0) := by
  induction hlog with
  | nil => rfl
  | @cons l log fits _ hbase _ ih =>
    have hfirst : l.testedKeys = (List.range' l.done l.keys).map (refKeyStep^[·] l0) := by
      rw [Launch.testedKeys, List.range'_eq_map_range, List.map_map]
      refine List.map_congr_left fun n hn ↦ ?_
      have hidx : n / HYUNJIN_PIPELINE < l.nthreadsThisPass := by
        rw [Nat.div_lt_iff_lt_mul (by decide), Nat.mul_comm]
        exact List.mem_range.mp hn
      have hlane : n % HYUNJIN_PIPELINE < HYUNJIN_PIPELINE := Nat.mod_lt n (by decide)
      have hindex : (l.key (n / HYUNJIN_PIPELINE) (n % HYUNJIN_PIPELINE)).index
          = (refKeyStep^[l.done + n] l0).index := by
        rw [Launch.key, index_hyIncrementL0, (fits.lane _ hidx _ hlane).2, Nat.div_add_mod',
          index_iterate_refKeyStep hl0, Nat.add_mod, hbase, ← Nat.add_mod, Nat.add_assoc]
      exact Key72.index_inj (valid_hyIncrementL0 ..) (valid_iterate_refKeyStep hl0 _) hindex
    rw [List.flatMap_cons, ih, hfirst, keysTested, keysTested, List.map_cons, List.sum_cons,
      ← List.range'_append_1, List.map_append]

/-- Every launch tests whole pipelines. -/
theorem dvd_keysTested (log : List Launch) : HYUNJIN_PIPELINE ∣ keysTested log := by
  induction log with
  | nil => exact Nat.dvd_zero _
  | cons l log ih =>
    rw [keysTested, List.map_cons, List.sum_cons]
    exact Nat.dvd_add (Nat.dvd_mul_right ..) ih

/-- **The launches of the CUDA core test the keys that a search looks at**, in the same order, and
no others unless there is a match. The threads of the last launch do not stop at a match. -/
theorem tested_prefix_passLoopLog {cuda : Cuda} (hc : cuda.Faithful) (plain cypher : Block)
    {l0 : Key72} (hl0 : l0.Valid) (nthreads : BlockThreads) {iterationsIn : ℕ}
    (hdvd : HYUNJIN_PIPELINE ∣ iterationsIn) (mem : DeviceMem) :
    let keys := (passLoopLog cuda plain cypher nthreads iterationsIn 0 0 l0 mem
      (.start l0)).2.flatMap Launch.testedKeys
    tested (verdict plain cypher) refKeyStep iterationsIn l0 <+: keys ∧
      ((search (verdict plain cypher) refKeyStep iterationsIn l0).found = false →
        keys = tested (verdict plain cypher) refKeyStep iterationsIn l0) := by
  intro keys
  set r := passLoopLog cuda plain cypher nthreads iterationsIn 0 0 l0 mem (.start l0)
  set o := search (verdict plain cypher) refKeyStep iterationsIn l0 with ho
  have hinv : LogInv l0 nthreads iterationsIn 0 r :=
    logInv_passLoopLog cuda plain cypher nthreads iterationsIn 0 0 rfl mem rfl
  have hkeys : keys = (List.range (keysTested r.2)).map (refKeyStep^[·] l0) := by
    rw [List.range_eq_range']
    exact hinv.consecutive.flatMap_testedKeys hl0
  have hdvd' : HYUNJIN_PIPELINE ∣ iterationsIn - 0 := by rwa [Nat.sub_zero]
  obtain ⟨b, hb⟩ := passLoop_eq hc plain cypher nthreads 0 0 hl0 mem
    (rfl : (DriverOut.start l0).ret = some .nothing) hdvd' (Nat.zero_le _)
  rw [← passLoopLog_fst, Nat.sub_zero, ← ho, Nat.zero_add] at hb
  rw [tested_eq, ← ho, hkeys]
  rcases hfound : o.found with _ | _
  · -- without a match the launches stop at the end of the range, which is a whole pipeline
    have hover := hinv.overshoot (by rw [HYUNJIN_PIPELINE]; omega)
    have hend := hinv.nothing (by rw [hb]; exact ret_note_of_not_found _ 0 hfound)
    rw [Nat.zero_add] at hover hend
    obtain ⟨m, hm⟩ := hdvd
    obtain ⟨n, hn⟩ := dvd_keysTested r.2
    have hlen : keysTested r.2 = iterationsIn := by
      rw [HYUNJIN_PIPELINE] at hm hn hover
      omega
    rw [steps_of_not_found hfound, hlen]
    exact ⟨List.prefix_rfl, fun _ ↦ rfl⟩
  · have hlt := hinv.found (by rw [hb, DriverOut.note, if_pos hfound])
    have hsteps : r.1.iterationsOut = o.steps := by rw [hb]
    rw [hsteps, Nat.zero_add] at hlt
    refine ⟨?_, fun h ↦ Bool.noConfusion h⟩
    obtain ⟨n, hn⟩ := Nat.exists_eq_add_of_lt hlt
    rw [Bool.toNat_true, hn, Nat.add_right_comm o.steps n 1, List.range_add (n := o.steps + 1),
      List.map_append]
    exact List.prefix_append ..

/-- **The launches partition the range.** Whatever the runtime answers, the logged loop is the pass
loop of the driver, it makes finitely many launches, every key before their end is tested at exactly
one place and none from there on, with the key of its offset, no word runs over and every result
word is inside its buffer. The end is less than a thread's keys past the range; it is in the range
only if the loop is left at a failed call or at an exact match, which then is before the end. -/
theorem passLoopLog_partitions (cuda : Cuda) (plain cypher : Block) (l0 : Key72) {iterationsIn : ℕ}
    (hlt : iterationsIn < 2 ^ 32) (blockSize : ℤ) (mem : DeviceMem) :
    let nthreads := clampThreads blockSize
    let r := passLoopLog cuda plain cypher nthreads iterationsIn 0 0 l0 mem (.start l0)
    r.1 = passLoop cuda plain cypher nthreads iterationsIn 0 0 l0 mem (.start l0) ∧
      r.2.length ≤ iterationsIn ∧
      (∀ offset < keysTested r.2, ∃! p, Tested r.2 nthreads.val p offset) ∧
      (∀ p offset, Tested r.2 nthreads.val p offset → offset < keysTested r.2) ∧
      (∀ l ∈ r.2, ∀ p offset, l.Tests nthreads.val p offset →
        (l.key (p.idx nthreads.val) p.lane).index = (l0.index + offset) % 2 ^ 72) ∧
      (∀ l ∈ r.2, l.Fits nthreads ∧ ∀ pass results j, nthreads.val * MAX_GRID ≤ j →
        launch ⟨plain, cypher, l.base, l.nthreadsThisPass⟩ nthreads.val
          (cuda.order pass l.grid nthreads.val) results j = results j) ∧
      keysTested r.2 ≤ iterationsIn + (HYUNJIN_PIPELINE - 1) ∧ keysTested r.2 < 2 ^ 63 ∧
      (r.1.ret = some .nothing → iterationsIn ≤ keysTested r.2) ∧
      (r.1.ret = some .found → r.1.iterationsOut < keysTested r.2) := by
  intro nthreads r
  have hinv : LogInv l0 nthreads iterationsIn 0 r :=
    logInv_passLoopLog cuda plain cypher nthreads iterationsIn 0 0 rfl mem rfl
  have hover := hinv.overshoot (by rw [HYUNJIN_PIPELINE]; omega)
  have hlog := hinv.consecutive
  rw [Nat.zero_add] at hover
  refine ⟨passLoopLog_fst .., hinv.length, ?_, ?_, fun l hl p offset ↦ hlog.index_key hl,
    fun l hl ↦ ⟨hlog.fits hl, ?_⟩, ?_, ?_, ?_, ?_⟩
  · intro offset hoffset
    obtain ⟨p, hp⟩ := hlog.exists_tested (Nat.zero_le offset) (by rwa [Nat.zero_add])
    exact ⟨p, hp, fun q hq ↦ hlog.place_eq hq hp⟩
  · intro p offset hp
    have hend := (hlog.le_offset hp).2
    rwa [Nat.zero_add] at hend
  · intro pass results j hj
    have hout : ¬j < l.nthreadsThisPass :=
      Nat.not_lt.mpr ((hlog.fits hl).results.trans hj)
    rw [launch_apply, if_neg fun h ↦ hout h.2]
  · rw [HYUNJIN_PIPELINE] at hover ⊢
    omega
  · rw [HYUNJIN_PIPELINE] at hover
    omega
  · intro h
    have hend := hinv.nothing h
    rwa [Nat.zero_add] at hend
  · intro h
    have hend := hinv.found h
    rwa [Nat.zero_add] at hend

/-- Two passes' work without a match. -/
theorem passLoopLog_partitions_two :
    keysTested (passLoopLog Cuda.sequential ⟨0#32, 0#32⟩ ⟨0#32, 0#32⟩ (clampThreads 32) 8388481 0 0
      ⟨0#32, 0#32, 0#32⟩ (fun _ ↦ 0#32) (.start ⟨0#32, 0#32, 0#32⟩)).2
        ≤ 8388481 + (HYUNJIN_PIPELINE - 1) := by
  obtain ⟨-, -, -, -, -, -, hend, -⟩ := passLoopLog_partitions Cuda.sequential ⟨0#32, 0#32⟩
    ⟨0#32, 0#32⟩ ⟨0#32, 0#32, 0#32⟩ (by decide : 8388481 < 2 ^ 32) 32 fun _ ↦ 0#32
  exact hend

/-- A hit in a pass is the end of the log. -/
theorem passLoopLog_of_hit {cuda : Cuda} (hruns : cuda.RunsThreads) {plain cypher : Block}
    (nthreads : BlockThreads) {iterationsIn pass done : ℕ} (hlt : done < iterationsIn)
    (hpass : cuda.PassSucceeds pass) {base : Key72} (hbase : base.Valid)
    (hhit : verdict plain cypher base = .hit) (mem : DeviceMem) {out : DriverOut}
    (hret : out.ret = some .nothing) : ∃ l : Launch,
      (passLoopLog cuda plain cypher nthreads iterationsIn pass done base mem out).2 = [l] ∧
        l.nthreadsThisPass = threadsThisPass nthreads (iterationsIn - done) := by
  have hsmall := threadsThisPass_mul_lt nthreads (iterationsIn - done)
  have hret' : out.ret ≠ some .found := by
    rw [hret]
    decide
  have hscan := scanThreads_launch hruns plain cypher nthreads pass done hbase mem hsmall hret'
  obtain ⟨n, hn⟩ := Nat.exists_eq_add_of_lt
    (threadsThisPass_pos nthreads (Nat.sub_pos_of_lt hlt))
  have hfound : (search (verdict plain cypher) refKeyStep
      (HYUNJIN_PIPELINE * threadsThisPass nthreads (iterationsIn - done)) base).found = true := by
    rw [hn, Nat.zero_add, Nat.mul_succ, HYUNJIN_PIPELINE, search_succ_hit hhit]
  rw [passLoopLog, if_pos hlt]
  simp only [hpass.memsetAsync, hpass.launch, hpass.synchronize, hpass.memcpy, Bool.true_eq_false,
    if_false, hscan, (ret_note_ne_found hret' _ _).mpr hfound, if_true]
  exact ⟨_, rfl, rfl⟩

/-- After a hit on the first key, the keys of later passes have no place. -/
theorem not_tested_of_hit {cuda : Cuda} (hruns : cuda.RunsThreads) {plain cypher : Block}
    (nthreads : BlockThreads) {iterationsIn : ℕ} (hpos : 0 < iterationsIn)
    (hpass : cuda.PassSucceeds 0) {l0 : Key72} (hl0 : l0.Valid)
    (hhit : verdict plain cypher l0 = .hit) (mem : DeviceMem) {offset : ℕ}
    (hoffset : HYUNJIN_PIPELINE * threadsThisPass nthreads iterationsIn ≤ offset) (p : Place) :
    ¬Tested (passLoopLog cuda plain cypher nthreads iterationsIn 0 0 l0 mem (.start l0)).2
      nthreads.val p offset := by
  obtain ⟨l, hl, hn⟩ := passLoopLog_of_hit hruns nthreads hpos hpass hl0 hhit mem
    (rfl : (DriverOut.start l0).ret = some .nothing)
  have hlog : LogInv l0 nthreads iterationsIn 0
      (passLoopLog cuda plain cypher nthreads iterationsIn 0 0 l0 mem (.start l0)) :=
    logInv_passLoopLog cuda plain cypher nthreads iterationsIn 0 0 rfl mem rfl
  intro htested
  have hend := (hlog.consecutive.le_offset htested).2
  rw [hl, keysTested, List.map_singleton, List.sum_singleton, Launch.keys, hn, Nat.sub_zero] at hend
  omega

/-- With the first key an exact match, only one of two passes is made, and the last key of the range
is never tested. -/
theorem passLoopLog_not_partitions :
    ¬∀ offset < 8388481, ∃! p, Tested (passLoopLog Cuda.sequential ⟨0x2FF17AF3#32, 0x3F3CA653#32⟩
      ⟨0x2FB7852A#32, 0x562D285A#32⟩ (clampThreads 32) 8388481 0 0
      ⟨0x85#32, 0xFEE1D4C0#32, 0x53030CC9#32⟩ (fun _ ↦ 0#32)
      (.start ⟨0x85#32, 0xFEE1D4C0#32, 0x53030CC9#32⟩)).2 (clampThreads 32).val p offset := by
  intro hall
  obtain ⟨p, hp, -⟩ := hall 8388480 (by decide)
  exact not_tested_of_hit Cuda.faithful_sequential.order (clampThreads 32) (by decide)
    (Cuda.faithful_sequential.passSucceeds 0) (by decide) (by decide +kernel) _ (by decide) p hp

end Hyunjin
