import Hyunjin.Core.Kernel
import Hyunjin.Core.Reference
import Mathlib.Data.List.ProdSigma
import Mathlib.Data.List.Range

/-!
# The CUDA driver and the client's shim

`hyunjinR72Run` selects a device, allocates one result word a thread, and works through the
requested range in passes: clear, launch, synchronize, copy back, scan, advance.
`rc572UnitFuncHyunjin` is the shim that the client calls as its core.

The CUDA runtime is a record `Cuda` of what each of its calls answers, so that failures can be
followed as well; `Cuda.Faithful` is the runtime on which every call succeeds and every thread of a
launch runs exactly once. Under it the driver's scan is the bounded search of `Search.Linear`, cut
into lanes, threads and passes, and the shim reports what the reference core reports.
-/

namespace Hyunjin

open Word Search

/-- Maximum blocks per launch. -/
def MAX_GRID : ℕ := 65535

def HYUNJIN_BLOCK_SIZE : ℤ := 256

/-- The number of threads of a block, after the driver has put it into range. -/
abbrev BlockThreads := {n : ℕ // 32 ≤ n ∧ n ≤ 1024}

def clampThreads (blockSize : ℤ) : BlockThreads :=
  let nthreads := if blockSize < 32 then HYUNJIN_BLOCK_SIZE else blockSize
  ⟨(if 1024 < nthreads then 1024 else nthreads).toNat, by
    have hdefault : HYUNJIN_BLOCK_SIZE = 256 := rfl
    grind⟩

/-- What the calls of the CUDA runtime and `malloc` answer. Calls made in the pass loop are indexed
by the pass; `order pass grid nthreads` is the order in which a launch runs its threads. A freshly
allocated device buffer has arbitrary contents. -/
structure Cuda where
  getDeviceCount : Option ℤ
  getDevice : Option ℤ
  setDevice : ℤ → Bool
  cudaMalloc : Option DeviceMem
  malloc : Bool
  memsetAsync : ℕ → Bool
  launch : ℕ → Bool
  synchronize : ℕ → Bool
  memcpy : ℕ → Bool
  order : ℕ → ℕ → ℕ → List (ℕ × ℕ)

/-- Every call succeeds and every thread of a launch runs exactly once. -/
structure Cuda.Faithful (cuda : Cuda) : Prop where
  getDeviceCount : ∃ n, cuda.getDeviceCount = some n ∧ 0 < n
  getDevice : ∃ d, cuda.getDevice = some d
  setDevice : ∀ d, cuda.setDevice d = true
  cudaMalloc : ∃ mem, cuda.cudaMalloc = some mem
  malloc : cuda.malloc = true
  memsetAsync : ∀ pass, cuda.memsetAsync pass = true
  launch : ∀ pass, cuda.launch pass = true
  synchronize : ∀ pass, cuda.synchronize pass = true
  memcpy : ∀ pass, cuda.memcpy pass = true
  order : ∀ pass grid nthreads,
    (cuda.order pass grid nthreads).Perm (List.range grid ×ˢ List.range nthreads)

/-- Every thread of a launch runs exactly once, if the launch succeeds. -/
def Cuda.RunsThreads (cuda : Cuda) : Prop :=
  ∀ pass grid nthreads,
    (cuda.order pass grid nthreads).Perm (List.range grid ×ˢ List.range nthreads)

/-- Every call of a pass succeeds. -/
structure Cuda.PassSucceeds (cuda : Cuda) (pass : ℕ) : Prop where
  memsetAsync : cuda.memsetAsync pass = true
  launch : cuda.launch pass = true
  synchronize : cuda.synchronize pass = true
  memcpy : cuda.memcpy pass = true

theorem Cuda.Faithful.passSucceeds {cuda : Cuda} (h : cuda.Faithful) (pass : ℕ) :
    cuda.PassSucceeds pass :=
  ⟨h.memsetAsync pass, h.launch pass, h.synchronize pass, h.memcpy pass⟩

/-- A device without failures that runs threads by increasing index. -/
def Cuda.sequential : Cuda where
  getDeviceCount := some 1
  getDevice := some 0
  setDevice _ := true
  cudaMalloc := some fun _ ↦ 0#32
  malloc := true
  memsetAsync _ := true
  launch _ := true
  synchronize _ := true
  memcpy _ := true
  order _ grid nthreads := List.range grid ×ˢ List.range nthreads

theorem Cuda.faithful_sequential : Cuda.sequential.Faithful where
  getDeviceCount := ⟨1, rfl, by decide⟩
  getDevice := ⟨0, rfl⟩
  setDevice _ := rfl
  cudaMalloc := ⟨_, rfl⟩
  malloc := rfl
  memsetAsync _ := rfl
  launch _ := rfl
  synchronize _ := rfl
  memcpy _ := rfl
  order _ _ _ := List.Perm.refl _

/-- The return value and the out-parameters of the driver. -/
structure DriverOut where
  ret : Option Resultcode
  iterationsOut : ℕ
  nCheck : U32
  check : Key72
  found : Key72
  resL0 : Key72
  deriving DecidableEq, Repr

/-! ## Scanning a result vector -/

/-- The scan of one result word, with its `break` at an exact match. -/
def scanLanes (base : Key72) (done : ℕ) (word : U32) (j : ℕ) : List ℕ → DriverOut → DriverOut
  | [], out => out
  | k :: ks, out =>
    if word &&& 1#32 <<< (2 * k) ≠ 0#32 then
      let offset := HYUNJIN_PIPELINE * j + k
      let c := hyIncrementL0 base (BitVec.ofNat 32 offset)
      let out := { out with nCheck := out.nCheck + 1#32, check := c }
      if word &&& 2#32 <<< (2 * k) ≠ 0#32 then
        { out with found := c, iterationsOut := done + offset, ret := some .found }
      else scanLanes base done word j ks out
    else scanLanes base done word j ks out

def scanThreads (base : Key72) (done : ℕ) (hRes : DeviceMem) : List ℕ → DriverOut → DriverOut
  | [], out => out
  | j :: js, out =>
    if hRes j = 0#32 then scanThreads base done hRes js out
    else
      let out := scanLanes base done (hRes j) j (List.range HYUNJIN_PIPELINE) out
      if out.ret = some .found then out else scanThreads base done hRes js out

/-! ## The pass loop -/

def keysThisPass (nthreads : BlockThreads) (remain : ℕ) : ℕ :=
  if nthreads.val * MAX_GRID * HYUNJIN_PIPELINE < remain then
    nthreads.val * MAX_GRID * HYUNJIN_PIPELINE
  else remain

theorem keysThisPass_eq (nthreads : BlockThreads) (remain : ℕ) :
    keysThisPass nthreads remain = min (HYUNJIN_PIPELINE * (nthreads.val * MAX_GRID)) remain := by
  rw [keysThisPass, Nat.mul_comm (nthreads.val * MAX_GRID)]
  split_ifs <;> omega

/-- Threads launched when `remain` keys are left. -/
def threadsThisPass (nthreads : BlockThreads) (remain : ℕ) : ℕ :=
  (keysThisPass nthreads remain + HYUNJIN_PIPELINE - 1) / HYUNJIN_PIPELINE

theorem threadsThisPass_pos (nthreads : BlockThreads) {remain : ℕ} (h : 0 < remain) :
    0 < threadsThisPass nthreads remain := by
  have hn := nthreads.property.1
  rw [threadsThisPass, keysThisPass_eq, HYUNJIN_PIPELINE, MAX_GRID]
  omega

/-- What the driver reports when it leaves the pass loop. -/
def DriverOut.finish (out : DriverOut) (base : Key72) (done : ℕ) : DriverOut :=
  { out with
    resL0 := base
    iterationsOut := if out.ret = some .nothing then done else out.iterationsOut }

def passLoop (cuda : Cuda) (plain cypher : Block) (nthreads : BlockThreads) (iterationsIn : ℕ)
    (pass done : ℕ) (base : Key72) (dResults : DeviceMem) (out : DriverOut) : DriverOut :=
  if done < iterationsIn then
    let n := threadsThisPass nthreads (iterationsIn - done)
    let grid := (n + nthreads.val - 1) / nthreads.val
    if cuda.memsetAsync pass = false then { out with ret := none }.finish base done
    else
      let dResults : DeviceMem := fun i ↦ if i < n then 0#32 else dResults i
      if cuda.launch pass = false then { out with ret := none }.finish base done
      else
        let dResults := launch ⟨plain, cypher, base, n⟩ nthreads.val
          (cuda.order pass grid nthreads.val) dResults
        if cuda.synchronize pass = false then { out with ret := none }.finish base done
        else if cuda.memcpy pass = false then { out with ret := none }.finish base done
        else
          let out := scanThreads base done dResults (List.range n) out
          if out.ret = some .found then out.finish base done
          else
            passLoop cuda plain cypher nthreads iterationsIn (pass + 1)
              (done + n * HYUNJIN_PIPELINE)
              (hyIncrementL0 base (BitVec.ofNat 32 n * BitVec.ofNat 32 HYUNJIN_PIPELINE))
              dResults out
  else out.finish base done
termination_by iterationsIn - done
decreasing_by
  have hn := threadsThisPass_pos nthreads (Nat.sub_pos_of_lt ‹done < iterationsIn›)
  simp only [HYUNJIN_PIPELINE]
  omega

/-- The driver. The work requested is an `int64`; a negative one leaves the loop at once. -/
def hyunjinR72Run (cuda : Cuda) (plain cypher : Block) (l0 : Key72) (iterationsIn : ℤ)
    (device blockSize : ℤ) : DriverOut :=
  let out : DriverOut := ⟨some .nothing, 0, 0#32, ⟨0#32, 0#32, 0#32⟩, ⟨0#32, 0#32, 0#32⟩, l0⟩
  let failed := { out with ret := none }
  match cuda.getDeviceCount with
  | none => failed
  | some devCount =>
    if devCount ≤ 0 then failed
    else
      let device := if device < 0 ∨ devCount ≤ device then 0 else device
      match cuda.getDevice with
      | none => failed
      | some curdev =>
        if curdev ≠ device ∧ cuda.setDevice device = false then failed
        else
          let nthreads := clampThreads blockSize
          match cuda.cudaMalloc with
          | none => failed
          | some dResults =>
            if cuda.malloc = false then failed
            else passLoop cuda plain cypher nthreads iterationsIn.toNat 0 0 l0 dResults out

/-! ## The shim -/

def HYUNJIN_BLOCK_SIZE_DEFAULT : ℤ := 256

def rc572UnitFuncHyunjin (cuda : Cuda) (w : RC572UnitWork) (iterations : U32) : CoreReturn :=
  let out := hyunjinR72Run cuda w.plain w.cypher w.L0 iterations.toNat 0 HYUNJIN_BLOCK_SIZE_DEFAULT
  let w :=
    if out.nCheck ≠ 0#32 then
      { w with check := ⟨w.check.count + out.nCheck, out.check⟩ }
    else w
  match out.ret with
  | some .found =>
    ⟨some .found, { w with L0 := out.found }, BitVec.ofNat 32 out.iterationsOut⟩
  | some .nothing =>
    ⟨some .nothing, { w with L0 := out.resL0 }, BitVec.ofNat 32 out.iterationsOut⟩
  | some .working =>
    ⟨some .working, { w with L0 := out.resL0 }, BitVec.ofNat 32 out.iterationsOut⟩
  | none => ⟨none, w, iterations⟩

end Hyunjin
