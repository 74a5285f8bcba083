import Hyunjin.Core.Int64
import Hyunjin.Julia.Key

/-!
# The Julia port of the driver

The port has the kernel and the host loop of the CUDA driver in another language. The differences
are those of the language. Arrays start at 1. Conversions are checked, so a kernel or a driver may
raise an error, which is `none` here. `Int64` arithmetic wraps, and a sum of an `Int64` and a
`UInt32` is an `Int64`: `n_check` starts as a `UInt32` but is a 64-bit number after its first `+=
1`, where the driver's wraps at 32 bits.
-/

namespace Hyunjin.Julia

open Word Search
open scoped Table

/-- `Int64` arithmetic wraps. -/
def int64 (x : ℤ) : ℤ := x.bmod (2 ^ 64)

def PIPELINE : ℕ := 4

def BLOCK_SIZE : ℤ := 256

def MAX_GRID : ℤ := 65535

/-! ## The kernel -/

/-- Both methods of `hy_rotl`: the conversion of a masked amount cannot fail. -/
def hyRotl (x n : U32) : U32 :=
  let m := n &&& 31#32
  if m = 0#32 then x else (x <<< m.toNat) ||| (x >>> (32 - m.toNat))

/-- A step of the key expansion. -/
def mix (s : Schedule) : Schedule :=
  let A := hyRotl (getElem s.S s.i (Table.i_lt s) + s.A + s.B) 3#32
  let B := hyRotl (getElem s.L s.j (Table.j_lt s) + A + s.B) ((A + s.B) &&& 0x1F#32)
  { S := s.S.set s.i A (Table.i_lt s), L := s.L.set s.j B (Table.j_lt s), A := A, B := B,
    i := s.i + 1, j := s.j + 1 }

def expand (key : Key72) : Vector U32 26 :=
  (mix^[78] ⟨Vector.ofFn fun it ↦ RC5_P + BitVec.ofNat 32 it * RC5_Q,
    ⟨#[key.lo, key.mid, key.hi], Table.size_words key⟩, 0, 0, 0, 0⟩).S

/-- A round of the encryption. The table starts at 0 here and at 1 there. -/
def round (S : Vector U32 26) (b : Block) (i : Fin 12) : Block :=
  let A := hyRotl (b.lo ^^^ b.hi) (b.hi &&& 0x1F#32) + getElem S (2 + 2 * i.val) (Table.even_lt i)
  let B := hyRotl (b.hi ^^^ A) (A &&& 0x1F#32) + getElem S (3 + 2 * i.val) (Table.odd_lt i)
  ⟨B, A⟩

/-- The CPU reference, whose text is also that of the kernel. -/
def r72Encrypt (plain : Block) (key : Key72) : Block :=
  let S := expand key
  (List.finRange 12).foldl (round S) ⟨plain.hi + getElem S 1 Table.one_lt,
    plain.lo + getElem S 0 Table.zero_lt⟩

/-- `results[i] |= bits` -/
def orInto (results : DeviceMem) (i : ℕ) (bits : U32) : DeviceMem :=
  Function.update results i (results i ||| bits)

/-- Pass `k` through the loop of thread `idx`. -/
def kernelLane (a : KernelArgs) (idx : ℕ) (base : U32) (results : DeviceMem) (k : ℕ) :
    Option DeviceMem :=
  (hyIncrementL0 a.L0 (base + BitVec.ofNat 32 k)).map fun key ↦
    let c := r72Encrypt a.plain key
    if c.lo = a.cypher.lo then
      let results := orInto results (idx + 1) (1#32 <<< (2 * k))
      if c.hi = a.cypher.hi then orInto results (idx + 1) (2#32 <<< (2 * k)) else results
    else results

/-- The kernel, in the block and the thread with the given numbers, counted from 0. -/
def hyunjinR72Kernel (a : KernelArgs) (bd bx tx : ℕ) (results : DeviceMem) : Option DeviceMem :=
  let idx := bx * bd + tx
  if a.processAmount ≤ idx then some results
  else (toUnsigned 32 idx).bind fun idx32 ↦
    (List.range PIPELINE).foldlM (kernelLane a idx (idx32 * BitVec.ofNat 32 PIPELINE)) results

/-- A launch runs the threads of `order`, given by block and thread number, one after another. -/
def launch (a : KernelArgs) (bd : ℕ) (order : List (ℕ × ℕ)) (results : DeviceMem) :
    Option DeviceMem :=
  order.foldlM (fun results t ↦ hyunjinR72Kernel a bd t.1 t.2 results) results

/-! ## The driver -/

/-- What CUDA.jl answers: whether it works at all, whether the calls of a pass succeed, which raise
an error otherwise, and in which order a launch runs its threads. -/
structure CudaJl where
  functional : Bool
  succeeds : ℕ → Bool
  order : ℕ → ℕ → ℕ → List (ℕ × ℕ)

/-- Everything succeeds, and every thread of a launch runs exactly once. -/
structure CudaJl.Faithful (jl : CudaJl) : Prop where
  functional : jl.functional = true
  succeeds : ∀ pass, jl.succeeds pass = true
  order : ∀ pass grid nthreads,
    (jl.order pass grid nthreads).Perm (List.range grid ×ˢ List.range nthreads)

/-- A device that runs threads by increasing index. -/
def CudaJl.sequential : CudaJl where
  functional := true
  succeeds _ := true
  order _ grid nthreads := List.range grid ×ˢ List.range nthreads

theorem CudaJl.faithful_sequential : CudaJl.sequential.Faithful where
  functional := rfl
  succeeds _ := rfl
  order _ _ _ := List.Perm.refl _

/-- The tuple the driver returns; the status `-1` is `none`. -/
structure RunOut where
  ret : Option Resultcode
  iterationsOut : ℤ
  nCheck : ℤ
  check : Key72
  found : Key72
  resL0 : Key72
  deriving DecidableEq, Repr

/-- The scan of one result word, with its `break` at an exact match. -/
def scanLanes (base : Key72) (done : ℤ) (word : U32) (j : ℕ) : List ℕ → RunOut → Option RunOut
  | [], out => some out
  | k :: ks, out =>
    if word &&& 1#32 <<< (2 * k) ≠ 0#32 then
      let offset : ℤ := PIPELINE * (j - 1) + k
      (toUnsigned 32 offset).bind fun amount ↦
        (hyIncrementL0 base amount).bind fun t ↦
          let out := { out with nCheck := int64 (out.nCheck + 1), check := t }
          if word &&& 2#32 <<< (2 * k) ≠ 0#32 then
            some { out with found := t, iterationsOut := int64 (done + offset), ret := some .found }
          else scanLanes base done word j ks out
    else scanLanes base done word j ks out

def scanThreads (base : Key72) (done : ℤ) (hRes : DeviceMem) : List ℕ → RunOut → Option RunOut
  | [], out => some out
  | j :: js, out =>
    if hRes j = 0#32 then scanThreads base done hRes js out
    else
      (scanLanes base done (hRes j) j (List.range PIPELINE) out).bind fun out ↦
        if out.ret = some .found then some out else scanThreads base done hRes js out

/-- What the driver returns when it leaves the pass loop. -/
def RunOut.finish (out : RunOut) (base : Key72) (done : ℤ) : RunOut :=
  { out with
    resL0 := base
    iterationsOut := if out.ret = some .nothing then done else out.iterationsOut }

/-- Threads launched when `remain` keys are left. -/
def threadsThisPass (nthreads : BlockThreads) (remain : ℤ) : ℤ :=
  (min remain (nthreads.val * MAX_GRID * PIPELINE) + PIPELINE - 1).tdiv PIPELINE

def gridThisPass (nthreads : BlockThreads) (n : ℤ) : ℤ :=
  (n + nthreads.val - 1).tdiv nthreads.val

theorem int64_of_mem {x : ℤ} (hlo : -2 ^ 63 ≤ x) (hhi : x < 2 ^ 63) : int64 x = x :=
  Int.bmod_eq_of_le (by omega) (by omega)

/-- A quotient is positive only where it is that of the integers. -/
private theorem le_of_tdiv_pos {x d : ℤ} (hd : 0 < d) (h : 0 < x.tdiv d) :
    d ≤ x ∧ x.tdiv d = x / d := by
  have hx : 0 ≤ x := by
    by_contra hneg
    have hle : x.tdiv d ≤ 0 :=
      (Int.tdiv_le_tdiv hd (Int.not_le.mp hneg).le).trans_eq (Int.zero_tdiv d)
    exact absurd h (Int.not_lt.mpr hle)
  rw [Int.tdiv_eq_ediv_of_nonneg hx] at h ⊢
  exact ⟨(Int.le_ediv_iff_mul_le hd).mp h |>.trans' (by omega), rfl⟩

/-- As long as there is something to launch, less is left after the pass than before, even if `done`
wraps. -/
theorem int64_sub_lt (nthreads : BlockThreads) {iters64 done : ℤ}
    (hgrid : 0 < gridThisPass nthreads (threadsThisPass nthreads (int64 (iters64 - done)))) :
    (int64 (iters64 - int64 (done
      + threadsThisPass nthreads (int64 (iters64 - done)) * PIPELINE))).toNat
      < (int64 (iters64 - done)).toNat := by
  have hn := nthreads.property
  have hlt : int64 (iters64 - done) < 2 ^ 63 := Int.bmod_lt (by decide)
  have hleft (x : ℤ) : int64 (iters64 - int64 (done + x)) = int64 (int64 (iters64 - done) - x) := by
    rw [int64, int64, int64, int64, Int.sub_bmod_bmod, Int.bmod_sub_bmod, Int.sub_sub]
  rw [hleft]
  generalize int64 (iters64 - done) = remain at *
  have hthreads := (le_of_tdiv_pos (by omega) hgrid).1
  have hpos : 0 < threadsThisPass nthreads remain := by omega
  have hkeys := le_of_tdiv_pos (by decide) hpos
  rw [threadsThisPass, hkeys.2]
  rw [PIPELINE] at hkeys ⊢
  rw [int64_of_mem (by omega) (by omega)]
  omega

def passLoop (jl : CudaJl) (plain cypher : Block) (nthreads : BlockThreads) (iters64 : ℤ)
    (pass : ℕ) (done : ℤ) (base : Key72) (out : RunOut) : Option RunOut :=
  if done < iters64 then
    let n := threadsThisPass nthreads (int64 (iters64 - done))
    let grid := gridThisPass nthreads n
    -- a launch without blocks is an error
    if grid ≤ 0 then none
    else if jl.succeeds pass = false then none
    else
      (toUnsigned 32 n).bind fun amount ↦
        (launch ⟨plain, cypher, base, amount.toNat⟩ nthreads.val
          (jl.order pass grid.toNat nthreads.val) fun _ ↦ 0#32).bind fun hRes ↦
          (scanThreads base done hRes (List.range' 1 n.toNat) out).bind fun out ↦
            if out.ret = some .found then some (out.finish base done)
            else
              (toUnsigned 32 (n * PIPELINE)).bind fun amt ↦
                (hyIncrementL0 base amt).bind fun base ↦
                  passLoop jl plain cypher nthreads iters64 (pass + 1)
                    (int64 (done + n * PIPELINE)) base out
  else some (out.finish base done)
termination_by (int64 (iters64 - done)).toNat
decreasing_by exact int64_sub_lt nthreads (Int.not_le.mp ‹¬gridThisPass _ _ ≤ 0›)

def clampThreads (blockSize : ℤ) : BlockThreads :=
  ⟨(if blockSize < 32 then BLOCK_SIZE else if 1024 < blockSize then 1024 else blockSize).toNat, by
    have hdefault : BLOCK_SIZE = 256 := rfl
    grind⟩

/-- The driver. It checks that a device number is given, and uses the current device. -/
def hyunjinR72Run (jl : CudaJl) (plain cypher : Block) (l0 : Key72)
    (iterationsIn _device blockSize : ℤ) : Option RunOut :=
  if jl.functional = false then
    some ⟨none, 0, 0, ⟨0#32, 0#32, 0#32⟩, ⟨0#32, 0#32, 0#32⟩, ⟨0#32, 0#32, 0#32⟩⟩
  else
    (toSigned 64 blockSize).bind fun nthreads ↦
      (toSigned 64 iterationsIn).bind fun iters64 ↦
        passLoop jl plain cypher (clampThreads nthreads.toInt) iters64.toInt 0 0 l0
          ⟨some .nothing, 0, 0, ⟨0#32, 0#32, 0#32⟩, ⟨0#32, 0#32, 0#32⟩, l0⟩

end Hyunjin.Julia
