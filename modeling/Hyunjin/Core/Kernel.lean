import Hyunjin.Core.RC5
import Mathlib.Tactic.DeriveFintype

/-!
# The CUDA kernel and one launch of it

A launch runs one thread for every pair of a block index and a thread index. Thread `idx` tests the
`HYUNJIN_PIPELINE` keys `base + 4 · idx + k` and ORs two bits a key into `results[idx]`: bit `2k`
for a partial match and bit `2k + 1` for an exact one. Threads share nothing else, so the order in
which the device runs them is an arbitrary list, and a launch is the fold of the kernel over that
list.

`launch_apply` says what a launch leaves in device memory: in the word of every thread that has
work, the packed verdicts of its keys, whatever the order of the threads.
-/

namespace Hyunjin

open Word Search

/-- Consecutive keys tested by each thread. -/
def HYUNJIN_PIPELINE : ℕ := 4

/-- The kernel's arguments other than the result buffer. -/
structure KernelArgs where
  plain : Block
  cypher : Block
  L0 : Key72
  processAmount : ℕ

/-- Device memory behind `d_results`, by index. -/
abbrev DeviceMem := ℕ → U32

def atomicOr (results : DeviceMem) (idx : ℕ) (bits : U32) : DeviceMem :=
  Function.update results idx (results idx ||| bits)

/-- Pass `k` through the loop of thread `idx`. -/
def kernelLane (a : KernelArgs) (idx : ℕ) (results : DeviceMem) (k : ℕ) : DeviceMem :=
  let base : U32 := BitVec.ofNat 32 idx * BitVec.ofNat 32 HYUNJIN_PIPELINE
  let key := hyIncrementL0 a.L0 (base + BitVec.ofNat 32 k)
  let c := hyEncrypt a.plain key
  if c.lo = a.cypher.lo then
    let results := atomicOr results idx (1#32 <<< (2 * k))
    if c.hi = a.cypher.hi then atomicOr results idx (2#32 <<< (2 * k)) else results
  else results

def hyunjinR72Kernel (a : KernelArgs) (blockDim blockIdx threadIdx : ℕ) (results : DeviceMem) :
    DeviceMem :=
  let idx := blockIdx * blockDim + threadIdx
  if a.processAmount ≤ idx then results
  else (List.range HYUNJIN_PIPELINE).foldl (kernelLane a idx) results

/-- A launch runs the threads of `order`, given by block and thread index, one after another. -/
def launch (a : KernelArgs) (blockDim : ℕ) (order : List (ℕ × ℕ)) (results : DeviceMem) :
    DeviceMem :=
  order.foldl (fun results t ↦ hyunjinR72Kernel a blockDim t.1 t.2 results) results

/-! ## Packed verdicts -/

/-- The two result bits of a key. -/
def Search.Verdict.bits : Verdict → U32
  | .miss => 0#32
  | .near => 1#32
  | .hit => 3#32

/-- The result word of a thread whose key `k` has verdict `v k`. -/
def laneWord (v : ℕ → Verdict) : U32 :=
  (List.range HYUNJIN_PIPELINE).foldl (fun word k ↦ word ||| (v k).bits <<< (2 * k)) 0#32

theorem getLsbD_bits_zero (v : Verdict) : v.bits.getLsbD 0 = decide (v ≠ .miss) := by
  cases v <;> rfl

theorem getLsbD_bits_one (v : Verdict) : v.bits.getLsbD 1 = decide (v = .hit) := by
  cases v <;> rfl

private theorem getLsbD_bits_of_le (v : Verdict) {i : ℕ} (h : 2 ≤ i) : v.bits.getLsbD i
    = false := by
  have hlt : v.bits.toNat < 2 ^ i := by
    have h4 : v.bits.toNat < 2 ^ 2 := by cases v <;> decide
    exact h4.trans_le (Nat.pow_le_pow_right (by omega) h)
  exact Nat.testBit_lt_two_pow hlt

/-- The bits of one key in a result word stand clear of those of the others. -/
private theorem getLsbD_bits_shiftLeft (v : Verdict) {j k b : ℕ} (hk : k < 16) (hb : b < 2) :
    (v.bits <<< (2 * j)).getLsbD (2 * k + b) = (decide (j = k) && v.bits.getLsbD b) := by
  rw [BitVec.getLsbD_shiftLeft]
  rcases Nat.lt_trichotomy j k with hjk | rfl | hjk
  · rw [getLsbD_bits_of_le v (by omega)]
    simp [Nat.ne_of_lt hjk]
  · have hlt : 2 * j + b < 32 := by omega
    simp [hlt]
  · have hlt : 2 * k + b < 2 * j := by omega
    simp [hlt, Nat.ne_of_gt hjk]

private theorem foldl_or (f : ℕ → U32) (l : List ℕ) (w : U32) :
    l.foldl (fun word k ↦ word ||| f k) w = w ||| l.foldl (fun word k ↦ word ||| f k) 0#32 := by
  induction l generalizing w with
  | nil => simp
  | cons k l ih => rw [List.foldl_cons, List.foldl_cons, ih, ih (0#32 ||| f k), BitVec.zero_or,
      BitVec.or_assoc]

private theorem getLsbD_foldl_or (f : ℕ → U32) (l : List ℕ) (i : ℕ) :
    (l.foldl (fun word k ↦ word ||| f k) 0#32).getLsbD i = l.any fun k ↦ (f k).getLsbD i := by
  induction l with
  | nil => simp
  | cons k l ih => rw [List.foldl_cons, foldl_or, BitVec.getLsbD_or, ih, BitVec.zero_or,
      List.any_cons]

theorem getLsbD_laneWord (v : ℕ → Verdict) {k b : ℕ} (hk : k < HYUNJIN_PIPELINE) (hb : b < 2) :
    (laneWord v).getLsbD (2 * k + b) = (v k).bits.getLsbD b := by
  have hk' : k < 16 := hk.trans (by decide)
  rw [laneWord, getLsbD_foldl_or, Bool.eq_iff_iff, List.any_eq_true]
  simp only [getLsbD_bits_shiftLeft _ hk' hb, List.mem_range]
  constructor
  · rintro ⟨j, -, hj⟩
    obtain ⟨hjk, hbit⟩ := (Bool.and_eq_true _ _).mp hj
    rwa [of_decide_eq_true hjk] at hbit
  · intro hbit
    exact ⟨k, hk, by simpa using hbit⟩

private theorem and_shiftLeft_one_ne_zero (x : U32) {i : ℕ} (hi : i < 32) :
    x &&& 1#32 <<< i ≠ 0#32 ↔ x.getLsbD i = true := by
  have hbit (n : ℕ) (hn : n < 32) :
      (x &&& 1#32 <<< i).getLsbD n = (decide (n = i) && x.getLsbD i) := by
    rw [BitVec.getLsbD_and, BitVec.getLsbD_shiftLeft, BitVec.getLsbD_one]
    rcases Nat.lt_trichotomy n i with h | rfl | h
    · simp [h, Nat.ne_of_lt h]
    · simp [hn]
    · have hsub : n - i ≠ 0 := by omega
      simp [hsub, Nat.ne_of_gt h]
  constructor
  · intro hne
    by_contra hx
    refine hne (BitVec.eq_of_getLsbD_eq fun n hn ↦ ?_)
    rw [hbit n hn, Bool.eq_false_of_not_eq_true hx, Bool.and_false, BitVec.getLsbD_zero]
  · intro hx h0
    have := hbit i hi
    rw [h0, hx] at this
    simp at this

/-- The host's test for a partial match. -/
theorem laneWord_and_one (v : ℕ → Verdict) {k : ℕ} (hk : k < HYUNJIN_PIPELINE) :
    laneWord v &&& 1#32 <<< (2 * k) ≠ 0#32 ↔ v k ≠ .miss := by
  have hlt : 2 * k < 32 := by rw [HYUNJIN_PIPELINE] at hk; omega
  rw [and_shiftLeft_one_ne_zero _ hlt]
  have := getLsbD_laneWord v hk (b := 0) (by decide)
  rw [Nat.add_zero] at this
  rw [this, getLsbD_bits_zero, decide_eq_true_iff]

/-- The host's test for an exact match. -/
theorem laneWord_and_two (v : ℕ → Verdict) {k : ℕ} (hk : k < HYUNJIN_PIPELINE) :
    laneWord v &&& 2#32 <<< (2 * k) ≠ 0#32 ↔ v k = .hit := by
  have hlt : 2 * k + 1 < 32 := by rw [HYUNJIN_PIPELINE] at hk; omega
  have htwo : 2#32 <<< (2 * k) = 1#32 <<< (2 * k + 1) := by
    rw [Nat.add_comm, BitVec.shiftLeft_add]
    rfl
  rw [htwo, and_shiftLeft_one_ne_zero _ hlt, getLsbD_laneWord v hk (by decide), getLsbD_bits_one,
    decide_eq_true_iff]

/-! ## What a launch leaves in memory -/

/-- The verdict of lane `k` of thread `idx`. -/
def KernelArgs.lane (a : KernelArgs) (idx k : ℕ) : Verdict :=
  verdict a.plain a.cypher
    (hyIncrementL0 a.L0 (BitVec.ofNat 32 idx * BitVec.ofNat 32 HYUNJIN_PIPELINE + BitVec.ofNat
      32 k))

theorem kernelLane_self (a : KernelArgs) (idx : ℕ) (results : DeviceMem) (k : ℕ) :
    kernelLane a idx results k idx = results idx ||| (a.lane idx k).bits <<< (2 * k) := by
  have hhit : results idx ||| 1#32 <<< (2 * k) ||| 2#32 <<< (2 * k)
      = results idx ||| 3#32 <<< (2 * k) := by
    rw [BitVec.or_assoc, ← BitVec.shiftLeft_or_distrib]
    rfl
  simp only [kernelLane, KernelArgs.lane, verdict, hyEncrypt_eq]
  split_ifs <;> simp [atomicOr, Search.Verdict.bits, hhit]

theorem kernelLane_of_ne (a : KernelArgs) {idx j : ℕ} (h : j ≠ idx) (results : DeviceMem) (k : ℕ) :
    kernelLane a idx results k j = results j := by
  simp only [kernelLane, atomicOr]
  split_ifs <;> simp [Function.update_of_ne h]

theorem kernel_apply (a : KernelArgs) (blockDim blockIdx threadIdx : ℕ) (results : DeviceMem)
    (j : ℕ) : hyunjinR72Kernel a blockDim blockIdx threadIdx results j =
      if blockIdx * blockDim + threadIdx = j ∧ j < a.processAmount then
        results j ||| laneWord (a.lane j)
      else results j := by
  have hself (l : List ℕ) (results : DeviceMem) (idx : ℕ) :
      l.foldl (kernelLane a idx) results idx
        = l.foldl (fun word k ↦ word ||| (a.lane idx k).bits <<< (2 * k)) (results idx) := by
    induction l generalizing results with
    | nil => rfl
    | cons k l ih => rw [List.foldl_cons, List.foldl_cons, ih, kernelLane_self]
  have hother (l : List ℕ) (results : DeviceMem) {idx : ℕ} (h : j ≠ idx) :
      l.foldl (kernelLane a idx) results j = results j := by
    induction l generalizing results with
    | nil => rfl
    | cons k l ih => rw [List.foldl_cons, ih, kernelLane_of_ne a h]
  simp only [hyunjinR72Kernel]
  generalize blockIdx * blockDim + threadIdx = idx
  by_cases hidx : a.processAmount ≤ idx
  · have hno : ¬(idx = j ∧ j < a.processAmount) := by omega
    rw [if_pos hidx, if_neg hno]
  · rw [if_neg hidx]
    by_cases hj : idx = j
    · subst hj
      rw [if_pos ⟨rfl, Nat.lt_of_not_le hidx⟩, hself, foldl_or, laneWord]
    · rw [if_neg fun h ↦ hj h.1, hother _ _ (Ne.symm hj)]

/-- **A launch packs the verdicts of every thread it runs**, in whatever order it runs them. -/
theorem launch_apply (a : KernelArgs) (blockDim : ℕ) (order : List (ℕ × ℕ)) (results : DeviceMem)
    (j : ℕ) : launch a blockDim order results j =
      if (∃ t ∈ order, t.1 * blockDim + t.2 = j) ∧ j < a.processAmount then
        results j ||| laneWord (a.lane j)
      else results j := by
  induction order generalizing results with
  | nil => simp [launch]
  | cons t order ih =>
    rw [launch, List.foldl_cons, ← launch, ih, kernel_apply]
    have hcons : (∃ t' ∈ t :: order, t'.1 * blockDim + t'.2 = j) ↔
        t.1 * blockDim + t.2 = j ∨ ∃ t' ∈ order, t'.1 * blockDim + t'.2 = j :=
      List.exists_mem_cons_iff ..
    -- a thread that ran twice would only OR the same word again
    have hidem : results j ||| laneWord (a.lane j) ||| laneWord (a.lane j)
        = results j ||| laneWord (a.lane j) := by rw [BitVec.or_assoc, BitVec.or_self]
    by_cases hj : j < a.processAmount <;> by_cases ht : t.1 * blockDim + t.2 = j <;>
      simp only [hcons, hj, ht, hidem, and_true, and_false, true_or, false_or, if_true, if_false,
        ite_self]

end Hyunjin
