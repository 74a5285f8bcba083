import Hyunjin.Word.Bytes
import Mathlib.Algebra.BigOperators.Group.Finset.Basic
import Mathlib.Data.Nat.ModEq
import Mathlib.Tactic.Linarith
import Mathlib.Tactic.Ring

/-!
# The checksum of the tables

`fletcher16` adds up words, and the sums it has had, modulo `0xFFFF`, and reduces its two sums only
once in 360 words. What is written once here with an addition left open is the function of the
source with the addition that wraps, and `fletcher16Checked` with one that fails where a sum does
not fit.

`fletcher16_exact`: no addition ever wraps, and the halves of the result are the two sums.
-/

namespace Hyunjin

/-! ## The function -/

section

variable {m : Type → Type} [Monad m] (add : U32 → U32 → m U32)

/-- A turn of the inner loop. -/
def sumWord (sums : U32 × U32) (data : U16) : m (U32 × U32) := do
  let sum1 ← add sums.1 (data.setWidth 32)
  let sum2 ← add sums.2 sum1
  pure (sum1, sum2)

def foldSum (sum : U32) : m U32 := add (sum &&& 0xFFFF#32) (sum >>> 16)

def foldSums (sums : U32 × U32) : m (U32 × U32) := do
  let sum1 ← foldSum add sums.1
  let sum2 ← foldSum add sums.2
  pure (sum1, sum2)

/-- The outer loop, with a block of at most 360 words in a turn. -/
def sumBlocks (sums : U32 × U32) (datas : List U16) : m (U32 × U32) :=
  if datas = [] then pure sums
  else do
    let block ← (datas.take 360).foldlM (sumWord add) sums
    let folded ← foldSums add block
    sumBlocks folded (datas.drop 360)
termination_by datas.length
decreasing_by
  rw [List.length_drop]
  exact Nat.sub_lt (List.length_pos_of_ne_nil ‹_›) (by decide)

def fletcherWith (datas : List U16) : m U32 := do
  let sums ← sumBlocks add (0xFFFF#32, 0xFFFF#32) datas
  let sums ← foldSums add sums
  pure (sums.2 <<< 16 ||| sums.1)

end

/-- The addition of the machine. -/
def addWrapping (a b : U32) : Id U32 := a + b

/-- An addition that does not wrap. -/
def addChecked (a b : U32) : Option U32 := if a.toNat + b.toNat < 2 ^ 32 then some (a + b) else none

def fletcher16 (datas : List U16) : U32 := Id.run (fletcherWith addWrapping datas)

def fletcher16Checked (datas : List U16) : Option U32 := fletcherWith addChecked datas

/-! ## Sums that are not reduced -/

/-- The two sums, without bounds. -/
def exactSums (sums : ℕ × ℕ) (datas : List U16) : ℕ × ℕ :=
  datas.foldl (fun sums data ↦ (sums.1 + data.toNat, sums.2 + (sums.1 + data.toNat))) sums

theorem exactSums_cons (sums : ℕ × ℕ) (data : U16) (datas : List U16) :
    exactSums sums (data :: datas) =
      exactSums (sums.1 + data.toNat, sums.2 + (sums.1 + data.toNat)) datas := rfl

theorem exactSums_append (sums : ℕ × ℕ) (xs ys : List U16) :
    exactSums sums (xs ++ ys) = exactSums (exactSums sums xs) ys := List.foldl_append

theorem le_exactSums (sums : ℕ × ℕ) (datas : List U16) :
    sums.1 ≤ (exactSums sums datas).1 ∧ sums.2 ≤ (exactSums sums datas).2 := by
  induction datas generalizing sums with
  | nil => exact ⟨le_rfl, le_rfl⟩
  | cons data datas ih =>
    obtain ⟨h1, h2⟩ := ih (sums.1 + data.toNat, sums.2 + (sums.1 + data.toNat))
    rw [exactSums_cons]
    exact ⟨(Nat.le_add_right _ _).trans h1, (Nat.le_add_right _ _).trans h2⟩

/-- The most that `n` words can make of the sums. -/
theorem exactSums_le (sums : ℕ × ℕ) (datas : List U16) :
    (exactSums sums datas).1 ≤ sums.1 + 65535 * datas.length ∧
    2 * (exactSums sums datas).2 ≤ 2 * sums.2 + 2 * (datas.length * sums.1) +
      65535 * (datas.length * (datas.length + 1)) := by
  induction datas generalizing sums with
  | nil => simp [exactSums]
  | cons data datas ih =>
    have hdata : data.toNat ≤ 65535 := Nat.le_of_lt_succ data.isLt
    obtain ⟨h1, h2⟩ := ih (sums.1 + data.toNat, sums.2 + (sums.1 + data.toNat))
    rw [exactSums_cons, List.length_cons]
    have hmul : datas.length * data.toNat ≤ datas.length * 65535 := Nat.mul_le_mul_left _ hdata
    dsimp only at h1 h2
    constructor
    · omega
    · linarith

/-- Sums that are congruent stay so. -/
theorem exactSums_modEq {n : ℕ} {a b : ℕ × ℕ} (h1 : a.1 ≡ b.1 [MOD n]) (h2 : a.2 ≡ b.2 [MOD n])
    (datas : List U16) : (exactSums a datas).1 ≡ (exactSums b datas).1 [MOD n] ∧
      (exactSums a datas).2 ≡ (exactSums b datas).2 [MOD n] := by
  induction datas generalizing a b with
  | nil => exact ⟨h1, h2⟩
  | cons data datas ih =>
    have hsum : a.1 + data.toNat ≡ b.1 + data.toNat [MOD n] := h1.add_right _
    exact ih hsum (h2.add hsum)

/-- The first sum of the words before place `n`, and of the one it starts with. -/
def prefixSum (datas : List U16) (n : ℕ) : ℕ := 0xFFFF + ((datas.take n).map BitVec.toNat).sum

theorem exactSums_eq (datas : List U16) : exactSums (0xFFFF, 0xFFFF) datas =
    (prefixSum datas datas.length,
      0xFFFF + ∑ i ∈ Finset.range datas.length, prefixSum datas (i + 1)) := by
  induction datas using List.reverseRecOn with
  | nil => rfl
  | append_singleton datas data ih =>
    have hlast : prefixSum (datas ++ [data]) (datas.length + 1) =
        prefixSum datas datas.length + data.toNat := by
      rw [prefixSum, prefixSum, List.take_of_length_le (by simp), List.take_length,
        List.map_append, List.sum_append, List.map_singleton, List.sum_singleton, Nat.add_assoc]
    have hinit (i : ℕ) (hi : i < datas.length) :
        prefixSum (datas ++ [data]) (i + 1) = prefixSum datas (i + 1) := by
      rw [prefixSum, prefixSum, List.take_append_of_le_length hi]
    rw [exactSums_append, ih, List.length_append, List.length_singleton, hlast,
      Finset.sum_range_succ, hlast,
      Finset.sum_congr rfl fun i hi ↦ hinit i (Finset.mem_range.mp hi), ← Nat.add_assoc]
    rfl

/-! ## Blocks -/

/-- The sums that two words stand for. -/
def sumsOf (sums : U32 × U32) : ℕ × ℕ := (sums.1.toNat, sums.2.toNat)

/-- Two ways to make the same sums. -/
def Yields {α : Type} (checked : Option α) (wrapping : Id α) (a : α) : Prop :=
  checked = some a ∧ Id.run wrapping = a

theorem Yields.bind {α β : Type} {x : Option α} {y : Id α} {f : α → Option β} {g : α → Id β}
    {a : α} {b : β} (h : Yields x y a) (hb : Yields (f a) (g a) b) :
    Yields (x >>= f) (y >>= g) b := by
  obtain ⟨rfl, rfl⟩ := h
  exact hb

/-- An addition that fits is the same for both. -/
theorem yields_add {a b : U32} (h : a.toNat + b.toNat < 2 ^ 32) :
    Yields (addChecked a b) (addWrapping a b) (a + b) ∧ (a + b).toNat = a.toNat + b.toNat := by
  refine ⟨⟨if_pos h, rfl⟩, ?_⟩
  rw [BitVec.toNat_add, Nat.mod_eq_of_lt h]

/-- **A block is added up exactly** if its sums fit. -/
theorem yields_block {sums : U32 × U32} {datas : List U16}
    (h1 : (exactSums (sumsOf sums) datas).1 < 2 ^ 32)
    (h2 : (exactSums (sumsOf sums) datas).2 < 2 ^ 32) :
    ∃ block, sumsOf block = exactSums (sumsOf sums) datas ∧
      Yields (datas.foldlM (sumWord addChecked) sums) (datas.foldlM (sumWord addWrapping) sums)
        block := by
  induction datas generalizing sums with
  | nil => exact ⟨sums, rfl, rfl, rfl⟩
  | cons data datas ih =>
    rw [exactSums_cons] at h1 h2
    obtain ⟨hle1, hle2⟩ := le_exactSums
      (sums.1.toNat + data.toNat, sums.2.toNat + (sums.1.toNat + data.toNat)) datas
    have hdata : (data.setWidth 32).toNat = data.toNat := BitVec.toNat_setWidth_of_le (by decide)
    obtain ⟨hadd1, hnat1⟩ := yields_add (a := sums.1) (b := data.setWidth 32)
      (by rw [hdata]; exact hle1.trans_lt h1)
    obtain ⟨hadd2, hnat2⟩ := yields_add (a := sums.2) (b := sums.1 + data.setWidth 32)
      (by rw [hnat1, hdata]; exact hle2.trans_lt h2)
    rw [hnat1, hdata] at hnat2
    rw [hdata] at hnat1
    have hsums : sumsOf (sums.1 + data.setWidth 32, sums.2 + (sums.1 + data.setWidth 32)) =
        (sums.1.toNat + data.toNat, sums.2.toNat + (sums.1.toNat + data.toNat)) := by
      rw [sumsOf, hnat1, hnat2]
    obtain ⟨block, hblock, hrun⟩ := ih (by rw [hsums]; exact h1) (by rw [hsums]; exact h2)
    refine ⟨block, by rw [hblock, hsums]; rfl, ?_⟩
    rw [List.foldlM_cons, List.foldlM_cons]
    exact Yields.bind (hadd1.bind (hadd2.bind ⟨rfl, rfl⟩)) hrun

/-! ## Reductions -/

/-- What is left of a sum when its halves are added. -/
def reduced (n : ℕ) : ℕ := n % 65536 + n / 65536

theorem reduced_modEq (n : ℕ) : reduced n ≡ n [MOD 65535] := by
  rw [reduced, Nat.ModEq]
  omega

theorem reduced_pos {n : ℕ} (h : 0 < n) : 0 < reduced n := by
  rw [reduced]
  omega

theorem reduced_le {n k : ℕ} (h : n / 65536 ≤ k) : reduced n ≤ 65535 + k := by
  rw [reduced]
  omega

theorem yields_foldSum (sum : U32) : ∃ folded, folded.toNat = reduced sum.toNat ∧
    Yields (foldSum addChecked sum) (foldSum addWrapping sum) folded := by
  have hlt := sum.isLt
  have hlow : (sum &&& 0xFFFF#32).toNat = sum.toNat % 65536 := by
    rw [BitVec.toNat_and]
    exact Nat.and_two_pow_sub_one_eq_mod sum.toNat 16
  have hhigh : (sum >>> 16).toNat = sum.toNat / 65536 := by
    rw [BitVec.toNat_ushiftRight, Nat.shiftRight_eq_div_pow]
  obtain ⟨hadd, hnat⟩ := yields_add (a := sum &&& 0xFFFF#32) (b := sum >>> 16)
    (by rw [hlow, hhigh]; omega)
  rw [hlow, hhigh] at hnat
  exact ⟨_, hnat, hadd⟩

theorem yields_foldSums (sums : U32 × U32) : ∃ folded,
    sumsOf folded = (reduced sums.1.toNat, reduced sums.2.toNat) ∧
      Yields (foldSums addChecked sums) (foldSums addWrapping sums) folded := by
  obtain ⟨sum1, h1, hrun1⟩ := yields_foldSum sums.1
  obtain ⟨sum2, h2, hrun2⟩ := yields_foldSum sums.2
  exact ⟨(sum1, sum2), by rw [sumsOf, h1, h2], hrun1.bind (hrun2.bind ⟨rfl, rfl⟩)⟩

/-- Sums that have been reduced after a block, with what they are congruent to. -/
structure Folded (sums exact : ℕ × ℕ) : Prop where
  pos1 : 0 < sums.1
  pos2 : 0 < sums.2
  le1 : sums.1 ≤ 65896
  le2 : sums.2 ≤ 131070
  modEq1 : sums.1 ≡ exact.1 [MOD 65535]
  modEq2 : sums.2 ≡ exact.2 [MOD 65535]

/-- **The second sum of a block fits**: `131070 + 360 * 65896 + 65535 * 360 * 361 / 2` is just less
than `2 ^ 32`. -/
theorem Folded.block_le {sums exact : ℕ × ℕ} (h : Folded sums exact) {datas : List U16}
    (hlen : datas.length ≤ 360) :
    (exactSums sums datas).1 ≤ 23658496 ∧ (exactSums sums datas).2 ≤ 4282317930 := by
  obtain ⟨h1, h2⟩ := exactSums_le sums datas
  have hle1 := h.le1
  have hle2 := h.le2
  have hmul : datas.length * sums.1 ≤ 360 * 65896 := Nat.mul_le_mul hlen hle1
  have hsq : datas.length * (datas.length + 1) ≤ 360 * 361 :=
    Nat.mul_le_mul hlen (Nat.succ_le_succ hlen)
  constructor <;> omega

theorem Folded.block {sums exact : ℕ × ℕ} (h : Folded sums exact) {datas : List U16}
    (hlen : datas.length ≤ 360) :
    Folded (reduced (exactSums sums datas).1, reduced (exactSums sums datas).2)
      (exactSums exact datas) := by
  obtain ⟨h1, h2⟩ := h.block_le hlen
  obtain ⟨hpos1, hpos2⟩ := le_exactSums sums datas
  obtain ⟨hmod1, hmod2⟩ := exactSums_modEq h.modEq1 h.modEq2 datas
  exact {
    pos1 := reduced_pos (h.pos1.trans_le hpos1)
    pos2 := reduced_pos (h.pos2.trans_le hpos2)
    le1 := reduced_le (k := 361) (by omega)
    le2 := reduced_le (k := 65535) (by omega)
    modEq1 := (reduced_modEq _).trans hmod1
    modEq2 := (reduced_modEq _).trans hmod2 }

/-- **All blocks are added up exactly**, and the sums are reduced again behind each. -/
theorem yields_sumBlocks {sums : U32 × U32} {exact : ℕ × ℕ} (h : Folded (sumsOf sums) exact)
    (datas : List U16) : ∃ total, Folded (sumsOf total) (exactSums exact datas) ∧
      Yields (sumBlocks addChecked sums datas) (sumBlocks addWrapping sums datas) total := by
  induction hn : datas.length using Nat.strong_induction_on generalizing sums exact datas with
  | _ n ih =>
    rw [sumBlocks, sumBlocks]
    by_cases hnil : datas = []
    · rw [if_pos hnil, if_pos hnil, hnil]
      exact ⟨sums, h, rfl, rfl⟩
    · have hpos := List.length_pos_of_ne_nil hnil
      have htake : (datas.take 360).length ≤ 360 := List.length_take_le _ _
      obtain ⟨hle1, hle2⟩ := h.block_le htake
      obtain ⟨block, hblock, hrun⟩ := yields_block (hle1.trans_lt (by decide))
        (hle2.trans_lt (by decide))
      obtain ⟨folded, hfolded, hfold⟩ := yields_foldSums block
      have hinv := h.block htake
      rw [← hblock] at hinv
      rw [sumsOf] at hinv
      rw [← hfolded] at hinv
      obtain ⟨total, htotal, hrest⟩ := ih (datas.drop 360).length
        (by rw [List.length_drop]; omega) hinv (datas.drop 360) rfl
      rw [← exactSums_append, List.take_append_drop] at htotal
      rw [if_neg hnil, if_neg hnil]
      exact ⟨total, htotal, hrun.bind (hfold.bind hrest)⟩

/-! ## The checksum -/

/-- **The checksum is exact**: no addition wraps, and its halves are the sums of the words and of
the prefix sums modulo `0xFFFF`, as numbers that are not zero. -/
theorem fletcher16_exact (datas : List U16) :
    fletcher16Checked datas = some (fletcher16 datas) ∧
    (fletcher16 datas).toNat % 2 ^ 16 ≡ prefixSum datas datas.length [MOD 65535] ∧
    (fletcher16 datas).toNat / 2 ^ 16 ≡
      0xFFFF + ∑ i ∈ Finset.range datas.length, prefixSum datas (i + 1) [MOD 65535] ∧
    (fletcher16 datas).toNat % 2 ^ 16 ∈ Set.Icc 1 0xFFFF ∧
    (fletcher16 datas).toNat / 2 ^ 16 ∈ Set.Icc 1 0xFFFF := by
  have hinit : Folded (sumsOf (0xFFFF#32, 0xFFFF#32)) (0xFFFF, 0xFFFF) :=
    ⟨by decide, by decide, by decide, by decide, rfl, rfl⟩
  obtain ⟨total, htotal, hrun⟩ := yields_sumBlocks hinit datas
  obtain ⟨folded, hfolded, hfold⟩ := yields_foldSums total
  obtain ⟨hchecked, hwrapping⟩ : Yields (fletcher16Checked datas) (fletcherWith addWrapping datas)
      (folded.2 <<< 16 ||| folded.1) := hrun.bind (hfold.bind ⟨rfl, rfl⟩)
  have hresult : fletcher16 datas = folded.2 <<< 16 ||| folded.1 := hwrapping
  have h1 : folded.1.toNat = reduced total.1.toNat := congrArg Prod.fst hfolded
  have h2 : folded.2.toNat = reduced total.2.toNat := congrArg Prod.snd hfolded
  have hle1 : folded.1.toNat ≤ 65535 := by
    have := htotal.le1
    rw [h1, reduced]
    simp only [sumsOf] at this
    omega
  have hle2 : folded.2.toNat ≤ 65535 := by
    have := htotal.le2
    rw [h2, reduced]
    simp only [sumsOf] at this
    omega
  have hnat : (fletcher16 datas).toNat = folded.2.toNat * 65536 + folded.1.toNat := by
    rw [hresult, BitVec.toNat_or, BitVec.toNat_shiftLeft, Nat.shiftLeft_eq,
      Nat.mod_eq_of_lt (by omega), ← Nat.shiftLeft_eq,
      Nat.shiftLeft_add_eq_or_of_lt (i := 16) (by omega), Nat.shiftLeft_eq]
  have hlow : (fletcher16 datas).toNat % 2 ^ 16 = folded.1.toNat := by omega
  have hhigh : (fletcher16 datas).toNat / 2 ^ 16 = folded.2.toNat := by omega
  have hmod1 := (reduced_modEq _).trans htotal.modEq1
  have hmod2 := (reduced_modEq _).trans htotal.modEq2
  rw [exactSums_eq] at hmod1 hmod2
  rw [hlow, hhigh, hchecked, hresult, h1, h2]
  rw [h1] at hle1
  rw [h2] at hle2
  exact ⟨rfl, hmod1, hmod2, ⟨reduced_pos htotal.pos1, hle1⟩, ⟨reduced_pos htotal.pos2, hle2⟩⟩

end Hyunjin
