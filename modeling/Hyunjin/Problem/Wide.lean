import Hyunjin.Problem.State
import Hyunjin.Word.LongArith
import Mathlib.Data.ZMod.Basic

/-!
# 64-bit arithmetic in two words

Progress, rates and stats units are computed on 64-bit integers in two words. Where a long has 64
bits the words are put together and the machine multiplies and divides. Where it has 32 bits only,
`__u64mul` and `__u64div` go bit by bit, with carries and borrows between the words.

The loops over words simulate those over numbers in `LongArith`: a sum and a doubling are those of
integers modulo `2 ^ 64`, a difference and a half are exact where they are used. Both ways give the
same words on all operands, division by zero included.
-/

namespace Hyunjin

open Word LongArith

namespace Block

/-! ## Steps on two words -/

/-- A sum, with the carry out of the low words. -/
def add (r a : Block) : Block :=
  let lo := r.lo + a.lo
  ⟨(if lo < r.lo then r.hi + 1#32 else r.hi) + a.hi, lo⟩

/-- A difference, with the borrow into the low words. -/
def sub (n d : Block) : Block :=
  let t := n.lo - d.lo
  ⟨if n.lo < t then n.hi - d.hi - 1#32 else n.hi - d.hi, t⟩

/-- One bit to the left. -/
def shl (a : Block) : Block := ⟨a.hi <<< 1 ||| a.lo >>> 31, a.lo <<< 1⟩

/-- One bit to the right. -/
def shr (a : Block) : Block := ⟨a.hi >>> 1, a.lo >>> 1 ||| a.hi <<< 31⟩

/-- The words of an integer, which keep its 64 low bits. -/
def ofInt (n : ℕ) : Block := ⟨BitVec.ofNat 32 (n / 2 ^ 32), BitVec.ofNat 32 n⟩

theorem int_ofInt (n : ℕ) : (ofInt n).int = n % 2 ^ 64 := by
  simp only [int, ofInt, BitVec.toNat_ofNat]
  omega

theorem int_inj {a b : Block} : a.int = b.int ↔ a = b := by
  refine ⟨fun h ↦ ?_, congrArg int⟩
  have ha := a.lo.isLt; have hb := b.lo.isLt
  simp only [int] at h
  have hhi : a.hi = b.hi := BitVec.eq_of_toNat_eq (by omega)
  have hlo : a.lo = b.lo := BitVec.eq_of_toNat_eq (by omega)
  cases a; cases b
  exact Block.mk.injEq .. ▸ ⟨hhi, hlo⟩

theorem int_add (r a : Block) : (r.add a).int = (r.int + a.int) % 2 ^ 64 := by
  have hr := r.lo.isLt; have ha := a.lo.isLt
  simp only [add, int, BitVec.lt_def]
  split_ifs with h <;> simp only [BitVec.toNat_add, BitVec.toNat_ofNat] at h ⊢ <;> omega

theorem int_sub {n d : Block} (h : d.int ≤ n.int) : (n.sub d).int = n.int - d.int := by
  have hn := n.lo.isLt; have hd := d.lo.isLt
  have hnh := n.hi.isLt; have hdh := d.hi.isLt
  simp only [int] at h
  simp only [sub, int, BitVec.lt_def]
  split_ifs with hb <;> simp only [BitVec.toNat_sub, BitVec.toNat_ofNat] at hb ⊢ <;> omega

theorem toNat_or_of_and {x y : U32} (h : x &&& y = 0#32) :
    (x ||| y).toNat = (x.toNat + y.toNat) % 2 ^ 32 := by
  rw [← BitVec.add_eq_or_of_and_eq_zero x y h, BitVec.toNat_add]

theorem int_shl (a : Block) : a.shl.int = 2 * a.int % 2 ^ 64 := by
  have hl := a.lo.isLt
  have hand : a.hi <<< 1 &&& a.lo >>> 31 = 0#32 := by
    ext i hi
    simp
    grind
  simp only [shl, int, toNat_or_of_and hand, BitVec.toNat_shiftLeft, BitVec.toNat_ushiftRight,
    Nat.shiftLeft_eq, Nat.shiftRight_eq_div_pow]
  omega

theorem int_shr (a : Block) : a.shr.int = a.int / 2 := by
  have hl := a.lo.isLt; have hh := a.hi.isLt
  have hand : a.lo >>> 1 &&& a.hi <<< 31 = 0#32 := by
    ext i hi
    simp
    grind
  simp only [shr, int, toNat_or_of_and hand, BitVec.toNat_shiftLeft, BitVec.toNat_ushiftRight,
    Nat.shiftLeft_eq, Nat.shiftRight_eq_div_pow]
  omega

/-- The low bit of an integer that was shifted to the left is free. -/
theorem int_or_one (a : Block) : (⟨a.shl.hi, a.shl.lo ||| 1#32⟩ : Block).int = a.shl.int + 1 := by
  have hand : a.lo <<< 1 &&& 1#32 = 0#32 := by
    ext i hi
    simp
    grind
  simp only [int, shl, toNat_or_of_and hand, BitVec.toNat_shiftLeft, BitVec.toNat_ofNat,
    Nat.shiftLeft_eq]
  omega

/-- The comparison of two-word integers as the source writes it. -/
theorem le_iff (n d : Block) :
    n.hi < d.hi ∨ n.hi = d.hi ∧ n.lo ≤ d.lo ↔ n.int ≤ d.int := by
  have hn := n.lo.isLt; have hd := d.lo.isLt
  simp only [int, BitVec.lt_def, BitVec.le_def, ← BitVec.toNat_inj]
  omega

theorem lt_iff (n d : Block) :
    n.hi < d.hi ∨ n.hi = d.hi ∧ n.lo < d.lo ↔ n.int < d.int := by
  have hn := n.lo.isLt; have hd := d.lo.isLt
  simp only [int, BitVec.lt_def, ← BitVec.toNat_inj]
  omega

end Block

open Block

/-! ## The two ways to compute -/

/-- `__u64mul` with 64-bit longs. -/
def u64mulNative (a b : Block) : Block :=
  let d : U64 := (a.hi.setWidth 64 <<< 32) + a.lo.setWidth 64
  let r : U64 := ((b.hi.setWidth 64 <<< 32) + b.lo.setWidth 64) * d
  ⟨(r >>> 32).setWidth 32, r.setWidth 32⟩

/-- `__u64mul` with 32-bit longs: long multiplication using shift and add. -/
def u64mulLoop : ℕ → Block → Block → Block → Option Block
  | 0, _, _, _ => none
  | fuel + 1, r, a, b =>
    if b.hi ≠ 0#32 ∨ b.lo ≠ 0#32 then
      u64mulLoop fuel (if b.lo &&& 1#32 ≠ 0#32 then r.add a else r) a.shl b.shr
    else some r

def u64mulLong (fuel : ℕ) (a b : Block) : Option Block :=
  u64mulLoop fuel ⟨0#32, 0#32⟩ a b

/-- Quotient and remainder of `__u64div` with 64-bit longs. Division by zero is treated as division
by an extremely small number. -/
def u64divNative (numer denom : Block) : Block × Block :=
  if denom.hi = 0#32 ∧ denom.lo = 0#32 then (numer, ⟨0#32, 0#32⟩)
  else
    let n : U64 := (numer.hi.setWidth 64 <<< 32) + numer.lo.setWidth 64
    let d : U64 := (denom.hi.setWidth 64 <<< 32) + denom.lo.setWidth 64
    (⟨((n / d) >>> 32).setWidth 32, (n / d).setWidth 32⟩,
      ⟨((n % d) >>> 32).setWidth 32, (n % d).setWidth 32⟩)

/-- Shift the divisor up until it is not below the dividend or its top bit is set. -/
def u64divScale (n : Block) : ℕ → Block → ℕ → Option (Block × ℕ)
  | 0, _, _ => none
  | fuel + 1, d, count =>
    if d.hi &&& 0x80000000#32 = 0#32 then
      if n.hi < d.hi ∨ n.hi = d.hi ∧ n.lo ≤ d.lo then some (d, count)
      else u64divScale n fuel d.shl (count + 1)
    else some (d, count)

/-- One round for each bit of the quotient. -/
def u64divLoop : ℕ → Block → Block → Block → Block × Block
  | 0, n, _, q => (q, n)
  | count + 1, n, d, q =>
    let q := q.shl
    if d.hi < n.hi ∨ n.hi = d.hi ∧ d.lo ≤ n.lo then
      u64divLoop count (n.sub d) d.shr ⟨q.hi, q.lo ||| 1#32⟩
    else u64divLoop count n d.shr q

/-- Quotient and remainder of `__u64div` with 32-bit longs: long division using shift and sub. -/
def u64divLong (fuel : ℕ) (numer denom : Block) : Option (Block × Block) :=
  if denom.hi = 0#32 ∧ denom.lo = 0#32 then some (numer, ⟨0#32, 0#32⟩)
  else if numer.hi = 0#32 ∧ denom.hi = 0#32 ∨ denom.lo = 0#32 ∧ denom.hi = 0#32 then
    some (⟨0#32, numer.lo / denom.lo⟩, ⟨0#32, numer.lo % denom.lo⟩)
  else do
    let (d, count) ← u64divScale numer fuel denom 0
    some (u64divLoop (count + 1) numer d ⟨0#32, 0#32⟩)

/-! ## Machine arithmetic -/

/-- A 64-bit integer put together from its words. -/
theorem toNat_setWidth_add (b : Block) :
    ((b.hi.setWidth 64 <<< 32) + b.lo.setWidth 64 : U64).toNat = b.int := by
  have hh := b.hi.isLt; have hl := b.lo.isLt
  simp only [int, BitVec.toNat_add, BitVec.toNat_shiftLeft, BitVec.toNat_setWidth,
    Nat.shiftLeft_eq]
  omega

theorem int_words (r : U64) : (⟨(r >>> 32).setWidth 32, r.setWidth 32⟩ : Block).int = r.toNat := by
  have hr := r.isLt
  simp only [int, BitVec.toNat_ushiftRight, BitVec.toNat_setWidth, Nat.shiftRight_eq_div_pow]
  omega

theorem int_u64mulNative (a b : Block) : (u64mulNative a b).int = a.int * b.int % 2 ^ 64 := by
  simp only [u64mulNative, int_words, BitVec.toNat_mul, toNat_setWidth_add]
  rw [Nat.mul_comm]

theorem hi_lo_eq_zero_iff (b : Block) : b.hi = 0#32 ∧ b.lo = 0#32 ↔ b.int = 0 := by
  rw [int_eq_zero]
  cases b
  rw [Block.mk.injEq]

theorem int_u64divNative (numer : Block) {denom : Block} (h : denom.int ≠ 0) :
    (u64divNative numer denom).1.int = numer.int / denom.int
      ∧ (u64divNative numer denom).2.int = numer.int % denom.int := by
  rw [u64divNative, if_neg (mt (hi_lo_eq_zero_iff denom).mp h)]
  simp only [int_words, BitVec.toNat_udiv, BitVec.toNat_umod, toNat_setWidth_add, and_self]

/-! ## Bit by bit -/

/-- A two-word integer modulo `2 ^ 64`. -/
def Block.mod (b : Block) : ZMod (2 ^ 64) := (b.int : ZMod (2 ^ 64))

theorem Block.mod_of_int_eq {b : Block} {n : ℕ} (h : b.int = n % 2 ^ 64) :
    b.mod = (n : ZMod (2 ^ 64)) := by
  rw [mod, h, ZMod.natCast_mod]

theorem and_one_ne_zero_iff (b : Block) : b.lo &&& 1#32 ≠ 0#32 ↔ b.int % 2 = 1 := by
  have hbit : (b.lo &&& 1#32).toNat = b.lo.toNat % 2 := by
    rw [BitVec.toNat_and]
    exact Nat.and_one_is_mod _
  rw [Ne, ← BitVec.toNat_inj, hbit, int]
  simp only [BitVec.toNat_ofNat]
  omega

/-- **The loop over words multiplies** as the loop over integers modulo `2 ^ 64` does. -/
theorem map_mod_u64mulLoop (fuel : ℕ) (r a b : Block) :
    (u64mulLoop fuel r a b).map mod = mulLoop fuel r.mod a.mod b.int := by
  induction fuel generalizing r a b with
  | zero => rfl
  | succ fuel ih =>
    have hzero : b.hi ≠ 0#32 ∨ b.lo ≠ 0#32 ↔ b.int ≠ 0 := by
      rw [← not_and_or, hi_lo_eq_zero_iff]
    have hadd : (r.add a).mod = r.mod + a.mod := by
      rw [mod_of_int_eq (int_add r a), Nat.cast_add, mod, mod]
    have hshl : a.shl.mod = 2 * a.mod := by
      rw [mod_of_int_eq (int_shl a), Nat.cast_mul, mod, Nat.cast_ofNat]
    simp only [u64mulLoop, mulLoop, hzero, and_one_ne_zero_iff]
    by_cases hb : b.int = 0
    · rw [if_neg (not_not.mpr hb), if_pos hb, Option.map_some]
    · rw [if_pos hb, if_neg hb, ih, hshl, int_shr]
      split_ifs with hbit
      · rw [hadd]
      · rfl

theorem u64mulLong_eq {fuel : ℕ} (hfuel : 64 < fuel) (a b : Block) :
    u64mulLong fuel a b = some (u64mulNative a b) := by
  obtain ⟨fuel, rfl⟩ := Nat.exists_eq_add_of_lt (Nat.zero_lt_of_lt hfuel)
  rw [Nat.zero_add] at hfuel ⊢
  have hb : b.int < 2 ^ fuel :=
    b.int_lt.trans_le (Nat.pow_le_pow_right two_pos (Nat.le_of_lt_succ hfuel))
  have hloop := map_mod_u64mulLoop (fuel + 1) ⟨0#32, 0#32⟩ a b
  rw [mulLoop_eq hb] at hloop
  obtain ⟨r, hr, hmod⟩ := Option.map_eq_some_iff.mp hloop
  rw [mod, mod, mod, ← Nat.cast_mul, ← Nat.cast_add, ZMod.natCast_eq_natCast_iff',
    Nat.mod_eq_of_lt r.int_lt, (hi_lo_eq_zero_iff ⟨0#32, 0#32⟩).mp ⟨rfl, rfl⟩, Nat.zero_add] at hmod
  rw [u64mulLong, hr]
  refine congrArg some (int_inj.mp ?_)
  rw [hmod, int_u64mulNative]

/-! ### Division -/

theorem top_bit_iff (b : Block) : b.hi &&& 0x80000000#32 = 0#32 ↔ b.int < 2 ^ 63 := by
  have hl := b.lo.isLt
  have htwo : (0x80000000#32 : U32) = BitVec.twoPow 32 31 := by decide
  have hmsb : b.hi &&& 0x80000000#32 = 0#32 ↔ b.hi.msb = false := by
    rw [htwo, BitVec.and_twoPow, BitVec.msb_eq_getLsbD_last]
    split_ifs with hbit
    · exact iff_of_false (by decide) (by rw [hbit]; decide)
    · exact iff_of_true rfl (Bool.eq_false_of_not_eq_true hbit)
  rw [hmsb, BitVec.msb_eq_false_iff_two_mul_lt, int]
  omega

/-- Shifting the divisor up doubles it. -/
theorem map_int_u64divScale (n : Block) (fuel : ℕ) (d : Block) (count : ℕ) :
    (u64divScale n fuel d count).map (Prod.map int id)
      = scaleLoop (2 ^ 63) n.int fuel d.int count := by
  induction fuel generalizing d count with
  | zero => rfl
  | succ fuel ih =>
    simp only [u64divScale, scaleLoop, top_bit_iff, le_iff]
    by_cases htop : d.int < 2 ^ 63
    · rw [if_pos htop]
      by_cases hle : n.int ≤ d.int
      · rw [if_pos hle, if_pos (.inr hle)]
        rfl
      · have hshl : d.shl.int = 2 * d.int := by
          rw [int_shl]
          omega
        rw [if_neg hle, if_neg (by omega), ih, hshl]
    · rw [if_neg htop, if_pos (.inl (not_lt.mp htop))]
      rfl

/-- The rounds subtract and halve. The quotient is kept modulo `2 ^ 64`. -/
theorem int_u64divLoop (count : ℕ) (n d : Block) {q : Block} {k : ℕ} (hq : q.int = k % 2 ^ 64) :
    (u64divLoop count n d q).1.int = (divLoop count n.int d.int k).1 % 2 ^ 64
      ∧ (u64divLoop count n d q).2.int = (divLoop count n.int d.int k).2 := by
  induction count generalizing n d q k with
  | zero => exact ⟨hq, rfl⟩
  | succ count ih =>
    have hge : d.hi < n.hi ∨ n.hi = d.hi ∧ d.lo ≤ n.lo ↔ d.int ≤ n.int := by
      rw [eq_comm (a := n.hi), le_iff]
    have htwice : q.shl.int = 2 * k % 2 ^ 64 := by
      rw [int_shl, hq]
      omega
    have hodd : (⟨q.shl.hi, q.shl.lo ||| 1#32⟩ : Block).int = (2 * k + 1) % 2 ^ 64 := by
      rw [int_or_one, htwice]
      omega
    simp only [u64divLoop, divLoop, hge]
    split_ifs with h
    · rw [← int_sub h, ← int_shr]
      exact ih _ _ hodd
    · rw [← int_shr]
      exact ih _ _ htwice

theorem u64divLong_eq {fuel : ℕ} (hfuel : 64 < fuel) (numer denom : Block) :
    u64divLong fuel numer denom = some (u64divNative numer denom) := by
  rw [u64divLong]
  split_ifs with hzero hsmall
  · rw [u64divNative, if_pos hzero]
  · have hdenom := mt (hi_lo_eq_zero_iff denom).mpr hzero
    obtain ⟨hquot, hrem⟩ := int_u64divNative numer hdenom
    obtain ⟨hn, hd⟩ := hsmall.resolve_right fun h ↦ hzero h.symm
    refine congrArg some (Prod.ext (int_inj.mp ?_) (int_inj.mp ?_))
    · rw [hquot]
      simp [int, hn, hd]
    · rw [hrem]
      simp [int, hn, hd]
  · have hdenom := mt (hi_lo_eq_zero_iff denom).mpr hzero
    obtain ⟨hquot, hrem⟩ := int_u64divNative numer hdenom
    obtain ⟨fuel, rfl⟩ := Nat.exists_eq_add_of_lt (Nat.zero_lt_of_lt hfuel)
    rw [Nat.zero_add] at hfuel ⊢
    have hlimit : 2 ^ 63 < denom.int * 2 ^ fuel :=
      (Nat.pow_lt_pow_right one_lt_two (by omega)).trans_le
        (Nat.le_mul_of_pos_left _ (Nat.pos_of_ne_zero hdenom))
    obtain ⟨k, hscale, hlt⟩ :=
      exists_scaleLoop (Nat.pos_of_ne_zero hdenom) numer.int_lt hlimit 0
    rw [← map_int_u64divScale, Option.map_eq_some_iff] at hscale
    obtain ⟨⟨d, count⟩, hd, hprod⟩ := hscale
    obtain ⟨hdint, hcount⟩ := Prod.mk.inj hprod
    obtain rfl : count = k := hcount.trans (Nat.zero_add k)
    have hstart : d.int = denom.int * 2 ^ (count + 1) / 2 := by
      rw [hdint, pow_succ, ← mul_assoc, Nat.mul_div_cancel _ two_pos]
    have hloop := int_u64divLoop (count + 1) numer d (q := ⟨0#32, 0#32⟩) (k := 0) rfl
    rw [hstart, divLoop_eq _ _ hlt, Nat.zero_mul, Nat.zero_add,
      Nat.mod_eq_of_lt ((Nat.div_le_self _ _).trans_lt numer.int_lt)] at hloop
    rw [hd]
    refine congrArg some (Prod.ext (int_inj.mp ?_) (int_inj.mp ?_))
    · rw [hloop.1, hquot]
    · rw [hloop.2, hrem]

/-- **Long arithmetic is exact.** Both loops end, with the product modulo `2 ^ 64` and with the
quotient and the remainder, and so give the words that a machine with 64-bit longs gives. -/
theorem u64long_exact {fuel : ℕ} (hfuel : 64 < fuel) (a b numer denom : Block) :
    (∃ r, u64mulLong fuel a b = some r ∧ r = u64mulNative a b
        ∧ r.int = a.int * b.int % 2 ^ 64)
      ∧ ∃ q r, u64divLong fuel numer denom = some (q, r) ∧ (q, r) = u64divNative numer denom
        ∧ (denom.int ≠ 0 → q.int = numer.int / denom.int ∧ r.int = numer.int % denom.int) := by
  constructor
  · exact ⟨_, u64mulLong_eq hfuel a b, rfl, int_u64mulNative a b⟩
  · exact ⟨_, _, u64divLong_eq hfuel numer denom, rfl, int_u64divNative numer⟩

/-- A product with carries, and a division by a divisor with its top bit set. -/
theorem u64long_exact_carry :
    u64mulLong 65 ⟨1#32, 0xffffffff#32⟩ ⟨0#32, 0xffffffff#32⟩ = some ⟨0xfffffffd#32, 1#32⟩
      ∧ u64divLong 65 ⟨0xffffffff#32, 0#32⟩ ⟨0x80000000#32, 1#32⟩
        = some (⟨0#32, 1#32⟩, ⟨0x7ffffffe#32, 0xffffffff#32⟩) := by
  obtain ⟨⟨r, hr, hmul, -⟩, q, s, hs, hdiv, -⟩ := u64long_exact (by norm_num : 64 < 65)
    ⟨1#32, 0xffffffff#32⟩ ⟨0#32, 0xffffffff#32⟩ ⟨0xffffffff#32, 0#32⟩ ⟨0x80000000#32, 1#32⟩
  rw [hr, hs, hmul, hdiv]
  exact ⟨by decide +kernel, by decide +kernel⟩

end Hyunjin
