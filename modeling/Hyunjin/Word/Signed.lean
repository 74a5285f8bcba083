import Hyunjin.Word.Bytes

/-!
# Signed words

Words that are read as signed integers, where the code mixes them with unsigned ones: as long as the
top bit is clear both readings agree.
-/

namespace Hyunjin

theorem toInt_eq_natCast_iff {x : U32} {n : ℕ} :
    x.toInt = (n : ℤ) ↔ x.toNat = n ∧ n < 2 ^ 31 := by
  rw [BitVec.toInt_eq_toNat_cond]
  have hx := x.isLt
  split_ifs <;> omega

theorem slt_eq_ult {x y : U32} (hx : x.toNat < 2 ^ 31) (hy : y.toNat < 2 ^ 31) :
    x.slt y = x.ult y := by
  rw [BitVec.slt_eq_ult, BitVec.msb_eq_decide, BitVec.msb_eq_decide, decide_eq_false (by omega),
    decide_eq_false (by omega)]
  simp

end Hyunjin
