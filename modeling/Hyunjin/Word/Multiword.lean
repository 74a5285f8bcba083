import Mathlib.Data.BitVec
import Mathlib.Tactic.Linarith

/-!
# Bitmaps of several words

A bitmap is a sequence of words whose bits are counted from the left end of the first word. A shift
by less than a word is made word by word, and takes what moves in from the word beside it. The
lemmas say what such shifts do to the bits: they shift the whole.

Words beyond the bitmap are zero on the right; what comes in from the left is a word of its own.
-/

namespace Hyunjin.Multiword

variable {w : ℕ}

/-- Bit `k` of a bitmap. -/
def bit (f : ℕ → BitVec w) (k : ℕ) : Bool := (f (k / w)).getMsbD (k % w)

variable (f : ℕ → BitVec w) {q r s : ℕ}

theorem bit_mul_add (hr : r < w) (q : ℕ) : bit f (w * q + r) = (f q).getMsbD r := by
  rw [bit, Nat.mul_add_div (Nat.zero_lt_of_lt hr), Nat.div_eq_of_lt hr, Nat.add_zero,
    Nat.mul_add_mod, Nat.mod_eq_of_lt hr]

/-- Bits are those of the words. -/
theorem bit_congr {f g : ℕ → BitVec w} (n : ℕ)
    (h : ∀ k < w * n, bit f k = bit g k) : ∀ j < n, f j = g j := by
  intro j hj
  refine BitVec.eq_of_getMsbD_eq fun i hi ↦ ?_
  rw [← bit_mul_add f hi, ← bit_mul_add g hi]
  refine h _ ?_
  calc w * j + i
    _ < w * j + w := Nat.add_lt_add_left hi _
    _ = w * (j + 1) := (Nat.mul_succ w j).symm
    _ ≤ w * n := Nat.mul_le_mul_left w hj

/-- **A shift to the left** by less than a word. -/
theorem bit_shiftLeft (hs : s < w) (k : ℕ) :
    bit (fun j ↦ (f j <<< s) ||| (f (j + 1) >>> (w - s))) k = bit f (k + s) := by
  have hr : k % w < w := Nat.mod_lt k (Nat.zero_lt_of_lt hs)
  rw [← Nat.div_add_mod k w]
  generalize k / w = q, k % w = r at hr
  rw [bit_mul_add _ hr, BitVec.getMsbD_or, BitVec.getMsbD_shiftLeft, BitVec.getMsbD_ushiftRight,
    Nat.add_assoc]
  rcases Nat.lt_or_ge (r + s) w with hlt | hge
  · -- the bit stays in its word
    rw [bit_mul_add f hlt, decide_eq_true (by omega : r < w - s), Bool.not_true, Bool.false_and,
      Bool.and_false, Bool.or_false]
  · rw [show w * q + (r + s) = w * (q + 1) + (r - (w - s)) by rw [Nat.mul_succ]; omega,
      bit_mul_add f (by omega), BitVec.getMsbD_of_ge _ _ hge, decide_eq_true hr,
      decide_eq_false (by omega : ¬r < w - s)]
    simp

/-- A shift to the left by a word. -/
theorem bit_shiftLeftWord (hw : 0 < w) (k : ℕ) : bit (fun j ↦ f (j + 1)) k = bit f (k + w) := by
  rw [bit, bit, Nat.add_div_right k hw, Nat.add_mod_right]

/-- **A shift to the right** by less than a word, which lets the bits of `x` in. -/
theorem bit_shiftRight (x : BitVec w) (hs : 0 < s) (hs' : s < w) (k : ℕ) :
    bit (fun j ↦ (f j >>> s) ||| ((if j = 0 then x else f (j - 1)) <<< (w - s))) k =
      if k < s then x.getMsbD (w - s + k) else bit f (k - s) := by
  have hr : k % w < w := Nat.mod_lt k (Nat.zero_lt_of_lt hs')
  rw [← Nat.div_add_mod k w]
  generalize k / w = q, k % w = r at hr
  rw [bit_mul_add _ hr, BitVec.getMsbD_or, BitVec.getMsbD_shiftLeft, BitVec.getMsbD_ushiftRight]
  rcases Nat.lt_or_ge r s with hlt | hge
  · rw [decide_eq_true hr, decide_eq_true hlt, Bool.not_true, Bool.false_and, Bool.and_false,
      Bool.false_or]
    rcases q with _ | q
    · rw [if_pos rfl, Nat.mul_zero, Nat.zero_add, if_pos hlt, Nat.add_comm]
    · have hle : w ≤ w * (q + 1) := Nat.le_mul_of_pos_right w q.succ_pos
      rw [if_neg q.succ_ne_zero, if_neg (by omega), Nat.add_sub_cancel,
        show w * (q + 1) + r - s = w * q + (r + (w - s)) by rw [Nat.mul_succ]; omega,
        bit_mul_add f (by omega)]
  · -- the bit stays in its word
    rw [decide_eq_true hr, decide_eq_false (by omega : ¬r < s), if_neg (by omega : ¬w * q + r < s),
      Nat.add_sub_assoc hge, bit_mul_add f (by omega),
      BitVec.getMsbD_of_ge _ (r + (w - s)) (by omega)]
    simp

/-- A shift to the right by a word, which lets `x` in. -/
theorem bit_shiftRightWord (x : BitVec w) (hw : 0 < w) (k : ℕ) :
    bit (fun j ↦ if j = 0 then x else f (j - 1)) k =
      if k < w then x.getMsbD k else bit f (k - w) := by
  rcases Nat.lt_or_ge k w with hlt | hge
  · rw [bit, Nat.div_eq_of_lt hlt, Nat.mod_eq_of_lt hlt, if_pos rfl, if_pos hlt]
  · rw [if_neg (Nat.not_lt.mpr hge)]
    obtain ⟨k, rfl⟩ := Nat.exists_eq_add_of_le' hge
    rw [bit, Nat.add_div_right k hw, Nat.add_mod_right, if_neg (Nat.succ_ne_zero _),
      Nat.add_sub_cancel, Nat.add_sub_cancel, bit]

end Hyunjin.Multiword
