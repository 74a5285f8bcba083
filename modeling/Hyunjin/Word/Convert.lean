import Mathlib.Data.BitVec
import Mathlib.Tactic.Linarith

/-!
# Checked conversions between integer types

A conversion that refuses a value its target type cannot hold. The source type does not matter, only
the integer it stands for, so a conversion starts from `ℤ`. `toUnsigned w` and `toSigned w` answer
`none` where the language raises an error.
-/

namespace Hyunjin.Word

/-- The unsigned word of `w` bits that stands for `x`, if there is one. -/
def toUnsigned (w : ℕ) (x : ℤ) : Option (BitVec w) :=
  if 0 ≤ x ∧ x < 2 ^ w then some (BitVec.ofInt w x) else none

/-- The signed word of `w` bits that stands for `x`, if there is one. -/
def toSigned (w : ℕ) (x : ℤ) : Option (BitVec w) :=
  if -2 ^ (w - 1) ≤ x ∧ x < 2 ^ (w - 1) then some (BitVec.ofInt w x) else none

theorem toUnsigned_of_neg {w : ℕ} {x : ℤ} (h : x < 0) : toUnsigned w x = none :=
  if_neg fun hx ↦ absurd hx.1 (Int.not_le.mpr h)

/-- A natural number below `2 ^ w` converts to itself. -/
theorem toUnsigned_natCast {w n : ℕ} (h : n < 2 ^ w) : toUnsigned w n
    = some (BitVec.ofNat w n) := by
  have hlt : (n : ℤ) < 2 ^ w := by exact_mod_cast h
  rw [toUnsigned, if_pos ⟨Int.natCast_nonneg n, hlt⟩, BitVec.ofInt_natCast]

/-- A word that fits in a narrower type converts by truncation. -/
theorem toUnsigned_toNat {v w : ℕ} {x : BitVec v} (h : x.toNat < 2 ^ w) :
    toUnsigned w x.toNat = some (x.setWidth w) := by
  rw [toUnsigned_natCast h, BitVec.ofNat_toNat]

theorem toSigned_eq_some {w : ℕ} {x : ℤ} (h : -2 ^ (w - 1) ≤ x ∧ x < 2 ^ (w - 1)) :
    toSigned w x = some (BitVec.ofInt w x) := if_pos h

end Hyunjin.Word
