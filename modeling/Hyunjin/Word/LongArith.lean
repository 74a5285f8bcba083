import Mathlib.Algebra.Ring.Basic
import Mathlib.Algebra.Order.Ring.Nat
import Mathlib.Tactic.Ring

/-!
# Long multiplication and division

The schoolbook algorithms in base two, on numbers. Multiplication adds up the doublings of one
factor that the bits of the other select; it is stated over a semiring, so that it also covers
multiplication modulo a power of two. Division first doubles the divisor until it is not below the
dividend or would become too large, counts the doublings, and then subtracts and halves on the way
back.

Loops take fuel and return nothing when it runs out, so that a value is also a proof that the loop
ends.
-/

namespace Hyunjin.LongArith

/-! ## Multiplication -/

section Multiplication

variable {R : Type*} [CommSemiring R]

/-- Add `a` to `r` for every bit of `b`, with `a` doubled from bit to bit. -/
def mulLoop : ℕ → R → R → ℕ → Option R
  | 0, _, _, _ => none
  | fuel + 1, r, a, b =>
    if b = 0 then some r else mulLoop fuel (if b % 2 = 1 then r + a else r) (2 * a) (b / 2)

theorem mulLoop_eq {fuel b : ℕ} (hb : b < 2 ^ fuel) (r a : R) :
    mulLoop (fuel + 1) r a b = some (r + a * b) := by
  induction fuel generalizing r a b with
  | zero =>
    have hzero : b = 0 := by rwa [pow_zero, Nat.lt_one_iff] at hb
    rw [mulLoop, if_pos hzero, hzero, Nat.cast_zero, mul_zero, add_zero]
  | succ fuel ih =>
    rw [mulLoop]
    split_ifs with hzero hbit
    · rw [hzero, Nat.cast_zero, mul_zero, add_zero]
    · rw [ih (by omega)]
      have hsplit : (b : R) = 2 * ((b / 2 : ℕ) : R) + 1 := by
        have h : b = 2 * (b / 2) + 1 := by omega
        exact_mod_cast congrArg (Nat.cast (R := R)) h
      rw [hsplit]
      ring_nf
    · rw [ih (by omega)]
      have hsplit : (b : R) = 2 * ((b / 2 : ℕ) : R) := by
        have h : b = 2 * (b / 2) := by omega
        exact_mod_cast congrArg (Nat.cast (R := R)) h
      rw [hsplit]
      ring_nf

end Multiplication

/-! ## Division -/

/-- Double `d` until it is at least the limit or not below `n`, and count the doublings. -/
def scaleLoop (limit n : ℕ) : ℕ → ℕ → ℕ → Option (ℕ × ℕ)
  | 0, _, _ => none
  | fuel + 1, d, count =>
    if limit ≤ d ∨ n ≤ d then some (d, count) else scaleLoop limit n fuel (2 * d) (count + 1)

/-- The loop ends, and the divisor is then less than a doubling away from the dividend. -/
theorem exists_scaleLoop {limit n d : ℕ} (hd : 0 < d) (hn : n < 2 * limit) {fuel : ℕ}
    (hfuel : limit < d * 2 ^ fuel) (count : ℕ) :
    ∃ k, scaleLoop limit n (fuel + 1) d count = some (d * 2 ^ k, count + k)
      ∧ n < d * 2 ^ (k + 1) := by
  induction fuel generalizing d count with
  | zero =>
    rw [pow_zero, mul_one] at hfuel
    refine ⟨0, ?_, ?_⟩
    · rw [scaleLoop, if_pos (.inl hfuel.le), pow_zero, mul_one, add_zero]
    · omega
  | succ fuel ih =>
    by_cases hstop : limit ≤ d ∨ n ≤ d
    · refine ⟨0, ?_, ?_⟩
      · rw [scaleLoop, if_pos hstop, pow_zero, mul_one, add_zero]
      · omega
    · have hpow (j : ℕ) : d * 2 ^ (j + 1) = 2 * d * 2 ^ j := by ring
      obtain ⟨k, hloop, hlt⟩ := ih (by omega) (hpow fuel ▸ hfuel) (count + 1)
      refine ⟨k + 1, ?_, ?_⟩
      · rw [scaleLoop, if_neg hstop, hloop, hpow, add_assoc, add_comm 1 k]
      · rwa [hpow]

/-- Subtract the divisor where it fits, and halve it, once for each bit of the quotient. -/
def divLoop : ℕ → ℕ → ℕ → ℕ → ℕ × ℕ
  | 0, n, _, q => (q, n)
  | k + 1, n, d, q =>
    if d ≤ n then divLoop k (n - d) (d / 2) (2 * q + 1) else divLoop k n (d / 2) (2 * q)

theorem divLoop_eq {d n : ℕ} (k q : ℕ) (hn : n < d * 2 ^ k) :
    divLoop k n (d * 2 ^ k / 2) q = (q * 2 ^ k + n / d, n % d) := by
  induction k generalizing n q with
  | zero =>
    rw [pow_zero, mul_one] at hn
    rw [divLoop, Nat.div_eq_of_lt hn, Nat.mod_eq_of_lt hn, pow_zero, mul_one, add_zero]
  | succ k ih =>
    have hhalf : d * 2 ^ (k + 1) / 2 = d * 2 ^ k := by
      rw [pow_succ, ← mul_assoc, Nat.mul_div_cancel _ two_pos]
    rw [divLoop, hhalf]
    split_ifs with h
    · have hd : 0 < d := Nat.pos_of_ne_zero fun hd ↦ by simp [hd] at hn
      have hsub : n = (n - d * 2 ^ k) + d * 2 ^ k := (Nat.sub_add_cancel h).symm
      have hlt : n - d * 2 ^ k < d * 2 ^ k := by
        rw [pow_succ, ← mul_assoc] at hn
        omega
      rw [ih _ hlt]
      conv_rhs => rw [hsub, Nat.add_mul_div_left _ _ hd, Nat.add_mul_mod_self_left]
      congr 1
      ring
    · rw [ih _ (by omega)]
      congr 1
      ring

end Hyunjin.LongArith
