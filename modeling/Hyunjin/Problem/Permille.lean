import Hyunjin.Problem.Wide

/-!
# Progress in thousandths

The progress of an RC5-72 problem is `1000 * keysdone / iterations`, formed in two words. The
product is taken modulo `2 ^ 64`. Below that bound the result is exact; from there on the loss of a
multiple of `2 ^ 64` makes the quotient smaller by at least one, as the divisor is below `2 ^ 64`.
-/

namespace Hyunjin

open Block

/-- `__compute_permille` of an RC5-72 problem. -/
def computePermilleRC5 (work : BigCrypto) : U32 :=
  if work.keysdone.lo ≠ 0#32 ∨ work.keysdone.hi ≠ 0#32 then
    if work.keysdone.hi < work.iterations.hi
        ∨ work.keysdone.hi = work.iterations.hi ∧ work.keysdone.lo < work.iterations.lo then
      let product := u64mulNative work.keysdone ⟨0#32, 1000#32⟩
      let lo := (u64divNative product work.iterations).1.lo
      if 1000#32 < lo then 1000#32 else lo
    else 1000#32
  else 0#32

/-- The progress in thousandths, rounded down. -/
def permille (work : BigCrypto) : ℕ := 1000 * work.keysdone.int / work.iterations.int

/-- The product with a thousand is not needed, or it fits 64 bits. -/
def ProductFits (work : BigCrypto) : Prop :=
  work.keysdone.int = work.iterations.int ∨ 1000 * work.keysdone.int < 2 ^ 64

instance (work : BigCrypto) : Decidable (ProductFits work) := inferInstanceAs (Decidable (_ ∨ _))

variable {work : BigCrypto}

theorem permille_le (hle : work.keysdone.int ≤ work.iterations.int) : permille work ≤ 1000 := by
  rcases Nat.eq_zero_or_pos work.iterations.int with hzero | hpos
  · rw [permille, hzero, Nat.div_zero]
    exact Nat.zero_le _
  · exact Nat.div_le_of_le_mul (by rw [Nat.mul_comm]; exact Nat.mul_le_mul_right _ hle)

theorem permille_mono {work' : BigCrypto} (hiter : work.iterations = work'.iterations)
    (hle : work.keysdone.int ≤ work'.keysdone.int) : permille work ≤ permille work' := by
  rw [permille, permille, hiter]
  exact Nat.div_le_div_right (Nat.mul_le_mul_left _ hle)

theorem computePermilleRC5_of_eq (hpos : 0 < work.iterations.int)
    (h : work.keysdone.int = work.iterations.int) : (computePermilleRC5 work).toNat = 1000 := by
  have hne : work.keysdone.lo ≠ 0#32 ∨ work.keysdone.hi ≠ 0#32 := by
    rw [← not_and_or, and_comm, hi_lo_eq_zero_iff]
    omega
  rw [computePermilleRC5, if_pos hne, if_neg (by rw [lt_iff]; omega)]
  rfl

/-- Below the end, the product loses its multiples of `2 ^ 64` before it is divided. -/
theorem computePermilleRC5_of_lt (h : work.keysdone.int < work.iterations.int) :
    (computePermilleRC5 work).toNat
      = 1000 * work.keysdone.int % 2 ^ 64 / work.iterations.int := by
  have hle : 1000 * work.keysdone.int % 2 ^ 64 / work.iterations.int ≤ 1000 :=
    (Nat.div_le_div_right (Nat.mod_le _ _)).trans (permille_le h.le)
  have hquot : (u64divNative (u64mulNative work.keysdone ⟨0#32, 1000#32⟩) work.iterations).1.int
      = 1000 * work.keysdone.int % 2 ^ 64 / work.iterations.int := by
    rw [(int_u64divNative _ (Nat.ne_zero_of_lt h)).1, int_u64mulNative, Nat.mul_comm]
    rfl
  have hlo : (u64divNative (u64mulNative work.keysdone ⟨0#32, 1000#32⟩) work.iterations).1.lo.toNat
      = 1000 * work.keysdone.int % 2 ^ 64 / work.iterations.int := by
    rw [int] at hquot
    omega
  rw [computePermilleRC5]
  by_cases hne : work.keysdone.lo ≠ 0#32 ∨ work.keysdone.hi ≠ 0#32
  · rw [if_pos hne, if_pos ((lt_iff _ _).mpr h)]
    dsimp only
    rw [if_neg, hlo]
    rw [BitVec.lt_def, hlo]
    exact not_lt.mpr hle
  · have hzero : work.keysdone.int = 0 := by
      rw [← hi_lo_eq_zero_iff, and_comm]
      simpa only [not_or, not_not] using hne
    rw [if_neg hne, hzero, Nat.mul_zero, Nat.zero_mod, Nat.zero_div]
    rfl

/-- **When the progress is exact.** -/
theorem computePermilleRC5_eq_iff (hpos : 0 < work.iterations.int)
    (hle : work.keysdone.int ≤ work.iterations.int) :
    (computePermilleRC5 work).toNat = permille work ↔ ProductFits work := by
  rcases hle.eq_or_lt with heq | hlt
  · refine iff_of_true ?_ (.inl heq)
    rw [computePermilleRC5_of_eq hpos heq, permille, heq, Nat.mul_div_cancel _ hpos]
  · rw [computePermilleRC5_of_lt hlt, permille, ProductFits, or_iff_right hlt.ne]
    constructor
    · intro heq
      by_contra hover
      rw [not_lt] at hover
      -- what is lost is a multiple of the bound, and the divisor is below the bound
      have hlost : 1000 * work.keysdone.int % 2 ^ 64 + work.iterations.int
          ≤ 1000 * work.keysdone.int := by
        have hbound := work.iterations.int_lt
        omega
      have hdrop := Nat.div_le_div_right (c := work.iterations.int) hlost
      rw [Nat.add_div_right _ hpos, heq] at hdrop
      exact Nat.not_succ_le_self _ hdrop
    · intro hfits
      rw [Nat.mod_eq_of_lt hfits]

/-! ## Two readings of the progress -/

/-- The progress of one block at two times is exact, in range and does not go down. -/
structure ProgressRight (work work' : BigCrypto) : Prop where
  first : (computePermilleRC5 work).toNat = permille work
  second : (computePermilleRC5 work').toNat = permille work'
  le : (computePermilleRC5 work).toNat ≤ 1000 ∧ (computePermilleRC5 work').toNat ≤ 1000
  mono : work.keysdone.int ≤ work'.keysdone.int → computePermilleRC5 work ≤ computePermilleRC5 work'

/-- **The progress is right** exactly as long as the product with a thousand fits. -/
theorem progressRight_iff {work work' : BigCrypto} (hiter : work.iterations = work'.iterations)
    (hpos : 0 < work.iterations.int) (hle : work.keysdone.int ≤ work.iterations.int)
    (hle' : work'.keysdone.int ≤ work'.iterations.int) :
    ProgressRight work work' ↔ ProductFits work ∧ ProductFits work' := by
  constructor
  · intro h
    exact ⟨(computePermilleRC5_eq_iff hpos hle).mp h.first,
      (computePermilleRC5_eq_iff (hiter ▸ hpos) hle').mp h.second⟩
  · rintro ⟨hfits, hfits'⟩
    have hfirst := (computePermilleRC5_eq_iff hpos hle).mpr hfits
    have hsecond := (computePermilleRC5_eq_iff (hiter ▸ hpos) hle').mpr hfits'
    refine ⟨hfirst, hsecond, ⟨?_, ?_⟩, fun hgrow ↦ ?_⟩
    · exact hfirst.trans_le (permille_le hle)
    · exact hsecond.trans_le (permille_le hle')
    · rw [BitVec.le_def, hfirst, hsecond]
      exact permille_mono hiter hgrow

/-- The first half of a block of `2 ^ 33` keys. -/
theorem progressRight_half :
    ProgressRight
      (.ofWork ⟨[0, 0, 0, 0, 0, 0, 0, 0, 0, 0, 1, 2, 0, 0, 0, 0, 0, 0, 0, 0], rfl⟩)
      (.ofWork ⟨[0, 0, 0, 0, 0, 0, 0, 0, 0, 1, 0, 2, 0, 0, 0, 0, 0, 0, 0, 0], rfl⟩) :=
  (progressRight_iff (by decide +kernel) (by decide +kernel) (by decide +kernel)
    (by decide +kernel)).mpr ⟨by decide +kernel, by decide +kernel⟩

/-- A quarter of a block of `2 ^ 57` keys counts as 122 thousandths, and one half as 116. -/
theorem not_progressRight_half :
    ¬ProgressRight
      (.ofWork ⟨[0, 0, 0, 0, 0, 0, 0, 0, 0, 0x800000, 0, 0x2000000, 0, 0, 0, 0, 0, 0, 0, 0], rfl⟩)
      (.ofWork ⟨[0, 0, 0, 0, 0, 0, 0, 0, 0, 0x1000000, 0, 0x2000000, 0, 0, 0, 0, 0, 0, 0, 0],
        rfl⟩) := by
  intro h
  exact absurd h.second (by decide +kernel)

end Hyunjin
