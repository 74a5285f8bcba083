import Hyunjin.Problem.Run

/-!
# The chunk of a slice

A slice asks for a number of keys, and the core gets a whole number of units (`keysToCheck`). What
it gets should not be more than what is left of the block, rounded up. What is left is a number of
64 bits; the code compares the high words, and for the low words takes the carry of
`keysdone.lo + keystocheck` for the comparison. `chunkOk_iff` says when that will do.

It goes wrong in two ways. Without a carry nothing is cut, so that in the last `2³²` keys of a block
a request that ends beyond the block is handed on as it is (`Overruns`). With a carry into the last
of two high words, what is left is taken also where less was asked for (`Raised`).
-/

namespace Hyunjin

/-! ## Whole units -/

/-- The least number of whole units, and at least one, that has room for `n` keys. -/
def wholeUnits (n : ℕ) : ℕ :=
  MINIMUM_ITERATIONS.toNat *
    max 1 ((n + (MINIMUM_ITERATIONS.toNat - 1)) / MINIMUM_ITERATIONS.toNat)

theorem wholeUnits_eq (n : ℕ) : wholeUnits n = 48 * max 1 ((n + 47) / 48) := rfl

theorem le_wholeUnits (n : ℕ) : n ≤ wholeUnits n := by
  rw [wholeUnits_eq]
  omega

theorem wholeUnits_mono {m n : ℕ} (h : m ≤ n) : wholeUnits m ≤ wholeUnits n := by
  rw [wholeUnits_eq, wholeUnits_eq]
  omega

theorem wholeUnits_le_iff {m n : ℕ} : wholeUnits m ≤ wholeUnits n ↔ m ≤ wholeUnits n := by
  constructor
  · exact (le_wholeUnits m).trans
  · intro h
    rw [wholeUnits_eq] at h ⊢
    rw [wholeUnits_eq]
    omega

/-! ## What the code computes -/

/-- The number of keys before it is rounded up. -/
def keysBeforeRounding (iterations keysdone : Block) (keystocheck : U32) : U32 :=
  if iterations.hi - keysdone.hi ≤ 1#32 ∧ keysdone.lo + keystocheck < keystocheck then
    iterations.lo - keysdone.lo
  else keystocheck

/-- The rounding, in 32 bits. -/
def roundKeys (keystocheck : U32) : U32 :=
  if keystocheck < MINIMUM_ITERATIONS then MINIMUM_ITERATIONS
  else if keystocheck % MINIMUM_ITERATIONS ≠ 0#32 then
    keystocheck + (MINIMUM_ITERATIONS - keystocheck % MINIMUM_ITERATIONS)
  else keystocheck

theorem keysToCheck_eq (iterations keysdone : Block) (keystocheck : U32) :
    keysToCheck iterations keysdone keystocheck =
      roundKeys (keysBeforeRounding iterations keysdone keystocheck) := rfl

/-- Rounding up wraps beyond the last whole unit below `2³²`. -/
theorem toNat_roundKeys (m : U32) : (roundKeys m).toNat = wholeUnits m.toNat % 2 ^ 32 := by
  have hm := m.isLt
  have hmin : MINIMUM_ITERATIONS.toNat = 48 := rfl
  have hmod : (m % MINIMUM_ITERATIONS).toNat = m.toNat % 48 := by rw [BitVec.toNat_umod, hmin]
  have hzero : m % MINIMUM_ITERATIONS = 0#32 ↔ m.toNat % 48 = 0 := by
    rw [← BitVec.toNat_inj, hmod]
    rfl
  have hlt : m < MINIMUM_ITERATIONS ↔ m.toNat < 48 := by rw [BitVec.lt_def, hmin]
  rw [roundKeys, wholeUnits_eq]
  by_cases hsmall : m.toNat < 48
  · rw [if_pos (hlt.mpr hsmall), hmin]
    omega
  · rw [if_neg (hlt.not.mpr hsmall)]
    by_cases hround : m.toNat % 48 = 0
    · rw [if_neg (not_not.mpr (hzero.mpr hround))]
      omega
    · have hle : m % MINIMUM_ITERATIONS ≤ MINIMUM_ITERATIONS := by
        rw [BitVec.le_def, hmod, hmin]
        omega
      rw [if_pos (hzero.not.mpr hround), BitVec.toNat_add, BitVec.toNat_sub_of_le hle, hmod, hmin]
      omega

/-- The number before rounding, by the carry of the low words. -/
private theorem toNat_keysBeforeRounding {iterations keysdone : Block} {n : U32}
    (h : keysdone.int < iterations.int) :
    (keysBeforeRounding iterations keysdone n).toNat =
      if iterations.hi.toNat ≤ keysdone.hi.toNat + 1 ∧ 2 ^ 32 ≤ keysdone.lo.toNat + n.toNat then
        (2 ^ 32 - keysdone.lo.toNat + iterations.lo.toNat) % 2 ^ 32
      else n.toNat := by
  have hil := iterations.lo.isLt
  have hkl := keysdone.lo.isLt
  have hih := iterations.hi.isLt
  rw [Block.int, Block.int] at h
  have hhi : iterations.hi - keysdone.hi ≤ 1#32 ↔
      iterations.hi.toNat ≤ keysdone.hi.toNat + 1 := by
    rw [BitVec.le_def, BitVec.toNat_sub_of_le (BitVec.le_def.mpr (by omega))]
    exact Nat.sub_le_iff_le_add'
  rw [keysBeforeRounding]
  simp only [hhi, add_lt_iff]
  split_ifs
  · rw [BitVec.toNat_sub]
  · rfl

/-! ## Chunks that will do -/

/-- What is asked of a chunk: it is a positive number of units, not more than what is asked for and
what is left come to, and rounding it up does not wrap. -/
structure ChunkOk (iterations keysdone : Block) (requested : U32) : Prop where
  units : MINIMUM_ITERATIONS.toNat ∣ (keysToCheck iterations keysdone requested).toNat
  pos : 0 < (keysToCheck iterations keysdone requested).toNat
  le : (keysToCheck iterations keysdone requested).toNat ≤
    wholeUnits (min requested.toNat (iterations.int - keysdone.int))
  no_wrap : wholeUnits (keysBeforeRounding iterations keysdone requested).toNat < 2 ^ 32

/-- In the last word of the block, the request is for more than what is left, but does not carry. -/
def Overruns (iterations keysdone : Block) (requested : U32) : Prop :=
  iterations.hi = keysdone.hi ∧ keysdone.lo.toNat + requested.toNat < 2 ^ 32 ∧
    wholeUnits (iterations.int - keysdone.int) < requested.toNat

/-- In the last word but one, the request carries, but is for less than what is left, and that is
less than a word. -/
def Raised (iterations keysdone : Block) (requested : U32) : Prop :=
  iterations.hi.toNat = keysdone.hi.toNat + 1 ∧ iterations.lo < keysdone.lo ∧
    2 ^ 32 ≤ keysdone.lo.toNat + requested.toNat ∧
    wholeUnits requested.toNat < iterations.int - keysdone.int

instance (iterations keysdone : Block) (requested : U32) :
    Decidable (Overruns iterations keysdone requested) := inferInstanceAs (Decidable (_ ∧ _))

instance (iterations keysdone : Block) (requested : U32) :
    Decidable (Raised iterations keysdone requested) := inferInstanceAs (Decidable (_ ∧ _))

/-- A chunk will do if the number before rounding is not too large. -/
private theorem chunkOk_iff_le {iterations keysdone : Block} {n : U32} (hn : n.toNat ≤ 0xFFFFFF00) :
    ChunkOk iterations keysdone n ↔
      (keysBeforeRounding iterations keysdone n).toNat ≤
        wholeUnits (min n.toNat (iterations.int - keysdone.int)) := by
  have hchunk : (keysToCheck iterations keysdone n).toNat =
      wholeUnits (keysBeforeRounding iterations keysdone n).toNat % 2 ^ 32 := by
    rw [keysToCheck_eq, toNat_roundKeys]
  -- the largest request is a whole number of units
  have hmax : wholeUnits (min n.toNat (iterations.int - keysdone.int)) ≤ 0xFFFFFF00 :=
    (wholeUnits_mono ((min_le_left _ _).trans hn)).trans_eq (by decide)
  constructor
  · rintro ⟨-, -, hle, hwrap⟩
    rw [hchunk, Nat.mod_eq_of_lt hwrap] at hle
    exact wholeUnits_le_iff.mp hle
  · intro hle
    have hwhole := wholeUnits_le_iff.mpr hle
    have hwrap : wholeUnits (keysBeforeRounding iterations keysdone n).toNat < 2 ^ 32 := by omega
    rw [Nat.mod_eq_of_lt hwrap] at hchunk
    refine ⟨?_, ?_, ?_, hwrap⟩
    · rw [hchunk]
      exact Nat.dvd_mul_right _ _
    · rw [hchunk, wholeUnits_eq]
      omega
    · rw [hchunk]
      exact hwhole

/-- **The chunk will do exactly if** the request neither overruns the block without a carry nor is
raised to what is left of it. -/
theorem chunkOk_iff {iterations keysdone : Block} {requested : U32}
    (h : keysdone.int < iterations.int) (hrequested : requested.toNat ≤ 0xFFFFFF00) :
    ChunkOk iterations keysdone requested ↔
      ¬Overruns iterations keysdone requested ∧ ¬Raised iterations keysdone requested := by
  have hil := iterations.lo.isLt
  have hkl := keysdone.lo.isLt
  have hself := le_wholeUnits (min requested.toNat (iterations.int - keysdone.int))
  have hhi : iterations.hi = keysdone.hi ↔ iterations.hi.toNat = keysdone.hi.toNat :=
    BitVec.toNat_inj.symm
  rw [chunkOk_iff_le hrequested, toNat_keysBeforeRounding h, Overruns, Raised, hhi, BitVec.lt_def]
  rcases Nat.le_total requested.toNat (iterations.int - keysdone.int) with hle | hle
  · have hmin : min requested.toNat (iterations.int - keysdone.int) = requested.toNat :=
      min_eq_left hle
    rw [hmin] at hself ⊢
    have hover : ¬wholeUnits (iterations.int - keysdone.int) < requested.toNat :=
      not_lt.mpr (hle.trans (le_wholeUnits _))
    simp only [Block.int] at *
    split_ifs with hcut
    · omega
    · omega
  · have hmin : min requested.toNat (iterations.int - keysdone.int) =
        iterations.int - keysdone.int := min_eq_right hle
    rw [hmin] at hself ⊢
    have hraised : ¬wholeUnits requested.toNat < iterations.int - keysdone.int :=
      not_lt.mpr (hle.trans (le_wholeUnits _))
    simp only [Block.int] at *
    split_ifs with hcut
    · omega
    · omega

/-- A request that carries past the end of the block is cut. -/
theorem chunkOk_iff_cut : ChunkOk ⟨1#32, 0#32⟩ ⟨0#32, 0x80000000#32⟩ 0x90000000#32 :=
  (chunkOk_iff (by decide) (by decide)).mpr ⟨by decide, by decide⟩

/-- A block of `2²⁸` keys is overrun by a request for twice as many. -/
theorem not_chunkOk_small_block : ¬∀ (iterations keysdone : Block) (requested : U32),
    keysdone.int < iterations.int → requested.toNat ≤ 0xFFFFFF00 →
      ChunkOk iterations keysdone requested := by
  intro h
  have hle := (h ⟨0#32, 0x10000000#32⟩ ⟨0#32, 0#32⟩ 0x20000000#32 (by decide) (by decide)).le
  exact absurd hle (by decide)

end Hyunjin
