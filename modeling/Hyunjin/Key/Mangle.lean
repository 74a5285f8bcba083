import Hyunjin.Key.Format

/-!
# Mangling

`switchRC572Format` turns the key the client counts with into the one the cores hold, by moving the
nine key bytes to the opposite end. On bytes it is a permutation (`switchRC572Format_ofLE`), and
from that alone follows what it does to the two readings of a key: the mangled key enumerates what
the unmangled one counts.

`incrementKey` is the third way in which a mangled key is advanced. It unmangles, adds with 32-bit
carries and mangles again, without masking the top word in between; the second mangling drops what
has run over. So it agrees with the key step of the reference core for every count.
-/

namespace Hyunjin

open Word

/-- The mangling of the client. It is the same code in both directions. -/
def switchRC572Format (k : Key72) : Key72 where
  lo := (k.hi &&& 0x000000FF#32) ||| ((k.mid >>> 16) &&& 0x0000FF00#32) |||
    (k.mid &&& 0x00FF0000#32) ||| ((k.mid <<< 16) &&& 0xFF000000#32)
  mid := (k.mid &&& 0x000000FF#32) ||| ((k.lo >>> 16) &&& 0x0000FF00#32) |||
    (k.lo &&& 0x00FF0000#32) ||| ((k.lo <<< 16) &&& 0xFF000000#32)
  hi := k.lo &&& 0x000000FF#32

/-- One word of the permutation: the low byte of one word over the three high bytes of another. -/
private theorem switch_word (x₀ x₁ x₂ x₃ y₀ y₁ y₂ y₃ : U8) :
    (ofLE x₀ x₁ x₂ x₃ &&& 0x000000FF#32) ||| ((ofLE y₀ y₁ y₂ y₃ >>> 16) &&& 0x0000FF00#32) |||
      (ofLE y₀ y₁ y₂ y₃ &&& 0x00FF0000#32) ||| ((ofLE y₀ y₁ y₂ y₃ <<< 16) &&& 0xFF000000#32)
      = ofLE x₀ y₃ y₂ y₁ := by
  simp only [mask_byte0, mask_byte1, mask_byte2, mask_byte3, ofLE_shiftLeft_16, ofLE_shiftRight_16,
    ofLE_and, ofLE_or, and_ff, BitVec.and_zero, BitVec.or_zero, BitVec.zero_or]

theorem switchRC572Format_ofLE (h₀ h₁ h₂ h₃ m₀ m₁ m₂ m₃ l₀ l₁ l₂ l₃ : U8) :
    switchRC572Format ⟨ofLE h₀ h₁ h₂ h₃, ofLE m₀ m₁ m₂ m₃, ofLE l₀ l₁ l₂ l₃⟩
      = ⟨ofLE l₀ 0#8 0#8 0#8, ofLE m₀ l₃ l₂ l₁, ofLE h₀ m₃ m₂ m₁⟩ := by
  rw [switchRC572Format, switch_word, switch_word, mask_byte0, ofLE_and, and_ff, BitVec.and_zero,
    BitVec.and_zero, BitVec.and_zero]

theorem valid_switchRC572Format (k : Key72) : (switchRC572Format k).Valid := by
  obtain ⟨hi, mid, lo⟩ := k
  obtain ⟨h₀, h₁, h₂, h₃, rfl⟩ := exists_ofLE hi
  obtain ⟨m₀, m₁, m₂, m₃, rfl⟩ := exists_ofLE mid
  obtain ⟨l₀, l₁, l₂, l₃, rfl⟩ := exists_ofLE lo
  rw [switchRC572Format_ofLE]
  exact Key72.valid_ofLE ..

/-- **A mangled key enumerates what the unmangled one counts**, its top byte being all that counts
of the top word. -/
theorem index_switchRC572Format (k : Key72) :
    (switchRC572Format k).index = k.int % 2 ^ 72 := by
  obtain ⟨hi, mid, lo⟩ := k
  obtain ⟨h₀, h₁, h₂, h₃, rfl⟩ := exists_ofLE hi
  obtain ⟨m₀, m₁, m₂, m₃, rfl⟩ := exists_ofLE mid
  obtain ⟨l₀, l₁, l₂, l₃, rfl⟩ := exists_ofLE lo
  rw [switchRC572Format_ofLE, Key72.index_ofLE, Key72.int, toNat_ofLE, toNat_ofLE, toNat_ofLE]
  omega

theorem switchRC572Format_switchRC572Format {k : Key72} (h : k.Valid) :
    switchRC572Format (switchRC572Format k) = k := by
  obtain ⟨x, a, b, c, d, a', b', c', d', rfl⟩ := h.exists_bytes
  rw [switchRC572Format_ofLE, switchRC572Format_ofLE]

theorem int_switchRC572Format {k : Key72} (h : k.Valid) : (switchRC572Format k).int = k.index := by
  have hindex := index_switchRC572Format (switchRC572Format k)
  rw [switchRC572Format_switchRC572Format h,
    Nat.mod_eq_of_lt (Key72.int_lt (valid_switchRC572Format k))] at hindex
  exact hindex.symm

/-! ## The key of an integer -/

namespace Key72

/-- The key the client counts as `n`. -/
def ofInt (n : ℕ) : Key72 :=
  ⟨BitVec.ofNat 32 (n / 2 ^ 64), BitVec.ofNat 32 (n / 2 ^ 32), BitVec.ofNat 32 n⟩

theorem int_ofInt {n : ℕ} (h : n < 2 ^ 72) : (ofInt n).int = n := by
  simp only [ofInt, int, BitVec.toNat_ofNat]
  omega

theorem int_inj {k k' : Key72} (h : k.int = k'.int) : k = k' := by
  obtain ⟨hi, mid, lo⟩ := k
  obtain ⟨hi', mid', lo'⟩ := k'
  have hm := mid.isLt; have hl := lo.isLt
  have hm' := mid'.isLt; have hl' := lo'.isLt
  simp only [int] at h
  have e₁ : hi = hi' := BitVec.eq_of_toNat_eq (by omega)
  have e₂ : mid = mid' := BitVec.eq_of_toNat_eq (by omega)
  have e₃ : lo = lo' := BitVec.eq_of_toNat_eq (by omega)
  rw [e₁, e₂, e₃]

end Key72

/-! ## The client's key increment -/

/-- A sum of words has overflowed exactly when it is less than a summand. -/
theorem add_lt_iff (x y : U32) : x + y < y ↔ 2 ^ 32 ≤ x.toNat + y.toNat := by
  have hx := x.isLt
  have hy := y.isLt
  rw [BitVec.lt_def, BitVec.toNat_add]
  omega

/-- Add a word to the low word of a key, with carries through the other two. -/
def Key72.addLo (k : Key72) (n : U32) : Key72 :=
  let lo := k.lo + n
  if lo < n then
    let mid := k.mid + 1#32
    ⟨if mid = 0#32 then k.hi + 1#32 else k.hi, mid, lo⟩
  else ⟨k.hi, k.mid, lo⟩

theorem Key72.int_addLo (k : Key72) (n : U32) : (k.addLo n).int = (k.int + n.toNat) % 2 ^ 96 := by
  have hh := k.hi.isLt; have hm := k.mid.isLt; have hl := k.lo.isLt
  have hn := n.isLt
  have hzero : k.mid + 1#32 = 0#32 ↔ k.mid.toNat = 2 ^ 32 - 1 := by
    rw [← BitVec.toNat_inj, BitVec.toNat_add]
    simp only [BitVec.toNat_ofNat]
    omega
  simp only [addLo, add_lt_iff, hzero, int]
  split_ifs <;> simp only [BitVec.toNat_add, BitVec.toNat_ofNat] <;> omega

/-- Advance a mangled key by `iters`. -/
def incrementKey (k : Key72) (iters : U32) : Key72 :=
  switchRC572Format ((switchRC572Format k).addLo iters)

/-- **The client's increment by `n` is `n` steps of the reference core.** -/
theorem incrementKey_eq_iterate {k : Key72} (h : k.Valid) (iters : U32) :
    incrementKey k iters = refKeyStep^[iters.toNat] k := by
  rw [incrementKey]
  apply Key72.index_inj (valid_switchRC572Format _) (valid_iterate_refKeyStep h _)
  rw [index_switchRC572Format, Key72.int_addLo, int_switchRC572Format h,
    index_iterate_refKeyStep h]
  omega

/-- Stepping a mangled key is counting on. -/
theorem iterate_switchRC572Format (k : Key72) (n : ℕ) :
    refKeyStep^[n] (switchRC572Format k)
      = switchRC572Format (Key72.ofInt ((k.int + n) % 2 ^ 72)) := by
  have hlt : (k.int + n) % 2 ^ 72 < 2 ^ 72 := Nat.mod_lt _ (Nat.two_pow_pos 72)
  apply Key72.index_inj (valid_iterate_refKeyStep (valid_switchRC572Format k) n)
    (valid_switchRC572Format _)
  rw [index_iterate_refKeyStep (valid_switchRC572Format k), index_switchRC572Format,
    index_switchRC572Format, Key72.int_ofInt hlt, Nat.mod_add_mod, Nat.mod_mod]

/-! ## The three increments are one

The increment of the CUDA core, the key step of the reference core and the increment of the client
are all addition on `index`, so they agree, and increments add up. -/

theorem hyIncrementL0_hyIncrementL0 {k : Key72} (h : k.Valid) {a b : U32}
    (hab : a.toNat + b.toNat < 2 ^ 32) :
    hyIncrementL0 (hyIncrementL0 k a) b = hyIncrementL0 k (a + b) := by
  have hsum : (a + b).toNat = b.toNat + a.toNat := by
    rw [BitVec.toNat_add, Nat.mod_eq_of_lt hab, Nat.add_comm]
  rw [hyIncrementL0_eq_iterate h a, hyIncrementL0_eq_iterate (valid_iterate_refKeyStep h _),
    hyIncrementL0_eq_iterate h, ← Function.iterate_add_apply, hsum]

/-- Unmangled, the client's increment is the addition of integers. -/
theorem int_switchRC572Format_incrementKey {k : Key72} (h : k.Valid) (iters : U32) :
    (switchRC572Format (incrementKey k iters)).int
      = ((switchRC572Format k).int + iters.toNat) % 2 ^ 72 := by
  rw [incrementKey_eq_iterate h, int_switchRC572Format (valid_iterate_refKeyStep h _),
    index_iterate_refKeyStep h, int_switchRC572Format h]

/-- **The CUDA increment enumerates keys as the rest of the client does.** It adds modulo `2⁷²` to
the place of the key, so it is the reference core's key step repeated, and the client's increment,
which conjugates the addition of integers with the mangling; and increments add up as long as the
amounts do. -/
theorem hyIncrementL0_enumerates {k : Key72} (hk : k.hi.toNat ≤ 0xFF) (amount : U32) :
    (hyIncrementL0 k amount).Valid ∧
      (hyIncrementL0 k amount).index = (k.index + amount.toNat) % 2 ^ 72 ∧
      hyIncrementL0 k amount = refKeyStep^[amount.toNat] k ∧
      hyIncrementL0 k amount = incrementKey k amount ∧
      (switchRC572Format (switchRC572Format k) = k ∧
        (switchRC572Format (incrementKey k amount)).int
          = ((switchRC572Format k).int + amount.toNat) % 2 ^ 72) ∧
      ∀ b : U32, amount.toNat + b.toNat < 2 ^ 32 →
        hyIncrementL0 (hyIncrementL0 k amount) b = hyIncrementL0 k (amount + b) := by
  have h : k.Valid := Nat.lt_succ_of_le hk
  refine ⟨valid_hyIncrementL0 k amount, index_hyIncrementL0 k amount,
    hyIncrementL0_eq_iterate h amount, ?_,
    ⟨switchRC572Format_switchRC572Format h, int_switchRC572Format_incrementKey h amount⟩, ?_⟩
  · rw [hyIncrementL0_eq_iterate h, incrementKey_eq_iterate h]
  · intro b hab
    exact hyIncrementL0_hyIncrementL0 h hab

/-- At the last key of all, where every carry runs to the end. -/
theorem hyIncrementL0_enumerates_last :
    let k : Key72 := ⟨0xFF#32, 0xFFFFFFFF#32, 0xFFFFFFFF#32⟩
    (hyIncrementL0 k 2#32).index = (k.index + 2) % 2 ^ 72 ∧
      hyIncrementL0 k 2#32 = incrementKey k 2#32 ∧
      hyIncrementL0 (hyIncrementL0 k 2#32) 3#32 = hyIncrementL0 k (2#32 + 3#32) := by
  intro k
  obtain ⟨-, hindex, -, hclient, -, hadd⟩ := hyIncrementL0_enumerates (k := k) (by decide) 2#32
  exact ⟨hindex, hclient, hadd 3#32 (by decide)⟩

end Hyunjin
