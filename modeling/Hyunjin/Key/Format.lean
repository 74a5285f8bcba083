import Hyunjin.Word.Bytes

/-!
# The encodings of an RC5-72 key

A 72-bit key is held in three 32-bit words `hi`, `mid`, `lo`, of which `hi` uses its low byte only.
The words are read in two ways.

* The client counts keys as the integer `hi · 2⁶⁴ + mid · 2³² + lo`, which is `Key72.int`.
* The cores hold the same key *mangled*, with the bytes reversed end to end, so that its place in
  the enumeration is `hi + bswap mid · 2⁸ + bswap lo · 2⁴⁰`, which is `Key72.index`.

`switchRC572Format` goes from one to the other. Three pieces of code advance a mangled key: the
nested byte carries of the reference core, the 40-bit carry of the CUDA core, and the client's
unmangle–add–mangle. Each is addition on `index` modulo `2⁷²`, and since `index` is injective on
valid keys, they agree.
-/

namespace Hyunjin

open Word

/-- A 72-bit key as three words. -/
structure Key72 where
  hi : U32
  mid : U32
  lo : U32
  deriving DecidableEq, Repr

namespace Key72

/-- Only the low byte of `hi` belongs to the key. -/
def Valid (k : Key72) : Prop := k.hi.toNat < 2 ^ 8

instance (k : Key72) : Decidable k.Valid := inferInstanceAs (Decidable (_ < _))

/-- The integer the client reads in an unmangled key. -/
def int (k : Key72) : ℕ := 2 ^ 64 * k.hi.toNat + 2 ^ 32 * k.mid.toNat + k.lo.toNat

/-- The place of a mangled key in the order in which the cores enumerate keys. -/
def index (k : Key72) : ℕ :=
  k.hi.toNat + 2 ^ 8 * (byteSwap k.mid).toNat + 2 ^ 40 * (byteSwap k.lo).toNat

theorem index_lt {k : Key72} (h : k.Valid) : k.index < 2 ^ 72 := by
  have hm := (byteSwap k.mid).isLt
  have hl := (byteSwap k.lo).isLt
  simp only [Valid] at h
  simp only [index]
  omega

theorem int_lt {k : Key72} (h : k.Valid) : k.int < 2 ^ 72 := by
  have hm := k.mid.isLt
  have hl := k.lo.isLt
  simp only [Valid] at h
  simp only [int]
  omega

theorem index_inj {k k' : Key72} (h : k.Valid) (h' : k'.Valid) (hidx : k.index = k'.index) :
    k = k' := by
  have hm := (byteSwap k.mid).isLt
  have hm' := (byteSwap k'.mid).isLt
  simp only [Valid] at h h'
  simp only [index] at hidx
  have e₁ : k.hi = k'.hi := BitVec.eq_of_toNat_eq (by omega)
  have e₂ : k.mid = k'.mid := byteSwap_inj.mp (BitVec.eq_of_toNat_eq (by omega))
  have e₃ : k.lo = k'.lo := byteSwap_inj.mp (BitVec.eq_of_toNat_eq (by omega))
  cases k
  cases k'
  simp_all

end Key72

/-! ## The reference core's key step -/

/-- One key step of the reference core: a byte-by-byte carry from `hi` through `mid` into `lo`. -/
def refKeyStep (key : Key72) : Key72 :=
  let hi := (key.hi + 0x01#32) &&& 0x000000FF#32
  if hi = 0#32 then
    let mid := key.mid + 0x01000000#32
    if mid &&& 0xFF000000#32 = 0#32 then
      let mid := (mid + 0x00010000#32) &&& 0x00FFFFFF#32
      if mid &&& 0x00FF0000#32 = 0#32 then
        let mid := (mid + 0x00000100#32) &&& 0x0000FFFF#32
        if mid &&& 0x0000FF00#32 = 0#32 then
          let mid := (mid + 0x00000001#32) &&& 0x000000FF#32
          if mid = 0#32 then
            let lo := key.lo + 0x01000000#32
            if lo &&& 0xFF000000#32 = 0#32 then
              let lo := (lo + 0x00010000#32) &&& 0x00FFFFFF#32
              if lo &&& 0x00FF0000#32 = 0#32 then
                let lo := (lo + 0x00000100#32) &&& 0x0000FFFF#32
                if lo &&& 0x0000FF00#32 = 0#32 then
                  ⟨hi, mid, (lo + 0x00000001#32) &&& 0x000000FF#32⟩
                else ⟨hi, mid, lo⟩
              else ⟨hi, mid, lo⟩
            else ⟨hi, mid, lo⟩
          else ⟨hi, mid, key.lo⟩
        else ⟨hi, mid, key.lo⟩
      else ⟨hi, mid, key.lo⟩
    else ⟨hi, mid, key.lo⟩
  else ⟨hi, key.mid, key.lo⟩

/-! The four levels of the carry, on the bytes of a word. -/

private theorem carry_byte3 (a b c d : U8) :
    ofLE a b c d + 0x01000000#32 = ofLE a b c (d + 1#8) := by
  refine BitVec.eq_of_toNat_eq ?_
  rw [BitVec.toNat_add, toNat_ofLE, toNat_ofLE, BitVec.toNat_add]
  simp only [BitVec.toNat_ofNat]
  omega

private theorem mask_low3 : 0x00FFFFFF#32 = ofLE 0xFF#8 0xFF#8 0xFF#8 0#8 := rfl

private theorem mask_low2 : 0x0000FFFF#32 = ofLE 0xFF#8 0xFF#8 0#8 0#8 := rfl

private theorem carry_byte2 (a b c : U8) :
    (ofLE a b c 0#8 + 0x00010000#32) &&& 0x00FFFFFF#32 = ofLE a b (c + 1#8) 0#8 := by
  have hsum : ∃ d, ofLE a b c 0#8 + 0x00010000#32 = ofLE a b (c + 1#8) d := by
    refine ⟨if c.toNat = 255 then 1#8 else 0#8, BitVec.eq_of_toNat_eq ?_⟩
    rw [BitVec.toNat_add, toNat_ofLE, toNat_ofLE, BitVec.toNat_add]
    split_ifs <;> simp only [BitVec.toNat_ofNat] <;> omega
  obtain ⟨d, hd⟩ := hsum
  rw [hd, mask_low3, ofLE_and, and_ff, and_ff, and_ff, BitVec.and_zero]

private theorem carry_byte1 (a b : U8) :
    (ofLE a b 0#8 0#8 + 0x00000100#32) &&& 0x0000FFFF#32 = ofLE a (b + 1#8) 0#8 0#8 := by
  have hsum : ∃ c, ofLE a b 0#8 0#8 + 0x00000100#32 = ofLE a (b + 1#8) c 0#8 := by
    refine ⟨if b.toNat = 255 then 1#8 else 0#8, BitVec.eq_of_toNat_eq ?_⟩
    rw [BitVec.toNat_add, toNat_ofLE, toNat_ofLE, BitVec.toNat_add]
    split_ifs <;> simp only [BitVec.toNat_ofNat] <;> omega
  obtain ⟨c, hc⟩ := hsum
  rw [hc, mask_low2, ofLE_and, and_ff, and_ff, BitVec.and_zero, BitVec.and_zero]

private theorem carry_byte0 (a : U8) :
    (ofLE a 0#8 0#8 0#8 + 0x00000001#32) &&& 0x000000FF#32 = ofLE (a + 1#8) 0#8 0#8 0#8 := by
  have hsum : ∃ b, ofLE a 0#8 0#8 0#8 + 0x00000001#32 = ofLE (a + 1#8) b 0#8 0#8 := by
    refine ⟨if a.toNat = 255 then 1#8 else 0#8, BitVec.eq_of_toNat_eq ?_⟩
    rw [BitVec.toNat_add, toNat_ofLE, toNat_ofLE, BitVec.toNat_add]
    split_ifs <;> simp only [BitVec.toNat_ofNat] <;> omega
  obtain ⟨b, hb⟩ := hsum
  rw [hb, mask_byte0, ofLE_and, and_ff, BitVec.and_zero, BitVec.and_zero]

private theorem byte3_eq_zero (a b c d : U8) :
    ofLE a b c d &&& 0xFF000000#32 = 0#32 ↔ d = 0#8 := by
  simp [mask_byte3, ofLE_and, and_ff, ofLE_eq_zero_iff]

private theorem byte2_eq_zero (a b c d : U8) :
    ofLE a b c d &&& 0x00FF0000#32 = 0#32 ↔ c = 0#8 := by
  simp [mask_byte2, ofLE_and, and_ff, ofLE_eq_zero_iff]

private theorem byte1_eq_zero (a b c d : U8) :
    ofLE a b c d &&& 0x0000FF00#32 = 0#32 ↔ b = 0#8 := by
  simp [mask_byte1, ofLE_and, and_ff, ofLE_eq_zero_iff]

/-- The carry on bytes: the key step is an odometer over the nine key bytes. -/
private theorem refKeyStep_ofLE (h a b c d a' b' c' d' : U8) :
    refKeyStep ⟨ofLE h 0#8 0#8 0#8, ofLE a b c d, ofLE a' b' c' d'⟩
      = if h + 1#8 = 0#8 then
          if d + 1#8 = 0#8 then if c + 1#8 = 0#8 then if b + 1#8 = 0#8 then if a + 1#8 = 0#8 then
            ⟨0#32, 0#32,
              if d' + 1#8 = 0#8 then if c' + 1#8 = 0#8 then if b' + 1#8 = 0#8 then
                ofLE (a' + 1#8) 0#8 0#8 0#8
                else ofLE a' (b' + 1#8) 0#8 0#8
                else ofLE a' b' (c' + 1#8) 0#8
                else ofLE a' b' c' (d' + 1#8)⟩
            else ⟨0#32, ofLE (a + 1#8) 0#8 0#8 0#8, ofLE a' b' c' d'⟩
            else ⟨0#32, ofLE a (b + 1#8) 0#8 0#8, ofLE a' b' c' d'⟩
            else ⟨0#32, ofLE a b (c + 1#8) 0#8, ofLE a' b' c' d'⟩
            else ⟨0#32, ofLE a b c (d + 1#8), ofLE a' b' c' d'⟩
        else ⟨ofLE (h + 1#8) 0#8 0#8 0#8, ofLE a b c d, ofLE a' b' c' d'⟩ := by
  simp only [refKeyStep, carry_byte0, carry_byte3, byte3_eq_zero, ofLE_eq_zero_iff, and_true]
  by_cases hh : h + 1#8 = 0#8
  · simp only [hh, if_true]
    by_cases hd : d + 1#8 = 0#8
    · simp only [hd, if_true, carry_byte2, byte2_eq_zero]
      by_cases hc : c + 1#8 = 0#8
      · simp only [hc, if_true, carry_byte1, byte1_eq_zero]
        by_cases hb : b + 1#8 = 0#8
        · simp only [hb, if_true, carry_byte0, ofLE_eq_zero_iff, and_true]
          by_cases ha : a + 1#8 = 0#8
          · simp only [ha, if_true]
            by_cases hd' : d' + 1#8 = 0#8
            · simp only [hd', if_true, carry_byte2, byte2_eq_zero]
              by_cases hc' : c' + 1#8 = 0#8
              · simp only [hc', if_true, carry_byte1, byte1_eq_zero]
                by_cases hb' : b' + 1#8 = 0#8
                · simp only [hb', if_true, carry_byte0]
                  rfl
                · simp only [hb', if_false]
                  rfl
              · simp only [hc', if_false]
                rfl
            · simp only [hd', if_false]
              rfl
          · simp only [ha, if_false]
            rfl
        · simp only [hb, if_false]
          rfl
      · simp only [hc, if_false]
        rfl
    · simp only [hd, if_false]
      rfl
  · simp only [hh, if_false]

/-- A valid key is one low byte of `hi` and the eight bytes of `mid` and `lo`. -/
theorem Key72.Valid.exists_bytes {k : Key72} (h : k.Valid) : ∃ x a b c d a' b' c' d' : U8,
    k = ⟨ofLE x 0#8 0#8 0#8, ofLE a b c d, ofLE a' b' c' d'⟩ := by
  obtain ⟨hi, mid, lo⟩ := k
  obtain ⟨x, x₁, x₂, x₃, rfl⟩ := exists_ofLE hi
  obtain ⟨a, b, c, d, rfl⟩ := exists_ofLE mid
  obtain ⟨a', b', c', d', rfl⟩ := exists_ofLE lo
  rw [Key72.Valid, toNat_ofLE] at h
  have h₁ : x₁ = 0#8 := BitVec.eq_of_toNat_eq (by simp only [BitVec.toNat_ofNat]; omega)
  have h₂ : x₂ = 0#8 := BitVec.eq_of_toNat_eq (by simp only [BitVec.toNat_ofNat]; omega)
  have h₃ : x₃ = 0#8 := BitVec.eq_of_toNat_eq (by simp only [BitVec.toNat_ofNat]; omega)
  exact ⟨x, a, b, c, d, a', b', c', d', by rw [h₁, h₂, h₃]⟩

theorem Key72.valid_ofLE (x : U8) (m l : U32) : Key72.Valid ⟨ofLE x 0#8 0#8 0#8, m, l⟩ := by
  rw [Key72.Valid, toNat_ofLE]
  simp only [BitVec.toNat_ofNat]
  omega

theorem Key72.index_ofLE (x a b c d a' b' c' d' : U8) :
    Key72.index ⟨ofLE x 0#8 0#8 0#8, ofLE a b c d, ofLE a' b' c' d'⟩
      = x.toNat + 2 ^ 8 * d.toNat + 2 ^ 16 * c.toNat + 2 ^ 24 * b.toNat + 2 ^ 32 * a.toNat
        + 2 ^ 40 * d'.toNat + 2 ^ 48 * c'.toNat + 2 ^ 56 * b'.toNat + 2 ^ 64 * a'.toNat := by
  rw [Key72.index]
  simp only [byteSwap_ofLE, toNat_ofLE, BitVec.toNat_ofNat]
  omega

private theorem byte_succ (a : U8) :
    (a + 1#8 = 0#8 ∧ a.toNat = 255) ∨ (a + 1#8 ≠ 0#8 ∧ (a + 1#8).toNat = a.toNat + 1) := by
  by_cases h : a.toNat = 255
  · refine Or.inl ⟨BitVec.eq_of_toNat_eq ?_, h⟩
    rw [BitVec.toNat_add, h]
    rfl
  · have hval : (a + 1#8).toNat = a.toNat + 1 := by
      rw [BitVec.toNat_add]
      simp only [BitVec.toNat_ofNat]
      omega
    refine Or.inr ⟨fun h0 ↦ ?_, hval⟩
    rw [h0] at hval
    simp at hval

/-- **The key step of the reference core is the successor modulo `2⁷²`.** -/
theorem index_refKeyStep {k : Key72} (h : k.Valid) :
    (refKeyStep k).index = (k.index + 1) % 2 ^ 72 := by
  obtain ⟨x, a, b, c, d, a', b', c', d', rfl⟩ := h.exists_bytes
  have zero : (0#32 : U32) = ofLE 0#8 0#8 0#8 0#8 := rfl
  have z : (0#8 : U8).toNat = 0 := rfl
  rw [refKeyStep_ofLE, Key72.index_ofLE]
  have hx := x.isLt; have ha := a.isLt; have hb := b.isLt; have hc := c.isLt; have hd := d.isLt
  have ha' := a'.isLt; have hb' := b'.isLt; have hc' := c'.isLt; have hd' := d'.isLt
  rcases byte_succ x with ⟨e, n⟩ | ⟨e, n⟩
  swap
  · rw [if_neg e, Key72.index_ofLE]; omega
  rw [if_pos e]
  rcases byte_succ d with ⟨ed, nd⟩ | ⟨ed, nd⟩
  swap
  · rw [if_neg ed, zero, Key72.index_ofLE]; omega
  rw [if_pos ed]
  rcases byte_succ c with ⟨ec, nc⟩ | ⟨ec, nc⟩
  swap
  · rw [if_neg ec, zero, Key72.index_ofLE]; omega
  rw [if_pos ec]
  rcases byte_succ b with ⟨eb, nb⟩ | ⟨eb, nb⟩
  swap
  · rw [if_neg eb, zero, Key72.index_ofLE]; omega
  rw [if_pos eb]
  rcases byte_succ a with ⟨ea, na⟩ | ⟨ea, na⟩
  swap
  · rw [if_neg ea, zero, Key72.index_ofLE]; omega
  rw [if_pos ea, zero]
  rcases byte_succ d' with ⟨ed', nd'⟩ | ⟨ed', nd'⟩
  swap
  · rw [if_neg ed', Key72.index_ofLE]; omega
  rw [if_pos ed']
  rcases byte_succ c' with ⟨ec', nc'⟩ | ⟨ec', nc'⟩
  swap
  · rw [if_neg ec', Key72.index_ofLE]; omega
  rw [if_pos ec']
  rcases byte_succ b' with ⟨eb', nb'⟩ | ⟨eb', nb'⟩
  swap
  · rw [if_neg eb', Key72.index_ofLE]; omega
  rw [if_pos eb', Key72.index_ofLE]
  rcases byte_succ a' with ⟨ea', na'⟩ | ⟨ea', na'⟩
  · rw [ea']; omega
  · omega

theorem valid_refKeyStep (k : Key72) : (refKeyStep k).Valid := by
  obtain ⟨hi, mid, lo⟩ := k
  obtain ⟨x, x₁, x₂, x₃, hx⟩ := exists_ofLE (hi + 0x01#32)
  have hlow : ((hi + 0x01#32) &&& 0x000000FF#32).toNat < 2 ^ 8 := by
    rw [hx, mask_byte0, ofLE_and, BitVec.and_zero, BitVec.and_zero, BitVec.and_zero]
    exact Key72.valid_ofLE (x &&& 0xFF#8) 0#32 0#32
  simp only [refKeyStep, Key72.Valid]
  split_ifs <;> exact hlow

/-! ## The CUDA core's key increment -/

def hyBswap32 (x : U32) : U32 := byteSwap x

/-- Add `amount` to a mangled key, with one carry out of the low 40 bits. -/
def hyIncrementL0 (k : Key72) (amount : U32) : Key72 :=
  let Hs : U64 := k.hi.setWidth 64
  let M64 : U64 := (hyBswap32 k.mid).setWidth 64
  let Bs : U64 := (hyBswap32 k.lo).setWidth 64
  let mask40 : U64 := (1#64 <<< 40) - 1#64
  let lo64 := Hs + (M64 <<< 8)
  let lo64 := lo64 + amount.setWidth 64
  let carry := lo64 >>> 40
  let lo64 := lo64 &&& mask40
  let Bc := Bs + carry
  { hi := (lo64 &&& 0xFF#64).setWidth 32
    mid := hyBswap32 (((lo64 >>> 8) &&& 0xFFFFFFFF#64).setWidth 32)
    lo := hyBswap32 ((Bc &&& 0xFFFFFFFF#64).setWidth 32) }

private theorem toNat_and_mask {w n : ℕ} (x m : BitVec w) (hm : m.toNat = 2 ^ n - 1) :
    (x &&& m).toNat = x.toNat % 2 ^ n := by
  rw [BitVec.toNat_and, hm, Nat.and_two_pow_sub_one_eq_mod]

theorem valid_hyIncrementL0 (k : Key72) (amount : U32) : (hyIncrementL0 k amount).Valid := by
  simp only [hyIncrementL0, Key72.Valid, BitVec.toNat_setWidth]
  rw [toNat_and_mask (n := 8) _ _ rfl]
  omega

/-- **The CUDA increment is addition modulo `2⁷²`**, whatever bits `hi` has above its low byte. -/
theorem index_hyIncrementL0 (k : Key72) (amount : U32) :
    (hyIncrementL0 k amount).index = (k.index + amount.toNat) % 2 ^ 72 := by
  have hm := (byteSwap k.mid).isLt
  have hl := (byteSwap k.lo).isLt
  have hh := k.hi.isLt
  have hamt := amount.isLt
  simp only [hyIncrementL0, hyBswap32, Key72.index, byteSwap_byteSwap, BitVec.toNat_setWidth]
  rw [toNat_and_mask (n := 8) _ _ rfl, toNat_and_mask (n := 32) _ 0xFFFFFFFF#64 rfl,
    toNat_and_mask (n := 32) _ 0xFFFFFFFF#64 rfl]
  simp only [BitVec.toNat_ushiftRight, Nat.shiftRight_eq_div_pow]
  rw [toNat_and_mask (n := 40) _ _ rfl]
  simp only [BitVec.toNat_add, BitVec.toNat_setWidth, BitVec.toNat_shiftLeft, Nat.shiftLeft_eq,
    BitVec.toNat_ushiftRight, Nat.shiftRight_eq_div_pow]
  omega

theorem valid_iterate_refKeyStep {k : Key72} (h : k.Valid) (n : ℕ) : (refKeyStep^[n] k).Valid := by
  cases n with
  | zero => exact h
  | succ n =>
    rw [Function.iterate_succ_apply']
    exact valid_refKeyStep _

theorem index_iterate_refKeyStep {k : Key72} (h : k.Valid) (n : ℕ) :
    (refKeyStep^[n] k).index = (k.index + n) % 2 ^ 72 := by
  induction n with
  | zero =>
    rw [Function.iterate_zero_apply, Nat.add_zero, Nat.mod_eq_of_lt (Key72.index_lt h)]
  | succ n ih =>
    rw [Function.iterate_succ_apply', index_refKeyStep (valid_iterate_refKeyStep h n), ih]
    omega

/-- The CUDA increment by `n` is `n` steps of the reference core. -/
theorem hyIncrementL0_eq_iterate {k : Key72} (h : k.Valid) (amount : U32) :
    hyIncrementL0 k amount = refKeyStep^[amount.toNat] k := by
  refine Key72.index_inj (valid_hyIncrementL0 k amount) (valid_iterate_refKeyStep h _) ?_
  rw [index_hyIncrementL0, index_iterate_refKeyStep h]

end Hyunjin
