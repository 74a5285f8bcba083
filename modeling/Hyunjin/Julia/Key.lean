import Hyunjin.Key.Format
import Hyunjin.Word.Convert

/-!
# Key arithmetic of the Julia port

The Julia port has its own key increment and, for its reference checks, an addition of a signed
delta. Julia's arithmetic on fixed-width integers wraps like C's, but its conversions are checked: a
constructor such as `UInt32(x)` raises an `InexactError` where C would truncate. Every function that
converts is therefore an `Option` here.

`r72Add` reduces a negative delta through `UInt128(-d)`. The negation wraps at the least `Int128`,
whose negation is itself, and the conversion then fails: this is the one delta for which there is no
key (`r72Add_min`). For every other delta the addition is that of `ℤ` modulo `2⁷²`.
-/

namespace Hyunjin.Julia

open Word

def hyBswap32 (x : U32) : U32 :=
  ((x &&& 0x000000FF#32) <<< 24) ||| ((x &&& 0x0000FF00#32) <<< 8) |||
    ((x &&& 0x00FF0000#32) >>> 8) ||| ((x &&& 0xFF000000#32) >>> 24)

/-- Add `amount` to a key, in the enumeration order of the cores. -/
def hyIncrementL0 (k : Key72) (amount : U32) : Option Key72 :=
  let Hs : U64 := k.hi.setWidth 64
  let M64 : U64 := (hyBswap32 k.mid).setWidth 64
  let Bs : U64 := (hyBswap32 k.lo).setWidth 64
  let mask40 : U64 := (1#64 <<< 40) - 1#64
  let lo64 := Hs + (M64 <<< 8)
  let lo64 := lo64 + amount.setWidth 64
  let carry := lo64 >>> 40
  let lo64 := lo64 &&& mask40
  let Bc := Bs + carry
  (toUnsigned 32 (lo64 &&& 0xFF#64).toNat).bind fun nhi ↦
    (toUnsigned 32 ((lo64 >>> 8) &&& 0xFFFFFFFF#64).toNat).bind fun nmid ↦
      (toUnsigned 32 (Bc &&& 0xFFFFFFFF#64).toNat).map fun nlo ↦
        ⟨nhi, hyBswap32 nmid, hyBswap32 nlo⟩

/-- The integer of a key in the enumeration order. -/
def r72Decode (k : Key72) : BitVec 128 :=
  let K : BitVec 128 := k.hi.setWidth 128
  let K := K ||| (hyBswap32 k.mid).setWidth 128 <<< 8
  K ||| (hyBswap32 k.lo).setWidth 128 <<< 40

/-- The key of an integer. -/
def r72Encode (K : BitVec 128) : Option Key72 :=
  (toUnsigned 32 (K &&& 0xFF#128).toNat).bind fun hi ↦
    (toUnsigned 32 ((K >>> 8) &&& 0xFFFFFFFF#128).toNat).bind fun mid ↦
      (toUnsigned 32 ((K >>> 40) &&& 0xFFFFFFFF#128).toNat).map fun lo ↦
        ⟨hi, hyBswap32 mid, hyBswap32 lo⟩

/-- Add a signed delta to a key. -/
def r72Add (k : Key72) (delta : ℤ) : Option Key72 :=
  let K := r72Decode k
  let modulus : BitVec 128 := 1#128 <<< 72
  (toSigned 128 delta).bind fun d ↦
    let D := if 0 ≤ d.toInt then toUnsigned 128 d.toInt
      else (toUnsigned 128 (-d).toInt).map fun D ↦ modulus - D
    D.bind fun D ↦ r72Encode ((K + D) &&& (modulus - 1#128))

/-! ## The conversions of the increment never fail -/

private theorem toNat_and_low {w n : ℕ} (x m : BitVec w) (hm : m.toNat = 2 ^ n - 1) :
    (x &&& m).toNat = x.toNat % 2 ^ n := by
  rw [BitVec.toNat_and, hm, Nat.and_two_pow_sub_one_eq_mod]

/-- A field masked out of a word converts, as the mask leaves at most 32 bits. -/
private theorem toUnsigned_masked {w n : ℕ} (x m : BitVec w) (hm : m.toNat = 2 ^ n - 1)
    (hn : n ≤ 32) : toUnsigned 32 (x &&& m).toNat = some ((x &&& m).setWidth 32) := by
  refine toUnsigned_toNat ?_
  rw [toNat_and_low x m hm]
  exact (Nat.mod_lt _ (Nat.two_pow_pos n)).trans_le (Nat.pow_le_pow_right (by decide) hn)

/-- **The two increments are one.** -/
theorem hyIncrementL0_eq (k : Key72) (amount : U32) :
    hyIncrementL0 k amount = some (Hyunjin.hyIncrementL0 k amount) := by
  rw [hyIncrementL0, toUnsigned_masked (n := 8) _ _ rfl (by decide), Option.bind_some,
    toUnsigned_masked (n := 32) _ _ rfl (by decide), Option.bind_some,
    toUnsigned_masked (n := 32) _ _ rfl (by decide), Option.map_some]
  rfl

/-! ## Decoding and encoding -/

theorem toNat_r72Decode {k : Key72} (h : k.Valid) : (r72Decode k).toNat = k.index := by
  have hm := (byteSwap k.mid).isLt
  have hl := (byteSwap k.lo).isLt
  have hh : k.hi.toNat < 2 ^ 8 := h
  have hlow : 2 ^ 8 * (byteSwap k.mid).toNat + k.hi.toNat
      = k.hi.toNat ||| (byteSwap k.mid).toNat <<< 8 := by
    rw [Nat.two_pow_add_eq_or_of_lt hh, Nat.shiftLeft_eq, Nat.mul_comm, Nat.or_comm]
  have hall : 2 ^ 40 * (byteSwap k.lo).toNat + (2 ^ 8 * (byteSwap k.mid).toNat + k.hi.toNat)
      = 2 ^ 8 * (byteSwap k.mid).toNat + k.hi.toNat ||| (byteSwap k.lo).toNat <<< 40 := by
    rw [Nat.two_pow_add_eq_or_of_lt (by omega), Nat.shiftLeft_eq, Nat.mul_comm, Nat.or_comm]
  have hswap (x : U32) : hyBswap32 x = byteSwap x := rfl
  simp only [r72Decode, hswap, BitVec.toNat_or, BitVec.toNat_shiftLeft, BitVec.toNat_setWidth]
  rw [Nat.mod_eq_of_lt (a := k.hi.toNat) (by omega),
    Nat.mod_eq_of_lt (a := (byteSwap k.mid).toNat) (by omega),
    Nat.mod_eq_of_lt (a := (byteSwap k.lo).toNat) (by omega),
    Nat.mod_eq_of_lt (a := (byteSwap k.mid).toNat <<< 8) (by rw [Nat.shiftLeft_eq]; omega),
    Nat.mod_eq_of_lt (a := (byteSwap k.lo).toNat <<< 40) (by rw [Nat.shiftLeft_eq]; omega),
    ← hlow, ← hall, Key72.index]
  omega

/-- Every integer has a key, that of its residue modulo `2⁷²`. -/
theorem exists_r72Encode (K : BitVec 128) :
    ∃ k, r72Encode K = some k ∧ k.Valid ∧ k.index = K.toNat % 2 ^ 72 := by
  have hswap (x : U32) : hyBswap32 x = byteSwap x := rfl
  refine ⟨_, by rw [r72Encode, toUnsigned_masked (n := 8) _ _ rfl (by decide), Option.bind_some,
    toUnsigned_masked (n := 32) _ _ rfl (by decide), Option.bind_some,
    toUnsigned_masked (n := 32) _ _ rfl (by decide), Option.map_some], ?_, ?_⟩
  · simp only [Key72.Valid, BitVec.toNat_setWidth]
    rw [toNat_and_low (n := 8) _ _ rfl]
    omega
  · simp only [Key72.index, hswap, byteSwap_byteSwap, BitVec.toNat_setWidth]
    rw [toNat_and_low (n := 8) _ _ rfl, toNat_and_low (n := 32) (K >>> 8) _ rfl,
      toNat_and_low (n := 32) (K >>> 40) _ rfl]
    simp only [BitVec.toNat_ushiftRight, Nat.shiftRight_eq_div_pow]
    omega

theorem r72Encode_r72Decode {k : Key72} (h : k.Valid) : r72Encode (r72Decode k) = some k := by
  obtain ⟨k', hk', hvalid, hindex⟩ := exists_r72Encode (r72Decode k)
  rw [toNat_r72Decode h, Nat.mod_eq_of_lt (Key72.index_lt h)] at hindex
  rw [hk', Key72.index_inj hvalid h hindex]

theorem map_r72Decode_r72Encode {K : BitVec 128} (h : K.toNat < 2 ^ 72) :
    (r72Encode K).map r72Decode = some K := by
  obtain ⟨k, hk, hvalid, hindex⟩ := exists_r72Encode K
  have hdecode : r72Decode k = K := by
    apply BitVec.eq_of_toNat_eq
    rw [toNat_r72Decode hvalid, hindex, Nat.mod_eq_of_lt h]
  rw [hk, Option.map_some, hdecode]

/-! ## Adding a delta -/

/-- The integers an `Int128` holds. -/
def IsInt128 (x : ℤ) : Prop := -2 ^ 127 ≤ x ∧ x < 2 ^ 127

instance (x : ℤ) : Decidable (IsInt128 x) := inferInstanceAs (Decidable (_ ∧ _))

private theorem toInt_ofInt_of_isInt128 {x : ℤ} (h : IsInt128 x) :
    (BitVec.ofInt 128 x).toInt = x :=
  BitVec.toInt_ofInt_eq_self (by decide) h.1 h.2

private theorem toInt_neg_ofInt {x : ℤ} (h : IsInt128 x) (hx : x ≠ -2 ^ 127) :
    (-BitVec.ofInt 128 x).toInt = -x := by
  rw [BitVec.toInt_neg_of_ne_intMin, toInt_ofInt_of_isInt128 h]
  intro hmin
  have hval := congrArg BitVec.toInt hmin
  rw [toInt_ofInt_of_isInt128 h, BitVec.toInt_intMin_of_pos (by decide)] at hval
  exact hx hval

/-- For every delta but the least one there is a sum, and it is the sum of `ℤ` modulo `2⁷²`. -/
theorem exists_r72Add {k : Key72} (hk : k.Valid) {x : ℤ} (h : IsInt128 x) (hx : x ≠ -2 ^ 127) :
    ∃ k', r72Add k x = some k' ∧ k'.Valid ∧ (k'.index : ℤ) = (k.index + x) % 2 ^ 72 := by
  have hmod : ((1#128 <<< 72) - 1#128).toNat = 2 ^ 72 - 1 := rfl
  -- whatever word `D` the delta is reduced to, only its residue counts
  have hsum (D : BitVec 128) (hD : (D.toNat : ℤ) % 2 ^ 72 = x % 2 ^ 72) : ∃ k',
      r72Encode ((r72Decode k + D) &&& (1#128 <<< 72 - 1#128)) = some k' ∧ k'.Valid ∧
        (k'.index : ℤ) = (k.index + x) % 2 ^ 72 := by
    obtain ⟨k', hk', hvalid, hindex⟩ :=
      exists_r72Encode ((r72Decode k + D) &&& (1#128 <<< 72 - 1#128))
    refine ⟨k', hk', hvalid, ?_⟩
    rw [toNat_and_low _ _ hmod, BitVec.toNat_add, toNat_r72Decode hk] at hindex
    rw [hindex]
    omega
  rw [r72Add, toSigned_eq_some (w := 128) h, Option.bind_some, toInt_ofInt_of_isInt128 h]
  have hrange := h
  rw [IsInt128] at hrange
  by_cases hsign : 0 ≤ x
  · obtain ⟨n, rfl⟩ := Int.eq_ofNat_of_zero_le hsign
    have hn : n < 2 ^ 128 := by omega
    rw [if_pos hsign, toUnsigned_natCast hn, Option.bind_some]
    refine hsum _ ?_
    rw [BitVec.toNat_ofNat, Nat.mod_eq_of_lt hn]
  · obtain ⟨n, hn⟩ := Int.eq_ofNat_of_zero_le (a := -x) (by omega)
    have hlt : n < 2 ^ 128 := by omega
    rw [if_neg hsign, toInt_neg_ofInt h hx, hn, toUnsigned_natCast hlt, Option.map_some,
      Option.bind_some]
    refine hsum _ ?_
    have hshift : (1#128 <<< 72).toNat = 2 ^ 72 := rfl
    rw [BitVec.toNat_sub, BitVec.toNat_ofNat, hshift, Nat.mod_eq_of_lt hlt]
    omega

/-- The negation of the least delta is itself, and does not convert. -/
theorem r72Add_min (k : Key72) : r72Add k (-2 ^ 127) = none := by
  have h : IsInt128 (-2 ^ 127) := by decide
  have hneg : (-BitVec.ofInt 128 (-2 ^ 127)).toInt = -2 ^ 127 := by decide +kernel
  rw [r72Add, toSigned_eq_some (w := 128) h, Option.bind_some, toInt_ofInt_of_isInt128 h,
    if_neg (by decide),
    hneg, toUnsigned_of_neg (by decide)]
  rfl

/-- **What is promised of the key arithmetic** at a key and two deltas. -/
structure DeltaLaws (k : Key72) (a b : ℤ) : Prop where
  /-- There are a sum and a sum of sums, and deltas add up. -/
  add : ∃ k₁ k₂, r72Add k a = some k₁ ∧ r72Add k₁ b = some k₂ ∧ r72Add k (a + b) = some k₂
  /-- A delta is undone by its negation, if there is one. -/
  neg : IsInt128 (-a) → ((r72Add k a).bind fun k₁ ↦ r72Add k₁ (-a)) = some k
  encode_decode : r72Encode (r72Decode k) = some k
  decode_encode : ∀ K : BitVec 128, K.toNat < 2 ^ 72 → (r72Encode K).map r72Decode = some K
  increment : ∀ amount : U32, r72Add k amount.toNat = hyIncrementL0 k amount

private theorem r72Add_amount {k : Key72} (hk : k.Valid) (amount : U32) :
    r72Add k amount.toNat = hyIncrementL0 k amount := by
  have hlt := amount.isLt
  have h : IsInt128 amount.toNat := ⟨by omega, by omega⟩
  obtain ⟨k', hk', hvalid, hindex⟩ := exists_r72Add hk h (by omega)
  rw [hk', hyIncrementL0_eq]
  refine congrArg some (Key72.index_inj hvalid (valid_hyIncrementL0 k amount) ?_)
  rw [index_hyIncrementL0]
  omega

/-- **The laws hold for all deltas but the least.** They hold at a key and two deltas exactly when
neither delta nor their sum is the least `Int128`. -/
theorem deltaLaws_iff {k : Key72} (hk : k.hi.toNat ≤ 0xFF) {a b : ℤ} (ha : IsInt128 a)
    (hb : IsInt128 b) (hab : IsInt128 (a + b)) :
    DeltaLaws k a b ↔ a ≠ -2 ^ 127 ∧ b ≠ -2 ^ 127 ∧ a + b ≠ -2 ^ 127 := by
  have hvalid : k.Valid := Nat.lt_succ_of_le hk
  constructor
  · rintro ⟨⟨k₁, k₂, h₁, h₂, h₁₂⟩, -, -, -, -⟩
    refine ⟨?_, ?_, ?_⟩
    · rintro rfl
      rw [r72Add_min] at h₁
      cases h₁
    · rintro rfl
      rw [r72Add_min] at h₂
      cases h₂
    · intro hmin
      rw [hmin, r72Add_min] at h₁₂
      cases h₁₂
  · rintro ⟨ha', hb', hab'⟩
    obtain ⟨k₁, h₁, hvalid₁, hindex₁⟩ := exists_r72Add hvalid ha ha'
    obtain ⟨k₂, h₂, hvalid₂, hindex₂⟩ := exists_r72Add hvalid₁ hb hb'
    obtain ⟨k₃, h₃, hvalid₃, hindex₃⟩ := exists_r72Add hvalid hab hab'
    refine ⟨⟨k₁, k₂, h₁, h₂, ?_⟩, ?_, r72Encode_r72Decode hvalid, fun K ↦ map_r72Decode_r72Encode,
      r72Add_amount hvalid⟩
    · rw [h₃, Key72.index_inj hvalid₃ hvalid₂ (by omega)]
    · intro hneg
      rw [IsInt128] at ha
      obtain ⟨k₄, h₄, hvalid₄, hindex₄⟩ := exists_r72Add hvalid₁ hneg (by omega)
      have hlt := Key72.index_lt hvalid
      rw [h₁, Option.bind_some, h₄, Key72.index_inj hvalid₄ hvalid (by omega)]

/-- A step back over the wrap, and forth again. -/
theorem deltaLaws_wrap : DeltaLaws ⟨0#32, 0#32, 0#32⟩ (-1) 2 :=
  (deltaLaws_iff (by decide) (by decide) (by decide) (by decide)).mpr (by decide)

/-- The least delta has no sum. -/
theorem not_deltaLaws_min :
    IsInt128 (-2 ^ 127) ∧ IsInt128 (-2 ^ 127 + 0) ∧
      ¬DeltaLaws ⟨0#32, 0#32, 0#32⟩ (-2 ^ 127) 0 := by
  refine ⟨by decide, by decide, ?_⟩
  rintro ⟨⟨k₁, k₂, h₁, -, -⟩, -, -, -, -⟩
  rw [r72Add_min] at h₁
  cases h₁

end Hyunjin.Julia
