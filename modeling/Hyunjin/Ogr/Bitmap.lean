import Hyunjin.Word.Bytes
import Hyunjin.Word.Multiword

/-!
# The bitmaps of the ruler search

A bitmap is eight words, and bit `k` of it, counted from the left end of the first word, stands for
the distance `k + 1`. `COMP` is shifted left and `LIST` right as the last mark of a ruler moves to
the right; `bit_compLeft` and `bit_listRight` say what the unrolled shifts do to the bits, for whole
words as for less.

`lookupFirstblank` is one more than the number of leading ones of a word.
-/

namespace Hyunjin

/-! ## First blank -/

/-- The leading ones of a byte, plus one. -/
def ogrFirstBlank8bit : List ℕ :=
  List.replicate 128 1 ++ List.replicate 64 2 ++ List.replicate 32 3 ++ List.replicate 16 4 ++
    List.replicate 8 5 ++ List.replicate 4 6 ++ List.replicate 2 7 ++ [8, 9]

def lookupFirstblank (input : U32) : ℕ :=
  let (input, result) := if 0xFFFF0000#32 ≤ input then (input <<< 16, 16) else (input, 0)
  let (input, result) :=
    if 0xFF000000#32 ≤ input then (input <<< 8, result + 8) else (input, result)
  result + ogrFirstBlank8bit.getD (input >>> 24).toNat 0

/-- A word at least so large has that many leading ones. -/
theorem le_toNat_iff_leading {n : ℕ} (hn : n ≤ 32) (x : U32) :
    2 ^ 32 - 2 ^ (32 - n) ≤ x.toNat ↔ ∀ i < n, x.getMsbD i = true := by
  have hpow : 2 ^ 32 = 2 ^ n * 2 ^ (32 - n) := by rw [← pow_add, Nat.add_sub_cancel' hn]
  have hdiv : 2 ^ 32 - 2 ^ (32 - n) ≤ x.toNat ↔ x.toNat / 2 ^ (32 - n) = 2 ^ n - 1 := by
    have hlt : x.toNat / 2 ^ (32 - n) < 2 ^ n := Nat.div_lt_of_lt_mul (by
      rw [Nat.mul_comm, ← hpow]
      exact x.isLt)
    have hsub : 2 ^ 32 - 2 ^ (32 - n) = (2 ^ n - 1) * 2 ^ (32 - n) := by
      rw [Nat.sub_mul, Nat.one_mul, ← hpow]
    rw [hsub, ← Nat.le_div_iff_mul_le (Nat.two_pow_pos _)]
    omega
  have hbit (i : ℕ) (hi : i < n) :
      x.getMsbD i = (x.toNat / 2 ^ (32 - n)).testBit (n - 1 - i) := by
    rw [Nat.testBit_div_two_pow, BitVec.getMsbD_eq_getLsbD, decide_eq_true (by omega : i < 32),
      Bool.true_and, BitVec.getLsbD, show 32 - 1 - i = n - 1 - i + (32 - n) by omega]
  rw [hdiv]
  constructor
  · intro h i hi
    rw [hbit i hi, h, Nat.testBit_two_pow_sub_one, decide_eq_true (by omega)]
  · intro h
    refine Nat.eq_of_testBit_eq fun j ↦ ?_
    rw [Nat.testBit_two_pow_sub_one]
    rcases Nat.lt_or_ge j n with hj | hj
    · have hcomp : n - 1 - (n - 1 - j) = j := by omega
      rw [decide_eq_true hj, ← hcomp, ← hbit _ (by omega)]
      exact h _ (by omega)
    · rw [decide_eq_false (by omega), Nat.testBit_div_two_pow]
      refine Nat.testBit_lt_two_pow (x.isLt.trans_le ?_)
      exact Nat.pow_le_pow_right (by decide) (by omega)

private theorem first_blank_8bit_spec : ∀ v < 255,
    let s := ogrFirstBlank8bit.getD v 0
    (1 ≤ s ∧ s ≤ 8) ∧ (∀ i < s - 1, v.testBit (7 - i) = true) ∧ v.testBit (7 - (s - 1))
      = false := by
  decide +kernel

/-- The leading ones come to an end at `s`. -/
structure FirstBlank (x : U32) (s : ℕ) : Prop where
  pos : 1 ≤ s
  le : s ≤ 32
  ones : ∀ i < s - 1, x.getMsbD i = true
  blank : x.getMsbD (s - 1) = false

private theorem FirstBlank.shift {x : U32} {s n : ℕ} (h : FirstBlank (x <<< n) s)
    (hones : ∀ i < n, x.getMsbD i = true) (hx : ∃ i < 32, x.getMsbD i = false) :
    FirstBlank x (n + s) := by
  have := h.pos
  have hidx : n + s - 1 = s - 1 + n := by omega
  have hall : ∀ i < n + s - 1, x.getMsbD i = true := by
    intro i hi
    rcases Nat.lt_or_ge i n with hlt | hge
    · exact hones i hlt
    · have hsub := h.ones (i - n) (by omega)
      rwa [BitVec.getMsbD_shiftLeft, Nat.sub_add_cancel hge] at hsub
  refine ⟨by omega, ?_, hall, ?_⟩
  · by_contra hgt
    obtain ⟨i, hi, hblank⟩ := hx
    rw [hall i (by omega)] at hblank
    exact nomatch hblank
  · have hblank := h.blank
    rwa [BitVec.getMsbD_shiftLeft, ← hidx] at hblank

private theorem firstBlank_byte {x : U32} (hx : ¬0xFF000000#32 ≤ x) :
    FirstBlank x (ogrFirstBlank8bit.getD (x >>> 24).toNat 0) := by
  have hlt : x.toNat < 0xFF000000 := by simpa [BitVec.le_def] using hx
  have hv : (x >>> 24).toNat = x.toNat / 2 ^ 24 := by
    rw [BitVec.toNat_ushiftRight, Nat.shiftRight_eq_div_pow]
  have hv' : (x >>> 24).toNat < 255 := by
    rw [hv]
    omega
  obtain ⟨⟨hpos, hle⟩, hones, hblank⟩ := first_blank_8bit_spec _ hv'
  have hbit (i : ℕ) (hi : i < 8) : x.getMsbD i = (x >>> 24).toNat.testBit (7 - i) := by
    rw [hv, Nat.testBit_div_two_pow, BitVec.getMsbD_eq_getLsbD, decide_eq_true (by omega : i < 32),
      Bool.true_and, BitVec.getLsbD, show 32 - 1 - i = 7 - i + 24 by omega]
  refine ⟨hpos, by omega, fun i hi ↦ ?_, ?_⟩
  · rw [hbit i (by omega)]
    exact hones i hi
  · rw [hbit _ (by omega)]
    exact hblank

/-- **The first blank of a word that has one.** -/
theorem firstBlank_lookup {x : U32} (hx : x ≠ ~~~0#32) : FirstBlank x (lookupFirstblank x) := by
  have hblank : ∃ i < 32, x.getMsbD i = false := by
    by_contra hall
    simp only [not_exists, not_and, Bool.not_eq_false] at hall
    have hmax : 2 ^ 32 - 1 ≤ x.toNat := (le_toNat_iff_leading (n := 32) le_rfl x).mpr hall
    have hlt : x.toNat < 2 ^ 32 := x.isLt
    exact hx (BitVec.eq_of_toNat_eq (by omega : x.toNat = 2 ^ 32 - 1))
  have hbyte {y : U32} : 0xFF000000#32 ≤ y ↔ ∀ i < 8, y.getMsbD i = true :=
    le_toNat_iff_leading (n := 8) (by decide) y
  have hhalf : 0xFFFF0000#32 ≤ x ↔ ∀ i < 16, x.getMsbD i = true :=
    le_toNat_iff_leading (n := 16) (by decide) x
  -- the second test is made on what the first has left
  have hsecond {y : U32} (hy : ∃ i < 32, y.getMsbD i = false)
    (hbound : ∃ i < 16, y.getMsbD i = false) :
      FirstBlank y (if 0xFF000000#32 ≤ y then 8 + ogrFirstBlank8bit.getD ((y <<< 8) >>> 24).toNat 0
        else ogrFirstBlank8bit.getD (y >>> 24).toNat 0) := by
    split_ifs with h8
    · refine (firstBlank_byte ?_).shift (hbyte.mp h8) hy
      rw [hbyte]
      intro hall
      obtain ⟨i, hi, hno⟩ := hbound
      rcases Nat.lt_or_ge i 8 with hlt | hge
      · rw [hbyte.mp h8 i hlt] at hno
        exact nomatch hno
      · have hone := hall (i - 8) (by omega)
        rw [BitVec.getMsbD_shiftLeft, Nat.sub_add_cancel hge, hno] at hone
        exact nomatch hone
    · exact firstBlank_byte h8
  simp only [lookupFirstblank]
  by_cases h16 : 0xFFFF0000#32 ≤ x
  · simp only [if_pos h16]
    have hrest : ∃ i < 16, (x <<< 16).getMsbD i = false := by
      obtain ⟨i, hi, hno⟩ := hblank
      have hge : 16 ≤ i := by
        by_contra hlt
        rw [hhalf.mp h16 i (by omega)] at hno
        exact nomatch hno
      refine ⟨i - 16, by omega, ?_⟩
      rwa [BitVec.getMsbD_shiftLeft, Nat.sub_add_cancel hge]
    have hfirst := (hsecond (hrest.imp fun i hi ↦ ⟨by omega, hi.2⟩) hrest).shift
      (hhalf.mp h16) hblank
    split_ifs at hfirst with h8
    · simp only [if_pos h8]
      rwa [← Nat.add_assoc] at hfirst
    · simp only [if_neg h8]
      exact hfirst
  · simp only [if_neg h16]
    have hrest : ∃ i < 16, x.getMsbD i = false := by
      rw [hhalf] at h16
      simpa using h16
    have hfirst := hsecond hblank hrest
    split_ifs at hfirst with h8
    · simp only [if_pos h8, Nat.zero_add]
      exact hfirst
    · simp only [if_neg h8, Nat.zero_add]
      exact hfirst

/-- A word below `~1` has its first blank before the last place. -/
theorem lookupFirstblank_lt {x : U32} (hx : x < ~~~1#32) : lookupFirstblank x < 32 := by
  have hne : x ≠ ~~~0#32 := by
    rintro rfl
    exact absurd hx (by decide)
  obtain ⟨-, hle, hones, -⟩ := firstBlank_lookup hne
  by_contra hge
  have hmax : 2 ^ 32 - 2 ≤ x.toNat :=
    (le_toNat_iff_leading (n := 31) (by decide) x).mpr fun i hi ↦ hones i (by omega)
  have hlt : x.toNat < 2 ^ 32 - 2 := hx
  omega

/-! ## Bitmaps -/

/-- Testing a bit of a word. -/
theorem and_shift_ne_zero {w : ℕ} (x : BitVec w) {i : ℕ} (hi : i < w) :
    x &&& (1#w <<< i) ≠ 0#w ↔ x.getLsbD i = true := by
  have hpow : BitVec.twoPow w i ≠ 0#w := by
    intro h
    have hbit : (BitVec.twoPow w i).getLsbD i = false := by rw [h, BitVec.getLsbD_zero]
    simp [hi] at hbit
  rw [← BitVec.twoPow_eq, BitVec.and_twoPow]
  split_ifs with hbit
  · exact iff_of_true hpow hbit
  · exact iff_of_false (fun h ↦ h rfl) hbit

structure BMap where
  w0 : U32
  w1 : U32
  w2 : U32
  w3 : U32
  w4 : U32
  w5 : U32
  w6 : U32
  w7 : U32
  deriving DecidableEq, Repr

namespace BMap

def zero : BMap := ⟨0#32, 0#32, 0#32, 0#32, 0#32, 0#32, 0#32, 0#32⟩

/-- Word `j`, which is zero beyond the bitmap. -/
def word (b : BMap) : ℕ → U32
  | 0 => b.w0
  | 1 => b.w1
  | 2 => b.w2
  | 3 => b.w3
  | 4 => b.w4
  | 5 => b.w5
  | 6 => b.w6
  | 7 => b.w7
  | _ => 0#32

/-- Bit `k`, for the distance `k + 1`. -/
def bit (b : BMap) (k : ℕ) : Bool := (b.word (k / 32)).getMsbD (k % 32)

def bitWord (newbit : Bool) : U32 := if newbit then 1#32 else 0#32

/-- `COMP_LEFT` by less than a word. -/
def compLeft (comp : BMap) (s : ℕ) : BMap :=
  let ss := 32 - s
  { w0 := (comp.w0 <<< s) ||| (comp.w1 >>> ss)
    w1 := (comp.w1 <<< s) ||| (comp.w2 >>> ss)
    w2 := (comp.w2 <<< s) ||| (comp.w3 >>> ss)
    w3 := (comp.w3 <<< s) ||| (comp.w4 >>> ss)
    w4 := (comp.w4 <<< s) ||| (comp.w5 >>> ss)
    w5 := (comp.w5 <<< s) ||| (comp.w6 >>> ss)
    w6 := (comp.w6 <<< s) ||| (comp.w7 >>> ss)
    w7 := comp.w7 <<< s }

/-- `LIST_RIGHT` by less than a word. -/
def listRight (list : BMap) (newbit : Bool) (s : ℕ) : BMap :=
  let ss := 32 - s
  { w0 := (list.w0 >>> s) ||| (bitWord newbit <<< ss)
    w1 := (list.w1 >>> s) ||| (list.w0 <<< ss)
    w2 := (list.w2 >>> s) ||| (list.w1 <<< ss)
    w3 := (list.w3 >>> s) ||| (list.w2 <<< ss)
    w4 := (list.w4 >>> s) ||| (list.w3 <<< ss)
    w5 := (list.w5 >>> s) ||| (list.w4 <<< ss)
    w6 := (list.w6 >>> s) ||| (list.w5 <<< ss)
    w7 := (list.w7 >>> s) ||| (list.w6 <<< ss) }

/-- `COMP_LEFT` by a word. -/
def compLeftWord (comp : BMap) : BMap :=
  ⟨comp.w1, comp.w2, comp.w3, comp.w4, comp.w5, comp.w6, comp.w7, 0#32⟩

/-- `LIST_RIGHT` by a word. -/
def listRightWord (list : BMap) (newbit : Bool) : BMap :=
  ⟨bitWord newbit, list.w0, list.w1, list.w2, list.w3, list.w4, list.w5, list.w6⟩

def or (a b : BMap) : BMap :=
  { w0 := a.w0 ||| b.w0
    w1 := a.w1 ||| b.w1
    w2 := a.w2 ||| b.w2
    w3 := a.w3 ||| b.w3
    w4 := a.w4 ||| b.w4
    w5 := a.w5 ||| b.w5
    w6 := a.w6 ||| b.w6
    w7 := a.w7 ||| b.w7 }

/-! The operations word by word. -/

private theorem word_zero (j : ℕ) : zero.word j = 0#32 := by
  match j with
  | 0 | 1 | 2 | 3 | 4 | 5 | 6 | 7 => rfl
  | _ + 8 => rfl

theorem word_of_ge (b : BMap) {j : ℕ} (hj : 8 ≤ j) : b.word j = 0#32 := by
  obtain ⟨i, rfl⟩ := Nat.exists_eq_add_of_le' hj
  rfl

private theorem word_compLeft (b : BMap) (s : ℕ) : (b.compLeft s).word =
    fun j ↦ (b.word j <<< s) ||| (b.word (j + 1) >>> (32 - s)) := by
  funext j
  match j with
  | 0 | 1 | 2 | 3 | 4 | 5 | 6 => rfl
  | 7 => simp [word, compLeft]
  | j + 8 => simp [word]

private theorem word_listRight (b : BMap) (newbit : Bool) (s j : ℕ) (hj : j < 8) :
    (b.listRight newbit s).word j =
      (b.word j >>> s) ||| ((if j = 0 then bitWord newbit else b.word (j - 1)) <<< (32 - s)) := by
  match j, hj with
  | 0, _ | 1, _ | 2, _ | 3, _ | 4, _ | 5, _ | 6, _ | 7, _ => rfl

private theorem word_compLeftWord (b : BMap) : b.compLeftWord.word = fun j ↦ b.word (j + 1) := by
  funext j
  match j with
  | 0 | 1 | 2 | 3 | 4 | 5 | 6 | 7 => rfl
  | _ + 8 => rfl

private theorem word_listRightWord (b : BMap) (newbit : Bool) (j : ℕ) (hj : j < 8) :
    (b.listRightWord newbit).word j = if j = 0 then bitWord newbit else b.word (j - 1) := by
  match j, hj with
  | 0, _ | 1, _ | 2, _ | 3, _ | 4, _ | 5, _ | 6, _ | 7, _ => rfl

private theorem word_or (a b : BMap) (j : ℕ) : (a.or b).word j = a.word j ||| b.word j := by
  match j with
  | 0 | 1 | 2 | 3 | 4 | 5 | 6 | 7 => rfl
  | _ + 8 => simp [word]

private theorem getMsbD_bitWord (newbit : Bool) {i : ℕ} (hi : i < 32) :
    (bitWord newbit).getMsbD i = (newbit && decide (i = 31)) := by
  have hone : ∀ i < 32, (1#32).getMsbD i = decide (i = 31) := by decide
  cases newbit with
  | false => simp [bitWord]
  | true => rw [bitWord, if_pos rfl, hone i hi, Bool.true_and]

/-! The operations bit by bit. -/

theorem bit_of_ge (b : BMap) {k : ℕ} (hk : 256 ≤ k) : b.bit k = false := by
  rw [bit, word_of_ge b (by omega)]
  simp

@[simp] theorem bit_zero (k : ℕ) : zero.bit k = false := by
  rw [bit, word_zero]
  simp

@[simp] theorem bit_or (a b : BMap) (k : ℕ) : (a.or b).bit k = (a.bit k || b.bit k) := by
  rw [bit, word_or, BitVec.getMsbD_or]
  rfl

theorem ext_bit {a b : BMap} (h : ∀ k < 256, a.bit k = b.bit k) : a = b := by
  have hword : ∀ j < 8, a.word j = b.word j := Multiword.bit_congr 8 h
  obtain ⟨a0, a1, a2, a3, a4, a5, a6, a7⟩ := a
  obtain ⟨b0, b1, b2, b3, b4, b5, b6, b7⟩ := b
  obtain rfl : a0 = b0 := hword 0 (by decide)
  obtain rfl : a1 = b1 := hword 1 (by decide)
  obtain rfl : a2 = b2 := hword 2 (by decide)
  obtain rfl : a3 = b3 := hword 3 (by decide)
  obtain rfl : a4 = b4 := hword 4 (by decide)
  obtain rfl : a5 = b5 := hword 5 (by decide)
  obtain rfl : a6 = b6 := hword 6 (by decide)
  obtain rfl : a7 = b7 := hword 7 (by decide)
  rfl

/-- **Shifting `COMP` to the left** brings nearer what is blocked ahead. -/
theorem bit_compLeft (b : BMap) {s : ℕ} (hs : s < 32) (k : ℕ) :
    (b.compLeft s).bit k = b.bit (k + s) := by
  rw [bit, word_compLeft]
  exact Multiword.bit_shiftLeft b.word hs k

theorem bit_compLeftWord (b : BMap) (k : ℕ) : b.compLeftWord.bit k = b.bit (k + 32) := by
  rw [bit, word_compLeftWord]
  exact Multiword.bit_shiftLeftWord b.word (by decide) k

/-- **Shifting `LIST` to the right** adds to every distance; the new bit is the distance to the mark
that has just been left. -/
theorem bit_listRight (b : BMap) (newbit : Bool) {s : ℕ} (hs : 0 < s) (hs' : s < 32) {k : ℕ}
    (hk : k < 256) : (b.listRight newbit s).bit k =
      if k < s then newbit && decide (k + 1 = s) else b.bit (k - s) := by
  have hshift := Multiword.bit_shiftRight b.word (bitWord newbit) hs hs' k
  rw [Multiword.bit, ← word_listRight b newbit s _ (by omega)] at hshift
  refine hshift.trans ?_
  split_ifs with hlt
  · rw [getMsbD_bitWord newbit (by omega)]
    congr 2
    exact propext (by omega)
  · rfl

theorem bit_listRightWord (b : BMap) (newbit : Bool) {k : ℕ} (hk : k < 256) :
    (b.listRightWord newbit).bit k =
      if k < 32 then newbit && decide (k + 1 = 32) else b.bit (k - 32) := by
  have hshift := Multiword.bit_shiftRightWord b.word (bitWord newbit) (by decide) k
  rw [Multiword.bit, ← word_listRightWord b newbit _ (by omega)] at hshift
  refine hshift.trans ?_
  split_ifs with hlt
  · rw [getMsbD_bitWord newbit hlt]
    congr 2
    exact propext (by omega)
  · rfl

/-- The bits of the first word. -/
theorem getMsbD_w0 (b : BMap) {k : ℕ} (hk : k < 32) : b.w0.getMsbD k = b.bit k := by
  rw [bit, Nat.div_eq_of_lt hk, Nat.mod_eq_of_lt hk]
  rfl

/-- Testing a bit of the first word, as the place of a mark `s` ahead. -/
theorem w0_and_shift (b : BMap) {s : ℕ} (hs : 0 < s) (hs' : s ≤ 32) :
    b.w0 &&& (1#32 <<< (32 - s)) ≠ 0#32 ↔ b.bit (s - 1) = true := by
  rw [and_shift_ne_zero _ (by omega), ← getMsbD_w0 b (by omega), BitVec.getMsbD_eq_getLsbD,
    decide_eq_true (by omega : s - 1 < 32), Bool.true_and, show 32 - 1 - (s - 1) = 32 - s by omega]

end BMap

end Hyunjin
