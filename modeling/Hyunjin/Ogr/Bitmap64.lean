import Hyunjin.Ogr.Bitmap
import Hyunjin.Word.Multiword

/-!
# The bitmaps of the 64-bit cores

The same bitmaps in four words of 64 bits. Only the shifts differ: what is less than a word here may
be more than a word of the 32-bit core.
-/

namespace Hyunjin

/-! ## First blank -/

/-- `LOOKUP_FIRSTBLANK` for words of 64 bits. -/
def lookupFirstblank64 (input : U64) : ℕ :=
  let (input, result) :=
    if 0xFFFFFFFF00000000#64 ≤ input then (input <<< 32, 32) else (input, 0)
  let (input, result) :=
    if 0xFFFF000000000000#64 ≤ input then (input <<< 16, result + 16) else (input, result)
  let (input, result) :=
    if 0xFF00000000000000#64 ≤ input then (input <<< 8, result + 8) else (input, result)
  result + ogrFirstBlank8bit.getD (input >>> 56).toNat 0

private def leftHalf (x : U64) : U32 := (x >>> 32).setWidth 32

private theorem toNat_leftHalf (x : U64) : (leftHalf x).toNat = x.toNat / 2 ^ 32 := by
  have hlt := x.isLt
  rw [leftHalf, BitVec.toNat_setWidth, BitVec.toNat_ushiftRight, Nat.shiftRight_eq_div_pow]
  omega

private theorem getMsbD_leftHalf (x : U64) {i : ℕ} (hi : i < 32) :
    (leftHalf x).getMsbD i = x.getMsbD i := by
  rw [BitVec.getMsbD_eq_getLsbD, BitVec.getMsbD_eq_getLsbD, decide_eq_true hi,
    decide_eq_true (by omega : i < 64), BitVec.getLsbD, BitVec.getLsbD, toNat_leftHalf,
    Nat.testBit_div_two_pow, show 32 - 1 - i + 32 = 64 - 1 - i by omega]

/-- The first test picks a half, and the rest is the lookup in that half. -/
private theorem lookupFirstblank64_eq (x : U64) : lookupFirstblank64 x =
    if 0xFFFFFFFF00000000#64 ≤ x then 32 + lookupFirstblank (leftHalf (x <<< 32))
    else lookupFirstblank (leftHalf x) := by
  have hhalf (y : U64) : 0xFFFF0000#32 ≤ leftHalf y ↔ 0xFFFF000000000000#64 ≤ y := by
    rw [BitVec.le_def, BitVec.le_def, toNat_leftHalf]
    simp only [BitVec.toNat_ofNat]
    omega
  have hbyte (y : U64) : 0xFF000000#32 ≤ leftHalf y ↔ 0xFF00000000000000#64 ≤ y := by
    rw [BitVec.le_def, BitVec.le_def, toNat_leftHalf]
    simp only [BitVec.toNat_ofNat]
    omega
  have hbyte' (y : U64) :
      0xFF000000#32 ≤ leftHalf y <<< 16 ↔ 0xFF00000000000000#64 ≤ y <<< 16 := by
    rw [BitVec.le_def, BitVec.le_def, BitVec.toNat_shiftLeft, BitVec.toNat_shiftLeft,
      toNat_leftHalf]
    simp only [BitVec.toNat_ofNat, Nat.shiftLeft_eq]
    omega
  have hindex (y : U64) (k : ℕ) (hk : k = 0 ∨ k = 8 ∨ k = 16 ∨ k = 24) :
      ((leftHalf y <<< k) >>> 24).toNat = ((y <<< k) >>> 56).toNat := by
    simp only [BitVec.toNat_ushiftRight, BitVec.toNat_shiftLeft, toNat_leftHalf, Nat.shiftLeft_eq,
      Nat.shiftRight_eq_div_pow]
    rcases hk with rfl | rfl | rfl | rfl <;> omega
  have hrest (y : U64) (n : ℕ) :
      (let (input, result) := if 0xFFFF000000000000#64 ≤ y then (y <<< 16, n + 16) else (y, n)
        let (input, result) :=
          if 0xFF00000000000000#64 ≤ input then (input <<< 8, result + 8) else (input, result)
        result + ogrFirstBlank8bit.getD (input >>> 56).toNat 0) =
      n + lookupFirstblank (leftHalf y) := by
    have h0 := hindex y 0 (by decide)
    have h8 := hindex y 8 (by decide)
    have h16 := hindex y 16 (by decide)
    have h24 := hindex y 24 (by decide)
    rw [BitVec.shiftLeft_zero, BitVec.shiftLeft_zero] at h0
    simp only [lookupFirstblank, hhalf]
    by_cases hfirst : 0xFFFF000000000000#64 ≤ y
    · simp only [if_pos hfirst, hbyte', ← BitVec.shiftLeft_add]
      split_ifs
      · dsimp only
        rw [show 16 + 8 = 24 from rfl, h24]
        omega
      · dsimp only
        rw [h16]
        omega
    · simp only [if_neg hfirst, hbyte]
      split_ifs
      · simp only [h8]
        omega
      · simp only [h0]
        omega
  by_cases hword : 0xFFFFFFFF00000000#64 ≤ x
  · rw [if_pos hword, ← hrest]
    simp only [lookupFirstblank64, if_pos hword]
  · rw [if_neg hword, ← Nat.zero_add (lookupFirstblank (leftHalf x)), ← hrest]
    simp only [lookupFirstblank64, if_neg hword]

/-- **The first blank of a word below `~1`** is before the last place. -/
theorem lookupFirstblank64_spec {x : U64} (hx : x < ~~~1#64) : 1 ≤ lookupFirstblank64 x ∧
    lookupFirstblank64 x < 64 ∧ x.getMsbD (lookupFirstblank64 x - 1) = false := by
  have hlt : x.toNat < 2 ^ 64 - 2 := hx
  rw [lookupFirstblank64_eq]
  split_ifs with hword
  · have hge : 2 ^ 64 - 2 ^ 32 ≤ x.toNat := hword
    have hright : (leftHalf (x <<< 32)).toNat = x.toNat % 2 ^ 32 := by
      rw [toNat_leftHalf, BitVec.toNat_shiftLeft, Nat.shiftLeft_eq]
      omega
    have hhalf : leftHalf (x <<< 32) < ~~~1#32 := by
      rw [BitVec.lt_def, hright]
      change x.toNat % 2 ^ 32 < 2 ^ 32 - 2
      omega
    have hne : leftHalf (x <<< 32) ≠ ~~~0#32 := by
      intro heq
      rw [heq] at hhalf
      exact absurd hhalf (by decide)
    obtain ⟨hpos, hle, -, hblank⟩ := firstBlank_lookup hne
    have hlt := lookupFirstblank_lt hhalf
    refine ⟨by omega, by omega, ?_⟩
    rw [getMsbD_leftHalf _ (by omega), BitVec.getMsbD_shiftLeft] at hblank
    rwa [show 32 + lookupFirstblank (leftHalf (x <<< 32)) - 1 =
      lookupFirstblank (leftHalf (x <<< 32)) - 1 + 32 by omega]
  · have hlt' : x.toNat < 2 ^ 64 - 2 ^ 32 := not_le.mp hword
    have hne : leftHalf x ≠ ~~~0#32 := by
      intro heq
      have hhalf := congrArg BitVec.toNat heq
      rw [toNat_leftHalf] at hhalf
      change x.toNat / 2 ^ 32 = 2 ^ 32 - 1 at hhalf
      omega
    obtain ⟨hpos, hle, -, hblank⟩ := firstBlank_lookup hne
    refine ⟨hpos, by omega, ?_⟩
    rwa [getMsbD_leftHalf _ (by omega)] at hblank

/-- The length of the run of ones at the left end of a word. -/
def leadingOnes {w : ℕ} (x : BitVec w) : ℕ := ((List.range w).takeWhile x.getMsbD).length

theorem leadingOnes_eq {w n : ℕ} {x : BitVec w} (hn : n ≤ w) (hones : ∀ i < n, x.getMsbD i = true)
    (hblank : n < w → x.getMsbD n = false) : leadingOnes x = n := by
  obtain ⟨k, rfl⟩ := Nat.exists_eq_add_of_le hn
  rw [leadingOnes, List.range_add, List.takeWhile_append_of_pos fun i hi ↦
    hones i (List.mem_range.mp hi), List.length_append, List.length_range]
  cases k with
  | zero => rfl
  | succ k =>
    have hend : ¬x.getMsbD (n + 0) = true := Bool.eq_false_iff.mp (hblank (by omega))
    rw [List.range_succ_eq_map, List.map_cons, List.takeWhile_cons_of_neg hend, List.length_nil,
      Nat.add_zero]

/-- The run is of ones, and what is behind it is not. -/
theorem leadingOnes_spec {w : ℕ} (x : BitVec w) : leadingOnes x ≤ w ∧
    (∀ i < leadingOnes x, x.getMsbD i = true) ∧
    (leadingOnes x < w → x.getMsbD (leadingOnes x) = false) := by
  obtain ⟨n, hn, hones, hblank⟩ : ∃ n ≤ w, (∀ i < n, x.getMsbD i = true) ∧
      (n < w → x.getMsbD n = false) := by
    by_cases hex : ∃ i, i < w ∧ x.getMsbD i = false
    · refine ⟨Nat.find hex, (Nat.find_spec hex).1.le, fun i hi ↦ ?_, fun _ ↦ (Nat.find_spec hex).2⟩
      have hlt := hi.trans (Nat.find_spec hex).1
      exact Bool.eq_true_of_not_eq_false fun hno ↦ Nat.find_min hex hi ⟨hlt, hno⟩
    · refine ⟨w, le_rfl, fun i hi ↦ ?_, fun h ↦ absurd h (lt_irrefl w)⟩
      exact Bool.eq_true_of_not_eq_false fun hno ↦ hex ⟨i, hi, hno⟩
  rw [leadingOnes_eq hn hones hblank]
  exact ⟨hn, hones, hblank⟩

theorem leadingOnes_allOnes (w : ℕ) : leadingOnes (BitVec.allOnes w) = w :=
  leadingOnes_eq le_rfl (fun i hi ↦ by
    rw [BitVec.getMsbD_allOnes, decide_eq_true hi]) fun h ↦ absurd h (lt_irrefl w)

theorem leadingOnes_lt {w : ℕ} {x : BitVec w} (hx : x ≠ BitVec.allOnes w) : leadingOnes x < w := by
  obtain ⟨hle, hones, -⟩ := leadingOnes_spec x
  refine lt_of_le_of_ne hle fun heq ↦ hx (BitVec.eq_of_getMsbD_eq fun i hi ↦ ?_)
  rw [hones i (by omega), BitVec.getMsbD_allOnes, decide_eq_true hi]

theorem lookupFirstblank_eq (x : U32) : lookupFirstblank x = leadingOnes x + 1 := by
  by_cases hx : x = ~~~0#32
  · rw [hx]
    decide +kernel
  · obtain ⟨hpos, hle, hones, hblank⟩ := firstBlank_lookup hx
    rw [leadingOnes_eq (by omega) hones fun _ ↦ hblank]
    omega

theorem lookupFirstblank64_leading (x : U64) : lookupFirstblank64 x = leadingOnes x + 1 := by
  have hfirst : 0xFFFFFFFF00000000#64 ≤ x ↔ leftHalf x = BitVec.allOnes 32 := by
    have hlt := x.isLt
    rw [← BitVec.toNat_inj, toNat_leftHalf, BitVec.le_def, BitVec.toNat_allOnes]
    simp only [BitVec.toNat_ofNat]
    omega
  rw [lookupFirstblank64_eq]
  split_ifs with hword
  · have hall : ∀ i < 32, x.getMsbD i = true := by
      intro i hi
      rw [← getMsbD_leftHalf x hi, hfirst.mp hword, BitVec.getMsbD_allOnes, decide_eq_true hi]
    obtain ⟨hle, hones, hblank⟩ := leadingOnes_spec (leftHalf (x <<< 32))
    have hright {i : ℕ} (hi : i < 32) :
        (leftHalf (x <<< 32)).getMsbD i = x.getMsbD (i + 32) := by
      rw [getMsbD_leftHalf _ hi, BitVec.getMsbD_shiftLeft]
    have hx : leadingOnes x = leadingOnes (leftHalf (x <<< 32)) + 32 := by
      refine leadingOnes_eq (by omega) (fun i hi ↦ ?_) fun h ↦ ?_
      · rcases Nat.lt_or_ge i 32 with hlt | hge
        · exact hall i hlt
        · have hone := hones (i - 32) (by omega)
          rwa [hright (by omega), Nat.sub_add_cancel hge] at hone
      · have hno := hblank (by omega)
        rwa [hright (by omega)] at hno
    rw [lookupFirstblank_eq, hx]
    omega
  · obtain ⟨hle, hones, hblank⟩ := leadingOnes_spec (leftHalf x)
    have hlt : leadingOnes (leftHalf x) < 32 := leadingOnes_lt (mt hfirst.mpr hword)
    have hx : leadingOnes x = leadingOnes (leftHalf x) := by
      refine leadingOnes_eq (by omega) (fun i hi ↦ ?_) fun _ ↦ ?_
      · rw [← getMsbD_leftHalf x (by omega)]
        exact hones i hi
      · rw [← getMsbD_leftHalf x hlt]
        exact hblank hlt
    rw [lookupFirstblank_eq, hx]

/-- **The lookup of the first blank** counts the ones before it, in words of either size. In a word
that has a blank, this is what is at the place before the count, and there is none further left. -/
theorem lookupFirstblank_exact (x : U32) (y : U64) :
    (lookupFirstblank x = leadingOnes x + 1 ∧ lookupFirstblank64 y = leadingOnes y + 1) ∧
    (lookupFirstblank (BitVec.allOnes 32) = 33 ∧ lookupFirstblank64 (BitVec.allOnes 64) = 65) ∧
    (x ≠ BitVec.allOnes 32 → x.getMsbD (lookupFirstblank x - 1) = false ∧
      ∀ i < lookupFirstblank x - 1, x.getMsbD i = true) ∧
    (y ≠ BitVec.allOnes 64 → y.getMsbD (lookupFirstblank64 y - 1) = false ∧
      ∀ i < lookupFirstblank64 y - 1, y.getMsbD i = true) := by
  have hblank {w : ℕ} {z : BitVec w} (hz : z ≠ BitVec.allOnes w) :
      z.getMsbD (leadingOnes z) = false ∧ ∀ i < leadingOnes z, z.getMsbD i = true := by
    obtain ⟨-, hones, hblank⟩ := leadingOnes_spec z
    exact ⟨hblank (leadingOnes_lt hz), hones⟩
  rw [lookupFirstblank_eq, lookupFirstblank_eq, lookupFirstblank64_leading,
    lookupFirstblank64_leading, leadingOnes_allOnes, leadingOnes_allOnes]
  exact ⟨⟨rfl, rfl⟩, ⟨rfl, rfl⟩, hblank, hblank⟩

/-! ## Bitmaps -/

structure BMap64 where
  w0 : U64
  w1 : U64
  w2 : U64
  w3 : U64
  deriving DecidableEq, Repr

namespace BMap64

def zero : BMap64 := ⟨0#64, 0#64, 0#64, 0#64⟩

/-- Word `j`, which is zero beyond the bitmap. -/
def word (b : BMap64) : ℕ → U64
  | 0 => b.w0
  | 1 => b.w1
  | 2 => b.w2
  | 3 => b.w3
  | _ => 0#64

/-- Bit `k`, for the distance `k + 1`. -/
def bit (b : BMap64) (k : ℕ) : Bool := Multiword.bit b.word k

def bitWord (newbit : Bool) : U64 := if newbit then 1#64 else 0#64

def or (a b : BMap64) : BMap64 :=
  ⟨a.w0 ||| b.w0, a.w1 ||| b.w1, a.w2 ||| b.w2, a.w3 ||| b.w3⟩

/-- `a & ~b`. -/
def andNot (a b : BMap64) : BMap64 :=
  ⟨a.w0 &&& ~~~b.w0, a.w1 &&& ~~~b.w1, a.w2 &&& ~~~b.w2, a.w3 &&& ~~~b.w3⟩

/-- The blanks ahead when the mark moves by less than a word. -/
def compLeft (comp : BMap64) (s : ℕ) : BMap64 :=
  let ss := 64 - s
  { w0 := (comp.w0 <<< s) ||| (comp.w1 >>> ss)
    w1 := (comp.w1 <<< s) ||| (comp.w2 >>> ss)
    w2 := (comp.w2 <<< s) ||| (comp.w3 >>> ss)
    w3 := comp.w3 <<< s }

/-- The distances to the marks before when the mark moves by less than a word. -/
def listRight (list : BMap64) (newbit : Bool) (s : ℕ) : BMap64 :=
  let ss := 64 - s
  { w0 := (list.w0 >>> s) ||| (bitWord newbit <<< ss)
    w1 := (list.w1 >>> s) ||| (list.w0 <<< ss)
    w2 := (list.w2 >>> s) ||| (list.w1 <<< ss)
    w3 := (list.w3 >>> s) ||| (list.w2 <<< ss) }

def compLeftWord (comp : BMap64) : BMap64 := ⟨comp.w1, comp.w2, comp.w3, 0#64⟩

def listRightWord (list : BMap64) (newbit : Bool) : BMap64 :=
  ⟨bitWord newbit, list.w0, list.w1, list.w2⟩

/-! The operations word by word. -/

private theorem word_of_ge (b : BMap64) {j : ℕ} (hj : 4 ≤ j) : b.word j = 0#64 := by
  obtain ⟨i, rfl⟩ := Nat.exists_eq_add_of_le' hj
  rfl

private theorem word_compLeft (b : BMap64) (s : ℕ) : (b.compLeft s).word =
    fun j ↦ (b.word j <<< s) ||| (b.word (j + 1) >>> (64 - s)) := by
  funext j
  match j with
  | 0 | 1 | 2 => rfl
  | 3 => simp [word, compLeft]
  | j + 4 => simp [word]

private theorem word_listRight (b : BMap64) (newbit : Bool) (s : ℕ) {j : ℕ} (hj : j < 4) :
    (b.listRight newbit s).word j = (b.word j >>> s) |||
      ((if j = 0 then bitWord newbit else b.word (j - 1)) <<< (64 - s)) := by
  match j, hj with
  | 0, _ | 1, _ | 2, _ | 3, _ => rfl

private theorem word_compLeftWord (b : BMap64) : b.compLeftWord.word = fun j ↦ b.word (j + 1) := by
  funext j
  match j with
  | 0 | 1 | 2 | 3 => rfl
  | _ + 4 => rfl

private theorem word_listRightWord (b : BMap64) (newbit : Bool) {j : ℕ} (hj : j < 4) :
    (b.listRightWord newbit).word j = if j = 0 then bitWord newbit else b.word (j - 1) := by
  match j, hj with
  | 0, _ | 1, _ | 2, _ | 3, _ => rfl

private theorem word_or (a b : BMap64) (j : ℕ) : (a.or b).word j = a.word j ||| b.word j := by
  match j with
  | 0 | 1 | 2 | 3 => rfl
  | _ + 4 => simp [word]

private theorem word_andNot (a b : BMap64) (j : ℕ) :
    (a.andNot b).word j = a.word j &&& ~~~b.word j := by
  match j with
  | 0 | 1 | 2 | 3 => rfl
  | _ + 4 => simp [word]

private theorem getMsbD_bitWord (newbit : Bool) {i : ℕ} (hi : i < 64) :
    (bitWord newbit).getMsbD i = (newbit && decide (i = 63)) := by
  have hone : ∀ i < 64, (1#64).getMsbD i = decide (i = 63) := by decide
  cases newbit with
  | false => simp [bitWord]
  | true => rw [bitWord, if_pos rfl, hone i hi, Bool.true_and]

/-! The operations bit by bit. -/

theorem bit_of_ge (b : BMap64) {k : ℕ} (hk : 256 ≤ k) : b.bit k = false := by
  rw [bit, Multiword.bit, word_of_ge b (by omega)]
  simp

@[simp] theorem bit_zero (k : ℕ) : zero.bit k = false := by
  have hword (j : ℕ) : zero.word j = 0#64 := by
    match j with
    | 0 | 1 | 2 | 3 => rfl
    | _ + 4 => rfl
  rw [bit, Multiword.bit, hword]
  simp

@[simp] theorem bit_or (a b : BMap64) (k : ℕ) : (a.or b).bit k = (a.bit k || b.bit k) := by
  rw [bit, Multiword.bit, word_or, BitVec.getMsbD_or]
  rfl

@[simp] theorem bit_andNot (a b : BMap64) (k : ℕ) :
    (a.andNot b).bit k = (a.bit k && !b.bit k) := by
  rw [bit, Multiword.bit, word_andNot, BitVec.getMsbD_and, BitVec.getMsbD_not,
    decide_eq_true (Nat.mod_lt k (by decide)), Bool.true_and]
  rfl

theorem ext_bit {a b : BMap64} (h : ∀ k < 256, a.bit k = b.bit k) : a = b := by
  have hword : ∀ j < 4, a.word j = b.word j := Multiword.bit_congr 4 h
  obtain ⟨a0, a1, a2, a3⟩ := a
  obtain ⟨b0, b1, b2, b3⟩ := b
  obtain rfl : a0 = b0 := hword 0 (by decide)
  obtain rfl : a1 = b1 := hword 1 (by decide)
  obtain rfl : a2 = b2 := hword 2 (by decide)
  obtain rfl : a3 = b3 := hword 3 (by decide)
  rfl

/-- Shifting `COMP` to the left brings nearer what is blocked ahead. -/
theorem bit_compLeft (b : BMap64) {s : ℕ} (hs : s < 64) (k : ℕ) :
    (b.compLeft s).bit k = b.bit (k + s) := by
  rw [bit, word_compLeft]
  exact Multiword.bit_shiftLeft b.word hs k

theorem bit_compLeftWord (b : BMap64) (k : ℕ) : b.compLeftWord.bit k = b.bit (k + 64) := by
  rw [bit, word_compLeftWord]
  exact Multiword.bit_shiftLeftWord b.word (by decide) k

/-- Shifting `LIST` to the right adds to every distance, and lets the new bit in. -/
theorem bit_listRight (b : BMap64) (newbit : Bool) {s : ℕ} (hs : 0 < s) (hs' : s < 64) {k : ℕ}
    (hk : k < 256) : (b.listRight newbit s).bit k =
      if k < s then newbit && decide (k + 1 = s) else b.bit (k - s) := by
  have hshift := Multiword.bit_shiftRight b.word (bitWord newbit) hs hs' k
  rw [Multiword.bit, ← word_listRight b newbit s (by omega)] at hshift
  refine hshift.trans ?_
  split_ifs with hlt
  · rw [getMsbD_bitWord newbit (by omega)]
    congr 2
    exact propext (by omega)
  · rfl

theorem bit_listRightWord (b : BMap64) (newbit : Bool) {k : ℕ} (hk : k < 256) :
    (b.listRightWord newbit).bit k =
      if k < 64 then newbit && decide (k + 1 = 64) else b.bit (k - 64) := by
  have hshift := Multiword.bit_shiftRightWord b.word (bitWord newbit) (by decide) k
  rw [Multiword.bit, ← word_listRightWord b newbit (by omega)] at hshift
  refine hshift.trans ?_
  split_ifs with hlt
  · rw [getMsbD_bitWord newbit hlt]
    congr 2
    exact propext (by omega)
  · rfl

/-- The bits of the first word. -/
theorem getMsbD_w0 (b : BMap64) {k : ℕ} (hk : k < 64) : b.w0.getMsbD k = b.bit k := by
  rw [bit, Multiword.bit, Nat.div_eq_of_lt hk, Nat.mod_eq_of_lt hk]
  rfl

/-- Testing a bit of the first word, as the place of a mark `s` ahead. -/
theorem w0_and_shift (b : BMap64) {s : ℕ} (hs : 0 < s) (hs' : s ≤ 64) :
    b.w0 &&& (1#64 <<< (64 - s)) ≠ 0#64 ↔ b.bit (s - 1) = true := by
  rw [and_shift_ne_zero _ (by omega), ← getMsbD_w0 b (by omega), BitVec.getMsbD_eq_getLsbD,
    decide_eq_true (by omega : s - 1 < 64), Bool.true_and, show 64 - 1 - (s - 1) = 64 - s by omega]

end BMap64

end Hyunjin
