import Mathlib.Data.Nat.Bitwise

/-!
# Flags in a word

A word whose bits are flags, each set, cleared and tested with a mask of one bit. The masks come as
a family, one for each of the flags that a program knows; a word is determined by them as long as no
other bit is set.
-/

namespace Hyunjin.Flags

variable {ι : Type*} {w : ℕ}

/-- A family of masks of one bit each. -/
structure Masks (ι : Type*) (w : ℕ) where
  mask : ι → BitVec w
  place : ι → Fin w
  mask_eq : ∀ i, mask i = BitVec.twoPow w (place i)
  place_injective : Function.Injective place

variable (m : Masks ι w)

namespace Masks

/-- A flag is set. -/
def has (x : BitVec w) (i : ι) : Bool := x &&& m.mask i != 0#w

/-- No bits are set but the flags. -/
def Known (x : BitVec w) : Prop := ∀ k, x.getLsbD k = true → ∃ i, k = m.place i

theorem has_eq (x : BitVec w) (i : ι) : m.has x i = x.getLsbD (m.place i) := by
  rw [has, m.mask_eq, BitVec.and_twoPow]
  cases x.getLsbD (m.place i) with
  | false => exact bne_self_eq_false _
  | true =>
    refine bne_iff_ne.mpr fun h ↦ ?_
    have hbit := congrArg (·.getLsbD (m.place i)) h
    simp at hbit

theorem and_mask_ne_zero {x : BitVec w} {i : ι} : x &&& m.mask i ≠ 0#w ↔ m.has x i = true :=
  bne_iff_ne.symm

theorem and_mask_eq_zero {x : BitVec w} {i : ι} : x &&& m.mask i = 0#w ↔ m.has x i = false := by
  rw [← not_iff_not, Bool.not_eq_false]
  exact m.and_mask_ne_zero

@[simp]
theorem has_zero (i : ι) : m.has 0#w i = false := by
  rw [has_eq, BitVec.getLsbD_zero]

theorem has_and (x y : BitVec w) (i : ι) : m.has (x &&& y) i = (m.has x i && m.has y i) := by
  rw [has_eq, has_eq, has_eq, BitVec.getLsbD_and]

theorem has_or (x y : BitVec w) (i : ι) : m.has (x ||| y) i = (m.has x i || m.has y i) := by
  rw [has_eq, has_eq, has_eq, BitVec.getLsbD_or]

theorem has_not (x : BitVec w) (i : ι) : m.has (~~~x) i = !m.has x i := by
  rw [has_eq, has_eq, BitVec.getLsbD_not, decide_eq_true (m.place i).isLt, Bool.true_and]

variable [DecidableEq ι]

theorem getLsbD_mask (i j : ι) : (m.mask i).getLsbD (m.place j) = decide (i = j) := by
  rw [m.mask_eq, BitVec.getLsbD_twoPow]
  have hlt : (m.place i : ℕ) < w := (m.place i).isLt
  have hiff : ((m.place i : ℕ) = m.place j) ↔ i = j :=
    ⟨fun h ↦ m.place_injective (Fin.ext h), fun h ↦ by rw [h]⟩
  simp only [hlt, hiff, decide_true, Bool.true_and]

/-- Setting a flag sets no other. -/
@[simp]
theorem has_or_mask (x : BitVec w) (i j : ι) :
    m.has (x ||| m.mask i) j = (m.has x j || decide (i = j)) := by
  rw [has_eq, has_eq, BitVec.getLsbD_or, getLsbD_mask]

/-- Clearing a flag clears no other. -/
@[simp]
theorem has_and_not_mask (x : BitVec w) (i j : ι) :
    m.has (x &&& ~~~m.mask i) j = (m.has x j && !decide (i = j)) := by
  rw [has_eq, has_eq, BitVec.getLsbD_and, BitVec.getLsbD_not, getLsbD_mask]
  simp only [(m.place j).isLt, decide_true, Bool.true_and]

theorem has_mask (i j : ι) : m.has (m.mask i) j = decide (i = j) := by
  rw [has_eq, getLsbD_mask]

omit [DecidableEq ι] in
theorem known_zero : m.Known 0#w := fun k hk ↦ by
  rw [BitVec.getLsbD_zero] at hk
  exact nomatch hk

omit [DecidableEq ι] in
variable {m} in
theorem Known.or {x y : BitVec w} (hx : m.Known x) (hy : m.Known y) : m.Known (x ||| y) := by
  intro k hk
  rw [BitVec.getLsbD_or, Bool.or_eq_true] at hk
  exact hk.elim (hx k) (hy k)

omit [DecidableEq ι] in
theorem known_mask (i : ι) : m.Known (m.mask i) := by
  intro k hk
  rw [m.mask_eq, BitVec.getLsbD_twoPow, Bool.and_eq_true, decide_eq_true_eq,
    decide_eq_true_eq] at hk
  exact ⟨i, hk.2.symm⟩

omit [DecidableEq ι] in
variable {m} in
theorem Known.or_mask {x : BitVec w} (h : m.Known x) (i : ι) : m.Known (x ||| m.mask i) :=
  h.or (m.known_mask i)

omit [DecidableEq ι] in
variable {m} in
theorem Known.and {x : BitVec w} (h : m.Known x) (y : BitVec w) : m.Known (x &&& y) := by
  intro k hk
  rw [BitVec.getLsbD_and, Bool.and_eq_true] at hk
  exact h k hk.1

omit [DecidableEq ι] in
/-- **A word is determined by its flags.** -/
theorem ext {x y : BitVec w} (hx : m.Known x) (hy : m.Known y)
    (h : ∀ i, m.has x i = m.has y i) : x = y := by
  refine BitVec.eq_of_getLsbD_eq fun k _ ↦ ?_
  cases hxk : x.getLsbD k with
  | true =>
    obtain ⟨i, rfl⟩ := hx k hxk
    rw [← hxk, ← has_eq, ← has_eq, h]
  | false =>
    cases hyk : y.getLsbD k with
    | false => rfl
    | true =>
      obtain ⟨i, rfl⟩ := hy k hyk
      rw [← hxk, ← hyk, ← has_eq, ← has_eq, h]

omit [DecidableEq ι] in
theorem eq_zero_iff {x : BitVec w} (hx : m.Known x) : x = 0#w ↔ ∀ i, m.has x i = false := by
  constructor
  · rintro rfl i
    exact m.has_zero i
  · intro h
    exact m.ext hx m.known_zero fun i ↦ by rw [h, has_zero]

end Masks

end Hyunjin.Flags
