import Mathlib.Data.BitVec
import Mathlib.Tactic.Linarith
import Mathlib.Logic.Function.Iterate

/-!
# Low bits

Xor and addition carry upwards only, so the low `k` bits of their results are known from the low `k`
bits of their arguments. A map for which this holds in both directions is `Triangular`: it neither
makes nor loses a difference in the low bits. Xor with a constant and subtraction of a constant are
triangular, and so is what is composed of them.

The lowest bit in which two words differ is therefore kept by a triangular map, and it is the one
place where a difference can be followed through many steps without following the words. In
particular a difference that is put in at every round is there after an odd number of rounds and
gone after an even one (`lowestDiff_iterate`).
-/

namespace Hyunjin.Word

variable {w : ℕ}

/-- The low `k` bits of two words are the same. -/
def Agree (k : ℕ) (x y : BitVec w) : Prop := x.setWidth k = y.setWidth k

instance (k : ℕ) (x y : BitVec w) : Decidable (Agree k x y) := inferInstanceAs (Decidable (_ = _))

/-- Bit `j` is the lowest in which two words differ. -/
def LowestDiff (j : ℕ) (x y : BitVec w) : Prop := Agree j x y ∧ ¬Agree (j + 1) x y

instance (j : ℕ) (x y : BitVec w) : Decidable (LowestDiff j x y) :=
  inferInstanceAs (Decidable (_ ∧ _))

/-- A map that neither makes nor loses a difference in the low bits. -/
def Triangular (f : BitVec w → BitVec w) : Prop :=
  ∀ k ≤ w, ∀ x y, Agree k (f x) (f y) ↔ Agree k x y

theorem agree_iff {k : ℕ} {x y : BitVec w} : Agree k x y ↔ ∀ i < k, x.getLsbD i = y.getLsbD i := by
  constructor
  · intro h i hi
    have hbit := congrArg (fun z : BitVec k ↦ z.getLsbD i) h
    simpa only [BitVec.getLsbD_setWidth, hi, decide_true, Bool.true_and] using hbit
  · intro h
    refine BitVec.eq_of_getLsbD_eq fun i hi ↦ ?_
    rw [BitVec.getLsbD_setWidth, BitVec.getLsbD_setWidth, h i hi]

theorem agree_width {x y : BitVec w} : Agree w x y ↔ x = y := by
  rw [Agree, BitVec.setWidth_eq, BitVec.setWidth_eq]

theorem Agree.mono {j k : ℕ} (hjk : j ≤ k) {x y : BitVec w} (h : Agree k x y) : Agree j x y :=
  agree_iff.mpr fun i hi ↦ agree_iff.mp h i (hi.trans_le hjk)

theorem agree_succ {k : ℕ} {x y : BitVec w} :
    Agree (k + 1) x y ↔ Agree k x y ∧ x.getLsbD k = y.getLsbD k := by
  constructor
  · intro h
    exact ⟨h.mono (Nat.le_succ k), agree_iff.mp h k (Nat.lt_succ_self k)⟩
  · rintro ⟨hlow, hbit⟩
    refine agree_iff.mpr fun i hi ↦ ?_
    rcases Nat.lt_succ_iff_lt_or_eq.mp hi with hlt | rfl
    · exact agree_iff.mp hlow i hlt
    · exact hbit

theorem lowestDiff_iff {j : ℕ} {x y : BitVec w} :
    LowestDiff j x y ↔ Agree j x y ∧ x.getLsbD j ≠ y.getLsbD j := by
  rw [LowestDiff, agree_succ]
  constructor
  · rintro ⟨hlow, hne⟩
    exact ⟨hlow, fun hbit ↦ hne ⟨hlow, hbit⟩⟩
  · rintro ⟨hlow, hbit⟩
    exact ⟨hlow, fun h ↦ hbit h.2⟩

theorem LowestDiff.ne {j : ℕ} {x y : BitVec w} (h : LowestDiff j x y) : x ≠ y := by
  rintro rfl
  exact h.2 rfl

/-- Different words differ in a lowest bit. -/
theorem exists_lowestDiff {x y : BitVec w} (h : x ≠ y) : ∃ j < w, LowestDiff j x y := by
  by_contra hno
  refine h (agree_width.mp ?_)
  -- by induction, no difference among the first `k` bits
  have hall : ∀ k ≤ w, Agree k x y := by
    intro k
    induction k with
    | zero => exact fun _ ↦ agree_iff.mpr fun i hi ↦ absurd hi (Nat.not_lt_zero i)
    | succ k ih =>
      intro hk
      by_contra hne
      exact hno ⟨k, hk, ih (Nat.le_of_succ_le hk), hne⟩
  exact hall w le_rfl

/-! ## Xor and subtraction -/

theorem Agree.xor {k : ℕ} {x y s t : BitVec w} (hx : Agree k x y) (hs : Agree k s t) :
    Agree k (x ^^^ s) (y ^^^ t) := by
  rw [Agree, BitVec.setWidth_xor, BitVec.setWidth_xor, hx, hs]

theorem triangular_xor (c : BitVec w) : Triangular fun x ↦ c ^^^ x := by
  intro k _ x y
  simp only [Agree, BitVec.setWidth_xor, BitVec.xor_right_inj]

theorem triangular_sub (c : BitVec w) : Triangular fun x ↦ x - c := by
  intro k hk x y
  have hsub (z : BitVec w) : (z - c).setWidth k = z.setWidth k - c.setWidth k := by
    rw [BitVec.sub_eq_add_neg, BitVec.setWidth_add _ _ hk, BitVec.setWidth_neg_of_le hk,
      ← BitVec.sub_eq_add_neg]
  simp only [Agree, hsub, BitVec.sub_left_inj]

theorem Triangular.id : Triangular (fun x : BitVec w ↦ x) := fun _ _ _ _ ↦ Iff.rfl

theorem Triangular.comp {f g : BitVec w → BitVec w} (hf : Triangular f) (hg : Triangular g) :
    Triangular fun x ↦ f (g x) := fun k hk _ _ ↦ (hf k hk _ _).trans (hg k hk _ _)

theorem Triangular.injective {f : BitVec w → BitVec w} (hf : Triangular f) {x y : BitVec w} :
    f x = f y ↔ x = y := by
  rw [← agree_width, hf w le_rfl, agree_width]

theorem Triangular.lowestDiff {f : BitVec w → BitVec w} (hf : Triangular f) {j : ℕ} (hj : j < w)
    {x y : BitVec w} : LowestDiff j (f x) (f y) ↔ LowestDiff j x y := by
  rw [LowestDiff, hf j hj.le, hf (j + 1) hj, LowestDiff]

/-- A fold of triangular steps. -/
theorem Triangular.foldl {α : Type*} {f : BitVec w → α → BitVec w}
    (hf : ∀ a, Triangular fun x ↦ f x a) (l : List α) : Triangular fun x ↦ l.foldl f x := by
  induction l with
  | nil => exact Triangular.id
  | cons a l ih => exact ih.comp (hf a)

theorem xor_eq_xor_iff {x y s t : BitVec w} : x ^^^ s = y ^^^ t ↔ s ^^^ t = x ^^^ y := by
  constructor
  · intro h
    calc s ^^^ t = x ^^^ (x ^^^ s) ^^^ t := by rw [← BitVec.xor_assoc, BitVec.xor_self,
          BitVec.zero_xor]
      _ = x ^^^ y := by rw [h, BitVec.xor_assoc, BitVec.xor_assoc, BitVec.xor_self, BitVec.xor_zero]
  · intro h
    calc x ^^^ s = x ^^^ (s ^^^ t) ^^^ t := by rw [BitVec.xor_assoc, BitVec.xor_assoc,
          BitVec.xor_self, BitVec.xor_zero]
      _ = y ^^^ t := by rw [h, ← BitVec.xor_assoc, BitVec.xor_self, BitVec.zero_xor]

/-! ## Differences put in again and again -/

/-- A difference that is put in twice at one bit is gone from that bit. -/
theorem LowestDiff.xor {j : ℕ} {x y s t : BitVec w} (hx : LowestDiff j x y)
    (hs : LowestDiff j s t) : Agree (j + 1) (x ^^^ s) (y ^^^ t) := by
  obtain ⟨hxlow, hxbit⟩ := lowestDiff_iff.mp hx
  obtain ⟨hslow, hsbit⟩ := lowestDiff_iff.mp hs
  refine agree_succ.mpr ⟨hxlow.xor hslow, ?_⟩
  rw [BitVec.getLsbD_xor, BitVec.getLsbD_xor]
  revert hxbit hsbit
  cases x.getLsbD j <;> cases y.getLsbD j <;> cases s.getLsbD j <;> cases t.getLsbD j <;> decide

theorem LowestDiff.xor_agree {j : ℕ} {x y s t : BitVec w} (hx : LowestDiff j x y)
    (hs : Agree (j + 1) s t) : LowestDiff j (x ^^^ s) (y ^^^ t) := by
  obtain ⟨hxlow, hxbit⟩ := lowestDiff_iff.mp hx
  obtain ⟨hslow, hsbit⟩ := agree_succ.mp hs
  refine lowestDiff_iff.mpr ⟨hxlow.xor hslow, ?_⟩
  rw [BitVec.getLsbD_xor, BitVec.getLsbD_xor, hsbit]
  intro h
  exact hxbit (Bool.xor_left_inj.mp h)

/-- **A difference put in at every round** is there after an odd number of rounds, at the bit where
it was put in, and gone from that bit and those below after an even number. -/
theorem lowestDiff_iterate {f : BitVec w → BitVec w} (hf : Triangular f) {j : ℕ} (hj : j < w)
    {x y : BitVec w} (hxy : LowestDiff j x y) (s : BitVec w) (n : ℕ) :
    (n % 2 = 0 → Agree (j + 1) ((fun s ↦ f (x ^^^ s))^[n] s) ((fun s ↦ f (y ^^^ s))^[n] s)) ∧
      (n % 2 = 1 → LowestDiff j ((fun s ↦ f (x ^^^ s))^[n] s) ((fun s ↦ f (y ^^^ s))^[n] s)) := by
  induction n with
  | zero => exact ⟨fun _ ↦ rfl, fun h ↦ absurd h (by decide)⟩
  | succ n ih =>
    rw [Function.iterate_succ_apply', Function.iterate_succ_apply']
    refine ⟨fun heven ↦ ?_, fun hodd ↦ ?_⟩
    · have hdiff := ih.2 (by omega)
      exact (hf (j + 1) hj _ _).mpr (hxy.xor hdiff)
    · have hagree := ih.1 (by omega)
      exact (hf.lowestDiff hj).mpr (hxy.xor_agree hagree)

end Hyunjin.Word
