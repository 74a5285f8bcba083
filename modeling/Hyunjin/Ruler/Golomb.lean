import Mathlib.Algebra.Order.Ring.Defs
import Mathlib.Order.Interval.Set.Basic
import Mathlib.Tactic.Linarith

/-!
# Golomb rulers

A ruler is its marks `m 0 < m 1 < … < m n`. It is a Golomb ruler if no two pairs of marks are the
same distance apart. `DistinctDistances P m n` asks this of the distances that satisfy `P` only,
since a search that keeps its distances in a bitmap knows nothing of those that do not fit.

Two facts carry a search. A place for the next mark is blocked if its distance to a mark `j` is
already a distance among the marks up to `j`, and a ruler whose marks all stand on places that are
not blocked has distinct distances (`distinctDistances_of_not_blocked`). And only the distances up
to half the length need be told apart: of two equal distances that overlap or touch, the parts they
do not share are equal too, and not longer than half the ruler (`distinctDistances_of_half`).
-/

namespace Hyunjin.Ruler

variable {α : Type*}

/-- The first `n` segments go up. -/
def Increasing [LT α] (m : ℕ → α) (n : ℕ) : Prop := ∀ i < n, m i < m (i + 1)

/-- A distance among the first `n` marks. -/
def IsDistance [Sub α] (m : ℕ → α) (n : ℕ) (d : α) : Prop := ∃ a b, a < b ∧ b < n ∧ m b - m a = d

/-- With `n` marks placed, a mark at `p` would repeat a distance, of those not longer than `w`. -/
def Blocked [LE α] [Sub α] (w : α) (m : ℕ → α) (n : ℕ) (p : α) : Prop :=
  ∃ j < n, p - m j ≤ w ∧ IsDistance m (j + 1) (p - m j)

/-- No two pairs of marks have the same distance, if it satisfies `P`. -/
def DistinctDistances [Sub α] (P : α → Prop) (m : ℕ → α) (n : ℕ) : Prop :=
  ∀ ⦃i j k l : ℕ⦄, i < j → j ≤ n → k < l → l ≤ n → m j - m i = m l - m k → P (m j - m i) →
    i = k ∧ j = l

structure IsGolomb [LT α] [Sub α] (m : ℕ → α) (n : ℕ) : Prop where
  increasing : Increasing m n
  distinct : DistinctDistances (fun _ ↦ True) m n

variable {P Q : α → Prop} {m m' : ℕ → α} {n : ℕ}

/-! ## Marks in order -/

section Order

variable [Preorder α]

theorem Increasing.lt (h : Increasing m n) {i j : ℕ} (hij : i < j) (hj : j ≤ n) : m i < m j := by
  induction j with
  | zero => exact absurd hij (Nat.not_lt_zero i)
  | succ j ih =>
    rcases Nat.lt_succ_iff_lt_or_eq.mp hij with hlt | rfl
    · exact (ih hlt (Nat.le_of_succ_le hj)).trans (h j hj)
    · exact h i hj

theorem Increasing.le (h : Increasing m n) {i j : ℕ} (hij : i ≤ j) (hj : j ≤ n) : m i ≤ m j := by
  rcases Nat.eq_or_lt_of_le hij with rfl | hlt
  · exact le_rfl
  · exact (h.lt hlt hj).le

theorem Increasing.mono (h : Increasing m n) {k : ℕ} (hk : k ≤ n) : Increasing m k :=
  fun i hi ↦ h i (hi.trans_le hk)

theorem Increasing.succ (h : Increasing m n) (hlast : m n < m (n + 1)) : Increasing m (n + 1) := by
  intro i hi
  rcases Nat.lt_succ_iff_lt_or_eq.mp hi with hlt | rfl
  · exact h i hlt
  · exact hlast

theorem Increasing.congr (h : Increasing m n) (heq : ∀ i ≤ n, m i = m' i) : Increasing m' n := by
  intro i hi
  rw [← heq i hi.le, ← heq (i + 1) hi]
  exact h i hi

end Order

/-! ## Distances -/

section Distance

variable [Sub α]

theorem IsDistance.congr {n : ℕ} {d : α} (h : IsDistance m n d) (heq : ∀ i < n, m i = m' i) :
    IsDistance m' n d := by
  obtain ⟨a, b, hab, hb, hd⟩ := h
  exact ⟨a, b, hab, hb, by rw [← heq a (hab.trans hb), ← heq b hb, hd]⟩

/-- A distance among one mark more is met already or ends at that mark. -/
theorem isDistance_succ {n : ℕ} {d : α} :
    IsDistance m (n + 1) d ↔ IsDistance m n d ∨ ∃ j < n, m n - m j = d := by
  constructor
  · rintro ⟨a, b, hab, hb, hd⟩
    rcases Nat.lt_succ_iff_lt_or_eq.mp hb with hlt | rfl
    · exact .inl ⟨a, b, hab, hlt, hd⟩
    · exact .inr ⟨a, hab, hd⟩
  · rintro (⟨a, b, hab, hb, hd⟩ | ⟨j, hj, hd⟩)
    · exact ⟨a, b, hab, hb.trans n.lt_succ_self, hd⟩
    · exact ⟨j, n, hj, n.lt_succ_self, hd⟩

theorem Blocked.congr [LE α] {w p : α} (h : Blocked w m n p) (heq : ∀ i < n, m i = m' i) :
    Blocked w m' n p := by
  obtain ⟨j, hj, hle, hd⟩ := h
  rw [heq j hj] at hle hd
  exact ⟨j, hj, hle, hd.congr fun i hi ↦ heq i (hi.trans_le hj)⟩

/-- With one mark more, what is newly blocked repeats a distance from that mark. -/
theorem blocked_succ [LE α] {w p : α} :
    Blocked w m (n + 1) p ↔ Blocked w m n p ∨ p - m n ≤ w ∧ IsDistance m (n + 1) (p - m n) := by
  constructor
  · rintro ⟨j, hj, hle, hd⟩
    rcases Nat.lt_succ_iff_lt_or_eq.mp hj with hlt | rfl
    · exact .inl ⟨j, hlt, hle, hd⟩
    · exact .inr ⟨hle, hd⟩
  · rintro (⟨j, hj, hle, hd⟩ | ⟨hle, hd⟩)
    · exact ⟨j, hj.trans n.lt_succ_self, hle, hd⟩
    · exact ⟨n, n.lt_succ_self, hle, hd⟩

theorem DistinctDistances.congr (h : DistinctDistances P m n) (heq : ∀ i ≤ n, m i = m' i) :
    DistinctDistances P m' n := by
  intro i j k l hij hj hkl hl hd hP
  rw [← heq i (hij.le.trans hj), ← heq j hj] at hP
  rw [← heq i (hij.le.trans hj), ← heq j hj, ← heq k (hkl.le.trans hl), ← heq l hl] at hd
  exact h hij hj hkl hl hd hP

/-- The next mark of a Golomb ruler is not blocked. -/
theorem IsGolomb.not_blocked [Preorder α] (h : IsGolomb m n) {w : α} {k : ℕ} (hk : k ≤ n) :
    ¬Blocked w m k (m k) := by
  rintro ⟨j, hj, -, a, b, hab, hb, hd⟩
  have hbk : b < k := (Nat.lt_succ_iff.mp hb).trans_lt hj
  exact hbk.ne (h.distinct hab (hbk.le.trans hk) hj hk hd trivial).2

/-- Where distances up to `w` are distinct, no mark is blocked. -/
theorem DistinctDistances.not_blocked [Preorder α] {w : α} (h : DistinctDistances (· ≤ w) m n)
    {k : ℕ} (hk : k ≤ n) : ¬Blocked w m k (m k) := by
  rintro ⟨j, hj, hle, a, b, hab, hb, hd⟩
  have hbk : b < k := (Nat.lt_succ_iff.mp hb).trans_lt hj
  rw [← hd] at hle
  exact hbk.ne (h hab (hbk.le.trans hk) hj hk hd hle).2

end Distance

/-! ## Telling distances apart -/

section Ring

variable [CommRing α] [LinearOrder α] [IsStrictOrderedRing α]

/-- Two distances from the new mark, or one from it and one from before. -/
private theorem snoc_last (hinc : Increasing m (n + 1)) (hdown : ∀ d e, d ≤ e → P e → P d)
    (hnew : ∀ j ≤ n, P (m (n + 1) - m j) → ¬IsDistance m (j + 1) (m (n + 1) - m j)) {i k l : ℕ}
    (hi : i < n + 1) (hkl : k < l) (hl : l ≤ n + 1) (hd : m (n + 1) - m i = m l - m k)
    (hP : P (m (n + 1) - m i)) : i = k ∧ n + 1 = l := by
  rcases Nat.eq_or_lt_of_le hl with rfl | hlt
  · refine ⟨?_, rfl⟩
    rcases Nat.lt_trichotomy i k with hik | hik | hik
    · have := hinc.lt hik hkl.le
      linarith
    · exact hik
    · have := hinc.lt hik hi.le
      linarith
  · -- the marks `k` and `l` come before the new one
    exfalso
    rcases Nat.lt_or_ge i l with hil | hil
    · have hik : k < i := by
        by_contra hge
        rcases Nat.eq_or_lt_of_le (Nat.not_lt.mp hge) with rfl | hlt'
        · have := hinc.lt hlt le_rfl
          linarith
        · have h1 := hinc.lt hlt' (hkl.le.trans hl)
          have h2 := hinc.lt hlt le_rfl
          linarith
      -- then the new mark is as far from `l` as `i` is from `k`
      have hd' : m i - m k = m (n + 1) - m l := by linarith
      have hle : m (n + 1) - m l ≤ m (n + 1) - m i := by
        have := hinc.lt hil hl
        linarith
      exact hnew l (Nat.lt_succ_iff.mp hlt) (hdown _ _ hle hP)
        ⟨k, i, hik, Nat.lt_succ_of_lt hil, hd'⟩
    · exact hnew i (Nat.lt_succ_iff.mp hi) hP ⟨k, l, hkl, Nat.lt_succ_of_le hil, hd.symm⟩

/-- Extending a ruler by a mark. -/
private theorem DistinctDistances.snoc (h : DistinctDistances P m n) (hinc : Increasing m (n + 1))
    (hdown : ∀ d e, d ≤ e → P e → P d)
    (hnew : ∀ j ≤ n, P (m (n + 1) - m j) → ¬IsDistance m (j + 1) (m (n + 1) - m j)) :
    DistinctDistances P m (n + 1) := by
  intro i j k l hij hj hkl hl hd hP
  rcases Nat.eq_or_lt_of_le hj with rfl | hj'
  · exact snoc_last hinc hdown hnew hij hkl hl hd hP
  · rcases Nat.eq_or_lt_of_le hl with rfl | hl'
    · obtain ⟨rfl, rfl⟩ := snoc_last hinc hdown hnew hkl hij hj hd.symm (hd ▸ hP)
      exact ⟨rfl, rfl⟩
    · exact h hij (Nat.lt_succ_iff.mp hj') hkl (Nat.lt_succ_iff.mp hl') hd hP

/-- **A ruler none of whose marks is blocked** has distinct distances up to `w`. -/
theorem distinctDistances_of_not_blocked {w : α} (hinc : Increasing m n)
    (hfree : ∀ d ≤ n, ¬Blocked w m d (m d)) : DistinctDistances (· ≤ w) m n := by
  induction n with
  | zero =>
    intro i j k l hij hj
    exact absurd (Nat.lt_of_lt_of_le hij hj) (Nat.not_lt_zero i)
  | succ n ih =>
    refine (ih (hinc.mono n.le_succ) fun d hd ↦ hfree d (hd.trans n.le_succ)).snoc hinc
      (fun _ _ ↦ le_trans) fun j hj hle hdist ↦ ?_
    exact hfree (n + 1) le_rfl ⟨j, Nat.lt_succ_of_le hj, hle, hdist⟩

/-- **Half the length is enough.** -/
theorem distinctDistances_of_half (hinc : Increasing m n)
    (h : DistinctDistances (fun d ↦ d + d ≤ m n - m 0) m n) :
    DistinctDistances (fun _ ↦ True) m n := by
  -- the two distances begin at different marks; say the first begins earlier
  have key {i j k l : ℕ} (hik : i < k) (hij : i < j) (hj : j ≤ n) (hkl : k < l) (hl : l ≤ n)
      (hd : m j - m i = m l - m k) : False := by
    have hfirst : m 0 ≤ m i := hinc.le (Nat.zero_le i) (hij.le.trans hj)
    have hlast : m l ≤ m n := hinc.le hl le_rfl
    have hjl : j < l := by
      by_contra hge
      have h1 := hinc.le (Nat.not_lt.mp hge) hj
      have h2 := hinc.lt hik (hkl.le.trans hl)
      linarith
    rcases Nat.lt_or_ge k j with hkj | hjk
    · -- they overlap, and the parts they do not share are equal
      have hshort : (m k - m i) + (m k - m i) ≤ m n - m 0 := by
        have := hinc.lt hkj hj
        linarith
      have := (h hik (hkl.le.trans hl) hjl hl (by linarith) hshort).1
      omega
    · have hshort : (m j - m i) + (m j - m i) ≤ m n - m 0 := by
        have := hinc.le hjk (hkl.le.trans hl)
        linarith
      have := (h hij hj hkl hl hd hshort).1
      omega
  intro i j k l hij hj hkl hl hd _
  rcases Nat.lt_trichotomy i k with hik | rfl | hki
  · exact (key hik hij hj hkl hl hd).elim
  · refine ⟨rfl, ?_⟩
    rcases Nat.lt_trichotomy j l with hjl | hjl | hlj
    · have := hinc.lt hjl hl
      linarith
    · exact hjl
    · have := hinc.lt hlj hj
      linarith
  · exact (key hki hkl hl hij hj hd.symm).elim

end Ring

end Hyunjin.Ruler
