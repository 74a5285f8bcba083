import Mathlib.Data.List.Basic

/-!
# Memory with bounds

A block of memory is the list of its elements. A store outside of the block is undefined, `none`.
What a program has written so far is a prefix of the block: `Holds m xs` says that the block begins
with `xs`, and a store right behind them extends them by one element.
-/

namespace Hyunjin.Memory

variable {α : Type*}

/-- Store one element; undefined outside of the block. -/
def store (m : List α) (i : ℕ) (x : α) : Option (List α) :=
  if i < m.length then some (m.set i x) else none

theorem store_of_lt {m : List α} {i : ℕ} (h : i < m.length) (x : α) :
    store m i x = some (m.set i x) := if_pos h

theorem store_of_ge {m : List α} {i : ℕ} (h : m.length ≤ i) (x : α) : store m i x = none :=
  if_neg (Nat.not_lt.mpr h)

/-- The block begins with these elements. -/
def Holds (m xs : List α) : Prop := xs <+: m

theorem holds_nil (m : List α) : Holds m [] := List.nil_prefix

theorem Holds.take_eq {m xs : List α} (h : Holds m xs) : m.take xs.length = xs :=
  (List.prefix_iff_eq_take.mp h).symm

/-- **A store behind what is held** extends it. -/
theorem Holds.store {m xs : List α} (h : Holds m xs) (hlt : xs.length < m.length) (x : α) :
    ∃ m', store m xs.length x = some m' ∧ m'.length = m.length ∧ Holds m' (xs ++ [x]) := by
  obtain ⟨rest, rfl⟩ := h
  refine ⟨_, store_of_lt hlt x, List.length_set, ?_⟩
  cases rest with
  | nil => exact absurd hlt (by simp)
  | cons y rest =>
    rw [List.set_append_right _ _ (Nat.le_refl _), Nat.sub_self, List.set_cons_zero]
    exact ⟨rest, by simp⟩

/-! ## Elements within a block -/

/-- The block has these elements from an index on. -/
def HoldsAt (m : List α) (i : ℕ) (xs : List α) : Prop := xs <+: m.drop i

theorem holdsAt_append (front xs back : List α) :
    HoldsAt (front ++ xs ++ back) front.length xs := by
  rw [HoldsAt, List.append_assoc, List.drop_left]
  exact List.prefix_append xs back

section HoldsAt

variable {m xs ys : List α} {x : α} {i : ℕ}

theorem HoldsAt.getElem? (h : HoldsAt m i xs) {j : ℕ} (hj : j < xs.length) :
    m[i + j]? = xs[j]? := by
  obtain ⟨rest, hrest⟩ := h
  rw [← List.getElem?_drop, ← hrest, List.getElem?_append_left hj]

theorem HoldsAt.head (h : HoldsAt m i (x :: xs)) : m[i]? = some x := by
  have hget := h.getElem? (Nat.zero_lt_succ xs.length)
  rwa [Nat.add_zero, List.getElem?_cons_zero] at hget

theorem HoldsAt.left (h : HoldsAt m i (xs ++ ys)) : HoldsAt m i xs :=
  (List.prefix_append xs ys).trans h

theorem HoldsAt.right (h : HoldsAt m i (xs ++ ys)) : HoldsAt m (i + xs.length) ys := by
  obtain ⟨rest, hrest⟩ := h
  refine ⟨rest, ?_⟩
  rw [← List.drop_drop, ← hrest, List.append_assoc, List.drop_left]

theorem HoldsAt.tail (h : HoldsAt m i (x :: xs)) : HoldsAt m (i + 1) xs :=
  HoldsAt.right (show HoldsAt m i ([x] ++ xs) from h)

theorem HoldsAt.of_prefix (h : HoldsAt m i xs) (hpre : ys <+: xs) : HoldsAt m i ys := hpre.trans h

theorem HoldsAt.drop (h : HoldsAt m i xs) {k : ℕ} (hk : k ≤ xs.length) :
    HoldsAt m (i + k) (xs.drop k) := by
  rw [← List.take_append_drop k xs] at h
  have hright := h.right
  rwa [List.length_take_of_le hk] at hright

theorem HoldsAt.length_le (h : HoldsAt m i xs) (hne : xs ≠ []) : i + xs.length ≤ m.length := by
  have hle := List.IsPrefix.length_le h
  rw [List.length_drop] at hle
  have hpos := List.length_pos_iff.mpr hne
  omega

end HoldsAt

/-! ## Blocks within blocks -/

/-- Store one element after another. -/
def stores (m : List α) (i : ℕ) : List α → Option (List α)
  | [] => some m
  | x :: xs => do
    let m ← store m i x
    stores m (i + 1) xs

/-- Move `n` elements; both places have to be within the block. -/
def memmove (m : List α) (dst src n : ℕ) : Option (List α) :=
  if src + n ≤ m.length ∧ dst + n ≤ m.length then
    some (m.take dst ++ (m.drop src).take n ++ m.drop (dst + n))
  else none

theorem store_append (front : List α) (x y : α) (back : List α) :
    store (front ++ x :: back) front.length y = some (front ++ y :: back) := by
  rw [store_of_lt (by simp)]
  simp

/-- What is stored takes the place of what was there. -/
theorem stores_append (front old xs back : List α) (h : old.length = xs.length) :
    stores (front ++ old ++ back) front.length xs = some (front ++ xs ++ back) := by
  induction xs generalizing front old with
  | nil => rw [List.eq_nil_of_length_eq_zero h, stores]
  | cons x xs ih =>
    obtain ⟨y, old, rfl⟩ := List.exists_cons_of_length_eq_add_one h
    have hlt : front.length < (front ++ y :: old ++ back).length := by simp
    have hset : (front ++ y :: old ++ back).set front.length x = (front ++ [x]) ++ old ++ back := by
      simp
    have hrec := ih (front ++ [x]) old (Nat.succ.inj h)
    rw [stores, store_of_lt hlt, hset, Option.bind_eq_bind, Option.bind_some,
      show front.length + 1 = (front ++ [x]).length by simp, hrec]
    simp

/-- Elements are stored behind the front of a block. -/
theorem stores_behind (front : List α) {xs rest : List α} (h : xs.length ≤ rest.length) :
    stores (front ++ rest) front.length xs = some (front ++ xs ++ rest.drop xs.length) := by
  have hstores := stores_append front (rest.take xs.length) xs (rest.drop xs.length)
    (List.length_take_of_le h)
  rwa [List.append_assoc, List.take_append_drop] at hstores

theorem stores_of_gt {m xs : List α} {i : ℕ} (hi : i ≤ m.length) (h : m.length < i + xs.length) :
    stores m i xs = none := by
  induction xs generalizing m i with
  | nil => exact absurd h (Nat.not_lt.mpr hi)
  | cons x xs ih =>
    rw [stores]
    rcases Nat.lt_or_eq_of_le hi with hlt | heq
    · rw [store_of_lt hlt, Option.bind_eq_bind, Option.bind_some]
      exact ih (by rw [List.length_set]; exact hlt)
        (by rw [List.length_set]; rw [List.length_cons] at h; omega)
    · rw [store_of_ge (Nat.le_of_eq heq.symm)]
      rfl

/-- A tail is moved down over what is in front of it. -/
theorem memmove_down (front gap tail back : List α) :
    ∃ rest, memmove (front ++ gap ++ tail ++ back) front.length (front.length + gap.length)
        tail.length = some (front ++ tail ++ rest)
      ∧ rest.length = gap.length + back.length := by
  refine ⟨(front ++ gap ++ tail ++ back).drop (front.length + tail.length), ?_, ?_⟩
  · rw [memmove, if_pos (by simp only [List.length_append]; omega)]
    simp [List.drop_append, List.take_append]
  · simp only [List.length_drop, List.length_append]
    omega

/-- A tail is moved up, if the block has the room. -/
theorem memmove_up (front tail back : List α) {n : ℕ} (h : n ≤ back.length) :
    ∃ gap, memmove (front ++ tail ++ back) (front.length + n) front.length tail.length
        = some (front ++ gap ++ tail ++ back.drop n) ∧ gap.length = n := by
  refine ⟨(tail ++ back).take n, ?_, ?_⟩
  · rw [memmove, if_pos (by simp only [List.length_append]; omega)]
    have htake : (front ++ tail ++ back).take (front.length + n)
        = front ++ (tail ++ back).take n := by
      rw [List.append_assoc, List.take_length_add_append]
    have hdrop : (front ++ tail ++ back).drop (front.length + n + tail.length) = back.drop n := by
      rw [List.append_assoc, Nat.add_assoc, List.drop_length_add_append, Nat.add_comm,
        List.drop_length_add_append]
    rw [htake, hdrop]
    simp [List.take_append]
  · rw [List.length_take, List.length_append]
    omega

theorem memmove_of_gt {m : List α} {dst src n : ℕ} (h : m.length < dst + n) :
    memmove m dst src n = none :=
  if_neg fun ⟨_, hle⟩ ↦ absurd hle (Nat.not_le.mpr h)

end Hyunjin.Memory
