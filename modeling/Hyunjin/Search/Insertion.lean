import Mathlib.Data.List.DropRight
import Mathlib.Data.List.Sort

/-!
# What is left out is put in

A list is completed by elements that are given in the order of a rank. Each of them that is missing
goes in front of the first element of a higher rank. The list need not be sorted, and so the
completed one need not be; but what has been put in *sits*: everything in front of it has a lower
rank, and what comes right behind it has a higher one. What is put in later has a higher rank and
goes in farther behind, which is why nothing is unseated.
-/

namespace Hyunjin.Insertion

variable {α : Type*} (rank : α → ℕ)

/-- All in front of `p` is lower, and what comes right behind it is higher. -/
def Sits (p : α) (xs : List α) : Prop :=
  ∀ front back, xs = front ++ p :: back →
    (∀ q ∈ front, rank q < rank p) ∧ ∀ q ∈ back.head?, rank p < rank q

/-- Put in front of the first element of a higher rank. -/
abbrev insert (x : α) (xs : List α) : List α := xs.orderedInsert (rank · < rank ·) x

variable {rank} {p x : α} {xs order : List α}

theorem sits_insert_self (hinj : Function.Injective rank) (hx : x ∉ xs) :
    Sits rank x (insert rank x xs) := by
  intro front back heq
  rw [insert, List.orderedInsert_eq_take_drop, List.append_cons_inj_of_notMem
    (fun h ↦ hx (List.takeWhile_subset _ h)) fun h ↦ hx (List.dropWhile_subset _ h)] at heq
  obtain ⟨rfl, -, rfl⟩ := heq
  refine ⟨fun q hq ↦ ?_, fun q hq ↦ ?_⟩
  · have hle := List.mem_takeWhile_imp hq
    rw [decide_eq_true_eq] at hle
    have hne : rank q ≠ rank x := fun h ↦ hx (hinj h ▸ List.takeWhile_subset _ hq)
    omega
  · have hhead := List.head?_dropWhile_not (fun b ↦ decide (¬rank x < rank b)) xs
    rw [Option.mem_def.mp hq] at hhead
    exact not_not.mp (of_decide_eq_false hhead)

/-- **What is higher goes in behind.** -/
theorem Sits.insert (h : Sits rank p xs) (hlt : rank p < rank x) :
    Sits rank p (insert rank x xs) := by
  intro front back heq
  have hne : p ≠ x := fun hpx ↦ absurd hlt (by rw [hpx]; exact lt_irrefl _)
  rw [Insertion.insert, List.orderedInsert_eq_take_drop] at heq
  have hxs := List.takeWhile_append_dropWhile (p := fun b ↦ decide (¬rank x < rank b)) (l := xs)
  have hhead := List.head?_dropWhile_not (fun b ↦ decide (¬rank x < rank b)) xs
  generalize xs.takeWhile (fun b ↦ decide (¬rank x < rank b)) = lower at heq hxs
  generalize xs.dropWhile (fun b ↦ decide (¬rank x < rank b)) = higher at heq hxs hhead
  rcases List.append_eq_append_iff.mp heq with ⟨as, rfl, has⟩ | ⟨bs, rfl, hbs⟩
  · -- the element would be behind the one that is put in
    cases as with
    | nil => exact absurd (List.cons.inj has).1.symm hne
    | cons y as =>
      obtain ⟨rfl, rfl⟩ := List.cons.inj has
      have hfirst := h (lower ++ as) back (by rw [← hxs, List.append_assoc]; rfl)
      cases as with
      | nil =>
        have := of_decide_eq_false hhead
        omega
      | cons z as =>
        have hz := hfirst.1 z (List.mem_append_right _ List.mem_cons_self)
        have := of_decide_eq_false hhead
        omega
  · cases bs with
    | nil => exact absurd (List.cons.inj hbs).1 hne
    | cons y bs =>
      obtain ⟨rfl, rfl⟩ := List.cons.inj hbs
      obtain ⟨hfront, hback⟩ := h front (bs ++ higher) (by rw [← hxs, List.append_assoc]; rfl)
      refine ⟨hfront, fun q hq ↦ ?_⟩
      cases bs with
      | nil =>
        obtain rfl := Option.some.inj hq
        exact hlt
      | cons z bs => exact hback q hq

/-! ## The completed list -/

section Complete

variable [DecidableEq α]

variable (rank) in
/-- Put in each of the elements that is missing. -/
def complete (xs : List α) : List α → List α
  | [] => xs
  | x :: order => complete (if x ∈ xs then xs else insert rank x xs) order

theorem mem_complete {q : α} : q ∈ complete rank xs order ↔ q ∈ xs ∨ q ∈ order := by
  induction order generalizing xs with
  | nil => exact (or_iff_left List.not_mem_nil).symm
  | cons x order ih =>
    rw [complete, ih, List.mem_cons]
    split_ifs with hx
    · constructor
      · rintro (h | h)
        exacts [.inl h, .inr (.inr h)]
      · rintro (h | rfl | h)
        exacts [.inl h, .inl hx, .inr h]
    · rw [List.mem_orderedInsert, or_comm (a := q = x), or_assoc]

theorem complete_of_forall_mem (h : ∀ x ∈ order, x ∈ xs) : complete rank xs order = xs := by
  induction order with
  | nil => rfl
  | cons x order ih =>
    rw [complete, if_pos (h x List.mem_cons_self)]
    exact ih fun y hy ↦ h y (List.mem_cons_of_mem _ hy)

theorem nodup_complete (h : xs.Nodup) : (complete rank xs order).Nodup := by
  induction order generalizing xs with
  | nil => exact h
  | cons x order ih =>
    rw [complete]
    split_ifs with hx
    · exact ih h
    · exact ih ((List.perm_orderedInsert _ x xs).nodup_iff.mpr (List.nodup_cons.mpr ⟨hx, h⟩))

/-- What was there keeps its order. -/
theorem sublist_complete : List.Sublist xs (complete rank xs order) := by
  induction order generalizing xs with
  | nil => exact List.Sublist.refl xs
  | cons x order ih =>
    rw [complete]
    split_ifs with hx
    · exact ih
    · exact (List.sublist_orderedInsert x xs).trans ih

theorem Sits.complete (h : Sits rank p xs) (hlt : ∀ x ∈ order, rank p < rank x) :
    Sits rank p (complete rank xs order) := by
  induction order generalizing xs with
  | nil => exact h
  | cons x order ih =>
    rw [Insertion.complete]
    refine ih ?_ fun y hy ↦ hlt y (List.mem_cons_of_mem _ hy)
    split_ifs with hx
    exacts [h, h.insert (hlt x List.mem_cons_self)]

/-- **What was missing sits.** -/
theorem sits_complete (hinj : Function.Injective rank) (horder : order.Pairwise (rank · < rank ·))
    (hp : p ∈ complete rank xs order) (hnot : p ∉ xs) : Sits rank p (complete rank xs order) := by
  induction order generalizing xs with
  | nil => exact absurd hp hnot
  | cons x order ih =>
    obtain ⟨hhead, htail⟩ := List.pairwise_cons.mp horder
    rw [complete] at hp ⊢
    split_ifs at hp ⊢ with hx
    · exact ih htail hp hnot
    · by_cases hpx : p = x
      · subst hpx
        exact (sits_insert_self hinj hx).complete hhead
      · refine ih htail hp fun hmem ↦ ?_
        exact ((List.mem_orderedInsert _).mp hmem).elim hpx hnot

end Complete

end Hyunjin.Insertion
