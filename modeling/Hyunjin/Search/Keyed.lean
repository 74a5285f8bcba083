import Mathlib.Data.List.Nodup

/-!
# Lists with distinct keys

A list whose elements have distinct keys is a finite map. An element is found by its key, and what
is found after one element has been replaced, added or taken out is what was found before, but for
that key. The order of the list is kept.
-/

namespace Hyunjin.Search

variable {β κ : Type*} [DecidableEq κ] (key : β → κ)

/-- The element of the key. -/
def keyed (xs : List β) (k : κ) : Option β := xs.find? fun x ↦ key x = k

/-- No two elements have the same key. -/
def Distinct (xs : List β) : Prop := (xs.map key).Nodup

/-- The element of the key, and what is on either side of it. -/
structure Split (k : κ) (xs before : List β) (x : β) (after : List β) : Prop where
  eq : xs = before ++ x :: after
  found : key x = k
  other : ∀ y ∈ before ++ after, key y ≠ k

variable {key} {k : κ} {xs before after : List β} {x : β}

theorem keyed_cons (x : β) (xs : List β) (k : κ) :
    keyed key (x :: xs) k = if key x = k then some x else keyed key xs k := by
  rw [keyed, List.find?_cons, keyed]
  by_cases h : key x = k
  · rw [if_pos h, decide_eq_true h]
  · rw [if_neg h, decide_eq_false h]

theorem keyed_append (xs ys : List β) (k : κ) :
    keyed key (xs ++ ys) k = (keyed key xs k).or (keyed key ys k) := List.find?_append

theorem keyed_eq_none (h : ∀ y ∈ xs, key y ≠ k) : keyed key xs k = none := by
  rw [keyed, List.find?_eq_none]
  intro y hy hkey
  exact h y hy (of_decide_eq_true hkey)

/-- The key is somewhere, or nowhere. -/
theorem split_or (hxs : Distinct key xs) (k : κ) :
    (∀ y ∈ xs, key y ≠ k) ∨ ∃ before x after, Split key k xs before x after := by
  induction xs with
  | nil => exact .inl (List.forall_mem_nil _)
  | cons x xs ih =>
    obtain ⟨hx, hrest⟩ := List.nodup_cons.mp hxs
    by_cases hkey : key x = k
    · refine .inr ⟨[], x, xs, rfl, hkey, fun y hy heq ↦ hx ?_⟩
      rw [hkey, ← heq]
      exact List.mem_map_of_mem hy
    · rcases ih hrest with hnone | ⟨before, z, after, hsplit⟩
      · exact .inl (List.forall_mem_cons.mpr ⟨hkey, hnone⟩)
      · refine .inr ⟨x :: before, z, after, ?_, hsplit.found, ?_⟩
        · rw [hsplit.eq, List.cons_append]
        · exact List.forall_mem_cons.mpr ⟨hkey, hsplit.other⟩

theorem Split.keyed (h : Split key k xs before x after) (j : κ) :
    keyed key xs j = if j = k then some x else Search.keyed key (before ++ after) j := by
  rw [h.eq, keyed_append, keyed_cons, keyed_append, h.found]
  by_cases hj : j = k
  · subst hj
    rw [if_pos rfl, if_pos rfl, keyed_eq_none fun y hy ↦ h.other y (List.mem_append_left _ hy)]
    rfl
  · rw [if_neg (Ne.symm hj), if_neg hj]

/-- **One element is replaced.** -/
theorem Split.over (h : Split key k xs before x after) {x' : β} (hx' : key x' = k) (j : κ) :
    Search.keyed key (before ++ x' :: after) j
      = if j = k then some x' else Search.keyed key xs j := by
  have hsplit : Split key k (before ++ x' :: after) before x' after := ⟨rfl, hx', h.other⟩
  rw [hsplit.keyed, h.keyed]
  split_ifs <;> rfl

/-- **One element is taken out.** -/
theorem Split.erase (h : Split key k xs before x after) (j : κ) :
    Search.keyed key (before ++ after) j = if j = k then none else Search.keyed key xs j := by
  rw [h.keyed]
  split_ifs with hj
  · exact keyed_eq_none (hj ▸ h.other)
  · rfl

/-- **One element is added.** -/
theorem keyed_concat (hnone : ∀ y ∈ xs, key y ≠ k) (hx : key x = k) (j : κ) :
    keyed key (xs ++ [x]) j = if j = k then some x else keyed key xs j := by
  have hsplit : Split key k (xs ++ [x]) xs x [] := ⟨rfl, hx, by rwa [List.append_nil]⟩
  rw [hsplit.keyed, List.append_nil]

variable (key) in
/-- **All elements of a key are taken out.** -/
theorem keyed_filter (xs : List β) (k j : κ) :
    keyed key (xs.filter fun x ↦ !decide (key x = k)) j
      = if j = k then none else keyed key xs j := by
  split_ifs with hj
  · apply keyed_eq_none
    intro y hy
    have hne := (List.mem_filter.mp hy).2
    rw [Bool.not_eq_true', decide_eq_false_iff_not] at hne
    rwa [hj]
  · induction xs with
    | nil => rfl
    | cons x xs ih =>
      rw [keyed_cons, List.filter_cons]
      by_cases hx : key x = k
      · rw [decide_eq_true hx, Bool.not_true, if_neg Bool.false_ne_true, ih, hx,
          if_neg (Ne.symm hj)]
      · rw [decide_eq_false hx, Bool.not_false, if_pos rfl, keyed_cons, ih]

omit [DecidableEq κ] in
theorem Split.distinct_over (h : Split key k xs before x after) (hxs : Distinct key xs) {x' : β}
    (hx' : key x' = k) : Distinct key (before ++ x' :: after) := by
  rw [Distinct, h.eq, List.map_append, List.map_cons] at hxs
  rwa [Distinct, List.map_append, List.map_cons, hx', ← h.found]

omit [DecidableEq κ] in
theorem Split.distinct_erase (h : Split key k xs before x after) (hxs : Distinct key xs) :
    Distinct key (before ++ after) := by
  refine List.Nodup.sublist (List.Sublist.map key ?_) hxs
  rw [h.eq]
  exact List.Sublist.append (List.Sublist.refl _) (List.sublist_cons_self _ _)

omit [DecidableEq κ] in
theorem Distinct.filter (hxs : Distinct key xs) (p : β → Bool) : Distinct key (xs.filter p) :=
  List.Nodup.sublist (List.filter_sublist.map key) hxs

omit [DecidableEq κ] in
theorem distinct_concat (hxs : Distinct key xs) (hnone : ∀ y ∈ xs, key y ≠ k) (hx : key x = k) :
    Distinct key (xs ++ [x]) := by
  rw [Distinct, List.map_append, List.map_singleton]
  refine List.Nodup.append hxs (List.nodup_singleton _) ?_
  rw [List.disjoint_singleton, hx]
  intro hmem
  obtain ⟨y, hy, hkey⟩ := List.mem_map.mp hmem
  exact hnone y hy hkey

end Hyunjin.Search
