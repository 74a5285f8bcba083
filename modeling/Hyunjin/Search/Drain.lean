import Mathlib.Data.List.Basic

/-!
# Draining a queue for a wanted element

Elements are taken out from the front of a queue until one of them is wanted. After each that is
not, the search is told how many are left, and gives up when it is told that there are none. The
figure is any function `left` of the element taken and of those behind it.

A figure that counts only elements of the same kind may make the search give up too early.
`complete_iff_covered` says when it does not.
-/

namespace Hyunjin.Drain

variable {α κ : Type*} (want : α → Prop) [DecidablePred want] (left : α → List α → ℕ)

/-- The elements that are taken out and are not wanted. -/
def discarded : List α → List α
  | [] => []
  | a :: as => if want a then [] else if left a as = 0 then [a] else a :: discarded as

/-- The wanted element that is taken out. -/
def found : List α → Option α
  | [] => none
  | a :: as => if want a then some a else if left a as = 0 then none else found as

/-- What is still there when the search is over. -/
def rest : List α → List α
  | [] => []
  | a :: as => if want a then as else if left a as = 0 then as else rest as

section Cons

variable {want} {left} {a : α} (as : List α)

theorem discarded_of_want (h : want a) : discarded want left (a :: as) = [] := if_pos h

theorem found_of_want (h : want a) : found want left (a :: as) = some a := if_pos h

variable {as}

theorem discarded_of_none_left (h : ¬want a) (hleft : left a as = 0) :
    discarded want left (a :: as) = [a] := by
  rw [discarded, if_neg h, if_pos hleft]

theorem found_of_none_left (h : ¬want a) (hleft : left a as = 0) :
    found want left (a :: as) = none := by
  rw [found, if_neg h, if_pos hleft]

theorem discarded_of_left (h : ¬want a) (hleft : left a as ≠ 0) :
    discarded want left (a :: as) = a :: discarded want left as := by
  rw [discarded, if_neg h, if_neg hleft]

theorem found_of_left (h : ¬want a) (hleft : left a as ≠ 0) :
    found want left (a :: as) = found want left as := by
  rw [found, if_neg h, if_neg hleft]

end Cons

/-- **Nothing is lost**: what is taken out and what is still there make up the queue. -/
theorem discarded_append (as : List α) :
    discarded want left as ++ (found want left as).toList ++ rest want left as = as := by
  induction as with
  | nil => rfl
  | cons a as ih =>
    rw [discarded, found, rest]
    split_ifs
    · rfl
    · rfl
    · exact congrArg (a :: ·) ih

variable {want left}

theorem not_want_of_discarded {as : List α} {a : α} (h : a ∈ discarded want left as) :
    ¬want a := by
  induction as with
  | nil => exact absurd h List.not_mem_nil
  | cons b as ih =>
    rw [discarded] at h
    split_ifs at h with hb
    · exact absurd h List.not_mem_nil
    · rwa [List.mem_singleton.mp h]
    · rcases List.mem_cons.mp h with rfl | h
      · exact hb
      · exact ih h

theorem want_of_found {as : List α} {a : α} (h : found want left as = some a) : want a := by
  induction as with
  | nil => exact nomatch h
  | cons b as ih =>
    rw [found] at h
    split_ifs at h with hb
    · rwa [← Option.some.inj h]
    · exact ih h

/-- If nothing is wanted, a search that is told of anything that is left empties the queue. -/
theorem discarded_eq_self {as : List α} (hwant : ∀ a ∈ as, ¬want a)
    (hleft : ∀ a ∈ as, ∀ bs ⊆ as, left a bs = 0 → bs = []) : discarded want left as = as := by
  induction as with
  | nil => rfl
  | cons a as ih =>
    have ha := hwant a List.mem_cons_self
    by_cases hzero : left a as = 0
    · rw [discarded_of_none_left ha hzero,
        hleft a List.mem_cons_self as (List.subset_cons_self a as) hzero]
    · rw [discarded_of_left ha hzero]
      refine congrArg (a :: ·) (ih (fun b hb ↦ hwant b (List.mem_cons_of_mem a hb)) ?_)
      intro b hb bs hbs
      exact hleft b (List.mem_cons_of_mem a hb) bs (List.subset_cons_of_subset a hbs)

/-! ## Giving up too early -/

variable (want left)

/-- The search gives up only if no element is wanted. -/
def Complete (as : List α) : Prop := found want left as = none → ∀ a ∈ as, ¬want a

variable {want left}

/-- A search that is told of anything that is left does not give up too early. -/
theorem complete_of_told (hleft : ∀ a as, left a as = 0 → as = []) (as : List α) :
    Complete want left as := by
  induction as with
  | nil => exact fun _ _ ha ↦ absurd ha List.not_mem_nil
  | cons a as ih =>
    intro hnone
    rw [found] at hnone
    split_ifs at hnone with ha hzero
    · obtain rfl := hleft a as hzero
      simpa using ha
    · exact List.forall_mem_cons.mpr ⟨ha, ih hnone⟩

variable {kind : α → κ} {k : κ}

variable (want kind k) in
/-- Behind the first wanted element there is one of every other kind than `k` that occurs in front
of it. -/
def Covered (as : List α) : Prop :=
  ∀ front a back, as = front ++ a :: back → want a → (∀ b ∈ front, ¬want b) →
    ∀ b ∈ front, kind b = k ∨ ∃ c ∈ back, kind c = kind b

omit [DecidablePred want] in
private theorem covered_cons_of_want {a : α} (h : want a) (as : List α) :
    Covered want kind k (a :: as) := by
  intro front b back has _ hfront c hc
  rcases front with _ | ⟨d, front⟩
  · exact absurd hc List.not_mem_nil
  · obtain ⟨rfl, -⟩ := List.cons.inj has
    exact absurd h (hfront a List.mem_cons_self)

omit [DecidablePred want] in
private theorem Covered.tail {a : α} {as : List α} (ha : ¬want a)
    (h : Covered want kind k (a :: as)) : Covered want kind k as := by
  intro front b back has hb hfront c hc
  exact h (a :: front) b back (congrArg (a :: ·) has) hb (List.forall_mem_cons.mpr ⟨ha, hfront⟩) c
    (List.mem_cons_of_mem a hc)

omit [DecidablePred want] in
/-- An element that is followed by one of its kind is covered if that one is. -/
private theorem Covered.cons {a : α} {as : List α} (hwant : ∀ b, want b → kind b = k)
    (hnext : ∃ b ∈ as, kind b = kind a) (ha : ¬want a) (h : Covered want kind k as) :
    Covered want kind k (a :: as) := by
  intro front b back has hb hfront
  rcases front with _ | ⟨d, front⟩
  · obtain ⟨rfl, -⟩ := List.cons.inj has
    exact absurd hb ha
  · obtain ⟨rfl, rfl⟩ := List.cons.inj has
    have htail := h front b back rfl hb fun c hc ↦ hfront c (List.mem_cons_of_mem a hc)
    refine List.forall_mem_cons.mpr ⟨?_, htail⟩
    obtain ⟨c, hc, hkind⟩ := hnext
    rcases List.mem_append.mp hc with hc | hc
    · rw [← hkind]
      exact htail c hc
    · rcases List.mem_cons.mp hc with rfl | hc
      · exact Or.inl (hkind.symm.trans (hwant c hb))
      · exact Or.inr ⟨c, hc, hkind⟩

private theorem exists_first {as : List α} (h : ∃ a ∈ as, want a) :
    ∃ front a back, as = front ++ a :: back ∧ want a ∧ ∀ b ∈ front, ¬want b := by
  induction as with
  | nil => exact absurd h (by simp)
  | cons a as ih =>
    by_cases ha : want a
    · exact ⟨[], a, as, rfl, ha, fun _ hb ↦ absurd hb List.not_mem_nil⟩
    · obtain ⟨b, hb, hwant⟩ := h
      have htail : b ∈ as := (List.mem_cons.mp hb).resolve_left fun heq ↦ ha (heq ▸ hwant)
      obtain ⟨front, c, back, rfl, hc, hfront⟩ := ih ⟨b, htail, hwant⟩
      exact ⟨a :: front, c, back, rfl, hc, List.forall_mem_cons.mpr ⟨ha, hfront⟩⟩

/-- **A search that is told only of elements of the same kind** gives up too early exactly if an
element of another kind than the wanted ones is in front of the first of them, and none of its kind
behind. -/
theorem complete_iff_covered (hwant : ∀ a, want a → kind a = k)
    (hleft : ∀ a as, left a as = 0 ↔ ∀ b ∈ as, kind b ≠ kind a) (as : List α) :
    Complete want left as ↔ Covered want kind k as := by
  induction as with
  | nil =>
    refine iff_of_true (fun _ _ ha ↦ absurd ha List.not_mem_nil) fun front a back has ↦ ?_
    exact absurd has.symm (by simp)
  | cons a as ih =>
    by_cases ha : want a
    · refine iff_of_true (fun hnone ↦ ?_) (covered_cons_of_want ha as)
      rw [found_of_want as ha] at hnone
      exact nomatch hnone
    · by_cases hzero : left a as = 0
      · -- the search gives up here, so nothing may be wanted any more
        rw [Complete, found_of_none_left ha hzero]
        have hlast := (hleft a as).mp hzero
        constructor
        · intro hnone front b back has hb
          rw [has] at hnone
          exact absurd hb (hnone rfl b (by simp))
        · intro hcovered _
          by_contra hsome
          push Not at hsome
          obtain ⟨front, b, back, has, hb, hfront⟩ := exists_first hsome
          rcases front with _ | ⟨d, front⟩
          · obtain ⟨rfl, -⟩ := List.cons.inj has
            exact ha hb
          · obtain ⟨rfl, rfl⟩ := List.cons.inj has
            rcases hcovered _ b back rfl hb hfront a List.mem_cons_self with hk | ⟨c, hc, hkind⟩
            · exact hlast b (by simp) ((hwant b hb).trans hk.symm)
            · exact hlast c (by simp [hc]) hkind
      · have hnext : ∃ b ∈ as, kind b = kind a := by
          by_contra hnone
          push Not at hnone
          exact hzero ((hleft a as).mpr hnone)
        rw [Complete, found_of_left ha hzero, List.forall_mem_cons]
        constructor
        · intro h
          exact (ih.mp fun hnone ↦ (h hnone).2).cons hwant hnext ha
        · intro h hnone
          exact ⟨ha, ih.mpr (h.tail ha) hnone⟩

end Hyunjin.Drain
