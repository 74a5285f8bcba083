import Mathlib.Data.Multiset.Filter
import Mathlib.Data.List.Basic
import Mathlib.Data.List.Forall2

/-!
# Slot stores

A store is a list of slots of which some hold the distinguished value `blank`. Things are taken out
by blanking the first slot that is not blank, and put in by overwriting a blank slot or appending
one. What a store holds is the multiset `contents` of its slots that are not blank; taking and
putting change it by exactly the thing taken or put, whichever blank slot is chosen.

The second half is about two stores of different slot types that look alike, slot by slot: scanning
one and scanning the other finds the same place, and filling it keeps them alike.
-/

namespace Hyunjin.Slots

variable {β : Type*} [DecidableEq β] (blank : β)

/-! ## What a store holds -/

/-- The slots that are not blank. -/
def full (cs : List β) : List β := cs.filter (· ≠ blank)

def contents (cs : List β) : Multiset β := (full blank cs : Multiset β)

variable {blank}

theorem full_append (cs ds : List β) : full blank (cs ++ ds) = full blank cs ++ full blank ds :=
  List.filter_append ..

theorem full_cons_of_ne {c : β} (h : c ≠ blank) (cs : List β) :
    full blank (c :: cs) = c :: full blank cs := List.filter_cons_of_pos (by simpa using h)

theorem full_cons_blank (cs : List β) : full blank (blank :: cs) = full blank cs :=
  List.filter_cons_of_neg (by simp)

omit [DecidableEq β] in
private theorem set_split {cs : List β} {i : ℕ} {x : β} (h : cs[i]? = some x) (c : β) :
    cs = cs.take i ++ x :: cs.drop (i + 1) ∧ cs.set i c = cs.take i ++ c :: cs.drop (i + 1) := by
  obtain ⟨hi, hx⟩ := List.getElem?_eq_some_iff.mp h
  refine ⟨?_, by rw [List.set_eq_take_append_cons_drop, if_pos hi]⟩
  rw [← hx, ← List.drop_eq_getElem_cons hi, List.take_append_drop]

private theorem contents_insert {c : β} (h : c ≠ blank) (cs ds : List β) :
    contents blank (cs ++ c :: ds) = c ::ₘ contents blank (cs ++ blank :: ds) := by
  rw [contents, contents, full_append, full_cons_of_ne h, full_append, full_cons_blank,
    Multiset.cons_coe, Multiset.coe_eq_coe]
  exact List.perm_middle

/-- Taking from a slot takes what was in it. -/
theorem contents_take {cs : List β} {i : ℕ} {c : β} (h : cs[i]? = some c) (hc : c ≠ blank) :
    contents blank cs = c ::ₘ contents blank (cs.set i blank) := by
  obtain ⟨hsplit, hset⟩ := set_split h blank
  rw [hset, ← contents_insert hc, ← hsplit]

/-- Putting into a blank slot adds what is put. -/
theorem contents_put {cs : List β} {i : ℕ} (h : cs[i]? = some blank) {c : β} (hc : c ≠ blank) :
    contents blank (cs.set i c) = c ::ₘ contents blank cs := by
  obtain ⟨hsplit, hset⟩ := set_split h c
  rw [hset, contents_insert hc, ← hsplit]

theorem contents_append {c : β} (hc : c ≠ blank) (cs : List β) :
    contents blank (cs ++ [c]) = c ::ₘ contents blank cs := by
  rw [contents_insert hc, contents, contents, full_append, full_cons_blank]
  simp [full]

@[simp] theorem contents_nil : contents blank ([] : List β) = 0 := rfl

theorem contents_eq_zero {cs : List β} (h : ∀ c ∈ cs, c = blank) : contents blank cs = 0 := by
  rw [contents, full, List.filter_eq_nil_iff.mpr fun c hc ↦ by simp [h c hc]]
  rfl

/-! ## Finding a slot -/

variable (blank)

/-- The first slot that is not blank, with its place. -/
def firstFull : List β → Option (ℕ × β)
  | [] => none
  | c :: cs => if c = blank then (firstFull cs).map fun x ↦ (x.1 + 1, x.2) else some (0, c)

/-- The place of the first blank slot, or the end. -/
def firstBlank (cs : List β) : ℕ := cs.findIdx (· = blank)

/-- Put into slot `i`, or append. -/
def fill (cs : List β) (i : ℕ) (c : β) : List β := if i < cs.length then cs.set i c else cs ++ [c]

variable {blank}

theorem firstFull_eq_some {cs : List β} {i : ℕ} {c : β} (h : firstFull blank cs = some (i, c)) :
    cs[i]? = some c ∧ c ≠ blank := by
  induction cs generalizing i with
  | nil => exact nomatch h
  | cons d cs ih =>
    rw [firstFull] at h
    by_cases hd : d = blank
    · rw [if_pos hd] at h
      obtain ⟨⟨j, e⟩, hj, he⟩ := Option.map_eq_some_iff.mp h
      obtain ⟨rfl, rfl⟩ := Prod.mk.inj he
      exact ih hj
    · rw [if_neg hd] at h
      obtain ⟨rfl, rfl⟩ := Prod.mk.inj (Option.some.inj h)
      exact ⟨rfl, hd⟩

theorem firstFull_eq_none {cs : List β} : firstFull blank cs = none ↔ ∀ c ∈ cs, c = blank := by
  induction cs with
  | nil => simp [firstFull]
  | cons d cs ih =>
    rw [firstFull, List.forall_mem_cons]
    by_cases hd : d = blank
    · rw [if_pos hd, Option.map_eq_none_iff, ih]
      exact ⟨fun h ↦ ⟨hd, h⟩, And.right⟩
    · simp [hd]

theorem firstBlank_le (cs : List β) : firstBlank blank cs ≤ cs.length := List.findIdx_le_length

theorem getElem?_firstBlank {cs : List β} (h : firstBlank blank cs < cs.length) :
    cs[firstBlank blank cs]? = some blank := by
  have := List.findIdx_getElem (w := h)
  rw [List.getElem?_eq_getElem h]
  exact congrArg some (of_decide_eq_true this)

omit [DecidableEq β] in
theorem getElem?_fill {cs : List β} {i : ℕ} (hi : i ≤ cs.length) (c : β) :
    (fill cs i c)[i]? = some c := by
  rw [fill]
  split_ifs with hlt
  · exact List.getElem?_set_self hlt
  · obtain rfl : i = cs.length := by omega
    exact List.getElem?_concat_length

/-- Putting at the first blank slot, or at the end, adds what is put. -/
theorem contents_fill {cs : List β} {i : ℕ} (hi : i < cs.length → cs[i]? = some blank) {c : β}
    (hc : c ≠ blank) : contents blank (fill cs i c) = c ::ₘ contents blank cs := by
  rw [fill]
  split_ifs with hlt
  · exact contents_put (hi hlt) hc
  · exact contents_append hc cs

/-- What precedes the first full slot is blank. -/
theorem eq_blank_of_lt_firstFull {cs : List β} {i : ℕ} {c : β}
    (h : firstFull blank cs = some (i, c)) {j : ℕ} (hj : j < i) : cs[j]? = some blank := by
  induction cs generalizing i j with
  | nil => exact nomatch h
  | cons d cs ih =>
    rw [firstFull] at h
    by_cases hd : d = blank
    · rw [if_pos hd] at h
      obtain ⟨⟨k, e⟩, hk, he⟩ := Option.map_eq_some_iff.mp h
      obtain ⟨rfl, rfl⟩ := Prod.mk.inj he
      cases j with
      | zero => rw [hd]; rfl
      | succ j => exact ih hk (Nat.lt_of_succ_lt_succ hj)
    · rw [if_neg hd] at h
      obtain ⟨rfl, rfl⟩ := Prod.mk.inj (Option.some.inj h)
      exact absurd hj (Nat.not_lt_zero j)

/-- Taking the first full slot leaves the others in their order. -/
theorem full_of_firstFull {cs : List β} {i : ℕ} {c : β} (h : firstFull blank cs = some (i, c)) :
    full blank cs = c :: full blank (cs.set i blank) := by
  induction cs generalizing i with
  | nil => exact nomatch h
  | cons d cs ih =>
    rw [firstFull] at h
    by_cases hd : d = blank
    · rw [if_pos hd] at h
      obtain ⟨⟨j, e⟩, hj, he⟩ := Option.map_eq_some_iff.mp h
      obtain ⟨rfl, rfl⟩ := Prod.mk.inj he
      rw [hd, List.set_cons_succ, full_cons_blank, full_cons_blank, ih hj]
    · rw [if_neg hd] at h
      obtain ⟨rfl, rfl⟩ := Prod.mk.inj (Option.some.inj h)
      rw [List.set_cons_zero, full_cons_of_ne hd, full_cons_blank]

/-- Taking the last slot leaves none that is full. -/
theorem eq_blank_of_take_last {cs : List β} {i : ℕ} {c : β} (h : firstFull blank cs = some (i, c))
    (hlast : i + 1 = cs.length) : ∀ x ∈ cs.set i blank, x = blank := by
  intro x hx
  obtain ⟨j, hj, rfl⟩ := List.getElem_of_mem hx
  rw [List.length_set] at hj
  rw [List.getElem_set]
  split_ifs with hij
  · rfl
  · have hblank := eq_blank_of_lt_firstFull h (show j < i by omega)
    exact (List.getElem?_eq_some_iff.mp hblank).2

/-- The number of blank slots. -/
def blanks (blank : β) (cs : List β) : ℕ := cs.count blank

theorem blanks_cons_blank (cs : List β) : blanks blank (blank :: cs) = blanks blank cs + 1 :=
  List.count_cons_self

theorem blanks_cons_of_ne {c : β} (h : c ≠ blank) (cs : List β) :
    blanks blank (c :: cs) = blanks blank cs := List.count_cons_of_ne h

theorem blanks_pos_iff {cs : List β} : 0 < blanks blank cs ↔ blank ∈ cs := List.count_pos_iff

theorem length_full_add_blanks (cs : List β) :
    (full blank cs).length + blanks blank cs = cs.length := by
  induction cs with
  | nil => rfl
  | cons c cs ih =>
    by_cases hc : c = blank
    · rw [hc, full_cons_blank, blanks_cons_blank, List.length_cons, ← ih, Nat.add_assoc]
    · rw [full_cons_of_ne hc, blanks_cons_of_ne hc, List.length_cons, List.length_cons, ← ih,
        Nat.add_right_comm]

theorem firstBlank_lt_iff {cs : List β} : firstBlank blank cs < cs.length ↔ blank ∈ cs := by
  constructor
  · intro h
    exact List.mem_of_getElem? (getElem?_firstBlank h)
  · intro h
    exact List.findIdx_lt_length_of_exists ⟨blank, h, by simp⟩

/-- A store with at most one blank slot has no blank slot once that is filled. -/
theorem length_fill_firstBlank {cs : List β} (h : blanks blank cs ≤ 1) (c : β) :
    (fill cs (firstBlank blank cs) c).length = (full blank cs).length + 1 := by
  have hlen : (full blank cs).length + blanks blank cs = cs.length := length_full_add_blanks cs
  rw [fill]
  split_ifs with hlt
  · have hpos : 0 < blanks blank cs := blanks_pos_iff.mpr (firstBlank_lt_iff.mp hlt)
    rw [List.length_set]
    omega
  · have hno : ¬0 < blanks blank cs := fun hpos ↦ hlt
      (firstBlank_lt_iff.mpr (blanks_pos_iff.mp hpos))
    rw [List.length_append, List.length_singleton]
    omega

/-! ## Two stores that look alike -/

section Alike

variable {γ : Type*} [DecidableEq γ] {blank' : γ} {R : β → γ → Prop}

/-- Two slots are both blank, or hold related things. -/
inductive SlotAlike (blank : β) (blank' : γ) (R : β → γ → Prop) : β → γ → Prop
  | blank : SlotAlike blank blank' R blank blank'
  | full {b : β} {c : γ} (hb : b ≠ blank) (hc : c ≠ blank') (h : R b c) :
    SlotAlike blank blank' R b c

/-- Two stores look alike, slot by slot. -/
def Alike (blank : β) (blank' : γ) (R : β → γ → Prop) : List β → List γ → Prop :=
  List.Forall₂ (SlotAlike blank blank' R)

omit [DecidableEq β] [DecidableEq γ] in
theorem Alike.set {bs : List β} {cs : List γ} (h : Alike blank blank' R bs cs) (i : ℕ) {b : β}
    {c : γ} (hbc : SlotAlike blank blank' R b c) : Alike blank blank' R (bs.set i b)
      (cs.set i c) := by
  induction h generalizing i with
  | nil => exact List.Forall₂.nil
  | cons hd tl ih =>
    cases i with
    | zero => exact List.Forall₂.cons hbc tl
    | succ i => exact List.Forall₂.cons hd (ih i)

omit [DecidableEq β] [DecidableEq γ] in
theorem Alike.fill {bs : List β} {cs : List γ} (h : Alike blank blank' R bs cs) (i : ℕ) {b : β}
    {c : γ} (hbc : SlotAlike blank blank' R b c) :
    Alike blank blank' R (fill bs i b) (fill cs i c) := by
  have hlen : bs.length = cs.length := h.length_eq
  rw [Slots.fill, Slots.fill, hlen]
  split_ifs
  · exact h.set i hbc
  · exact List.rel_append h (List.Forall₂.cons hbc List.Forall₂.nil)

/-- The first full slots are in the same place and hold related things. -/
theorem Alike.firstFull {bs : List β} {cs : List γ} (h : Alike blank blank' R bs cs) :
    (firstFull blank bs = none ∧ firstFull blank' cs = none) ∨
    ∃ i b c, firstFull blank bs = some (i, b) ∧ firstFull blank' cs = some (i, c) ∧ R b c := by
  induction h with
  | nil => exact Or.inl ⟨rfl, rfl⟩
  | cons hd tl ih =>
    rw [Slots.firstFull, Slots.firstFull]
    cases hd with
    | blank =>
      rw [if_pos rfl, if_pos rfl]
      rcases ih with ⟨hb, hc⟩ | ⟨i, b, c, hb, hc, hR⟩
      · exact Or.inl ⟨by rw [hb]; rfl, by rw [hc]; rfl⟩
      · exact Or.inr ⟨i + 1, b, c, by rw [hb]; rfl, by rw [hc]; rfl, hR⟩
    | full hb hc hR =>
      rw [if_neg hb, if_neg hc]
      exact Or.inr ⟨0, _, _, rfl, rfl, hR⟩

theorem Alike.firstBlank {bs : List β} {cs : List γ} (h : Alike blank blank' R bs cs) :
    firstBlank blank bs = firstBlank blank' cs := by
  induction h with
  | nil => rfl
  | cons hd tl ih =>
    rw [Slots.firstBlank, Slots.firstBlank] at ih ⊢
    rw [List.findIdx_cons, List.findIdx_cons]
    cases hd with
    | blank => simp
    | full hb hc hR => simp [hb, hc, ih]

theorem Alike.blanks {bs : List β} {cs : List γ} (h : Alike blank blank' R bs cs) :
    blanks blank bs = blanks blank' cs := by
  induction h with
  | nil => rfl
  | cons hd tl ih =>
    cases hd with
    | blank => rw [blanks_cons_blank, blanks_cons_blank, ih]
    | full hb hc hR => rw [blanks_cons_of_ne hb, blanks_cons_of_ne hc, ih]

/-- Readings under which related things are equal list the same. -/
theorem Alike.map_full {δ : Type*} {f : β → δ} {g : γ → δ} (hfg : ∀ b c, R b c → f b = g c)
    {bs : List β} {cs : List γ} (h : Alike blank blank' R bs cs) :
    (full blank bs).map f = (full blank' cs).map g := by
  induction h with
  | nil => rfl
  | cons hd tl ih =>
    cases hd with
    | blank => rw [full_cons_blank, full_cons_blank, ih]
    | full hb hc hR =>
      rw [full_cons_of_ne hb, full_cons_of_ne hc, List.map_cons, List.map_cons, ih, hfg _ _ hR]

end Alike

end Hyunjin.Slots
