import Mathlib.Order.WellFounded

/-!
# Loops that may not end

A loop does its body until it is done. With enough fuel it returns, unless it comes to a state that
it is stuck in: a body that makes headway in every other state makes only so much of it.
-/

namespace Hyunjin.Run

variable {σ : Type*}

section Loop

variable (done : σ → Bool) (body : σ → Option σ)

/-- `while (!done) body`; `none` if the body has no result, or the fuel is out. -/
def whileLoop : ℕ → σ → Option σ
  | 0, _ => none
  | fuel + 1, s => if done s then some s else (body s).bind (whileLoop fuel)

/-- The states that the loop comes to from `s`. -/
inductive Visits (s : σ) : σ → Prop
  | here : Visits s s
  | next {t u : σ} (visits : Visits s t) (going : done t = false) (step : body t = some u) :
      Visits s u

end Loop

variable {done : σ → Bool} {body : σ → Option σ}

theorem whileLoop_done {s : σ} (h : done s = true) (fuel : ℕ) :
    whileLoop done body (fuel + 1) s = some s := by
  rw [whileLoop, if_pos h]

theorem whileLoop_next {s t : σ} (h : done s = false) (hstep : body s = some t) (fuel : ℕ) :
    whileLoop done body (fuel + 1) s = whileLoop done body fuel t := by
  rw [whileLoop, if_neg (by rw [h]; exact Bool.false_ne_true), hstep, Option.bind_some]

/-- **A loop ends in its invariant** if its body keeps it and makes headway. -/
theorem exists_whileLoop_eq (inv : σ → Prop) (left : σ → ℕ)
    (hbody : ∀ s, inv s → done s = false → ∃ t, body s = some t ∧ inv t ∧ left t < left s)
    {fuel : ℕ} {s : σ} (hs : inv s) (hfuel : left s < fuel) :
    ∃ t, whileLoop done body fuel s = some t ∧ inv t ∧ done t = true := by
  induction fuel generalizing s with
  | zero => exact absurd hfuel (Nat.not_lt_zero _)
  | succ fuel ih =>
    cases hdone : done s with
    | true => exact ⟨s, whileLoop_done hdone fuel, hs, hdone⟩
    | false =>
      obtain ⟨t, ht, hinv, hless⟩ := hbody s hs hdone
      rw [whileLoop_next hdone ht]
      exact ih hinv (by omega)

/-- What the loop returns does not depend on the fuel. -/
theorem whileLoop_unique {fuel fuel' : ℕ} {s t t' : σ} (h : whileLoop done body fuel s = some t)
    (h' : whileLoop done body fuel' s = some t') : t = t' := by
  induction fuel generalizing fuel' s with
  | zero => exact nomatch h
  | succ fuel ih =>
    cases fuel' with
    | zero => exact nomatch h'
    | succ fuel' =>
      rw [whileLoop] at h h'
      split_ifs at h h' with hdone
      · exact Option.some.inj (h.symm.trans h')
      · obtain ⟨u, hu, hloop⟩ := Option.bind_eq_some_iff.mp h
        obtain ⟨u', hu', hloop'⟩ := Option.bind_eq_some_iff.mp h'
        obtain rfl : u = u' := Option.some.inj (hu.symm.trans hu')
        exact ih hloop hloop'

theorem Visits.trans {s t u : σ} (h : Visits done body s t) (h' : Visits done body t u) :
    Visits done body s u := by
  induction h' with
  | here => exact h
  | next _ hgoing hstep ih => exact ih.next hgoing hstep

/-- The states that a loop comes to, after its first turn. -/
theorem Visits.eq_or_next {s u : σ} (h : Visits done body s u) :
    u = s ∨ done s = false ∧ ∃ t, body s = some t ∧ Visits done body t u := by
  induction h with
  | here => exact .inl rfl
  | next _ hgoing hstep ih =>
    rcases ih with rfl | ⟨hfirst, t, ht, hvisits⟩
    · exact .inr ⟨hgoing, _, hstep, .here⟩
    · exact .inr ⟨hfirst, t, ht, hvisits.next hgoing hstep⟩

section Return

variable (ok : σ → Prop)

/-- A loop does not return if its body leads from bad states to bad ones only. -/
theorem whileLoop_eq_none
    (hbad : ∀ s, ¬ok s → done s = false ∧ ∀ t, body s = some t → ¬ok t) {s : σ} (hs : ¬ok s)
    (fuel : ℕ) : whileLoop done body fuel s = none := by
  induction fuel generalizing s with
  | zero => rfl
  | succ fuel ih =>
    obtain ⟨hgoing, hnext⟩ := hbad s hs
    rw [whileLoop, if_neg (by rw [hgoing]; exact Bool.false_ne_true)]
    cases hbody : body s with
    | none => rfl
    | some t => exact ih (hnext t hbody)

/-- **A loop returns exactly from the states that are ok**, where its body makes headway. -/
theorem exists_whileLoop_iff_ok (left : σ → ℕ)
    (hok : ∀ s, ok s → done s = false → ∃ t, body s = some t ∧ ok t ∧ left t < left s)
    (hbad : ∀ s, ¬ok s → done s = false ∧ ∀ t, body s = some t → ¬ok t) (s : σ) :
    (∃ fuel t, whileLoop done body fuel s = some t) ↔ ok s := by
  constructor
  · rintro ⟨fuel, t, ht⟩
    by_contra hs
    rw [whileLoop_eq_none ok hbad hs] at ht
    exact nomatch ht
  · intro hs
    obtain ⟨t, ht, -⟩ := exists_whileLoop_eq ok left hok hs (Nat.lt_succ_self _)
    exact ⟨_, t, ht⟩

/-- **A loop that makes headway returns** exactly if its body has a result wherever it comes to. -/
theorem exists_whileLoop_iff_visits (left : σ → ℕ)
    (hless : ∀ s t, done s = false → body s = some t → left t < left s) (s : σ) :
    (∃ fuel t, whileLoop done body fuel s = some t) ↔
      ∀ t, Visits done body s t → done t = false → body t ≠ none := by
  refine exists_whileLoop_iff_ok
    (fun s ↦ ∀ t, Visits done body s t → done t = false → body t ≠ none) left
    (fun s hs hgoing ↦ ?_) (fun s hs ↦ ?_) s
  · obtain ⟨t, ht⟩ := Option.ne_none_iff_exists'.mp (hs s .here hgoing)
    exact ⟨t, ht, fun u hu ↦ hs u ((Visits.here.next hgoing ht).trans hu), hless s t hgoing ht⟩
  · simp only [not_forall] at hs
    obtain ⟨u, hvisits, hgoing, hnone⟩ := hs
    rcases hvisits.eq_or_next with rfl | ⟨hfirst, t, ht, hvisits⟩
    · exact ⟨hgoing, fun t ht ↦ absurd (fun h ↦ nomatch h.symm.trans ht) hnone⟩
    · refine ⟨hfirst, fun t' ht' hall ↦ hnone ?_⟩
      obtain rfl : t = t' := Option.some.inj (ht.symm.trans ht')
      exact hall u hvisits hgoing

end Return

/-- **A loop returns exactly if it does not get stuck**: a body that is not stuck makes headway, and
one that is stuck stays so. -/
theorem exists_whileLoop_iff {rel : σ → σ → Prop} (hwf : WellFounded rel) {stuck : σ → Prop}
    (hbody : ∀ s, done s = false → ∃ t, body s = some t)
    (hless : ∀ s t, done s = false → body s = some t → ¬stuck s → done t = true ∨ rel t s)
    (hstuck : ∀ s, stuck s → done s = false ∧ ∃ t, body s = some t ∧ stuck t) (s : σ) :
    (∃ fuel t, whileLoop done body fuel s = some t) ↔ ∀ t, Visits done body s t → ¬stuck t := by
  constructor
  · rintro ⟨fuel, r, hr⟩ t hvisits ht
    have hstay : ∀ fuel u, stuck u → whileLoop done body fuel u = none := by
      intro fuel
      induction fuel with
      | zero => exact fun u _ ↦ rfl
      | succ fuel ih =>
        intro u hu
        obtain ⟨hgoing, v, hv, hstuck'⟩ := hstuck u hu
        rw [whileLoop_next hgoing hv]
        exact ih v hstuck'
    have hback : ∀ t, Visits done body s t → ∃ fuel, whileLoop done body fuel t = some r := by
      intro t hvisits
      induction hvisits with
      | here => exact ⟨fuel, hr⟩
      | next _ hgoing hstep ih =>
        obtain ⟨fuel, hfuel⟩ := ih
        cases fuel with
        | zero => exact nomatch hfuel
        | succ fuel => exact ⟨fuel, (whileLoop_next hgoing hstep fuel).symm.trans hfuel⟩
    obtain ⟨fuel, hfuel⟩ := hback t hvisits
    rw [hstay fuel t ht] at hfuel
    exact nomatch hfuel
  · intro hfree
    induction s using hwf.induction with
    | _ s ih =>
      cases hdone : done s with
      | true => exact ⟨1, s, whileLoop_done hdone 0⟩
      | false =>
        obtain ⟨t, ht⟩ := hbody s hdone
        have hvisits : Visits done body s t := Visits.here.next hdone ht
        obtain ⟨fuel, r, hr⟩ : ∃ fuel r, whileLoop done body fuel t = some r := by
          rcases hless s t hdone ht (hfree s .here) with hend | hrel
          · exact ⟨1, t, whileLoop_done hend 0⟩
          · exact ih t hrel fun u hu ↦ hfree u (hvisits.trans hu)
        exact ⟨fuel + 1, r, (whileLoop_next hdone ht fuel).trans hr⟩

end Hyunjin.Run
