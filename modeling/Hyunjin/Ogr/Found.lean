import Hyunjin.Ogr.Calls

/-!
# Rulers that are found

A ruler that the search completes has distinct distances as far as the bitmaps reach, and
`found_one` checks the longer ones up to half of `max`. Together that is every distance that has to
be told apart, so long as the ruler is not longer than `max`, and `success_isGolomb` follows.

The length of a ruler is bounded only by the table's limit for the last mark.
-/

namespace Hyunjin

open Ruler

/-! ## `found_one` -/

/-- Distance `d` is noted in the words of `found_one`. -/
private def Noted (diffs : ℕ → U32) (d : ℕ) : Prop := (diffs (d / 32 - 8)).getLsbD (d % 32) = true

private theorem noted_update (diffs : ℕ → U32) {d d' : ℕ} (hd : 256 < d) (hd' : 256 < d') :
    Noted (Function.update diffs (d / 32 - 8) (diffs (d / 32 - 8) ||| 1#32 <<< (d % 32))) d' ↔
      Noted diffs d' ∨ d' = d := by
  rw [Noted, Noted]
  by_cases hword : d' / 32 - 8 = d / 32 - 8
  · have hbit : (1#32 <<< (d % 32)).getLsbD (d' % 32) = true ↔ d' = d := by
      rw [← BitVec.twoPow_eq, BitVec.getLsbD_twoPow, Bool.and_eq_true, decide_eq_true_eq,
        decide_eq_true_eq]
      omega
    rw [hword, Function.update_self, BitVec.getLsbD_or, Bool.or_eq_true, hbit]
  · rw [Function.update_of_ne hword]
    refine ⟨.inl, fun h ↦ h.resolve_right ?_⟩
    rintro rfl
    exact hword rfl

/-- Distance `d` is one that `found_one` checks. -/
private def Checked (max : ℤ) (d : ℕ) : Prop := 256 < d ∧ (d : ℤ) + d ≤ max

variable {max : ℤ} {levels : ℕ → OgrLevel}

private theorem foundOneInner_spec (x : ℤ) (js : List ℕ) (diffs : ℕ → U32)
    (hjs : js.Pairwise fun j j' ↦ marks levels j < marks levels j') :
    match foundOneInner max levels x js diffs with
    | none => ∃ j ∈ js, ∃ d, Checked max d ∧ x - marks levels j = d ∧ Noted diffs d
    | some diffs' =>
      (∀ d, Checked max d → (Noted diffs' d ↔ Noted diffs d ∨ ∃ j ∈ js, x - marks levels j = d)) ∧
      ∀ j ∈ js, ∀ d, Checked max d → x - marks levels j = d → ¬Noted diffs d := by
  induction js generalizing diffs with
  | nil => exact ⟨fun d _ ↦ by simp, fun j hj ↦ absurd hj List.not_mem_nil⟩
  | cons j js ih =>
    obtain ⟨hfirst, hrest⟩ := List.pairwise_cons.mp hjs
    have hmark : (levels j).mark = marks levels j := rfl
    rw [foundOneInner, hmark]
    by_cases hshort : x - marks levels j ≤ OGRNG_BITMAPS_LENGTH
    · -- all further distances are shorter
      have hall : ∀ j' ∈ j :: js, ∀ d, Checked max d → x - marks levels j' ≠ d := by
        intro j' hj' d hd heq
        have hlong : (256 : ℤ) < d := by exact_mod_cast hd.1
        have hshort' : x - marks levels j ≤ 256 := hshort
        rcases List.mem_cons.mp hj' with rfl | hmem
        · omega
        · have := hfirst j' hmem
          omega
      rw [if_pos hshort]
      refine ⟨fun d hd ↦ (or_iff_left ?_).symm, fun j' hj' d hd heq ↦ absurd heq (hall j' hj' d hd)⟩
      rintro ⟨j', hj', heq⟩
      exact hall j' hj' d hd heq
    · rw [if_neg hshort]
      have hlong : 256 < x - marks levels j := not_le.mp hshort
      obtain ⟨e, he⟩ := Int.eq_ofNat_of_zero_le (by omega : 0 ≤ x - marks levels j)
      have hother (j' : ℕ) (hj' : j' ∈ js) : x - marks levels j' ≠ e := by
        have := hfirst j' hj'
        omega
      by_cases hhalf : x - marks levels j + (x - marks levels j) ≤ max
      · rw [if_pos hhalf]
        have hchecked : Checked max e := ⟨by omega, by omega⟩
        have hnoted : diffs (e / 32 - 8) &&& 1#32 <<< (e % 32) ≠ 0#32 ↔ Noted diffs e :=
          and_shift_ne_zero _ (Nat.mod_lt e (by decide))
        simp only [he, Int.toNat_natCast]
        by_cases htaken : diffs (e / 32 - 8) &&& 1#32 <<< (e % 32) ≠ 0#32
        · rw [if_pos htaken]
          exact ⟨j, List.mem_cons_self, e, hchecked, he, hnoted.mp htaken⟩
        · rw [if_neg htaken]
          have hupdate {d : ℕ} (hd : Checked max d) := noted_update diffs hchecked.1 hd.1
          have hspec := ih (Function.update diffs (e / 32 - 8)
            (diffs (e / 32 - 8) ||| 1#32 <<< (e % 32))) hrest
          split at hspec
          · obtain ⟨j', hj', d, hd, heq, hnote⟩ := hspec
            refine ⟨j', List.mem_cons_of_mem _ hj', d, hd, heq,
              ((hupdate hd).mp hnote).resolve_right ?_⟩
            rintro rfl
            exact hother j' hj' heq
          · obtain ⟨hiff, hnew⟩ := hspec
            refine ⟨fun d hd ↦ ?_, fun j' hj' d hd heq hnote ↦ ?_⟩
            · rw [hiff d hd, hupdate hd, or_assoc]
              refine or_congr Iff.rfl ?_
              constructor
              · rintro (rfl | ⟨j', hj', heq⟩)
                · exact ⟨j, List.mem_cons_self, he⟩
                · exact ⟨j', List.mem_cons_of_mem _ hj', heq⟩
              · rintro ⟨j', hj', heq⟩
                rcases List.mem_cons.mp hj' with rfl | hmem
                · exact .inl (by omega)
                · exact .inr ⟨j', hmem, heq⟩
            · rcases List.mem_cons.mp hj' with rfl | hmem
              · obtain rfl : d = e := by omega
                exact htaken (hnoted.mpr hnote)
              · exact hnew j' hmem d hd heq ((hupdate hd).mpr (.inl hnote))
      · rw [if_neg hhalf]
        have hskip (d : ℕ) (hd : Checked max d) : x - marks levels j ≠ d := by
          have := hd.2
          omega
        have hspec := ih diffs hrest
        split at hspec
        · obtain ⟨j', hj', hnote⟩ := hspec
          exact ⟨j', List.mem_cons_of_mem _ hj', hnote⟩
        · obtain ⟨hiff, hnew⟩ := hspec
          refine ⟨fun d hd ↦ ?_, fun j' hj' d hd heq ↦ ?_⟩
          · rw [hiff d hd]
            refine or_congr Iff.rfl ?_
            constructor
            · rintro ⟨j', hj', heq⟩
              exact ⟨j', List.mem_cons_of_mem _ hj', heq⟩
            · rintro ⟨j', hj', heq⟩
              rcases List.mem_cons.mp hj' with rfl | hmem
              · exact absurd heq (hskip d hd)
              · exact ⟨j', hmem, heq⟩
          · rcases List.mem_cons.mp hj' with rfl | hmem
            · exact absurd heq (hskip d hd)
            · exact hnew j' hmem d hd heq

/-- Distance `d` occurs among the marks before `i`. -/
private def Occurs (levels : ℕ → OgrLevel) (i d : ℕ) : Prop :=
  ∃ k < i, ∃ l < k, marks levels k - marks levels l = d

private theorem foundOneOuter_spec (n a : ℕ) (diffs : ℕ → U32) {last : ℕ}
    (hinc : Increasing (marks levels) last) (hlast : a + n ≤ last + 1)
    (hnoted : ∀ d, Checked max d → (Noted diffs d ↔ Occurs levels a d)) :
    match foundOneOuter max levels (List.range' a n) diffs with
    | none => ∃ i < a + n, ∃ j < i, ∃ d, Checked max d ∧ marks levels i - marks levels j = d ∧
        Occurs levels i d
    | some _ => ∀ i < a + n, a ≤ i → ∀ j < i, ∀ d, Checked max d →
        marks levels i - marks levels j = d → ¬Occurs levels i d := by
  induction n generalizing a diffs with
  | zero => exact fun i hi hle ↦ absurd (Nat.lt_of_lt_of_le hi hle) (Nat.lt_irrefl _)
  | succ n ih =>
    have hsorted : (List.range a).Pairwise fun j j' ↦ marks levels j < marks levels j' := by
      refine List.Pairwise.imp_of_mem ?_ List.pairwise_lt_range
      intro j j' _ hj' hlt
      exact hinc.lt hlt (by have := List.mem_range.mp hj'; omega)
    have hinner := @foundOneInner_spec max levels (marks levels a) (List.range a) diffs hsorted
    rw [List.range'_succ, foundOneOuter, show (levels a).mark = marks levels a from rfl]
    rcases hres : foundOneInner max levels (marks levels a) (List.range a) diffs with _ | diffs'
    · rw [hres] at hinner
      obtain ⟨j, hj, d, hd, heq, hnote⟩ := hinner
      exact ⟨a, by omega, j, List.mem_range.mp hj, d, hd, heq, (hnoted d hd).mp hnote⟩
    · rw [hres] at hinner
      obtain ⟨hiff, hnew⟩ := hinner
      have hnext (d : ℕ) (hd : Checked max d) : Noted diffs' d ↔ Occurs levels (a + 1) d := by
        rw [hiff d hd, hnoted d hd]
        constructor
        · rintro (⟨k, hk, hocc⟩ | ⟨j, hj, heq⟩)
          · exact ⟨k, hk.trans a.lt_succ_self, hocc⟩
          · exact ⟨a, a.lt_succ_self, j, List.mem_range.mp hj, heq⟩
        · rintro ⟨k, hk, l, hl, heq⟩
          rcases Nat.lt_succ_iff_lt_or_eq.mp hk with hlt | rfl
          · exact .inl ⟨k, hlt, l, hl, heq⟩
          · exact .inr ⟨l, List.mem_range.mpr hl, heq⟩
      have hrest := ih (a + 1) diffs' (by omega) hnext
      rw [Nat.add_right_comm] at hrest
      dsimp only
      split at hrest
      · exact hrest
      · intro i hi hle j hj d hd heq
        rcases Nat.eq_or_lt_of_le hle with rfl | hlt
        · exact fun hocc ↦ hnew j (List.mem_range.mpr hj) d hd heq ((hnoted d hd).mpr hocc)
        · exact hrest i hi hlt j hj d hd heq

variable {o o' : OgrState} {pchoose : ℕ → U16}

/-- What `found_one` checks. -/
private theorem foundOne_spec (hinc : Increasing (marks o.levels) o.maxdepthm1) :
    (foundOne o = 0 → ∃ i ≤ o.maxdepthm1, ∃ j < i, ∃ d : ℕ,
      marks o.levels i - marks o.levels j = d ∧
      Occurs o.levels i d) ∧
    (foundOne o ≠ 0 → ∀ i ≤ o.maxdepthm1, ∀ j < i, ∀ d, Checked o.max d →
      marks o.levels i - marks o.levels j = d → ¬Occurs o.levels i d) := by
  have hempty (d : ℕ) (_ : Checked o.max d) : Noted (fun _ ↦ 0#32) d ↔ Occurs o.levels 1 d := by
    rw [Noted, BitVec.getLsbD_zero]
    refine iff_of_false Bool.false_ne_true ?_
    rintro ⟨k, hk, l, hl, -⟩
    omega
  have hspec := foundOneOuter_spec o.maxdepthm1 1 (fun _ ↦ 0#32) hinc (by omega) hempty
  rw [foundOne]
  rcases hres : foundOneOuter o.max o.levels (List.range' 1 o.maxdepthm1) (fun _ ↦ 0#32) with _ |
    diffs'
  · rw [hres] at hspec
    refine ⟨fun _ ↦ ?_, fun h ↦ absurd rfl h⟩
    obtain ⟨i, hi, j, hj, d, -, heq, hocc⟩ := hspec
    exact ⟨i, by omega, j, hj, d, heq, hocc⟩
  · rw [hres] at hspec
    refine ⟨fun h ↦ absurd h (show (-1 : ℤ) ≠ 0 by decide), fun _ i hi j hj ↦ ?_⟩
    exact hspec i (by omega) (by omega) j hj

/-- **A Golomb ruler passes.** -/
theorem foundOne_of_isGolomb (h : IsGolomb (marks o.levels) o.maxdepthm1) : foundOne o ≠ 0 := by
  intro hzero
  obtain ⟨i, hi, j, hj, d, heq, k, hk, l, hl, heq'⟩ := (foundOne_spec h.increasing).1 hzero
  have hsame := h.distinct hl (hk.le.trans hi) hj hi (heq'.trans heq.symm) trivial
  exact hk.ne hsame.2

/-- **The long distances of a ruler that passes** are distinct, up to half of `max`. -/
theorem distinctDistances_of_foundOne (hinc : Increasing (marks o.levels) o.maxdepthm1)
    (h : foundOne o ≠ 0) :
    DistinctDistances (fun d ↦ 256 < d ∧ d + d ≤ o.max) (marks o.levels) o.maxdepthm1 := by
  have hspec := (foundOne_spec hinc).2 h
  intro i j k l hij hj hkl hl hd hP
  obtain ⟨e, he⟩ := Int.eq_ofNat_of_zero_le (by omega : 0 ≤ marks o.levels j - marks o.levels i)
  have hchecked : Checked o.max e := ⟨by omega, by omega⟩
  rcases Nat.lt_trichotomy j l with hlt | rfl | hgt
  · exact absurd ⟨j, hlt, i, hij, he⟩ (hspec l hl k hkl e hchecked (hd.symm.trans he))
  · refine ⟨?_, rfl⟩
    rcases Nat.lt_trichotomy i k with hik | hik | hki
    · have := hinc.lt hik (hkl.le.trans hl)
      omega
    · exact hik
    · have := hinc.lt hki (hij.le.trans hj)
      omega
  · exact absurd ⟨l, hgt, k, hkl, hd.symm.trans he⟩ (hspec j hj i hij e hchecked he)

/-! ## Soundness -/

theorem OgrState.Found.increasing (h : o.Found pchoose) :
    Increasing (marks o.levels) o.maxdepthm1 :=
  fun i hi ↦ (h.placed (i + 1) hi).above i i.lt_succ_self

/-- A ruler found is Golomb, if it is not longer than `max`. -/
theorem OgrState.Found.isGolomb (h : o.Found pchoose) (hmax : marks o.levels o.maxdepthm1 ≤ o.max) :
    IsGolomb (marks o.levels) o.maxdepthm1 := by
  have hshort := distinctDistances_of_not_blocked h.increasing fun d hd ↦ (h.placed d hd).free
  refine ⟨h.increasing, distinctDistances_of_half h.increasing ?_⟩
  intro i j k l hij hj hkl hl hd hhalf
  rw [h.origin, sub_zero] at hhalf
  rcases le_or_gt (marks o.levels j - marks o.levels i) 256 with hle | hgt
  · exact hshort hij hj hkl hl hd hle
  · -- half the ruler is longer than the bitmaps, so `found_one` has been asked
    have hlong : 2 * OGRNG_BITMAPS_LENGTH < marks o.levels o.maxdepthm1 := by
      rw [OGRNG_BITMAPS_LENGTH]
      omega
    exact distinctDistances_of_foundOne h.increasing (h.foundOne hlong) hij hj hkl hl hd
      ⟨hgt, hhalf.trans hmax⟩

/-- **Soundness of the search.** When a call returns `CORE_S_SUCCESS`, the marks go up, and if the
last is not beyond `max` no distance occurs twice; a table whose limits for the last mark are not
beyond `max` sees to that. -/
theorem success_isGolomb {cacheHealthy : Bool} {workstub : OgrWorkStub} {lastSegment total : ℤ}
    (hdiffs : ∀ i < workstub.placed, 0 < stubDiff workstub.stub.diffs i)
    (hcreate : ogrCreate pchoose cacheHealthy workstub lastSegment = .ok o)
    (hcalls : Calls pchoose o total CORE_S_SUCCESS o') :
    Increasing (marks o'.levels) o.maxdepthm1 ∧
      (marks o'.levels o.maxdepthm1 ≤ o.max → IsGolomb (marks o'.levels) o.maxdepthm1) ∧
      ((∀ dist0, choose pchoose dist0 o.maxdepthm1 ≤ o.max) →
        marks o'.levels o.maxdepthm1 ≤ o.max) := by
  obtain ⟨⟨depth, levels, rfl⟩, hfound⟩ := hcalls.found (created_of_ogrCreate hdiffs hcreate).ready
  refine ⟨hfound.increasing, hfound.isGolomb, fun htable ↦ ?_⟩
  have hlast := hfound.placed o.maxdepthm1 le_rfl
  calc marks levels o.maxdepthm1
    _ ≤ (levels o.maxdepthm1).limit := hlast.le
    _ = o.rulerLimit pchoose (marks levels) o.maxdepthm1 := hlast.limit
    _ ≤ choose pchoose (distWord (marks levels) o.maxdepthm1) o.maxdepthm1 :=
        o.rulerLimit_le_choose pchoose _ _
    _ ≤ o.max := htable _

/-- All but two differences of the shortest ruler of 21 marks. -/
def shortestStub : OgrWorkStub :=
  .ofDiffs 21 18 18 [2, 22, 32, 21, 5, 1, 12, 34, 15, 35, 7, 9, 60, 10, 20, 8, 3, 14]

theorem success_isGolomb_shortest :
    ∃ (o o' : OgrState) (total : ℤ), Calls (fun _ ↦ 333#16) o total CORE_S_SUCCESS o' ∧
      IsGolomb (marks o'.levels) o.maxdepthm1 := by
  have hrun : ((ogrCreate (fun _ ↦ 333#16) true shortestStub 0).toOption.bind fun o ↦
      (ogrCycleEntry (fun _ ↦ 333#16) 40 o 100).map fun r ↦ (r.1, decide (o.max = 333))) =
      some (CORE_S_SUCCESS, true) := by
    decide +kernel
  obtain ⟨o, code, spent, o', hcreate, hcall, hres⟩ := exists_call hrun
  obtain ⟨rfl, hmax⟩ := Prod.mk.inj hres
  have hdiffs : ∀ i < shortestStub.placed, 0 < stubDiff shortestStub.stub.diffs i := by
    decide +kernel
  have hcalls := Calls.last (by decide) hcall
  obtain ⟨-, hgolomb, hlast⟩ := success_isGolomb hdiffs hcreate hcalls
  exact ⟨o, o', spent, hcalls, hgolomb (hlast fun _ ↦ (of_decide_eq_true hmax).ge)⟩

/-- Segments of 300 after the shortest ruler of twelve marks. -/
def longStub : OgrWorkStub :=
  .ofDiffs 21 19 19 [2, 4, 18, 5, 11, 3, 12, 13, 7, 1, 9, 300, 300, 300, 300, 300, 300, 300, 300]

/-- **With a longer limit for the last mark** the search accepts a ruler that repeats a distance. -/
theorem not_isGolomb_of_long_limit :
    ¬∀ (pchoose : ℕ → U16) (cacheHealthy : Bool) (workstub : OgrWorkStub) (lastSegment total : ℤ)
      (o o' : OgrState), (∀ i < workstub.placed, 0 < stubDiff workstub.stub.diffs i) →
      ogrCreate pchoose cacheHealthy workstub lastSegment = .ok o →
      Calls pchoose o total CORE_S_SUCCESS o' → IsGolomb (marks o'.levels) o.maxdepthm1 := by
  intro hall
  have hrun : ((ogrCreate (fun _ ↦ 65535#16) true longStub 0).toOption.bind fun o ↦
      (ogrCycleEntry (fun _ ↦ 65535#16) 10 o 100).map fun r ↦ (r.1, o.maxdepthm1,
        (r.2.2.levels 11).mark, (r.2.2.levels 12).mark, (r.2.2.levels 13).mark)) =
      some (CORE_S_SUCCESS, 20, 85, 385, 685) := by
    decide +kernel
  obtain ⟨o, code, spent, o', hcreate, hcall, hres⟩ := exists_call hrun
  simp only [Prod.mk.injEq] at hres
  obtain ⟨rfl, hlast, h11, h12, h13⟩ := hres
  have hdiffs : ∀ i < longStub.placed, 0 < stubDiff longStub.stub.diffs i := by decide +kernel
  have hgolomb := hall _ _ _ _ _ _ _ hdiffs hcreate (Calls.last (by decide) hcall)
  rw [hlast] at hgolomb
  have hd : marks o'.levels 12 - marks o'.levels 11 = marks o'.levels 13 - marks o'.levels 12 := by
    rw [marks, marks, marks, h11, h12, h13]
    rfl
  exact absurd (hgolomb.distinct (by decide) (by decide) (by decide) (by decide) hd trivial).1
    (by decide)

end Hyunjin
