import Hyunjin.Ogr.Calls

/-!
# The stubs that are accepted

The differences of a stub describe a ruler if its marks go up, each within its limit, and no
distance that fits a bitmap is met twice. `ogrCreate` accepts just these stubs, but for one thing:
it looks at the place it comes to only if it has moved, and a difference of zero moves nothing. A
stub that places two marks on one place, and is right otherwise, is accepted too
(`acceptsRulers_iff`).
-/

namespace Hyunjin

open Ruler

variable {pchoose : ℕ → U16} {workstub : OgrWorkStub} {lastSegment : ℤ}

/-- The marks that are placed are the beginning of a ruler. -/
structure OgrWorkStub.Describes (pchoose : ℕ → U16) (workstub : OgrWorkStub) : Prop where
  placed : workstub.placed < OGR_STUB_MAX
  increasing : Increasing (stubMark workstub.stub.diffs) workstub.placed
  le : ∀ i < workstub.placed, stubMark workstub.stub.diffs (i + 1) ≤
    (initialState workstub).rulerLimit pchoose (stubMark workstub.stub.diffs) (i + 1)
  distinct : DistinctDistances (· ≤ OGRNG_BITMAPS_LENGTH) (stubMark workstub.stub.diffs)
    workstub.placed

/-- A stub is accepted exactly if it describes a ruler, and its marks are placed. -/
structure AcceptsRulers (pchoose : ℕ → U16) (workstub : OgrWorkStub) (lastSegment : ℤ) :
    Prop where
  accepts : (∃ o, ogrCreate pchoose true workstub lastSegment = .ok o) ↔
    workstub.Describes pchoose
  marks : ∀ o, ogrCreate pchoose true workstub lastSegment = .ok o →
    ∀ i ≤ workstub.placed, marks o.levels i = stubMark workstub.stub.diffs i

/-- A difference is zero, and the marks that move fit. -/
structure OgrWorkStub.RepeatsMark (pchoose : ℕ → U16) (workstub : OgrWorkStub) : Prop where
  placed : workstub.placed < OGR_STUB_MAX
  fits : ∀ i < workstub.placed, StubFits (initialState workstub) pchoose workstub.stub.diffs i
  zero : ∃ i < workstub.placed, stubDiff workstub.stub.diffs i = 0

/-- The marks go up by the differences. -/
theorem increasing_stubMark_iff {diffs : Vector U16 28} {n : ℕ} :
    Increasing (stubMark diffs) n ↔ ∀ i < n, 0 < stubDiff diffs i :=
  forall₂_congr fun i _ ↦ by rw [stubMark, lt_add_iff_pos_right, Int.natCast_pos]

/-- The marks that fit are those of a ruler, unless one stays where the mark before it is. -/
theorem describes_iff (hmin : OGR_NG_MIN ≤ workstub.stub.marks.toNat)
    (hmax : workstub.stub.marks.toNat ≤ OGR_NG_MAX) :
    workstub.Describes pchoose ↔
      workstub.Accepted pchoose true ∧
        ∀ i < workstub.placed, 0 < stubDiff workstub.stub.diffs i := by
  constructor
  · rintro ⟨hplaced, hinc, hle, hdist⟩
    refine ⟨⟨⟨hmin, hmax⟩, rfl, hplaced, fun i hi ↦ ⟨hle i hi, fun _ ↦ ?_⟩⟩,
      increasing_stubMark_iff.mp hinc⟩
    exact hdist.not_blocked (Nat.succ_le_of_lt hi)
  · rintro ⟨⟨-, -, hplaced, hfits⟩, hpos⟩
    have hinc := increasing_stubMark_iff.mpr hpos
    refine ⟨hplaced, hinc, fun i hi ↦ (hfits i hi).le, ?_⟩
    refine distinctDistances_of_not_blocked hinc fun d hd ↦ ?_
    rcases d with _ | i
    · rintro ⟨j, hj, -⟩
      exact absurd hj (Nat.not_lt_zero j)
    · exact (hfits i hd).free (hpos i hd)

/-- **A stub is accepted exactly if it describes a ruler**, provided that it is not one that
repeats a mark. -/
theorem acceptsRulers_iff (hmin : OGR_NG_MIN ≤ workstub.stub.marks.toNat)
    (hmax : workstub.stub.marks.toNat ≤ OGR_NG_MAX) :
    AcceptsRulers pchoose workstub lastSegment ↔ ¬workstub.RepeatsMark pchoose := by
  constructor
  · rintro ⟨haccepts, -⟩ ⟨hplaced, hfits, i, hi, hzero⟩
    have hok : ∃ o, ogrCreate pchoose true workstub lastSegment = .ok o :=
      ogrCreate_isOk_iff.mpr ⟨⟨hmin, hmax⟩, rfl, hplaced, hfits⟩
    have hpos := ((describes_iff hmin hmax).mp (haccepts.mp hok)).2 i hi
    exact hpos.ne' hzero
  · intro hrepeats
    refine ⟨?_, fun o ho i hi ↦ marks_ogrCreate ho hi⟩
    rw [ogrCreate_isOk_iff, describes_iff hmin hmax]
    refine ⟨fun hacc ↦ ⟨hacc, fun i hi ↦ Nat.pos_of_ne_zero fun hzero ↦ ?_⟩, And.left⟩
    exact hrepeats ⟨hacc.placed, hacc.fits, i, hi, hzero⟩

theorem acceptsRulers_iff_two_marks :
    AcceptsRulers (fun _ ↦ 333#16) (.ofDiffs 24 2 2 [3, 5]) 0 := by
  have hnone : ¬∃ i < (OgrWorkStub.ofDiffs 24 2 2 [3, 5]).placed,
      stubDiff (OgrWorkStub.ofDiffs 24 2 2 [3, 5]).stub.diffs i = 0 := by decide
  exact (acceptsRulers_iff (by decide) (by decide)).mpr fun h ↦ hnone h.zero

/-- Two marks at place 3. -/
def repeatedStub : OgrWorkStub := .ofDiffs 24 2 2 [3, 0]

/-- **A mark that is placed twice** is not noticed. -/
theorem not_acceptsRulers_repeated : ¬∀ (pchoose : ℕ → U16) (workstub : OgrWorkStub)
    (lastSegment : ℤ), OGR_NG_MIN ≤ workstub.stub.marks.toNat →
      workstub.stub.marks.toNat ≤ OGR_NG_MAX → AcceptsRulers pchoose workstub lastSegment := by
  intro h
  obtain ⟨o, ho⟩ : ∃ o, ogrCreate (fun _ ↦ 333#16) true repeatedStub 0 = .ok o :=
    exists_created (by decide +kernel)
  have hdescribes := (h (fun _ ↦ 333#16) repeatedStub 0 (by decide) (by decide)).accepts.mp ⟨o, ho⟩
  have hup := hdescribes.increasing 1 (by decide)
  exact absurd hup (by decide)

end Hyunjin
