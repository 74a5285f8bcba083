import Hyunjin.Ogr.Alike

/-!
# Rebuilding a state from its export

Only the differences of the marks survive an export. Between two calls the search stands at a level
that has just been set up, so that the marks below it say it all: `ogrCreate` accepts the export,
and makes of it levels that are the same as far as the search reads them.
-/

namespace Hyunjin

variable {o : OgrState} {pchoose : ℕ → U16} {levels levels' : ℕ → OgrLevel} {d : ℕ} {p : ℤ}

/-! ## Levels from their marks -/

private theorem LevelAt.eq_bitmaps (h : LevelAt o pchoose levels d p)
    (h' : LevelAt o pchoose levels' d p) (hmarks : ∀ i < d, marks levels i = marks levels' i) :
    (levels d).dist = (levels' d).dist ∧ (levels d).comp = (levels' d).comp ∧
      (levels d).limit = (levels' d).limit ∧
      (d < o.maxdepthm1 → (levels d).list = (levels' d).list) := by
  obtain ⟨hdist, hcomp⟩ := (h.shows.congr hmarks).ext h'.shows
  refine ⟨hdist, hcomp, ?_, fun hd ↦ ((h.lists hd).congr hmarks).ext (h'.lists hd)⟩
  rw [h.limit, h'.limit, o.rulerLimit_congr pchoose hmarks]

/-- A level that is placed is determined by the marks. -/
private theorem Placed.eq_level (h : Placed o pchoose levels d) (h' : Placed o pchoose levels' d)
    (hd : d < o.maxdepthm1) (hmarks : ∀ i ≤ d, marks levels i = marks levels' i) :
    levels d = levels' d := by
  have hat := h.toLevelAt
  rw [hmarks d le_rfl] at hat
  obtain ⟨hdist, hcomp, hlimit, hlist⟩ := hat.eq_bitmaps h'.toLevelAt fun i hi ↦ hmarks i hi.le
  have hmark : (levels d).mark = (levels' d).mark := hmarks d le_rfl
  generalize levels d = lev at *
  generalize levels' d = lev' at *
  obtain ⟨list, dist, comp, mark, limit⟩ := lev
  obtain ⟨list', dist', comp', mark', limit'⟩ := lev'
  rw [OgrLevel.mk.injEq]
  exact ⟨hlist hd, hdist, hcomp, hmark, hlimit⟩

/-! ## A state between calls -/

/-- The search is at a new level after `d` marks, which leave one to be searched. -/
structure OgrState.AtNew (o : OgrState) (d : ℕ) : Prop where
  depth : o.depth = d
  lt : d < o.maxdepthm1
  start : o.startdepth ≤ d
  stop : o.stopdepth ≤ d
  fresh : marks o.levels (d + 1) = marks o.levels d

private theorem OgrState.Ready.standing (h : o.Ready pchoose) (hnew : o.AtNew d) :
    Standing o pchoose o.levels (d + 1) (marks o.levels d) (decide (d + 1 < o.maxdepthm1)) := by
  have hinv := (h.resume 1 Int.one_pos).standing
  have hdepth : (o.depth + 1).toNat = d + 1 := by
    have := hnew.depth
    omega
  simp only [CycleState.resume, CycleState.start, hdepth] at hinv
  rwa [show (o.levels (d + 1)).mark = marks o.levels d from hnew.fresh] at hinv

/-- The marks fit the differences of a stub. -/
private theorem marks_bound (h : o.Ready pchoose) (hnew : o.AtNew d) {i : ℕ} (hi : i ≤ d) :
    0 ≤ marks o.levels i ∧ marks o.levels i < 65536 := by
  have hstanding := h.standing hnew
  have hplaced := hstanding.before i (Nat.lt_succ_of_le hi) (hi.trans hnew.lt.le)
  constructor
  · rcases Nat.eq_zero_or_pos i with rfl | hpos
    · exact hstanding.origin.ge
    · exact hstanding.origin.ge.trans (hplaced.above 0 hpos).le
  · calc marks o.levels i
      _ ≤ (o.levels i).limit := hplaced.le
      _ = o.rulerLimit pchoose (marks o.levels) i := hplaced.limit
      _ ≤ choose pchoose (distWord (marks o.levels) i) i := o.rulerLimit_le_choose pchoose _ _
      _ < 65536 := by
        rw [choose]
        exact_mod_cast BitVec.isLt _

/-! ## The export -/

/-- The state of a stub, with its depth and levels. -/
def ofStub (workstub : OgrWorkStub) (lastSegment depth : ℤ) (levels : ℕ → OgrLevel) : OgrState :=
  { created workstub lastSegment levels with depth := depth }

variable {workstub : OgrWorkStub} {lastSegment : ℤ}

/-- What is exported between calls. -/
private structure Exports (o : OgrState) (workstub export' : OgrWorkStub) (d : ℕ) : Prop where
  marks : export'.stub.marks = workstub.stub.marks
  length : export'.stub.length = workstub.stub.length
  placed : export'.placed = d
  diffs : ∀ i ≤ d, stubMark export'.stub.diffs i = Hyunjin.marks o.levels i

private theorem exports_getresult (hmax : workstub.stub.marks.toNat ≤ OGR_NG_MAX)
    (hready : (ofStub workstub lastSegment d levels).Ready pchoose)
    (hnew : (ofStub workstub lastSegment d levels).AtNew d) :
    Exports (ofStub workstub lastSegment d levels) workstub
      ((ofStub workstub lastSegment d levels).exported workstub) d := by
  have hstart : workstub.stub.length.toNat ≤ d := hnew.start
  have hd : d < 27 := hnew.lt.trans_le (Nat.sub_le_sub_right hmax 1)
  have hlength : BitVec.ofNat 16 (ofStub workstub lastSegment d levels).startdepth =
      workstub.stub.length := by
    rw [ofStub, created, BitVec.ofNat_toNat, BitVec.setWidth_eq]
  have hwork : BitVec.ofInt 16 (ofStub workstub lastSegment d levels).depth = BitVec.ofNat 16 d :=
    BitVec.ofInt_natCast 16 d
  have hnat : (BitVec.ofNat 16 d).toNat = d := by
    rw [BitVec.toNat_ofNat, Nat.mod_eq_of_lt (by omega)]
  have hfits : ¬BitVec.ofNat 16 OGR_STUB_MAX < BitVec.ofNat 16 d := by
    rw [BitVec.lt_def, hnat]
    exact not_lt.mpr (hd.le.trans (by decide))
  have hresult : (ofStub workstub lastSegment d levels).exported workstub =
      { workstub with
        stub :=
          { marks := BitVec.ofNat 16 workstub.stub.marks.toNat
            length := workstub.stub.length
            diffs := Vector.ofFn fun i : Fin 28 ↦
              BitVec.ofInt 16 ((levels (i.val + 1)).mark - (levels i.val).mark) }
        worklength := BitVec.ofNat 16 d } := by
    simp only [OgrState.exported]
    rw [hwork, if_neg hfits, hlength]
    rfl
  have hmarks (i : ℕ) (hi : i ≤ d) := marks_bound hready hnew hi
  have habove (i : ℕ) (hi : i < d) : marks levels i < marks levels (i + 1) := by
    have hplaced := (hready.standing hnew).before (i + 1) (by omega) (by have := hnew.lt; omega)
    exact hplaced.above i i.lt_succ_self
  rw [hresult]
  -- marks are below 2^16, so no difference is cut off
  refine ⟨?_, rfl, ?_, fun i hi ↦ ?_⟩
  · rw [BitVec.ofNat_toNat, BitVec.setWidth_eq]
  · rw [OgrWorkStub.placed, hnat]
    exact max_eq_left hstart
  · induction i with
    | zero => exact (hready.standing hnew).origin.symm
    | succ i ih =>
      have hdiff : (stubDiff (Vector.ofFn fun i : Fin 28 ↦
          BitVec.ofInt 16 ((levels (i.val + 1)).mark - (levels i.val).mark)) i : ℤ) =
          marks levels (i + 1) - marks levels i := by
        have hlow := hmarks i (Nat.le_of_succ_le hi)
        have hhigh := hmarks (i + 1) hi
        have hlt := habove i hi
        rw [stubDiff, Vector.getElem?_eq_getElem (by omega : i < 28), Option.getD_some,
          Vector.getElem_ofFn, BitVec.toNat_ofInt]
        change (((marks levels (i + 1) - marks levels i) % _).toNat : ℤ) = _
        dsimp only [ofStub, created] at hlow hhigh
        omega
      rw [stubMark, ih (Nat.le_of_succ_le hi), hdiff]
      exact add_sub_cancel _ _

/-- **Export and rebuild.** Between two calls `ogrCreate` accepts what `ogrGetresult` exports, and
the search goes on alike. -/
theorem ogrCreate_getresult (hmin : OGR_NG_MIN ≤ workstub.stub.marks.toNat)
    (hmax : workstub.stub.marks.toNat ≤ OGR_NG_MAX)
    (hready : (ofStub workstub lastSegment d levels).Ready pchoose)
    (hnew : (ofStub workstub lastSegment d levels).AtNew d) :
    ∃ result levels', ogrGetresult (ofStub workstub lastSegment d levels) workstub = some result ∧
      ogrCreate pchoose true result lastSegment = .ok (ofStub workstub lastSegment d levels') ∧
      ∀ nodes, CycleState.Alike (ofStub workstub lastSegment d levels) ∅
        (CycleState.resume (ofStub workstub lastSegment d levels) nodes)
        (CycleState.resume (ofStub workstub lastSegment d levels') nodes) := by
  have hexport := exports_getresult hmax hready hnew
  have hstanding := hready.standing hnew
  have hresult := ogrGetresult_of_le hnew.stop workstub
  generalize (ofStub workstub lastSegment d levels).exported workstub = workstub' at *
  have hstate : initialState workstub' = initialState workstub := by
    rw [initialState, initialState, hexport.marks]
  have hplaced (i : ℕ) (hi : i ≤ d) : Placed (initialState workstub) pchoose levels i :=
    (hstanding.before i (Nat.lt_succ_of_le hi) (hi.trans hnew.lt.le)).static 0 0 0 fun _ ↦ .zero
  have hdiffs (i : ℕ) (hi : i < 0 + d) : 0 < stubDiff workstub'.stub.diffs i := by
    have hlt := (hstanding.before (i + 1) (by omega) (by have := hnew.lt; omega)).above i
      i.lt_succ_self
    rw [← hexport.diffs i (by omega), ← hexport.diffs (i + 1) (by omega), stubMark] at hlt
    omega
  have htop : StubStanding (initialState workstub) pchoose workstub'.stub.diffs
      (topLevels (initialState workstub) pchoose) 0 := stubStanding_topLevels hmin
  obtain ⟨levels', hloop⟩ := createLoop_of_placed htop
    (by rw [Nat.zero_add]; exact hnew.lt.le : 0 + d ≤ (initialState workstub).maxdepthm1)
    (fun i hi ↦ hplaced i (by omega)) fun i hi ↦ (hexport.diffs i (by omega)).symm
  have hstub := createLoop_standing htop hdiffs hloop
  rw [Nat.zero_add] at hstub
  refine ⟨workstub', levels', hresult, ?_, fun nodes ↦ ?_⟩
  · refine ogrCreate_eq_ok_iff.mpr
      ⟨by rwa [hexport.marks], by rwa [hexport.marks], rfl, ?_, levels', ?_, ?_⟩
    · rw [hexport.placed]
      have hlast := hnew.lt.trans_le (Nat.sub_le_sub_right hmax 1)
      exact hlast.trans (by decide)
    · rw [hexport.placed, hstate]
      exact hloop
    · rw [created, ofStub, created, hstate, hexport.placed, hexport.length]
  · -- below the new level the levels are equal, and at it all but the stored mark
    have hmarks (i : ℕ) (hi : i ≤ d) : marks levels i = marks levels' i :=
      (hexport.diffs i hi).symm.trans (hstub.placed i hi).symm
    have hdepth : ((d : ℤ) + 1).toNat = d + 1 := by omega
    have hfresh : marks levels (d + 1) = marks levels' (d + 1) := by
      have hfresh' : marks levels (d + 1) = marks levels d := hnew.fresh
      rw [hfresh', hstub.fresh]
      exact (hexport.diffs d le_rfl).symm
    have hhere : LevelAt (initialState workstub) pchoose levels (d + 1)
      (stubMark workstub'.stub.diffs d) := by
      have h := hstanding.here hnew.lt
      rw [← hexport.diffs d le_rfl] at h
      exact ⟨h.shows, h.lists, h.limit⟩
    obtain ⟨hdist, hcomp, hlimit, hlist⟩ := hhere.eq_bitmaps (hstub.standing.here hnew.lt)
      fun i hi ↦ hmarks i (Nat.lt_succ_iff.mp hi)
    refine ⟨rfl, ?_, ?_, fun i hi ↦ ?_, ?_, ?_, ?_, fun hlt ↦ ?_, fun _ ↦ rfl, fun i hi ↦
      absurd hi (Set.notMem_empty i)⟩
    · simp only [CycleState.resume, CycleState.start, ofStub, created, hdepth]
      exact hfresh
    · simp only [CycleState.resume, CycleState.start, ofStub, created, hdepth]
      exact hlimit
    · have hi' : i < d + 1 := by
        simpa only [CycleState.resume, CycleState.start, ofStub, hdepth] using hi
      have hle := Nat.lt_succ_iff.mp hi'
      have hlt : i < (initialState workstub).maxdepthm1 := hle.trans_lt hnew.lt
      exact (hplaced i hle).eq_level (hstub.standing.before i hi' hlt.le) hlt fun j hj ↦
        hmarks j (hj.trans hle)
    · simpa only [CycleState.level, CycleState.resume, CycleState.start, ofStub, created, hdepth]
        using hdist
    · simpa only [CycleState.level, CycleState.resume, CycleState.start, ofStub, created, hdepth]
        using hcomp
    · simpa only [CycleState.level, CycleState.resume, CycleState.start, ofStub, created, hdepth]
        using hlimit
    · simp only [CycleState.level, CycleState.resume, CycleState.start, ofStub, created, hdepth]
        at hlt ⊢
      exact hlist hlt

end Hyunjin
