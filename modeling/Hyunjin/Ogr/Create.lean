import Hyunjin.Ogr.Invariant

/-!
# Setting the levels up from a stub

`ogrCreate` places the marks of the stub one after the other, and stands at the level after the
last. It accepts a stub, as far as its marks go, exactly if each of them is within the limit of its
level and not blocked there: `createLoop_standing` for what it accepts, `createLoop_of_placed` for
what it must accept.
-/

namespace Hyunjin

open Ruler

/-- Difference `i` of the stub, as the loop reads it. -/
def stubDiff (diffs : Vector U16 28) (i : ℕ) : ℕ := ((diffs[i]?).getD 0#16).toNat

/-- Mark `i` of the stub. -/
def stubMark (diffs : Vector U16 28) : ℕ → ℤ
  | 0 => 0
  | i + 1 => stubMark diffs i + stubDiff diffs i

variable {o : OgrState} {pchoose : ℕ → U16} {levels levels' : ℕ → OgrLevel}
  {diffs : Vector U16 28}

/-- The search stands after `n` marks of the stub. -/
structure StubStanding (o : OgrState) (pchoose : ℕ → U16) (diffs : Vector U16 28)
    (levels : ℕ → OgrLevel) (n : ℕ) : Prop where
  standing : Standing o pchoose levels (n + 1) (stubMark diffs n) true
  placed : ∀ i ≤ n, marks levels i = stubMark diffs i
  fresh : marks levels (n + 1) = stubMark diffs n

/-- The levels with one mark more of the stub. -/
private def nextLevels (o : OgrState) (pchoose : ℕ → U16) (levels : ℕ → OgrLevel) (n : ℕ)
    (lev' : OgrLevel) (mark : ℤ) : ℕ → OgrLevel :=
  Function.update (o.pushLevel pchoose levels (n + 1) lev' mark) (n + 2)
    { o.pushLevel pchoose levels (n + 1) lev' mark (n + 2) with mark := mark }

private theorem StubStanding.next {n : ℕ} (h : StubStanding o pchoose diffs levels n)
    {lev' : OgrLevel}
    (hfit : Fits levels (n + 1) (stubMark diffs n) true lev' (stubDiff diffs n)) :
    StubStanding o pchoose diffs
      (nextLevels o pchoose levels n lev' (stubMark diffs n + stubDiff diffs n)) (n + 1) := by
  refine ⟨(h.standing.push hfit).setMark, fun i hi ↦ ?_, ?_⟩
  · rw [marks, nextLevels, Function.update_of_ne (by omega)]
    rcases Nat.eq_or_lt_of_le hi with rfl | hlt
    · rw [o.pushLevel_self]
      rfl
    · rw [o.pushLevel_below pchoose levels lev' _ hlt]
      exact h.placed i (Nat.lt_succ_iff.mp hlt)
  · rw [marks, nextLevels, Function.update_self]
    rfl

/-- A step of the loop. -/
private theorem createLoop_succ (o : OgrState) (pchoose : ℕ → U16) (diffs : Vector U16 28)
    (left n : ℕ) (levels : ℕ → OgrLevel) :
    createLoop o pchoose diffs (left + 1) (n + 1) (stubMark diffs n) true levels =
      if (levels (n + 1)).limit < stubMark diffs n + stubDiff diffs n then .error CORE_E_STUB
      else match stubMove (stubDiff diffs n) (levels (n + 1)) true with
        | none => .error CORE_E_STUB
        | some lev' => createLoop o pchoose diffs left (n + 2) (stubMark diffs (n + 1)) true
            (nextLevels o pchoose levels n lev' (stubMark diffs n + stubDiff diffs n)) := rfl

/-- What begins a stub that is placed is placed. -/
theorem createLoop_take {n left depth : ℕ} {mark : ℤ} {newbit : Bool} (hn : n ≤ left)
    (hloop : ∃ levels', createLoop o pchoose diffs left depth mark newbit levels = .ok levels') :
    ∃ levels', createLoop o pchoose diffs n depth mark newbit levels = .ok levels' := by
  induction n generalizing left depth mark newbit levels with
  | zero => exact ⟨levels, rfl⟩
  | succ n ih =>
    obtain ⟨left, rfl⟩ := Nat.exists_eq_add_of_le' (Nat.one_le_of_lt hn)
    obtain ⟨levels', hloop⟩ := hloop
    simp only [createLoop] at hloop ⊢
    split_ifs at hloop ⊢ with hlimit
    split at hloop
    · exact nomatch hloop
    · exact ih (Nat.le_of_succ_le_succ hn) ⟨levels', hloop⟩

/-- **What `ogrCreate` accepts**, the search stands after. -/
theorem createLoop_standing {left n : ℕ} (h : StubStanding o pchoose diffs levels n)
    (hdiffs : ∀ i < n + left, 0 < stubDiff diffs i)
    (hloop : createLoop o pchoose diffs left (n + 1) (stubMark diffs n) true levels = .ok levels') :
    StubStanding o pchoose diffs levels' (n + left) := by
  induction left generalizing n levels with
  | zero =>
    cases hloop
    exact h
  | succ left ih =>
    rw [createLoop_succ] at hloop
    by_cases hlimit : (levels (n + 1)).limit < stubMark diffs n + stubDiff diffs n
    · rw [if_pos hlimit] at hloop
      exact nomatch hloop
    · rw [if_neg hlimit] at hloop
      have hpos := hdiffs n (by omega)
      have hspec := stubMove_spec hpos (levels (n + 1)) true
      rcases hmove : stubMove (stubDiff diffs n) (levels (n + 1)) true with _ | lev'
      · rw [hmove] at hloop
        exact nomatch hloop
      · rw [hmove] at hloop hspec
        have hnext := h.next ⟨hspec.2, hpos, hspec.1, not_lt.mp hlimit⟩
        have hrest := ih hnext (fun i hi ↦ hdiffs i (by omega)) hloop
        rwa [show n + 1 + left = n + (left + 1) by omega] at hrest

/-- **What `ogrCreate` must accept**: the marks of levels that the search has placed. -/
theorem createLoop_of_placed {ref : ℕ → OgrLevel} {left n : ℕ}
    (h : StubStanding o pchoose diffs levels n) (hlast : n + left ≤ o.maxdepthm1)
    (hplaced : ∀ i ≤ n + left, Placed o pchoose ref i)
    (hmarks : ∀ i ≤ n + left, marks ref i = stubMark diffs i) :
    ∃ levels', createLoop o pchoose diffs left (n + 1) (stubMark diffs n) true levels
      = .ok levels' := by
  induction left generalizing n levels with
  | zero => exact ⟨levels, rfl⟩
  | succ left ih =>
    rw [createLoop_succ]
    have href := hplaced (n + 1) (by omega)
    have hhere := h.standing.here (by omega)
    have hbelow (i : ℕ) (hi : i < n + 1) : marks ref i = marks levels i := by
      rw [hmarks i (by omega), h.placed i (by omega)]
    have hmark : marks ref (n + 1) = stubMark diffs n + stubDiff diffs n := hmarks (n + 1)
      (by omega)
    have hpos : 0 < stubDiff diffs n := by
      have := href.above n n.lt_succ_self
      rw [hmark, hmarks n (by omega)] at this
      omega
    have hlimit : ¬(levels (n + 1)).limit < stubMark diffs n + stubDiff diffs n := by
      rw [not_lt, ← hmark, hhere.limit, ← o.rulerLimit_congr pchoose hbelow, ← href.limit]
      exact href.le
    have hfree : (levels (n + 1)).comp.bit (stubDiff diffs n - 1) = false := by
      rw [Bool.eq_false_iff, ne_eq, hhere.shows.comp]
      intro hblocked
      have hplace : stubMark diffs n + (((stubDiff diffs n - 1 : ℕ) : ℤ) + 1)
        = marks ref (n + 1) := by
        omega
      rw [hplace] at hblocked
      exact href.free (hblocked.congr fun i hi ↦ (hbelow i hi).symm)
    have hspec := stubMove_spec hpos (levels (n + 1)) true
    rw [if_neg hlimit]
    rcases hmove : stubMove (stubDiff diffs n) (levels (n + 1)) true with _ | lev'
    · rw [hmove, hfree] at hspec
      exact nomatch hspec
    · rw [hmove] at hspec
      have hnext := h.next ⟨hspec.2, hpos, hspec.1, not_lt.mp hlimit⟩
      refine ih hnext (by omega) (fun i hi ↦ hplaced i (by omega)) fun i hi ↦ hmarks i (by omega)

/-! ## What is accepted -/

/-- Mark `i + 1` of the stub is within its limit and, if it is not where mark `i` is, not
blocked. -/
structure StubFits (o : OgrState) (pchoose : ℕ → U16) (diffs : Vector U16 28) (i : ℕ) : Prop where
  le : stubMark diffs (i + 1) ≤ o.rulerLimit pchoose (stubMark diffs) (i + 1)
  free : 0 < stubDiff diffs i → ¬Blocked 256 (stubMark diffs) (i + 1) (stubMark diffs (i + 1))

/-- Level `n + 1` is what `n` marks of the stub make it, be some of them at the same place. -/
private structure StubLevel (o : OgrState) (pchoose : ℕ → U16) (diffs : Vector U16 28)
    (levels : ℕ → OgrLevel) (n : ℕ) : Prop where
  shows : (levels (n + 1)).Shows (stubMark diffs) (n + 1) (stubMark diffs n)
  lists : (levels (n + 1)).Lists (stubMark diffs) (n + 1) (stubMark diffs n)
  limit : (levels (n + 1)).limit = o.rulerLimit pchoose (stubMark diffs) (n + 1)
  placed : ∀ i ≤ n, marks levels i = stubMark diffs i

private theorem stubMark_le {j n : ℕ} (h : j ≤ n) : stubMark diffs j ≤ stubMark diffs n := by
  induction n with
  | zero => rw [Nat.le_zero.mp h]
  | succ n ih =>
    rcases Nat.eq_or_lt_of_le h with rfl | hlt
    · exact le_rfl
    · exact (ih (Nat.lt_succ_iff.mp hlt)).trans (Int.le_add_of_nonneg_right (Int.natCast_nonneg _))

private theorem StubLevel.next {n : ℕ} (h : StubLevel o pchoose diffs levels n) {lev' : OgrLevel}
    (hmoved : (levels (n + 1)).Moved lev' true (stubDiff diffs n)) :
    StubLevel o pchoose diffs
      (nextLevels o pchoose levels n lev' (stubMark diffs n + stubDiff diffs n)) (n + 1) := by
  have hshows : lev'.Shows (stubMark diffs) (n + 1) (stubMark diffs (n + 1)) := h.shows.moved hmoved
  have hlists : lev'.Lists (stubMark diffs) (n + 1) (stubMark diffs (n + 1)) :=
    h.lists.moved hmoved (iff_of_true rfl ⟨n, n.lt_succ_self, rfl⟩) fun j hj ↦
      stubMark_le (Nat.lt_succ_iff.mp hj)
  have hplaced (i : ℕ) (hi : i ≤ n + 1) :
      marks (o.pushLevel pchoose levels (n + 1) lev' (stubMark diffs n + stubDiff diffs n)) i =
        stubMark diffs i := by
    rcases Nat.eq_or_lt_of_le hi with rfl | hlt
    · rw [marks, o.pushLevel_self]
      rfl
    · rw [marks, o.pushLevel_below pchoose levels lev' _ hlt]
      exact h.placed i (Nat.lt_succ_iff.mp hlt)
  have hnext : nextLevels o pchoose levels n lev' (stubMark diffs n + stubDiff diffs n)
    (n + 1 + 1) =
      { lev'.pushLevelUpdateState (levels (n + 1 + 1)) with
        mark := stubMark diffs n + stubDiff diffs n
        limit := o.rulerLimit pchoose (stubMark diffs) (n + 1 + 1) } := by
    have hpush := hshows.push hlists rfl (levels (n + 1 + 1))
    rw [nextLevels, Function.update_self, o.pushLevel_succ, OgrState.rulerLimit,
      if_neg (n + 1).succ_ne_zero, hpush.dist_w0, o.limitFrom_congr pchoose _ fun hhalf ↦
        hplaced o.halfDepth (Nat.lt_succ_iff.mp hhalf)]
  obtain ⟨hdist, hcomp⟩ := hshows.push hlists rfl (levels (n + 1 + 1))
  refine ⟨?_, ?_, ?_, fun i hi ↦ ?_⟩
  · rw [hnext]
    exact ⟨hdist, hcomp⟩
  · rw [hnext]
    exact hlists.push rfl (levels (n + 1 + 1))
  · rw [hnext]
  · rw [marks, nextLevels, Function.update_of_ne (by omega)]
    exact hplaced i hi

/-- A difference of the stub moves the mark, if it does not come to a place that is blocked. -/
private theorem StubLevel.move {n : ℕ} (h : StubLevel o pchoose diffs levels n) :
    match stubMove (stubDiff diffs n) (levels (n + 1)) true with
    | none => 0 < stubDiff diffs n ∧
        Blocked 256 (stubMark diffs) (n + 1) (stubMark diffs (n + 1))
    | some lev' => (0 < stubDiff diffs n →
        ¬Blocked 256 (stubMark diffs) (n + 1) (stubMark diffs (n + 1))) ∧
      (levels (n + 1)).Moved lev' true (stubDiff diffs n) := by
  rcases Nat.eq_zero_or_pos (stubDiff diffs n) with hzero | hpos
  · rw [hzero]
    exact ⟨fun hpos ↦ absurd hpos (Nat.lt_irrefl 0), rfl, fun _ ↦ rfl, fun k _ ↦ by
      rw [if_neg (Nat.not_lt_zero k), Nat.sub_zero], rfl, rfl⟩
  · have hbit := h.shows.comp (stubDiff diffs n - 1)
    rw [show stubMark diffs n + (((stubDiff diffs n - 1 : ℕ) : ℤ) + 1) = stubMark diffs (n + 1) by
      rw [stubMark]; omega] at hbit
    have hspec := stubMove_spec hpos (levels (n + 1)) true
    rcases hmove : stubMove (stubDiff diffs n) (levels (n + 1)) true with _ | lev'
    · rw [hmove] at hspec
      exact ⟨hpos, hbit.mp hspec⟩
    · rw [hmove] at hspec
      refine ⟨fun _ hblocked ↦ ?_, hspec.2⟩
      rw [hbit.mpr hblocked] at hspec
      exact nomatch hspec.1

private theorem createLoop_isOk_iff {left n : ℕ} (h : StubLevel o pchoose diffs levels n) :
    (∃ levels', createLoop o pchoose diffs left (n + 1) (stubMark diffs n) true levels
      = .ok levels') ↔
      ∀ i, n ≤ i → i < n + left → StubFits o pchoose diffs i := by
  induction left generalizing n levels with
  | zero => exact iff_of_true ⟨levels, rfl⟩ fun i hi hlt ↦ absurd hlt (not_lt.mpr hi)
  | succ left ih =>
    rw [createLoop_succ, h.limit]
    by_cases hlimit : o.rulerLimit pchoose (stubMark diffs) (n + 1) <
        stubMark diffs n + stubDiff diffs n
    · rw [if_pos hlimit]
      refine iff_of_false (fun ⟨_, hres⟩ ↦ nomatch hres) fun hfits ↦ ?_
      exact absurd (hfits n le_rfl (by omega)).le (not_le.mpr hlimit)
    · rw [if_neg hlimit]
      have hmove := h.move
      rcases hres : stubMove (stubDiff diffs n) (levels (n + 1)) true with _ | lev'
      · rw [hres] at hmove
        refine iff_of_false (fun ⟨_, hres⟩ ↦ nomatch hres) fun hfits ↦ ?_
        exact (hfits n le_rfl (by omega)).free hmove.1 hmove.2
      · rw [hres] at hmove
        refine (ih (h.next hmove.2)).trans ⟨fun hfits i hi hlt ↦ ?_, fun hfits i hi hlt ↦ ?_⟩
        · rcases Nat.eq_or_lt_of_le hi with rfl | hlt'
          · exact ⟨not_lt.mp hlimit, hmove.1⟩
          · exact hfits i hlt' (by omega)
        · exact hfits i (by omega) (by omega)

/-- The marks of a stub that is accepted are placed. -/
private theorem StubLevel.createLoop {left n : ℕ} (h : StubLevel o pchoose diffs levels n)
    (hloop : createLoop o pchoose diffs left (n + 1) (stubMark diffs n) true levels = .ok levels') :
    StubLevel o pchoose diffs levels' (n + left) := by
  induction left generalizing n levels with
  | zero =>
    cases hloop
    exact h
  | succ left ih =>
    rw [createLoop_succ] at hloop
    by_cases hlimit : (levels (n + 1)).limit < stubMark diffs n + stubDiff diffs n
    · rw [if_pos hlimit] at hloop
      exact nomatch hloop
    · rw [if_neg hlimit] at hloop
      have hmove := h.move
      rcases hres : stubMove (stubDiff diffs n) (levels (n + 1)) true with _ | lev'
      · rw [hres] at hloop
        exact nomatch hloop
      · rw [hres] at hloop hmove
        have hrest := ih (h.next hmove.2) hloop
        rwa [show n + 1 + left = n + (left + 1) by omega] at hrest

/-! ## `ogrCreate` -/

/-- The levels before the stub is placed. -/
def topLevels (o : OgrState) (pchoose : ℕ → U16) : ℕ → OgrLevel :=
  Function.update o.levels 1 { o.levels 1 with limit := choose pchoose 0#32 1 }

theorem stubStanding_topLevels {workstub : OgrWorkStub}
    (hmin : OGR_NG_MIN ≤ workstub.stub.marks.toNat) :
    StubStanding (initialState workstub) pchoose diffs
      (topLevels (initialState workstub) pchoose) 0 := by
  have hmark (i : ℕ) : marks (topLevels (initialState workstub) pchoose) i = 0 := by
    rw [marks, topLevels]
    by_cases hi : i = 1
    · rw [hi, Function.update_self]
      rfl
    · rw [Function.update_of_ne hi]
      rfl
  have hnone {m : ℕ → ℤ} {n : ℕ} {x : ℤ} (hn : n ≤ 1) : ¬IsDistance m n x := by
    rintro ⟨a, b, hab, hb, -⟩
    omega
  have hfree {m : ℕ → ℤ} {n : ℕ} {x : ℤ} (hn : n ≤ 1) : ¬Blocked 256 m n x := by
    rintro ⟨j, hj, -, hdist⟩
    exact hnone (by omega) hdist
  -- without two marks there is no distance, and nothing is blocked
  have hshows {lev : OgrLevel} (hdist : lev.dist = .zero) (hcomp : lev.comp = .zero) {m : ℕ → ℤ}
      {n : ℕ} (hn : n ≤ 1) : lev.Shows m n 0 := by
    refine ⟨fun k _ ↦ ?_, fun k ↦ ?_⟩
    · rw [hdist, BMap.bit_zero]
      exact iff_of_false Bool.false_ne_true (hnone hn)
    · rw [hcomp, BMap.bit_zero]
      exact iff_of_false Bool.false_ne_true (hfree hn)
  have hlists {lev : OgrLevel} (hlist : lev.list = .zero) {n : ℕ} :
      lev.Lists (marks (topLevels (initialState workstub) pchoose)) n 0 := by
    intro k _
    rw [hlist, BMap.bit_zero]
    refine iff_of_false Bool.false_ne_true ?_
    rintro ⟨j, -, hd⟩
    rw [hmark] at hd
    omega
  refine ⟨⟨fun i hi _ ↦ ?_, fun _ ↦ ?_, fun _ j _ ↦ (hmark j).le, fun _ ↦ ?_, hmark 0, fun _ ↦ rfl⟩,
    fun i hi ↦ ?_, hmark 1⟩
  · obtain rfl : i = 0 := by omega
    refine ⟨?_, fun j hj ↦ absurd hj (Nat.not_lt_zero j), hfree (by decide), ?_⟩
    · rw [hmark]
      exact ⟨hshows rfl rfl (by decide), fun _ ↦ hlists rfl, rfl⟩
    · rw [hmark]
      exact le_rfl
  · have hself : topLevels (initialState workstub) pchoose 1 =
        { OgrLevel.zero with limit := choose pchoose 0#32 1 } := Function.update_self ..
    refine ⟨?_, fun _ ↦ ?_, ?_⟩
    · rw [hself]
      exact hshows rfl rfl le_rfl
    · rw [hself]
      exact hlists rfl
    · have hword : distWord (marks (topLevels (initialState workstub) pchoose)) 1 = 0#32 := by
        refine BitVec.eq_of_getMsbD_eq fun k hk ↦ ?_
        rw [getMsbD_distWord _ _ hk, decide_eq_false (hnone le_rfl), BitVec.getMsbD_zero]
      have hhalf : ¬(initialState workstub).halfDepth < 1 := by
        have hmin' : 21 ≤ workstub.stub.marks.toNat := hmin
        dsimp only [initialState]
        omega
      rw [hself, OgrState.rulerLimit, if_neg Nat.one_ne_zero, hword, OgrState.limitFrom]
      simp only [hhalf, false_and, if_false]
  · exact iff_of_true rfl ⟨0, by decide, hmark 0⟩
  · obtain rfl : i = 0 := by omega
    exact hmark 0

/-- The state with the levels set up. -/
def created (workstub : OgrWorkStub) (lastSegment : ℤ) (levels : ℕ → OgrLevel) : OgrState :=
  { initialState workstub with
    levels := levels
    depth := workstub.placed
    startdepth := workstub.stub.length.toNat
    stopdepth := if lastSegment ≠ 0 then (workstub.stub.length.toNat : ℤ) - 1
      else workstub.stub.length.toNat }

/-- When a state is created, and which. -/
theorem ogrCreate_eq_ok_iff {cacheHealthy : Bool} {workstub : OgrWorkStub} {lastSegment : ℤ} :
    ogrCreate pchoose cacheHealthy workstub lastSegment = .ok o ↔
      OGR_NG_MIN ≤ workstub.stub.marks.toNat ∧ workstub.stub.marks.toNat ≤ OGR_NG_MAX ∧
      cacheHealthy = true ∧ workstub.placed < OGR_STUB_MAX ∧
      ∃ levels, createLoop (initialState workstub) pchoose workstub.stub.diffs workstub.placed 1
        0 true
        (topLevels (initialState workstub) pchoose) = .ok levels ∧
        created workstub lastSegment levels = o := by
  constructor
  · intro h
    simp only [ogrCreate] at h
    by_cases hrange : (initialState workstub).maxdepth < OGR_NG_MIN ∨
        OGR_NG_MAX < (initialState workstub).maxdepth
    · rw [if_pos hrange] at h
      exact nomatch h
    obtain ⟨hmin, hmax⟩ := not_or.mp hrange
    have hmany : (decide (1 < (initialState workstub).maxdepthm1)) = true :=
      decide_eq_true (lt_of_lt_of_le (by decide) (Nat.sub_le_sub_right (not_lt.mp hmin) 1))
    rw [if_neg hrange, hmany] at h
    by_cases hcache : cacheHealthy = false
    · rw [if_pos hcache] at h
      exact nomatch h
    rw [if_neg hcache] at h
    by_cases hplaced : OGR_STUB_MAX ≤ workstub.placed
    · rw [if_pos hplaced] at h
      exact nomatch h
    rw [if_neg hplaced] at h
    refine ⟨not_lt.mp hmin, not_lt.mp hmax, (Bool.not_eq_false _).mp hcache, not_le.mp hplaced, ?_⟩
    split at h
    · exact nomatch h
    · rename_i levels hloop
      exact ⟨levels, hloop, Except.ok.inj h⟩
  · rintro ⟨hmin, hmax, hcache, hplaced, levels, hloop, rfl⟩
    have hrange : ¬((initialState workstub).maxdepth < OGR_NG_MIN ∨
        OGR_NG_MAX < (initialState workstub).maxdepth) :=
      not_or.mpr ⟨not_lt.mpr hmin, not_lt.mpr hmax⟩
    have hmany : (decide (1 < (initialState workstub).maxdepthm1)) = true :=
      decide_eq_true (lt_of_lt_of_le (by decide) (Nat.sub_le_sub_right hmin 1))
    rw [topLevels] at hloop
    simp only [ogrCreate]
    rw [if_neg hrange, if_neg ((Bool.not_eq_false _).mpr hcache), if_neg (not_le.mpr hplaced),
      hmany, hloop]
    rfl

/-- The work stubs that `ogrCreate` accepts. -/
structure OgrWorkStub.Accepted (pchoose : ℕ → U16) (cacheHealthy : Bool) (workstub : OgrWorkStub) :
    Prop where
  marks : OGR_NG_MIN ≤ workstub.stub.marks.toNat ∧ workstub.stub.marks.toNat ≤ OGR_NG_MAX
  cache : cacheHealthy = true
  placed : workstub.placed < OGR_STUB_MAX
  fits : ∀ i < workstub.placed, StubFits (initialState workstub) pchoose workstub.stub.diffs i

private theorem stubLevel_topLevels {workstub : OgrWorkStub}
    (hmin : OGR_NG_MIN ≤ workstub.stub.marks.toNat) :
    StubLevel (initialState workstub) pchoose diffs
      (topLevels (initialState workstub) pchoose) 0 := by
  have hstub : StubStanding (initialState workstub) pchoose diffs
      (topLevels (initialState workstub) pchoose) 0 := stubStanding_topLevels hmin
  have hmarks (i : ℕ) (hi : i < 1) :
      marks (topLevels (initialState workstub) pchoose) i = stubMark diffs i :=
    hstub.placed i (Nat.lt_succ_iff.mp hi)
  have hlast : 1 < (initialState workstub).maxdepthm1 :=
    lt_of_lt_of_le (by decide) (Nat.sub_le_sub_right hmin 1)
  have hhere := hstub.standing.here hlast.le
  refine ⟨hhere.shows.congr hmarks, (hhere.lists hlast).congr hmarks, ?_, hstub.placed⟩
  rw [hhere.limit, OgrState.rulerLimit_congr _ _ hmarks]

/-- The marks of a state that is created are the prefix sums of the differences. -/
theorem marks_ogrCreate {cacheHealthy : Bool} {workstub : OgrWorkStub} {lastSegment : ℤ}
    (hcreate : ogrCreate pchoose cacheHealthy workstub lastSegment = .ok o) {i : ℕ}
    (hi : i ≤ workstub.placed) : marks o.levels i = stubMark workstub.stub.diffs i := by
  obtain ⟨hmin, -, -, -, levels, hloop, rfl⟩ := ogrCreate_eq_ok_iff.mp hcreate
  have hlevel := StubLevel.createLoop (stubLevel_topLevels hmin) hloop
  exact hlevel.placed i (hi.trans_eq (Nat.zero_add _).symm)

/-- **What is accepted**, whatever the fields of the stub are. -/
theorem ogrCreate_isOk_iff {cacheHealthy : Bool} {workstub : OgrWorkStub} {lastSegment : ℤ} :
    (∃ o, ogrCreate pchoose cacheHealthy workstub lastSegment = .ok o) ↔
      workstub.Accepted pchoose cacheHealthy := by
  constructor
  · rintro ⟨o, ho⟩
    obtain ⟨hmin, hmax, hcache, hplaced, levels, hloop, -⟩ := ogrCreate_eq_ok_iff.mp ho
    refine ⟨⟨hmin, hmax⟩, hcache, hplaced, fun i hi ↦ ?_⟩
    exact (createLoop_isOk_iff (stubLevel_topLevels hmin)).mp ⟨levels, hloop⟩ i (Nat.zero_le i)
      (by omega)
  · rintro ⟨⟨hmin, hmax⟩, hcache, hplaced, hfits⟩
    obtain ⟨levels, hloop⟩ : ∃ levels,
      createLoop (initialState workstub) pchoose workstub.stub.diffs
        workstub.placed 1 0 true (topLevels (initialState workstub) pchoose) = .ok levels :=
      (createLoop_isOk_iff (stubLevel_topLevels hmin)).mpr fun i _ hi ↦ hfits i (by omega)
    exact ⟨_, ogrCreate_eq_ok_iff.mpr ⟨hmin, hmax, hcache, hplaced, levels, hloop, rfl⟩⟩

end Hyunjin
