import Hyunjin.Ogr.Complete

/-!
# Searches that go alike

Two states of the search go alike if they stand at the same level with the same mark and agree on
all levels below; of the current level the mark that is stored does not matter, nor does the list if
the level is the last, and of the levels beyond nothing does. What those keep is the limit of their
last mark: a set of levels says where it is to agree too. The budgets do not matter either until one
of them is spent.

`Logs` is a run of turns with the rulers that it places. Searches that go alike place the same
rulers and end alike (`Alike.logs`).
-/

namespace Hyunjin

variable {o : OgrState} {pchoose : ℕ → U16}

/-! ## What the limits and `found_one` read -/

private theorem foundOneInner_congr {max x : ℤ} {levels levels' : ℕ → OgrLevel} {js : List ℕ}
    (h : ∀ j ∈ js, marks levels j = marks levels' j) (diffs : ℕ → U32) :
    foundOneInner max levels x js diffs = foundOneInner max levels' x js diffs := by
  induction js generalizing diffs with
  | nil => rfl
  | cons j js ih =>
    have hmark : (levels j).mark = (levels' j).mark := h j List.mem_cons_self
    have hrest (diffs : ℕ → U32) := ih (fun j' hj' ↦ h j' (List.mem_cons_of_mem _ hj')) diffs
    simp only [foundOneInner, hmark, hrest]

private theorem foundOneOuter_congr {max : ℤ} {levels levels' : ℕ → OgrLevel} {is : List ℕ}
    (h : ∀ i ∈ is, ∀ j ≤ i, marks levels j = marks levels' j) (diffs : ℕ → U32) :
    foundOneOuter max levels is diffs = foundOneOuter max levels' is diffs := by
  induction is generalizing diffs with
  | nil => rfl
  | cons i is ih =>
    have hi := h i List.mem_cons_self
    have hmark : (levels i).mark = (levels' i).mark := hi i le_rfl
    have hrest (diffs : ℕ → U32) := ih (fun i' hi' ↦ h i' (List.mem_cons_of_mem _ hi')) diffs
    have hinner (diffs : ℕ → U32) :
        foundOneInner max levels (levels' i).mark (List.range i) diffs =
          foundOneInner max levels' (levels' i).mark (List.range i) diffs :=
      foundOneInner_congr (fun j hj ↦ hi j (List.mem_range.mp hj).le) diffs
    simp only [foundOneOuter, hmark, hinner, hrest]

theorem foundOne_congr {levels levels' : ℕ → OgrLevel} (depth : ℤ)
    (h : ∀ i ≤ o.maxdepthm1, marks levels i = marks levels' i) :
    foundOne { o with depth := depth, levels := levels } =
      foundOne { o with depth := depth, levels := levels' } := by
  have houter : foundOneOuter o.max levels (List.range' 1 o.maxdepthm1) (fun _ ↦ 0#32) =
      foundOneOuter o.max levels' (List.range' 1 o.maxdepthm1) (fun _ ↦ 0#32) := by
    refine foundOneOuter_congr (fun i hi j hj ↦ h j ?_) _
    have := List.mem_range'_1.mp hi
    omega
  simp only [foundOne, houter]

namespace CycleState

/-! ## States -/

structure Alike (o : OgrState) (K : Set ℕ) (s t : CycleState) : Prop where
  depth : s.depth = t.depth
  mark : s.mark = t.mark
  limit : s.limit = t.limit
  below : ∀ i < s.depth, s.levels i = t.levels i
  dist : s.level.dist = t.level.dist
  comp : s.level.comp = t.level.comp
  bound : s.level.limit = t.level.limit
  list : s.depth < o.maxdepthm1 → s.level.list = t.level.list
  newbit : s.depth < o.maxdepthm1 → s.newbit = t.newbit
  kept : ∀ i ∈ K, (s.levels i).limit = (t.levels i).limit

/-- The search goes on, with a mark to be moved. -/
structure Live (o : OgrState) (s : CycleState) : Prop where
  stop : o.stopdepth < s.depth
  le : s.depth ≤ o.maxdepthm1
  nodes : 0 < s.nodes

variable {K : Set ℕ} {s t : CycleState}

private theorem Alike.movedTo (h : Alike o K s t) {lev' lev'' : OgrLevel} {n : ℕ}
    (hdist : lev'.dist = lev''.dist) (hcomp : lev'.comp = lev''.comp)
      (hbound : lev'.limit = lev''.limit)
    (hlist : s.depth < o.maxdepthm1 → lev'.list = lev''.list) :
    Alike o K (s.movedTo lev' n) (t.movedTo lev'' n) := by
  have hself : (s.movedTo lev' n).level = lev' := Function.update_self ..
  have hself' : (t.movedTo lev'' n).level = lev'' := Function.update_self ..
  refine ⟨h.depth, by rw [CycleState.movedTo, h.mark]; rfl, h.limit, fun i hi ↦ ?_, ?_, ?_, ?_,
    fun hlt ↦ ?_, fun _ ↦ rfl, fun i hi ↦ ?_⟩
  · have hi' : i < s.depth := hi
    dsimp only [CycleState.movedTo]
    rw [Function.update_of_ne hi'.ne, Function.update_of_ne (h.depth ▸ hi').ne, h.below i hi']
  · rwa [hself, hself']
  · rwa [hself, hself']
  · rwa [hself, hself']
  · rw [hself, hself']
    exact hlist hlt
  · dsimp only [CycleState.movedTo]
    rw [← h.depth]
    rcases eq_or_ne i s.depth with rfl | hne
    · rwa [Function.update_self, Function.update_self]
    · rw [Function.update_of_ne hne, Function.update_of_ne hne, h.kept i hi]

/-- What a move does, side by side. -/
private theorem Alike.move (h : Alike o K s t) :
    (s.move = .limit ∧ t.move = .limit) ∨
      (∃ lev' lev'' n, s.move = .skip (s.movedTo lev' n) ∧ t.move = .skip (t.movedTo lev'' n) ∧
        Alike o K (s.movedTo lev' n) (t.movedTo lev'' n)) ∨
      ∃ lev' lev'' n, s.move = .place (s.movedTo lev' n) ∧ t.move = .place (t.movedTo lev'' n) ∧
        Alike o K (s.movedTo lev' n) (t.movedTo lev'' n) := by
  have hword : t.level.comp.w0 = s.level.comp.w0 := by rw [h.comp]
  have hlimit (n : ℤ) : t.limit < t.mark + n ↔ s.limit < s.mark + n := by rw [h.limit, h.mark]
  simp only [CycleState.move]
  rw [show t.levels t.depth = t.level from rfl, show s.levels s.depth = s.level from rfl, hword]
  by_cases hblank : s.level.comp.w0 < ~~~1#32
  · rw [if_pos hblank, if_pos hblank]
    by_cases hstuck : s.limit < s.mark + lookupFirstblank s.level.comp.w0
    · rw [if_pos hstuck, if_pos ((hlimit _).mpr hstuck)]
      exact .inl ⟨rfl, rfl⟩
    · rw [if_neg hstuck, if_neg ((hlimit _).not.mpr hstuck)]
      refine .inr (.inr ⟨_, _, _, rfl, rfl, h.movedTo h.dist ?_ h.bound fun hlt ↦ ?_⟩)
      · simp only [OgrLevel.compLeftListRight, h.comp]
      · simp only [OgrLevel.compLeftListRight, h.list hlt, h.newbit hlt]
  · rw [if_neg hblank, if_neg hblank]
    by_cases hstuck : s.limit < s.mark + 32
    · rw [if_pos hstuck, if_pos ((hlimit _).mpr hstuck)]
      exact .inl ⟨rfl, rfl⟩
    · rw [if_neg hstuck, if_neg ((hlimit _).not.mpr hstuck)]
      have hmoved : Alike o K (s.movedTo (s.level.compLeftListRightWord s.newbit) 32)
          (t.movedTo (t.level.compLeftListRightWord t.newbit) 32) := by
        refine h.movedTo h.dist ?_ h.bound fun hlt ↦ ?_
        · simp only [OgrLevel.compLeftListRightWord, h.comp]
        · simp only [OgrLevel.compLeftListRightWord, h.list hlt, h.newbit hlt]
      by_cases hall : s.level.comp.w0 = ~~~0#32
      · rw [if_pos hall, if_pos hall]
        exact .inr (.inl ⟨_, _, 32, rfl, rfl, hmoved⟩)
      · rw [if_neg hall, if_neg hall]
        exact .inr (.inr ⟨_, _, 32, rfl, rfl, hmoved⟩)

/-- Going back, side by side. -/
private theorem Alike.popped (h : Alike o K s t) (hd : 0 < s.depth) :
    Alike o K s.popped t.popped := by
  have hlevel : s.levels (s.depth - 1) = t.levels (t.depth - 1) := by
    rw [← h.depth]
    exact h.below _ (by omega)
  refine ⟨?_, ?_, ?_, fun i hi ↦ h.below i ?_, ?_, ?_, ?_, fun _ ↦ ?_, fun _ ↦ rfl, h.kept⟩
  · simp only [CycleState.popped, h.depth]
  · simp only [CycleState.popped, hlevel]
  · simp only [CycleState.popped, hlevel]
  · dsimp only [CycleState.popped] at hi
    omega
  all_goals
    simp only [level, CycleState.popped, hlevel]

/-- The levels when the current mark is placed and the next level set up, side by side. -/
private theorem Alike.pushLevel (h : Alike o K s t) (hlast : s.depth < o.maxdepthm1)
    (pchoose : ℕ → U16) :
    (∀ i ≤ s.depth, o.pushLevel pchoose s.levels s.depth s.level s.mark i =
      o.pushLevel pchoose t.levels s.depth t.level t.mark i) ∧
    ({ o.pushLevel pchoose s.levels s.depth s.level s.mark (s.depth + 1) with mark := s.mark } :
        OgrLevel) =
      { o.pushLevel pchoose t.levels s.depth t.level t.mark (s.depth + 1) with
        mark := s.mark } := by
  have hbelow (i : ℕ) (hi : i ≤ s.depth) :
      o.pushLevel pchoose s.levels s.depth s.level s.mark i =
        o.pushLevel pchoose t.levels s.depth t.level t.mark i := by
    rcases Nat.lt_or_eq_of_le hi with hlt | rfl
    · rw [o.pushLevel_below pchoose _ _ _ hlt, o.pushLevel_below pchoose _ _ _ hlt, h.below i hlt]
    · rw [o.pushLevel_self, o.pushLevel_self, OgrLevel.mk.injEq]
      exact ⟨h.list hlast, h.dist, h.comp, h.mark, h.bound⟩
  refine ⟨hbelow, ?_⟩
  have hlimit (dist0 : U32) := o.limitFrom_congr pchoose dist0 fun hhalf : o.halfDepth
    < s.depth + 1 ↦
    congrArg OgrLevel.mark (hbelow _ (Nat.lt_succ_iff.mp hhalf))
  rw [o.pushLevel_succ, o.pushLevel_succ, OgrLevel.mk.injEq]
  simp only [OgrLevel.pushLevelUpdateState, h.dist, h.comp, h.list hlast]
  exact ⟨trivial, trivial, trivial, trivial, hlimit _⟩

private theorem Alike.push (h : Alike o K s t) (hlast : s.depth < o.maxdepthm1)
    (pchoose : ℕ → U16) : Alike o K (s.push o pchoose) (t.push o pchoose) := by
  obtain ⟨hbelow, hnext⟩ := h.pushLevel hlast pchoose
  obtain ⟨hlist, hdist, hcomp, -, hbound⟩ := (OgrLevel.mk.injEq ..).mp hnext
  have ht : t.push o pchoose =
      { levels := o.pushLevel pchoose t.levels s.depth t.level t.mark
        depth := s.depth + 1
        mark := t.mark
        limit := (o.pushLevel pchoose t.levels s.depth t.level t.mark (s.depth + 1)).limit
        newbit := true
        nodes := t.nodes - 1 } := by
    rw [h.depth]
    rfl
  rw [ht]
  refine ⟨rfl, h.mark, hbound, fun i hi ↦ hbelow i (Nat.lt_succ_iff.mp hi), hdist, hcomp, hbound,
    fun _ ↦ hlist, fun _ ↦ rfl, fun i hi ↦ ?_⟩
  change (o.pushLevel pchoose s.levels s.depth s.level s.mark i).limit =
    (o.pushLevel pchoose t.levels s.depth t.level t.mark i).limit
  rcases lt_trichotomy i (s.depth + 1) with hlt | rfl | hlt
  · rw [hbelow i (Nat.lt_succ_iff.mp hlt)]
  · exact hbound
  · rw [o.pushLevel_above pchoose _ _ _ hlt, o.pushLevel_above pchoose _ _ _ hlt, h.kept i hi]

private theorem limit_setMark (s : CycleState) (i : ℕ) :
    (s.setMark.levels i).limit = (s.levels i).limit := by
  dsimp only [setMark]
  rcases eq_or_ne i s.depth with rfl | hne
  · rw [Function.update_self]
  · rw [Function.update_of_ne hne]

/-- A search that is left at a new level is taken up there again. -/
theorem alike_resume {u : CycleState} (hd : 0 < u.depth) (hlimit : u.limit = u.level.limit)
    (hnew : u.newbit = true) (depth nodes : ℤ) (hdepth : depth = u.depth - 1) :
    Alike o K (resume { o with depth := depth, levels := u.setMark.levels } nodes) u := by
  have hnat : (depth + 1).toNat = u.depth := by omega
  have hself : u.setMark.levels u.depth = { u.level with mark := u.mark } := Function.update_self ..
  refine ⟨hnat, ?_, ?_, fun i hi ↦ ?_, ?_, ?_, ?_, fun _ ↦ ?_, fun hlt ↦ ?_, fun i _ ↦
    u.limit_setMark i⟩
  · simp only [resume, start, hnat, hself]
  · simp only [resume, start, hnat, hself, hlimit]
  · have hi' : i < u.depth := by
      rwa [← hnat]
    exact Function.update_of_ne hi'.ne _ _
  · simp only [level, resume, start, hnat, hself]
  · simp only [level, resume, start, hnat, hself]
  · simp only [level, resume, start, hnat, hself]
  · simp only [level, resume, start, hnat, hself]
  · simp only [resume, start, hnat] at hlt ⊢
    rw [hnew]
    exact decide_eq_true hlt

theorem Alike.symm (h : Alike o K s t) : Alike o K t s :=
  ⟨h.depth.symm, h.mark.symm, h.limit.symm, fun i hi ↦ (h.below i (h.depth ▸ hi)).symm, h.dist.symm,
    h.comp.symm, h.bound.symm, fun hlt ↦ (h.list (h.depth ▸ hlt)).symm,
    fun hlt ↦ (h.newbit (h.depth ▸ hlt)).symm, fun i hi ↦ (h.kept i hi).symm⟩

theorem Alike.trans {u : CycleState} (h : Alike o K s t) (h' : Alike o K t u) : Alike o K s u :=
  ⟨h.depth.trans h'.depth, h.mark.trans h'.mark, h.limit.trans h'.limit,
    fun i hi ↦ (h.below i hi).trans (h'.below i (h.depth ▸ hi)), h.dist.trans h'.dist,
    h.comp.trans h'.comp, h.bound.trans h'.bound,
    fun hlt ↦ (h.list hlt).trans (h'.list (h.depth ▸ hlt)),
    fun hlt ↦ (h.newbit hlt).trans (h'.newbit (h.depth ▸ hlt)),
    fun i hi ↦ (h.kept i hi).trans (h'.kept i hi)⟩

theorem Alike.refl (o : OgrState) (K : Set ℕ) (s : CycleState) : Alike o K s s :=
  ⟨rfl, rfl, rfl, fun _ _ ↦ rfl, rfl, rfl, rfl, fun _ ↦ rfl, fun _ ↦ rfl, fun _ _ ↦ rfl⟩

/-! ## Turns -/

/-- The marks up to the current one. -/
def ruler (s : CycleState) : List ℤ := (List.range (s.depth + 1)).map (marks s.setMark.levels)

/-- The ruler that a turn places, if any. -/
def visits (s : CycleState) : List (List ℤ) :=
  match s.move with
  | .place s' => [s'.ruler]
  | _ => []

/-- What two searches leave when they end with a code and a depth. -/
structure EndsAlike (o : OgrState) (K : Set ℕ) (code depth : ℤ) (s t : CycleState) : Prop where
  marks : ∀ i : ℕ, (i : ℤ) ≤ depth + 1 ∨ code = CORE_S_SUCCESS ∧ i ≤ o.maxdepthm1 →
    marks s.levels i = marks t.levels i
  resume : code = CORE_S_CONTINUE → ∀ nodes,
    Alike o K (resume { o with depth := depth, levels := s.levels } nodes)
      (resume { o with depth := depth, levels := t.levels } nodes)

private theorem setMark_below (s : CycleState) {i : ℕ} (hi : i < s.depth) :
    s.setMark.levels i = s.levels i := Function.update_of_ne hi.ne _ _

private theorem setMark_self (s : CycleState) :
    s.setMark.levels s.depth = { s.level with mark := s.mark } := Function.update_self ..

private theorem Alike.marks_setMark (h : Alike o K s t) {i : ℕ} (hi : i ≤ s.depth) :
    marks s.setMark.levels i = marks t.setMark.levels i := by
  rcases Nat.lt_or_eq_of_le hi with hlt | rfl
  · rw [Hyunjin.marks, Hyunjin.marks, s.setMark_below hlt, t.setMark_below (h.depth ▸ hlt),
      h.below i hlt]
  · rw [Hyunjin.marks, Hyunjin.marks, s.setMark_self, h.depth, t.setMark_self]
    exact h.mark

private theorem Alike.ruler (h : Alike o K s t) : s.ruler = t.ruler := by
  rw [CycleState.ruler, CycleState.ruler, ← h.depth]
  exact List.map_congr_left fun i hi ↦
    h.marks_setMark (Nat.lt_succ_iff.mp (List.mem_range.mp hi))

/-- A ruler that is complete, side by side. -/
private theorem Alike.settle (h : Alike o K s t) (hd : s.depth = o.maxdepthm1) (hs : s.nodes ≠ 0)
    (ht : t.nodes ≠ 0) :
    (∃ s' t', s.setMark.settle o o.maxdepthm1 = .next s' ∧ t.setMark.settle o o.maxdepthm1
      = .next t' ∧
      Alike o K s' t' ∧ s'.depth = o.maxdepthm1 ∧ s'.nodes = s.nodes ∧ t'.nodes = t.nodes) ∨
    (s.setMark.settle o o.maxdepthm1 = .stop CORE_S_SUCCESS (o.stopdepth - 1) s.setMark ∧
      t.setMark.settle o o.maxdepthm1 = .stop CORE_S_SUCCESS (o.stopdepth - 1) t.setMark) := by
  have hmarks (i : ℕ) (hi : i ≤ o.maxdepthm1) :
      marks s.setMark.levels i = marks t.setMark.levels i := h.marks_setMark (hi.trans_eq hd.symm)
  have hlast : (s.setMark.levels o.maxdepthm1).mark = (t.setMark.levels o.maxdepthm1).mark :=
    hmarks _ le_rfl
  have hone := foundOne_congr (o.maxdepthm1 : ℤ) hmarks
  have hfound {u : CycleState} (hu : u.nodes ≠ 0) :
      (o.maxdepthm1 : ℤ) = o.maxdepthm1 ∧ u.setMark.nodes ≠ 0 := ⟨rfl, hu⟩
  rw [CycleState.settle, CycleState.settle, if_pos (hfound hs), if_pos (hfound ht),
    Int.toNat_natCast, hlast, hone]
  split_ifs with hreject
  · refine .inl ⟨_, _, rfl, rfl, ?_, Int.toNat_natCast _, rfl, rfl⟩
    have hself : s.setMark.levels o.maxdepthm1 = { s.level with mark := s.mark } := by
      rw [← hd, s.setMark_self]
    have hself' : t.setMark.levels o.maxdepthm1 = { t.level with mark := t.mark } := by
      rw [← hd, h.depth, t.setMark_self]
    refine ⟨rfl, ?_, ?_, fun i hi ↦ ?_, ?_, ?_, ?_, fun hlt ↦ ?_, fun hlt ↦ ?_, fun i hi ↦ ?_⟩
    · simp only [start, Int.toNat_natCast, hlast]
    · simp only [start, Int.toNat_natCast, hself, hself', h.bound]
    · have hi' : i < s.depth := by
        rw [hd]
        exact hi.trans_eq (Int.toNat_natCast _)
      dsimp only [start]
      rw [s.setMark_below hi', t.setMark_below (h.depth ▸ hi'), h.below i hi']
    · simpa only [level, start, Int.toNat_natCast, hself, hself'] using h.dist
    · simpa only [level, start, Int.toNat_natCast, hself, hself'] using h.comp
    · simpa only [level, start, Int.toNat_natCast, hself, hself'] using h.bound
    · exact absurd (hlt.trans_eq' (Int.toNat_natCast _).symm) (Nat.lt_irrefl _)
    · exact absurd (hlt.trans_eq' (Int.toNat_natCast _).symm) (Nat.lt_irrefl _)
    · exact (s.limit_setMark i).trans ((h.kept i hi).trans (t.limit_setMark i).symm)
  · exact .inr ⟨rfl, rfl⟩

/-- **A turn, side by side.** Both searches go on, or both end with one code, or the first has spent
its budget where the second goes on. -/
theorem Alike.turn (h : Alike o K s t) (hs : s.Live o) (hle : s.nodes ≤ t.nodes)
    (hmin : -1 ≤ o.stopdepth) (hlast : o.stopdepth < o.maxdepthm1) (pchoose : ℕ → U16) :
    s.visits = t.visits ∧
      ((∃ s' t', s.turn o pchoose = .next s' ∧ t.turn o pchoose = .next t' ∧ Alike o K s' t' ∧
        s'.Live o ∧ t'.nodes - s'.nodes = t.nodes - s.nodes) ∨
      (∃ code depth s' t', s.turn o pchoose = .stop code depth s' ∧
        t.turn o pchoose = .stop code depth t' ∧ EndsAlike o K code depth s' t' ∧
        t'.nodes - s'.nodes = t.nodes - s.nodes ∧
        (code = CORE_S_CONTINUE → s.nodes = t.nodes)) ∨
      ∃ depth s' t', s.turn o pchoose = .stop CORE_S_CONTINUE depth s' ∧
        t.turn o pchoose = .next t' ∧
        (∀ nodes, Alike o K (resume { o with depth := depth, levels := s'.levels } nodes) t') ∧
        t'.Live o ∧ s'.nodes = 0 ∧ t'.nodes = t.nodes - s.nodes) := by
  obtain ⟨hstop, hd, hnodes⟩ := hs
  simp only [visits, CycleState.turn, step]
  rcases h.move with ⟨hmove, hmove'⟩ | ⟨lev', lev'', n, hmove, hmove', halike⟩ |
    ⟨lev', lev'', n, hmove, hmove', halike⟩
  · -- stuck: both go back, or the search is over
    rw [hmove, hmove']
    refine ⟨rfl, ?_⟩
    dsimp only [pop]
    rw [← h.depth]
    by_cases hlt : o.stopdepth < s.depth - 1
    · have hdepth : ((s.depth : ℤ) - 1).toNat = s.depth - 1 := by omega
      rw [if_pos hlt, if_pos hlt, hdepth]
      have hpop := h.popped (by omega)
      rw [CycleState.popped, CycleState.popped, ← h.depth] at hpop
      refine .inl ⟨_, _, rfl, rfl, hpop, ⟨?_, ?_, hnodes⟩, rfl⟩
      · dsimp only
        omega
      · dsimp only
        omega
    · rw [if_neg hlt, if_neg hlt]
      have hout (u : CycleState) :
          u.settle o (s.depth - 1) = .stop CORE_S_OK (s.depth - 1 - 1) u := by
        rw [CycleState.settle, if_neg (fun hfound ↦ by omega), if_pos (not_lt.mp hlt)]
      refine .inr (.inl ⟨_, _, _, _, hout s, hout t,
        ⟨fun i hi ↦ ?_, fun hcode ↦ ?_⟩, rfl, fun hcode ↦ ?_⟩)
      · have hi' : i < s.depth := by
          rcases hi with hi | ⟨hcode, -⟩
          · omega
          · exact absurd hcode (by decide)
        rw [Hyunjin.marks, Hyunjin.marks, h.below i hi']
      · exact absurd hcode (by decide)
      · exact absurd hcode (by decide)
  · rw [hmove, hmove']
    exact ⟨rfl, .inl ⟨_, _, rfl, rfl, halike, ⟨hstop, hd, hnodes⟩, rfl⟩⟩
  · rw [hmove, hmove']
    refine ⟨congrArg (fun r ↦ [r]) halike.ruler, ?_⟩
    dsimp only
    have hdepth' : (t.movedTo lev'' n).depth = (s.movedTo lev' n).depth := halike.depth.symm
    rw [hdepth']
    by_cases hfull : (s.movedTo lev' n).depth = o.maxdepthm1
    · -- a ruler is complete
      rw [if_pos hfull, if_pos hfull]
      dsimp only
      rw [hfull]
      have hpos : 0 < (t.movedTo lev'' n).nodes := hnodes.trans_le hle
      rcases halike.settle hfull hnodes.ne' hpos.ne' with
        ⟨s', t', hs', ht', halike', hdepth, hn, hn'⟩ | ⟨hs', ht'⟩
      · rw [hs', ht']
        refine .inl ⟨s', t', rfl, rfl, halike', ⟨by rw [hdepth]; exact hlast, hdepth.le, ?_⟩, ?_⟩
        · rw [hn]
          exact hnodes
        · rw [hn, hn']
          rfl
      · rw [hs', ht']
        refine .inr (.inl ⟨_, _, _, _, rfl, rfl,
          ⟨fun i hi ↦ ?_, fun hcode ↦ ?_⟩, rfl, fun hcode ↦ ?_⟩)
        · refine halike.marks_setMark ?_
          rw [hfull]
          rcases hi with hi | ⟨-, hi⟩
          · omega
          · exact hi
        · exact absurd hcode (by decide)
        · exact absurd hcode (by decide)
    · rw [if_neg hfull, if_neg hfull]
      have hlt : (s.movedTo lev' n).depth < o.maxdepthm1 := lt_of_le_of_ne hd hfull
      have hpush := halike.push hlt pchoose
      have hlive {w : CycleState} (hdepth : w.depth = s.depth + 1) (hw : 0 < w.nodes) : w.Live o :=
        ⟨by rw [hdepth]; omega, by rw [hdepth]; exact hlt, hw⟩
      have hnodes' : ((s.movedTo lev' n).push o pchoose).nodes = s.nodes - 1 := rfl
      have hnodes'' : ((t.movedTo lev'' n).push o pchoose).nodes = t.nodes - 1 := rfl
      have hdepth : ((s.movedTo lev' n).push o pchoose).depth = s.depth + 1 := rfl
      have hdepth'' : ((t.movedTo lev'' n).push o pchoose).depth = s.depth + 1 := by
        rw [h.depth]
        rfl
      have hfresh : ((s.movedTo lev' n).push o pchoose).limit =
          ((s.movedTo lev' n).push o pchoose).level.limit ∧
          ((s.movedTo lev' n).push o pchoose).newbit = true := ⟨rfl, rfl⟩
      have hfresh'' : ((t.movedTo lev'' n).push o pchoose).limit =
          ((t.movedTo lev'' n).push o pchoose).level.limit ∧
          ((t.movedTo lev'' n).push o pchoose).newbit = true := ⟨rfl, rfl⟩
      generalize (s.movedTo lev' n).push o pchoose = u at *
      generalize (t.movedTo lev'' n).push o pchoose = v at *
      have hout {w : CycleState} (hdepth : w.depth = s.depth + 1) (hw : w.nodes = 0) :
          w.setMark.settle o w.depth = .stop CORE_S_CONTINUE s.depth w.setMark := by
        have hcast : (w.depth : ℤ) = s.depth + 1 := by omega
        rw [CycleState.settle, if_neg (fun hfound ↦ hfound.2 hw), if_neg (by omega), hcast,
          add_sub_cancel_right]
      have hresume {w : CycleState} (hdepth : w.depth = s.depth + 1)
          (hw : w.limit = w.level.limit ∧ w.newbit = true) (nodes : ℤ) :
          Alike o K (resume { o with depth := s.depth, levels := w.setMark.levels } nodes) w :=
        alike_resume (by omega) hw.1 hw.2 _ _ (by omega)
      by_cases hspent : u.nodes ≤ 0
      · rw [if_pos hspent]
        dsimp only
        rw [hout hdepth (by omega)]
        by_cases hspent' : v.nodes ≤ 0
        · rw [if_pos hspent']
          dsimp only
          rw [hout hdepth'' (by omega)]
          refine .inr (.inl ⟨_, _, _, _, rfl, rfl,
            ⟨fun i hi ↦ ?_, fun _ nodes ↦ ?_⟩, ?_, fun _ ↦ by omega⟩)
          · refine hpush.marks_setMark ?_
            rcases hi with hi | ⟨hcode, -⟩
            · omega
            · exact absurd hcode (by decide)
          · exact (hresume hdepth hfresh nodes).trans
              (hpush.trans (hresume hdepth'' hfresh'' nodes).symm)
          · change v.nodes - u.nodes = _
            omega
        · rw [if_neg hspent']
          refine .inr (.inr ⟨_, _, _, rfl, rfl,
            fun nodes ↦ (hresume hdepth hfresh nodes).trans hpush,
            hlive hdepth'' (not_le.mp hspent'), ?_, by omega⟩)
          change u.nodes = 0
          omega
      · rw [if_neg hspent, if_neg (by omega)]
        exact .inl ⟨_, _, rfl, rfl, hpush, hlive hdepth (not_le.mp hspent), by omega⟩

theorem Live.turn (h : s.Live o) (hmin : -1 ≤ o.stopdepth) (hlast : o.stopdepth < o.maxdepthm1)
    (hturn : s.turn o pchoose = .next t) : t.Live o := by
  obtain ⟨-, ⟨u, _, hu, -, -, hlive, -⟩ | ⟨_, _, _, _, hu, -⟩ | ⟨_, _, _, hu, -⟩⟩ :=
    (Alike.refl o ∅ s).turn h le_rfl hmin hlast pchoose
  · cases hturn.symm.trans hu
    exact hlive
  · exact nomatch hturn.symm.trans hu
  · exact nomatch hturn.symm.trans hu

/-! ## Runs -/

/-- The turns come to an end, and place these rulers. -/
inductive Logs (o : OgrState) (pchoose : ℕ → U16) :
    CycleState → List (List ℤ) → ℤ × ℤ × CycleState → Prop
  | stop {s code depth t} (turn : s.turn o pchoose = .stop code depth t) :
      Logs o pchoose s s.visits (code, depth, t)
  | next {s t log r} (turn : s.turn o pchoose = .next t) (rest : Logs o pchoose t log r) :
      Logs o pchoose s (s.visits ++ log) r

theorem Runs.exists_logs {r : ℤ × ℤ × CycleState} (h : Runs o pchoose s r) :
    ∃ log, Logs o pchoose s log r := by
  obtain ⟨fuel, hrun⟩ := h
  induction fuel generalizing s with
  | zero => exact nomatch hrun
  | succ fuel ih =>
    rw [run] at hrun
    cases hturn : s.turn o pchoose with
    | next t =>
      rw [hturn] at hrun
      obtain ⟨log, hlog⟩ := ih hrun
      exact ⟨_, .next hturn hlog⟩
    | stop code depth t =>
      rw [hturn] at hrun
      cases hrun
      exact ⟨_, .stop hturn⟩

theorem Logs.runs {log : List (List ℤ)} {r : ℤ × ℤ × CycleState} (h : Logs o pchoose s log r) :
    Runs o pchoose s r := by
  induction h with
  | stop turn => exact (runs_stop turn).mpr rfl
  | next turn rest ih => exact (runs_next turn).mpr ih

theorem Logs.nodes_le {log : List (List ℤ)} {r : ℤ × ℤ × CycleState} (h : Logs o pchoose s log r)
    (hmin : -1 ≤ o.stopdepth) : r.2.2.nodes ≤ s.nodes := by
  induction h with
  | @stop s code depth t turn =>
    have hle := turn_nodes_le o hmin pchoose s
    rwa [turn] at hle
  | @next s t log r turn rest ih =>
    have hle := turn_nodes_le o hmin pchoose s
    rw [turn] at hle
    exact ih.trans hle

/-- A search places one log and has one end. -/
theorem Logs.unique {log log' : List (List ℤ)} {r r' : ℤ × ℤ × CycleState}
    (h : Logs o pchoose s log r) (h' : Logs o pchoose s log' r') : log = log' ∧ r = r' := by
  induction h generalizing log' with
  | stop turn =>
    cases h' with
    | stop turn' =>
      cases turn.symm.trans turn'
      exact ⟨rfl, rfl⟩
    | next turn' => exact nomatch turn.symm.trans turn'
  | next turn rest ih =>
    cases h' with
    | stop turn' => exact nomatch turn.symm.trans turn'
    | next turn' rest' =>
      cases turn.symm.trans turn'
      obtain ⟨rfl, rfl⟩ := ih rest'
      exact ⟨rfl, rfl⟩

/-- **Searches that go alike**, with budgets that last equally long or one that is not spent, place
the same rulers and end alike. -/
theorem Alike.logs {log : List (List ℤ)} {code depth : ℤ} {s' : CycleState}
    (hlogs : Logs o pchoose s log (code, depth, s')) (h : Alike o K s t) (hs : s.Live o)
    (hle : s.nodes ≤ t.nodes) (hmin : -1 ≤ o.stopdepth) (hlast : o.stopdepth < o.maxdepthm1)
    (hnodes : code = CORE_S_CONTINUE → s.nodes = t.nodes) :
    ∃ t', Logs o pchoose t log (code, depth, t') ∧ EndsAlike o K code depth s' t' ∧
      t'.nodes - s'.nodes = t.nodes - s.nodes := by
  generalize hr : (code, depth, s') = r at hlogs
  induction hlogs generalizing t with
  | stop turn =>
    cases hr
    obtain ⟨hvisits, ⟨u, v, hu, -⟩ | ⟨_, _, _, v, hu, hv, hends, hdiff, -⟩ |
      ⟨_, u, v, hu, -, -, hv, -, hdiff⟩⟩ :=
      h.turn hs hle hmin hlast pchoose
    · exact nomatch turn.symm.trans hu
    · cases turn.symm.trans hu
      rw [hvisits]
      exact ⟨v, .stop hv, hends, hdiff⟩
    · cases turn.symm.trans hu
      have := hnodes rfl
      have := hv.nodes
      omega
  | next turn rest ih =>
    obtain ⟨hvisits, ⟨u, v, hu, hv, halike, hlive, hdiff⟩ | ⟨_, _, _, _, hu, -⟩ |
      ⟨_, _, _, hu, -⟩⟩ :=
      h.turn hs hle hmin hlast pchoose
    · cases turn.symm.trans hu
      obtain ⟨t', hlog, hends, hdiff'⟩ :=
        ih halike hlive (by omega) (fun hcode ↦ by have := hnodes hcode; omega) hr
      rw [hvisits]
      exact ⟨t', .next hv hlog, hends, by omega⟩
    · exact nomatch turn.symm.trans hu
    · exact nomatch turn.symm.trans hu

/-- **Where the budget of one is spent**, the other goes on as if that were taken up again. -/
theorem Alike.logs_spent {log : List (List ℤ)} {depth : ℤ} {s' : CycleState}
    (hlogs : Logs o pchoose s log (CORE_S_CONTINUE, depth, s')) (h : Alike o K s t) (hs : s.Live o)
    (hlt : s.nodes < t.nodes) (hmin : -1 ≤ o.stopdepth) (hlast : o.stopdepth < o.maxdepthm1) :
    ∃ t', (∀ log' r, Logs o pchoose t' log' r → Logs o pchoose t (log ++ log') r) ∧
      (∀ nodes, Alike o K (resume { o with depth := depth, levels := s'.levels } nodes) t') ∧
      t'.Live o ∧ s'.nodes = 0 ∧ t'.nodes = t.nodes - s.nodes := by
  generalize hr : (CORE_S_CONTINUE, depth, s') = r at hlogs
  induction hlogs generalizing t with
  | stop turn =>
    cases hr
    obtain ⟨hvisits, ⟨u, v, hu, -⟩ | ⟨_, _, _, v, hu, hv, -, -, hnodes⟩ |
      ⟨_, u, v, hu, hv, halike, hlive, hzero, hdiff⟩⟩ := h.turn hs hlt.le hmin hlast pchoose
    · exact nomatch turn.symm.trans hu
    · cases turn.symm.trans hu
      exact absurd (hnodes rfl) hlt.ne
    · cases turn.symm.trans hu
      rw [hvisits]
      exact ⟨v, fun _ _ hlog ↦ .next hv hlog, halike, hlive, hzero, hdiff⟩
  | next turn rest ih =>
    obtain ⟨hvisits, ⟨u, v, hu, hv, halike, hlive, hdiff⟩ | ⟨_, _, _, _, hu, -⟩ |
      ⟨_, _, _, hu, -⟩⟩ :=
      h.turn hs hlt.le hmin hlast pchoose
    · cases turn.symm.trans hu
      obtain ⟨t', hrest, halike', hlive', hzero, hdiff'⟩ := ih halike hlive (by omega) hr
      refine ⟨t', fun log' r hlog ↦ ?_, halike', hlive', hzero, ?_⟩
      · rw [hvisits, List.append_assoc]
        exact .next hv (hrest log' r hlog)
      · exact hdiff'.trans hdiff
    · exact nomatch turn.symm.trans hu
    · exact nomatch turn.symm.trans hu

end CycleState

end Hyunjin
