import Hyunjin.Ogr.Turn

/-!
# The invariant of the search

`Standing` says how the levels stand with the current mark of level `d` at `p`: every level below
has its mark placed, within its limit and not blocked, and the bitmaps of all levels up to `d` are
what the marks make them. It is kept by a move, by the push to the next level, by going back to the
one before, and by taking up the search again; `ogrCreate` establishes it for every stub it accepts.

A stub may be longer than the ruler. Nothing is said about levels beyond the last mark.
-/

namespace Hyunjin

open Ruler

def marks (levels : ℕ → OgrLevel) (i : ℕ) : ℤ := (levels i).mark

variable {o : OgrState} {pchoose : ℕ → U16} {levels levels' : ℕ → OgrLevel} {d : ℕ} {p : ℤ}

/-! ## A level -/

/-- The current mark of level `d` is at `p`. -/
structure LevelAt (o : OgrState) (pchoose : ℕ → U16) (levels : ℕ → OgrLevel) (d : ℕ) (p : ℤ) :
    Prop where
  shows : (levels d).Shows (marks levels) d p
  lists : d < o.maxdepthm1 → (levels d).Lists (marks levels) d p
  limit : (levels d).limit = o.rulerLimit pchoose (marks levels) d

/-- The mark of level `d` is placed. -/
structure Placed (o : OgrState) (pchoose : ℕ → U16) (levels : ℕ → OgrLevel) (d : ℕ) : Prop extends
    LevelAt o pchoose levels d (marks levels d) where
  above : ∀ j < d, marks levels j < marks levels d
  free : ¬Blocked 256 (marks levels) d (marks levels d)
  le : marks levels d ≤ (levels d).limit

/-- Only the levels up to its own matter to a level, and the mark of its own does not. -/
theorem LevelAt.congr (h : LevelAt o pchoose levels d p) (hbelow : ∀ i < d, levels' i = levels i)
    {x : ℤ} (hself : levels' d = { levels d with mark := x }) : LevelAt o pchoose levels' d p := by
  have hmarks (i : ℕ) (hi : i < d) : marks levels i = marks levels' i := by
    rw [marks, marks, hbelow i hi]
  obtain ⟨⟨hdist, hcomp⟩, hlists, hlimit⟩ := h
  refine ⟨?_, fun hd ↦ ?_, ?_⟩
  · rw [hself]
    exact OgrLevel.Shows.congr ⟨hdist, hcomp⟩ hmarks
  · rw [hself]
    exact OgrLevel.Lists.congr (hlists hd) hmarks
  · rw [hself, ← o.rulerLimit_congr pchoose hmarks]
    exact hlimit

theorem Placed.congr (h : Placed o pchoose levels d) (heq : ∀ i ≤ d, levels' i = levels i) :
    Placed o pchoose levels' d := by
  have hmarks (i : ℕ) (hi : i ≤ d) : marks levels i = marks levels' i := by
    rw [marks, marks, heq i hi]
  have hself := hmarks d le_rfl
  refine ⟨?_, fun j hj ↦ ?_, ?_, ?_⟩
  · rw [← hself]
    exact h.toLevelAt.congr (fun i hi ↦ heq i hi.le) (heq d le_rfl)
  · rw [← hself, ← hmarks j hj.le]
    exact h.above j hj
  · rw [← hself]
    exact fun hblocked ↦ h.free (hblocked.congr fun i hi ↦ (hmarks i hi.le).symm)
  · rw [← hself, heq d le_rfl]
    exact h.le

/-- The depths and the levels of a state are not read by the limits. -/
theorem Placed.static (h : Placed o pchoose levels d) (startdepth : ℕ) (stopdepth depth : ℤ)
    (levels' : ℕ → OgrLevel) :
    Placed
      { o with startdepth := startdepth, stopdepth := stopdepth, depth := depth, levels := levels' }
      pchoose levels d :=
  ⟨⟨h.shows, h.lists, h.limit⟩, h.above, h.free, h.le⟩

/-! ## The push -/

namespace OgrState

variable (o) (pchoose) (levels)

theorem pushLevel_below {i d : ℕ} (lev : OgrLevel) (p : ℤ) (hi : i < d) :
    o.pushLevel pchoose levels d lev p i = levels i := by
  simp only [pushLevel]
  rw [Function.update_of_ne (by omega), Function.update_of_ne (by omega),
    Function.update_of_ne hi.ne]

theorem pushLevel_self (d : ℕ) (lev : OgrLevel) (p : ℤ) :
    o.pushLevel pchoose levels d lev p d = { lev with mark := p } := by
  simp only [pushLevel]
  rw [Function.update_of_ne (by omega), Function.update_of_ne (by omega), Function.update_self]

theorem pushLevel_above {i d : ℕ} (lev : OgrLevel) (p : ℤ) (hi : d + 1 < i) :
    o.pushLevel pchoose levels d lev p i = levels i := by
  simp only [pushLevel]
  rw [Function.update_of_ne hi.ne', Function.update_of_ne hi.ne', Function.update_of_ne (by omega)]

/-- The level pushed to keeps its old mark until the search comes to set it. -/
theorem pushLevel_succ (d : ℕ) (lev : OgrLevel) (p : ℤ) :
    o.pushLevel pchoose levels d lev p (d + 1) =
      { lev.pushLevelUpdateState (levels (d + 1)) with
        limit := o.limitFrom pchoose (lev.pushLevelUpdateState (levels (d + 1))).dist.w0
          (marks (o.pushLevel pchoose levels d lev p) o.halfDepth) (d + 1) } := by
  have hhalf : marks (o.pushLevel pchoose levels d lev p) o.halfDepth =
      (Function.update (Function.update levels d { lev with mark := p }) (d + 1)
        (lev.pushLevelUpdateState (levels (d + 1))) o.halfDepth).mark := by
    simp only [marks, pushLevel]
    rw [Function.update_of_ne d.succ_ne_self]
    by_cases hhalf : o.halfDepth = d + 1
    · rw [hhalf, Function.update_self, Function.update_self]
      rfl
    · rw [Function.update_of_ne hhalf, Function.update_of_ne hhalf, Function.update_of_ne hhalf]
  rw [hhalf]
  simp only [pushLevel, limitAt]
  rw [Function.update_self, Function.update_of_ne d.succ_ne_self, Function.update_self]
  rfl

end OgrState

/-! ## The levels -/

/-- The search stands at level `d`, with its mark at `p`. -/
structure Standing (o : OgrState) (pchoose : ℕ → U16) (levels : ℕ → OgrLevel) (d : ℕ) (p : ℤ)
    (newbit : Bool) : Prop where
  before : ∀ i < d, i ≤ o.maxdepthm1 → Placed o pchoose levels i
  here : d ≤ o.maxdepthm1 → LevelAt o pchoose levels d p
  ge : d ≤ o.maxdepthm1 → ∀ j < d, marks levels j ≤ p
  newbit : d < o.maxdepthm1 → (newbit = true ↔ ∃ j < d, marks levels j = p)
  origin : marks levels 0 = 0
  first : d = 0 → p = 0

/-- A mark `t` places ahead is one that the search may place. -/
structure Fits (levels : ℕ → OgrLevel) (d : ℕ) (p : ℤ) (newbit : Bool) (lev' : OgrLevel) (t : ℕ) :
    Prop where
  moved : (levels d).Moved lev' newbit t
  pos : 0 < t
  free : (levels d).comp.bit (t - 1) = false
  le : p + t ≤ (levels d).limit

namespace Standing

variable {newbit : Bool} {lev' : OgrLevel} {t : ℕ}

theorem newbit_congr {newbit' : Bool} (h : Standing o pchoose levels d p newbit)
    (heq : d < o.maxdepthm1 → newbit' = newbit) : Standing o pchoose levels d p newbit' where
  before := h.before
  here := h.here
  ge := h.ge
  newbit hd := by rw [heq hd, h.newbit hd]
  origin := h.origin
  first := h.first

/-- The mark of level 0 stays where it is. -/
theorem ne_zero (h : Standing o pchoose levels d p newbit) (ht : 0 < t)
    (hle : p + t ≤ (levels d).limit) : d ≠ 0 := by
  rintro rfl
  have hp := h.first rfl
  rw [(h.here (Nat.zero_le _)).limit, OgrState.rulerLimit, if_pos rfl] at hle
  omega

/-- The current mark may be written to its level. -/
theorem setMark (h : Standing o pchoose levels d p newbit) :
    Standing o pchoose (Function.update levels d { levels d with mark := p }) d p newbit := by
  have hbelow (i : ℕ) (hi : i < d) :
      Function.update levels d { levels d with mark := p } i = levels i :=
    Function.update_of_ne hi.ne _ _
  refine ⟨fun i hi hle ↦ ?_, fun hle ↦ ?_, fun hle j hj ↦ ?_, fun hlt ↦ ?_, ?_, h.first⟩
  · exact (h.before i hi hle).congr fun j hj ↦ hbelow j (hj.trans_lt hi)
  · exact (h.here hle).congr hbelow (Function.update_self ..)
  · rw [marks, hbelow j hj]
    exact h.ge hle j hj
  · rw [h.newbit hlt]
    exact exists_congr fun j ↦ and_congr_right fun hj ↦ by rw [marks, marks, hbelow j hj]
  · rcases Nat.eq_zero_or_pos d with rfl | hd
    · rw [marks, Function.update_self]
      exact h.first rfl
    · rw [marks, hbelow 0 hd]
      exact h.origin

/-- What level `d` says when its mark has moved. -/
private theorem levelAt_moved (h : Standing o pchoose levels d p newbit) (hd : d ≤ o.maxdepthm1)
    (hmoved : (levels d).Moved lev' newbit t) (hbelow : ∀ i < d, levels' i = levels i)
    {x : ℤ} (hself : levels' d = { lev' with mark := x }) :
    LevelAt o pchoose levels' d (p + t) := by
  have hmarks (i : ℕ) (hi : i < d) : marks levels i = marks levels' i := by
    rw [marks, marks, hbelow i hi]
  have hhere := h.here hd
  obtain ⟨hdist, hcomp⟩ := (hhere.shows.moved hmoved).congr hmarks
  refine ⟨?_, fun hlt ↦ ?_, ?_⟩
  · rw [hself]
    exact ⟨hdist, hcomp⟩
  · rw [hself]
    exact ((hhere.lists hlt).moved hmoved (h.newbit hlt) (h.ge hd)).congr hmarks
  · rw [hself, ← o.rulerLimit_congr pchoose hmarks]
    exact hmoved.limit.trans hhere.limit

/-- **A move** of the current mark. -/
theorem moved (h : Standing o pchoose levels d p newbit) (hmoved : (levels d).Moved lev' newbit t)
    (hpos : 0 < t) (hlimit : p + t ≤ (levels d).limit) :
    Standing o pchoose (Function.update levels d lev') d (p + t) false := by
  have hd := h.ne_zero hpos hlimit
  have hbelow (i : ℕ) (hi : i < d) : Function.update levels d lev' i = levels i :=
    Function.update_of_ne hi.ne _ _
  have hge (hd : d ≤ o.maxdepthm1) (j : ℕ) (hj : j < d) :
      marks (Function.update levels d lev') j < p + t := by
    rw [marks, hbelow j hj]
    have := h.ge hd j hj
    rw [marks] at this
    omega
  refine ⟨fun i hi hle ↦ ?_, fun hle ↦ ?_, fun hle j hj ↦ (hge hle j hj).le, fun hlt ↦ ?_, ?_,
    fun h0 ↦ absurd h0 hd⟩
  · exact (h.before i hi hle).congr fun j hj ↦ hbelow j (hj.trans_lt hi)
  · exact h.levelAt_moved hle hmoved hbelow (Function.update_self ..)
  · refine iff_of_false Bool.false_ne_true ?_
    rintro ⟨j, hj, heq⟩
    exact (hge hlt.le j hj).ne heq
  · rw [marks, hbelow 0 (Nat.pos_of_ne_zero hd)]
    exact h.origin

/-- **A mark is placed**, with those below it. -/
theorem placed (h : Standing o pchoose levels d p newbit) (hfit : Fits levels d p newbit lev' t)
    (hbelow : ∀ i < d, levels' i = levels i) (hself : levels' d = { lev' with mark := p + t }) :
    ∀ i ≤ d, i ≤ o.maxdepthm1 → Placed o pchoose levels' i := by
  intro i hi hle
  rcases Nat.eq_or_lt_of_le hi with rfl | hlt
  · have hmark : marks levels' i = p + t := by rw [marks, hself]
    have hmarks (j : ℕ) (hj : j < i) : marks levels j = marks levels' j := by
      rw [marks, marks, hbelow j hj]
    refine ⟨?_, fun j hj ↦ ?_, ?_, ?_⟩
    · rw [hmark]
      exact h.levelAt_moved hle hfit.moved hbelow hself
    · rw [hmark, ← hmarks j hj]
      have := h.ge hle j hj
      have := hfit.pos
      omega
    · rw [hmark]
      intro hblocked
      have hpos := hfit.pos
      have hplace : p + (((t - 1 : ℕ) : ℤ) + 1) = p + t := by omega
      have hbit := (h.here hle).shows.comp (t - 1)
      rw [hplace, hfit.free] at hbit
      exact nomatch hbit.mpr (hblocked.congr fun j hj ↦ (hmarks j hj).symm)
    · rw [hmark, hself]
      exact hfit.le.trans_eq hfit.moved.limit.symm
  · exact (h.before i hlt hle).congr fun j hj ↦ hbelow j (hj.trans_lt hlt)

/-- **The push** to the next level. -/
theorem push (h : Standing o pchoose levels d p newbit) (hfit : Fits levels d p newbit lev' t) :
    Standing o pchoose (o.pushLevel pchoose levels d lev' (p + t)) (d + 1) (p + t) true := by
  have hself := o.pushLevel_self pchoose levels d lev' (p + t)
  have hplaced := h.placed hfit (fun i hi ↦ o.pushLevel_below pchoose levels lev' (p + t) hi) hself
  have hmark : marks (o.pushLevel pchoose levels d lev' (p + t)) d = p + t := by rw [marks, hself]
  refine ⟨fun i hi ↦ hplaced i (Nat.lt_succ_iff.mp hi), fun hle ↦ ?_, fun hle j hj ↦ ?_,
    fun _ ↦ iff_of_true rfl ⟨d, d.lt_succ_self, hmark⟩, ?_, fun h0 ↦ absurd h0 d.succ_ne_zero⟩
  · -- the level pushed to
    have hd := hplaced d le_rfl (Nat.le_of_succ_le hle)
    have hshows := hd.shows
    have hlists := hd.lists hle
    rw [hself, hmark] at hshows hlists
    obtain ⟨hdist, hcomp⟩ := hshows.push hlists hmark (levels (d + 1))
    have hlimit := (hshows.push hlists hmark (levels (d + 1))).dist_w0
    refine ⟨?_, fun _ ↦ ?_, ?_⟩
    · rw [o.pushLevel_succ]
      exact ⟨hdist, hcomp⟩
    · rw [o.pushLevel_succ]
      exact hlists.push hmark (levels (d + 1))
    · rw [OgrState.rulerLimit, if_neg d.succ_ne_zero, ← hlimit, o.pushLevel_succ]
      rfl
  · rcases Nat.lt_succ_iff_lt_or_eq.mp hj with hlt | rfl
    · exact ((hplaced d le_rfl (Nat.le_of_succ_le hle)).above j hlt).le.trans_eq hmark
    · exact hmark.le
  · have hd := Nat.pos_of_ne_zero (h.ne_zero hfit.pos hfit.le)
    rw [marks, o.pushLevel_below pchoose levels lev' (p + t) hd]
    exact h.origin

theorem static (h : Standing o pchoose levels d p newbit) (startdepth : ℕ) (stopdepth depth : ℤ)
    (levels' : ℕ → OgrLevel) :
    Standing
      { o with startdepth := startdepth, stopdepth := stopdepth, depth := depth, levels := levels' }
      pchoose levels d p newbit where
  before i hi hle := (h.before i hi hle).static startdepth stopdepth depth levels'
  here hle := ⟨(h.here hle).shows, (h.here hle).lists, (h.here hle).limit⟩
  ge := h.ge
  newbit := h.newbit
  origin := h.origin
  first := h.first

/-- **Going back** to the level before. -/
theorem pop (h : Standing o pchoose levels d p newbit) (hd : 0 < d) :
    Standing o pchoose levels (d - 1) (marks levels (d - 1)) false where
  before i hi := h.before i (by omega)
  here hle := (h.before (d - 1) (by omega) hle).toLevelAt
  ge hle j hj := ((h.before (d - 1) (by omega) hle).above j hj).le
  newbit hlt := by
    refine iff_of_false Bool.false_ne_true ?_
    rintro ⟨j, hj, heq⟩
    exact ((h.before (d - 1) (by omega) hlt.le).above j hj).ne heq
  origin := h.origin
  first h0 := by rw [h0, h.origin]

end Standing

end Hyunjin
