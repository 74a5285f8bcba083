import Hyunjin.Ogr.Calls

/-!
# What the bitmaps say

`OgrLevel.Reads` is the reading of the three bitmaps in terms of the marks, with bit `k` of a map
counted from 1: the distances from the current position, the distances among the marks that are
placed, and the places that would repeat one. A place ahead repeats a distance that ends beyond a
mark `j` only if it repeats one that ends before another mark (`blocked_iff`), so that this is what
the search keeps.

A turn keeps the reading, whichever way it goes (`CycleState.Inv.keepsReading`), and so it holds at
every level below the last, wherever the search stands (`bitmaps_read`).
-/

namespace Hyunjin

open Ruler

/-! ## Readings of a level -/

/-- What the bitmaps of level `d` say, with the current position at `p`. -/
structure OgrLevel.Reads (lev : OgrLevel) (m : ℕ → ℤ) (d : ℕ) (p : ℤ) : Prop where
  list : ∀ k : ℕ, 1 ≤ k → k ≤ 256 → (lev.list.bit (k - 1) = true ↔ ∃ j < d, p - m j = k)
  dist : ∀ k : ℕ, 1 ≤ k → k ≤ 256 → (lev.dist.bit (k - 1) = true ↔ IsDistance m d k)
  comp : ∀ k : ℕ, 1 ≤ k → k ≤ 256 → (lev.comp.bit (k - 1) = true ↔
    ∃ j < d, p + k - m j ≤ 256 ∧ IsDistance m d (p + k - m j))

/-- **A place that repeats a distance** repeats one that ends at or before the mark it is measured
from. -/
theorem blocked_iff {m : ℕ → ℤ} {d : ℕ} {w q : ℤ} (hinc : ∀ i < d, ∀ j < i, m j < m i)
    (hq : ∀ j < d, m j < q) :
    Blocked w m d q ↔ ∃ j < d, q - m j ≤ w ∧ IsDistance m d (q - m j) := by
  constructor
  · rintro ⟨j, hj, hle, a, b, hab, hb, hd⟩
    exact ⟨j, hj, hle, a, b, hab, hb.trans_le hj, hd⟩
  · rintro ⟨j, hj, hle, a, b, hab, hb, hd⟩
    rcases Nat.lt_or_ge j b with hjb | hbj
    · -- the other way about: the place is as far from `b` as `j` is from `a`
      have haj : a < j := by
        by_contra hja
        have hqb := hq b hb
        rcases Nat.eq_or_lt_of_le (Nat.not_lt.mp hja) with rfl | hlt
        · omega
        · have := hinc a (hab.trans hb) j hlt
          omega
      have hmark := hinc b hb j hjb
      exact ⟨b, hb, by omega, a, j, haj, hjb.trans b.lt_succ_self, by omega⟩
    · exact ⟨j, hj, hle, a, b, hab, Nat.lt_succ_of_le hbj, hd⟩

namespace OgrLevel

variable {lev : OgrLevel} {newbit : Bool} {m : ℕ → ℤ} {d : ℕ} {p : ℤ}

theorem reads_iff (hinc : ∀ i < d, ∀ j < i, m j < m i) (hle : ∀ j < d, m j ≤ p) :
    lev.Reads m d p ↔ lev.Shows m d p ∧ lev.Lists m d p := by
  have hblocked (k : ℕ) := blocked_iff (w := 256) (q := p + (k + 1)) hinc fun j hj ↦ by
    have := hle j hj
    omega
  constructor
  · rintro ⟨hlist, hdist, hcomp⟩
    refine ⟨⟨fun k hk ↦ ?_, fun k ↦ ?_⟩, fun k hk ↦ ?_⟩
    · have := hdist (k + 1) (by omega) (by omega)
      rwa [Nat.add_sub_cancel, Nat.cast_add, Nat.cast_one] at this
    · rw [hblocked]
      rcases Nat.lt_or_ge k 256 with hk | hk
      · have := hcomp (k + 1) (by omega) (by omega)
        rwa [Nat.add_sub_cancel, Nat.cast_add, Nat.cast_one] at this
      · -- no distance from a mark to a place so far ahead fits the bitmap
        rw [BMap.bit_of_ge _ hk]
        refine iff_of_false Bool.false_ne_true ?_
        rintro ⟨j, hj, hfar, -⟩
        have := hle j hj
        omega
    · have := hlist (k + 1) (by omega) (by omega)
      rwa [Nat.add_sub_cancel, Nat.cast_add, Nat.cast_one] at this
  · rintro ⟨⟨hdist, hcomp⟩, hlist⟩
    refine ⟨fun k hk hk' ↦ ?_, fun k hk hk' ↦ ?_, fun k hk hk' ↦ ?_⟩
    all_goals
      obtain ⟨k, rfl⟩ := Nat.exists_eq_add_of_le' hk
      rw [Nat.add_sub_cancel, Nat.cast_add, Nat.cast_one]
    · exact hlist k hk'
    · exact hdist k hk'
    · exact (hcomp k).trans (hblocked k)

end OgrLevel

/-! ## Readings of all levels -/

/-- The levels up to `d`, as far as they are below the last, read as they should: those below `d`
at their marks, and level `d` at `p`. -/
def ReadsBelow (o : OgrState) (levels : ℕ → OgrLevel) (d : ℕ) (p : ℤ) : Prop :=
  ∀ i ≤ d, i < o.maxdepthm1 →
    (levels i).Reads (marks levels) i (if i = d then p else marks levels i)

variable {o : OgrState} {pchoose : ℕ → U16}

theorem Standing.readsBelow {levels : ℕ → OgrLevel} {d : ℕ} {p : ℤ} {newbit : Bool}
    (h : Standing o pchoose levels d p newbit) : ReadsBelow o levels d p := by
  intro i hi hlast
  have hinc (j : ℕ) (hj : j < i) : ∀ k < j, marks levels k < marks levels j :=
    (h.before j (hj.trans_le hi) (hj.trans hlast).le).above
  split_ifs with hd
  · subst hd
    have hhere := h.here hlast.le
    exact (OgrLevel.reads_iff hinc (h.ge hlast.le)).mpr ⟨hhere.shows, hhere.lists hlast⟩
  · have hplaced := h.before i (lt_of_le_of_ne hi hd) hlast.le
    exact (OgrLevel.reads_iff hinc fun j hj ↦ (hplaced.above j hj).le).mpr
      ⟨hplaced.shows, hplaced.lists hlast⟩

namespace CycleState

/-- The positions of the search in any sequence of calls: where it is taken up, and after each turn;
a call that has spent its budget is followed by another. -/
inductive Reached (o : OgrState) (pchoose : ℕ → U16) : CycleState → Prop
  | resume {nodes} (pos : 0 < nodes) : Reached o pchoose (resume o nodes)
  | next {s t} (reached : Reached o pchoose s) (turn : s.turn o pchoose = .next t) :
      Reached o pchoose t
  | again {s t depth nodes} (reached : Reached o pchoose s)
      (turn : s.turn o pchoose = .stop CORE_S_CONTINUE depth t) (pos : 0 < nodes) :
      Reached o pchoose (CycleState.resume { o with depth := depth, levels := t.levels } nodes)

theorem Reached.inv {s : CycleState} (h : Reached o pchoose s) (hready : o.Ready pchoose) :
    s.Inv o pchoose := by
  induction h with
  | resume pos => exact hready.resume _ pos
  | next reached turn ih => exact ih.turn hready.stop turn
  | again reached turn pos ih =>
    rcases ih.stops hready.stop turn with ⟨-, hagain⟩ | ⟨hne, -⟩ | hne
    · obtain ⟨hstanding, hlimit, hstop, hnodes⟩ := hagain.resume _ pos
      exact ⟨hstanding.static o.startdepth o.stopdepth o.depth o.levels, hlimit, hstop, hnodes⟩
    · exact absurd hne (by decide)
    · exact absurd hne (by decide)

/-- Where the search stands, the levels read as they should, and so they do after whatever it does
next: a shift, over a word or less, a push, a step back, or the end of the call. -/
structure KeepsReading (o : OgrState) (pchoose : ℕ → U16) (s : CycleState) : Prop where
  here : ReadsBelow o s.levels s.depth s.mark
  skip : ∀ t, s.move = .skip t → ReadsBelow o t.levels t.depth t.mark
  place : ∀ t, s.move = .place t → ReadsBelow o t.levels t.depth t.mark
  push : ∀ t, s.move = .place t →
    ReadsBelow o (t.push o pchoose).levels (t.push o pchoose).depth (t.push o pchoose).mark
  pop : ∀ t, s.pop o = .next t → ReadsBelow o t.levels t.depth t.mark
  stop : ∀ code depth t, s.turn o pchoose = .stop code depth t →
    ReadsBelow o t.levels t.depth t.mark

private theorem Inv.move {s t : CycleState} (h : s.Inv o pchoose)
    (hmove : s.move = .skip t ∨ s.move = .place t) :
    Standing o pchoose t.levels t.depth t.mark t.newbit := by
  rcases s.move_cases with ⟨hlimit, -⟩ | ⟨lev', hskip, hreach, -⟩ | ⟨lev', n, hplace, hreach, -⟩
  · rw [hlimit] at hmove
    rcases hmove with hmove | hmove <;> exact nomatch hmove
  · rw [hskip] at hmove
    rcases hmove with hmove | hmove
    · cases hmove
      exact h.standing.moved hreach.moved hreach.pos (hreach.le.trans_eq h.limit)
    · exact nomatch hmove
  · rw [hplace] at hmove
    rcases hmove with hmove | hmove
    · exact nomatch hmove
    · cases hmove
      exact h.standing.moved hreach.moved hreach.pos (hreach.le.trans_eq h.limit)

private theorem Inv.push {s t : CycleState} (h : s.Inv o pchoose) (hmove : s.move = .place t) :
    Standing o pchoose (t.push o pchoose).levels (t.push o pchoose).depth (t.push o pchoose).mark
      true := by
  rcases s.move_cases with ⟨hlimit, -⟩ | ⟨lev', hskip, -, -⟩ | ⟨lev', n, hplace, hreach, hfree⟩
  · rw [hlimit] at hmove
    exact nomatch hmove
  · rw [hskip] at hmove
    exact nomatch hmove
  · rw [hplace] at hmove
    cases hmove
    rw [push_movedTo]
    exact h.standing.push (h.fits hreach hfree)

theorem Inv.keepsReading {s : CycleState} (h : s.Inv o pchoose) (hstop : -1 ≤ o.stopdepth) :
    s.KeepsReading o pchoose := by
  refine ⟨h.standing.readsBelow, fun t hmove ↦ (h.move (.inl hmove)).readsBelow,
    fun t hmove ↦ (h.move (.inr hmove)).readsBelow, fun t hmove ↦ (h.push hmove).readsBelow,
    fun t hpop ↦ ?_, fun code depth t hturn ↦ ?_⟩
  · rw [CycleState.pop] at hpop
    split_ifs at hpop with hlt
    cases hpop
    have hdepth : ((s.depth : ℤ) - 1).toNat = s.depth - 1 := by omega
    rw [hdepth]
    exact (h.standing.pop (by omega)).readsBelow
  · -- the level where the search comes out has its mark set
    have hlevels : ∀ depth' s', s.step o pchoose = .exit depth' s' →
        ReadsBelow o s'.levels s'.depth s'.mark := by
      intro depth' s' hexit
      rw [step] at hexit
      cases hmove : s.move with
      | limit =>
        rw [hmove] at hexit
        dsimp only [CycleState.pop] at hexit
        split_ifs at hexit
        cases hexit
        exact h.standing.readsBelow
      | skip t =>
        rw [hmove] at hexit
        cases hexit
      | place t =>
        rw [hmove] at hexit
        dsimp only at hexit
        split_ifs at hexit
        · cases hexit
          exact (h.move (.inr hmove)).setMark.readsBelow
        · cases hexit
          exact (h.push hmove).setMark.readsBelow
    cases hstep : s.step o pchoose with
    | next s' =>
      rw [CycleState.turn, hstep] at hturn
      cases hturn
    | exit depth' s' =>
      rw [CycleState.turn, hstep] at hturn
      have hread := hlevels depth' s' hstep
      dsimp only [settle] at hturn
      split_ifs at hturn <;> cases hturn <;> exact hread

end CycleState

/-! ## The search -/

/-- Each mark that `ogrCreate` places leaves the levels as they should read. -/
def RebuildReads (pchoose : ℕ → U16) (workstub : OgrWorkStub) : Prop :=
  ∀ n ≤ workstub.placed, ∃ levels,
    createLoop (initialState workstub) pchoose workstub.stub.diffs n 1 0 true
      (topLevels (initialState workstub) pchoose) = .ok levels ∧
    ReadsBelow (initialState workstub) levels (n + 1) (stubMark workstub.stub.diffs n)

/-- **The bitmaps say what they should** in every state that the search reaches. -/
theorem bitmaps_read {cacheHealthy : Bool} {workstub : OgrWorkStub} {lastSegment : ℤ}
    (hdiffs : ∀ i < workstub.placed, 0 < stubDiff workstub.stub.diffs i)
    (hcreate : ogrCreate pchoose cacheHealthy workstub lastSegment = .ok o) :
    RebuildReads pchoose workstub ∧
      ∀ s, CycleState.Reached o pchoose s → s.KeepsReading o pchoose := by
  have hready := (created_of_ogrCreate hdiffs hcreate).ready
  refine ⟨fun n hn ↦ ?_, fun s hs ↦ (hs.inv hready).keepsReading hready.stop⟩
  have hmin := (ogrCreate_eq_ok_iff.mp hcreate).1
  obtain ⟨levels', hwhole, -⟩ := (ogrCreate_eq_ok_iff.mp hcreate).2.2.2.2
  obtain ⟨levels, hloop⟩ := createLoop_take hn ⟨levels', hwhole⟩
  have hstub := createLoop_standing (stubStanding_topLevels hmin) (fun i hi ↦ hdiffs i (by omega))
    hloop
  rw [Nat.zero_add] at hstub
  exact ⟨levels, hloop, hstub.standing.readsBelow⟩

theorem bitmaps_read_two_marks : ∃ o, RebuildReads (fun _ ↦ 333#16) (.ofDiffs 24 2 2 [3, 5]) ∧
    ∀ s, CycleState.Reached o (fun _ ↦ 333#16) s → s.KeepsReading o (fun _ ↦ 333#16) := by
  obtain ⟨o, ho⟩ : ∃ o, ogrCreate (fun _ ↦ 333#16) true (.ofDiffs 24 2 2 [3, 5]) 0 = .ok o :=
    exists_created (by decide +kernel)
  exact ⟨o, bitmaps_read (by decide +kernel) ho⟩

end Hyunjin
