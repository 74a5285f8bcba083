import Hyunjin.Ogr.Cores
import Mathlib.Data.Prod.Lex

/-!
# Calls of the memory-based core return

Every step spends a node, goes back a level or moves the mark towards the limit, and so does a round
that passes over a ruler: the next one starts at the level where the ruler was found, with its mark
moved. So one measure, `CycleState64.rank`, bounds the steps of all rounds of a call.

Fuel enough for a result is enough for ever: each lemma gives a result and a bound from which on it
is the result.
-/

namespace Hyunjin

namespace CycleState64

variable {R : Type} {s t : CycleState64 MemoryVars}

/-- The nodes, the depth and the room for the mark. -/
def rank (s : CycleState64 R) : ℕ ×ₗ ℕ ×ₗ ℕ :=
  toLex (s.nodes.toNat, toLex (s.depth, (s.limit - s.mark).toNat))

theorem rank_lt_iff {s t : CycleState64 R} : t.rank < s.rank ↔
    t.nodes.toNat < s.nodes.toNat ∨ t.nodes.toNat = s.nodes.toNat ∧
      (t.depth < s.depth ∨
        t.depth = s.depth ∧ (t.limit - t.mark).toNat < (s.limit - s.mark).toNat) := by
  rw [rank, rank, Prod.Lex.toLex_lt_toLex, Prod.Lex.toLex_lt_toLex]

/-- The search goes on, not at level 0, and its limit is that of the level. -/
structure Live (s : CycleState64 R) : Prop where
  nodes : 0 < s.nodes
  deep : 0 < s.depth
  limit : s.limit = (s.levels s.depth).limit

/-- A search that is taken up where one has stopped. -/
def resumeAt (o : OgrState64) (depth : ℤ) (s : CycleState64 MemoryVars) :
    CycleState64 MemoryVars :=
  start memoryMacros { o with depth := depth, levels := s.levels } s.nodes

private theorem live_start {o : OgrState64} (hdepth : 0 < o.depth) {nodes : ℤ}
    (hnodes : 0 < nodes) : (start memoryMacros o nodes).Live :=
  ⟨hnodes, Int.lt_toNat.mpr hdepth, rfl⟩

/-- What a move comes to. -/
private theorem Live.move (h : s.Live) (hmove : s.move memoryMacros ≠ .limit) :
    ∃ t, (s.move memoryMacros = .skip t ∨ s.move memoryMacros = .place t) ∧ t.Live ∧
      t.nodes = s.nodes ∧ t.depth = s.depth ∧ t.limit = s.limit ∧ s.mark < t.mark ∧
      t.mark ≤ t.limit := by
  obtain ⟨levels, depth, mark, limit, u, nodes⟩ := s
  obtain ⟨hnodes, hdeep, hlimit⟩ := h
  dsimp only at hnodes hdeep hlimit
  have hself (lev : OgrLevel64) : (Function.update levels depth lev depth) = lev :=
    Function.update_self ..
  simp only [CycleState64.move] at hmove ⊢
  split_ifs at hmove ⊢ with hblank hstuck hstuck hall
  · exact absurd rfl hmove
  · obtain ⟨hpos, -, -⟩ := lookupFirstblank64_spec hblank
    refine ⟨_, .inr rfl, ⟨hnodes, hdeep, ?_⟩, rfl, rfl, rfl, ?_, not_lt.mp hstuck⟩
    · dsimp only
      rw [hself]
      exact hlimit
    · exact lt_add_of_pos_right mark (Int.natCast_pos.mpr hpos)
  · exact absurd rfl hmove
  · refine ⟨_, .inl rfl, ⟨hnodes, hdeep, ?_⟩, rfl, rfl, rfl, lt_add_of_pos_right mark (by decide),
      not_lt.mp hstuck⟩
    dsimp only
    rw [hself]
    exact hlimit
  · refine ⟨_, .inr rfl, ⟨hnodes, hdeep, ?_⟩, rfl, rfl, rfl, lt_add_of_pos_right mark (by decide),
      not_lt.mp hstuck⟩
    dsimp only
    rw [hself]
    exact hlimit

/-- What a step or more come to: a search with less to do, which may be the one that is taken up
where this one stops, or one whose nodes are spent. -/
def Stops (o : OgrState64) (s : CycleState64 MemoryVars) (depth : ℤ)
    (t : CycleState64 MemoryVars) : Prop :=
  t.nodes = 0 ∨ 0 < t.nodes ∧ (0 < depth → (resumeAt o depth t).rank < s.rank)

/-- **A step** leaves less to do. -/
private theorem Live.step (h : s.Live) {o : OgrState64} (hstop : 0 ≤ o.stopdepth)
    (pchoose : ℕ → U16) :
    (∃ t, s.step memoryMacros o pchoose = .next t ∧ t.Live ∧ t.rank < s.rank) ∨
      ∃ depth t, s.step memoryMacros o pchoose = .exit depth t ∧ Stops o s depth t := by
  rw [CycleState64.step]
  by_cases hmove : s.move memoryMacros = .limit
  · rw [hmove]
    obtain ⟨levels, depth, mark, limit, u, nodes⟩ := s
    rcases depth with _ | d
    · exact absurd h.deep (Nat.lt_irrefl 0)
    · dsimp only [CycleState64.pop]
      split_ifs with hlt
      · refine .inl ⟨_, rfl, ⟨h.nodes, Int.natCast_pos.mp (hstop.trans_lt hlt), rfl⟩, ?_⟩
        exact rank_lt_iff.mpr (.inr ⟨rfl, .inl (Nat.lt_succ_self d)⟩)
      · refine .inr ⟨_, _, rfl, .inr ⟨h.nodes, fun _ ↦ ?_⟩⟩
        exact rank_lt_iff.mpr (.inr ⟨rfl, .inl (Nat.lt_succ_self d)⟩)
  · obtain ⟨t, ht | ht, hlive, hnodes, hdepth, hlimit, hlt, hle⟩ := h.move hmove
    · rw [ht]
      refine .inl ⟨t, rfl, hlive, rank_lt_iff.mpr (.inr ⟨by rw [hnodes], .inr ⟨hdepth, ?_⟩⟩)⟩
      omega
    · rw [ht]
      dsimp only
      have hpos := hlive.nodes
      have hnext : (t.push memoryMacros o pchoose).nodes = t.nodes - 1 := rfl
      split_ifs with hfull hspent
      · refine .inr ⟨_, _, rfl, .inr ⟨hpos, fun _ ↦ ?_⟩⟩
        -- the level where the ruler is complete, with its mark moved
        have hlevel : (t.setMark.save memoryMacros).levels t.depth =
            { t.levels t.depth with mark := t.mark } :=
          (Function.update_self ..).trans (Function.update_self ..)
        have hlimit' := hlive.limit
        refine rank_lt_iff.mpr (.inr ⟨congrArg Int.toNat hnodes, .inr ⟨hdepth, ?_⟩⟩)
        simp only [resumeAt, start, Int.toNat_natCast, hlevel]
        omega
      · refine .inr ⟨_, _, rfl, .inl ?_⟩
        change (t.push memoryMacros o pchoose).nodes = 0
        omega
      · refine .inl ⟨_, rfl, ⟨not_le.mp hspent, Nat.succ_pos t.depth, ?_⟩,
          rank_lt_iff.mpr (.inl ?_)⟩
        · have hself : (t.push memoryMacros o pchoose).levels (t.depth + 1) = _ :=
            Function.update_self ..
          exact (congrArg OgrLevel64.limit hself).symm
        · omega

/-- **The steps come to an end.** -/
private theorem Live.loop (h : s.Live) {o : OgrState64} (hstop : 0 ≤ o.stopdepth)
    (pchoose : ℕ → U16) :
    ∃ N depth t, Stops o s depth t ∧
      ∀ fuel, N ≤ fuel → loop memoryMacros o pchoose fuel s = some (depth, t) := by
  generalize hrank : s.rank = r
  induction r using WellFoundedLT.induction generalizing s with
  | ind r ih =>
    subst hrank
    rcases h.step hstop pchoose with ⟨t, ht, hlive, hlt⟩ | ⟨depth, t, ht, hstops⟩
    · obtain ⟨N, depth, u, hu, hloop⟩ := ih _ hlt hlive rfl
      refine ⟨N + 1, depth, u, ?_, fun fuel hfuel ↦ ?_⟩
      · exact hu.imp_right fun ⟨hpos, hresume⟩ ↦ ⟨hpos, fun hdepth ↦ (hresume hdepth).trans hlt⟩
      · obtain ⟨fuel, rfl⟩ := Nat.exists_eq_add_of_lt hfuel
        rw [CycleState64.loop, ht]
        exact hloop _ (Nat.le_add_right N fuel)
    · refine ⟨1, depth, t, hstops, fun fuel hfuel ↦ ?_⟩
      obtain ⟨fuel, rfl⟩ := Nat.exists_eq_add_of_le' hfuel
      rw [CycleState64.loop, ht]

end CycleState64

open CycleState64

/-- **The rounds of a call come to an end.** -/
private theorem entryLoop64_returns {o : OgrState64} (hstop : 0 ≤ o.stopdepth)
    (hlast : 0 < o.maxdepthm1) (hdepth : 0 < o.depth) {pnodes nodesDone : ℤ}
    (hpos : 0 < pnodes - nodesDone) (pchoose : ℕ → U16) :
    ∃ N r, ∀ fuel rounds, N ≤ fuel → N ≤ rounds →
      entryLoop64 memoryMacros pchoose fuel pnodes rounds nodesDone o = some r := by
  generalize hrank : (start memoryMacros o (pnodes - nodesDone)).rank = r
  induction r using WellFoundedLT.induction generalizing o nodesDone with
  | ind r ih =>
    subst hrank
    obtain ⟨N, depth, t, hstops, hloop⟩ := (live_start hdepth hpos).loop hstop pchoose
    have hcycle {fuel : ℕ} (hfuel : N ≤ fuel) :
        ogrCycle256Core64 memoryMacros pchoose fuel o (pnodes - nodesDone) =
          some (depth, pnodes - nodesDone - t.nodes, t.levels) := by
      rw [ogrCycle256Core64, hloop fuel hfuel, Option.map_some]
    by_cases hround : (depth = o.maxdepthm1 ∧ pnodes - nodesDone - t.nodes ≠ pnodes - nodesDone) ∧
        2 * OGRNG_BITMAPS_LENGTH < (t.levels depth.toNat).mark ∧
          foundOne ({ o with depth := depth, levels := t.levels } : OgrState64).skeleton = 0
    · obtain ⟨hfound, hreject⟩ := hround
      -- the next round has less to do
      have hdone : pnodes - (nodesDone + (pnodes - nodesDone - t.nodes)) = t.nodes := by omega
      obtain hzero | ⟨hpos', hlt⟩ := hstops
      · exact absurd (by rw [hzero, sub_zero]) hfound.2
      · have hdeep : 0 < depth := by omega
        obtain ⟨N', r, hrest⟩ := ih _ (hlt hdeep)
          (o := { o with depth := depth, levels := t.levels }) hstop hlast hdeep (by rwa [hdone])
          (by rw [hdone]; rfl)
        refine ⟨max N N' + 1, r, fun fuel rounds hfuel hrounds ↦ ?_⟩
        obtain ⟨rounds, rfl⟩ := Nat.exists_eq_add_of_le' (Nat.le_of_add_left_le hrounds)
        rw [entryLoop64, hcycle (by omega)]
        dsimp only
        rw [if_pos hfound, if_pos hreject]
        exact hrest fuel rounds (by omega) (by omega)
    · have hround' : ∃ r, ∀ fuel rounds, N ≤ fuel →
          entryLoop64 memoryMacros pchoose fuel pnodes (rounds + 1) nodesDone o = some r := by
        by_cases hfound : depth = o.maxdepthm1 ∧ pnodes - nodesDone - t.nodes ≠ pnodes - nodesDone
        · refine ⟨(CORE_S_SUCCESS, nodesDone + (pnodes - nodesDone - t.nodes),
            { o with depth := o.stopdepth - 1, levels := t.levels }), fun fuel rounds hfuel ↦ ?_⟩
          rw [entryLoop64, hcycle hfuel]
          dsimp only
          rw [if_pos hfound, if_neg fun hreject ↦ hround ⟨hfound, hreject⟩]
        · refine ⟨(if depth ≤ o.stopdepth then CORE_S_OK else CORE_S_CONTINUE,
            nodesDone + (pnodes - nodesDone - t.nodes),
            { o with depth := depth - 1, levels := t.levels }), fun fuel rounds hfuel ↦ ?_⟩
          rw [entryLoop64, hcycle hfuel]
          dsimp only
          rw [if_neg hfound]
          split_ifs <;> rfl
      obtain ⟨r, hround'⟩ := hround'
      refine ⟨N + 1, r, fun fuel rounds hfuel hrounds ↦ ?_⟩
      obtain ⟨rounds, rfl⟩ := Nat.exists_eq_add_of_le' (Nat.le_of_add_left_le hrounds)
      exact hround' fuel rounds (by omega)

/-- **A call returns**, with the same result for all fuel that is enough, if the search does not go
back beyond level 0. -/
theorem ogrCycleEntry64_returns {o : OgrState64} (hstop : 0 ≤ o.stopdepth)
    (hlast : 0 < o.maxdepthm1) (hdepth : 0 ≤ o.depth) {pnodes : ℤ} (hpos : 0 < pnodes)
    (pchoose : ℕ → U16) :
    ∃ N r, ∀ fuel, N ≤ fuel → ogrCycleEntry64 memoryMacros pchoose fuel o pnodes = some r := by
  have hpos' : 0 < pnodes - 0 := by rwa [sub_zero]
  obtain ⟨N, r, hreturns⟩ := entryLoop64_returns (o := { o with depth := o.depth + 1 }) hstop hlast
    (Int.lt_add_one_of_le hdepth) hpos' pchoose
  exact ⟨N, r, fun fuel hfuel ↦ hreturns fuel fuel hfuel hfuel⟩

end Hyunjin
