import Hyunjin.Ogr.Found

/-!
# Rulers that are not missed

A Golomb ruler within the limits is still ahead of the search if it first departs from the marks of
the levels at a level that is not given up yet, and to the right of the mark there. No turn leaves
such a ruler behind (`Inv.ahead`): a place that is skipped is blocked by the marks that the ruler
shares, and a ruler that is complete and Golomb is not rejected. So when the search is over nothing
is ahead.

The stub must leave a mark to be searched. At a stub of a whole ruler the search starts beyond it.
-/

namespace Hyunjin

open Ruler

variable {o o' : OgrState} {pchoose : ℕ → U16} {levels : ℕ → OgrLevel} {d : ℕ} {p : ℤ} {r : ℕ → ℤ}

/-- A Golomb ruler that keeps every mark within the limit of the search for it. -/
structure Admissible (o : OgrState) (pchoose : ℕ → U16) (r : ℕ → ℤ) : Prop where
  golomb : IsGolomb r o.maxdepthm1
  limit : ∀ i ≤ o.maxdepthm1, r i ≤ o.rulerLimit pchoose r i

/-- The ruler departs from the marks at level `k`, to the right. -/
structure AheadAt (o : OgrState) (levels : ℕ → OgrLevel) (d : ℕ) (p : ℤ) (r : ℕ → ℤ) (k : ℕ) :
    Prop where
  stop : o.stopdepth < k
  le : k ≤ d
  same : ∀ i < k, r i = marks levels i
  below : k < d → marks levels k < r k
  here : k = d → p < r k

def Ahead (o : OgrState) (levels : ℕ → OgrLevel) (d : ℕ) (p : ℤ) (r : ℕ → ℤ) : Prop :=
  ∃ k, AheadAt o levels d p r k

/-- The ruler departs from marks that are all placed, at level `k` or later. -/
private def DepartsBy (o : OgrState) (levels : ℕ → OgrLevel) (d : ℕ) (r : ℕ → ℤ) : Prop :=
  ∃ k : ℕ, o.stopdepth < k ∧ k ≤ d ∧ (∀ i < k, r i = marks levels i) ∧ marks levels k < r k

private theorem DepartsBy.ahead_succ (h : DepartsBy o levels d r) : Ahead o levels (d + 1) p r := by
  obtain ⟨k, hstop, hle, hsame, hlt⟩ := h
  exact ⟨k, hstop, hle.trans d.le_succ, hsame, fun _ ↦ hlt, fun heq ↦ by omega⟩

private theorem DepartsBy.ahead (h : DepartsBy o levels d r) : Ahead o levels d
    (marks levels d) r := by
  obtain ⟨k, hstop, hle, hsame, hlt⟩ := h
  exact ⟨k, hstop, hle, hsame, fun _ ↦ hlt, fun heq ↦ heq ▸ hlt⟩

/-- Only the levels below matter where the ruler departs below. -/
private theorem AheadAt.departsBy {levels' : ℕ → OgrLevel} {k : ℕ}
    (h : AheadAt o levels d p r k) (hlt : k < d) (hlevels : ∀ i < d, levels' i = levels i) :
    DepartsBy o levels' k r := by
  refine ⟨k, h.stop, le_rfl, fun i hi ↦ ?_, ?_⟩
  · rw [marks, hlevels i (hi.trans hlt)]
    exact h.same i hi
  · rw [marks, hlevels k hlt]
    exact h.below hlt

private theorem DepartsBy.mono {d' : ℕ} (h : DepartsBy o levels d r) (hd : d ≤ d') :
    DepartsBy o levels d' r := by
  obtain ⟨k, hstop, hle, hrest⟩ := h
  exact ⟨k, hstop, hle.trans hd, hrest⟩

/-- The ruler agrees with the marks below level `d`, and its mark `d` is beyond all blocked
places. -/
private theorem reach_of_ahead (hr : Admissible o pchoose r) (hd : d ≤ o.maxdepthm1)
    (hlevel : LevelAt o pchoose levels d p) (hahead : AheadAt o levels d p r d) {t : ℕ}
    (hblocked : ∀ k, k + 1 < t → (levels d).comp.bit k = true) : p + t ≤ r d := by
  by_contra hlt
  have hp := hahead.here rfl
  obtain ⟨e, he⟩ := Int.eq_ofNat_of_zero_le (by omega : 0 ≤ r d - p - 1)
  have hbit := (hlevel.shows.comp e).mp (hblocked e (by omega))
  rw [show p + (e + 1) = r d by omega] at hbit
  exact hr.golomb.not_blocked hd (hbit.congr fun i hi ↦ (hahead.same i hi).symm)

namespace CycleState

variable {s : CycleState}

/-- When the current mark is stuck, the ruler departs below. -/
private theorem Inv.lt_of_stuck (h : s.Inv o pchoose) (hr : Admissible o pchoose r)
    (hd : s.depth ≤ o.maxdepthm1) (hstuck : s.Stuck) {k : ℕ}
    (hahead : AheadAt o s.levels s.depth s.mark r k) : k < s.depth := by
  refine lt_of_le_of_ne hahead.le ?_
  rintro rfl
  obtain ⟨t, hlimit, hblocked⟩ := hstuck
  have hhere := h.standing.here hd
  have hreach := reach_of_ahead hr hd hhere hahead hblocked
  have hle : r s.depth ≤ s.limit := by
    rw [h.limit, hhere.limit, ← o.rulerLimit_congr pchoose hahead.same]
    exact hr.limit s.depth hd
  omega

/-- The current mark moved over places that are all blocked. -/
private theorem Inv.ahead_skip (h : s.Inv o pchoose) (hr : Admissible o pchoose r)
    (hd : s.depth ≤ o.maxdepthm1) (hahead : Ahead o s.levels s.depth s.mark r)
    {lev' : OgrLevel} {t : ℕ} (hblocked : ∀ k < t, s.level.comp.bit k = true) :
    Ahead o (s.movedTo lev' t).levels s.depth (s.mark + t) r := by
  have hlevels (i : ℕ) (hi : i < s.depth) : (s.movedTo lev' t).levels i = s.levels i :=
    Function.update_of_ne hi.ne _ _
  obtain ⟨k, hk⟩ := hahead
  rcases Nat.eq_or_lt_of_le hk.le with rfl | hlt
  · have hreach : s.mark + (t + 1 : ℕ) ≤ r s.depth :=
      reach_of_ahead hr hd (h.standing.here hd) hk fun e he ↦ hblocked e (Nat.lt_of_succ_lt_succ he)
    refine ⟨s.depth, hk.stop, le_rfl, fun i hi ↦ ?_, fun habs ↦ absurd habs (Nat.lt_irrefl _),
      fun _ ↦ by omega⟩
    rw [marks, hlevels i hi]
    exact hk.same i hi
  · obtain ⟨e, hstop, hle, hsame, hbelow⟩ := hk.departsBy hlt hlevels
    exact ⟨e, hstop, hle.trans hlt.le, hsame, fun _ ↦ hbelow, fun heq ↦ by omega⟩

/-- The current mark placed at the first place that is not blocked: the ruler has this mark too, or
departs here or below. -/
private theorem Inv.ahead_place (h : s.Inv o pchoose) (hr : Admissible o pchoose r)
    (hd : s.depth ≤ o.maxdepthm1) (hahead : Ahead o s.levels s.depth s.mark r)
    {lev' : OgrLevel} {t : ℕ} (reach : s.Reaches lev' t) {levels' : ℕ → OgrLevel}
    (hlevels : ∀ i < s.depth, levels' i = s.levels i) (hself : marks levels' s.depth = s.mark + t) :
    (∀ i ≤ s.depth, r i = marks levels' i) ∨ DepartsBy o levels' s.depth r := by
  obtain ⟨k, hk⟩ := hahead
  rcases Nat.eq_or_lt_of_le hk.le with rfl | hkd
  · have hsame (i : ℕ) (hi : i < s.depth) : r i = marks levels' i := by
      rw [marks, hlevels i hi]
      exact hk.same i hi
    rcases (reach_of_ahead hr hd (h.standing.here hd) hk reach.ahead).eq_or_lt with heq | hgt
    · refine .inl fun i hi ↦ ?_
      rcases Nat.eq_or_lt_of_le hi with rfl | hi
      · exact heq.symm.trans hself.symm
      · exact hsame i hi
    · exact .inr ⟨s.depth, hk.stop, le_rfl, hsame, hself.trans_lt hgt⟩
  · exact .inr ((hk.departsBy hkd hlevels).mono hkd.le)

/-- The same, with the next level set up. -/
private theorem Inv.ahead_push (h : s.Inv o pchoose) (hstop : o.stopdepth < s.depth)
    (hr : Admissible o pchoose r) (hd : s.depth < o.maxdepthm1)
    (hahead : Ahead o s.levels s.depth s.mark r) {lev' : OgrLevel} {t : ℕ}
    (reach : s.Reaches lev' t) {levels' : ℕ → OgrLevel}
    (hlevels : ∀ i < s.depth, levels' i = s.levels i) (hself : marks levels' s.depth = s.mark + t) :
    Ahead o levels' (s.depth + 1) (s.mark + t) r := by
  rcases h.ahead_place hr hd.le hahead reach hlevels hself with hsame | hdeparts
  · refine ⟨s.depth + 1, by omega, le_rfl, fun i hi ↦ hsame i (Nat.lt_succ_iff.mp hi),
      fun habs ↦ absurd habs (Nat.lt_irrefl _), fun _ ↦ ?_⟩
    rw [← hself, ← hsame s.depth le_rfl]
    exact hr.golomb.increasing s.depth hd
  · exact hdeparts.ahead_succ

/-- **No ruler is left behind** by a turn, and when the search is over none is ahead. -/
theorem Inv.ahead (h : s.Inv o pchoose) (hstop : -1 ≤ o.stopdepth)
    (hlast : o.stopdepth < o.maxdepthm1) (hr : Admissible o pchoose r)
    (hd : s.depth ≤ o.maxdepthm1) (hahead : Ahead o s.levels s.depth s.mark r) :
    match s.turn o pchoose with
    | .next t => t.depth ≤ o.maxdepthm1 ∧ Ahead o t.levels t.depth t.mark r
    | .stop code depth t => code ≠ CORE_S_OK ∧ (code = CORE_S_CONTINUE →
        (depth + 1).toNat ≤ o.maxdepthm1 ∧
        Ahead o t.levels (depth + 1).toNat (marks t.levels (depth + 1).toNat) r) := by
  have hdoes := does_turn o hstop pchoose s
  have hstop' : o.stopdepth < s.depth := h.stop.elim id fun heq ↦ by omega
  generalize s.turn o pchoose = res at hdoes
  cases hdoes with
  | @skip lev' reach blocked =>
    refine ⟨hd, h.ahead_skip hr hd hahead fun k hk ↦ ?_⟩
    rcases Nat.lt_succ_iff_lt_or_eq.mp hk with hlt | rfl
    · exact reach.ahead k (by omega)
    · exact blocked
  | @push lev' t reach free depth nodes =>
    have hlt : s.depth < o.maxdepthm1 := lt_of_le_of_ne hd depth
    rw [push_movedTo]
    refine ⟨hlt, h.ahead_push hstop' hr hlt hahead reach
      (fun i hi ↦ o.pushLevel_below pchoose s.levels lev' _ hi) ?_⟩
    exact congrArg OgrLevel.mark (o.pushLevel_self pchoose s.levels s.depth lev' _)
  | @spent lev' t reach free depth nodes =>
    have hlt : s.depth < o.maxdepthm1 := lt_of_le_of_ne hd depth
    have hnodes : ((s.movedTo lev' t).push o pchoose).setMark.nodes = 0 := by
      have := h.nodes
      rw [push_movedTo]
      dsimp only [setMark]
      omega
    have hdepth : ((s.depth : ℤ) + 1 - 1 + 1).toNat = s.depth + 1 := by omega
    rw [settle, if_neg fun hfound ↦ hfound.2 hnodes, if_neg (by omega)]
    refine ⟨by decide, fun _ ↦ ?_⟩
    rw [hdepth, setMark_push_movedTo]
    rw [show marks (Function.update _ _ _) (s.depth + 1) = s.mark + t by
      rw [marks, Function.update_self]]
    refine ⟨hlt, h.ahead_push hstop' hr hlt hahead reach (fun i hi ↦ ?_) ?_⟩
    · rw [Function.update_of_ne (by omega), o.pushLevel_below pchoose s.levels lev' _ hi]
    · rw [marks, Function.update_of_ne (by omega), o.pushLevel_self]
  | @last lev' t reach free depth =>
    have hmarks : marks (s.movedTo lev' t).setMark.levels s.depth = s.mark + t := by
      rw [marks, setMark_movedTo, Function.update_self]
    have hplace := h.ahead_place hr hd hahead reach
      (fun i hi ↦ by rw [setMark_movedTo, Function.update_of_ne hi.ne]) hmarks
    rw [depth] at hplace
    rw [depth, settle, if_pos ⟨rfl, h.nodes.ne'⟩, Int.toNat_natCast]
    split_ifs with hreject
    · refine ⟨(Int.toNat_natCast _).le, ?_⟩
      rcases hplace with hsame | hdeparts
      · -- the ruler itself has been found, and it is Golomb
        have hgolomb : IsGolomb (marks (s.movedTo lev' t).setMark.levels) o.maxdepthm1 :=
          ⟨hr.golomb.increasing.congr hsame, hr.golomb.distinct.congr hsame⟩
        exact absurd hreject.2 (foundOne_of_isGolomb hgolomb)
      · have hahead := hdeparts.ahead
        dsimp only [start]
        rwa [Int.toNat_natCast]
    · exact ⟨by decide, fun habs ↦ absurd habs (by decide)⟩
  | pop stuck stop pos =>
    obtain ⟨k, hk⟩ := hahead
    have hkd := h.lt_of_stuck hr hd stuck hk
    refine ⟨(Nat.sub_le _ 1).trans hd, ?_⟩
    exact ((hk.departsBy hkd fun _ _ ↦ rfl).mono (Nat.le_sub_one_of_lt hkd)).ahead
  | ends stuck stop =>
    obtain ⟨k, hk⟩ := hahead
    have hkd := h.lt_of_stuck hr hd stuck hk
    have := hk.stop
    omega

end CycleState

/-! ## Completeness -/

/-- The ruler is ahead of the search between calls. -/
private def AheadOf (o : OgrState) (r : ℕ → ℤ) : Prop :=
  (o.depth + 1).toNat ≤ o.maxdepthm1 ∧
    Ahead o o.levels (o.depth + 1).toNat (marks o.levels (o.depth + 1).toNat) r

private theorem Calls.not_ok {total : ℤ} (hcalls : Calls pchoose o total CORE_S_OK o')
    (h : o.Ready pchoose) (hlast : o.stopdepth < o.maxdepthm1) (hr : Admissible o pchoose r) :
    ¬AheadOf o r := by
  generalize hcode : CORE_S_OK = code at hcalls
  -- what one call does with a ruler that is ahead
  have hcall {o : OgrState} (h : o.Ready pchoose) (hlast : o.stopdepth < o.maxdepthm1)
      (hr : Admissible o pchoose r) (hahead : AheadOf o r) {fuel : ℕ} {pnodes code spent : ℤ}
      {o' : OgrState} (hpos : 0 < pnodes)
      (hcall : ogrCycleEntry pchoose fuel o pnodes = some (code, spent, o')) :
      code ≠ CORE_S_OK ∧ (code = CORE_S_CONTINUE →
        o'.stopdepth < o'.maxdepthm1 ∧ Admissible o' pchoose r ∧ AheadOf o' r) := by
    obtain ⟨depth, s, hruns, -, rfl⟩ := CycleState.runs_of_ogrCycleEntry hcall
    obtain ⟨t, ⟨ht, hd, hahead⟩, hturn⟩ := hruns.induct
      (I := fun s ↦ s.Inv o pchoose ∧ s.depth ≤ o.maxdepthm1 ∧ Ahead o s.levels s.depth s.mark r)
      ⟨h.resume pnodes hpos, hahead⟩ fun s t ⟨hs, hd, hahead⟩ hturn ↦ by
        have hnext := hs.ahead h.stop hlast hr hd hahead
        rw [hturn] at hnext
        exact ⟨hs.turn h.stop hturn, hnext⟩
    have hend := ht.ahead h.stop hlast hr hd hahead
    rw [hturn] at hend
    refine ⟨hend.1, fun hcontinue ↦ ⟨hlast, ⟨hr.golomb, hr.limit⟩, ?_⟩⟩
    obtain ⟨hle, k, hk⟩ := hend.2 hcontinue
    exact ⟨hle, k, hk.stop, hk.le, hk.same, hk.below, hk.here⟩
  induction hcalls with
  | last pos call =>
    intro hahead
    exact (hcall h hlast hr hahead pos call).1 hcode.symm
  | more pos call rest ih =>
    intro hahead
    obtain ⟨hlast', hr', hahead'⟩ := (hcall h hlast hr hahead pos call).2 rfl
    obtain ⟨-, ⟨-, hready⟩ | ⟨hne, -⟩ | hne⟩ := h.call pos call
    · exact ih hready hlast' hr' hcode hahead'
    · exact absurd hne (by decide)
    · exact absurd hne (by decide)

/-- The ruler has the first `n` marks, or comes after them in the order of the search. -/
def AtOrAfter (m : ℕ → ℤ) (n : ℕ) (r : ℕ → ℤ) : Prop :=
  (∀ i ≤ n, r i = m i) ∨ ∃ k ≤ n, (∀ i < k, r i = m i) ∧ m k < r k

/-- **Completeness of the search.** When the calls end with `CORE_S_OK`, no Golomb ruler within the
limits extends the marks of the stub that are fixed and comes at or after the stub, if the stub
leaves a mark to be searched. -/
theorem ok_exhausted {cacheHealthy : Bool} {workstub : OgrWorkStub} {lastSegment total : ℤ}
    (hdiffs : ∀ i < workstub.placed, 0 < stubDiff workstub.stub.diffs i)
    (hcreate : ogrCreate pchoose cacheHealthy workstub lastSegment = .ok o)
    (hplaced : workstub.placed < o.maxdepthm1)
    (hcalls : Calls pchoose o total CORE_S_OK o') :
    ¬∃ r, Admissible o pchoose r ∧
      (∀ i : ℕ, (i : ℤ) ≤ o.stopdepth → r i = stubMark workstub.stub.diffs i) ∧
      AtOrAfter (stubMark workstub.stub.diffs) workstub.placed r := by
  have hcreated := created_of_ogrCreate hdiffs hcreate
  have hdepth : (o.depth + 1).toNat = workstub.placed + 1 := by
    have := hcreated.depth
    omega
  have hle := hcreated.stop_le
  rintro ⟨r, hr, hfixed, hafter⟩
  refine hcalls.not_ok hcreated.ready (by omega) hr ?_
  rw [AheadOf, hdepth, show marks o.levels (workstub.placed + 1) = _ from hcreated.stub.fresh]
  refine ⟨hplaced, ?_⟩
  rcases hafter with hsame | ⟨k, hk, hsame, hlt⟩
  · refine ⟨workstub.placed + 1, by omega, le_rfl, fun i hi ↦ ?_,
      fun habs ↦ absurd habs (Nat.lt_irrefl _), fun _ ↦ ?_⟩
    · rw [hsame i (Nat.lt_succ_iff.mp hi), hcreated.stub.placed i (Nat.lt_succ_iff.mp hi)]
    · rw [← hsame workstub.placed le_rfl]
      exact hr.golomb.increasing workstub.placed hplaced
  · refine ⟨k, ?_, by omega, fun i hi ↦ ?_, fun _ ↦ ?_, fun heq ↦ by omega⟩
    · by_contra hstop
      exact hlt.ne' (hfixed k (not_lt.mp hstop))
    · rw [hsame i hi, hcreated.stub.placed i (by omega)]
    · rwa [hcreated.stub.placed k hk]

/-- With a limit of 332 no ruler of 21 marks completes the stub of the shortest. -/
theorem ok_exhausted_shortest :
    ∃ (o o' : OgrState) (total : ℤ), Calls (fun _ ↦ 332#16) o total CORE_S_OK o' ∧
      ¬∃ r, Admissible o (fun _ ↦ 332#16) r ∧
        (∀ i : ℕ, (i : ℤ) ≤ o.stopdepth → r i = stubMark shortestStub.stub.diffs i) ∧
        AtOrAfter (stubMark shortestStub.stub.diffs) shortestStub.placed r := by
  have hrun : ((ogrCreate (fun _ ↦ 332#16) true shortestStub 0).toOption.bind fun o ↦
      (ogrCycleEntry (fun _ ↦ 332#16) 60 o 100).map fun r ↦
        (r.1, decide (shortestStub.placed < o.maxdepthm1))) = some (CORE_S_OK, true) := by
    decide +kernel
  obtain ⟨o, code, spent, o', hcreate, hcall, hres⟩ := exists_call hrun
  obtain ⟨rfl, hplaced⟩ := Prod.mk.inj hres
  have hdiffs : ∀ i < shortestStub.placed, 0 < stubDiff shortestStub.stub.diffs i := by
    decide +kernel
  have hcalls := Calls.last (by decide) hcall
  exact ⟨o, o', spent, hcalls, ok_exhausted hdiffs hcreate (of_decide_eq_true hplaced) hcalls⟩

/-- All differences of the shortest ruler of 21 marks, the last as work on the stub. -/
def wholeStub : OgrWorkStub :=
  .ofDiffs 21 19 20 [2, 22, 32, 21, 5, 1, 12, 34, 15, 35, 7, 9, 60, 10, 20, 8, 3, 14, 19, 4]

/-- **At a stub of a whole ruler** the search passes over that ruler. -/
theorem not_exhausted_of_whole_stub :
    ¬∀ (pchoose : ℕ → U16) (cacheHealthy : Bool) (workstub : OgrWorkStub) (lastSegment total : ℤ)
      (o o' : OgrState), (∀ i < workstub.placed, 0 < stubDiff workstub.stub.diffs i) →
      ogrCreate pchoose cacheHealthy workstub lastSegment = .ok o →
      Calls pchoose o total CORE_S_OK o' →
      ¬∃ r, Admissible o pchoose r ∧
        (∀ i : ℕ, (i : ℤ) ≤ o.stopdepth → r i = stubMark workstub.stub.diffs i) ∧
        AtOrAfter (stubMark workstub.stub.diffs) workstub.placed r := by
  intro hall
  have hrun : ((ogrCreate (fun _ ↦ 333#16) true wholeStub 0).toOption.bind fun o ↦
      (ogrCycleEntry (fun _ ↦ 333#16) 10 o 100).map fun r ↦
        (r.1, o.maxdepthm1, o.max, (o.levels 20).mark)) = some (CORE_S_OK, 20, 333, 333) := by
    decide +kernel
  obtain ⟨o, code, spent, o', hcreate, hcall, hres⟩ := exists_call hrun
  simp only [Prod.mk.injEq] at hres
  obtain ⟨rfl, hlast, hmax, hmark⟩ := hres
  have hdiffs : ∀ i < wholeStub.placed, 0 < stubDiff wholeStub.stub.diffs i := by decide +kernel
  have hplaced : wholeStub.placed = 20 := by decide
  have hcreated := created_of_ogrCreate hdiffs hcreate
  have hstub := hcreated.stub
  have hstop := hcreated.stop_le
  rw [hplaced] at hstub hstop
  -- the stub itself is a ruler that the search has placed
  have hfound : o.Found (fun _ ↦ 333#16) := by
    refine ⟨fun i hi ↦ hstub.standing.before i (by omega) hi, hstub.placed 0 (by decide),
      fun hlong ↦ ?_⟩
    rw [hlast, marks, hmark] at hlong
    exact absurd hlong (by decide)
  have hgolomb := hfound.isGolomb (by rw [hlast, hmax, marks, hmark])
  refine hall _ _ _ _ _ _ _ hdiffs hcreate (Calls.last (by decide) hcall)
    ⟨marks o.levels, ⟨hgolomb, fun i hi ↦ ?_⟩, fun i hi ↦ hstub.placed i (by omega),
      .inl fun i hi ↦ ?_⟩
  · have hplace := hfound.placed i hi
    exact hplace.le.trans_eq hplace.limit
  · exact hstub.placed i (hi.trans_eq hplaced)

end Hyunjin
