import Hyunjin.Ogr.Levels

/-!
# What a turn of the search does

A move of the current mark goes to the first place that is not blocked, unless that is beyond the
limit, or over a whole word that is all blocked. `Does` lists what a turn can come to; the rounds of
`ogrCycleEntry` are turns, one after the other (`runs_of_ogrCycleEntry`).

The marks of a stub are moved in the same way, but to where the stub has them, and only if that
place is not blocked.
-/

namespace Hyunjin

/-! ## Moving by a difference of the stub -/

private theorem stubWords_spec (fuel s : ℕ) (lev : OgrLevel) (newbit : Bool) (hfuel : s ≤ fuel) :
    match stubWords fuel s lev newbit with
    | none => lev.comp.bit (s - 1) = true
    | some (s', lev', newbit') => s' < 32 ∧ (s' = 0 → 0 < s → lev.comp.bit (s - 1) = false) ∧
      (0 < s' → lev'.comp.bit (s' - 1) = lev.comp.bit (s - 1)) ∧
      ∀ lev'', lev'.Moved lev'' newbit' s' → lev.Moved lev'' newbit s := by
  induction fuel generalizing s lev newbit with
  | zero =>
    obtain rfl := Nat.le_zero.mp hfuel
    exact ⟨by decide, fun _ hpos ↦ absurd hpos (Nat.lt_irrefl 0), fun _ ↦ rfl, fun _ h ↦ h⟩
  | succ fuel ih =>
    rw [stubWords]
    by_cases hs : 32 ≤ s
    · rw [if_pos hs]
      have hbit : lev.comp.w0 &&& 1#32 ≠ 0#32 ↔ lev.comp.bit 31 = true :=
        lev.comp.w0_and_shift (by decide : 0 < 32) le_rfl
      have hword := lev.moved_compLeftListRightWord newbit
      by_cases htaken : s = 32 ∧ lev.comp.w0 &&& 1#32 ≠ 0#32
      · rw [if_pos htaken, htaken.1]
        exact hbit.mp htaken.2
      · rw [if_neg htaken]
        have hrest := ih (s - 32) (lev.compLeftListRightWord newbit) false (by omega)
        have hnext (h32 : s ≠ 32) :
            (lev.compLeftListRightWord newbit).comp.bit (s - 32 - 1) = lev.comp.bit (s - 1) := by
          rw [hword.comp, show s - 32 - 1 + 32 = s - 1 by omega]
        have hlast (h32 : s = 32) : lev.comp.bit (s - 1) = false := by
          rw [h32]
          exact Bool.eq_false_iff.mpr fun h ↦ htaken ⟨h32, hbit.mpr h⟩
        rcases hres : stubWords fuel (s - 32) (lev.compLeftListRightWord newbit) false with
          _ | ⟨s', lev', newbit'⟩
        · rw [hres] at hrest
          dsimp only at hrest ⊢
          by_cases h32 : s = 32
          · -- nothing is left to move, so the rest cannot fail
            subst h32
            cases fuel <;> simp [stubWords] at hres
          · rwa [hnext h32] at hrest
        · rw [hres] at hrest
          obtain ⟨hlt, hzero, hsame, hmove⟩ := hrest
          refine ⟨hlt, fun h0 _ ↦ ?_, fun hpos ↦ ?_, fun lev'' h ↦ ?_⟩
          · by_cases h32 : s = 32
            · exact hlast h32
            · rw [← hnext h32]
              exact hzero h0 (by omega)
          · have h32 : s ≠ 32 := by
              rintro rfl
              cases fuel <;> simp [stubWords] at hres <;> omega
            rw [hsame hpos, hnext h32]
          · rw [show s = 32 + (s - 32) by omega]
            exact hword.trans (by decide) (hmove _ h)
    · rw [if_neg hs]
      exact ⟨by omega, fun h0 hpos ↦ by omega, fun _ ↦ rfl, fun _ h ↦ h⟩

/-- **A mark of the stub** is moved if its place is not blocked. -/
theorem stubMove_spec {s : ℕ} (hs : 0 < s) (lev : OgrLevel) (newbit : Bool) :
    match stubMove s lev newbit with
    | none => lev.comp.bit (s - 1) = true
    | some lev' => lev.comp.bit (s - 1) = false ∧ lev.Moved lev' newbit s := by
  have hwords := stubWords_spec s s lev newbit le_rfl
  rw [stubMove]
  rcases hres : stubWords s s lev newbit with _ | ⟨s', lev', newbit'⟩
  · rwa [hres] at hwords
  · rw [hres] at hwords
    obtain ⟨hlt, hzero, hsame, hmove⟩ := hwords
    dsimp only
    by_cases hpos : 0 < s'
    · rw [if_pos hpos]
      have hbit := lev'.comp.w0_and_shift hpos hlt.le
      by_cases htaken : lev'.comp.w0 &&& 1#32 <<< (32 - s') ≠ 0#32
      · rw [if_pos htaken]
        dsimp only
        rw [← hsame hpos]
        exact hbit.mp htaken
      · rw [if_neg htaken]
        refine ⟨?_, hmove _ (lev'.moved_compLeftListRight newbit' hpos hlt)⟩
        rw [← hsame hpos]
        exact Bool.eq_false_iff.mpr fun h ↦ htaken (hbit.mpr h)
    · rw [if_neg hpos]
      obtain rfl : s' = 0 := by omega
      refine ⟨hzero rfl hs, hmove _ ⟨rfl, fun _ ↦ rfl, fun k _ ↦ ?_, rfl, rfl⟩⟩
      rw [if_neg (Nat.not_lt_zero k), Nat.sub_zero]

namespace CycleState

/-! ## Moving on -/

/-- The level of the current mark. -/
def level (s : CycleState) : OgrLevel := s.levels s.depth

/-- The current mark moved by `t` places. -/
def movedTo (s : CycleState) (lev' : OgrLevel) (t : ℕ) : CycleState :=
  { s with levels := Function.update s.levels s.depth lev', mark := s.mark + t, newbit := false }

/-- The mark can be moved by `t` places, and all places before are blocked. -/
structure Reaches (s : CycleState) (lev' : OgrLevel) (t : ℕ) : Prop where
  moved : s.level.Moved lev' s.newbit t
  pos : 0 < t
  le : s.mark + t ≤ s.limit
  ahead : ∀ k, k + 1 < t → s.level.comp.bit k = true

/-- All places up to the limit are blocked. -/
def Stuck (s : CycleState) : Prop :=
  ∃ t : ℕ, s.limit < s.mark + t ∧ ∀ k, k + 1 < t → s.level.comp.bit k = true

/-- **A move** gets stuck, goes over a word that is all blocked, or comes to the first place that is
not blocked. -/
theorem move_cases (s : CycleState) :
    (s.move = .limit ∧ s.Stuck) ∨
      (∃ lev', s.move = .skip (s.movedTo lev' 32) ∧ s.Reaches lev' 32 ∧
        s.level.comp.bit 31 = true) ∨
      ∃ lev' t, s.move = .place (s.movedTo lev' t) ∧ s.Reaches lev' t ∧
        s.level.comp.bit (t - 1) = false := by
  simp only [move]
  rw [show s.levels s.depth = s.level from rfl]
  by_cases hblank : s.level.comp.w0 < ~~~1#32
  · have hlt := lookupFirstblank_lt hblank
    have hne : s.level.comp.w0 ≠ ~~~0#32 := by
      intro h
      rw [h] at hblank
      exact absurd hblank (by decide)
    obtain ⟨hpos, -, hones, hno⟩ := firstBlank_lookup hne
    have hahead (k : ℕ) (hk : k + 1 < lookupFirstblank s.level.comp.w0) :
        s.level.comp.bit k = true := by
      rw [← BMap.getMsbD_w0 _ (by omega)]
      exact hones k (by omega)
    rw [if_pos hblank]
    by_cases hlimit : s.limit < s.mark + lookupFirstblank s.level.comp.w0
    · rw [if_pos hlimit]
      exact .inl ⟨rfl, _, hlimit, hahead⟩
    · rw [if_neg hlimit]
      refine .inr (.inr ⟨_, _, rfl, ⟨?_, hpos, not_lt.mp hlimit, hahead⟩, ?_⟩)
      · exact s.level.moved_compLeftListRight s.newbit hpos hlt
      · rwa [← BMap.getMsbD_w0 _ (by omega)]
  · rw [if_neg hblank]
    -- all but the last place of the word are blocked
    have hones (k : ℕ) (hk : k + 1 < 32) : s.level.comp.bit k = true := by
      have hle : 2 ^ 32 - 2 ^ (32 - 31) ≤ s.level.comp.w0.toNat := Nat.not_lt.mp hblank
      rw [← BMap.getMsbD_w0 _ (by omega)]
      exact (le_toNat_iff_leading (by decide) _).mp hle k (by omega)
    by_cases hlimit : s.limit < s.mark + 32
    · rw [if_pos hlimit]
      exact .inl ⟨rfl, 32, hlimit, hones⟩
    · rw [if_neg hlimit]
      have hreach : s.Reaches (s.level.compLeftListRightWord s.newbit) 32 :=
        ⟨s.level.moved_compLeftListRightWord s.newbit, by decide, not_lt.mp hlimit, hones⟩
      by_cases hall : s.level.comp.w0 = ~~~0#32
      · rw [if_pos hall]
        refine .inr (.inl ⟨_, rfl, hreach, ?_⟩)
        rw [← BMap.getMsbD_w0 _ (by decide), hall]
        decide
      · rw [if_neg hall]
        refine .inr (.inr ⟨_, 32, rfl, hreach, ?_⟩)
        rw [← BMap.getMsbD_w0 _ (by decide), Bool.eq_false_iff]
        intro hbit
        have hfull : 2 ^ 32 - 2 ^ (32 - 32) ≤ s.level.comp.w0.toNat := by
          refine (le_toNat_iff_leading le_rfl _).mpr fun k hk ↦ ?_
          rcases Nat.lt_succ_iff_lt_or_eq.mp hk with hlt | rfl
          · rw [BMap.getMsbD_w0 _ hk]
            exact hones k (by omega)
          · exact hbit
        have hlt : s.level.comp.w0.toNat < 2 ^ 32 := s.level.comp.w0.isLt
        exact hall (BitVec.eq_of_toNat_eq (by omega : s.level.comp.w0.toNat = 2 ^ 32 - 1))

/-! ## Turns -/

/-- What a turn comes to: the next one, or the end of the call with a code and a depth. -/
inductive Turn
  | next (s : CycleState)
  | stop (code : ℤ) (depth : ℤ) (s : CycleState)

/-- What `ogrCycleEntry` does when the search comes out at a depth. -/
def settle (o : OgrState) (depth : ℤ) (s : CycleState) : Turn :=
  if depth = o.maxdepthm1 ∧ s.nodes ≠ 0 then
    if 2 * OGRNG_BITMAPS_LENGTH < (s.levels depth.toNat).mark ∧
        foundOne { o with depth := depth, levels := s.levels } = 0 then
      .next (start { o with depth := depth, levels := s.levels } s.nodes)
    else .stop CORE_S_SUCCESS (o.stopdepth - 1) s
  else if depth ≤ o.stopdepth then .stop CORE_S_OK (depth - 1) s
  else .stop CORE_S_CONTINUE (depth - 1) s

def turn (o : OgrState) (pchoose : ℕ → U16) (s : CycleState) : Turn :=
  match s.step o pchoose with
  | .next s => .next s
  | .exit depth s => s.settle o depth

def run (o : OgrState) (pchoose : ℕ → U16) : ℕ → CycleState → Option (ℤ × ℤ × CycleState)
  | 0, _ => none
  | fuel + 1, s =>
    match s.turn o pchoose with
    | .next s => run o pchoose fuel s
    | .stop code depth s => some (code, depth, s)

/-- The level before, with its mark to be moved on. -/
def popped (s : CycleState) : CycleState :=
  { s with
    depth := s.depth - 1
    mark := (s.levels (s.depth - 1)).mark
    limit := (s.levels (s.depth - 1)).limit
    newbit := false }

/-- **All that a turn can do.** -/
inductive Does (o : OgrState) (pchoose : ℕ → U16) (s : CycleState) : Turn → Prop
  | skip {lev'} (reach : s.Reaches lev' 32) (blocked : s.level.comp.bit 31 = true) :
      Does o pchoose s (.next (s.movedTo lev' 32))
  | push {lev' t} (reach : s.Reaches lev' t) (free : s.level.comp.bit (t - 1) = false)
      (depth : s.depth ≠ o.maxdepthm1) (nodes : 1 < s.nodes) :
      Does o pchoose s (.next ((s.movedTo lev' t).push o pchoose))
  | spent {lev' t} (reach : s.Reaches lev' t) (free : s.level.comp.bit (t - 1) = false)
      (depth : s.depth ≠ o.maxdepthm1) (nodes : s.nodes ≤ 1) :
      Does o pchoose s (settle o (s.depth + 1) ((s.movedTo lev' t).push o pchoose).setMark)
  | last {lev' t} (reach : s.Reaches lev' t) (free : s.level.comp.bit (t - 1) = false)
      (depth : s.depth = o.maxdepthm1) :
      Does o pchoose s (settle o s.depth (s.movedTo lev' t).setMark)
  | pop (stuck : s.Stuck) (stop : o.stopdepth < s.depth - 1) (pos : 0 < s.depth) :
      Does o pchoose s (.next s.popped)
  | ends (stuck : s.Stuck) (stop : s.depth - 1 ≤ o.stopdepth) :
      Does o pchoose s (settle o (s.depth - 1) s)

theorem does_turn (o : OgrState) (hstop : -1 ≤ o.stopdepth) (pchoose : ℕ → U16) (s : CycleState) :
    Does o pchoose s (s.turn o pchoose) := by
  simp only [turn, step]
  rcases s.move_cases with ⟨hmove, hstuck⟩ | ⟨lev', hmove, hreach, hbit⟩ |
    ⟨lev', t, hmove, hreach, hbit⟩
  · rw [hmove]
    dsimp only [pop]
    by_cases hlt : o.stopdepth < s.depth - 1
    · have hdepth : ((s.depth : ℤ) - 1).toNat = s.depth - 1 := by omega
      rw [if_pos hlt, hdepth]
      exact .pop hstuck hlt (by omega)
    · rw [if_neg hlt]
      exact .ends hstuck (not_lt.mp hlt)
  · rw [hmove]
    exact .skip hreach hbit
  · rw [hmove]
    dsimp only
    by_cases hlast : s.depth = o.maxdepthm1
    · rw [if_pos (show (s.movedTo lev' t).depth = o.maxdepthm1 from hlast)]
      exact .last hreach hbit hlast
    · rw [if_neg (show ¬(s.movedTo lev' t).depth = o.maxdepthm1 from hlast)]
      have hnodes : ((s.movedTo lev' t).push o pchoose).nodes = s.nodes - 1 := rfl
      by_cases hspent : ((s.movedTo lev' t).push o pchoose).nodes ≤ 0
      · rw [if_pos hspent]
        exact .spent hreach hbit hlast (by omega)
      · rw [if_neg hspent]
        exact .push hreach hbit hlast (by omega)

/-- The state that a turn leads to. -/
def Turn.state : Turn → CycleState
  | .next s => s
  | .stop _ _ s => s

theorem settle_nodes (o : OgrState) (depth : ℤ) (s : CycleState) :
    (s.settle o depth).state.nodes = s.nodes := by
  rw [settle]
  split_ifs <;> rfl

theorem turn_nodes_le (o : OgrState) (hstop : -1 ≤ o.stopdepth) (pchoose : ℕ → U16)
    (s : CycleState) :
    (s.turn o pchoose).state.nodes ≤ s.nodes := by
  have hdoes := does_turn o hstop pchoose s
  generalize s.turn o pchoose = res at hdoes
  cases hdoes with
  | skip | pop => exact le_rfl
  | push => exact Int.sub_le_self _ (by decide)
  | spent =>
    rw [settle_nodes]
    exact Int.sub_le_self _ (by decide)
  | last => exact (settle_nodes ..).le
  | ends => exact (settle_nodes ..).le

/-! ## Turns one after the other -/

/-- The turns come to an end. -/
def Runs (o : OgrState) (pchoose : ℕ → U16) (s : CycleState) (r : ℤ × ℤ × CycleState) : Prop :=
  ∃ fuel, run o pchoose fuel s = some r

variable {o : OgrState} {pchoose : ℕ → U16}

theorem runs_next {s t : CycleState} {r : ℤ × ℤ × CycleState} (hturn : s.turn o pchoose = .next t) :
    Runs o pchoose s r ↔ Runs o pchoose t r := by
  constructor
  · rintro ⟨_ | fuel, hrun⟩
    · exact nomatch hrun
    · rw [run, hturn] at hrun
      exact ⟨fuel, hrun⟩
  · rintro ⟨fuel, hrun⟩
    exact ⟨fuel + 1, by rw [run, hturn]; exact hrun⟩

theorem runs_stop {s t : CycleState} {r : ℤ × ℤ × CycleState} {code depth : ℤ}
    (hturn : s.turn o pchoose = .stop code depth t) :
    Runs o pchoose s r ↔ r = (code, depth, t) := by
  constructor
  · rintro ⟨_ | fuel, hrun⟩
    · exact nomatch hrun
    · rw [run, hturn] at hrun
      exact (Option.some.inj hrun).symm
  · rintro rfl
    exact ⟨1, by rw [run, hturn]⟩

/-- **The invariant rule.** What holds at the start and is kept by every turn that goes on holds at
the last turn. -/
theorem Runs.induct {I : CycleState → Prop} {s : CycleState} {code depth : ℤ} {s' : CycleState}
    (hrun : Runs o pchoose s (code, depth, s')) (hstart : I s)
    (hkeep : ∀ s t, I s → s.turn o pchoose = .next t → I t) :
    ∃ t, I t ∧ t.turn o pchoose = .stop code depth s' := by
  obtain ⟨fuel, hrun⟩ := hrun
  induction fuel generalizing s with
  | zero => exact nomatch hrun
  | succ fuel ih =>
    rw [run] at hrun
    cases hturn : s.turn o pchoose with
    | next t =>
      rw [hturn] at hrun
      exact ih (hkeep s t hstart hturn) hrun
    | stop code' depth' t =>
      rw [hturn] at hrun
      cases hrun
      exact ⟨s, hstart, hturn⟩

/-! The rounds of `ogrCycleEntry` are turns. -/

/-- What is left of a run when the search has come out. -/
private def After (o : OgrState) (pchoose : ℕ → U16) : Turn → ℤ × ℤ × CycleState → Prop
  | .next t, r => Runs o pchoose t r
  | .stop code depth t, r => r = (code, depth, t)

private theorem runs_of_loop {fuel : ℕ} {s s' : CycleState} {depth : ℤ} {r : ℤ × ℤ × CycleState}
    (hloop : loop o pchoose fuel s = some (depth, s'))
    (hafter : After o pchoose (s'.settle o depth) r) : Runs o pchoose s r := by
  induction fuel generalizing s with
  | zero => exact nomatch hloop
  | succ fuel ih =>
    rw [loop] at hloop
    cases hstep : s.step o pchoose with
    | next t =>
      rw [hstep] at hloop
      exact (runs_next (by rw [turn, hstep])).mpr (ih hloop)
    | exit depth' t =>
      rw [hstep] at hloop
      cases hloop
      have hturn : s.turn o pchoose = s'.settle o depth := by rw [turn, hstep]
      cases hsettle : s'.settle o depth with
      | next t =>
        rw [hsettle] at hafter
        exact (runs_next (hturn.trans hsettle)).mpr hafter
      | stop code depth' t =>
        rw [hsettle] at hafter
        exact (runs_stop (hturn.trans hsettle)).mpr hafter

/-- The search does not read the depth and the levels that it was given. -/
private theorem loop_static (o : OgrState) (pchoose : ℕ → U16) (depth : ℤ) (levels : ℕ → OgrLevel)
    (fuel : ℕ) (s : CycleState) :
    loop { o with depth := depth, levels := levels } pchoose fuel s = loop o pchoose fuel s := by
  induction fuel generalizing s with
  | zero => rfl
  | succ fuel ih =>
    have hstep : step { o with depth := depth, levels := levels } pchoose s
      = s.step o pchoose := rfl
    rw [loop, loop, hstep]
    cases s.step o pchoose with
    | next t => exact ih t
    | exit depth' t => rfl

private theorem runs_of_entryLoop {fuel rounds : ℕ} {pnodes nodesDone code spent depth : ℤ}
    {levels : ℕ → OgrLevel} {o' : OgrState}
    (hentry : entryLoop pchoose fuel pnodes rounds nodesDone
      { o with depth := depth, levels := levels } = some (code, spent, o')) :
    ∃ depth' s, Runs o pchoose
      (start { o with depth := depth, levels := levels } (pnodes - nodesDone))
      (code, depth', s) ∧ spent = pnodes - s.nodes ∧
      o' = { o with depth := depth', levels := s.levels } := by
  induction rounds generalizing nodesDone depth levels with
  | zero => exact nomatch hentry
  | succ rounds ih =>
    rw [entryLoop, ogrCycle256, loop_static] at hentry
    rcases hloop : loop o pchoose fuel
      (start { o with depth := depth, levels := levels } (pnodes - nodesDone)) with _ | ⟨out, s⟩
    · rw [hloop] at hentry
      exact nomatch hentry
    · rw [hloop] at hentry
      dsimp only [Option.map_some] at hentry
      have hnodes : (out = o.maxdepthm1 ∧ pnodes - nodesDone - s.nodes ≠ pnodes - nodesDone) ↔
          out = o.maxdepthm1 ∧ s.nodes ≠ 0 := and_congr_right fun _ ↦ by omega
      have hspent : nodesDone + (pnodes - nodesDone - s.nodes) = pnodes - s.nodes := by omega
      rw [hspent] at hentry
      by_cases hfound : out = o.maxdepthm1 ∧ s.nodes ≠ 0
      · rw [if_pos (hnodes.mpr hfound)] at hentry
        by_cases hreject : 2 * OGRNG_BITMAPS_LENGTH < (s.levels out.toNat).mark ∧
            foundOne { o with depth := out, levels := s.levels } = 0
        · rw [if_pos hreject] at hentry
          obtain ⟨depth', s', hruns, hres⟩ := ih hentry
          refine ⟨depth', s', runs_of_loop hloop ?_, hres⟩
          rw [settle, if_pos hfound, if_pos hreject, After]
          rwa [show pnodes - (pnodes - s.nodes) = s.nodes by omega] at hruns
        · rw [if_neg hreject] at hentry
          cases hentry
          refine ⟨_, s, runs_of_loop hloop ?_, rfl, rfl⟩
          rw [settle, if_pos hfound, if_neg hreject, After]
      · rw [if_neg (hnodes.not.mpr hfound)] at hentry
        by_cases hover : out ≤ o.stopdepth
        · rw [if_pos hover] at hentry
          cases hentry
          refine ⟨_, s, runs_of_loop hloop ?_, rfl, rfl⟩
          rw [settle, if_neg hfound, if_pos hover, After]
        · rw [if_neg hover] at hentry
          cases hentry
          refine ⟨_, s, runs_of_loop hloop ?_, rfl, rfl⟩
          rw [settle, if_neg hfound, if_neg hover, After]

/-- Turns that come to an end come out of the search within as much fuel. -/
private theorem loop_of_run {n : ℕ} {s : CycleState} {r : ℤ × ℤ × CycleState}
    (hrun : run o pchoose n s = some r) {fuel : ℕ} (hfuel : n ≤ fuel) :
    ∃ depth s', loop o pchoose fuel s = some (depth, s') ∧
      match s'.settle o depth with
      | .next t => ∃ n' < n, run o pchoose n' t = some r
      | .stop code depth t => r = (code, depth, t) := by
  induction n generalizing s fuel with
  | zero => exact nomatch hrun
  | succ n ih =>
    obtain ⟨fuel, rfl⟩ := Nat.exists_eq_add_of_le' (Nat.one_le_of_lt hfuel)
    rw [run, turn] at hrun
    rw [loop]
    cases hstep : s.step o pchoose with
    | next t =>
      rw [hstep] at hrun
      obtain ⟨depth, s', hloop, hafter⟩ := ih hrun (Nat.le_of_succ_le_succ hfuel)
      refine ⟨depth, s', hloop, ?_⟩
      cases hsettle : s'.settle o depth with
      | next t =>
        rw [hsettle] at hafter
        obtain ⟨n', hlt, hn'⟩ := hafter
        exact ⟨n', hlt.trans n.lt_succ_self, hn'⟩
      | stop code depth' t =>
        rw [hsettle] at hafter
        exact hafter
    | exit depth t =>
      rw [hstep] at hrun
      refine ⟨depth, t, rfl, ?_⟩
      dsimp only at hrun
      cases hsettle : t.settle o depth with
      | next t' =>
        rw [hsettle] at hrun
        exact ⟨n, n.lt_succ_self, hrun⟩
      | stop code depth' t' =>
        rw [hsettle] at hrun
        exact (Option.some.inj hrun).symm

private theorem entryLoop_of_run {n : ℕ} {pnodes nodesDone code depth depth' : ℤ}
    {levels : ℕ → OgrLevel} {s : CycleState}
    (hrun : run o pchoose n
      (start { o with depth := depth, levels := levels } (pnodes - nodesDone)) =
      some (code, depth', s)) {fuel rounds : ℕ} (hfuel : n ≤ fuel) (hrounds : n ≤ rounds) :
    entryLoop pchoose fuel pnodes rounds nodesDone { o with depth := depth, levels := levels } =
      some (code, pnodes - s.nodes, { o with depth := depth', levels := s.levels }) := by
  induction n using Nat.strong_induction_on generalizing nodesDone depth levels rounds with
  | _ n ih =>
    obtain ⟨out, s', hloop, hafter⟩ := loop_of_run hrun hfuel
    obtain ⟨n, rfl⟩ : ∃ m, n = m + 1 := by
      cases n with
      | zero => exact nomatch hrun
      | succ m => exact ⟨m, rfl⟩
    obtain ⟨rounds, rfl⟩ := Nat.exists_eq_add_of_le' (Nat.one_le_of_lt hrounds)
    have hnodes : (out = o.maxdepthm1 ∧ pnodes - nodesDone - s'.nodes ≠ pnodes - nodesDone) ↔
        out = o.maxdepthm1 ∧ s'.nodes ≠ 0 := and_congr_right fun _ ↦ by omega
    have hspent : nodesDone + (pnodes - nodesDone - s'.nodes) = pnodes - s'.nodes := by omega
    rw [entryLoop, ogrCycle256, loop_static, hloop]
    dsimp only [Option.map_some]
    rw [hspent]
    rw [settle] at hafter
    by_cases hfound : out = o.maxdepthm1 ∧ s'.nodes ≠ 0
    · rw [if_pos hfound] at hafter
      rw [if_pos (hnodes.mpr hfound)]
      by_cases hreject : 2 * OGRNG_BITMAPS_LENGTH < (s'.levels out.toNat).mark ∧
          foundOne { o with depth := out, levels := s'.levels } = 0
      · rw [if_pos hreject] at hafter ⊢
        obtain ⟨n', hlt, hrun'⟩ := hafter
        refine ih n' hlt ?_ (by omega) (by omega)
        rwa [show pnodes - (pnodes - s'.nodes) = s'.nodes by omega]
      · rw [if_neg hreject] at hafter ⊢
        cases hafter
        rfl
    · rw [if_neg hfound] at hafter
      rw [if_neg (hnodes.not.mpr hfound)]
      by_cases hover : out ≤ o.stopdepth
      · rw [if_pos hover] at hafter ⊢
        cases hafter
        rfl
      · rw [if_neg hover] at hafter ⊢
        cases hafter
        rfl

/-- The search taken up from a state between two calls. -/
def resume (o : OgrState) (nodes : ℤ) : CycleState := start { o with depth := o.depth + 1 } nodes

/-- **A call is a run of turns.** -/
theorem runs_of_ogrCycleEntry {fuel : ℕ} {pnodes code spent : ℤ} {o' : OgrState}
    (hentry : ogrCycleEntry pchoose fuel o pnodes = some (code, spent, o')) :
    ∃ depth s, Runs o pchoose (resume o pnodes) (code, depth, s) ∧ spent = pnodes - s.nodes ∧
      o' = { o with depth := depth, levels := s.levels } := by
  rw [ogrCycleEntry] at hentry
  have hruns := @runs_of_entryLoop o pchoose fuel fuel pnodes 0 code spent
    (o.depth + 1) o.levels o' hentry
  rwa [sub_zero] at hruns

/-- **A run of turns is a call**, with fuel enough. -/
theorem ogrCycleEntry_of_runs {pnodes code depth : ℤ} {s : CycleState}
    (hruns : Runs o pchoose (resume o pnodes) (code, depth, s)) :
    ∃ fuel, ogrCycleEntry pchoose fuel o pnodes =
      some (code, pnodes - s.nodes, { o with depth := depth, levels := s.levels }) := by
  obtain ⟨n, hrun⟩ := hruns
  refine ⟨n, @entryLoop_of_run o pchoose n pnodes 0 code
    (o.depth + 1) depth o.levels s ?_ n n le_rfl le_rfl⟩
  rwa [sub_zero]

end CycleState

end Hyunjin
