import Hyunjin.Ogr.Returns
import Hyunjin.Ogr.Calls

/-!
# The register-based core

The register-based core does step for step what the memory-based one does. What it has to get right
is `dist` when it goes back: clearing the bits of `list` undoes the union only if the two have no
bit in common. They have none when a mark is placed where it is not blocked, and this holds of the
bitmaps because of what they are, without regard to the marks that they stand for
(`OgrLevel64.Coherent`): a place is blocked if a mark there would repeat a distance of `dist`, and
`dist` has the distances between the marks that `list` has.

`Matches` relates the variables of the two cores, `Twin` what they leave in memory.
-/

namespace Hyunjin

/-! ## Coherent bitmaps -/

/-- The bitmaps of a level belong together; with the new bit, also those to come. -/
structure OgrLevel64.Coherent (lev : OgrLevel64) (newbit : Bool) : Prop where
  blocked : ∀ k t, lev.list.bit k = true → lev.dist.bit (k + t + 1) = true → lev.comp.bit t = true
  blockedNew : newbit = true → ∀ t, lev.dist.bit t = true → lev.comp.bit t = true
  between : ∀ k t, lev.list.bit k = true → lev.list.bit (k + t + 1) = true →
    lev.dist.bit t = true
  betweenNew : newbit = true → ∀ k, lev.list.bit k = true → lev.dist.bit k = true

/-- `list` and `dist` have no bit in common. -/
def OgrLevel64.Disjoint (lev : OgrLevel64) : Prop :=
  ∀ k, lev.list.bit k = true → lev.dist.bit k = false

/-- The bitmaps when the mark has moved by `s`, which is at most a word. -/
structure OgrLevel64.MovedBy (lev : OgrLevel64) (newbit : Bool) (s : ℕ) (lev' : OgrLevel64) :
    Prop where
  list : ∀ k < 256, lev'.list.bit k =
    if k < s then newbit && decide (k + 1 = s) else lev.list.bit (k - s)
  dist : lev'.dist = lev.dist
  comp : ∀ k, lev'.comp.bit k = lev.comp.bit (k + s)
  mark : lev'.mark = lev.mark
  limit : lev'.limit = lev.limit

namespace OgrLevel64

variable {lev lev' : OgrLevel64} {newbit : Bool} {s : ℕ}

theorem Coherent.settled (h : lev.Coherent newbit) : lev.Coherent false :=
  ⟨h.blocked, nofun, h.between, nofun⟩

theorem coherent_zero : zero.Coherent newbit := by
  have hzero (k : ℕ) : zero.list.bit k = false := BMap64.bit_zero k
  have hzero' (k : ℕ) : zero.dist.bit k = false := BMap64.bit_zero k
  refine ⟨fun k t hk ↦ ?_, fun _ t ht ↦ ?_, fun k t hk ↦ ?_, fun _ k hk ↦ ?_⟩
  · exact absurd hk (by rw [hzero]; decide)
  · exact absurd ht (by rw [hzero']; decide)
  · exact absurd hk (by rw [hzero]; decide)
  · exact absurd hk (by rw [hzero]; decide)

/-- A bit of the shifted `list` is the new one or was there before. -/
private theorem MovedBy.bit (h : lev.MovedBy newbit s lev') {k : ℕ}
    (hk : lev'.list.bit k = true) :
    newbit = true ∧ k + 1 = s ∨ ∃ j, k = j + s ∧ lev.list.bit j = true := by
  have hlt : k < 256 := by
    by_contra hge
    rw [BMap64.bit_of_ge _ (not_lt.mp hge)] at hk
    exact nomatch hk
  rw [h.list k hlt] at hk
  split_ifs at hk with hs
  · rw [Bool.and_eq_true, decide_eq_true_eq] at hk
    exact .inl hk
  · exact .inr ⟨k - s, (Nat.sub_add_cancel (not_lt.mp hs)).symm, hk⟩

/-- **Moving the mark** keeps the bitmaps coherent. -/
theorem Coherent.moved (h : lev.Coherent newbit) (hmoved : lev.MovedBy newbit s lev') :
    lev'.Coherent false := by
  refine ⟨fun k t hk hdist ↦ ?_, nofun, fun k t hk hk' ↦ ?_, nofun⟩
  · rw [hmoved.dist] at hdist
    rw [hmoved.comp]
    rcases hmoved.bit hk with ⟨hnew, hs⟩ | ⟨j, rfl, hj⟩
    · refine h.blockedNew hnew _ ?_
      rwa [← hs, show t + (k + 1) = k + t + 1 by omega]
    · refine h.blocked j _ hj ?_
      rwa [show j + (t + s) + 1 = j + s + t + 1 by omega]
  · rw [hmoved.dist]
    rcases hmoved.bit hk with ⟨hnew, hs⟩ | ⟨j, rfl, hj⟩
    · rcases hmoved.bit hk' with ⟨-, hs'⟩ | ⟨j, hj', hj⟩
      · omega
      · obtain rfl : j = t := by omega
        exact h.betweenNew hnew j hj
    · rcases hmoved.bit hk' with ⟨-, hs'⟩ | ⟨i, hi', hi⟩
      · omega
      · obtain rfl : i = j + t + 1 := by omega
        exact h.between j t hj hi

/-- **A mark at a place that is not blocked** repeats no distance. -/
theorem Coherent.disjoint (h : lev.Coherent newbit) (hmoved : lev.MovedBy newbit s lev')
    (hs : 0 < s) (hfree : lev.comp.bit (s - 1) = false) : lev'.Disjoint := by
  intro k hk
  rw [hmoved.dist]
  by_contra hdist
  rw [Bool.not_eq_false] at hdist
  refine absurd hfree ?_
  rw [Bool.not_eq_false]
  rcases hmoved.bit hk with ⟨hnew, hs'⟩ | ⟨j, rfl, hj⟩
  · refine h.blockedNew hnew _ ?_
    rwa [← hs', Nat.add_sub_cancel]
  · refine h.blocked j _ hj ?_
    rwa [show j + (s - 1) + 1 = j + s by omega]

/-- **The next level** is coherent with its new bit. -/
theorem Coherent.pushed (h : lev.Coherent false) {lev₂ : OgrLevel64} (hlist : lev₂.list = lev.list)
    (hdist : lev₂.dist = lev.dist.or lev.list) (hcomp : lev₂.comp = lev.comp.or lev₂.dist) :
    lev₂.Coherent true := by
  have hbit (k : ℕ) : lev₂.dist.bit k = true ↔ lev.dist.bit k = true ∨ lev.list.bit k = true := by
    rw [hdist, BMap64.bit_or, Bool.or_eq_true]
  have hblank (k : ℕ) :
      lev₂.comp.bit k = true ↔ lev.comp.bit k = true ∨ lev₂.dist.bit k = true := by
    rw [hcomp, BMap64.bit_or, Bool.or_eq_true]
  refine ⟨fun k t hk hkt ↦ ?_, fun _ t ht ↦ ?_, fun k t hk hkt ↦ ?_, fun _ k hk ↦ ?_⟩
  · rw [hlist] at hk
    rw [hblank, hbit]
    rcases (hbit _).mp hkt with hold | hmark
    · exact .inl (h.blocked k t hk hold)
    · exact .inr (.inl (h.between k t hk hmark))
  · exact (hblank t).mpr (.inr ht)
  · rw [hlist] at hk hkt
    exact (hbit t).mpr (.inl (h.between k t hk hkt))
  · rw [hlist] at hk
    exact (hbit k).mpr (.inr hk)

/-- **Clearing `list` undoes the union** if it has no bit in common with `dist`. -/
theorem Disjoint.andNot_or (h : lev.Disjoint) :
    (lev.dist.or lev.list).andNot lev.list = lev.dist := by
  refine BMap64.ext_bit fun k _ ↦ ?_
  rw [BMap64.bit_andNot, BMap64.bit_or]
  cases hk : lev.list.bit k with
  | false => simp
  | true => simp [h k hk]

/-- The mark moves by less than a word. -/
def left (lev : OgrLevel64) (newbit : Bool) (s : ℕ) : OgrLevel64 :=
  { lev with
    list := lev.list.listRight newbit s
    comp := lev.comp.compLeft s }

/-- The mark moves by a word. -/
def leftWord (lev : OgrLevel64) (newbit : Bool) : OgrLevel64 :=
  { lev with
    list := lev.list.listRightWord newbit
    comp := lev.comp.compLeftWord }

theorem movedBy_left (lev : OgrLevel64) (newbit : Bool) (hs : 0 < s) (hs' : s < 64) :
    lev.MovedBy newbit s (lev.left newbit s) :=
  ⟨fun _ hk ↦ BMap64.bit_listRight _ _ hs hs' hk, rfl, BMap64.bit_compLeft _ hs', rfl, rfl⟩

theorem movedBy_leftWord (lev : OgrLevel64) (newbit : Bool) :
    lev.MovedBy newbit 64 (lev.leftWord newbit) :=
  ⟨fun _ hk ↦ BMap64.bit_listRightWord _ _ hk, rfl, BMap64.bit_compLeftWord _, rfl, rfl⟩

end OgrLevel64

/-! ## What the macros do -/

section Macros

variable {u : MemoryVars} {lev : OgrLevel64}

theorem registerMacros_left (v : RegisterVars) (lev : OgrLevel64) (s : ℕ) :
    registerMacros.compLeftListRight v lev s =
      (⟨v.comp.compLeft s, v.list.listRight v.newbit s, v.dist, false⟩, lev) := rfl

theorem registerMacros_leftWord (v : RegisterVars) (lev : OgrLevel64) :
    registerMacros.compLeftListRightWord v lev =
      (⟨v.comp.compLeftWord, v.list.listRightWord v.newbit, v.dist, false⟩, lev) := rfl

theorem memoryMacros_left (hcomp0 : u.comp0 = lev.comp.w0) (s : ℕ) :
    memoryMacros.compLeftListRight u lev s =
      (⟨(lev.left u.newbit s).comp.w0, u.dist0, false⟩, lev.left u.newbit s) := by
  simp only [memoryMacros, hcomp0]
  rfl

theorem memoryMacros_leftWord (u : MemoryVars) (lev : OgrLevel64) :
    memoryMacros.compLeftListRightWord u lev =
      (⟨(lev.leftWord u.newbit).comp.w0, u.dist0, false⟩, lev.leftWord u.newbit) := rfl

theorem memoryMacros_push (hcomp0 : u.comp0 = lev.comp.w0) (lev₂ : OgrLevel64) :
    memoryMacros.pushLevelUpdateState u lev lev₂ =
      (⟨(lev.comp.or (lev.dist.or lev.list)).w0, (lev.dist.or lev.list).w0, true⟩, lev,
        { lev₂ with
          list := lev.list
          dist := lev.dist.or lev.list
          comp := lev.comp.or (lev.dist.or lev.list) }) := by
  simp only [memoryMacros, hcomp0, BMap64.or, BitVec.or_comm lev.list.w1,
    BitVec.or_comm lev.list.w2, BitVec.or_comm lev.list.w3]

end Macros

/-! ## Levels in step -/

/-- Marks and limits are the same. -/
def SameFrame (levels levels' : ℕ → OgrLevel64) : Prop :=
  ∀ i, (levels i).mark = (levels' i).mark ∧ (levels i).limit = (levels' i).limit

/-- A level that has been left for the next one. -/
structure LeftAt (levels : ℕ → OgrLevel64) (i : ℕ) : Prop where
  coherent : (levels i).Coherent false
  disjoint : (levels i).Disjoint
  dist : (levels (i + 1)).dist = (levels i).dist.or (levels i).list

/-- The registers hold what the memory-based core has at depth `d`, and of the levels below the same
`list` and `comp` are stored. -/
structure InStep (v : RegisterVars) (levels : ℕ → OgrLevel64) (u : MemoryVars)
    (levels' : ℕ → OgrLevel64) (d : ℕ) : Prop where
  frame : SameFrame levels levels'
  list : v.list = (levels' d).list
  dist : v.dist = (levels' d).dist
  comp : v.comp = (levels' d).comp
  comp0 : u.comp0 = (levels' d).comp.w0
  newbit : v.newbit = u.newbit
  stored : ∀ i < d, (levels i).list = (levels' i).list ∧ (levels i).comp = (levels' i).comp
  coherent : (levels' d).Coherent u.newbit
  below : ∀ i < d, LeftAt levels' i

/-- The levels that the two cores leave when they stop at depth `d`. -/
def Twin (levels levels' : ℕ → OgrLevel64) (d : ℕ) (newbit : Bool) : Prop :=
  InStep (registerMacros.setupTopState (levels d) newbit) levels
    (memoryMacros.setupTopState (levels' d) newbit) levels' d

namespace InStep

variable {v : RegisterVars} {u : MemoryVars} {levels levels' : ℕ → OgrLevel64} {d s : ℕ}
  {lev' : OgrLevel64}

/-- Updates at depth `d` do not concern the levels below. -/
private theorem leftAt_update (h : ∀ i < d, LeftAt levels' i) {lev' : OgrLevel64}
    (hdist : lev'.dist = (levels' d).dist) :
    ∀ i < d, LeftAt (Function.update levels' d lev') i := by
  intro i hi
  obtain ⟨hcoherent, hdisjoint, hnext⟩ := h i hi
  have hself : Function.update levels' d lev' i = levels' i := Function.update_of_ne hi.ne _ _
  refine ⟨by rwa [hself], by rwa [hself], ?_⟩
  rw [hself, ← hnext]
  by_cases heq : i + 1 = d
  · subst heq
    rw [Function.update_self, hdist]
  · rw [Function.update_of_ne heq]

/-- **Moving the mark** by at most a word. -/
theorem moved (h : InStep v levels u levels' d) (hmoved : (levels' d).MovedBy u.newbit s lev') :
    InStep ⟨lev'.comp, lev'.list, v.dist, false⟩ levels ⟨lev'.comp.w0, u.dist0, false⟩
      (Function.update levels' d lev') d := by
  have hself : Function.update levels' d lev' d = lev' := Function.update_self ..
  refine ⟨fun i ↦ ?_, ?_, ?_, ?_, ?_, rfl, fun i hi ↦ ?_, ?_, leftAt_update h.below hmoved.dist⟩
  · by_cases hi : i = d
    · subst hi
      rw [hself, hmoved.mark, hmoved.limit]
      exact h.frame i
    · rw [Function.update_of_ne hi]
      exact h.frame i
  · rw [hself]
  · rw [hself, hmoved.dist, h.dist]
  · rw [hself]
  · rw [hself]
  · rw [Function.update_of_ne hi.ne]
    exact h.stored i hi
  · rw [hself]
    exact h.coherent.moved hmoved

theorem left (h : InStep v levels u levels' d) (hs : 0 < s) (hs' : s < 64) :
    InStep ⟨v.comp.compLeft s, v.list.listRight v.newbit s, v.dist, false⟩ levels
      ⟨((levels' d).left u.newbit s).comp.w0, u.dist0, false⟩
      (Function.update levels' d ((levels' d).left u.newbit s)) d := by
  have hnext := h.moved ((levels' d).movedBy_left u.newbit hs hs')
  rw [h.comp, h.list, h.newbit]
  exact hnext

theorem leftWord (h : InStep v levels u levels' d) :
    InStep ⟨v.comp.compLeftWord, v.list.listRightWord v.newbit, v.dist, false⟩ levels
      ⟨((levels' d).leftWord u.newbit).comp.w0, u.dist0, false⟩
      (Function.update levels' d ((levels' d).leftWord u.newbit)) d := by
  have hnext := h.moved ((levels' d).movedBy_leftWord u.newbit)
  rw [h.comp, h.list, h.newbit]
  exact hnext

/-- `lev->mark = mark`. -/
theorem setMark (h : InStep v levels u levels' d) (mark : ℤ) :
    InStep v (Function.update levels d { levels d with mark := mark }) u
      (Function.update levels' d { levels' d with mark := mark }) d := by
  have hself : Function.update levels' d { levels' d with mark := mark } d =
      { levels' d with mark := mark } := Function.update_self ..
  refine ⟨fun i ↦ ?_, ?_, ?_, ?_, ?_, h.newbit, fun i hi ↦ ?_, ?_, leftAt_update h.below rfl⟩
  · by_cases hi : i = d
    · subst hi
      rw [Function.update_self, Function.update_self]
      exact ⟨rfl, (h.frame i).2⟩
    · rw [Function.update_of_ne hi, Function.update_of_ne hi]
      exact h.frame i
  · rw [hself, h.list]
  · rw [hself, h.dist]
  · rw [hself, h.comp]
  · rw [hself, h.comp0]
  · rw [Function.update_of_ne hi.ne, Function.update_of_ne hi.ne]
    exact h.stored i hi
  · rw [hself]
    obtain ⟨hblocked, hblockedNew, hbetween, hbetweenNew⟩ := h.coherent
    exact ⟨hblocked, hblockedNew, hbetween, hbetweenNew⟩

/-- **What is saved** is what the search is taken up from. -/
theorem save (h : InStep v levels u levels' d) {newbit : Bool}
    (hnewbit : newbit = true → u.newbit = true) :
    Twin (Function.update levels d (registerMacros.saveFinalState v (levels d)))
      (Function.update levels' d (memoryMacros.saveFinalState u (levels' d))) d newbit := by
  have hself : Function.update levels' d (memoryMacros.saveFinalState u (levels' d)) = levels' :=
    Function.update_eq_self d levels'
  have hcoherent : (levels' d).Coherent newbit := by
    cases newbit with
    | false => exact h.coherent.settled
    | true =>
      have hcoherent := h.coherent
      rwa [hnewbit rfl] at hcoherent
  rw [hself]
  refine ⟨fun i ↦ ?_, ?_, ?_, ?_, rfl, rfl, fun i hi ↦ ?_, hcoherent, h.below⟩
  · by_cases hi : i = d
    · subst hi
      rw [Function.update_self]
      exact h.frame i
    · rw [Function.update_of_ne hi]
      exact h.frame i
  · rw [Function.update_self]
    exact h.list
  · rw [Function.update_self]
    exact h.dist
  · rw [Function.update_self]
    exact h.comp
  · rw [Function.update_of_ne hi.ne]
    exact h.stored i hi

/-- **Going back** a level. -/
theorem pop (h : InStep v levels u levels' (d + 1)) :
    InStep (registerMacros.popLevel v (levels d)) levels (memoryMacros.popLevel u (levels' d))
      levels' d := by
  obtain ⟨hlist, hcomp⟩ := h.stored d (Nat.lt_succ_self d)
  obtain ⟨hcoherent, hdisjoint, hdist⟩ := h.below d (Nat.lt_succ_self d)
  refine ⟨h.frame, hlist, ?_, hcomp, rfl, rfl, fun i hi ↦ h.stored i (Nat.lt_succ_of_lt hi),
    hcoherent, fun i hi ↦ h.below i (Nat.lt_succ_of_lt hi)⟩
  calc v.dist.andNot (levels d).list
    _ = ((levels' d).dist.or (levels' d).list).andNot (levels' d).list := by
      rw [h.dist, hdist, hlist]
    _ = (levels' d).dist := hdisjoint.andNot_or

end InStep

/-! ## Pushing a level -/

theorem OgrState64.limitFrom_of_skeleton {a b : OgrState64} (h : a.skeleton = b.skeleton) :
    a.limitFrom = b.limitFrom := by
  have hmax : a.max = b.max := congrArg OgrState.max h
  have hhalf : a.halfDepth = b.halfDepth := congrArg OgrState.halfDepth h
  have hhalf2 : a.halfDepth2 = b.halfDepth2 := congrArg OgrState.halfDepth2 h
  funext pchoose dist0 halfMark depth
  rw [OgrState64.limitFrom, OgrState64.limitFrom, hmax, hhalf, hhalf2]

section Push

variable {a b : OgrState64} {pchoose : ℕ → U16} {v : RegisterVars} {u : MemoryVars}
  {levels levels' : ℕ → OgrLevel64} {d : ℕ} {lev' : OgrLevel64}

/-- The levels when the mark of level `d` is placed and the next one is set up. -/
private def pushedLevels (levels : ℕ → OgrLevel64) (d : ℕ) (lev lev₂ : OgrLevel64) :
    ℕ → OgrLevel64 :=
  Function.update (Function.update levels d lev) (d + 1) lev₂

private theorem pushedLevels_self (levels : ℕ → OgrLevel64) (d : ℕ) (lev lev₂ : OgrLevel64) :
    pushedLevels levels d lev lev₂ (d + 1) = lev₂ := Function.update_self ..

private theorem pushedLevels_left (levels : ℕ → OgrLevel64) (d : ℕ) (lev lev₂ : OgrLevel64) :
    pushedLevels levels d lev lev₂ d = lev := by
  rw [pushedLevels, Function.update_of_ne (by omega), Function.update_self]

private theorem pushedLevels_of_ne (levels : ℕ → OgrLevel64) {d i : ℕ} (lev lev₂ : OgrLevel64)
    (hd : i ≠ d) (hd' : i ≠ d + 1) : pushedLevels levels d lev lev₂ i = levels i := by
  rw [pushedLevels, Function.update_of_ne hd', Function.update_of_ne hd]

/-- The bitmaps of the next level. -/
private def OgrLevel64.next (lev lev₂ : OgrLevel64) : OgrLevel64 :=
  { lev₂ with
    list := lev.list
    dist := lev.dist.or lev.list
    comp := lev.comp.or (lev.dist.or lev.list) }

private theorem OgrMacros.pushLevel_eq {R : Type} (m : OgrMacros R) (o : OgrState64)
    (pchoose : ℕ → U16) (vars : R) (levels : ℕ → OgrLevel64) (d : ℕ) (lev : OgrLevel64) (mark : ℤ)
    {vars' : R} {lev₁ lev₂ : OgrLevel64}
    (h : m.pushLevelUpdateState vars { lev with mark := mark } (levels (d + 1)) =
      (vars', lev₁, lev₂)) :
    m.pushLevel o pchoose vars levels d lev mark =
      (vars', o.limitFrom pchoose (m.dist0 vars') (pushedLevels levels d lev₁ lev₂ o.halfDepth).mark
          (d + 1),
        pushedLevels levels d lev₁
          { lev₂ with
            limit := o.limitFrom pchoose (m.dist0 vars')
              (pushedLevels levels d lev₁ lev₂ o.halfDepth).mark (d + 1) }) := by
  simp only [OgrMacros.pushLevel, h, pushedLevels, Function.update_idem]

/-- Marks and limits at the current level and the next. -/
private theorem SameFrame.next (h : SameFrame levels (Function.update levels' d lev')) :
    ((levels d).mark = lev'.mark ∧ (levels d).limit = lev'.limit) ∧
      (levels (d + 1)).mark = (levels' (d + 1)).mark ∧
      (levels (d + 1)).limit = (levels' (d + 1)).limit := by
  have hlev := h d
  have hnext := h (d + 1)
  rw [Function.update_self] at hlev
  rw [Function.update_of_ne (by omega)] at hnext
  exact ⟨hlev, hnext⟩

/-- Marks and limits are the same when a level is pushed. -/
private theorem SameFrame.pushed (h : SameFrame levels (Function.update levels' d lev'))
    {lev₁ lev₂ lev₁' lev₂' : OgrLevel64}
    (hlev : lev₁.mark = lev₁'.mark ∧ lev₁.limit = lev₁'.limit)
    (hlev₂ : lev₂.mark = lev₂'.mark ∧ lev₂.limit = lev₂'.limit) :
    SameFrame (pushedLevels levels d lev₁ lev₂) (pushedLevels levels' d lev₁' lev₂') := by
  intro i
  by_cases hi : i = d + 1
  · rw [hi, pushedLevels_self, pushedLevels_self]
    exact hlev₂
  · by_cases hi' : i = d
    · rw [hi', pushedLevels_left, pushedLevels_left]
      exact hlev
    · have hframe := h i
      rwa [Function.update_of_ne hi', ← pushedLevels_of_ne levels lev₁ lev₂ hi' hi,
        ← pushedLevels_of_ne levels' lev₁' lev₂' hi' hi] at hframe

/-- The registers are in step with the next level. -/
private theorem InStep.pushed (h : InStep v levels u (Function.update levels' d lev') d)
    (hdisjoint : lev'.Disjoint) (mark limit : ℤ) :
    InStep ⟨v.comp.or (v.dist.or v.list), v.list, v.dist.or v.list, true⟩
      (pushedLevels levels d { levels d with mark := mark, list := v.list, comp := v.comp }
        { levels (d + 1) with limit := limit })
      ⟨(lev'.comp.or (lev'.dist.or lev'.list)).w0, (lev'.dist.or lev'.list).w0, true⟩
      (pushedLevels levels' d { lev' with mark := mark }
        { lev'.next (levels' (d + 1)) with limit := limit }) (d + 1) := by
  obtain ⟨hframe, hlist, hdist, hcomp, -, -, hstored, hcoherent, hbelow⟩ := h
  have hother {i : ℕ} (hi : i ≠ d) : Function.update levels' d lev' i = levels' i :=
    Function.update_of_ne hi _ _
  obtain ⟨⟨-, hlimit⟩, hmark, -⟩ := hframe.next
  rw [Function.update_self] at hlist hdist hcomp hcoherent
  have hself := pushedLevels_self levels' d { lev' with mark := mark }
    { lev'.next (levels' (d + 1)) with limit := limit }
  have hleft := pushedLevels_left levels' d { lev' with mark := mark }
    { lev'.next (levels' (d + 1)) with limit := limit }
  refine ⟨hframe.pushed ⟨rfl, hlimit⟩ ⟨hmark, rfl⟩, ?_, ?_, ?_, ?_, rfl, fun i hi ↦ ?_, ?_,
    fun i hi ↦ ?_⟩
  · rw [hself, hlist]
    rfl
  · rw [hself, hlist, hdist]
    rfl
  · rw [hself, hlist, hdist, hcomp]
    rfl
  · rw [hself]
    rfl
  · rcases Nat.lt_succ_iff_lt_or_eq.mp hi with hlt | rfl
    · rw [pushedLevels_of_ne levels _ _ hlt.ne (by omega),
        pushedLevels_of_ne levels' _ _ hlt.ne (by omega), ← hother hlt.ne]
      exact hstored i hlt
    · rw [pushedLevels_left, hleft]
      exact ⟨hlist, hcomp⟩
  · rw [hself]
    exact hcoherent.settled.pushed rfl rfl rfl
  · rcases Nat.lt_succ_iff_lt_or_eq.mp hi with hlt | rfl
    · obtain ⟨hcoherent', hdisjoint', hdist'⟩ := hbelow i hlt
      rw [hother hlt.ne] at hcoherent' hdisjoint' hdist'
      refine ⟨?_, ?_, ?_⟩
      · rwa [pushedLevels_of_ne levels' _ _ hlt.ne (by omega)]
      · rwa [pushedLevels_of_ne levels' _ _ hlt.ne (by omega)]
      · rw [pushedLevels_of_ne levels' _ _ hlt.ne (by omega), ← hdist']
        by_cases heq : i + 1 = d
        · rw [heq, hleft, Function.update_self]
        · rw [pushedLevels_of_ne levels' _ _ heq (by omega), hother heq]
    · refine ⟨?_, ?_, ?_⟩
      · rw [hleft]
        obtain ⟨hblocked, -, hbetween, -⟩ := hcoherent
        exact ⟨hblocked, nofun, hbetween, nofun⟩
      · rw [hleft]
        exact hdisjoint
      · rw [hself, hleft]
        rfl

/-- **Placing a mark and going on.** -/
theorem InStep.pushLevel (h : InStep v levels u (Function.update levels' d lev') d)
    (hdisjoint : lev'.Disjoint) (hskeleton : a.skeleton = b.skeleton) (pchoose : ℕ → U16)
    (mark : ℤ) :
    ∃ v' u' limit l l', registerMacros.pushLevel a pchoose v levels d (levels d) mark =
        (v', limit, l) ∧
      memoryMacros.pushLevel b pchoose u levels' d lev' mark = (u', limit, l') ∧
      u'.newbit = true ∧ InStep v' l u' l' (d + 1) := by
  have hcomp0 : u.comp0 = lev'.comp.w0 := by
    have hcomp0 := h.comp0
    rwa [Function.update_self] at hcomp0
  have hreg := registerMacros.pushLevel_eq a pchoose v levels d (levels d) mark rfl
  have hmem := memoryMacros.pushLevel_eq b pchoose u levels' d lev' mark
    (memoryMacros_push (by exact hcomp0) _)
  -- the limits are made of the same marks and the same `dist`
  obtain ⟨⟨-, hlimit⟩, hnext⟩ := h.frame.next
  have hhalf : SameFrame
      (pushedLevels levels d { levels d with mark := mark, list := v.list, comp := v.comp }
        (levels (d + 1)))
      (pushedLevels levels' d { lev' with mark := mark } (lev'.next (levels' (d + 1)))) :=
    h.frame.pushed ⟨rfl, hlimit⟩ hnext
  have hdist0 : v.dist.or v.list = lev'.dist.or lev'.list := by
    have hlist := h.list
    have hdist := h.dist
    rw [Function.update_self] at hlist hdist
    rw [hlist, hdist]
  have hhalfDepth : a.halfDepth = b.halfDepth := congrArg OgrState.halfDepth hskeleton
  have hlimits : a.limitFrom pchoose (v.dist.or v.list).w0
      (pushedLevels levels d { levels d with mark := mark, list := v.list, comp := v.comp }
        (levels (d + 1)) a.halfDepth).mark (d + 1) =
      b.limitFrom pchoose (lev'.dist.or lev'.list).w0
        (pushedLevels levels' d { lev' with mark := mark } (lev'.next (levels' (d + 1)))
          b.halfDepth).mark (d + 1) := by
    rw [OgrState64.limitFrom_of_skeleton hskeleton, hdist0, hhalfDepth, (hhalf b.halfDepth).1]
  refine ⟨_, _, _, _, _, ?_, hmem, rfl, h.pushed hdisjoint mark _⟩
  exact hreg.trans (Prod.ext rfl (Prod.ext hlimits (congrArg (fun limit ↦
    pushedLevels levels d { levels d with mark := mark, list := v.list, comp := v.comp }
      { levels (d + 1) with limit := limit }) hlimits)))

end Push

/-! ## Turn by turn -/

namespace CycleState64

/-- The two searches are at the same place. -/
structure Matches (s : CycleState64 RegisterVars) (t : CycleState64 MemoryVars) : Prop where
  depth : s.depth = t.depth
  mark : s.mark = t.mark
  limit : s.limit = t.limit
  nodes : s.nodes = t.nodes
  inStep : InStep s.vars s.levels t.vars t.levels t.depth

variable {s : CycleState64 RegisterVars} {t : CycleState64 MemoryVars}

/-- **What a move does**, side by side. Where it places the mark no distance is repeated. -/
private theorem Matches.move (h : Matches s t) :
    (s.move registerMacros = .limit ∧ t.move memoryMacros = .limit) ∨
      (∃ s' t', s.move registerMacros = .skip s' ∧ t.move memoryMacros = .skip t' ∧
        Matches s' t') ∨
      ∃ s' t', s.move registerMacros = .place s' ∧ t.move memoryMacros = .place t' ∧
        Matches s' t' ∧ (t'.levels t'.depth).Disjoint := by
  obtain ⟨levels, depth, mark, limit, v, nodes⟩ := s
  obtain ⟨levels', d, mark', limit', u, nodes'⟩ := t
  obtain ⟨hdepth, hmark, hlimit, hnodes, hin⟩ := h
  dsimp only at hdepth hmark hlimit hnodes hin
  subst hdepth hmark hlimit hnodes
  have hword : registerMacros.comp0 v = u.comp0 := by
    rw [hin.comp0, ← hin.comp]
    rfl
  simp only [CycleState64.move, hword, show memoryMacros.comp0 u = u.comp0 from rfl,
    registerMacros_left, registerMacros_leftWord, memoryMacros_left hin.comp0,
    memoryMacros_leftWord, Function.update_eq_self]
  by_cases hblank : u.comp0 < ~~~1#64
  · rw [if_pos hblank, if_pos hblank]
    obtain ⟨hpos, hlt, hfree⟩ := lookupFirstblank64_spec hblank
    generalize lookupFirstblank64 u.comp0 = j at hpos hlt hfree
    split_ifs with hstuck
    · exact .inl ⟨rfl, rfl⟩
    · refine .inr (.inr ⟨_, _, rfl, rfl, ⟨rfl, rfl, rfl, rfl, hin.left hpos hlt⟩, ?_⟩)
      dsimp only
      rw [Function.update_self]
      refine hin.coherent.disjoint ((levels' depth).movedBy_left u.newbit hpos hlt) hpos ?_
      rwa [← BMap64.getMsbD_w0 _ (by omega), ← hin.comp0]
  · rw [if_neg hblank, if_neg hblank]
    split_ifs with hstuck hall
    · exact .inl ⟨rfl, rfl⟩
    · exact .inr (.inl ⟨_, _, rfl, rfl, ⟨rfl, rfl, rfl, rfl, hin.leftWord⟩⟩)
    · refine .inr (.inr ⟨_, _, rfl, rfl, ⟨rfl, rfl, rfl, rfl, hin.leftWord⟩, ?_⟩)
      dsimp only
      rw [Function.update_self]
      refine hin.coherent.disjoint ((levels' depth).movedBy_leftWord u.newbit) (by decide) ?_
      -- all but the last place of the word are blocked
      have hone : u.comp0 = ~~~1#64 := by
        have hge : 2 ^ 64 - 2 ≤ u.comp0.toNat := not_lt.mp hblank
        have hne : u.comp0.toNat ≠ 2 ^ 64 - 1 := fun heq ↦ hall (BitVec.eq_of_toNat_eq heq)
        have hlt := u.comp0.isLt
        refine BitVec.eq_of_toNat_eq ?_
        change u.comp0.toNat = 2 ^ 64 - 2
        omega
      rw [← BMap64.getMsbD_w0 _ (by decide), ← hin.comp0, hone]
      decide

/-- What the two searches leave when they stop at a depth where they may be taken up again. -/
structure ExitMatch (o : OgrState64) (depth : ℤ) (s : CycleState64 RegisterVars)
    (t : CycleState64 MemoryVars) : Prop where
  nodes : s.nodes = t.nodes
  frame : SameFrame s.levels t.levels
  twin : depth = o.maxdepthm1 ∨ o.stopdepth < depth →
    ∃ d : ℕ, depth = d ∧ Twin s.levels t.levels d (decide (d < o.maxdepthm1))

variable {a b : OgrState64} {pchoose : ℕ → U16}

/-- What is saved of matching searches. -/
private theorem Matches.save (h : Matches s t) (o : OgrState64)
    (hnewbit : t.depth < o.maxdepthm1 → t.vars.newbit = true ∨ t.depth ≤ o.stopdepth) :
    ExitMatch o t.depth (s.save registerMacros) (t.save memoryMacros) := by
  obtain ⟨levels, depth, mark, limit, v, nodes⟩ := s
  obtain ⟨levels', d, mark', limit', u, nodes'⟩ := t
  obtain ⟨hdepth, -, -, hnodes, hin⟩ := h
  dsimp only at hdepth hnodes hin
  subst hdepth hnodes
  have hsaved : Twin _ _ depth false := hin.save nofun
  refine ⟨rfl, hsaved.frame, fun hresume ↦ ⟨depth, rfl, hin.save fun hlt ↦ ?_⟩⟩
  have hlt := of_decide_eq_true hlt
  rcases hnewbit hlt with hnew | hstop
  · exact hnew
  · dsimp only at hstop hresume
    omega

/-- What two steps come to. -/
inductive StepMatch (o : OgrState64) : Step RegisterVars → Step MemoryVars → Prop
  | next {s' t'} (h : Matches s' t') : StepMatch o (.next s') (.next t')
  | exit {depth s' t'} (h : ExitMatch o depth s' t') : StepMatch o (.exit depth s') (.exit depth t')
  | outside : StepMatch o .outside .outside

/-- Going back, side by side. -/
private theorem Matches.pop (h : Matches s t) (hskeleton : a.skeleton = b.skeleton) :
    StepMatch b (s.pop registerMacros a) (t.pop memoryMacros b) := by
  have hstopdepth : a.stopdepth = b.stopdepth := congrArg OgrState.stopdepth hskeleton
  obtain ⟨levels, depth, mark, limit, v, nodes⟩ := s
  obtain ⟨levels', d, mark', limit', u, nodes'⟩ := t
  obtain ⟨hdepth, hmark, hlimit, hnodes, hin⟩ := h
  dsimp only at hdepth hmark hlimit hnodes hin
  subst hdepth hmark hlimit hnodes
  rcases depth with _ | d
  · exact .outside
  · obtain ⟨hmark, hlimit⟩ := hin.frame d
    dsimp only [CycleState64.pop]
    rw [hstopdepth]
    split_ifs with hlt
    · exact .next ⟨rfl, hmark, hlimit, rfl, hin.pop⟩
    · have hmatch : Matches ⟨levels, d, mark, limit, _, nodes⟩
          ⟨levels', d, mark, limit, _, nodes⟩ := ⟨rfl, rfl, rfl, rfl, hin.pop⟩
      exact .exit (hmatch.save b fun _ ↦ .inr (not_lt.mp hlt))

/-- Storing the mark, side by side. -/
private theorem Matches.setMark (h : Matches s t) : Matches s.setMark t.setMark := by
  obtain ⟨levels, depth, mark, limit, v, nodes⟩ := s
  obtain ⟨levels', d, mark', limit', u, nodes'⟩ := t
  obtain ⟨hdepth, hmark, hlimit, hnodes, hin⟩ := h
  dsimp only at hdepth hmark hlimit hnodes hin
  subst hdepth hmark hlimit hnodes
  exact ⟨rfl, rfl, rfl, rfl, hin.setMark mark⟩

/-- Going on to the next level, side by side. -/
private theorem Matches.push (h : Matches s t) (hdisjoint : (t.levels t.depth).Disjoint)
    (hskeleton : a.skeleton = b.skeleton) (pchoose : ℕ → U16) :
    Matches (s.push registerMacros a pchoose) (t.push memoryMacros b pchoose) ∧
      (t.push memoryMacros b pchoose).vars.newbit = true := by
  obtain ⟨levels, depth, mark, limit, v, nodes⟩ := s
  obtain ⟨levels', d, mark', limit', u, nodes'⟩ := t
  obtain ⟨hdepth, hmark, hlimit, hnodes, hin⟩ := h
  dsimp only at hdepth hmark hlimit hnodes hin hdisjoint
  subst hdepth hmark hlimit hnodes
  rw [← Function.update_eq_self depth levels'] at hin
  obtain ⟨v', u', limit, l, l', hreg, hmem, hnew, hnext⟩ :=
    hin.pushLevel hdisjoint hskeleton pchoose mark
  simp only [CycleState64.push, hreg, hmem]
  exact ⟨⟨rfl, rfl, rfl, rfl, hnext⟩, hnew⟩

/-- **A step, side by side.** -/
theorem Matches.step (h : Matches s t) (hskeleton : a.skeleton = b.skeleton)
    (pchoose : ℕ → U16) :
    StepMatch b (s.step registerMacros a pchoose) (t.step memoryMacros b pchoose) := by
  have hlast : a.maxdepthm1 = b.maxdepthm1 := congrArg OgrState.maxdepthm1 hskeleton
  simp only [CycleState64.step]
  rcases h.move with ⟨hmove, hmove'⟩ | ⟨s', t', hmove, hmove', hmatch⟩ |
    ⟨s', t', hmove, hmove', hmatch, hdisjoint⟩
  · rw [hmove, hmove']
    exact h.pop hskeleton
  · rw [hmove, hmove']
    exact .next hmatch
  · rw [hmove, hmove']
    dsimp only
    obtain ⟨hpush, hnew⟩ := hmatch.push hdisjoint hskeleton pchoose
    rw [hmatch.depth, hlast, hpush.nodes]
    split_ifs with hfull hspent
    · -- a ruler is complete
      refine .exit (hmatch.setMark.save b fun hlt ↦ ?_)
      exact absurd hfull hlt.ne
    · rw [hpush.depth]
      exact .exit (hpush.setMark.save b fun _ ↦ .inl hnew)
    · exact .next hpush

/-- **A run of steps, side by side.** -/
private theorem Matches.loop (h : Matches s t) (hskeleton : a.skeleton = b.skeleton)
    (pchoose : ℕ → U16) (fuel : ℕ) :
    Option.Rel (fun r r' ↦ r.1 = r'.1 ∧ ExitMatch b r'.1 r.2 r'.2)
      (loop registerMacros a pchoose fuel s) (loop memoryMacros b pchoose fuel t) := by
  induction fuel generalizing s t with
  | zero => exact .none
  | succ fuel ih =>
    rw [CycleState64.loop, CycleState64.loop]
    have hstep := h.step hskeleton pchoose
    generalize s.step registerMacros a pchoose = r at hstep
    generalize t.step memoryMacros b pchoose = r' at hstep
    cases hstep with
    | next hmatch => exact ih hmatch
    | exit hexit => exact .some ⟨rfl, hexit⟩
    | outside => exact .none

/-- The searches are taken up at the same place. -/
private theorem matches_start {d : ℕ} (hskeleton : a.skeleton = b.skeleton) (hdepth : b.depth = d)
    (htwin : Twin a.levels b.levels d (decide (d < b.maxdepthm1))) (nodes : ℤ) :
    Matches (start registerMacros a nodes) (start memoryMacros b nodes) := by
  have hlast : a.maxdepthm1 = b.maxdepthm1 := congrArg OgrState.maxdepthm1 hskeleton
  have hdepth' : a.depth = d := (congrArg OgrState.depth hskeleton).trans hdepth
  obtain ⟨hmark, hlimit⟩ := htwin.frame d
  simp only [start, hdepth, hdepth', hlast, Int.toNat_natCast]
  exact ⟨rfl, hmark, hlimit, rfl, htwin⟩

end CycleState64

/-! ## Calls -/

section Calls

variable {a b : OgrState64} {pchoose : ℕ → U16}

/-- States that are the same but for the bitmaps. -/
private theorem skeleton_eq_iff : a.skeleton = b.skeleton ↔
    SameFrame a.levels b.levels ∧ a = { b with levels := a.levels } := by
  constructor
  · intro h
    refine ⟨fun i ↦ ?_, ?_⟩
    · have hlevel := congrFun (congrArg OgrState.levels h) i
      exact ⟨congrArg OgrLevel.mark hlevel, congrArg OgrLevel.limit hlevel⟩
    · obtain ⟨⟩ := a
      simp only [OgrState64.skeleton, OgrState.mk.injEq] at h
      obtain ⟨rfl, rfl, rfl, rfl, rfl, rfl, rfl, rfl, -⟩ := h
      rfl
  · rintro ⟨hframe, h⟩
    rw [h]
    simp only [OgrState64.skeleton, OgrState.mk.injEq, true_and]
    funext i
    rw [(hframe i).1, (hframe i).2]

private theorem skeleton_of_frame (o : OgrState64) {levels levels' : ℕ → OgrLevel64}
    (hframe : SameFrame levels levels') (depth : ℤ) :
    ({ o with depth := depth, levels := levels } : OgrState64).skeleton =
      ({ o with depth := depth, levels := levels' } : OgrState64).skeleton :=
  skeleton_eq_iff.mpr ⟨hframe, rfl⟩

/-- **States that calls go on from alike**: the same but for the bitmaps, which are those of the
same search. -/
structure OgrState64.Twins (a b : OgrState64) : Prop where
  skeleton : a.skeleton = b.skeleton
  twin : ∃ d : ℕ, b.depth + 1 = d ∧ Twin a.levels b.levels d (decide (d < b.maxdepthm1))

/-- The results of two calls. -/
structure CallMatch (r r' : ℤ × ℤ × OgrState64) : Prop where
  code : r.1 = r'.1
  spent : r.2.1 = r'.2.1
  skeleton : r.2.2.skeleton = r'.2.2.skeleton
  twins : r'.1 = CORE_S_CONTINUE → r.2.2.Twins r'.2.2

/-- **The rounds of a call, side by side.** -/
private theorem entryLoop64_match {o : OgrState64} {levels levels' : ℕ → OgrLevel64} {d : ℕ}
    (hdepth : o.depth = d) (htwin : Twin levels levels' d (decide (d < o.maxdepthm1)))
    (pchoose : ℕ → U16) (fuel : ℕ) (pnodes : ℤ) (rounds : ℕ) (nodesDone : ℤ) :
    Option.Rel CallMatch
      (entryLoop64 registerMacros pchoose fuel pnodes rounds nodesDone { o with levels := levels })
      (entryLoop64 memoryMacros pchoose fuel pnodes rounds nodesDone
        { o with levels := levels' }) := by
  induction rounds generalizing o levels levels' d nodesDone with
  | zero => exact .none
  | succ rounds ih =>
    rw [entryLoop64, entryLoop64, ogrCycle256Core64, ogrCycle256Core64]
    have hskeleton := skeleton_of_frame o htwin.frame o.depth
    have hloop := (CycleState64.matches_start hskeleton hdepth htwin (pnodes - nodesDone)).loop
      hskeleton pchoose fuel
    generalize CycleState64.loop registerMacros _ pchoose fuel _ = r at hloop
    generalize CycleState64.loop memoryMacros _ pchoose fuel _ = r' at hloop
    cases hloop with
    | none => exact .none
    | @some r r' hexit =>
      obtain ⟨depth, s⟩ := r
      obtain ⟨depth', t⟩ := r'
      obtain ⟨rfl, hnodes, hframe, hresume⟩ := hexit
      dsimp only [Option.map_some] at hnodes hframe hresume ⊢
      have hskeleton' (depth : ℤ) := skeleton_of_frame o hframe depth
      rw [hnodes, (hframe depth.toNat).1, hskeleton' depth]
      split_ifs with hfound hreject hout
      · -- the ruler is passed over
        obtain ⟨d', hd', htwin'⟩ := hresume (.inl hfound.1)
        exact ih (o := { o with depth := depth }) hd' htwin' _
      · exact .some ⟨rfl, rfl, hskeleton' (o.stopdepth - 1),
          fun hcode : CORE_S_SUCCESS = CORE_S_CONTINUE ↦ absurd hcode (by decide)⟩
      · exact .some ⟨rfl, rfl, hskeleton' (depth - 1),
          fun hcode : CORE_S_OK = CORE_S_CONTINUE ↦ absurd hcode (by decide)⟩
      · obtain ⟨d', hd', htwin'⟩ := hresume (.inr (not_le.mp hout))
        refine .some ⟨rfl, rfl, hskeleton' (depth - 1),
          fun _ ↦ ⟨hskeleton' (depth - 1), d', ?_, htwin'⟩⟩
        dsimp only
        rw [sub_add_cancel, hd']

/-- **A call, side by side.** -/
theorem OgrState64.Twins.call (h : a.Twins b) (pchoose : ℕ → U16) (fuel : ℕ) (pnodes : ℤ) :
    Option.Rel CallMatch (ogrCycleEntry64 registerMacros pchoose fuel a pnodes)
      (ogrCycleEntry64 memoryMacros pchoose fuel b pnodes) := by
  obtain ⟨hskeleton, d, hd, htwin⟩ := h
  obtain ⟨-, ha⟩ := skeleton_eq_iff.mp hskeleton
  rw [ha, ogrCycleEntry64, ogrCycleEntry64]
  exact entryLoop64_match (o := { b with depth := b.depth + 1 }) hd htwin pchoose fuel
    pnodes fuel 0

end Calls

/-! ## Creating a state -/

section Create

variable {a b : OgrState64} {pchoose : ℕ → U16} {v : RegisterVars} {u : MemoryVars}
  {levels levels' : ℕ → OgrLevel64} {d : ℕ} {lev' : OgrLevel64}

private theorem InStep.word (h : InStep v levels u levels' d) :
    registerMacros.comp0 v = (levels' d).comp.w0 ∧ memoryMacros.comp0 u = (levels' d).comp.w0 :=
  ⟨congrArg BMap64.w0 h.comp, h.comp0⟩

/-- The mark at the level that is being set up. -/
private theorem InStep.stubWords (h : InStep v levels u (Function.update levels' d lev') d)
    {fuel s : ℕ} (hfuel : s ≤ fuel) (hplaced : s = 0 → lev'.Disjoint) :
    (stubWords64 registerMacros fuel s v (levels d) = none ∧
      stubWords64 memoryMacros fuel s u lev' = none) ∨
      ∃ s' v' u' lev'', stubWords64 registerMacros fuel s v (levels d) =
          some (s', v', levels d) ∧
        stubWords64 memoryMacros fuel s u lev' = some (s', u', lev'') ∧ s' < 64 ∧
        (s' = 0 → lev''.Disjoint) ∧ InStep v' levels u' (Function.update levels' d lev'') d := by
  induction fuel generalizing s v u lev' with
  | zero =>
    obtain rfl : s = 0 := Nat.le_zero.mp hfuel
    exact .inr ⟨0, v, u, lev', rfl, rfl, by decide, hplaced, h⟩
  | succ fuel ih =>
    have hself : Function.update levels' d lev' d = lev' := Function.update_self ..
    obtain ⟨hreg, hmem⟩ := h.word
    rw [hself] at hreg hmem
    rw [stubWords64, stubWords64, hreg, hmem]
    split_ifs with hword hblocked
    · exact .inl ⟨rfl, rfl⟩
    · have hnext := h.leftWord
      rw [hself, Function.update_idem] at hnext
      rw [registerMacros_leftWord, memoryMacros_leftWord]
      refine ih hnext (by omega) fun hzero ↦ ?_
      -- the whole words are over, and the last of them was not blocked
      obtain rfl : s = 64 := by omega
      have hfree : lev'.comp.bit (64 - 1) = false := by
        rw [Bool.eq_false_iff, ne_eq, ← lev'.comp.w0_and_shift (by decide) le_rfl]
        exact fun hne ↦ hblocked ⟨rfl, hne⟩
      have hcoherent := h.coherent
      rw [hself] at hcoherent
      exact hcoherent.disjoint (lev'.movedBy_leftWord u.newbit) (by decide) hfree
    · exact .inr ⟨s, v, u, lev', rfl, rfl, by omega, hplaced, h⟩

/-- **Moving the mark by a difference of the stub**, side by side. -/
private theorem InStep.stubMove (h : InStep v levels u levels' d) {s : ℕ} (hs : 0 < s) :
    (stubMove64 registerMacros s v (levels d) = none ∧
      stubMove64 memoryMacros s u (levels' d) = none) ∨
      ∃ v' u' lev', stubMove64 registerMacros s v (levels d) = some (v', levels d) ∧
        stubMove64 memoryMacros s u (levels' d) = some (u', lev') ∧ lev'.Disjoint ∧
        InStep v' levels u' (Function.update levels' d lev') d := by
  rw [← Function.update_eq_self d levels'] at h
  rw [stubMove64, stubMove64]
  rcases h.stubWords le_rfl (fun hzero ↦ absurd hzero hs.ne') with ⟨hreg, hmem⟩ |
    ⟨s', v', u', lev', hreg, hmem, hlt, hplaced, hin⟩
  · rw [hreg, hmem]
    exact .inl ⟨rfl, rfl⟩
  · rw [hreg, hmem]
    dsimp only
    have hself : Function.update levels' d lev' d = lev' := Function.update_self ..
    obtain ⟨hword, hword'⟩ := hin.word
    rw [hself] at hword hword'
    rw [hword, hword']
    split_ifs with hpos hblocked
    · exact .inl ⟨rfl, rfl⟩
    · have hfree : lev'.comp.bit (s' - 1) = false := by
        rwa [Bool.eq_false_iff, ne_eq, ← lev'.comp.w0_and_shift hpos hlt.le]
      have hnext := hin.left hpos hlt
      have hcoherent := hin.coherent
      have hcomp0 := hin.comp0
      rw [hself, Function.update_idem] at hnext
      rw [hself] at hcoherent hcomp0
      rw [registerMacros_left, memoryMacros_left hcomp0]
      exact .inr ⟨_, _, _, rfl, rfl,
        hcoherent.disjoint (lev'.movedBy_left u'.newbit hpos hlt) hpos hfree, hnext⟩
    · exact .inr ⟨v', u', lev', rfl, rfl, hplaced (by omega), hin⟩

/-- **Placing the marks of the stub**, side by side. -/
private theorem createLoop64_match {diffs : Vector U16 28} {left : ℕ} {mark limit : ℤ}
    (h : InStep v levels u levels' (d + 1)) (hnew : u.newbit = true)
    (hskeleton : a.skeleton = b.skeleton)
    (hdiffs : ∀ i, d ≤ i → i < d + left → 0 < stubDiff diffs i) (newbit : Bool) :
    (∃ e, createLoop64 registerMacros a pchoose diffs left (d + 1) mark limit v levels = .error e ∧
      createLoop64 memoryMacros b pchoose diffs left (d + 1) mark limit u levels' = .error e) ∨
      ∃ l l', createLoop64 registerMacros a pchoose diffs left (d + 1) mark limit v levels = .ok l ∧
        createLoop64 memoryMacros b pchoose diffs left (d + 1) mark limit u levels' = .ok l' ∧
        Twin l l' (d + left + 1) newbit := by
  induction left generalizing v u levels levels' d mark limit with
  | zero => exact .inr ⟨_, _, rfl, rfl, h.save fun _ ↦ hnew⟩
  | succ left ih =>
    have hpos : 0 < ((diffs[d + 1 - 1]?).getD 0#16).toNat := hdiffs d le_rfl (by omega)
    rw [createLoop64, createLoop64]
    generalize ((diffs[d + 1 - 1]?).getD 0#16).toNat = s at hpos
    dsimp only
    split_ifs with hlimit
    · exact .inl ⟨_, rfl, rfl⟩
    · rcases h.stubMove hpos with ⟨hreg, hmem⟩ | ⟨v', u', lev', hreg, hmem, hdisjoint, hin⟩
      · rw [hreg, hmem]
        exact .inl ⟨_, rfl, rfl⟩
      · obtain ⟨v'', u'', limit', l, l', hpush, hpush', hnew', hnext⟩ :=
          hin.pushLevel hdisjoint hskeleton pchoose (mark + s)
        rw [hreg, hmem]
        dsimp only
        rw [hpush, hpush']
        rw [show d + (left + 1) + 1 = d + 1 + left + 1 by omega]
        exact ih (hnext.setMark _) hnew' fun i hi hi' ↦ hdiffs i (by omega) (by omega)

/-- **A state is created alike** by the two cores. -/
theorem ogrCreate64_match {cacheHealthy : Bool} {workstub : OgrWorkStub} {lastSegment : ℤ}
    (hdiffs : ∀ i < workstub.placed, 0 < stubDiff workstub.stub.diffs i) :
    (∃ e, ogrCreate64 registerMacros pchoose cacheHealthy workstub lastSegment = .error e ∧
      ogrCreate64 memoryMacros pchoose cacheHealthy workstub lastSegment = .error e) ∨
      ∃ a b, ogrCreate64 registerMacros pchoose cacheHealthy workstub lastSegment = .ok a ∧
        ogrCreate64 memoryMacros pchoose cacheHealthy workstub lastSegment = .ok b ∧
        a.Twins b := by
  have hm1 : (initialState64 workstub).maxdepthm1 = (initialState64 workstub).maxdepth - 1 := rfl
  have hlevels : (initialState64 workstub).levels = fun _ ↦ .zero := rfl
  rw [ogrCreate64, ogrCreate64]
  dsimp only
  generalize (if lastSegment ≠ 0 then (workstub.stub.length.toNat : ℤ) - 1
    else workstub.stub.length.toNat) = stopdepth
  generalize initialState64 workstub = o at hm1 hlevels
  split_ifs with hmarks hcache hplaced
  · exact .inl ⟨_, rfl, rfl⟩
  · exact .inl ⟨_, rfl, rfl⟩
  · exact .inl ⟨_, rfl, rfl⟩
  · -- the level of the first mark, which has its new bit
    have hnew : decide (1 < o.maxdepthm1) = true := by
      have hmin : OGR_NG_MIN ≤ o.maxdepth := not_lt.mp (not_or.mp hmarks).1
      rw [OGR_NG_MIN] at hmin
      exact decide_eq_true (by omega)
    have hfirst (limit : ℤ) : InStep (registerMacros.setupTopState .zero true)
        (Function.update (fun _ ↦ .zero) 1 { OgrLevel64.zero with limit := limit })
        (memoryMacros.setupTopState .zero true)
        (Function.update (fun _ ↦ .zero) 1 { OgrLevel64.zero with limit := limit }) (0 + 1) := by
      have hcoherent : OgrLevel64.Coherent { OgrLevel64.zero with limit := limit } true := by
        have hzero : OgrLevel64.zero.Coherent true := OgrLevel64.coherent_zero
        obtain ⟨hblocked, hblockedNew, hbetween, hbetweenNew⟩ := hzero
        exact ⟨hblocked, hblockedNew, hbetween, hbetweenNew⟩
      refine ⟨fun _ ↦ ⟨rfl, rfl⟩, rfl, rfl, rfl, rfl, rfl, fun i _ ↦ ⟨rfl, rfl⟩, hcoherent,
        fun i hi ↦ ?_⟩
      obtain rfl : i = 0 := by omega
      have hor : BMap64.zero = BMap64.zero.or BMap64.zero := by decide
      exact ⟨OgrLevel64.coherent_zero, fun k _ ↦ BMap64.bit_zero k, hor⟩
    have hdiffs' : ∀ i, 0 ≤ i → i < 0 + workstub.placed →
        0 < stubDiff workstub.stub.diffs i := fun i _ hi ↦ hdiffs i (by omega)
    rw [hnew, hlevels]
    rcases createLoop64_match (a := o) (b := o) (hfirst (choose64 pchoose 0#64 1)) rfl rfl hdiffs'
      (decide (0 + workstub.placed + 1 < o.maxdepthm1)) with
      ⟨e, hreg, hmem⟩ | ⟨l, l', hreg, hmem, htwin⟩
    · rw [hreg, hmem]
      exact .inl ⟨e, rfl, rfl⟩
    · rw [hreg, hmem]
      refine .inr ⟨_, _, rfl, rfl, skeleton_eq_iff.mpr ⟨htwin.frame, rfl⟩, _, ?_, htwin⟩
      push_cast
      omega

end Create

/-! ## Searches within the levels -/

/-- The search does not go back beyond level 0, and what it exports is within the stub. -/
structure OgrState64.Within (o : OgrState64) (workstub : OgrWorkStub) : Prop where
  stop : 0 ≤ o.stopdepth
  last : 0 < o.maxdepthm1
  depth : 0 ≤ o.depth
  result : workstub.collapsed = 0#16 ∨ 0 < o.startdepth ∧ o.startdepth ≤ OGR_STUB_MAX

/-- **A stub that is not collapsed before its first mark.** -/
def OgrWorkStub.Restorable (workstub : OgrWorkStub) (lastSegment : ℤ) : Prop :=
  workstub.stub.length ≠ 0#16 ∨ lastSegment = 0 ∧ workstub.collapsed = 0#16

instance (workstub : OgrWorkStub) (lastSegment : ℤ) : Decidable (workstub.Restorable lastSegment) :=
  inferInstanceAs (Decidable (_ ∨ _))

/-- What calls leave as it is. -/
private theorem entryLoop64_keeps {R : Type} {m : OgrMacros R} {pchoose : ℕ → U16} {fuel rounds : ℕ}
    {o o' : OgrState64} {pnodes nodesDone code spent : ℤ}
    (h : entryLoop64 m pchoose fuel pnodes rounds nodesDone o = some (code, spent, o')) :
    (∃ depth levels, o' = { o with depth := depth, levels := levels }) ∧
      (code = CORE_S_CONTINUE → o.stopdepth ≤ o'.depth) := by
  induction rounds generalizing nodesDone o with
  | zero => cases h
  | succ rounds ih =>
    rw [entryLoop64] at h
    split at h
    · cases h
    · dsimp only at h
      split_ifs at h with hfound hreject hout
      · obtain ⟨⟨depth, levels, ho'⟩, hdepth⟩ := ih h
        exact ⟨⟨depth, levels, ho'⟩, hdepth⟩
      · cases h
        exact ⟨⟨_, _, rfl⟩, fun hcode ↦ absurd hcode (by decide)⟩
      · cases h
        exact ⟨⟨_, _, rfl⟩, fun hcode ↦ absurd hcode (by decide)⟩
      · cases h
        exact ⟨⟨_, _, rfl⟩, fun _ ↦ Int.le_sub_one_of_lt (not_le.mp hout)⟩

/-- **A call** that is to be continued leaves the search within the levels. -/
theorem OgrState64.Within.call {R : Type} {m : OgrMacros R} {pchoose : ℕ → U16} {fuel : ℕ}
    {o o' : OgrState64} {workstub : OgrWorkStub} {pnodes code spent : ℤ} (h : o.Within workstub)
    (hcall : ogrCycleEntry64 m pchoose fuel o pnodes = some (code, spent, o')) :
    (∃ result, ogrGetresult64 o' workstub = some result) ∧
      (code = CORE_S_CONTINUE → o'.Within workstub) := by
  obtain ⟨⟨depth, levels, rfl⟩, hdepth⟩ := entryLoop64_keeps hcall
  exact ⟨exists_ogrGetresult h.result, fun hcode ↦
    ⟨h.stop, h.last, h.stop.trans (hdepth hcode), h.result⟩⟩

/-- **A state that is created** is within the levels. -/
theorem within_of_ogrCreate64 {R : Type} {m : OgrMacros R} {pchoose : ℕ → U16}
    {cacheHealthy : Bool} {workstub : OgrWorkStub} {lastSegment : ℤ} {o : OgrState64}
    (hrestorable : workstub.Restorable lastSegment)
    (h : ogrCreate64 m pchoose cacheHealthy workstub lastSegment = .ok o) :
    o.Within workstub := by
  have hpositive : workstub.stub.length ≠ 0#16 → 0 < workstub.stub.length.toNat :=
    fun hne ↦ Nat.pos_of_ne_zero fun hzero ↦ hne (BitVec.eq_of_toNat_eq hzero)
  have hstop : 0 ≤ (if lastSegment ≠ 0 then (workstub.stub.length.toNat : ℤ) - 1
      else workstub.stub.length.toNat) := by
    split_ifs with hlast
    · have := hpositive (hrestorable.resolve_right fun hzero ↦ hlast hzero.1)
      omega
    · exact Int.natCast_nonneg _
  rw [ogrCreate64] at h
  dsimp only at h
  generalize (if lastSegment ≠ 0 then (workstub.stub.length.toNat : ℤ) - 1
    else workstub.stub.length.toNat) = stopdepth at hstop h
  split_ifs at h with hmarks hcache hplaced
  split at h
  · exact nomatch h
  · obtain rfl := Except.ok.inj h
    have hlength : workstub.stub.length.toNat < OGR_STUB_MAX :=
      (le_max_right _ _).trans_lt (not_le.mp hplaced)
    refine ⟨hstop, ?_, Int.natCast_nonneg _, ?_⟩
    · have hmin : OGR_NG_MIN ≤ (initialState64 workstub).maxdepth := not_lt.mp (not_or.mp hmarks).1
      have hm1 : (initialState64 workstub).maxdepthm1 = (initialState64 workstub).maxdepth - 1 :=
        rfl
      rw [OGR_NG_MIN] at hmin
      dsimp only
      omega
    · exact hrestorable.symm.imp And.right fun hne ↦ ⟨hpositive hne, hlength.le⟩

/-! ## What is seen of the cores -/

/-- What is seen of calls with these budgets, as long as the search continues: the codes, the nodes
spent, all of the state but the bitmaps, and the work that is exported. -/
def OgrMacros.observe {R : Type} (m : OgrMacros R) (pchoose : ℕ → U16) (workstub : OgrWorkStub)
    (fuel : ℕ) : List ℤ → OgrState64 → Option (List (ℤ × ℤ × OgrState × OgrWorkStub))
  | [], _ => some []
  | pnodes :: budgets, o =>
    match ogrCycleEntry64 m pchoose fuel o pnodes with
    | none => none
    | some (code, spent, o) =>
      match ogrGetresult64 o workstub with
      | none => none
      | some result =>
        let seen := (code, spent, o.skeleton, result)
        if code = CORE_S_CONTINUE then (m.observe pchoose workstub fuel budgets o).map (seen :: ·)
        else some [seen]

/-- **The two cores agree** on a stub: both reject it with the same code, or accept it alike and
show the same in all calls, whatever the budgets are, each of which comes to an end. -/
def CoresAgree (pchoose : ℕ → U16) (cacheHealthy : Bool) (workstub : OgrWorkStub)
    (lastSegment : ℤ) : Prop :=
  (∃ e, ogrCreate64 registerMacros pchoose cacheHealthy workstub lastSegment = .error e ∧
    ogrCreate64 memoryMacros pchoose cacheHealthy workstub lastSegment = .error e) ∨
  ∃ a b, ogrCreate64 registerMacros pchoose cacheHealthy workstub lastSegment = .ok a ∧
    ogrCreate64 memoryMacros pchoose cacheHealthy workstub lastSegment = .ok b ∧
    a.skeleton = b.skeleton ∧
    ∀ budgets : List ℤ, (∀ pnodes ∈ budgets, 0 < pnodes) → ∃ N seen, ∀ fuel, N ≤ fuel →
      registerMacros.observe pchoose workstub fuel budgets a = some seen ∧
        memoryMacros.observe pchoose workstub fuel budgets b = some seen

private theorem observe_returns (pchoose : ℕ → U16) {workstub : OgrWorkStub} {budgets : List ℤ}
    (hpos : ∀ pnodes ∈ budgets, 0 < pnodes) {b : OgrState64} (h : b.Within workstub) :
    ∃ N seen, ∀ fuel, N ≤ fuel →
      memoryMacros.observe pchoose workstub fuel budgets b = some seen := by
  induction budgets generalizing b with
  | nil => exact ⟨0, [], fun _ _ ↦ rfl⟩
  | cons pnodes budgets ih =>
    obtain ⟨N, ⟨code, spent, b'⟩, hcall⟩ :=
      ogrCycleEntry64_returns h.stop h.last h.depth (hpos pnodes List.mem_cons_self) pchoose
    obtain ⟨⟨result, hresult⟩, hwithin⟩ := h.call (hcall N le_rfl)
    by_cases hcode : code = CORE_S_CONTINUE
    · obtain ⟨N', seen, hrest⟩ :=
        ih (fun n hn ↦ hpos n (List.mem_cons_of_mem _ hn)) (hwithin hcode)
      refine ⟨max N N', (code, spent, b'.skeleton, result) :: seen, fun fuel hfuel ↦ ?_⟩
      rw [OgrMacros.observe, hcall fuel (le_of_max_le_left hfuel)]
      dsimp only
      rw [hresult]
      dsimp only
      rw [if_pos hcode, hrest fuel (le_of_max_le_right hfuel), Option.map_some]
    · refine ⟨N, [(code, spent, b'.skeleton, result)], fun fuel hfuel ↦ ?_⟩
      rw [OgrMacros.observe, hcall fuel hfuel]
      dsimp only
      rw [hresult]
      dsimp only
      rw [if_neg hcode]

/-- **Calls from twins show the same.** -/
private theorem OgrState64.Twins.observe {a b : OgrState64} (h : a.Twins b) (pchoose : ℕ → U16)
    (workstub : OgrWorkStub) (fuel : ℕ) (budgets : List ℤ) :
    registerMacros.observe pchoose workstub fuel budgets a =
      memoryMacros.observe pchoose workstub fuel budgets b := by
  induction budgets generalizing a b with
  | nil => rfl
  | cons pnodes budgets ih =>
    rw [OgrMacros.observe, OgrMacros.observe]
    have hcall := h.call pchoose fuel pnodes
    generalize ogrCycleEntry64 registerMacros pchoose fuel a pnodes = r at hcall
    generalize ogrCycleEntry64 memoryMacros pchoose fuel b pnodes = r' at hcall
    cases hcall with
    | none => rfl
    | @some r r' hmatch =>
      obtain ⟨code, spent, a'⟩ := r
      obtain ⟨code', spent', b'⟩ := r'
      obtain ⟨rfl, rfl, hskeleton, htwins⟩ := hmatch
      dsimp only at hskeleton htwins ⊢
      rw [show ogrGetresult64 a' workstub = ogrGetresult64 b' workstub from
        congrArg (ogrGetresult · workstub) hskeleton, hskeleton]
      by_cases hcode : code = CORE_S_CONTINUE
      · rw [ih (htwins hcode)]
      · simp only [if_neg hcode]

/-- A stub without a mark, and collapsed. -/
def collapsedStub : OgrWorkStub := { OgrWorkStub.ofDiffs 24 0 0 [] with collapsed := 1#16 }

end Hyunjin
