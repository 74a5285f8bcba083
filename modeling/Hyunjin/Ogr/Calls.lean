import Hyunjin.Ogr.Create

/-!
# Calls of the search

`CycleState.Inv` is the invariant of the turns, and `OgrState.Ready` what it comes to between two
calls. A state that has been created is ready, and so is what a call leaves when its budget is
spent. When a call returns `CORE_S_SUCCESS`, the marks of all levels are placed.

The client calls again only after `CORE_S_CONTINUE`; `Calls` are such calls, with any budgets.
-/

namespace Hyunjin

variable {o o' : OgrState} {pchoose : ℕ → U16}

/-! ## Turns -/

namespace CycleState

structure Inv (o : OgrState) (pchoose : ℕ → U16) (s : CycleState) : Prop where
  standing : Standing o pchoose s.levels s.depth s.mark s.newbit
  limit : s.limit = (s.levels s.depth).limit
  stop : o.stopdepth < s.depth ∨ s.depth = o.maxdepthm1
  nodes : 0 < s.nodes

theorem push_movedTo (o : OgrState) (pchoose : ℕ → U16) (s : CycleState) (lev' : OgrLevel) (t : ℕ) :
    (s.movedTo lev' t).push o pchoose =
      { levels := o.pushLevel pchoose s.levels s.depth lev' (s.mark + t)
        depth := s.depth + 1
        mark := s.mark + t
        limit := (o.pushLevel pchoose s.levels s.depth lev' (s.mark + t) (s.depth + 1)).limit
        newbit := true
        nodes := s.nodes - 1 } := by
  simp only [push, movedTo, OgrState.pushLevel, Function.update_self, Function.update_idem]

theorem setMark_movedTo (s : CycleState) (lev' : OgrLevel) (t : ℕ) :
    (s.movedTo lev' t).setMark.levels =
      Function.update s.levels s.depth { lev' with mark := s.mark + t } := by
  simp only [setMark, movedTo, Function.update_self, Function.update_idem]

theorem setMark_push_movedTo (o : OgrState) (pchoose : ℕ → U16) (s : CycleState) (lev' : OgrLevel)
    (t : ℕ) : ((s.movedTo lev' t).push o pchoose).setMark.levels =
      Function.update (o.pushLevel pchoose s.levels s.depth lev' (s.mark + t)) (s.depth + 1)
        { o.pushLevel pchoose s.levels s.depth lev' (s.mark + t) (s.depth + 1) with
          mark := s.mark + t } := by
  rw [push_movedTo, setMark]

variable {s t : CycleState}

theorem Inv.fits (h : s.Inv o pchoose) {lev' : OgrLevel} {n : ℕ} (hreach : s.Reaches lev' n)
    (hfree : s.level.comp.bit (n - 1) = false) : Fits s.levels s.depth s.mark s.newbit lev' n :=
  ⟨hreach.moved, hreach.pos, hfree, hreach.le.trans_eq h.limit⟩

/-- The search stands at the last mark, and takes up there again. -/
private theorem inv_start {levels : ℕ → OgrLevel} {p nodes : ℤ} {newbit : Bool}
    (h : Standing o pchoose levels o.maxdepthm1 p newbit) (hp : (levels o.maxdepthm1).mark = p)
    (hnodes : 0 < nodes) :
    (start { o with depth := o.maxdepthm1, levels := levels } nodes).Inv o pchoose where
  standing := by
    simp only [start, Int.toNat_natCast]
    rw [hp]
    exact h.newbit_congr fun hlt ↦ absurd hlt (Nat.lt_irrefl _)
  limit := rfl
  stop := .inr (Int.toNat_natCast _)
  nodes := hnodes

/-- **A turn that goes on** keeps the invariant. -/
theorem Inv.turn (h : s.Inv o pchoose) (hstop : -1 ≤ o.stopdepth)
    (hturn : s.turn o pchoose = .next t) : t.Inv o pchoose := by
  have hdoes := does_turn o hstop pchoose s
  rw [hturn] at hdoes
  generalize hres : Turn.next t = res at hdoes
  cases hdoes with
  | @skip lev' reach blocked =>
    cases hres
    refine ⟨h.standing.moved reach.moved reach.pos (reach.le.trans_eq h.limit), ?_, h.stop, h.nodes⟩
    have hself : Function.update s.levels s.depth lev' s.depth = lev' := Function.update_self ..
    exact h.limit.trans (reach.moved.limit.symm.trans (congrArg OgrLevel.limit hself.symm))
  | push reach free depth nodes =>
    cases hres
    rw [push_movedTo]
    have hlt := h.stop.resolve_right depth
    refine ⟨h.standing.push (h.fits reach free), rfl, .inl ?_, ?_⟩
    · push_cast
      omega
    · exact sub_pos.mpr nodes
  | spent reach free depth nodes =>
    rw [settle, if_neg] at hres
    · split at hres <;> cases hres
    · rintro ⟨-, hnodes⟩
      have hpos := h.nodes
      rw [push_movedTo] at hnodes
      exact hnodes (by dsimp only [setMark]; omega)
  | @last lev' n reach free depth =>
    rw [settle] at hres
    split_ifs at hres
    cases hres
    have hmoved := (h.standing.moved reach.moved reach.pos (reach.le.trans_eq h.limit)).setMark
    rw [Function.update_self, Function.update_idem, depth] at hmoved
    rw [setMark_movedTo, depth]
    exact inv_start hmoved (by rw [Function.update_self]) h.nodes
  | pop stuck stop pos =>
    cases hres
    refine ⟨h.standing.pop pos, rfl, .inl ?_, h.nodes⟩
    dsimp only [popped]
    omega
  | ends stuck stop =>
    rw [settle] at hres
    split_ifs at hres with hfound
    cases hres
    have hdepth : s.depth - 1 = o.maxdepthm1 := by omega
    have hpop := h.standing.pop (by omega : 0 < s.depth)
    rw [hdepth] at hpop
    rw [hfound.1]
    exact inv_start hpop rfl h.nodes

/-- A turn that goes on spends a node, goes back a level or moves the mark towards the limit. -/
private theorem Inv.turn_lt (h : s.Inv o pchoose) (hstop : -1 ≤ o.stopdepth)
    (hturn : s.turn o pchoose = .next t) :
    t.nodes < s.nodes ∨ t.nodes = s.nodes ∧ (t.depth < s.depth ∨
      t.depth = s.depth ∧ t.limit = s.limit ∧ s.mark < t.mark ∧ t.mark ≤ t.limit) := by
  have hdoes := does_turn o hstop pchoose s
  rw [hturn] at hdoes
  generalize hres : Turn.next t = res at hdoes
  cases hdoes with
  | skip reach blocked =>
    cases hres
    exact .inr ⟨rfl, .inr ⟨rfl, rfl, lt_add_of_pos_right _ (by decide), reach.le⟩⟩
  | push reach free depth nodes =>
    cases hres
    rw [push_movedTo]
    exact .inl (sub_one_lt _)
  | spent reach free depth nodes =>
    rw [settle, if_neg] at hres
    · split at hres <;> cases hres
    · rintro ⟨-, hnodes⟩
      have hpos := h.nodes
      rw [push_movedTo] at hnodes
      exact hnodes (by dsimp only [setMark]; omega)
  | @last lev' n reach free depth =>
    rw [settle] at hres
    split_ifs at hres
    cases hres
    have hpos := reach.pos
    have hmark : (start { o with depth := s.depth, levels := (s.movedTo lev' n).setMark.levels }
        (s.movedTo lev' n).setMark.nodes).mark = s.mark + n := by
      simp only [start, Int.toNat_natCast, setMark_movedTo, Function.update_self]
    have hlimit : (start { o with depth := s.depth, levels := (s.movedTo lev' n).setMark.levels }
        (s.movedTo lev' n).setMark.nodes).limit = s.limit := by
      simp only [start, Int.toNat_natCast, setMark_movedTo, Function.update_self]
      exact reach.moved.limit.trans h.limit.symm
    refine .inr ⟨rfl, .inr ⟨Int.toNat_natCast _, hlimit, ?_, ?_⟩⟩
    · rw [hmark]
      omega
    · rw [hmark, hlimit]
      exact reach.le
  | pop stuck stop pos =>
    cases hres
    exact .inr ⟨rfl, .inl (Nat.sub_lt pos Nat.one_pos)⟩
  | ends stuck stop =>
    rw [settle] at hres
    split_ifs at hres with hfound
    cases hres
    refine .inr ⟨rfl, .inl ?_⟩
    dsimp only [start]
    omega

/-- **The turns of a call come to an end.** -/
theorem Inv.exists_runs (h : s.Inv o pchoose) (hstop : -1 ≤ o.stopdepth) :
    ∃ r, Runs o pchoose s r := by
  -- by nodes, depth and room for the mark
  generalize hnodes : s.nodes.toNat = nodes
  induction nodes using Nat.strong_induction_on generalizing s with
  | _ nodes ihNodes =>
    generalize hdepth : s.depth = depth
    induction depth using Nat.strong_induction_on generalizing s with
    | _ depth ihDepth =>
      generalize hroom : (s.limit - s.mark).toNat = room
      induction room using Nat.strong_induction_on generalizing s with
      | _ room ihRoom =>
        cases hturn : s.turn o pchoose with
        | stop code depth' t => exact ⟨_, (runs_stop hturn).mpr rfl⟩
        | next t =>
          have ht := h.turn hstop hturn
          have hpos := ht.nodes
          obtain ⟨r, hr⟩ : ∃ r, Runs o pchoose t r := by
            rcases h.turn_lt hstop hturn with hlt | ⟨heq, hlt | ⟨heq', hlimit, hmark, hle⟩⟩
            · exact ihNodes t.nodes.toNat (by omega) ht rfl
            · exact ihDepth t.depth (by omega) ht (by omega) rfl
            · exact ihRoom (t.limit - t.mark).toNat (by omega) ht (by omega) (by omega) rfl
          exact ⟨r, (runs_next hturn).mpr hr⟩

end CycleState

/-! ## Between calls -/

/-- The search can be taken up. -/
structure OgrState.Ready (o : OgrState) (pchoose : ℕ → U16) : Prop where
  resume : ∀ nodes, 0 < nodes → (CycleState.resume o nodes).Inv o pchoose
  stop : -1 ≤ o.stopdepth

/-- A ruler has been found: all its marks are placed, and if it is too long for the bitmaps it has
passed `found_one`. -/
structure OgrState.Found (o : OgrState) (pchoose : ℕ → U16) : Prop where
  placed : ∀ i ≤ o.maxdepthm1, Placed o pchoose o.levels i
  origin : marks o.levels 0 = 0
  foundOne : 2 * OGRNG_BITMAPS_LENGTH < marks o.levels o.maxdepthm1 → foundOne o ≠ 0

namespace CycleState

variable {s s' : CycleState} {code depth : ℤ}

private theorem found_of_settle (hplaced : ∀ i ≤ o.maxdepthm1, Placed o pchoose s.levels i)
    (horigin : marks s.levels 0 = 0) (hnodes : s.nodes ≠ 0)
      (hres : s.settle o o.maxdepthm1 = .stop code depth s') :
    code = CORE_S_SUCCESS ∧
      OgrState.Found { o with depth := depth, levels := s'.levels } pchoose := by
  rw [settle, if_pos ⟨rfl, hnodes⟩, Int.toNat_natCast] at hres
  split_ifs at hres with hreject
  cases hres
  refine ⟨rfl, fun i hi ↦ (hplaced i hi).static _ _ _ _, horigin, fun hlong hone ↦ ?_⟩
  exact hreject ⟨hlong, hone⟩

/-- **What a call leaves.** -/
theorem Inv.stops (h : s.Inv o pchoose) (hstop : -1 ≤ o.stopdepth)
    (hturn : s.turn o pchoose = .stop code depth s') :
    (code = CORE_S_CONTINUE
      ∧ OgrState.Ready { o with depth := depth, levels := s'.levels } pchoose) ∨
      (code = CORE_S_SUCCESS ∧
        OgrState.Found { o with depth := depth, levels := s'.levels } pchoose) ∨
      code = CORE_S_OK := by
  have hdoes := does_turn o hstop pchoose s
  rw [hturn] at hdoes
  generalize hres : Turn.stop code depth s' = res at hdoes
  cases hdoes with
  | skip | push | pop => exact nomatch hres
  | @spent lev' n reach free depth' nodes =>
    have hlt : o.stopdepth < s.depth := h.stop.resolve_right depth'
    have hnodes : ((s.movedTo lev' n).push o pchoose).setMark.nodes = 0 := by
      have := h.nodes
      rw [push_movedTo]
      dsimp only [setMark]
      omega
    rw [settle, if_neg fun hfound ↦ hfound.2 hnodes, if_neg (by omega)] at hres
    cases hres
    refine .inl ⟨rfl, fun nodes' hpos ↦ ⟨?_, rfl, .inl ?_, hpos⟩, hstop⟩
    · have hmark := ((h.standing.push (h.fits reach free)).setMark).static
        o.startdepth o.stopdepth s.depth
        (Function.update (o.pushLevel pchoose s.levels s.depth lev' (s.mark + n)) (s.depth + 1)
          { o.pushLevel pchoose s.levels s.depth lev' (s.mark + n) (s.depth + 1) with
            mark := s.mark + n })
      rw [push_movedTo]
      have hdepth : ((s.depth : ℤ) + 1 - 1 + 1).toNat = s.depth + 1 := by omega
      simp only [resume, start, setMark, hdepth, Function.update_self]
      rw [show (s.depth : ℤ) + 1 - 1 = s.depth by omega]
      exact hmark.newbit_congr fun hlt ↦ decide_eq_true hlt
    · dsimp only [resume, start]
      omega
  | @last lev' n reach free depth' =>
    have hplaced : ∀ i ≤ s.depth, i ≤ o.maxdepthm1 →
        Placed o pchoose (s.movedTo lev' n).setMark.levels i := by
      refine h.standing.placed (h.fits reach free) (fun i hi ↦ ?_) ?_
      · rw [setMark_movedTo, Function.update_of_ne hi.ne]
      · rw [setMark_movedTo, Function.update_self]
    rw [depth'] at hres hplaced
    have hnodes : (s.movedTo lev' n).setMark.nodes ≠ 0 := h.nodes.ne'
    have horigin : marks (s.movedTo lev' n).setMark.levels 0 = 0 := by
      have hd := h.standing.ne_zero reach.pos (reach.le.trans_eq h.limit)
      rw [marks, setMark_movedTo, Function.update_of_ne hd.symm]
      exact h.standing.origin
    exact .inr (.inl (found_of_settle (fun i hi ↦ hplaced i hi hi) horigin hnodes hres.symm))
  | ends stuck stop =>
    by_cases hlast : (s.depth : ℤ) - 1 = o.maxdepthm1
    · rw [hlast] at hres
      refine .inr (.inl (found_of_settle (fun i hi ↦ ?_) h.standing.origin h.nodes.ne' hres.symm))
      exact h.standing.before i (by omega) hi
    · rw [settle, if_neg fun hfound ↦ hlast hfound.1, if_pos stop] at hres
      cases hres
      exact .inr (.inr rfl)

end CycleState

/-! ## Calls -/

/-- Calls with positive budgets, each but the last of which returns `CORE_S_CONTINUE`. -/
inductive Calls (pchoose : ℕ → U16) : OgrState → ℤ → ℤ → OgrState → Prop
  | last {o fuel pnodes code spent o'} (pos : 0 < pnodes)
      (call : ogrCycleEntry pchoose fuel o pnodes = some (code, spent, o')) :
      Calls pchoose o spent code o'
  | more {o fuel pnodes spent o' total code o''} (pos : 0 < pnodes)
      (call : ogrCycleEntry pchoose fuel o pnodes = some (CORE_S_CONTINUE, spent, o'))
      (rest : Calls pchoose o' total code o'') : Calls pchoose o (spent + total) code o''

/-- A call keeps what is fixed by the stub, and leaves a state that is ready or a ruler found. -/
theorem OgrState.Ready.call (h : o.Ready pchoose) {fuel : ℕ} {pnodes code spent : ℤ}
    (hpos : 0 < pnodes) (hcall : ogrCycleEntry pchoose fuel o pnodes = some (code, spent, o')) :
    (∃ depth levels, o' = { o with depth := depth, levels := levels }) ∧
      ((code = CORE_S_CONTINUE ∧ o'.Ready pchoose) ∨ (code = CORE_S_SUCCESS ∧ o'.Found pchoose) ∨
        code = CORE_S_OK) := by
  obtain ⟨depth, s, hruns, -, rfl⟩ := CycleState.runs_of_ogrCycleEntry hcall
  obtain ⟨t, ht, hturn⟩ := hruns.induct
    (h.resume pnodes hpos) fun s t hs hturn ↦ hs.turn h.stop hturn
  exact ⟨⟨depth, s.levels, rfl⟩, ht.stops h.stop hturn⟩

/-- **A call returns**, with fuel enough. -/
theorem OgrState.Ready.returns (h : o.Ready pchoose) {pnodes : ℤ} (hpos : 0 < pnodes) :
    ∃ fuel code spent o', ogrCycleEntry pchoose fuel o pnodes = some (code, spent, o') := by
  obtain ⟨⟨code, depth, s⟩, hruns⟩ := (h.resume pnodes hpos).exists_runs h.stop
  obtain ⟨fuel, hcall⟩ := CycleState.ogrCycleEntry_of_runs hruns
  exact ⟨fuel, _, _, _, hcall⟩

theorem Calls.found {total : ℤ} (hcalls : Calls pchoose o total CORE_S_SUCCESS o')
    (h : o.Ready pchoose) :
    (∃ depth levels, o' = { o with depth := depth, levels := levels }) ∧ o'.Found pchoose := by
  generalize hcode : CORE_S_SUCCESS = code at hcalls
  induction hcalls with
  | last pos call =>
    obtain ⟨hstatic, ⟨rfl, -⟩ | ⟨-, hfound⟩ | rfl⟩ := h.call pos call
    · exact absurd hcode (by decide)
    · exact ⟨hstatic, hfound⟩
    · exact absurd hcode (by decide)
  | more pos call rest ih =>
    obtain ⟨⟨depth, levels, rfl⟩, ⟨-, hready⟩ | ⟨hne, -⟩ | hne⟩ := h.call pos call
    · obtain ⟨⟨depth', levels', rfl⟩, hfound⟩ := ih hready hcode
      exact ⟨⟨depth', levels', rfl⟩, hfound⟩
    · exact absurd hne (by decide)
    · exact absurd hne (by decide)

/-- What `ogrCreate` makes of the stub. -/
structure Created (o : OgrState) (pchoose : ℕ → U16) (workstub : OgrWorkStub) : Prop where
  stub : StubStanding o pchoose workstub.stub.diffs o.levels workstub.placed
  depth : o.depth = workstub.placed
  stop : -1 ≤ o.stopdepth
  stop_le : o.stopdepth ≤ workstub.placed

theorem created_of_ogrCreate {cacheHealthy : Bool} {workstub : OgrWorkStub} {lastSegment : ℤ}
    (hdiffs : ∀ i < workstub.placed, 0 < stubDiff workstub.stub.diffs i)
    (hcreate : ogrCreate pchoose cacheHealthy workstub lastSegment = .ok o) :
    Created o pchoose workstub := by
  obtain ⟨hmin, -, -, -, levels, hloop, rfl⟩ := ogrCreate_eq_ok_iff.mp hcreate
  have hstub := createLoop_standing (stubStanding_topLevels hmin) (by rwa [Nat.zero_add]) hloop
  rw [Nat.zero_add] at hstub
  have hlength : workstub.stub.length.toNat ≤ workstub.placed := le_max_right _ _
  refine ⟨⟨hstub.standing.static _ _ _ _, hstub.placed, hstub.fresh⟩, rfl, ?_, ?_⟩
  · dsimp only [created]
    split_ifs <;> omega
  · dsimp only [created]
    split_ifs <;> omega

/-- **A state that has been created is ready.** -/
theorem Created.ready {workstub : OgrWorkStub}
    (h : Created o pchoose workstub) : o.Ready pchoose := by
  have hdepth : (o.depth + 1).toNat = workstub.placed + 1 := by
    have := h.depth
    omega
  refine ⟨fun nodes hpos ↦ ⟨?_, rfl, .inl ?_, hpos⟩, h.stop⟩
  · simp only [CycleState.resume, CycleState.start, hdepth]
    rw [show (o.levels (workstub.placed + 1)).mark
      = stubMark workstub.stub.diffs workstub.placed from
      h.stub.fresh]
    exact h.stub.standing.newbit_congr fun hlt ↦ decide_eq_true hlt
  · have := h.stop_le
    dsimp only [CycleState.resume, CycleState.start]
    omega

/-! ## Concrete stubs -/

/-- A stub with the given marks, lengths and differences. -/
def OgrWorkStub.ofDiffs (marks length worklength : ℕ) (diffs : List ℕ) : OgrWorkStub where
  stub :=
    { marks := BitVec.ofNat 16 marks
      length := BitVec.ofNat 16 length
      diffs := Vector.ofFn fun i : Fin 28 ↦ BitVec.ofNat 16 (diffs.getD i 0) }
  worklength := BitVec.ofNat 16 worklength
  collapsed := 0#16

theorem exists_created {workstub : OgrWorkStub} {lastSegment : ℤ}
    (h : (ogrCreate pchoose true workstub lastSegment).toOption.isSome = true) :
    ∃ o, ogrCreate pchoose true workstub lastSegment = .ok o := by
  cases hcreate : ogrCreate pchoose true workstub lastSegment with
  | error e =>
    rw [hcreate] at h
    exact nomatch h
  | ok o => exact ⟨o, rfl⟩

/-- What one call on a stub comes to, as far as `f` reads it. -/
theorem exists_call {β : Type} {workstub : OgrWorkStub} {lastSegment pnodes : ℤ} {fuel : ℕ}
    {f : OgrState → ℤ × ℤ × OgrState → β} {v : β}
    (h : ((ogrCreate pchoose true workstub lastSegment).toOption.bind fun o ↦
      (ogrCycleEntry pchoose fuel o pnodes).map (f o)) = some v) :
    ∃ o code spent o', ogrCreate pchoose true workstub lastSegment = .ok o ∧
      ogrCycleEntry pchoose fuel o pnodes = some (code, spent, o') ∧ f o (code, spent, o') = v := by
  obtain ⟨o, ho, hmap⟩ := Option.bind_eq_some_iff.mp h
  obtain ⟨⟨code, spent, o'⟩, hcall, hv⟩ := Option.map_eq_some_iff.mp hmap
  cases hcreate : ogrCreate pchoose true workstub lastSegment with
  | error e =>
    rw [hcreate] at ho
    exact nomatch ho
  | ok o₁ =>
    rw [hcreate] at ho
    cases ho
    exact ⟨o, code, spent, o', rfl, hcall, hv⟩

end Hyunjin
