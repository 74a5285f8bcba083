import Hyunjin.Problem.Loader
import Hyunjin.Problem.Run

/-!
# Calls on a problem of any contest

A run calls the core of the contest on a copy of the problem, and writes the copy back unless the
core fails. A retrieve gives the packet back. The work of an OGR-NG packet is in the memory of the
core, so a retrieve exports it first, to the problem itself. `run_rc572` and `retrieve_rc572` say
that for RC5-72 these are `problemRun` and `problemRetrieveState`.

The core of OGR-NG may never come back, and an export may go out of range; then there is no result.
-/

namespace Hyunjin

/-! ## Runs -/

/-- What the run of a contest leaves on the core's copy. -/
structure CoreRun where
  resultcode : Option Resultcode
  iterations : U32
  contestwork : ContestWork
  unitwork : RC572UnitWork
  refL0 : Key72
  coreMembuffer : OgrState

/-- The core's copy after its run. -/
def CoreRun.leave (r : CoreRun) (p : AnyProblem) : AnyProblem :=
  { p with
    contestwork := r.contestwork
    unitwork := r.unitwork
    refL0 := r.refL0
    coreMembuffer := r.coreMembuffer }

/-- Run a problem. The copy of the core is written back unless its run fails. -/
def AnyProblem.run (p : AnyProblem) (core : AnyProblem → Option CoreRun) : AnyProblem :=
  if p.initialized = false then p
  else
    let p := { p with started := true }
    if p.lastResultcode = some .working then
      match core p with
      | none => p
      | some r =>
        { r.leave p with
          lastResultcode := r.resultcode
          tslice := r.iterations }
    else p

/-- The two words of the work that no contest of the build reads. -/
def AnyProblem.ticket (p : AnyProblem) : U32 × U32 :=
  (p.contestwork.val.getD 18 0#32, p.contestwork.val.getD 19 0#32)

/-- The cores that a run may call: the unit function of RC5-72, and of OGR-NG the cycle, with the
code, the nodes and the state that it comes back with, and its verdict on the cache of limits. -/
structure Cores where
  rc572 : Core
  cycle : OgrState → ℤ → Option (ℤ × ℤ × OgrState)
  checkCache : ℕ → Bool

/-- Run the core of RC5-72; `none` for an error. -/
def AnyProblem.runRC572 (p : AnyProblem) (core : Core) (iterations : U32) : Option CoreRun :=
  (Hyunjin.runRC572 core p.rc572 iterations).map fun (resultcode, iterations, q) ↦
    { resultcode := some resultcode
      iterations := iterations
      contestwork := q.contestwork.toWork q.unused
      unitwork := q.unitwork
      refL0 := q.refL0
      coreMembuffer := p.coreMembuffer }

/-- Count the nodes of a run. -/
def OgrWork.countNodes (work : OgrWork) (nodes : U32) : OgrWork :=
  let newnodeslo := work.nodes.lo + nodes
  { work with
    nodes :=
      { hi := if newnodeslo < work.nodes.lo then work.nodes.hi + 1#32 else work.nodes.hi
        lo := newnodeslo } }

/-- Run the core of OGR-NG; `some none` for an error, and `none` if the core does not come back or
its work cannot be exported. -/
def AnyProblem.runOgrNg (p : AnyProblem) (cores : Cores) (iterations : U32) :
    Option (Option CoreRun) :=
  (cores.cycle p.coreMembuffer iterations.toInt).bind fun (r, nodes, core) ↦
    let nodes := BitVec.ofInt 32 nodes
    let work := (OgrWork.ofWork p.contestwork).countNodes nodes
    let healthy := cores.checkCache core.maxdepth
    let back (resultcode : Resultcode) (work : OgrWork) : CoreRun :=
      { resultcode := some resultcode
        iterations := nodes
        contestwork := work.toWork p.ticket
        unitwork := p.unitwork
        refL0 := p.refL0
        coreMembuffer := core }
    if r = CORE_S_OK then some (if healthy then some (back .nothing work) else none)
    else if r = CORE_S_CONTINUE then some (some (back .working work))
    else if r = CORE_S_SUCCESS then
      (ogrGetresult core work.workstub).map fun workstub ↦
        if healthy then some (back .found { work with workstub := workstub }) else none
    else some none

/-- Run the core of the contest. A contest that is not handled is discarded. -/
def AnyProblem.runCores (p : AnyProblem) (cores : Cores) (iterations : U32) :
    Option (Option CoreRun) :=
  if p.contest = RC5_72 then some (p.runRC572 cores.rc572 iterations)
  else if p.contest = OGR_NG then p.runOgrNg cores iterations
  else
    some <| some
      { resultcode := none
        iterations := iterations
        contestwork := p.contestwork
        unitwork := p.unitwork
        refL0 := p.refL0
        coreMembuffer := p.coreMembuffer }

/-! ## Retrieves -/

/-- Export the work of an OGR-NG packet to the problem; `none` if that goes out of range. -/
def AnyProblem.getresult (p : AnyProblem) : Option AnyProblem :=
  if p.contest = OGR_NG then
    let work := OgrWork.ofWork p.contestwork
    (ogrGetresult p.coreMembuffer work.workstub).map fun workstub ↦
      { p with contestwork := { work with workstub := workstub }.toWork p.ticket }
  else some p

theorem AnyProblem.getresult_keeps {p q : AnyProblem} (h : p.getresult = some q) :
    q.initialized = p.initialized ∧ q.contest = p.contest ∧ q.started = p.started := by
  rw [getresult] at h
  split_ifs at h
  · obtain ⟨workstub, -, rfl⟩ := Option.map_eq_some_iff.mp h
    exact ⟨rfl, rfl, rfl⟩
  · cases h
    exact ⟨rfl, rfl, rfl⟩

/-- What a retrieve gives back: the last result code, `none` if it is negative, and the packet, if
it is wanted. -/
structure Retrieved where
  code : Option Resultcode
  work : Option ContestWork

/-- Give the packet back, if it is wanted, and purge the problem if asked to. -/
def AnyProblem.retrieve (p : AnyProblem) (wanted dopurge : Bool) (g : Globals) :
    Option (Retrieved × AnyProblem × Globals) :=
  if p.initialized = false then some (⟨none, none⟩, p, g)
  else
    (if wanted then p.getresult else some p).map fun p ↦
      let back : Retrieved := ⟨p.lastResultcode, if wanted then some p.contestwork else none⟩
      if dopurge then (back, { p with initialized := false }, g.countPurged p.contest)
      else (back, p, g)

/-! ## RC5-72 -/

/-- What is read from the union is written back. -/
theorem BigCrypto.toWork_ofWork (work : ContestWork) :
    (ofWork work).toWork (work.val.getD 18 0#32, work.val.getD 19 0#32) = work := by
  obtain ⟨words, hlength⟩ := work
  refine Subtype.ext (List.ext_getElem? fun i ↦ ?_)
  rcases Nat.lt_or_ge i 20 with hi | hi
  · have hget : words[i]? = some (words.getD i 0#32) := by
      rw [List.getD_eq_getElem?_getD, List.getElem?_eq_getElem (hlength.symm ▸ hi),
        Option.getD_some]
    rw [hget]
    interval_cases i <;> rfl
  · rw [List.getElem?_eq_none (hlength.trans_le hi), List.getElem?_eq_none]
    exact hi

/-- A run of the core leaves all else of the problem alone. -/
theorem runRC572_keeps {core : Core} {p q : Problem} {n : U32} {resultcode : Resultcode}
    {iterations : U32} (hrun : runRC572 core p n = some (resultcode, iterations, q)) :
    q = { p with contestwork := q.contestwork, unitwork := q.unitwork, refL0 := q.refL0 } := by
  rw [runRC572] at hrun
  dsimp only at hrun
  generalize core p.unitwork (p.keysToCheck n) = r at hrun
  rcases hcode : r.rescode with _ | rescode <;> rw [hcode] at hrun
  · cases hrun
  · dsimp only at hrun
    split_ifs at hrun <;> cases hrun <;> rfl

variable {p : AnyProblem}

/-- **A run of an RC5-72 problem** is `problemRun`. -/
theorem AnyProblem.run_rc572 (p : AnyProblem) (core : Core) :
    (p.run fun p ↦ p.runRC572 core p.tslice).rc572 = (problemRun core p.rc572).2 := by
  have hstarted : ({ p with started := true } : AnyProblem).rc572 = p.rc572 := rfl
  rw [run, problemRun]
  by_cases hinit : p.initialized = false
  · rw [if_pos hinit, if_pos (show p.rc572.initialized = false from hinit)]
  rw [if_neg hinit, if_neg (show ¬p.rc572.initialized = false from hinit)]
  by_cases hwork : p.lastResultcode = some .working
  · rw [if_pos hwork, if_pos (show p.rc572.lastResultcode = some .working from hwork)]
    rw [runRC572, hstarted]
    rcases hrun : Hyunjin.runRC572 core p.rc572 p.tslice with _ | ⟨resultcode, iterations, q⟩
    · rw [show Hyunjin.runRC572 core p.rc572 p.rc572.tslice = none from hrun]
      rfl
    · rw [show Hyunjin.runRC572 core p.rc572 p.rc572.tslice = some (resultcode, iterations, q)
        from hrun, runRC572_keeps hrun]
      rfl
  · rw [if_neg hwork, if_neg (show ¬p.rc572.lastResultcode = some .working from hwork)]
    rfl

/-- **A retrieve of an RC5-72 problem** is `problemRetrieveState`. -/
theorem AnyProblem.retrieve_rc572 (hcontest : p.contest = RC5_72) (dopurge : Bool) (g : Globals) :
    (p.retrieve true dopurge g).map (fun r ↦ ((r.1.code, r.1.work), r.2.1.rc572)) =
      some (problemRetrieveState p.rc572 dopurge) := by
  have hne : p.contest ≠ OGR_NG := by
    rw [hcontest]
    decide
  have hwork : p.rc572.contestwork.toWork p.rc572.unused = p.contestwork :=
    BigCrypto.toWork_ofWork p.contestwork
  rw [retrieve, problemRetrieveState, hwork, getresult, if_neg hne]
  by_cases hinit : p.initialized = false
  · rw [if_pos hinit, if_pos (show p.rc572.initialized = false from hinit)]
    rfl
  · rw [if_neg hinit, if_neg (show ¬p.rc572.initialized = false from hinit)]
    cases dopurge <;> rfl

end Hyunjin
