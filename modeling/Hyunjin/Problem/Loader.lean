import Hyunjin.Buffer.Base
import Hyunjin.Ogr.Load
import Hyunjin.Problem.Resume

/-!
# Loading a packet of any contest

A client loads packets of RC5-72 and OGR-NG through one loader, and the work of a packet is a union
that the contest says how to read. `AnyProblem` is a problem that may hold either; the loads of
`internalLoadState` and `internalLoadOgr` are what this loader does for a packet of their contest
(`load_rc572`, `load_ogrNg`).

Outside of the problem the loader touches `Globals`: the random subspace, in memory and in the ini
file, and the counts of loaded problems. A problem is written back only if the load succeeds, and
only then is it counted. But the subspace is registered as soon as the loader comes to the work of
an RC5-72 packet, and after that the packet may still be found to be corrupted, or the dummy.
`loadAtomic_iff` is the condition on the packet under which a load that is rejected leaves all as it
was.

OGR-P2 is switched off in the build, so its packets are refused like those of a contest that is
over. What a core selects for itself, timers and rates are left out.
-/

namespace Hyunjin

open Word

/-! ## What the loader keeps outside of a problem -/

/-- The random subspace, in memory and in the ini file, and the number of problems that are loaded,
by contest and, at `CONTEST_COUNT`, in total. -/
structure Globals where
  randomSubspace : U32
  ini : Option U32
  loadedProblems : U32 → U32

/-- The globals of a client that has just been started. -/
def Globals.initial (ini : Option U32) : Globals :=
  ⟨1340#32, ini, fun _ ↦ 0#32⟩

/-- The subspaces that are taken over. -/
def Globals.Switches (g : Globals) (subspace : U32) : Prop :=
  subspace ≠ 0#32 ∧ subspace < 0x1000#32 ∧ subspace ≠ g.randomSubspace

instance (g : Globals) (subspace : U32) : Decidable (g.Switches subspace) :=
  inferInstanceAs (Decidable (_ ∧ _))

/-- Register a random subspace; the ini file may not be writable. -/
def problemSetRandomSubspace (iniWritable : Bool) (contest subspace : U32) (updateini : Bool)
    (g : Globals) : Globals :=
  if contest = RC5_72 then
    if g.Switches subspace then
      { g with
        randomSubspace := subspace
        ini := if updateini ∧ iniWritable then some subspace else g.ini }
    else g
  else g

/-- One problem more is loaded, of a contest and in total. -/
def Globals.countLoaded (g : Globals) (contest : U32) : Globals :=
  let loaded := Function.update g.loadedProblems contest (g.loadedProblems contest + 1#32)
  { g with
    loadedProblems := Function.update loaded CONTEST_COUNT (loaded CONTEST_COUNT + 1#32) }

/-- One problem less is loaded. -/
def Globals.countPurged (g : Globals) (contest : U32) : Globals :=
  let loaded := Function.update g.loadedProblems contest (g.loadedProblems contest - 1#32)
  { g with
    loadedProblems := Function.update loaded CONTEST_COUNT (loaded CONTEST_COUNT - 1#32) }

/-! ## The work of a packet -/

/-- The work union as OGR-NG has it, without its last two words. -/
def OgrWork.ofWork (work : ContestWork) : OgrWork :=
  let word (i : ℕ) : U32 := work.val.getD i 0#32
  let half (i : ℕ) : U16 := (word (i / 2)).extractLsb' (16 * (i % 2)) 16
  { workstub :=
      { stub := { marks := half 0, length := half 1, diffs := Vector.ofFn fun i ↦ half (i + 2) }
        worklength := half 30
        collapsed := half 31 }
    nodes := ⟨word 16, word 17⟩ }

/-- The halves of the words of a work stub. -/
def OgrWorkStub.halves (workstub : OgrWorkStub) : List U16 :=
  workstub.stub.marks :: workstub.stub.length :: workstub.stub.diffs.toList ++
    [workstub.worklength, workstub.collapsed]

/-- The work union with the ticket, which the loader does not read. -/
def OgrWork.toWork (work : OgrWork) (ticket : U32 × U32) : ContestWork :=
  ⟨(List.range 16).map (fun i ↦ work.workstub.halves.getD (2 * i + 1) 0#16 ++
      work.workstub.halves.getD (2 * i) 0#16) ++
    [work.nodes.hi, work.nodes.lo, ticket.1, ticket.2], by simp⟩

/-- What the caller asks to be loaded: a packet, or work made up by the loader. -/
inductive Requested
  | packet (work : ContestWork)
  | random (rnd : U32)
  | benchmark

/-- A packet of `2³²` keys from the random subspace. -/
def genRandomWork (g : Globals) (rnd contest : U32) : Option ContestWork :=
  if contest = RC5_72 then
    some <| BigCrypto.toWork
      { key := ⟨(g.randomSubspace >>> 4) &&& 0xFF#32,
          (rnd &&& 0x0FFFFFFF#32) ||| ((g.randomSubspace &&& 0xF#32) <<< 28), 0#32⟩
        iv := ⟨0xF6F57A00#32, 0x4C97D541#32⟩
        plain := ⟨0x6E6B6E75#32, 0x20656854#32⟩
        cypher := ⟨0xA6EC745F#32, 0xBEFCAFE7#32⟩
        keysdone := ⟨0#32, 0#32⟩
        iterations := ⟨1#32, 0#32⟩
        randomsubspace := 0xFFFF#32
        check := ⟨0#32, ⟨0#32, 0#32, 0#32⟩⟩ } (0#32, 0#32)
  else none

/-- A packet that is large enough for a benchmark. -/
def genBenchmarkWork (contest : U32) : Option ContestWork :=
  let zero : Block := ⟨0#32, 0#32⟩
  if contest = RC5_72 then
    some <| BigCrypto.toWork
      { key := ⟨0#32, 0#32, 0#32⟩
        iv := zero
        plain := zero
        cypher := zero
        keysdone := zero
        iterations := ⟨1#32, 0#32⟩
        randomsubspace := 0xFFFF#32
        check := ⟨0#32, ⟨0#32, 0#32, 0#32⟩⟩ } (0#32, 0#32)
  else if contest = OGR_NG then
    some <| OgrWork.toWork
      { workstub :=
          { stub :=
              { marks := 25#16
                length := 6#16
                diffs := Vector.ofFn fun i : Fin 28 ↦
                  [6#16, 9#16, 30#16, 14#16, 10#16, 11#16].getD i 0#16 }
            worklength := 6#16
            collapsed := 0#16 }
        nodes := zero } (0#32, 0#32)
  else none

/-- The work that is asked for, and whether it was made up at random or for a benchmark. -/
def Requested.work (g : Globals) (contest : U32) : Requested → Option (ContestWork × Bool × Bool)
  | .packet work => some (work, false, false)
  | .random rnd => (genRandomWork g rnd contest).map fun work ↦ (work, true, false)
  | .benchmark => (genBenchmarkWork contest).map fun work ↦ (work, false, true)

/-! ## Problems -/

/-- A problem of any contest. The last result code is `none` when it is negative. -/
structure AnyProblem where
  initialized : Bool
  started : Bool
  lastResultcode : Option Resultcode
  contest : U32
  contestwork : ContestWork
  unitwork : RC572UnitWork
  refL0 : Key72
  coreMembuffer : OgrState
  startkeys : Block
  startpermille : ℕ
  wasReset : Bool
  isRandom : Bool
  isBenchmark : Bool
  clientCpu : U32
  coresel : U32
  tslice : U32

/-- A problem that was just allocated is all zero. -/
def AnyProblem.alloc : AnyProblem :=
  { initialized := false
    started := false
    lastResultcode := some .working
    contest := 0#32
    contestwork := ⟨List.replicate 20 0#32, List.length_replicate⟩
    unitwork := problemAlloc.unitwork
    refL0 := problemAlloc.refL0
    coreMembuffer :=
      { max := 0, maxdepth := 0, maxdepthm1 := 0, halfDepth := 0, halfDepth2 := 0, startdepth := 0,
        stopdepth := 0, depth := 0, levels := fun _ ↦ .zero }
    startkeys := ⟨0#32, 0#32⟩
    startpermille := 0
    wasReset := false
    isRandom := false
    isBenchmark := false
    clientCpu := 0#32
    coresel := 0#32
    tslice := 0#32 }

/-- The client that loads: the contests it was built for, the core it selects for each, if any, what
it was built as, its caches of limits, and whether it can write its ini file. -/
structure Loader where
  haveRc572 : Bool
  haveOgr : Bool
  selcore : U32 → Option Selcore
  os : U32
  build : U32
  checkCache : ℕ → Bool
  precompLimits : ℕ → ℕ → U16
  iniWritable : Bool

def Loader.isProblemLoadPermitted (loader : Loader) (contest : U32) : Bool :=
  if contest = RC5_72 then loader.haveRc572
  else if contest = OGR_NG then loader.haveOgr
  else false

/-- The client as the loads of one contest know it. -/
def Loader.host (loader : Loader) (contest : U32) : Host where
  loadPermitted := loader.isProblemLoadPermitted contest
  selcore := loader.selcore contest
  os := loader.os
  build := loader.build

/-- Another client has begun the work. -/
def Host.Foreign (host : Host) (sel : Selcore) (expected : Provenance) : Prop :=
  sel.clientCpu ≠ expected.cpu ∨ sel.coresel ≠ expected.core ∨ host.os ≠ expected.os ∨
    host.build ≠ expected.build

instance (host : Host) (sel : Selcore) (expected : Provenance) :
    Decidable (host.Foreign sel expected) := inferInstanceAs (Decidable (_ ∨ _))

/-! ## Loading -/

/-- The permille of an RC5-72 packet, in 64-bit arithmetic. -/
def computePermilleRC572 (b : BigCrypto) : ℕ :=
  if b.keysdone.int = 0 then 0
  else if b.keysdone.int < b.iterations.int then
    min (b.keysdone.int * 1000 % 2 ^ 64 / b.iterations.int % 2 ^ 32) 1000
  else 1000

/-- What is set before the work is looked at. -/
def AnyProblem.prepare (p : AnyProblem) (contest iterations : U32) (isRandom isBenchmark : Bool)
    (sel : Selcore) : AnyProblem :=
  { p with
    lastResultcode := none
    started := false
    initialized := false
    startpermille := 0
    startkeys := ⟨0#32, 0#32⟩
    contest := contest
    tslice := iterations
    wasReset := false
    isRandom := isRandom
    isBenchmark := isBenchmark
    coresel := sel.coresel
    clientCpu := sel.clientCpu }

/-- The work of an RC5-72 packet. -/
def AnyProblem.loadRC572 (p : AnyProblem) (b : BigCrypto) (foreign : Prop)
    [Decidable foreign] :
    Except LoadError AnyProblem :=
  let wasReset := (b.keysdone.lo ≠ 0#32 ∨ b.keysdone.hi ≠ 0#32) ∧ foreign
  let b := if wasReset then b.restart else b
  if 0xFF#32 < b.key.hi then .error .retry
  else if b.IsDummy then .error .retry
  else
    let ticket := (p.contestwork.val.getD 18 0#32, p.contestwork.val.getD 19 0#32)
    .ok
      { p with
        contestwork := b.toWork ticket
        wasReset := wasReset
        unitwork := unitworkOf b
        refL0 := (unitworkOf b).L0
        startkeys := b.keysdone
        startpermille := computePermilleRC572 b }

/-- The work of an OGR-NG packet, with the ticket that goes with it. -/
def AnyProblem.loadOgrNg (p : AnyProblem) (loader : Loader) (work : OgrWork) (ticket : U32 × U32)
    (foreign : Prop) [Decidable foreign] : Option (Except LoadError AnyProblem) :=
  let wasReset := (work.nodes.hi ≠ 0#32 ∨ work.nodes.lo ≠ 0#32) ∧ foreign
  (if wasReset then work.restart else some work).bind fun work ↦
  if ogrInit ≠ CORE_S_OK then some (.error .retry)
  else
    let marks := work.workstub.stub.marks.toNat
    (ogrCreateChecked (loader.precompLimits marks) (loader.checkCache marks) work.workstub
      work.workstub.collapsed.toNat).bind fun
    | .error _ => some (.error .retry)
    | .ok core =>
      let begun := work.workstub.stub.length < work.workstub.worklength
      (if begun then computePermille work.workstub else some 0).map fun permille ↦
      .ok
        { p with
          contestwork := work.toWork ticket
          wasReset := wasReset
          coreMembuffer := core
          startkeys := if begun then work.nodes else p.startkeys
          startpermille := if begun then permille else p.startpermille }

/-- The guts of a load, on a copy of the problem; `none` if it comes to an access out of range. -/
def AnyProblem.internalLoad (p : AnyProblem) (loader : Loader) (requested : Requested)
    (contest iterations : U32) (expected : Provenance) (g : Globals) :
    Option (Except LoadError AnyProblem × Globals) :=
  match requested.work g contest with
  | none => some (.error .abort, g)
  | some (work, isRandom, isBenchmark) =>
    if p.initialized then some (.error .retry, g)
    else if loader.isProblemLoadPermitted contest = false then some (.error .retry, g)
    else
      match loader.selcore contest with
      | none => some (.error .abort, g)
      | some sel =>
        if contest = RC5_72 ∧ MINIMUM_ITERATIONS.toNat % sel.pipelineCount ≠ 0 then
          some (.error .abort, g)
        else
          let p := p.prepare contest iterations isRandom isBenchmark sel
          let foreign := (loader.host contest).Foreign sel expected
          let done (g : Globals) :
              Except LoadError AnyProblem → Except LoadError AnyProblem × Globals
            | .error e => (.error e, g)
            | .ok p => (.ok { p with lastResultcode := some .working, initialized := true },
                g.countLoaded contest)
          if contest = RC5_72 then
            let b := BigCrypto.ofWork work
            let g := problemSetRandomSubspace loader.iniWritable RC5_72 b.randomsubspace true g
            some (done g (p.loadRC572 b foreign))
          else if contest = OGR_NG then
            let ticket := (work.val.getD 18 0#32, work.val.getD 19 0#32)
            (p.loadOgrNg loader (OgrWork.ofWork work) ticket foreign).map (done g)
          else
            -- a contest that is not handled is not permitted
            some (done g (.ok p))

/-- Load a packet. The problem is written back only on success. -/
def AnyProblem.load (p : AnyProblem) (loader : Loader) (requested : Requested)
    (contest iterations : U32) (expected : Provenance) (g : Globals) :
    Option (ℤ × AnyProblem × Globals) :=
  (p.internalLoad loader requested contest iterations expected g).map fun
    | (.error e, g) => (e.code, p, g)
    | (.ok q, g) => (0, q, g)

/-! ## The loads of one contest -/

/-- A problem as RC5-72 has it. -/
def AnyProblem.rc572 (p : AnyProblem) : Problem where
  initialized := p.initialized
  lastResultcode := p.lastResultcode
  contestwork := BigCrypto.ofWork p.contestwork
  unused := (p.contestwork.val.getD 18 0#32, p.contestwork.val.getD 19 0#32)
  unitwork := p.unitwork
  refL0 := p.refL0
  startkeys := p.startkeys
  wasReset := p.wasReset
  clientCpu := p.clientCpu
  coresel := p.coresel
  tslice := p.tslice

/-- A problem as OGR-NG has it. -/
def AnyProblem.ogrNg (p : AnyProblem) : OgrProblem where
  initialized := p.initialized
  lastResultcode := p.lastResultcode
  contestwork := OgrWork.ofWork p.contestwork
  coreMembuffer := p.coreMembuffer
  startkeys := p.startkeys
  startpermille := p.startpermille
  wasReset := p.wasReset
  clientCpu := p.clientCpu
  coresel := p.coresel
  tslice := p.tslice

private theorem OgrWork.half_toWork (work : OgrWork) (ticket : U32 × U32) {i : ℕ} (hi : i < 32) :
    ((work.toWork ticket).val.getD (i / 2) 0#32).extractLsb' (16 * (i % 2)) 16 =
      work.workstub.halves.getD i 0#16 := by
  have hword : (work.toWork ticket).val.getD (i / 2) 0#32 =
      work.workstub.halves.getD (2 * (i / 2) + 1) 0#16 ++
        work.workstub.halves.getD (2 * (i / 2)) 0#16 := by
    have hlt : i / 2 < 16 := by omega
    rw [toWork, List.getD_append _ _ _ _ (by simpa using hlt), List.getD_eq_getElem?_getD,
      List.getElem?_map, List.getElem?_range hlt]
    rfl
  rw [hword]
  rcases Nat.mod_two_eq_zero_or_one i with hmod | hmod
  · rw [hmod, show 2 * (i / 2) = i by omega]
    exact BitVec.extractLsb'_append_eq_right
  · rw [hmod, show 2 * (i / 2) + 1 = i by omega]
    exact BitVec.extractLsb'_append_eq_left

/-- What is written to the union is read back. -/
theorem OgrWork.ofWork_toWork (work : OgrWork) (ticket : U32 × U32) :
    OgrWork.ofWork (work.toWork ticket) = work := by
  have hdiffs (i : ℕ) (hi : i < 28) :
      work.workstub.halves.getD (i + 2) 0#16 = work.workstub.stub.diffs[i] := by
    rw [OgrWorkStub.halves, List.cons_append, List.cons_append, List.getD_cons_succ,
      List.getD_cons_succ, List.getD_append _ _ _ _ (by simpa using hi)]
    simp [List.getD_eq_getElem?_getD, hi]
  have hlast (i : ℕ) : work.workstub.halves.getD (i + 30) 0#16 =
      [work.workstub.worklength, work.workstub.collapsed].getD i 0#16 := by
    rw [OgrWorkStub.halves, List.cons_append, List.cons_append, List.getD_cons_succ,
      List.getD_cons_succ, List.getD_append_right _ _ _ _ (by simp)]
    simp
  obtain ⟨⟨⟨marks, length, diffs⟩, worklength, collapsed⟩, nodes⟩ := work
  simp only [ofWork, OgrWork.mk.injEq, OgrWorkStub.mk.injEq, OgrStub.mk.injEq]
  refine ⟨⟨⟨?_, ?_, Vector.ext fun i hi ↦ ?_⟩, ?_, ?_⟩, rfl⟩
  · exact half_toWork _ _ (by decide : 0 < 32)
  · exact half_toWork _ _ (by decide : 1 < 32)
  · rw [Vector.getElem_ofFn, half_toWork _ _ (by omega)]
    exact hdiffs i hi
  · exact (half_toWork _ _ (by decide : 30 < 32)).trans (hlast 0)
  · exact (half_toWork _ _ (by decide : 31 < 32)).trans (hlast 1)

variable {p : AnyProblem} {loader : Loader} {contest iterations : U32} {expected : Provenance}
  {g : Globals}

/-- **An RC5-72 packet** is loaded as `problemLoadState` does it. -/
theorem AnyProblem.load_rc572 (work : ContestWork) :
    (p.load loader (.packet work) RC5_72 iterations expected g).map (fun r ↦ (r.1, r.2.1.rc572)) =
      some (problemLoadState (loader.host RC5_72) work iterations expected p.rc572) := by
  rw [load, internalLoad, problemLoadState, internalLoadState]
  dsimp only [Requested.work]
  by_cases hinit : p.initialized = true
  · rw [if_pos hinit, if_pos (show p.rc572.initialized = true from hinit)]
    rfl
  rw [if_neg hinit, if_neg (show ¬p.rc572.initialized = true from hinit)]
  by_cases hpermit : loader.isProblemLoadPermitted RC5_72 = false
  · rw [if_pos hpermit, if_pos (show (loader.host RC5_72).loadPermitted = false from hpermit)]
    rfl
  rw [if_neg hpermit, if_neg (show ¬(loader.host RC5_72).loadPermitted = false from hpermit),
    show (loader.host RC5_72).selcore = loader.selcore RC5_72 from rfl]
  rcases loader.selcore RC5_72 with _ | sel
  · rfl
  dsimp only
  by_cases hpipe : MINIMUM_ITERATIONS.toNat % sel.pipelineCount ≠ 0
  · rw [if_pos ⟨rfl, hpipe⟩, if_pos hpipe]
    rfl
  rw [if_neg fun h ↦ hpipe h.2, if_neg hpipe, if_pos rfl, AnyProblem.loadRC572]
  have hforeign : ((loader.host RC5_72).Foreign sel expected) = (sel.clientCpu ≠ expected.cpu ∨
      sel.coresel ≠ expected.core ∨ (loader.host RC5_72).os ≠ expected.os ∨
        (loader.host RC5_72).build ≠ expected.build) := rfl
  simp only [← hforeign]
  by_cases hreset : ((BigCrypto.ofWork work).keysdone.lo ≠ 0#32 ∨
    (BigCrypto.ofWork work).keysdone.hi ≠ 0#32) ∧ (loader.host RC5_72).Foreign sel expected
  · simp only [hreset]
    split_ifs <;> rfl
  · simp only [hreset]
    split_ifs <;> rfl

/-- **An OGR-NG packet** is loaded as `problemLoadOgr` does it. -/
theorem AnyProblem.load_ogrNg (work : ContestWork) :
    (p.load loader (.packet work) OGR_NG iterations expected g).map (fun r ↦ (r.1, r.2.1.ogrNg)) =
      problemLoadOgr (loader.host OGR_NG) loader.checkCache loader.precompLimits
        (OgrWork.ofWork work) iterations expected p.ogrNg := by
  have hne : OGR_NG ≠ RC5_72 := by decide
  rw [load, internalLoad, problemLoadOgr, internalLoadOgr]
  dsimp only [Requested.work]
  by_cases hinit : p.initialized = true
  · rw [if_pos hinit, if_pos (show p.ogrNg.initialized = true from hinit)]
    rfl
  rw [if_neg hinit, if_neg (show ¬p.ogrNg.initialized = true from hinit)]
  by_cases hpermit : loader.isProblemLoadPermitted OGR_NG = false
  · rw [if_pos hpermit, if_pos (show (loader.host OGR_NG).loadPermitted = false from hpermit)]
    rfl
  rw [if_neg hpermit, if_neg (show ¬(loader.host OGR_NG).loadPermitted = false from hpermit),
    show (loader.host OGR_NG).selcore = loader.selcore OGR_NG from rfl]
  rcases loader.selcore OGR_NG with _ | sel
  · rfl
  dsimp only
  rw [if_neg fun h ↦ hne h.1, if_neg hne, if_pos rfl, AnyProblem.loadOgrNg]
  have hforeign : ((loader.host OGR_NG).Foreign sel expected) = (sel.clientCpu ≠ expected.cpu ∨
      sel.coresel ≠ expected.core ∨ (loader.host OGR_NG).os ≠ expected.os ∨
        (loader.host OGR_NG).build ≠ expected.build) := rfl
  simp only [← hforeign, Option.map_bind]
  refine congrArg (Option.bind _) (funext fun w ↦ ?_)
  dsimp only [Function.comp_apply]
  by_cases hogr : ogrInit ≠ CORE_S_OK
  · rw [if_pos hogr, if_pos hogr]
    rfl
  rw [if_neg hogr, if_neg hogr]
  simp only [Option.map_bind]
  refine congrArg (Option.bind _) (funext fun core ↦ ?_)
  rcases core with e | core
  · rfl
  by_cases hbegun : w.workstub.stub.length < w.workstub.worklength
  · simp only [Function.comp_apply, Option.map_map, hbegun, if_true]
    refine congrArg (fun f ↦ Option.map f _) (funext fun permille ↦ ?_)
    simp only [Function.comp_apply, ogrNg, OgrWork.ofWork_toWork]
    rfl
  · simp only [Function.comp_apply, Option.map_some, hbegun, if_false, ogrNg,
      OgrWork.ofWork_toWork]
    rfl

/-! ## Loads that are rejected -/

/-- A load that is rejected leaves the problem and the globals as they were. -/
def LoadAtomic (p : AnyProblem) (loader : Loader) (work : ContestWork) (contest iterations : U32)
    (expected : Provenance) (g : Globals) : Prop :=
  ∀ code p' g', p.load loader (.packet work) contest iterations expected g = some (code, p', g') →
    code ≠ 0 → p' = p ∧ g' = g

/-- A packet with a new subspace that is looked at, and then found to be corrupted or the dummy. -/
structure SwitchedThenRejected (p : AnyProblem) (loader : Loader) (work : ContestWork)
    (contest : U32) (g : Globals) : Prop where
  contest : contest = RC5_72
  initialized : p.initialized = false
  ready : ∃ sel, (loader.host RC5_72).Ready sel
  switches : g.Switches (BigCrypto.ofWork work).randomsubspace
  rejected : ¬(BigCrypto.ofWork work).key.Valid ∨ (BigCrypto.ofWork work).IsDummy

/-- When the work of an RC5-72 packet is rejected. -/
private theorem AnyProblem.loadRC572_error (p : AnyProblem) (b : BigCrypto) (foreign : Prop)
    [Decidable foreign] :
    (∃ q, p.loadRC572 b foreign = .ok q ∧ q.contest = p.contest ∧ q.started = p.started ∧
      b.key.Valid ∧ ¬b.IsDummy) ∨
      p.loadRC572 b foreign = .error .retry ∧ (¬b.key.Valid ∨ b.IsDummy) := by
  rw [loadRC572]
  generalize hmoved : (if (b.keysdone.lo ≠ 0#32 ∨ b.keysdone.hi ≠ 0#32) ∧ foreign then b.restart
    else b) = b'
  have hkey : b'.key = b.key := by
    rw [← hmoved]
    split_ifs <;> rfl
  have hdummy : b'.IsDummy ↔ b.IsDummy := by
    rw [← hmoved]
    split_ifs <;> rfl
  have hvalid : 0xFF#32 < b'.key.hi ↔ ¬b.key.Valid := by
    rw [hkey, BitVec.lt_def, Key72.Valid, BitVec.toNat_ofNat]
    omega
  dsimp only
  simp only [hvalid, hdummy]
  by_cases h : b.key.Valid
  · rw [if_neg (not_not.mpr h)]
    by_cases h' : b.IsDummy
    · rw [if_pos h']
      exact .inr ⟨rfl, .inr h'⟩
    · rw [if_neg h']
      exact .inl ⟨_, rfl, rfl, rfl, h, h'⟩
  · rw [if_pos h]
    exact .inr ⟨rfl, .inl h⟩

/-- **All that a load can do**: reject what is asked for and leave the globals, reject an RC5-72
packet after its subspace was registered, or load. -/
inductive AnyProblem.Loads (p : AnyProblem) (loader : Loader) (requested : Requested)
    (contest : U32) (g : Globals) : Except LoadError AnyProblem → Globals → Prop
  | refused (e) : Loads p loader requested contest g (.error e) g
  | rejected {work isRandom isBenchmark} (isRC572 : contest = RC5_72)
      (empty : p.initialized = false) (ready : ∃ sel, (loader.host RC5_72).Ready sel)
      (found : requested.work g RC5_72 = some (work, isRandom, isBenchmark))
      (bad : ¬(BigCrypto.ofWork work).key.Valid ∨ (BigCrypto.ofWork work).IsDummy) :
      Loads p loader requested contest g (.error .retry)
        (problemSetRandomSubspace loader.iniWritable RC5_72 (BigCrypto.ofWork work).randomsubspace
          true g)
  | loaded {q g'} (permitted : contest = RC5_72 ∨ contest = OGR_NG)
      (empty : p.initialized = false) (initialized : q.initialized = true)
      (sameContest : q.contest = contest) (notStarted : q.started = false)
      (counted : g'.loadedProblems = (g.countLoaded contest).loadedProblems) :
      Loads p loader requested contest g (.ok q) g'

private theorem AnyProblem.loadOgrNg_keeps {q : AnyProblem} {work : OgrWork}
    {ticket : U32 × U32} {foreign : Prop} [Decidable foreign]
    (h : p.loadOgrNg loader work ticket foreign = some (.ok q)) :
    q.contest = p.contest ∧ q.started = p.started := by
  rw [loadOgrNg] at h
  obtain ⟨w, -, h⟩ := Option.bind_eq_some_iff.mp h
  dsimp only at h
  rw [if_neg (by decide : ¬ogrInit ≠ CORE_S_OK)] at h
  obtain ⟨core, -, h⟩ := Option.bind_eq_some_iff.mp h
  cases core with
  | error e => cases h
  | ok core =>
    obtain ⟨permille, -, h⟩ := Option.map_eq_some_iff.mp h
    cases h
    exact ⟨rfl, rfl⟩

theorem Globals.loadedProblems_setRandomSubspace (iniWritable : Bool) (contest subspace : U32)
    (updateini : Bool) (g : Globals) :
    (problemSetRandomSubspace iniWritable contest subspace updateini g).loadedProblems =
      g.loadedProblems := by
  rw [problemSetRandomSubspace]
  split_ifs <;> rfl

theorem AnyProblem.loads_of_internalLoad {requested : Requested}
    {r : Except LoadError AnyProblem} {g' : Globals}
    (hload : p.internalLoad loader requested contest iterations expected g = some (r, g')) :
    p.Loads loader requested contest g r g' := by
  rw [internalLoad] at hload
  rcases hwork : requested.work g contest with _ | ⟨work, isRandom, isBenchmark⟩
  · rw [hwork] at hload
    cases hload
    exact .refused _
  rw [hwork] at hload
  dsimp only at hload
  by_cases hinit : p.initialized = true
  · rw [if_pos hinit] at hload
    cases hload
    exact .refused _
  rw [if_neg hinit] at hload
  by_cases hpermit : loader.isProblemLoadPermitted contest = false
  · rw [if_pos hpermit] at hload
    cases hload
    exact .refused _
  rw [if_neg hpermit] at hload
  rcases hsel : loader.selcore contest with _ | sel
  · rw [hsel] at hload
    cases hload
    exact .refused _
  rw [hsel] at hload
  dsimp only at hload
  by_cases hpipe : contest = RC5_72 ∧ MINIMUM_ITERATIONS.toNat % sel.pipelineCount ≠ 0
  · rw [if_pos hpipe] at hload
    cases hload
    exact .refused _
  rw [if_neg hpipe] at hload
  have hinit' : p.initialized = false := (Bool.not_eq_true _).mp hinit
  -- beyond these checks it is up to the contest
  by_cases hrc5 : contest = RC5_72
  · subst hrc5
    rw [if_pos rfl] at hload
    have hready : (loader.host RC5_72).Ready sel :=
      ⟨(Bool.not_eq_false _).mp hpermit, hsel, by_contra fun h ↦ hpipe ⟨rfl, h⟩⟩
    rcases (p.prepare RC5_72 iterations isRandom isBenchmark sel).loadRC572_error
      (BigCrypto.ofWork work) ((loader.host RC5_72).Foreign sel expected) with
      ⟨q, hok, hcontest, hstarted, -⟩ | ⟨herr, hreject⟩
    · rw [hok] at hload
      cases hload
      refine .loaded (.inl rfl) hinit' rfl hcontest hstarted ?_
      rw [Globals.countLoaded, Globals.countLoaded, Globals.loadedProblems_setRandomSubspace]
    · rw [herr] at hload
      cases hload
      exact .rejected rfl hinit' ⟨sel, hready⟩ hwork hreject
  rw [if_neg hrc5] at hload
  by_cases hogr : contest = OGR_NG
  · rw [if_pos hogr] at hload
    obtain ⟨res, hres, hdone⟩ := Option.map_eq_some_iff.mp hload
    cases res with
    | error e =>
      cases hdone
      exact .refused _
    | ok q =>
      cases hdone
      obtain ⟨hcontest, hstarted⟩ := loadOgrNg_keeps hres
      exact .loaded (.inr hogr) hinit' rfl hcontest hstarted rfl
  · rw [Loader.isProblemLoadPermitted, if_neg hrc5, if_neg hogr] at hpermit
    exact absurd rfl hpermit

/-- The work of an RC5-72 packet is looked at once its subspace is registered. -/
private theorem AnyProblem.internalLoad_of_bad {work : ContestWork}
    (hempty : p.initialized = false) (hready : ∃ sel, (loader.host RC5_72).Ready sel)
    (hbad : ¬(BigCrypto.ofWork work).key.Valid ∨ (BigCrypto.ofWork work).IsDummy) :
    p.internalLoad loader (.packet work) RC5_72 iterations expected g =
      some (.error .retry, problemSetRandomSubspace loader.iniWritable RC5_72
        (BigCrypto.ofWork work).randomsubspace true g) := by
  obtain ⟨sel, hpermit, hsel, hpipe⟩ := hready
  rw [internalLoad]
  dsimp only [Requested.work]
  rw [if_neg (by rw [hempty]; decide),
    if_neg (show ¬loader.isProblemLoadPermitted RC5_72 = false by
      rw [show loader.isProblemLoadPermitted RC5_72 = true from hpermit]; decide),
    show loader.selcore RC5_72 = some sel from hsel]
  dsimp only
  rw [if_neg fun h ↦ h.2 hpipe, if_pos rfl]
  rcases (p.prepare RC5_72 iterations false false sel).loadRC572_error (BigCrypto.ofWork work)
    ((loader.host RC5_72).Foreign sel expected) with ⟨q, -, -, -, hvalid, hdummy⟩ | ⟨herr, -⟩
  · exact absurd hbad (not_or.mpr ⟨not_not.mpr hvalid, hdummy⟩)
  · rw [herr]

/-- **A load that is rejected changes nothing, exactly if** the packet is not one that switches the
random subspace first. -/
theorem loadAtomic_iff {work : ContestWork} :
    LoadAtomic p loader work contest iterations expected g ↔
      ¬SwitchedThenRejected p loader work contest g := by
  constructor
  · rintro hatomic ⟨rfl, hempty, hready, hswitches, hbad⟩
    have hload : p.internalLoad loader (.packet work) RC5_72 iterations expected g = _ :=
      AnyProblem.internalLoad_of_bad hempty hready hbad
    have hsame := (hatomic LoadError.retry.code p _ (by rw [AnyProblem.load, hload]; rfl)
      (by decide)).2
    rw [problemSetRandomSubspace, if_pos rfl, if_pos hswitches] at hsame
    exact hswitches.2.2 (congrArg Globals.randomSubspace hsame)
  · intro hnot code p' g' hload hcode
    obtain ⟨⟨res, g''⟩, hinternal, hres⟩ := Option.map_eq_some_iff.mp hload
    have hloads := AnyProblem.loads_of_internalLoad hinternal
    cases hloads with
    | refused e =>
      cases hres
      exact ⟨rfl, rfl⟩
    | rejected isRC572 empty ready found bad =>
      cases hres
      cases found
      refine ⟨rfl, ?_⟩
      rw [problemSetRandomSubspace, if_pos rfl]
      exact if_neg fun hswitches ↦ hnot ⟨isRC572, empty, ready, hswitches, bad⟩
    | loaded permitted empty initialized sameContest notStarted counted =>
      cases hres
      exact absurd rfl hcode

/-- A client of the CUDA build. -/
def cudaLoader : Loader where
  haveRc572 := true
  haveOgr := true
  selcore := fun _ ↦ some ⟨5#32, 17#32, 4⟩
  os := 4#32
  build := 91140523#32
  checkCache := fun _ ↦ true
  precompLimits := fun _ _ ↦ 333#16
  iniWritable := true

/-- A packet that names a new subspace, and has a key of more than 72 bits. -/
def corruptedWork : ContestWork :=
  BigCrypto.toWork { selftestWork with key := ⟨0x100#32, 0#32, 0#32⟩, randomsubspace := 1#32 }
    (0#32, 0#32)

/-- **A corrupted packet switches the random subspace**, and the ini file. -/
theorem not_loadAtomic_corrupted : ¬∀ (p : AnyProblem) (loader : Loader) (work : ContestWork)
    (contest iterations : U32) (expected : Provenance) (g : Globals),
    LoadAtomic p loader work contest iterations expected g := by
  intro h
  have hload : (AnyProblem.alloc.load cudaLoader (.packet corruptedWork) RC5_72 48#32
      ⟨0#32, 0#32, 0#32, 0#32⟩ (.initial none)).map (fun r ↦
        (r.1, r.2.2.randomSubspace, r.2.2.ini)) = some (-1, 1#32, some 1#32) := by
    decide +kernel
  obtain ⟨⟨code, p', g'⟩, hload, hres⟩ := Option.map_eq_some_iff.mp hload
  obtain ⟨rfl, hsubspace, -⟩ : code = -1 ∧ g'.randomSubspace = 1#32 ∧ g'.ini = some 1#32 := by
    simpa only [Prod.mk.injEq] using hres
  have hsame := (h _ _ _ _ _ _ _ _ _ _ hload (by decide)).2
  rw [hsame] at hsubspace
  exact absurd hsubspace (by decide)

end Hyunjin
