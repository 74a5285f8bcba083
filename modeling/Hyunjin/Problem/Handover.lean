import Hyunjin.Problem.Calls
import Hyunjin.Run.Machine

/-!
# The hand-over between threads

A problem is shared by the cruncher that runs it and the client that loads and unloads it. It is
kept three times over: the main copy, the core's copy and a temporary one for loads. Only the
copying between them, and the retrieving of the main copy, are done under a lock. The core runs on
its own copy, outside the lock, so the client may purge the main copy meanwhile, and load another
packet into it.

Two flags of the main copy guard the way back. A run sets `started`, and a load clears it; a load
sets `initialized`, and a purge clears it. A run commits its result only if it finds both of them
set.

A retrieve of an OGR-NG packet exports its work to the main copy itself, without a commit. What it
writes is written anew by every export, and no run reads it, so it is no part of what is saved
(`AnyProblem.saved`).

## The model

`HandOver.step` takes one atomic step at a time: a locked section, or what a thread does between two
of them on its own copy. An action that does not fit the place where its thread is does nothing, so
a list of actions is an interleaving, and every interleaving is one. A step that goes out of range
has no result. The log keeps what the program does not: which packet a run has copied, which runs
were committed, and which failed. No step reads it.
-/

namespace Hyunjin

/-- Where the cruncher is in `ProblemRun`. -/
inductive RunnerAt
  | idle
  /-- It has seen the problem initialized. -/
  | checked
  /-- It has copied the main copy, and runs the core on the copy. -/
  | running
  /-- The core that was called has returned a result and the number of iterations done. -/
  | returned (cores : Cores) (resultcode : Option Resultcode) (iterations : U32)

/-- What the client asks of a load. -/
structure LoadRequest where
  loader : Loader
  requested : Requested
  contest : U32
  iterations : U32
  expected : Provenance

/-- Where the client is in `ProblemLoadState`. -/
inductive LoaderAt
  | idle
  /-- It has made the temporary copy, and loads the packet into it. -/
  | loading (request : LoadRequest)
  /-- The temporary copy is loaded. -/
  | loaded

/-- A run that was committed: its number, its cores and its time slice, the number of the packet
that it had copied, and of the packet that it was written to. -/
structure Commit where
  run : ℕ
  cores : Cores
  tslice : U32
  copied : ℕ
  written : ℕ

/-- What has happened so far. -/
structure HandOverLog where
  /-- The number of packets loaded. -/
  loads : ℕ
  /-- The last one, as it was loaded. -/
  base : AnyProblem
  /-- The number of runs that have copied the problem. -/
  runs : ℕ
  /-- The number of the packet that the last of them has copied. -/
  copied : ℕ
  /-- The main copy as the last of them has copied it. -/
  snapshot : AnyProblem
  commits : List Commit
  /-- The runs in which the core failed, or its key was rejected. -/
  failed : List ℕ

/-- The three copies, what is kept outside of them, the two threads, and the log. -/
structure HandOver where
  main : AnyProblem
  core : AnyProblem
  temp : AnyProblem
  globals : Globals
  runner : RunnerAt
  loader : LoaderAt
  log : HandOverLog

/-- The atomic steps of the two threads. Every run may find the cores in another state. A core or a
load that fails leaves its copy in any state. -/
inductive Action
  /-- The cruncher adjusts the time slice. -/
  | setTslice (n : U32)
  | checkInitialized
  | copyToCore
  | runCore (cores : Cores) (left : AnyProblem)
  | commit
  | retrieve (wanted dopurge : Bool)
  | copyToTemp (request : LoadRequest)
  | internalLoad (left : AnyProblem)
  | copyFromTemp

/-- The private fields of one copy with the public fields of another. -/
def AnyProblem.withPublic (p main : AnyProblem) : AnyProblem :=
  { p with
    contest := main.contest
    startkeys := main.startkeys
    startpermille := main.startpermille
    wasReset := main.wasReset
    isRandom := main.isRandom
    isBenchmark := main.isBenchmark
    clientCpu := main.clientCpu
    coresel := main.coresel
    tslice := main.tslice }

namespace HandOver

/-- A problem that was just allocated. -/
def alloc (g : Globals) : HandOver where
  main := .alloc
  core := .alloc
  temp := .alloc
  globals := g
  runner := .idle
  loader := .idle
  log :=
    { loads := 0
      base := .alloc
      runs := 0
      copied := 0
      snapshot := .alloc
      commits := []
      failed := [] }

/-- The first locked section of a run. -/
def copyToCore (s : HandOver) : HandOver :=
  let main := { s.main with started := true }
  { s with
    main := main
    core := main
    runner := .running
    log := { s.log with
      runs := s.log.runs + 1
      copied := s.log.loads
      snapshot := main } }

/-- What a run does between the locks. It is over if the core is not to run, or fails. -/
def runCore (cores : Cores) (left : AnyProblem) (s : HandOver) : Option HandOver :=
  if s.core.lastResultcode = some .working then
    (s.core.runCores cores s.core.tslice).map fun
    | none =>
      { s with
        core := left
        runner := .idle
        log := { s.log with failed := s.log.runs :: s.log.failed } }
    | some r =>
      { s with
        core := r.leave s.core
        runner := .returned cores r.resultcode r.iterations }
  else some { s with runner := .idle }

/-- The second locked section of a run. The public fields of the main copy, which may have changed,
are kept but for the time slice. -/
def commit (cores : Cores) (resultcode : Option Resultcode) (iterations : U32) (s : HandOver) :
    HandOver :=
  if s.main.started = false ∨ s.main.initialized = false then { s with runner := .idle }
  else
    let core := { s.core.withPublic s.main with
      tslice := iterations
      lastResultcode := resultcode }
    { s with
      main := core
      core := core
      runner := .idle
      log := { s.log with
        commits := s.log.commits ++
          [⟨s.log.runs, cores, s.log.snapshot.tslice, s.log.copied, s.log.loads⟩] } }

/-- What a load does between the locks. -/
def internalLoad (request : LoadRequest) (left : AnyProblem) (s : HandOver) : Option HandOver :=
  (s.temp.internalLoad request.loader request.requested request.contest request.iterations
    request.expected s.globals).map fun
  | (.error _, g) => { s with temp := left, globals := g, loader := .idle }
  | (.ok p, g) => { s with temp := p, globals := g, loader := .loaded }

/-- The second locked section of a load. -/
def copyFromTemp (s : HandOver) : HandOver :=
  { s with
    main := s.temp
    loader := .idle
    log := { s.log with
      loads := s.log.loads + 1
      base := s.temp } }

/-- One atomic step, with what a retrieve gives back; `none` if it goes out of range. -/
def step (a : Action) (s : HandOver) : Option (Option Retrieved × HandOver) :=
  match a with
  | .setTslice n => some (none, { s with main := { s.main with tslice := n } })
  | .checkInitialized =>
    match s.runner with
    | .idle => some (none, if s.main.initialized then { s with runner := .checked } else s)
    | _ => some (none, s)
  | .copyToCore =>
    match s.runner with
    | .checked => some (none, s.copyToCore)
    | _ => some (none, s)
  | .runCore cores left =>
    match s.runner with
    | .running => (s.runCore cores left).map fun s ↦ (none, s)
    | _ => some (none, s)
  | .commit =>
    match s.runner with
    | .returned cores resultcode iterations => some (none, s.commit cores resultcode iterations)
    | _ => some (none, s)
  | .retrieve wanted dopurge =>
    (s.main.retrieve wanted dopurge s.globals).map fun (back, p, g) ↦
      (some back, { s with main := p, globals := g })
  | .copyToTemp request =>
    match s.loader with
    | .idle => some (none, { s with temp := s.main, loader := .loading request })
    | _ => some (none, s)
  | .internalLoad left =>
    match s.loader with
    | .loading request => (s.internalLoad request left).map fun s ↦ (none, s)
    | _ => some (none, s)
  | .copyFromTemp =>
    match s.loader with
    | .loaded => some (none, s.copyFromTemp)
    | _ => some (none, s)

/-- A step as one of a machine, which stops where a step goes out of range. -/
def machine (a : Action) (s : Option HandOver) : Option Retrieved × Option HandOver :=
  match s.bind (step a) with
  | none => (none, none)
  | some (back, s) => (back, some s)

end HandOver

/-! ## What is saved -/

/-- An OGR-NG packet without the part that every export writes anew. -/
def OgrWork.blank (work : OgrWork) : OgrWork :=
  { work with
    workstub :=
      { stub := { marks := 0#16, length := 0#16, diffs := Vector.replicate 28 0#16 }
        worklength := 0#16
        collapsed := work.workstub.collapsed } }

def AnyProblem.savedWork (p : AnyProblem) : ContestWork :=
  if p.contest = OGR_NG then (OgrWork.ofWork p.contestwork).blank.toWork p.ticket
  else p.contestwork

/-- A problem without the fields that the threads share freely. -/
def AnyProblem.saved (p : AnyProblem) : AnyProblem :=
  { p with initialized := true, started := true, tslice := 0#32, contestwork := p.savedWork }

/-- A run of the cores on a problem at work, or `none` if they fail or the key is rejected. -/
def coreRun (p : AnyProblem) (slice : Cores × U32) : Option AnyProblem :=
  if p.lastResultcode = some .working then
    (p.runCores slice.1 slice.2).join.map fun r ↦ { r.leave p with lastResultcode := r.resultcode }
  else none

/-- Several runs of the cores, one after the other, none of which fails. -/
def advance (slices : List (Cores × U32)) (p : AnyProblem) : Option AnyProblem :=
  slices.foldlM coreRun p

section Saved

variable {p q : AnyProblem}

theorem AnyProblem.ticket_toWork (work : OgrWork) (ticket : U32 × U32) :
    ({ p with contestwork := work.toWork ticket } : AnyProblem).ticket = ticket := by
  simp [AnyProblem.ticket, OgrWork.toWork]

/-- Work that is blank alike is written back alike. -/
theorem AnyProblem.savedWork_toWork (hogr : p.contest = OGR_NG) (work : OgrWork)
    (ticket : U32 × U32) :
    ({ p with contestwork := work.toWork ticket } : AnyProblem).savedWork =
      work.blank.toWork ticket := by
  rw [savedWork, if_pos hogr, OgrWork.ofWork_toWork, ticket_toWork]

/-- What problems that are saved alike have in common of an OGR-NG packet. -/
theorem AnyProblem.work_of_saved (h : p.saved = q.saved) (hogr : p.contest = OGR_NG) :
    (OgrWork.ofWork p.contestwork).nodes = (OgrWork.ofWork q.contestwork).nodes ∧
      (OgrWork.ofWork p.contestwork).workstub.collapsed =
        (OgrWork.ofWork q.contestwork).workstub.collapsed ∧ p.ticket = q.ticket := by
  have hwork : p.savedWork = q.savedWork := congrArg contestwork h
  have hogr' : q.contest = OGR_NG := (congrArg contest h :).symm.trans hogr
  have hticket := congrArg (fun w ↦ ({ p with contestwork := w } : AnyProblem).ticket) hwork
  rw [savedWork, savedWork, if_pos hogr, if_pos hogr'] at hwork hticket
  rw [ticket_toWork, ticket_toWork] at hticket
  have hblank := congrArg OgrWork.ofWork hwork
  rw [OgrWork.ofWork_toWork, OgrWork.ofWork_toWork] at hblank
  exact ⟨(congrArg OgrWork.nodes hblank :),
    (congrArg (fun work : OgrWork ↦ work.workstub.collapsed) hblank :), hticket⟩

/-- An export is no part of what is saved. -/
theorem AnyProblem.saved_getresult (h : p.getresult = some q) : q.saved = p.saved := by
  rw [getresult] at h
  split_ifs at h with hogr
  · obtain ⟨workstub, hresult, rfl⟩ := Option.map_eq_some_iff.mp h
    have hblank : OgrWork.blank { OgrWork.ofWork p.contestwork with workstub := workstub } =
        (OgrWork.ofWork p.contestwork).blank := by
      rw [OgrWork.blank, OgrWork.blank, collapsed_ogrGetresult hresult]
    rw [saved, saved, savedWork_toWork hogr, hblank, savedWork, if_pos hogr]
  · cases h
    rfl

/-- Problems that are saved alike export the same work. -/
theorem AnyProblem.getresult_congr {p' : AnyProblem} (h : p.saved = q.saved)
    (hresult : p.getresult = some p') :
    ∃ q', q.getresult = some q' ∧ q'.contestwork = p'.contestwork := by
  have hcontest : p.contest = q.contest := (congrArg contest h :)
  rw [getresult] at hresult
  split_ifs at hresult with hogr
  · obtain ⟨workstub, hworkstub, rfl⟩ := Option.map_eq_some_iff.mp hresult
    obtain ⟨hnodes, hcollapsed, hticket⟩ := work_of_saved h hogr
    have hcore : p.coreMembuffer = q.coreMembuffer := (congrArg coreMembuffer h :)
    rw [getresult, if_pos (hcontest ▸ hogr), ← hcore]
    dsimp only
    rw [← ogrGetresult_congr hcollapsed, hworkstub]
    refine ⟨_, rfl, ?_⟩
    dsimp only
    rw [hnodes, hticket]
  · cases hresult
    rw [getresult, if_neg (hcontest ▸ hogr)]
    refine ⟨q, rfl, ?_⟩
    have hwork : p.savedWork = q.savedWork := congrArg contestwork h
    rwa [savedWork, savedWork, if_neg hogr, if_neg (hcontest ▸ hogr), eq_comm] at hwork

/-- What two runs leave is saved alike if it is the same but for the work. -/
private theorem CoreRun.saved_leave {r r' : CoreRun} (h : p.saved = q.saved)
    (hr : r = { r' with contestwork := r.contestwork })
    (hwork : (r.leave p).savedWork = (r'.leave q).savedWork) :
    (r.leave p).saved = (r'.leave q).saved := by
  have hleave (r : CoreRun) (p : AnyProblem) : (r.leave p).saved =
      { p.saved with
        contestwork := (r.leave p).savedWork
        unitwork := r.unitwork
        refL0 := r.refL0
        coreMembuffer := r.coreMembuffer } := rfl
  rw [hleave, hleave, hwork, h, hr]

/-- A run of RC5-72 does not look at the shared fields. -/
private theorem AnyProblem.runRC572_congr (h : p.saved = q.saved) (hrc572 : p.contest ≠ OGR_NG)
    (core : Core) (n : U32) : p.runRC572 core n = q.runRC572 core n := by
  have hcontest : p.contest = q.contest := (congrArg contest h :)
  have hwork : p.savedWork = q.savedWork := congrArg contestwork h
  rw [savedWork, savedWork, if_neg hrc572, if_neg (hcontest ▸ hrc572)] at hwork
  have hcore : p.coreMembuffer = q.coreMembuffer := (congrArg coreMembuffer h :)
  have hshared : p.rc572 =
      { q.rc572 with initialized := p.initialized, tslice := p.tslice } := by
    have hfields := congrArg rc572 h
    simp only [rc572, saved, Problem.mk.injEq] at hfields ⊢
    rw [hwork]
    simp only [hfields, and_self]
  have hkeys : p.rc572.keysToCheck n = q.rc572.keysToCheck n := by
    rw [hshared]
    rfl
  rw [runRC572, runRC572, hcore, Hyunjin.runRC572, Hyunjin.runRC572, hkeys, hshared]
  dsimp only
  generalize core q.rc572.unitwork (q.rc572.keysToCheck n) = r
  rcases r.rescode with _ | rescode
  · rfl
  · dsimp only
    split_ifs <;> rfl

/-- A run of OGR-NG does not look at what an export writes. -/
private theorem AnyProblem.runOgrNg_congr {cores : Cores} {n : U32} {r : CoreRun}
    (h : p.saved = q.saved) (hogr : p.contest = OGR_NG)
    (hrun : p.runOgrNg cores n = some (some r)) :
    ∃ r', q.runOgrNg cores n = some (some r') ∧ r'.resultcode = r.resultcode ∧
      (r.leave p).saved = (r'.leave q).saved := by
  obtain ⟨hnodes, hcollapsed, hticket⟩ := work_of_saved h hogr
  have hogr' : q.contest = OGR_NG := (congrArg contest h :).symm.trans hogr
  have hcore : p.coreMembuffer = q.coreMembuffer := (congrArg coreMembuffer h :)
  have hunitwork : p.unitwork = q.unitwork := (congrArg unitwork h :)
  have hrefL0 : p.refL0 = q.refL0 := (congrArg refL0 h :)
  rw [runOgrNg] at hrun ⊢
  rw [← hcore, ← hticket, ← hunitwork, ← hrefL0]
  obtain ⟨⟨code, nodes, core⟩, hcycle, hrun⟩ := Option.bind_eq_some_iff.mp hrun
  rw [hcycle, Option.bind_some]
  dsimp only at hrun ⊢
  have hcount : ((OgrWork.ofWork p.contestwork).countNodes (BitVec.ofInt 32 nodes)).nodes =
      ((OgrWork.ofWork q.contestwork).countNodes (BitVec.ofInt 32 nodes)).nodes := by
    rw [OgrWork.countNodes, OgrWork.countNodes, hnodes]
  have hcounted : ((OgrWork.ofWork p.contestwork).countNodes
      (BitVec.ofInt 32 nodes)).workstub.collapsed =
      ((OgrWork.ofWork q.contestwork).countNodes (BitVec.ofInt 32 nodes)).workstub.collapsed :=
    hcollapsed
  generalize (OgrWork.ofWork p.contestwork).countNodes (BitVec.ofInt 32 nodes) = work at *
  generalize (OgrWork.ofWork q.contestwork).countNodes (BitVec.ofInt 32 nodes) = work' at *
  have hback (w w' : OgrWork) (hn : w.nodes = w'.nodes)
      (hc : w.workstub.collapsed = w'.workstub.collapsed) (code : Resultcode) :
      (CoreRun.leave ⟨some code, BitVec.ofInt 32 nodes, w.toWork p.ticket, p.unitwork, p.refL0,
        core⟩ p).saved =
      (CoreRun.leave ⟨some code, BitVec.ofInt 32 nodes, w'.toWork p.ticket, p.unitwork, p.refL0,
        core⟩ q).saved := by
    have hblank : w.blank = w'.blank := by
      rw [OgrWork.blank, OgrWork.blank, hn, hc]
    refine CoreRun.saved_leave h rfl ?_
    refine (savedWork_toWork hogr w p.ticket).trans ?_
    rw [hblank]
    exact (savedWork_toWork hogr' w' p.ticket).symm
  -- the three codes of the core; with the third the stub is exported as well
  by_cases hok : code = CORE_S_OK
  · rw [if_pos hok, Option.some.injEq] at hrun
    rw [if_pos hok]
    split_ifs at hrun ⊢
    cases hrun
    exact ⟨_, rfl, rfl, hback work work' hcount hcounted .nothing⟩
  rw [if_neg hok] at hrun ⊢
  by_cases hcontinue : code = CORE_S_CONTINUE
  · rw [if_pos hcontinue] at hrun ⊢
    cases hrun
    exact ⟨_, rfl, rfl, hback work work' hcount hcounted .working⟩
  rw [if_neg hcontinue] at hrun ⊢
  by_cases hsuccess : code = CORE_S_SUCCESS
  · rw [if_pos hsuccess] at hrun ⊢
    obtain ⟨workstub, hresult, hr⟩ := Option.map_eq_some_iff.mp hrun
    rw [← ogrGetresult_congr hcounted, hresult, Option.map_some]
    split_ifs at hr ⊢
    cases hr
    exact ⟨_, rfl, rfl, hback { work with workstub := workstub }
      { work' with workstub := workstub } hcount rfl .found⟩
  · rw [if_neg hsuccess] at hrun
    exact nomatch hrun

/-- **A run does not look at what is not saved.** -/
theorem AnyProblem.runCores_congr {cores : Cores} {n : U32} {r : CoreRun} (h : p.saved = q.saved)
    (hrun : p.runCores cores n = some (some r)) :
    ∃ r', q.runCores cores n = some (some r') ∧ r'.resultcode = r.resultcode ∧
      (r.leave p).saved = (r'.leave q).saved := by
  have hcontest : p.contest = q.contest := (congrArg contest h :)
  by_cases hogr : p.contest = OGR_NG
  · have hne : p.contest ≠ RC5_72 := by
      rw [hogr]
      decide
    rw [runCores, if_neg hne, if_pos hogr] at hrun
    rw [runCores, if_neg (hcontest ▸ hne), if_pos (hcontest ▸ hogr)]
    exact runOgrNg_congr h hogr hrun
  · have hsame : p.runCores cores n = q.runCores cores n := by
      have hwork : p.savedWork = q.savedWork := congrArg contestwork h
      rw [savedWork, savedWork, if_neg hogr, if_neg (hcontest ▸ hogr)] at hwork
      have hunitwork : p.unitwork = q.unitwork := (congrArg unitwork h :)
      have hrefL0 : p.refL0 = q.refL0 := (congrArg refL0 h :)
      have hcore : p.coreMembuffer = q.coreMembuffer := (congrArg coreMembuffer h :)
      rw [runCores, runCores, runRC572_congr h hogr, ← hcontest, if_neg hogr, if_neg hogr, hwork,
        hunitwork, hrefL0, hcore]
    refine ⟨r, hsame ▸ hrun, rfl, r.saved_leave h rfl ?_⟩
    exact (if_neg hogr).trans (if_neg (hcontest ▸ hogr)).symm

/-- A problem that has taken over the public fields of one that is saved alike. -/
theorem AnyProblem.withPublic_leave {main : AnyProblem} (h : main.saved = p.saved) (r : CoreRun) :
    (r.leave p).withPublic main = { r.leave p with tslice := main.tslice } := by
  simp only [saved, AnyProblem.mk.injEq] at h
  simp only [withPublic, CoreRun.leave, h]

theorem coreRun_congr {slice : Cores × U32} {p' : AnyProblem} (h : p.saved = q.saved)
    (hrun : coreRun p slice = some p') :
    ∃ q', coreRun q slice = some q' ∧ p'.saved = q'.saved := by
  have hcode : p.lastResultcode = q.lastResultcode := (congrArg AnyProblem.lastResultcode h :)
  rw [coreRun] at hrun
  split_ifs at hrun with hwork
  obtain ⟨r, hr, rfl⟩ := Option.map_eq_some_iff.mp hrun
  obtain ⟨r', hr', hresult, hsaved⟩ :=
    AnyProblem.runCores_congr h (Option.join_eq_some_iff.mp hr)
  refine ⟨{ r'.leave q with lastResultcode := r'.resultcode }, ?_, ?_⟩
  · rw [coreRun, if_pos (hcode ▸ hwork), hr']
    rfl
  · rw [hresult]
    exact congrArg (fun p : AnyProblem ↦ { p with lastResultcode := r.resultcode }) hsaved

theorem advance_concat {slices : List (Cores × U32)} {slice : Cores × U32} {r : AnyProblem}
    (hq : advance slices p = some q) (hr : coreRun q slice = some r) :
    advance (slices ++ [slice]) p = some r := by
  rw [advance] at hq
  rw [advance, List.foldlM_append, hq]
  exact (bind_pure _).trans hr

end Saved

/-- A problem as some load has made it of a packet. -/
def IsLoaded (q : AnyProblem) : Prop :=
  ∃ (p : AnyProblem) (request : LoadRequest) (g g' : Globals),
    p.internalLoad request.loader request.requested request.contest request.iterations
      request.expected g = some (.ok q, g')

/-- The runs that were committed to the packet now loaded, with their cores and time slices. -/
def HandOverLog.slices (log : HandOverLog) : List (Cores × U32) :=
  (log.commits.filter fun c ↦ c.written = log.loads).map fun c ↦ (c.cores, c.tslice)

theorem HandOverLog.slices_concat (log : HandOverLog) {c : Commit} (h : c.written = log.loads) :
    ({ log with commits := log.commits ++ [c] } : HandOverLog).slices =
      log.slices ++ [(c.cores, c.tslice)] := by
  simp [HandOverLog.slices, List.filter_append, h]

/-! ## The invariant -/

namespace HandOver

/-- A run has copied the problem and is not over. -/
def Active (s : HandOver) : Prop :=
  s.runner = .running ∨
    ∃ cores resultcode iterations, s.runner = .returned cores resultcode iterations

/-- What holds in every interleaving. -/
structure Inv (s : HandOver) : Prop where
  /-- The main copy is the packet as it was loaded, advanced by the committed runs. -/
  content : ∃ q, advance s.log.slices s.log.base = some q ∧ s.main.saved = q.saved
  /-- If the flags allow a commit, the main copy is still the one that the run has copied. -/
  fresh : s.Active → s.main.started = true → s.main.initialized = true →
    s.log.copied = s.log.loads ∧ s.main.saved = s.log.snapshot.saved
  running : s.runner = .running → s.core = s.log.snapshot
  returned : ∀ cores resultcode iterations,
    s.runner = .returned cores resultcode iterations →
      s.log.snapshot.lastResultcode = some .working ∧
        ∃ r, s.log.snapshot.runCores cores s.log.snapshot.tslice = some (some r) ∧
          r.resultcode = resultcode ∧ s.core = r.leave s.log.snapshot
  /-- A loaded temporary copy does not allow a run that is under way to commit. -/
  temp : s.loader = .loaded → s.temp.started = false ∧ IsLoaded s.temp
  loaded : s.main.initialized = true → s.log.loads ≠ 0
  base : s.log.loads ≠ 0 → IsLoaded s.log.base
  same_packet : ∀ c ∈ s.log.commits, c.copied = c.written
  written_le : ∀ c ∈ s.log.commits, c.written ≤ s.log.loads
  /-- Every run is over at most once. -/
  once : (s.log.commits.map Commit.run).Pairwise (· < ·)
  not_failed : ∀ c ∈ s.log.commits, c.run ∉ s.log.failed
  over_le : ∀ n ∈ s.log.commits.map Commit.run ++ s.log.failed, n ≤ s.log.runs
  over_lt : s.Active → ∀ n ∈ s.log.commits.map Commit.run ++ s.log.failed, n < s.log.runs

theorem inv_alloc (g : Globals) : Inv (alloc g) where
  content := ⟨.alloc, rfl, rfl⟩
  fresh := by rintro (h | ⟨_, _, _, h⟩) <;> cases h
  running := nofun
  returned := nofun
  temp := nofun
  loaded := nofun
  base := fun h ↦ absurd rfl h
  same_packet := nofun
  written_le := nofun
  once := List.Pairwise.nil
  not_failed := nofun
  over_le := nofun
  over_lt := fun _ ↦ nofun

variable {s : HandOver}

/-- What does not touch the log keeps the invariant, if the copies stay as they should be. -/
theorem Inv.of_log (h : Inv s) {s' : HandOver} (hlog : s'.log = s.log)
    (hmain : s'.main.saved = s.main.saved) (hstarted : s'.main.started = s.main.started)
    (hinit : s'.main.initialized = true → s.main.initialized = true)
    (hactive : s'.Active → s.Active)
    (hrunning : s'.runner = .running → s'.core = s.log.snapshot)
    (hreturned : ∀ cores resultcode iterations,
      s'.runner = .returned cores resultcode iterations →
        s.log.snapshot.lastResultcode = some .working ∧
          ∃ r, s.log.snapshot.runCores cores s.log.snapshot.tslice = some (some r) ∧
            r.resultcode = resultcode ∧ s'.core = r.leave s.log.snapshot)
    (htemp : s'.loader = .loaded → s'.temp.started = false ∧ IsLoaded s'.temp) :
    Inv s' where
  content := by rw [hlog, hmain]; exact h.content
  fresh := by
    intro hact hstarted' hinit'
    rw [hlog, hmain]
    exact h.fresh (hactive hact) (hstarted ▸ hstarted') (hinit hinit')
  running := by rw [hlog]; exact hrunning
  returned := by rw [hlog]; exact hreturned
  temp := htemp
  loaded := by rw [hlog]; exact fun hinit' ↦ h.loaded (hinit hinit')
  base := by rw [hlog]; exact h.base
  same_packet := by rw [hlog]; exact h.same_packet
  written_le := by rw [hlog]; exact h.written_le
  once := by rw [hlog]; exact h.once
  not_failed := by rw [hlog]; exact h.not_failed
  over_le := by rw [hlog]; exact h.over_le
  over_lt := by rw [hlog]; exact fun hact ↦ h.over_lt (hactive hact)

theorem not_active_of_idle {s : HandOver} (h : s.runner = .idle) : ¬s.Active := by
  rintro (h' | ⟨_, _, _, h'⟩) <;> rw [h] at h' <;> cases h'

theorem not_active_of_checked {s : HandOver} (h : s.runner = .checked) : ¬s.Active := by
  rintro (h' | ⟨_, _, _, h'⟩) <;> rw [h] at h' <;> cases h'

/-- What leaves the cruncher where it is, and the main copy but for what is not saved. -/
theorem Inv.of_main (h : Inv s) {p : AnyProblem} (hsaved : p.saved = s.main.saved)
    (hstarted : p.started = s.main.started)
    (hinit : p.initialized = true → s.main.initialized = true) (g : Globals) :
    Inv { s with main := p, globals := g } :=
  h.of_log rfl hsaved hstarted hinit id h.running h.returned h.temp

/-- A cruncher that is not in a run. -/
theorem Inv.of_runner (h : Inv s) {at' : RunnerAt} (hat : at' = .idle ∨ at' = .checked) :
    Inv { s with runner := at' } := by
  have hnot : ¬({ s with runner := at' } : HandOver).Active := by
    rcases hat with rfl | rfl
    · exact not_active_of_idle rfl
    · exact not_active_of_checked rfl
  refine h.of_log rfl rfl rfl id (fun hact ↦ absurd hact hnot) ?_ ?_
    h.temp
  · intro hrun
    exact absurd (Or.inl hrun) hnot
  · intro cores resultcode iterations hret
    exact absurd (Or.inr ⟨_, _, _, hret⟩) hnot

theorem inv_copyToCore (h : Inv s) : Inv s.copyToCore where
  content := h.content
  fresh := fun _ _ _ ↦ ⟨rfl, rfl⟩
  running := fun _ ↦ rfl
  returned := nofun
  temp := h.temp
  loaded := h.loaded
  base := h.base
  same_packet := h.same_packet
  written_le := h.written_le
  once := h.once
  not_failed := h.not_failed
  over_le := fun n hn ↦ Nat.le_succ_of_le (h.over_le n hn)
  over_lt := fun _ n hn ↦ Nat.lt_succ_of_le (h.over_le n hn)

/-- The core works on its own copy. -/
theorem main_runCore {cores : Cores} {left : AnyProblem} {s' : HandOver}
    (h : s.runCore cores left = some s') : s'.main = s.main := by
  rw [runCore] at h
  split_ifs at h
  · obtain ⟨r, -, rfl⟩ := Option.map_eq_some_iff.mp h
    cases r <;> rfl
  · cases h
    rfl

theorem inv_runCore (h : Inv s) (hat : s.runner = .running) {cores : Cores} {left : AnyProblem}
    {s' : HandOver} (hrun : s.runCore cores left = some s') : Inv s' := by
  have hcopy := h.running hat
  have hactive : s.Active := Or.inl hat
  rw [runCore] at hrun
  split_ifs at hrun with hwork
  · obtain ⟨r, hr, rfl⟩ := Option.map_eq_some_iff.mp hrun
    rw [hcopy] at hwork hr
    cases r with
    | none =>
      refine ⟨h.content, fun hact ↦ absurd hact (not_active_of_idle rfl), nofun, nofun, h.temp,
        h.loaded, h.base, h.same_packet, h.written_le, h.once, ?_, ?_,
        fun hact ↦ absurd hact (not_active_of_idle rfl)⟩
      · intro c hc
        have hlt := h.over_lt hactive c.run
          (List.mem_append_left _ (List.mem_map_of_mem hc))
        exact List.not_mem_cons_of_ne_of_not_mem (Nat.ne_of_lt hlt) (h.not_failed c hc)
      · intro n hn
        simp only [List.mem_append, List.mem_cons] at hn
        rcases hn with hn | rfl | hn
        · exact h.over_le n (List.mem_append_left _ hn)
        · exact Nat.le_refl _
        · exact h.over_le n (List.mem_append_right _ hn)
    | some r =>
      refine h.of_log rfl rfl rfl id (fun _ ↦ hactive) nofun ?_ h.temp
      intro cores' resultcode iterations hret
      obtain ⟨rfl, rfl, rfl⟩ := RunnerAt.returned.inj hret
      exact ⟨hwork, r, hr, rfl, congrArg r.leave hcopy⟩
  · cases hrun
    exact h.of_runner (Or.inl rfl)

theorem inv_commit (h : Inv s) {cores : Cores} {resultcode : Option Resultcode} {iterations : U32}
    (hat : s.runner = .returned cores resultcode iterations) :
    Inv (s.commit cores resultcode iterations) := by
  rw [commit]
  split_ifs with hflags
  · exact h.of_runner (Or.inl rfl)
  simp only [not_or, Bool.not_eq_false] at hflags
  have hactive : s.Active := Or.inr ⟨_, _, _, hat⟩
  obtain ⟨hpacket, hsaved⟩ := h.fresh hactive hflags.1 hflags.2
  obtain ⟨hwork, r, hrun, rfl, hcore⟩ := h.returned _ _ _ hat
  have hlt := h.over_lt hactive
  have hidle {s : HandOver} (hs : s.runner = .idle) (hact : s.Active) : False :=
    not_active_of_idle hs hact
  refine ⟨?_, fun hact ↦ (hidle rfl hact).elim, nofun, nofun, h.temp,
    fun _ ↦ h.loaded hflags.2, h.base, ?_, ?_, ?_, ?_, ?_,
    fun hact ↦ (hidle rfl hact).elim⟩
  · -- the run that comes back is one on the packet that the main copy still holds
    obtain ⟨q, hq, hcontent⟩ := h.content
    have hresult : coreRun s.log.snapshot (cores, s.log.snapshot.tslice) =
        some { r.leave s.log.snapshot with lastResultcode := r.resultcode } := by
      rw [coreRun, if_pos hwork, hrun]
      rfl
    obtain ⟨q', hq', hsame⟩ := coreRun_congr (hsaved.symm.trans hcontent) hresult
    refine ⟨q', ?_, ?_⟩
    · rw [HandOverLog.slices_concat _ rfl]
      exact advance_concat hq hq'
    · rw [← hsame, hcore, AnyProblem.withPublic_leave hsaved]
      rfl
  · intro c hc
    rcases List.mem_append.mp hc with hc | hc
    · exact h.same_packet c hc
    · rw [List.mem_singleton.mp hc]
      exact hpacket
  · intro c hc
    rcases List.mem_append.mp hc with hc | hc
    · exact h.written_le c hc
    · rw [List.mem_singleton.mp hc]
  · rw [List.map_append, List.pairwise_append]
    refine ⟨h.once, List.pairwise_singleton _ _, ?_⟩
    intro n hn m hm
    rw [List.mem_singleton.mp hm]
    exact hlt n (List.mem_append_left _ hn)
  · intro c hc
    rcases List.mem_append.mp hc with hc | hc
    · exact h.not_failed c hc
    · rw [List.mem_singleton.mp hc]
      intro hfailed
      exact Nat.lt_irrefl _ (hlt _ (List.mem_append_right _ hfailed))
  · intro n hn
    simp only [List.map_append, List.mem_append, List.map_cons, List.map_nil,
      List.mem_singleton] at hn
    rcases hn with (hn | rfl) | hn
    · exact h.over_le n (List.mem_append_left _ hn)
    · exact Nat.le_refl _
    · exact h.over_le n (List.mem_append_right _ hn)

/-- A retrieve exports and purges, but keeps what is saved. -/
theorem inv_retrieve (h : Inv s) {wanted dopurge : Bool} {back : Retrieved} {p : AnyProblem}
    {g : Globals} (hretrieve : s.main.retrieve wanted dopurge s.globals = some (back, p, g)) :
    Inv { s with main := p, globals := g } := by
  rw [AnyProblem.retrieve] at hretrieve
  by_cases hempty : s.main.initialized = false
  · rw [if_pos hempty] at hretrieve
    cases hretrieve
    exact h.of_main rfl rfl id _
  · rw [if_neg hempty] at hretrieve
    obtain ⟨p', hp', hretrieve⟩ := Option.map_eq_some_iff.mp hretrieve
    have hkeeps : p'.saved = s.main.saved ∧ p'.started = s.main.started := by
      cases wanted with
      | false =>
        cases hp'
        exact ⟨rfl, rfl⟩
      | true => exact ⟨AnyProblem.saved_getresult hp', (AnyProblem.getresult_keeps hp').2.2⟩
    have hinit : s.main.initialized = true := (Bool.not_eq_false _).mp hempty
    cases dopurge with
    | false =>
      cases hretrieve
      exact h.of_main hkeeps.1 hkeeps.2 (fun _ ↦ hinit) _
    | true =>
      cases hretrieve
      exact h.of_main (p := { p' with initialized := false }) hkeeps.1 hkeeps.2 (fun _ ↦ hinit) _

theorem inv_internalLoad (h : Inv s) {request : LoadRequest} {left : AnyProblem} {s' : HandOver}
    (hload : s.internalLoad request left = some s') : Inv s' := by
  rw [internalLoad] at hload
  obtain ⟨⟨r, g⟩, hr, rfl⟩ := Option.map_eq_some_iff.mp hload
  cases r with
  | error e => exact h.of_log rfl rfl rfl id id h.running h.returned nofun
  | ok p =>
    refine h.of_log rfl rfl rfl id id h.running h.returned fun _ ↦ ⟨?_, _, request, _, _, hr⟩
    cases AnyProblem.loads_of_internalLoad hr with
    | loaded permitted empty initialized sameContest notStarted counted => exact notStarted

/-- A load begins a new list of runs, and it keeps a run that is under way from committing. -/
theorem inv_copyFromTemp (h : Inv s) (hat : s.loader = .loaded) : Inv s.copyFromTemp := by
  obtain ⟨hstarted, hloaded⟩ := h.temp hat
  have hnone : s.copyFromTemp.log.slices = [] := by
    have hlt : ∀ c ∈ s.log.commits, ¬decide (c.written = s.log.loads + 1) = true := by
      intro c hc heq
      have hle := h.written_le c hc
      rw [decide_eq_true_eq] at heq
      omega
    rw [HandOverLog.slices, copyFromTemp]
    exact congrArg (List.map _) (List.filter_eq_nil_iff.mpr hlt)
  refine ⟨⟨s.temp, by rw [hnone]; rfl, rfl⟩, ?_, h.running, h.returned, nofun,
    fun _ ↦ Nat.succ_ne_zero _, fun _ ↦ hloaded, h.same_packet, ?_, h.once, h.not_failed, h.over_le,
      h.over_lt⟩
  · intro _ hagain
    exact absurd (hstarted.symm.trans hagain) Bool.false_ne_true
  · exact fun c hc ↦ Nat.le_succ_of_le (h.written_le c hc)

/-- **Every atomic step keeps the invariant.** -/
theorem inv_step (h : Inv s) {a : Action} {back : Option Retrieved} {s' : HandOver}
    (hstep : step a s = some (back, s')) : Inv s' := by
  cases a with
  | setTslice n =>
    cases hstep
    exact h.of_main (p := { s.main with tslice := n }) rfl rfl id s.globals
  | checkInitialized =>
    rcases hat : s.runner with _ | _ | _ | _ <;> rw [step, hat] at hstep <;> cases hstep
    · split_ifs
      · exact h.of_runner (Or.inr rfl)
      · exact h
    all_goals exact h
  | copyToCore =>
    rcases hat : s.runner with _ | _ | _ | _ <;> rw [step, hat] at hstep <;> cases hstep
    · exact h
    · exact inv_copyToCore h
    · exact h
    · exact h
  | runCore cores left =>
    rcases hat : s.runner with _ | _ | _ | _ <;> rw [step, hat] at hstep
    · cases hstep
      exact h
    · cases hstep
      exact h
    · obtain ⟨t, ht, hstep⟩ := Option.map_eq_some_iff.mp hstep
      cases hstep
      exact inv_runCore h hat ht
    · cases hstep
      exact h
  | commit =>
    -- a step that does not fit the place of its thread does nothing
    rcases hat : s.runner with _ | _ | _ | ⟨cores, resultcode, iterations⟩ <;>
      rw [step, hat] at hstep <;> cases hstep
    · exact h
    · exact h
    · exact h
    · exact inv_commit h hat
  | retrieve wanted dopurge =>
    obtain ⟨⟨r, p, g⟩, hr, hstep⟩ := Option.map_eq_some_iff.mp hstep
    cases hstep
    exact inv_retrieve h hr
  | copyToTemp request =>
    rcases hat : s.loader with _ | _ | _ <;> rw [step, hat] at hstep <;> cases hstep
    · exact h.of_log rfl rfl rfl id id h.running h.returned nofun
    · exact h
    · exact h
  | internalLoad left =>
    rcases hat : s.loader with _ | request | _ <;> rw [step, hat] at hstep
    · cases hstep
      exact h
    · obtain ⟨t, ht, hstep⟩ := Option.map_eq_some_iff.mp hstep
      cases hstep
      exact inv_internalLoad h ht
    · cases hstep
      exact h
  | copyFromTemp =>
    rcases hat : s.loader with _ | _ | _ <;> rw [step, hat] at hstep <;> cases hstep
    · exact h
    · exact h
    · exact inv_copyFromTemp h hat

/-- Nothing comes after a step that goes out of range. -/
private theorem final_none (as : List Action) : Run.final machine as none = none := by
  induction as with
  | nil => rfl
  | cons a as ih => exact ih

theorem inv_run {as : List Action} {t : HandOver} (h : Inv s)
    (hrun : Run.final machine as (some s) = some t) : Inv t := by
  induction as generalizing s with
  | nil =>
    cases hrun
    exact h
  | cons a as ih =>
    rw [Run.final, machine, Option.bind_some] at hrun
    rcases hstep : step a s with _ | ⟨back, s'⟩
    · rw [hstep, final_none] at hrun
      cases hrun
    · rw [hstep] at hrun
      exact ih (inv_step h hstep) hrun

/-! ## What is given back, and what is written -/

/-- What is given back is the export of the loaded packet after the runs committed on it. -/
theorem Inv.retrieved (h : Inv s) {dopurge : Bool} {code : Option Resultcode} {work : ContestWork}
    {s' : HandOver}
    (hretrieve : step (.retrieve true dopurge) s = some (some ⟨code, some work⟩, s')) :
    IsLoaded s.log.base ∧ ∃ q q', advance s.log.slices s.log.base = some q ∧
      q.getresult = some q' ∧ code = q'.lastResultcode ∧ work = q'.contestwork := by
  obtain ⟨⟨back, p, g'⟩, hr, hback⟩ := Option.map_eq_some_iff.mp hretrieve
  cases hback
  rw [AnyProblem.retrieve] at hr
  by_cases hinit : s.main.initialized = false
  · -- nothing is given back of a problem that was purged
    rw [if_pos hinit] at hr
    cases hr
  rw [if_neg hinit] at hr
  obtain ⟨p', hp', hr⟩ := Option.map_eq_some_iff.mp hr
  obtain ⟨q, hq, hsaved⟩ := h.content
  obtain ⟨q', hq', hwork⟩ := AnyProblem.getresult_congr hsaved hp'
  have hcode : p'.lastResultcode = q'.lastResultcode := by
    have h1 := AnyProblem.saved_getresult hp'
    have h2 := AnyProblem.saved_getresult hq'
    exact (congrArg AnyProblem.lastResultcode (h1.trans (hsaved.trans h2.symm)) :)
  refine ⟨h.base (h.loaded ((Bool.not_eq_false _).mp hinit)), q, q', hq, hq', ?_, ?_⟩
  all_goals
    cases dopurge <;> cases hr
  · exact hcode
  · exact hcode
  · exact hwork.symm
  · exact hwork.symm

/-- Before it commits a run writes nothing to the main copy but the flag. -/
theorem main_of_own {a : Action} {back : Option Retrieved} {s' : HandOver}
    (ha : a = .checkInitialized ∨ a = .copyToCore ∨ ∃ cores left, a = .runCore cores left)
    (hstep : step a s = some (back, s')) :
    { s'.main with started := s.main.started } = s.main := by
  rcases ha with rfl | rfl | ⟨cores, left, rfl⟩
  · rcases hat : s.runner with _ | _ | _ | _ <;> rw [step, hat] at hstep <;> cases hstep
    · split_ifs <;> rfl
    all_goals rfl
  · rcases hat : s.runner with _ | _ | _ | _ <;> rw [step, hat] at hstep <;> cases hstep <;> rfl
  · rcases hat : s.runner with _ | _ | _ | _ <;> rw [step, hat] at hstep
    · cases hstep
      rfl
    · cases hstep
      rfl
    · obtain ⟨t, ht, hstep⟩ := Option.map_eq_some_iff.mp hstep
      cases hstep
      rw [main_runCore ht]
    · cases hstep
      rfl

/-- A result that comes after a purge is dropped, also if another packet was loaded since. -/
theorem main_of_late {back : Option Retrieved} {s' : HandOver}
    (hflags : s.main.started = false ∨ s.main.initialized = false)
    (hstep : step .commit s = some (back, s')) : s'.main = s.main := by
  rcases hat : s.runner with _ | _ | _ | ⟨cores, resultcode, iterations⟩ <;>
    rw [step, hat] at hstep <;> cases hstep
  · rfl
  · rfl
  · rfl
  · rw [commit, if_pos hflags]

end HandOver

/-! ## Calls that are not interrupted -/

/-- **A run that is not interrupted is `AnyProblem.run`.** -/
theorem uninterrupted_run {cores : Cores} {left : AnyProblem} {s : HandOver} {r : Option CoreRun}
    (hidle : s.runner = .idle) (hinit : s.main.initialized = true)
    (hrun : AnyProblem.runCores { s.main with started := true } cores s.main.tslice = some r) :
    (Run.final HandOver.machine [.checkInitialized, .copyToCore, .runCore cores left, .commit]
      (some s)).map HandOver.main = some (s.main.run fun _ ↦ r) := by
  obtain ⟨main, core, temp, globals, runner, loader, log⟩ := s
  dsimp only at hidle hinit hrun
  subst hidle
  have hchecked : HandOver.machine .checkInitialized
      (some ⟨main, core, temp, globals, .idle, loader, log⟩) =
        (none, some ⟨main, core, temp, globals, .checked, loader, log⟩) := by
    rw [HandOver.machine, Option.bind_some, HandOver.step]
    dsimp only
    rw [if_pos hinit]
  rw [Run.final, hchecked, Run.final, Run.final, Run.final, Run.final, AnyProblem.run,
    if_neg (by rw [hinit]; decide)]
  simp only [HandOver.machine, HandOver.step, Option.bind_some, HandOver.copyToCore,
    HandOver.runCore]
  by_cases hwork : main.lastResultcode = some .working
  · simp only [if_pos hwork, hrun, Option.map_some]
    cases r with
    | none => rfl
    | some r =>
      change some (HandOver.commit cores r.resultcode r.iterations _).main = _
      rw [HandOver.commit, if_neg (by simp [hinit])]
      rfl
  · simp only [if_neg hwork]
    rfl

/-- **A load that is not interrupted is `AnyProblem.load`.** -/
theorem uninterrupted_load {request : LoadRequest} {left : AnyProblem} {s : HandOver}
    (hidle : s.loader = .idle) :
    (Run.final HandOver.machine [.copyToTemp request, .internalLoad left, .copyFromTemp]
      (some s)).map (fun s ↦ (s.main, s.globals)) =
      (s.main.load request.loader request.requested request.contest request.iterations
        request.expected s.globals).map Prod.snd := by
  obtain ⟨main, core, temp, globals, runner, loader, log⟩ := s
  dsimp only at hidle
  subst hidle
  simp only [Run.final, HandOver.machine, HandOver.step, Option.bind_some, HandOver.internalLoad,
    AnyProblem.load]
  rcases main.internalLoad request.loader request.requested request.contest request.iterations
    request.expected globals with _ | ⟨_ | p, g⟩ <;> rfl

/-! ## Safety -/

/-- **The hand-over is safe**, for all cores and every interleaving. A run that is committed has
copied the packet that it is written to, and is committed once; a run that failed is not. What a
retrieve gives back is the packet as it was loaded last, advanced by the runs committed to it. The
steps of a run before its commit leave the main copy alone, but for the flag that it has started,
and so does the commit of a run that came too late. -/
theorem handover_safe {as : List Action} {g : Globals} {s : HandOver}
    (hrun : Run.final HandOver.machine as (some (.alloc g)) = some s) :
    (∀ c ∈ s.log.commits, c.copied = c.written ∧ c.run ∉ s.log.failed) ∧
      (s.log.commits.map Commit.run).Nodup ∧
      (∀ dopurge code work s',
        HandOver.step (.retrieve true dopurge) s = some (some ⟨code, some work⟩, s') →
          IsLoaded s.log.base ∧ ∃ q q', advance s.log.slices s.log.base = some q ∧
            q.getresult = some q' ∧ code = q'.lastResultcode ∧ work = q'.contestwork) ∧
      (∀ a back s', (a = .checkInitialized ∨ a = .copyToCore ∨ ∃ cores left,
        a = .runCore cores left) → HandOver.step a s = some (back, s') →
          { s'.main with started := s.main.started } = s.main) ∧
      (s.main.started = false ∨ s.main.initialized = false →
        ∀ back s', HandOver.step .commit s = some (back, s') → s'.main = s.main) := by
  have h : HandOver.Inv s := HandOver.inv_run (HandOver.inv_alloc g) hrun
  exact ⟨fun c hc ↦ ⟨h.same_packet c hc, h.not_failed c hc⟩, h.once.imp Nat.ne_of_lt,
    fun _ _ _ _ hretrieve ↦ h.retrieved hretrieve,
    fun _ _ _ ha hstep ↦ HandOver.main_of_own ha hstep,
    fun hflags _ _ hstep ↦ HandOver.main_of_late hflags hstep⟩

/-- An OGR-NG packet is loaded and run, and exported while the core is running. -/
def exportWhileRunning : List Action :=
  [.copyToTemp ⟨cudaLoader, .benchmark, OGR_NG, 1#32, ⟨0#32, 0#32, 0#32, 0#32⟩⟩,
    .internalLoad .alloc, .copyFromTemp, .checkInitialized, .copyToCore, .retrieve true false,
    .runCore ⟨rc572UnitFuncAnsiRef, ogrCycleEntry (fun _ ↦ 333#16) 40, fun _ ↦ true⟩ .alloc,
    .commit]

theorem handover_safe_exportWhileRunning : ∃ s,
    Run.final HandOver.machine exportWhileRunning (some (.alloc (.initial none))) = some s ∧
      s.log.commits.length = 1 ∧
      ∀ dopurge code work s',
        HandOver.step (.retrieve true dopurge) s = some (some ⟨code, some work⟩, s') →
          IsLoaded s.log.base ∧ ∃ q q', advance s.log.slices s.log.base = some q ∧
            q.getresult = some q' ∧ code = q'.lastResultcode ∧ work = q'.contestwork := by
  have hfinal : (Run.final HandOver.machine exportWhileRunning
      (some (.alloc (.initial none)))).map (fun s ↦ s.log.commits.length) = some 1 := by
    decide +kernel
  obtain ⟨s, hs, hcommits⟩ := Option.map_eq_some_iff.mp hfinal
  exact ⟨s, hs, hcommits, (handover_safe hs).2.2.1⟩

end Hyunjin
