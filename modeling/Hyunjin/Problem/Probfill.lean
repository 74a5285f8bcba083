import Mathlib.Data.Multiset.Basic
import Mathlib.Data.Multiset.AddSub

/-!
# Loading and saving problems

The client takes packets from its buffers, loads them into the slots of the problem table, has them
crunched, and hands them back. `LoadSaveProblems` is called for all of it: to fill the table at
first, to refresh it, to make it smaller, and to unload it. The buffers, the loader of a problem and
the triggers are not modelled here; what they answer to each call is given. What becomes of the
packets is written down: each is taken, and later saved or discarded, for one of four reasons.
-/

namespace Hyunjin.Probfill

variable {α : Type*}

/-! ## Problems -/

def RESULT_WORKING : ℤ := 0

def RESULT_NOTHING : ℤ := 1

def RESULT_FOUND : ℤ := 2

/-- A problem that is initialized, with the packet it was loaded from. -/
structure Job (α : Type*) where
  packet : α
  contest : ℕ
  resultcode : ℤ
  discard : Bool
  forceUnload : Bool

/-- Why a packet is not handed back. -/
inductive Reason
  | disabled -- `project disabled/closed`
  | coreError
  | bufferError -- `unable to save`
  | rejected -- by `ProblemLoadState`
  deriving DecidableEq

/-- What is written down about a packet. -/
inductive Entry (α : Type*)
  | taken (packet : α)
  | saved (packet : α) (resultcode : ℤ)
  | discarded (packet : α) (reason : Reason)

/-- What is kept from one call to the next. -/
structure Table (α : Type*) where
  slots : List (Option (Job α))
  previousLoadProblemCount : ℕ

/-- The settings of the client that matter here. -/
structure Client where
  blockcount : ℤ
  nonewblocks : Bool
  randomProject : Option ℕ -- the first project in order that may do random blocks
  singleCount : Bool -- `connectoften & 4`

/-- The modes of a call. -/
inductive Mode
  | initial -- 0
  | anychanged
  | getbufferrs
  | unloadall
  | resizetable
  deriving DecidableEq

/-- The mode unloads problems that are still running. -/
def Mode.unloads : Mode → Bool
  | unloadall | resizetable => true
  | initial | anychanged | getbufferrs => false

/-! ## Saving -/

/-- A problem is unloaded when it is finished or broken, when its project is not wanted any more, or
when all problems are. -/
def Job.unload (job : Job α) (unconditional : Bool) : Bool :=
  job.resultcode = RESULT_FOUND || job.resultcode = RESULT_NOTHING || unconditional
    || decide (job.resultcode < 0) || job.discard || job.forceUnload

/-- `__IndividualProblemSave`: what is left in the slot, what is written down, and whether a packet
has been saved. `put` is the answer of `PutBufferRecord`. -/
def individualProblemSave (put unconditional : Bool) (slot : Option (Job α)) :
    Option (Job α) × List (Entry α) × Bool :=
  match slot with
  | none => (none, [], false)
  | some job =>
    if job.unload unconditional then
      if job.discard then (none, [.discarded job.packet .disabled], false)
      else if job.resultcode < 0 then (none, [.discarded job.packet .coreError], false)
      else if put then (none, [.saved job.packet job.resultcode], true)
      else (none, [.discarded job.packet .bufferError], false)
    else (some job, [], false)

/-! ## Loading -/

/-- What the buffers answer for one project: whether it is to be asked at all, the packet that
`GetBufferRecord` delivers with the number of those that are left, and what `GetBufferCount`
says. -/
structure Answer (α : Type*) where
  permitted : Bool
  record : Option (α × ℕ)
  count : Option ℕ

/-- A project is asked for a packet, or only for its count if there is a packet already. -/
def Answer.ask (answer : Answer α) : Option α → Option α × Option ℕ
  | some packet => (some packet, answer.count)
  | none => (answer.record.map Prod.fst, answer.record.map Prod.snd)

/-- `__loadapacket`: the packet, and the count that is returned. The first project that delivers a
packet is the one; the others are only counted. -/
def loadapacket (single : Bool) : List (Answer α) → Option α → ℤ → Option α × ℤ
  | [], got, total => (got, total)
  | answer :: answers, got, total =>
    if answer.permitted then
      match (answer.ask got).2 with
      | none => loadapacket single answers (answer.ask got).1 total
      | some bufcount =>
        if single then ((answer.ask got).1, max total 0 + bufcount)
        else loadapacket single answers (answer.ask got).1 (max total 0 + bufcount)
    else loadapacket single answers got total

/-- `BUFFERUPDATE_FETCH` -/
def BUFFERUPDATE_FETCH : ℕ := 1

/-- What is answered in one turn of the loop in `__IndividualProblemLoad`: whether buffer updates
are delayed, the buffers, the exit trigger before and after the update, what `BufferUpdate` returns,
the buffers once more, the packet that is made up at random, the contest of a packet, and what
`ProblemLoadState` returns. -/
structure Turn (α : Type*) where
  delayed : Bool
  first : List (Answer α)
  exitBefore : Bool
  update : ℤ
  exitAfter : Bool
  second : List (Answer α)
  random : α
  contest : ℕ
  loadState : ℤ

/-- `NOLOAD_NORANDOM` and `NOLOAD_NONEWBLOCKS`; 0 if nothing is wrong. -/
def NOLOAD_NORANDOM : ℤ := -1

def NOLOAD_NONEWBLOCKS : ℤ := -3

/-- What comes of a turn: the problem that is loaded, what is written down, `load_needed`, and
whether there is another turn. -/
structure Loaded (α : Type*) where
  job : Option (Job α)
  entries : List (Entry α)
  loadNeeded : ℤ
  retry : Bool

/-- What is written down when a packet comes out of a buffer. -/
def takenFrom (got : Option α) : List (Entry α) :=
  (got.map Entry.taken).toList

def Loaded.after (entries : List (Entry α)) (r : Loaded α) : Loaded α :=
  { r with entries := entries ++ r.entries }

/-- The packet is loaded, or it is rejected and another one is tried. -/
def loadPacket (t : Turn α) (packet : α) (contest : ℕ) (loaded rejected : List (Entry α)) :
    Loaded α :=
  if t.loadState = 0 then
    ⟨some ⟨packet, contest, RESULT_WORKING, false, false⟩, loaded, 0, false⟩
  else ⟨none, rejected, 0, decide (t.loadState ≠ -2)⟩

/-- The buffers have answered. A random packet is made up by the loader itself. -/
def loadTaken (client : Client) (t : Turn α) (got : Option α) : Loaded α :=
  match got, client.randomProject with
  | some packet, _ => loadPacket t packet t.contest [] [.discarded packet .rejected]
  | none, none => ⟨none, [], NOLOAD_NORANDOM, false⟩
  | none, some project =>
    if client.blockcount < 0 then ⟨none, [], NOLOAD_NORANDOM, false⟩
    else if client.nonewblocks then ⟨none, [], NOLOAD_NONEWBLOCKS, false⟩
    else loadPacket t t.random project [.taken t.random] []

/-- One turn. The buffers are updated if there is no packet, and asked again if that has fetched. -/
def loadTurn (client : Client) (t : Turn α) : Loaded α :=
  if client.randomProject = none ∧ t.delayed then ⟨none, [], NOLOAD_NORANDOM, false⟩
  else
    let got := loadapacket client.singleCount t.first none (-1)
    if got.2 < 0 ∧ client.nonewblocks = false then
      if t.exitBefore ∨ t.exitAfter then ⟨none, takenFrom got.1, 0, false⟩
      else if 0 ≤ t.update ∧ t.update.toNat &&& BUFFERUPDATE_FETCH ≠ 0 then
        let again := loadapacket client.singleCount t.second none (-1)
        (loadTaken client t again.1).after (takenFrom got.1 ++ takenFrom again.1)
      else (loadTaken client t got.1).after (takenFrom got.1)
    else (loadTaken client t got.1).after (takenFrom got.1)

/-- The turns of a loop that ends: the last one is not tried again. -/
structure Turns (α : Type*) where
  tried : List (Turn α)
  last : Turn α
  ends : last.loadState = 0 ∨ last.loadState = -2

/-- `__IndividualProblemLoad` -/
def individualProblemLoad (client : Client) (ts : Turns α) : Loaded α :=
  ts.tried.foldr (fun t next ↦
    let r := loadTurn client t
    if r.retry then next.after r.entries else r)
    (loadTurn client ts.last)

/-! ## The table -/

/-- What is answered for one slot. -/
structure Visit (α : Type*) where
  put : Bool
  turns : Turns α

/-- What is answered in one call: the packets done according to the summary data, and the slots in
the order in which they are visited. -/
structure Call (α : Type*) where
  blocksDone : ℕ
  visits : ℕ → Visit α

/-- The counters of a call. -/
structure Counters where
  totalBlocksDone : ℕ
  totalProblemsLoaded : ℕ
  totalProblemsSaved : ℕ
  emptyProblems : ℕ
  getbuffErrs : ℕ

/-- Whether the packet limit lets one more packet in. -/
def mayLoad (client : Client) (loadProblemCount : ℕ) (mode : Mode) (k : Counters) : Bool :=
  if 0 < client.blockcount then
    if mode = .initial then
      decide (((k.totalBlocksDone + k.totalProblemsLoaded : ℕ) : ℤ) < client.blockcount)
    else
      decide (((k.totalBlocksDone + loadProblemCount - k.emptyProblems : ℕ) : ℤ)
        < client.blockcount)
  else true

/-- An empty slot. -/
def loadSlot (client : Client) (loadProblemCount : ℕ) (mode : Mode) (v : Visit α) (k : Counters) :
    Option (Job α) × List (Entry α) × Counters :=
  let k := { k with emptyProblems := k.emptyProblems + 1 }
  if mode.unloads = false ∧ mayLoad client loadProblemCount mode k then
    let r := individualProblemLoad client v.turns
    let k := if r.job.isSome then { k with
        emptyProblems := k.emptyProblems - 1, totalProblemsLoaded := k.totalProblemsLoaded + 1 }
      else k
    (r.job, r.entries,
      if r.loadNeeded ≠ 0 then { k with getbuffErrs := k.getbuffErrs + 1 } else k)
  else (none, [], k)

/-- One slot. -/
def fillSlot (client : Client) (loadProblemCount : ℕ) (mode : Mode) (v : Visit α)
    (slot : Option (Job α)) (k : Counters) : Option (Job α) × List (Entry α) × Counters :=
  let (slot, entries, didSave) := individualProblemSave v.put mode.unloads slot
  let k := if didSave then { k with
      totalProblemsSaved := k.totalProblemsSaved + 1, totalBlocksDone := k.totalBlocksDone + 1 }
    else k
  match slot with
  | some job => (some job, entries, k)
  | none =>
    let (slot, more, k) := loadSlot client loadProblemCount mode v k
    (slot, entries ++ more, k)

/-- The slots in the order in which they are visited. -/
def fillSlots (client : Client) (loadProblemCount : ℕ) (mode : Mode) (visits : ℕ → Visit α) :
    ℕ → List (Option (Job α)) → Counters → List (Option (Job α)) × List (Entry α) × Counters
  | _, [], k => ([], [], k)
  | i, slot :: slots, k =>
    let (slot, entries, k) := fillSlot client loadProblemCount mode (visits i) slot k
    let (slots, more, k) := fillSlots client loadProblemCount mode visits (i + 1) slots k
    (slot :: slots, entries ++ more, k)

/-- The slots that are visited, from the first to the last, and whether that is the order. At first
the table is filled from its beginning; later it is walked over from its end. A smaller table is
made by a walk over the slots that go. -/
def visited (loadProblemCount : ℕ) (mode : Mode) (previous : ℕ) : ℕ × ℕ × Bool :=
  if previous = 0 then (0, loadProblemCount, true)
  else if mode = .resizetable then (loadProblemCount, previous, false)
  else (0, loadProblemCount, false)

/-- The slots from `first` to `last` are visited, and the others stay as they are. -/
def fillTable (client : Client) (loadProblemCount : ℕ) (mode : Mode) (call : Call α)
    (first last : ℕ) (up : Bool) (slots : List (Option (Job α))) :
    List (Option (Job α)) × List (Entry α) × Counters :=
  let k : Counters := ⟨call.blocksDone, 0, 0, 0, 0⟩
  let range := (slots.drop first).take (last - first)
  let (range', entries, k) := fillSlots client loadProblemCount mode call.visits 0
    (if up then range else range.reverse) k
  (slots.take first ++ (if up then range' else range'.reverse) ++ slots.drop (max first last),
    entries, k)

/-- What is returned. -/
def retval (mode : Mode) (firstTime : Bool) (k : Counters) : ℕ :=
  match mode with
  | .unloadall | .resizetable => k.totalProblemsSaved
  | .getbufferrs => k.getbuffErrs
  | .anychanged =>
    if firstTime ∨ 0 < k.totalProblemsSaved ∨ 0 < k.totalProblemsLoaded then 1 else 0
  | .initial => k.totalProblemsLoaded

/-- **`LoadSaveProblems`**, with what is written down. -/
def loadSaveProblems (client : Client) (loadProblemCount : ℕ) (mode : Mode) (call : Call α)
    (t : Table α) : ℕ × List (Entry α) × Table α :=
  if loadProblemCount = 0 ∧ (mode ≠ .unloadall ∨ t.previousLoadProblemCount = 0) then (0, [], t)
  else
    -- no count is given to unload all that there was
    let count := if loadProblemCount = 0 then t.previousLoadProblemCount else loadProblemCount
    let (first, last, up) := visited count mode t.previousLoadProblemCount
    let (slots, entries, k) := fillTable client count mode call first last up t.slots
    (retval mode (t.previousLoadProblemCount = 0) k, entries,
      ⟨slots, if mode = .unloadall then 0 else count⟩)

/-! ## The client -/

/-- What happens to the table while the client runs: a cruncher comes to a result, the flags of the
contests are raised, or the table is refreshed. -/
inductive Step (α : Type*)
  | crunch (i : ℕ) (resultcode : ℤ)
  | setProblemLoaderFlags (discard forceUnload : ℕ → Bool)
  | refresh (call : Call α)

/-- What happens to a client from its start to its end. -/
structure Session (α : Type*) where
  client : Client
  numcrunchers : ℕ
  initialLoad : Call α
  quits : Bool -- before its crunchers are started
  started : ℕ -- crunchers, before one fails to
  resize : Call α
  steps : List (Step α)
  unload : Call α

def Job.crunched (resultcode : ℤ) (job : Job α) : Job α := { job with resultcode := resultcode }

def Job.raise (discard forceUnload : ℕ → Bool) (job : Job α) : Job α :=
  { job with
    discard := job.discard || discard job.contest
    forceUnload := job.forceUnload || forceUnload job.contest }

/-- What a step makes of the table. -/
def Step.run (client : Client) (count : ℕ) : Step α → Table α → List (Entry α) × Table α
  | crunch i resultcode, t =>
    ([], { t with slots := t.slots.modify i (Option.map (Job.crunched resultcode)) })
  | setProblemLoaderFlags discard forceUnload, t =>
    ([], { t with slots := t.slots.map (Option.map (Job.raise discard forceUnload)) })
  | refresh call, t => (loadSaveProblems client count .anychanged call t).2

def runSteps (client : Client) (count : ℕ) : List (Step α) → Table α → List (Entry α) × Table α
  | [], t => ([], t)
  | step :: steps, t =>
    let (entries, t) := step.run client count t
    let (more, t) := runSteps client count steps t
    (entries ++ more, t)

/-- The table after the first load, with the number of problems that have been loaded. -/
def Session.loaded (s : Session α) : ℕ × List (Entry α) × Table α :=
  loadSaveProblems s.client s.numcrunchers .initial s.initialLoad
    ⟨List.replicate s.numcrunchers none, 0⟩

/-- The crunchers are started, and the table is made smaller if some have failed to start; the steps
are taken. -/
def Session.crunched (s : Session α) (count : ℕ) (t : Table α) : ℕ × List (Entry α) × Table α :=
  if count = 0 ∨ s.quits then (count, [], t)
  else if s.started = 0 then
    (0, (loadSaveProblems s.client count .unloadall s.resize t).2)
  else
    let (entries, t) := if s.started < count then
        (loadSaveProblems s.client s.started .resizetable s.resize t).2 else ([], t)
    let (more, t) := runSteps s.client (min s.started count) s.steps t
    (min s.started count, entries ++ more, t)

/-- **What `ClientRun` does** with packets: what is written down, and the table at the end. -/
def Session.run (s : Session α) : List (Entry α) × Table α :=
  let (count, entries, t) := s.loaded
  let (count, more, t) := s.crunched count t
  let (last, t) := (loadSaveProblems s.client count .unloadall s.unload t).2
  (entries ++ more ++ last, t)

end Hyunjin.Probfill
