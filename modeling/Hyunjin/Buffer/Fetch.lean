import Hyunjin.Buffer.Sorting
import Hyunjin.Buffer.Units
import Hyunjin.Run.Rounds

/-!
# Fetching from a remote buffer

`BufferFetchFile` goes through the contests and moves packets from a contest's remote buffer into
its input buffer, until that holds as many stats units as it should, nothing is left, or something
goes wrong. A packet that cannot be stored goes back to the remote buffer. The remote buffer may be
the input buffer itself; to notice, the fetch looks at the counts that puts report, and gives up
when they fail to grow for the fourth time. Progress is reported after every packet, as a share of
what has been retrieved and is still wanted.

The loop over the contests and the loop in it are one loop here, whose state says where it stands.
Thresholds and the names of the remote buffers are given for each contest, since they are computed
from a good part of the configuration; what a fetch makes of them does not depend on how.
-/

namespace Hyunjin

open Word Stdio Slots

/-! ## The setting -/

/-- What a fetch is told, and what it asks of the rest of the client. -/
structure Fetching where
  client : Client
  breakPending : Bool
  /-- Not a project the client supports. -/
  unsupported : U32 → Bool
  /-- Closed or disabled. -/
  loaderflagsMap : U32 → Bool
  remoteFilename : U32 → Option Filename
  /-- In hundredths of a stats unit. -/
  clientGetInThreshold : U32 → U32
  getThresholdLimit : U32 → U32
  problemCountLoaded : U32 → ℤ
  numcpu : ℤ
  getNumberOfDetectedProcessors : ℤ

/-- At least one. -/
def Fetching.numcrunchers (e : Fetching) (contest : U32) : ℤ :=
  if 1 ≤ e.problemCountLoaded contest then e.problemCountLoaded contest
  else
    let numcrunchers := if e.numcpu < 0 then e.getNumberOfDetectedProcessors else e.numcpu
    if numcrunchers < 1 then 1 else numcrunchers

/-! ## How much is wanted -/

/-- The packets of a contest in a memory buffer and their stats units. -/
def bufferCountMemRecords (m : MemBuff) (contest : U32) : ℕ × ℕ :=
  let rs := m.buff.filter fun r ↦ r.contest = contest ∧ bufferGetRecordInfo r ≠ none
  (rs.length, swuSum rs)

def bufferAssertIsBufferFull (e : Fetching) (contest : U32) (w : Buffers) : Bool × Buffers :=
  if ¬contest < CONTEST_COUNT then (false, w)
  else if e.client.nodiskbuffers = false then
    let filename := e.client.filename contest false
    let (r, s) := bufferCountFileRecords (w.atFile filename) contest
    (r.rc ≠ 0 ∨ (e.getThresholdLimit contest).toNat ≤ r.packetcount, w.close filename s)
  else (MEMBUFF_COUNT_MAX ≤ (w.membufftable contest false).maxcount, w)

/-- The packets in a buffer and their stats units, or `none` when it cannot be told. -/
def getBufferCount (client : Client) (contest : U32) (useOutFile : Bool) (w : Buffers) :
    Option (ℕ × ℕ) × Buffers :=
  if checkBuffLimits client = false then (none, w)
  else if ¬contest < CONTEST_COUNT then (none, w)
  else if client.nodiskbuffers = false then
    let filename := client.filename contest useOutFile
    let (r, s) := bufferCountFileRecords (w.atFile filename) contest
    (if r.rc = 0 then some (r.packetcount, r.normcount) else none, w.close filename s)
  else (some (bufferCountMemRecords (w.membufftable contest useOutFile) contest), w)

/-- The stats units that are missing, in hundredths. A buffer whose packets have none counts one
for each, and there is to be a packet for every cruncher. -/
def unitsToFetch (e : Fetching) (contest : U32) (packets swucount : ℕ) : ℕ :=
  let maxthresh := e.getThresholdLimit contest * 100#32
  let swuthresh := min (e.clientGetInThreshold contest).toNat maxthresh.toNat
  let swucount := if swucount = 0 then packets * 100 else swucount
  if swucount < swuthresh then swuthresh - swucount
  else if packets < e.numcrunchers contest then 100 * (e.numcrunchers contest - packets).toNat
  else 0

def bufferReComputeUnitsToFetch (e : Fetching) (contest : U32) (w : Buffers) : ℕ × Buffers :=
  let (isfull, w) := bufferAssertIsBufferFull e contest w
  if isfull then (0, w)
  else
    let (count, w) := getBufferCount e.client contest false w
    match count with
    | none => (0, w)
    | some (packets, swucount) => (unitsToFetch e contest packets swucount, w)

/-! ## One round -/

/-- The variables of the loop over the packets of a contest. -/
structure FetchLoop where
  remoteFile : Filename
  lefttotransSu : ℕ
  projtransPkts : ℕ
  projtransSu : ℕ
  inbufferCountLast : ℤ
  inbufferCountWarnings : ℕ

namespace FetchLoop

def start (remoteFile : Filename) : FetchLoop := ⟨remoteFile, 1, 0, 0, -1, 0⟩

/-- What is still wanted after a packet, of which `remaining` are left. A packet without stats units
counts one. -/
def leftAfter (lefttotransSu swucount remaining : ℕ) : ℕ :=
  let swucount := if swucount = 0 then 100 else swucount
  if remaining = 0 then 0
  else if lefttotransSu < swucount then 0
  else lefttotransSu - swucount

/-- A packet has been stored in the input buffer, which now counts `inbufferCount`. -/
def retrieve (l : FetchLoop) (inbufferCount : ℤ) (data : WorkRecord) (remaining : ℕ) : FetchLoop :=
  { l with
    inbufferCountLast := inbufferCount
    projtransPkts := l.projtransPkts + 1
    projtransSu := l.projtransSu + data.units
    lefttotransSu := leftAfter l.lefttotransSu data.units remaining }

/-- The whole that progress is measured by. -/
def totrans (l : FetchLoop) : ℕ :=
  if l.projtransSu ≠ 0 then (l.projtransSu + l.lefttotransSu) / 100
  else l.projtransPkts + l.lefttotransSu / 100

end FetchLoop

/-- What a round has come to. -/
inductive FetchRound
  | satisfied
  | remoteError
  | remoteEmpty
  | foreign (data : WorkRecord)
  | refused (data : WorkRecord)
  | notGrowing (data : WorkRecord)
  | retrieved (data : WorkRecord)

def MAX_REMOTE_BUFFER_WARNINGS : ℕ := 3

/-- Take a packet from a remote buffer. -/
def takeRemote (remoteFile : Filename) (w : Buffers) : GetReturn × Buffers :=
  let (r, s) := bufferGetFileRecord (w.atFile remoteFile) true BUFFER_FLAGS_REMOTEBUF
  (r, w.close remoteFile s)

/-- Offer a packet back to a remote buffer. -/
def offerBack (remoteFile : Filename) (data : WorkRecord) (w : Buffers) : Buffers :=
  let (_, s) := bufferPutFileRecord (w.atFile remoteFile) data false BUFFER_FLAGS_REMOTEBUF
  w.close remoteFile s

/-- The body of the loop up to the report on progress. -/
def fetchRound (e : Fetching) (contest : U32) (l : FetchLoop) (w : Buffers) :
    FetchRound × FetchLoop × Buffers :=
  let (lefttotransSu, w) := bufferReComputeUnitsToFetch e contest w
  let l := { l with lefttotransSu := lefttotransSu }
  if lefttotransSu = 0 then (.satisfied, l, w)
  else
    let (r, w) := takeRemote l.remoteFile w
    match r.rc, r.data with
    | 0, some data =>
      if data.contest ≠ contest then (.foreign data, l, offerBack l.remoteFile data w)
      else
        let (inbufferCount, w) := putBufferRecord e.client data w
        if inbufferCount < 0 then (.refused data, l, offerBack l.remoteFile data w)
        else if l.projtransPkts = 0 ∨ l.inbufferCountLast < inbufferCount then
          (.retrieved data, l.retrieve inbufferCount data (r.countP.getD 0), w)
        else
          let warned := { l with inbufferCountWarnings := l.inbufferCountWarnings + 1 }
          if l.inbufferCountWarnings < MAX_REMOTE_BUFFER_WARNINGS then
            (.retrieved data, warned.retrieve inbufferCount data (r.countP.getD 0), w)
          else (.notGrowing data, warned, w)
    | rc, _ => (if rc < 0 then .remoteError else .remoteEmpty, l, w)

/-! ## The fetch -/

/-- The state of a fetch: `loop` holds the variables of the loop over the packets of `contest` while
that is going on. The first of `exits` answers the next question whether an exit is requested. -/
structure FetchState where
  buffers : Buffers
  exits : List Bool
  contest : U32
  failed : Bool
  errors : ℕ
  totaltransPkts : ℕ
  loop : Option FetchLoop

inductive FetchEnd
  | return (transferred : ℤ)
  | divisionByZero
  deriving DecidableEq

namespace FetchState

def start (w : Buffers) (exits : List Bool) : FetchState := ⟨w, exits, 0#32, false, 0, 0, none⟩

def checkExitRequest (e : Fetching) (s : FetchState) : Bool × FetchState :=
  if e.breakPending then (false, s) else (s.exits.headD false, { s with exits := s.exits.tail })

def nextContest (s : FetchState) : FetchState :=
  { s with contest := s.contest + 1#32, loop := none }

/-- The loop over the packets of a contest is over. -/
def leave (s : FetchState) (l : FetchLoop) : FetchState :=
  { s with totaltransPkts := s.totaltransPkts + l.projtransPkts }.nextContest

def transferred (s : FetchState) : ℤ :=
  if s.failed = true ∨ s.errors ≠ 0 then -(s.totaltransPkts + 1) else s.totaltransPkts

end FetchState

/-- Where the loop over the contests starts or goes on. -/
def fetchContest (e : Fetching) (s : FetchState) : Option FetchEnd × FetchState :=
  if s.failed = true ∨ ¬s.contest < CONTEST_COUNT then (some (.return s.transferred), s)
  else if e.unsupported s.contest then (none, s.nextContest)
  else
    let (exit, s) := s.checkExitRequest e
    if exit then (some (.return s.transferred), s)
    else if e.loaderflagsMap s.contest then (none, s.nextContest)
    else
      match e.remoteFilename s.contest with
      | none => (none, s.nextContest)
      | some remoteFile => (none, { s with loop := some (.start remoteFile) })

/-- Where the loop over the packets of a contest starts or goes on. -/
def fetchPacket (e : Fetching) (l : FetchLoop) (s : FetchState) : Option FetchEnd × FetchState :=
  if l.lefttotransSu = 0 then (none, s.leave l)
  else
    let (exit, s) := s.checkExitRequest e
    if exit then (none, s.leave l)
    else
      let (round, l, w) := fetchRound e s.contest l s.buffers
      let s := { s with buffers := w }
      match round with
      | .remoteError => (none, { s with errors := s.errors + 1 }.leave l)
      | .refused _ => (none, { s with failed := true }.leave l)
      | .remoteEmpty | .foreign _ | .notGrowing _ => (none, s.leave l)
      | .satisfied | .retrieved _ =>
        if l.projtransPkts ≠ 0 ∧ l.totrans = 0 then (some .divisionByZero, s)
        else (none, { s with loop := some l })

def fetchStep (e : Fetching) (s : FetchState) : Option FetchEnd × FetchState :=
  match s.loop with
  | none => fetchContest e s
  | some l => fetchPacket e l s

/-- Fetch from the remote buffers; `none` if the fetch is still going on when the fuel is used
up. -/
def bufferFetchFile (e : Fetching) (fuel : ℕ) (exits : List Bool) (w : Buffers) :
    Option (FetchEnd × FetchState) :=
  Rounds.iterate (fetchStep e) fuel (.start w exits)

end Hyunjin
