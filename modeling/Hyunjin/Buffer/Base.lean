import Hyunjin.Buffer.File
import Mathlib.Logic.Function.Basic

/-!
# The client's packet buffers

`PutBufferRecord` and `GetBufferRecord` sort packets into buffers: one for input and one for output
of every contest, on disk or, for a client without disk buffers, in memory. A packet goes by its
result code, work in progress into the input and anything else into the output. A packet that turns
up in a buffer where it does not belong is saved into the one where it does, and the search goes on.

Files are told apart by the names `BufferGetDefaultFilename` makes from the configured prefixes. The
disk has no faults here. The search of `GetBufferRecord` ends only with the buffer or with an exit
request, so it takes fuel, and the answers of `CheckExitRequestTriggerNoIO` are given as a list
whose end means that no exit is requested any more. The core a packet is wanted for is left out, as
`BufferGetFileRecord` does not look at it.
-/

namespace Hyunjin

open Word Stdio

/-! ## Names -/

abbrev Filename := List Char

def CONTEST_COUNT : U32 := 7#32

def projectGetFileExtension (projectid : U32) : List Char :=
  if projectid = 0#32 then "rc5".toList
  else if projectid = 1#32 then "des".toList
  else if projectid = 2#32 then "ogr".toList
  else if projectid = 3#32 then "csc".toList
  else if projectid = OGR_NG then "og2".toList
  else if projectid = RC5_72 then "r72".toList
  else if projectid = 6#32 then "ogf".toList
  else "zzz".toList

def isspace (c : Char) : Bool := c.toNat == 32 || (9 ≤ c.toNat && c.toNat ≤ 13)

/-- The file of a project's buffer: the trimmed prefix, or a default one, cut to what fits the
static buffer, and the extension. -/
def bufferGetDefaultFilename (project : U32) (isOutType : Bool) (basename : List Char) : Filename :=
  let filename := (((basename.dropWhile isspace).take 127).reverse.dropWhile isspace).reverse
  let filename :=
    if filename = [] then (if isOutType then "buff-out".toList else "buff-in".toList) else filename
  filename.take 123 ++ ['.'] ++ ((projectGetFileExtension project).take 3).map Char.toLower

/-! ## State -/

def MEMBUFF_COUNT_MAX : ℕ := 20000

def MEMBUFF_STEPS : ℕ := 200

/-- A buffer in memory: a stack that grows in steps. -/
structure MemBuff where
  buff : List WorkRecord
  maxcount : ℕ

/-- The configuration that concerns buffers. -/
structure Client where
  nodiskbuffers : Bool
  inBufferBasename : List Char
  outBufferBasename : List Char

/-- The files, the `moo_output_mode` flag, and the table of memory buffers with their output halves
under `true`. -/
structure Buffers where
  files : Filename → Option (List U8)
  mooOutputMode : Bool
  membufftable : U32 → Bool → MemBuff

namespace Buffers

/-- A file as the functions of the buffer file interface find it. -/
def atFile (w : Buffers) (filename : Filename) : BufferState :=
  ⟨⟨w.files filename, 0, []⟩, w.mooOutputMode⟩

/-- The state after a call on a file. -/
def close (w : Buffers) (filename : Filename) (s : BufferState) : Buffers :=
  { w with
    files := Function.update w.files filename s.disk.file
    mooOutputMode := s.mooOutputMode }

@[simp] theorem files_close_self (w : Buffers) (filename : Filename) (s : BufferState) :
    (w.close filename s).files filename = s.disk.file := Function.update_self ..

theorem files_close_of_ne (w : Buffers) {filename filename' : Filename} (s : BufferState)
    (h : filename ≠ filename') : (w.close filename' s).files filename = w.files filename :=
  Function.update_of_ne h _ _

def setMemBuff (w : Buffers) (contest : U32) (isOut : Bool) (m : MemBuff) : Buffers :=
  let row := Function.update (w.membufftable contest) isOut m
  { w with membufftable := Function.update w.membufftable contest row }

end Buffers

/-! ## Memory buffers -/

def bufferPutMemRecord (m : MemBuff) (data : WorkRecord) : PutReturn × MemBuff :=
  let maxcount :=
    if m.buff.length = m.maxcount ∧ m.maxcount < MEMBUFF_COUNT_MAX then m.maxcount + MEMBUFF_STEPS
    else m.maxcount
  if m.buff.length < maxcount then
    (⟨0, some (m.buff.length + 1)⟩, ⟨m.buff ++ [data], maxcount⟩)
  else (⟨-1, some 0⟩, ⟨m.buff, maxcount⟩)

/-- The record put last is taken first. -/
def bufferGetMemRecord (m : MemBuff) : GetReturn × MemBuff :=
  match m.buff.getLast? with
  | none => (⟨1, none, some 0⟩, m)
  | some data => (⟨0, some data, some (m.buff.length - 1)⟩, { m with buff := m.buff.dropLast })

/-! ## Putting -/

/-- Whether the prefixes of input and output are told apart. -/
def checkBuffLimits (client : Client) : Bool :=
  !(client.nodiskbuffers == false && client.outBufferBasename != [] &&
    client.inBufferBasename != [] && client.inBufferBasename == client.outBufferBasename)

/-- The file of a buffer. -/
def Client.filename (client : Client) (contest : U32) (isOut : Bool) : Filename :=
  bufferGetDefaultFilename contest isOut
    (if isOut then client.outBufferBasename else client.inBufferBasename)

/-- Put a record into the given buffer, on disk or in memory. -/
def putInto (client : Client) (contest : U32) (isOut : Bool) (data : WorkRecord) (wantCount : Bool)
    (w : Buffers) : PutReturn × Buffers :=
  if client.nodiskbuffers = false then
    let filename := client.filename contest isOut
    let (r, s) := bufferPutFileRecord (w.atFile filename) data wantCount BUFFER_FLAGS_NONE
    (r, w.close filename s)
  else
    let (r, m) := bufferPutMemRecord (w.membufftable contest isOut) data
    (r, w.setMemBuff contest isOut m)

/-- Get a record from the given buffer. -/
def getFrom (client : Client) (contest : U32) (isOut : Bool) (w : Buffers) : GetReturn × Buffers :=
  if client.nodiskbuffers = false then
    let filename := client.filename contest isOut
    let (r, s) := bufferGetFileRecord (w.atFile filename) true BUFFER_FLAGS_NONE
    (r, w.close filename s)
  else
    let (r, m) := bufferGetMemRecord (w.membufftable contest isOut)
    (r, w.setMemBuff contest isOut m)

/-- A result code that a packet may have. -/
def IsWorkstate (workstate : U32) : Prop :=
  workstate = RESULT_WORKING ∨ workstate = RESULT_FOUND ∨ workstate = RESULT_NOTHING

instance (workstate : U32) : Decidable (IsWorkstate workstate) := inferInstanceAs
    (Decidable (_ ∨ _))

/-- Put a record into the buffer it belongs to; the number of records there afterwards, or `-1`. -/
def putBufferRecord (client : Client) (data : WorkRecord) (w : Buffers) : ℤ × Buffers :=
  if ¬data.contest < CONTEST_COUNT then (-1, w)
  else if ¬IsWorkstate data.resultcode then (-1, w)
  else if checkBuffLimits client = false then (-1, w)
  else
    let (r, w) := putInto client data.contest (data.resultcode ≠ RESULT_WORKING) data true w
    if r.rc = 0 then (r.countP.getD 0, w) else (-1, w)

/-! ## Getting -/

/-- Whether a packet belongs to the buffer it was found in. -/
def Belongs (data : WorkRecord) (contest : U32) (useOutFile : Bool) : Prop :=
  data.contest = contest ∧ (useOutFile = true ↔ data.resultcode ≠ RESULT_WORKING)

instance (data : WorkRecord) (contest : U32) (useOutFile : Bool) :
    Decidable (Belongs data contest useOutFile) := inferInstanceAs (Decidable (_ ∧ _))

/-- What one round of the search does: it returns, or goes on if `count` records are left. -/
inductive GetRound
  | return (count : ℤ) (data : Option WorkRecord)
  | continue (count : ℕ)

def getRound (client : Client) (contest : U32) (useOutFile : Bool) (w : Buffers) :
    GetRound × Buffers :=
  let (r, w) := getFrom client contest useOutFile w
  let count := r.countP.getD 0
  match r.rc, r.data with
  | 0, some data =>
    if ¬data.contest < CONTEST_COUNT then (.continue count, w)
    else if ¬IsWorkstate data.resultcode then (.continue count, w)
    else if Belongs data contest useOutFile then (.return count (some data), w)
    else
      let (_, w) := putInto client data.contest (data.resultcode ≠ RESULT_WORKING) data false w
      (.continue count, w)
  -- a corrupted packet is discarded; any other failure ends the search
  | -123, _ => (.continue count, w)
  | _, _ => (.return (-1) none, w)

/-- The search, one round for each unit of fuel; `none` if it is still going on. -/
def getLoop (client : Client) (contest : U32) (useOutFile breakPending : Bool) :
    ℕ → List Bool → Buffers → Option (ℤ × Option WorkRecord) × Buffers
  | 0, _, w => (none, w)
  | fuel + 1, exits, w =>
    match getRound client contest useOutFile w with
    | (.return count data, w) => (some (count, data), w)
    | (.continue count, w) =>
      if breakPending = false ∧ exits.headD false = true then (some (-1, none), w)
      else if count = 0 then (some (-1, none), w)
      else getLoop client contest useOutFile breakPending fuel exits.tail w

/-- Get a record from a buffer: the number of records left, or `-1`, and the record. The first of
the answers `exits` says whether an exit is pending already. -/
def getBufferRecord (client : Client) (contest : U32) (useOutFile : Bool) (fuel : ℕ)
    (exits : List Bool) (w : Buffers) : Option (ℤ × Option WorkRecord) × Buffers :=
  if checkBuffLimits client = false then (some (-1, none), w)
  else if ¬contest < CONTEST_COUNT then (some (-1, none), w)
  else getLoop client contest useOutFile (exits.headD false) fuel exits.tail w

/-! ## Calls -/

inductive BufferRecordCall
  | put (data : WorkRecord)
  | get (contest : U32) (useOutFile : Bool) (fuel : ℕ) (exits : List Bool)

inductive BufferRecordAnswer
  | put (count : ℤ)
  | get (r : Option (ℤ × Option WorkRecord))

def BufferRecordCall.exec (client : Client) (c : BufferRecordCall) (w : Buffers) :
    BufferRecordAnswer × Buffers :=
  match c with
  | .put data =>
    let (count, w) := putBufferRecord client data w
    (.put count, w)
  | .get contest useOutFile fuel exits =>
    let (r, w) := getBufferRecord client contest useOutFile fuel exits w
    (.get r, w)

end Hyunjin
