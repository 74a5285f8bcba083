import Hyunjin.Buffer.Base
import Hyunjin.Buffer.Delivery

/-!
# Finished packets in a Moo buffer

The reader of Moo packets makes every packet work in progress, and `GetBufferRecord` saves work in
progress that it meets in an output buffer into the input buffer. Together they empty a Moo output
buffer without ever returning a packet from it, and turn every finished packet in it back into work:
`finished_never_returns` says that no later call returns the packet, in whatever run of calls, and
`finished_becomes_work` shows where it goes.

What carries the induction over a run is `TakesMoo` of the output file: once the file is a Moo file,
every call leaves it one, or empty with the flag set, since the flag is never cleared.
-/

namespace Hyunjin

open Word Stdio Slots Run

/-! ## The flag is sticky -/

private theorem mooFileDetect_mode {s : BufferState} (h : s.mooOutputMode = true) :
    (mooFileDetect s).2.mooOutputMode = true := by
  rw [mooFileDetect]
  split
  · exact h
  · simp [h]

private theorem mooFileMissing_mode (s : BufferState) :
    (mooFileMissing s).2.mooOutputMode = s.mooOutputMode := by
  rw [mooFileMissing]
  split <;> rfl

private theorem mooPut_mode (s : BufferState) (data : WorkRecord) (wantCount : Bool) :
    (mooPut s data wantCount).2.mooOutputMode = s.mooOutputMode := by
  simp only [mooPut]
  split <;> rfl

private theorem stockPut_mode (s : BufferState) (data : WorkRecord) (wantCount : Bool)
    (flags : U32) : (stockPut s data wantCount flags).2.mooOutputMode = s.mooOutputMode := by
  simp only [stockPut]
  split
  · rfl
  · split
    · rfl
    · split_ifs <;> rfl

theorem put_mode {s : BufferState} (h : s.mooOutputMode = true) (data : WorkRecord)
    (wantCount : Bool) (flags : U32) :
    (bufferPutFileRecord s data wantCount flags).2.mooOutputMode = true := by
  have hdetect := mooFileDetect_mode h
  simp only [bufferPutFileRecord]
  split_ifs
  · rw [mooPut_mode, hdetect]
  · rw [mooPut_mode, mooFileMissing_mode, hdetect]
  · rw [stockPut_mode, mooFileMissing_mode, hdetect]

private theorem count_mode {s : BufferState} (h : s.mooOutputMode = true) (contest : U32) :
    (bufferCountFileRecords s contest).2.mooOutputMode = true := by
  have hdetect := mooFileDetect_mode h
  simp only [bufferCountFileRecords]
  by_cases hmoo : (mooFileDetect s).1 = true
  · rw [if_pos hmoo]
    split
    · exact hdetect
    · split <;> exact hdetect
  · rw [if_neg hmoo]
    split
    · exact hdetect
    · split <;> exact hdetect

private theorem mooGet_mode (s : BufferState) (wantCount : Bool) :
    (mooGet s wantCount).2.mooOutputMode = s.mooOutputMode := by
  simp only [mooGet]
  split
  · rfl
  · split
    · rfl
    · split
      · rfl
      · rfl
      · rcases wantCount with _ | _
        · rfl
        · simp only [Bool.true_eq_false, if_false]
          split <;> rfl

private theorem stockGet_mode {s : BufferState} (h : s.mooOutputMode = true) (wantCount : Bool)
    (flags : U32) : (stockGet s wantCount flags).2.mooOutputMode = true := by
  have hcount (d : Disk) (contest : U32) :
      (bufferCountFileRecords ⟨d, s.mooOutputMode⟩ contest).2.mooOutputMode = true :=
    count_mode (s := ⟨d, s.mooOutputMode⟩) h contest
  simp only [stockGet]
  split
  · exact h
  · split
    · exact h
    · exact h
    · rcases wantCount with _ | _
      · exact h
      · simp only [Bool.true_eq_false, if_false]
        exact hcount _ _

theorem get_mode {s : BufferState} (h : s.mooOutputMode = true) (wantCount : Bool) (flags : U32) :
    (bufferGetFileRecord s wantCount flags).2.mooOutputMode = true := by
  have hdetect := mooFileDetect_mode h
  simp only [bufferGetFileRecord]
  split_ifs
  · rw [mooGet_mode, hdetect]
  · exact stockGet_mode hdetect wantCount flags

/-! ## A file that takes Moo packets goes on taking them -/

private theorem takesMoo_put {file : Option (List U8)} {mode : Bool}
    (h : TakesMoo (healthy file mode)) (data : WorkRecord) (wantCount : Bool) (flags : U32) :
    TakesMoo (bufferPutFileRecord (healthy file mode) data wantCount flags).2 := by
  have heither : EitherFormat (healthy file mode) :=
    ⟨file, mode, rfl, h.imp_right fun hempty ↦ ⟨[], hempty.2⟩⟩
  obtain ⟨count, hput⟩ := put_takesMoo heither h data wantCount flags
  rw [hput]
  exact Or.inl (isMooFile_mooPutBytes (h.symm.imp_left And.right) data)

/-- **A get from such a file gives work in progress or nothing.** -/
private theorem takesMoo_get {file : Option (List U8)} {mode : Bool}
    (h : TakesMoo (healthy file mode)) :
    let got := bufferGetFileRecord (healthy file mode) true BUFFER_FLAGS_NONE
    TakesMoo got.2 ∧
      ((∃ pkt, got.1.rc = 0 ∧ got.1.data = some (mooUnpackRecord pkt)) ∨
        got.1.rc = -1 ∨ got.1.rc = 1) := by
  intro got
  by_cases hmoo : isMooFile (file.getD []) = true
  · obtain ⟨bs, rfl⟩ : ∃ bs, file = some bs := by
      rcases file with _ | bs
      · exact nomatch hmoo
      · exact ⟨bs, rfl⟩
    have hmoo' : isMooFile bs = true := hmoo
    have hget : got = _ := get_moo hmoo' mode true BUFFER_FLAGS_NONE
    rw [hget]
    by_cases hhdr : headerAt bs = none
    · rw [if_pos hhdr]
      exact ⟨Or.inl hmoo', Or.inr (Or.inl rfl)⟩
    · rw [if_neg hhdr]
      rcases mooScan bs (packetCount bs) 0 with _ | _ | ⟨j, pkt⟩
      · exact ⟨Or.inl hmoo', Or.inr (Or.inl rfl)⟩
      · exact ⟨Or.inr ⟨rfl, rfl⟩, Or.inr (Or.inr rfl)⟩
      · exact ⟨Or.inl (isMooFile_putPacketAt hmoo' ..), Or.inl ⟨pkt, rfl, rfl⟩⟩
  · obtain ⟨rfl, hempty⟩ := h.resolve_left hmoo
    have hjoined : file.getD [] = joined ([] : List Body) := hempty
    have hflags : LocalFlags BUFFER_FLAGS_NONE := rfl
    have hget : got = _ := get_stock_of_none hjoined rfl hflags rfl true true
    rw [hget]
    exact ⟨Or.inr ⟨rfl, rfl⟩, Or.inr (Or.inr rfl)⟩

/-- A call on one file bears on another only through the flag. -/
private theorem takesMoo_close {w : Buffers} {s : BufferState} {filename filename' : Filename}
    (h : TakesMoo (w.atFile filename)) (hs : filename' = filename → TakesMoo s)
    (hmode : w.mooOutputMode = true → s.mooOutputMode = true) :
    TakesMoo ((w.close filename' s).atFile filename) := by
  by_cases hname : filename = filename'
  · rw [TakesMoo, Disk.bytes, Buffers.atFile, hname, Buffers.files_close_self]
    exact hs hname.symm
  · rw [TakesMoo, Disk.bytes, Buffers.atFile, w.files_close_of_ne s hname]
    exact h.imp_right fun hempty ↦ ⟨hmode hempty.1, hempty.2⟩

/-- A round gets a record, and may put it into another buffer. -/
private theorem getRound_buffers (client : Client) (contest : U32) (useOutFile : Bool)
    (w : Buffers) :
    (getRound client contest useOutFile w).2 = (getFrom client contest useOutFile w).2 ∨
    ∃ data : WorkRecord, (getRound client contest useOutFile w).2 =
      (putInto client data.contest (data.resultcode ≠ RESULT_WORKING) data false
        (getFrom client contest useOutFile w).2).2 := by
  simp only [getRound]
  split
  · rename_i data _ _
    by_cases hcontest : data.contest < CONTEST_COUNT
    · by_cases hstate : IsWorkstate data.resultcode
      · by_cases hbelongs : Belongs data contest useOutFile
        · left
          rw [if_neg (not_not.mpr hcontest), if_neg (not_not.mpr hstate), if_pos hbelongs]
        · right
          refine ⟨data, ?_⟩
          rw [if_neg (not_not.mpr hcontest), if_neg (not_not.mpr hstate), if_neg hbelongs]
      · left
        rw [if_neg (not_not.mpr hcontest), if_pos hstate]
    · left
      rw [if_pos hcontest]
  · exact Or.inl rfl
  · exact Or.inl rfl

private theorem putBufferRecord_buffers (client : Client) (data : WorkRecord) (w : Buffers) :
    (putBufferRecord client data w).2 = w ∨ (putBufferRecord client data w).2 =
      (putInto client data.contest (data.resultcode ≠ RESULT_WORKING) data true w).2 := by
  rw [putBufferRecord]
  by_cases hcontest : data.contest < CONTEST_COUNT
  · rw [if_neg (not_not.mpr hcontest)]
    by_cases hstate : IsWorkstate data.resultcode
    · rw [if_neg (not_not.mpr hstate)]
      by_cases hlimits : checkBuffLimits client = false
      · exact Or.inl (by rw [if_pos hlimits])
      · right
        rw [if_neg hlimits]
        simp only
        split <;> rfl
    · exact Or.inl (by rw [if_pos hstate])
  · exact Or.inl (by rw [if_pos hcontest])

section Client

variable (client : Client) {w : Buffers} {filename : Filename} (h : TakesMoo (w.atFile filename))

include h

theorem takesMoo_putInto (contest : U32) (isOut : Bool) (data : WorkRecord) (wantCount : Bool) :
    TakesMoo ((putInto client contest isOut data wantCount w).2.atFile filename) := by
  rw [putInto]
  split_ifs
  · refine takesMoo_close h ?_ fun hmode ↦ put_mode hmode _ _ _
    rintro rfl
    exact takesMoo_put h _ _ _
  · exact h

theorem takesMoo_getFrom (contest : U32) (isOut : Bool) :
    TakesMoo ((getFrom client contest isOut w).2.atFile filename) := by
  rw [getFrom]
  split_ifs
  · refine takesMoo_close h ?_ fun hmode ↦ get_mode hmode _ _
    rintro rfl
    exact (takesMoo_get h).1
  · exact h

theorem takesMoo_getRound (contest : U32) (useOutFile : Bool) :
    TakesMoo ((getRound client contest useOutFile w).2.atFile filename) := by
  have hget := takesMoo_getFrom client h contest useOutFile
  rcases getRound_buffers client contest useOutFile w with heq | ⟨data, heq⟩
  · rw [heq]
    exact hget
  · rw [heq]
    exact takesMoo_putInto client hget ..

theorem takesMoo_getLoop (contest : U32) (useOutFile breakPending : Bool) (fuel : ℕ)
    (exits : List Bool) :
    TakesMoo ((getLoop client contest useOutFile breakPending fuel exits w).2.atFile filename) := by
  induction fuel generalizing exits w with
  | zero => exact h
  | succ fuel ih =>
    have hround := takesMoo_getRound client h contest useOutFile
    rw [getLoop]
    split
    · rename_i hr
      rw [hr] at hround
      exact hround
    · rename_i hr
      rw [hr] at hround
      split_ifs
      · exact hround
      · exact hround
      · exact ih hround _

theorem takesMoo_exec (c : BufferRecordCall) : TakesMoo ((c.exec client w).2.atFile filename) := by
  cases c with
  | put data =>
    simp only [BufferRecordCall.exec]
    rcases putBufferRecord_buffers client data w with heq | heq
    · rw [heq]
      exact h
    · rw [heq]
      exact takesMoo_putInto client h ..
  | get contest useOutFile fuel exits =>
    simp only [BufferRecordCall.exec, getBufferRecord]
    split_ifs
    · exact h
    · exact takesMoo_getLoop client h ..
    · exact h

theorem takesMoo_final (later : List BufferRecordCall) :
    TakesMoo ((final (BufferRecordCall.exec client) later w).atFile filename) := by
  induction later generalizing w with
  | nil => exact h
  | cons c later ih => exact ih (takesMoo_exec client h c)

end Client

/-! ## Finished packets -/

/-- A packet that is finished, accepted into an output file, and stored there as a Moo packet. -/
structure AcceptedByMoo (client : Client) (data : WorkRecord) (w : Buffers) : Prop where
  disk : client.nodiskbuffers = false
  contest : data.contest = RC5_72
  finished : data.resultcode = RESULT_NOTHING ∨ data.resultcode = RESULT_FOUND
  accepted : 0 ≤ (putBufferRecord client data w).1
  moo : isMooFile
    (((putBufferRecord client data w).2.files (client.filename RC5_72 true)).getD []) = true

/-- After some later calls, a get on the output buffer returns the packet with its result code and
leaves the input buffer alone. -/
def KeepsResult (client : Client) (data : WorkRecord) (w : Buffers) : Prop :=
  ∃ (later : List BufferRecordCall) (fuel : ℕ) (exits : List Bool) (count : ℤ) (r : WorkRecord),
    let w₁ := final (BufferRecordCall.exec client) later (putBufferRecord client data w).2
    let got := getBufferRecord client RC5_72 true fuel exits w₁
    got.1 = some (count, some r) ∧ r.resultcode = data.resultcode ∧ r.work = data.work ∧
      got.2.files (client.filename RC5_72 false) = w₁.files (client.filename RC5_72 false)

/-- A round on a Moo output file returns no packet. -/
private theorem getRound_ne_return {client : Client} (hdisk : client.nodiskbuffers = false)
    {w : Buffers} (h : TakesMoo (w.atFile (client.filename RC5_72 true))) (count : ℤ)
    (data : WorkRecord) : (getRound client RC5_72 true w).1 ≠ .return count (some data) := by
  have hgot := (takesMoo_get h).2
  rcases hr : bufferGetFileRecord (w.atFile (client.filename RC5_72 true)) true BUFFER_FLAGS_NONE
    with ⟨⟨rc, got, countP⟩, s⟩
  have hfrom : getFrom client RC5_72 true w =
      (⟨rc, got, countP⟩, w.close (client.filename RC5_72 true) s) := by
    rw [getFrom, if_pos hdisk]
    simp only [hr]
  have hgot' : (∃ pkt, rc = 0 ∧ got = some (mooUnpackRecord pkt)) ∨ rc = -1 ∨ rc = 1 := by
    rw [show healthy (w.files (client.filename RC5_72 true)) w.mooOutputMode
      = w.atFile (client.filename RC5_72 true) from rfl, hr] at hgot
    exact hgot
  simp only [getRound, hfrom]
  rcases hgot' with ⟨pkt, rfl, rfl⟩ | rfl | rfl
  · -- what the reader gives is RC5-72 work in progress, which belongs into the input buffer
    have hcontest : (mooUnpackRecord pkt).contest < CONTEST_COUNT := by
      have hrc5 : (mooUnpackRecord pkt).contest = RC5_72 := contest_mooDecodeRecord pkt
      rw [hrc5]
      decide
    have hstate : IsWorkstate (mooUnpackRecord pkt).resultcode := Or.inl rfl
    have hbelongs : ¬Belongs (mooUnpackRecord pkt) RC5_72 true := fun hb ↦ hb.2.mp rfl rfl
    simp [hcontest, hstate, hbelongs]
  · simp
  · simp

/-- **No search of a Moo output file returns a packet**, however long it goes on. -/
private theorem getLoop_ne_some {client : Client} (hdisk : client.nodiskbuffers = false)
    (breakPending : Bool) (fuel : ℕ) (exits : List Bool) {w : Buffers}
    (h : TakesMoo (w.atFile (client.filename RC5_72 true))) (count : ℤ) (data : WorkRecord) :
    (getLoop client RC5_72 true breakPending fuel exits w).1 ≠ some (count, some data) := by
  induction fuel generalizing exits w with
  | zero => exact fun heq ↦ nomatch heq
  | succ fuel ih =>
    have hround := takesMoo_getRound client h RC5_72 true
    have hne := getRound_ne_return hdisk h
    rw [getLoop]
    rcases hr : getRound client RC5_72 true w with ⟨⟨count', data'⟩ | ⟨count'⟩, w'⟩
    · rw [hr] at hne
      intro heq
      obtain ⟨hcount, hdata⟩ := Prod.mk.inj (Option.some.inj heq)
      exact hne count data (by rw [hcount, hdata])
    · rw [hr] at hround
      simp only
      split_ifs
      · exact fun heq ↦ nomatch heq
      · exact fun heq ↦ nomatch heq
      · exact ih _ hround

private theorem getBufferRecord_ne_some {client : Client} (hdisk : client.nodiskbuffers = false)
    (fuel : ℕ) (exits : List Bool) {w : Buffers}
    (h : TakesMoo (w.atFile (client.filename RC5_72 true))) (count : ℤ) (data : WorkRecord) :
    (getBufferRecord client RC5_72 true fuel exits w).1 ≠ some (count, some data) := by
  rw [getBufferRecord]
  split_ifs
  · exact fun heq ↦ nomatch heq
  · exact getLoop_ne_some hdisk _ fuel _ h count data
  · exact fun heq ↦ nomatch heq

/-- **A finished packet never comes back from a Moo output file**, whatever calls follow. -/
theorem finished_never_returns {client : Client} {data : WorkRecord} {w : Buffers}
    (h : AcceptedByMoo client data w) : ¬KeepsResult client data w := by
  rintro ⟨later, fuel, exits, count, r, hgot, -⟩
  have hmoo : TakesMoo ((putBufferRecord client data w).2.atFile (client.filename RC5_72 true)) :=
    Or.inl h.moo
  exact getBufferRecord_ne_some h.disk fuel exits (takesMoo_final client hmoo later) count r hgot

/-! ## A winning packet -/

section Single

variable {client : Client} (hdisk : client.nodiskbuffers = false) {w : Buffers} {contest : U32}
  {isOut : Bool}

include hdisk

/-- Putting into a file that does not exist yet, after a Moo file has been seen. -/
private theorem putInto_missing (hmode : w.mooOutputMode = true)
    (hfile : w.files (client.filename contest isOut) = none) (data : WorkRecord)
    (wantCount : Bool) :
    putInto client contest isOut data wantCount w =
      (⟨0, if wantCount then some 1 else none⟩, w.close (client.filename contest isOut)
        (healthy (some (MooFile.single data).bytes) true)) := by
  have hat : w.atFile (client.filename contest isOut) = healthy none true := by
    rw [Buffers.atFile, hfile, hmode]
    rfl
  rw [putInto, if_pos hdisk]
  simp only [hat, put_missing (Or.inl rfl), MooFile.bytes_single]

/-- Getting the only packet of a file. -/
private theorem getFrom_single {data : WorkRecord} (hmode : w.mooOutputMode = true)
    (hfile : w.files (client.filename contest isOut) = some (MooFile.single data).bytes) :
    getFrom client contest isOut w =
      (⟨0, some (mooUnpackRecord (mooPackRecord data)), some 0⟩,
        w.close (client.filename contest isOut)
          (healthy (some ((MooFile.single data).setSlot 0 blankPacket).bytes) true)) := by
  have hat : w.atFile (client.filename contest isOut)
      = healthy (some (MooFile.single data).bytes) true := by
    rw [Buffers.atFile, hfile, hmode]
    rfl
  have hfull : firstFull blankPacket (MooFile.single data).slots = some (0, mooPackRecord data) :=
    if_neg (mooPackRecord_ne_blank data)
  have hleft : (packetRecords RC5_72 ((MooFile.single data).setSlot 0 blankPacket).slots).length
      = 0 := by
    have hslots : ((MooFile.single data).setSlot 0 blankPacket).slots = [blankPacket] := rfl
    rw [hslots, packetRecords, full_cons_blank]
    rfl
  rw [getFrom, if_pos hdisk]
  simp only [hat, MooFile.get_bytes_of_some _ hfull, if_true, hleft]

end Single

/-- A client with its default prefixes. -/
def defaultClient : Client := ⟨false, "buff-in".toList, "buff-out".toList⟩

/-- No buffers yet, after a Moo file has been seen. -/
def newBuffers : Buffers := ⟨fun _ ↦ none, true, fun _ _ ↦ ⟨[], 0⟩⟩

def winningRecord : WorkRecord := { emptyRecord with resultcode := RESULT_FOUND }

/-- The buffers after the winning packet has been put. -/
def winningBuffers : Buffers :=
  newBuffers.close (defaultClient.filename RC5_72 true)
    (healthy (some (MooFile.single winningRecord).bytes) true)

theorem put_winningRecord :
    putBufferRecord defaultClient winningRecord newBuffers = (1, winningBuffers) := by
  have hlimits : checkBuffLimits defaultClient ≠ false := by decide
  have hcontest : ¬¬winningRecord.contest < CONTEST_COUNT := by decide
  have hstate : ¬¬IsWorkstate winningRecord.resultcode := by decide
  have hout : decide (winningRecord.resultcode ≠ RESULT_WORKING) = true := rfl
  rw [putBufferRecord, if_neg hcontest, if_neg hstate, if_neg hlimits, hout,
    putInto_missing rfl rfl rfl]
  rfl

theorem acceptedByMoo_winningRecord : AcceptedByMoo defaultClient winningRecord newBuffers where
  disk := rfl
  contest := rfl
  finished := Or.inr rfl
  accepted := by
    rw [put_winningRecord]
    decide
  moo := by
    have hfile : winningBuffers.files (defaultClient.filename RC5_72 true)
        = some (MooFile.single winningRecord).bytes := Buffers.files_close_self ..
    rw [put_winningRecord, hfile]
    exact (MooFile.single winningRecord).isMooFile_bytes

/-- The winning packet does not come back. -/
theorem winningRecord_never_returns : ¬KeepsResult defaultClient winningRecord newBuffers :=
  finished_never_returns acceptedByMoo_winningRecord

/-- **A winning packet becomes work in progress**: the get that should return it returns nothing and
saves it, as `RESULT_WORKING`, into the input buffer. -/
theorem finished_becomes_work :
    let got := getBufferRecord defaultClient RC5_72 true 1 [] winningBuffers
    AcceptedByMoo defaultClient winningRecord newBuffers ∧
      ¬KeepsResult defaultClient winningRecord newBuffers ∧
      got.1 = some (-1, none) ∧
      got.2.files (defaultClient.filename RC5_72 false) =
        some (MooFile.single { winningRecord with resultcode := RESULT_WORKING }).bytes := by
  intro got
  set working : WorkRecord := { winningRecord with resultcode := RESULT_WORKING } with hworking
  have hunpack : mooUnpackRecord (mooPackRecord winningRecord) = working := by
    rw [mooUnpack_pack rfl]
    rfl
  have hnames : defaultClient.filename RC5_72 false ≠ defaultClient.filename RC5_72 true := by
    decide
  set blanked := winningBuffers.close (defaultClient.filename RC5_72 true)
    (healthy (some ((MooFile.single winningRecord).setSlot 0 blankPacket).bytes) true) with hblanked
  have hfrom : getFrom defaultClient RC5_72 true winningBuffers =
      (⟨0, some working, some 0⟩, blanked) := by
    rw [getFrom_single rfl rfl (Buffers.files_close_self ..), hunpack]
  have hmissing : blanked.files (defaultClient.filename RC5_72 false) = none := by
    rw [hblanked, Buffers.files_close_of_ne _ _ hnames, winningBuffers,
      Buffers.files_close_of_ne _ _ hnames]
    rfl
  -- the packet is taken for work in progress, so it is saved into the input buffer
  have hcontest : ¬¬working.contest < CONTEST_COUNT := by decide
  have hstate : ¬¬IsWorkstate working.resultcode := by decide
  have hbelongs : ¬Belongs working RC5_72 true := by decide
  have hinput : decide (working.resultcode ≠ RESULT_WORKING) = false := rfl
  have hsave : putInto defaultClient working.contest false working false blanked =
      (⟨0, none⟩, blanked.close (defaultClient.filename RC5_72 false)
        (healthy (some (MooFile.single working).bytes) true)) :=
    putInto_missing rfl rfl hmissing working false
  have hround : getRound defaultClient RC5_72 true winningBuffers =
      (.continue 0, blanked.close (defaultClient.filename RC5_72 false)
        (healthy (some (MooFile.single working).bytes) true)) := by
    simp only [getRound, hfrom, if_neg hcontest, if_neg hstate, if_neg hbelongs, hinput, hsave,
      Option.getD_some]
  have hgot : got = (some (-1, none), blanked.close (defaultClient.filename RC5_72 false)
      (healthy (some (MooFile.single working).bytes) true)) := by
    have hlimits : checkBuffLimits defaultClient ≠ false := by decide
    have hrange : ¬¬RC5_72 < CONTEST_COUNT := by decide
    rw [show got = getBufferRecord defaultClient RC5_72 true 1 [] winningBuffers from rfl,
      getBufferRecord, if_neg hlimits, if_neg hrange, getLoop, hround]
    rfl
  refine ⟨acceptedByMoo_winningRecord, ?_, by rw [hgot], ?_⟩
  · rintro ⟨later, fuel, exits, count, r, hreturned, -⟩
    have hmoo : TakesMoo ((putBufferRecord defaultClient winningRecord newBuffers).2.atFile
        (defaultClient.filename RC5_72 true)) := Or.inl acceptedByMoo_winningRecord.moo
    exact getBufferRecord_ne_some rfl fuel exits (takesMoo_final defaultClient hmoo later) count r
      hreturned
  · rw [hgot]
    exact Buffers.files_close_self ..

end Hyunjin
