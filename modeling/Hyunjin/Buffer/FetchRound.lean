import Hyunjin.Buffer.Fetch
import Hyunjin.Buffer.Transfer

/-!
# What a round of a fetch does

`RoundSafe` is what a round of the loop over the packets is to do, whatever the buffers hold: a
packet taken from the remote buffer is in the input buffer afterwards or has been offered back, and
the fetch gives up over an input buffer that does not grow only if it does not. `round_iff` says
when a round does so, and does not divide by zero, by a condition on the state in which it starts
(`RoundAllowed`).

The invariant of the loop over the packets (`LoopInv`) is about the figure that puts report. It is
the number of slots of a Moo file, so it grows only after the last blank slot has been filled. Until
then all puts but the first count as warnings, and the fifth packet is one too many.
-/

namespace Hyunjin

open Word Stdio Slots

/-! ## What is promised -/

/-- The packet that a round has stored in the input buffer. -/
def FetchRound.stored : FetchRound → Option WorkRecord
  | .notGrowing data | .retrieved data => some data
  | _ => none

/-- The packet that a round has offered back to the remote buffer. -/
def FetchRound.returned : FetchRound → Option WorkRecord
  | .foreign data | .refused data => some data
  | _ => none

/-- A packet has been added to the input buffer, in the layout that this has unless it is empty. -/
structure Gains (client : Client) (contest : U32) (data : WorkRecord) (w w' : Buffers) : Prop where
  ordered : Ordered client w' contest false
  held : (held client w' contest false : Multiset WorkRecord) = data ::ₘ held client w contest false
  layout : (w.files (client.filename contest false)).getD [] ≠ [] →
    inMoo client w' contest false = inMoo client w contest false

/-- What a round of the loop over the packets is to do with the packet it takes, if any, and when it
may give up. -/
structure RoundSafe (e : Fetching) (contest : U32) (l : FetchLoop) (w : Buffers) : Prop where
  keeps : (bufferReComputeUnitsToFetch e contest w).1 ≠ 0 → ∀ r w₁,
    takeRemote l.remoteFile (bufferReComputeUnitsToFetch e contest w).2 = (r, w₁) →
    ∀ data, r.data = some data →
      ((fetchRound e contest l w).1.returned = some data ∧
        ∃ w₂, (fetchRound e contest l w).2.2 = offerBack l.remoteFile data w₂) ∨
      ((fetchRound e contest l w).1.stored = some data ∧
        Gains e.client contest data w₁ (fetchRound e contest l w).2.2)
  grows : ∀ data, (fetchRound e contest l w).1 = .notGrowing data →
    (held e.client (fetchRound e contest l w).2.2 contest false).length
      ≤ (held e.client w contest false).length

/-! ## When it is kept -/

/-- There is something to measure progress by, in hundredths of a stats unit. -/
def Measured (projtransSu lefttotransSu : ℕ) : Prop :=
  projtransSu = 0 ∨ 100 ≤ projtransSu + lefttotransSu

/-- A memory buffer has a place for a record, or makes one. -/
def MemBuff.HasPlace (m : MemBuff) : Prop :=
  m.buff.length < m.maxcount ∨ (m.buff.length = m.maxcount ∧ m.maxcount < MEMBUFF_COUNT_MAX)

/-- The packets that a contest's remote buffer gives. -/
def remotePackets (l : FetchLoop) (w : Buffers) : List WorkRecord :=
  remoteRecords ((w.files l.remoteFile).getD [])

/-- The contents of a contest's input buffer on disk. -/
def inBytes (client : Client) (contest : U32) (w : Buffers) : List U8 :=
  (w.files (client.filename contest false)).getD []

/-- The packet that comes next can be dealt with. An input buffer on disk, unless it is the remote
buffer itself, takes it, and has no blank slot in a Moo file from the fifth packet on. Progress can
be measured afterwards, unless the fetch gives up because the two buffers are one. -/
structure PacketAllowed (client : Client) (contest : U32) (l : FetchLoop) (w : Buffers)
    (wanted : ℕ) (data : WorkRecord) (rest : List WorkRecord) : Prop where
  takes : client.nodiskbuffers = false → Apart client l.remoteFile →
    TakesPacket (inBytes client contest w) data
  grows : client.nodiskbuffers = false → Apart client l.remoteFile → 4 ≤ l.projtransPkts →
    ¬HasBlank (inBytes client contest w)
  measured : (client.nodiskbuffers = true → (w.membufftable contest false).HasPlace) →
    (Apart client l.remoteFile ∨ l.projtransPkts < 4) →
    Measured (l.projtransSu + data.units) (FetchLoop.leftAfter wanted data.units rest.length)

/-- A round finds what it needs: progress can be measured if nothing is wanted any more, and
otherwise the next packet of the contest can be dealt with. -/
structure RoundAllowed (e : Fetching) (contest : U32) (l : FetchLoop) (w : Buffers) : Prop where
  satisfied : (bufferReComputeUnitsToFetch e contest w).1 = 0 → Measured l.projtransSu 0
  packet : ∀ wanted, (bufferReComputeUnitsToFetch e contest w).1 = wanted → wanted ≠ 0 →
    ∀ data rest, remotePackets l w = data :: rest → data.contest = contest →
      PacketAllowed e.client contest l w wanted data rest

/-! ## What the buffers hold -/

/-- The input and remote buffers can be read. -/
structure AllReadable (e : Fetching) (w : Buffers) : Prop where
  inBuffer : ∀ contest, Ordered e.client w contest false
  remote : ∀ contest remoteFile, e.remoteFilename contest = some remoteFile →
    Readable (w.files remoteFile)

/-- The same packets are in all buffers. A file may have been created. -/
structure SamePackets (w w' : Buffers) : Prop where
  files : ∀ filename, (w'.files filename).getD [] = (w.files filename).getD []
  mem : w'.membufftable = w.membufftable

theorem SamePackets.refl (w : Buffers) : SamePackets w w := ⟨fun _ ↦ rfl, rfl⟩

theorem SamePackets.trans {w w' w'' : Buffers} (h : SamePackets w w') (h' : SamePackets w' w'') :
    SamePackets w w'' :=
  ⟨fun filename ↦ (h'.files filename).trans (h.files filename), h'.mem.trans h.mem⟩

theorem readable_congr {file file' : Option (List U8)} (hsame : file'.getD [] = file.getD [])
    (h : Readable file) : Readable file' := by
  obtain ⟨moo, rs, hfile⟩ := h
  cases hfile with
  | stock hcs hstock => exact ⟨false, _, .stock (hsame.trans hcs) hstock⟩
  | moo m =>
    rcases file' with _ | bs
    · have hmoo := m.isMooFile_bytes
      rw [show m.bytes = [] from hsame.symm] at hmoo
      exact nomatch hmoo
    · obtain rfl : bs = m.bytes := hsame
      exact ⟨true, _, .moo m⟩

/-- Files are opened and closed one at a time. -/
theorem readable_close {w : Buffers} {filename filename' : Filename} {s : BufferState}
    (h : Readable (w.files filename)) (hs : Readable s.disk.file) :
    Readable ((w.close filename' s).files filename) := by
  by_cases hname : filename = filename'
  · rwa [hname, Buffers.files_close_self]
  · rwa [w.files_close_of_ne s hname]

section AllReadable

variable {e : Fetching} {w w' : Buffers}

theorem AllReadable.congr (h : AllReadable e w) (hsame : SamePackets w w') : AllReadable e w' :=
  ⟨fun contest hdisk ↦ readable_congr (hsame.files _) (h.inBuffer contest hdisk),
    fun contest remoteFile hremote ↦
      readable_congr (hsame.files _) (h.remote contest remoteFile hremote)⟩

theorem AllReadable.close (h : AllReadable e w) {filename : Filename} {s : BufferState}
    (hs : Readable s.disk.file) : AllReadable e (w.close filename s) :=
  ⟨fun contest hdisk ↦ readable_close (h.inBuffer contest hdisk) hs,
    fun contest remoteFile hremote ↦ readable_close (h.remote contest remoteFile hremote) hs⟩

end AllReadable

/-! ## Counting -/

/-- A count of a file that can be read succeeds, and leaves its contents. -/
private theorem count_readable {file : Option (List U8)} (h : Readable file) (contest : U32)
    (mode : Bool) : ∃ packetcount normcount file' mode',
    bufferCountFileRecords (healthy file mode) contest =
      (⟨0, packetcount, normcount⟩, healthy file' mode') ∧ file'.getD [] = file.getD [] := by
  obtain ⟨moo, rs, hfile⟩ := h
  cases hfile with
  | stock hcs hstock => exact ⟨_, _, _, _, count_stock hcs hstock contest mode, hcs.symm⟩
  | moo m => exact ⟨_, _, _, _, m.count_bytes contest mode, rfl⟩

private theorem samePackets_close {w : Buffers} {filename : Filename} {file : Option (List U8)}
    (h : file.getD [] = (w.files filename).getD []) (mode : Bool) :
    SamePackets w (w.close filename (healthy file mode)) := by
  refine ⟨fun filename' ↦ ?_, rfl⟩
  by_cases hname : filename' = filename
  · rw [hname, Buffers.files_close_self, healthy_disk, h]
  · rw [w.files_close_of_ne _ hname]

variable {e : Fetching} {contest : U32} {w : Buffers}

private theorem samePackets_assert (hw : Ordered e.client w contest false) :
    SamePackets w (bufferAssertIsBufferFull e contest w).2 := by
  rw [bufferAssertIsBufferFull]
  split_ifs with hcontest hdisk
  · obtain ⟨packets, units, file, mode, hcount, hsame⟩ :=
      count_readable (hw hdisk) contest w.mooOutputMode
    have hat : w.atFile (e.client.filename contest false)
        = healthy (w.files (e.client.filename contest false)) w.mooOutputMode := rfl
    simp only [hat, hcount]
    exact samePackets_close hsame mode
  · exact .refl w
  · exact .refl w

private theorem getBufferCount_spec (hw : Ordered e.client w contest false) :
    SamePackets w (getBufferCount e.client contest false w).2 ∧
      ((getBufferCount e.client contest false w).1 ≠ none →
        checkBuffLimits e.client = true ∧ contest < CONTEST_COUNT) := by
  rw [getBufferCount]
  split_ifs with hlimits hcontest hdisk
  · exact ⟨.refl w, fun h ↦ absurd rfl h⟩
  · obtain ⟨packets, units, file, mode, hcount, hsame⟩ :=
      count_readable (hw hdisk) contest w.mooOutputMode
    have hat : w.atFile (e.client.filename contest false)
        = healthy (w.files (e.client.filename contest false)) w.mooOutputMode := rfl
    simp only [hat, hcount]
    exact ⟨samePackets_close hsame mode,
      fun _ ↦ ⟨Bool.eq_true_of_not_eq_false hlimits, hcontest⟩⟩
  · exact ⟨.refl w, fun _ ↦ ⟨Bool.eq_true_of_not_eq_false hlimits, hcontest⟩⟩
  · exact ⟨.refl w, fun h ↦ absurd rfl h⟩

/-- **Working out what is wanted** changes no packet, and nothing is wanted unless the buffers are
told apart. -/
theorem recompute_spec (hw : Ordered e.client w contest false) :
    SamePackets w (bufferReComputeUnitsToFetch e contest w).2 ∧
      ((bufferReComputeUnitsToFetch e contest w).1 ≠ 0 →
        checkBuffLimits e.client = true ∧ contest < CONTEST_COUNT) := by
  have hassert := samePackets_assert hw
  have hw' : Ordered e.client (bufferAssertIsBufferFull e contest w).2 contest false :=
    fun hdisk ↦ readable_congr (hassert.files _) (hw hdisk)
  obtain ⟨hcount, hlimits⟩ := getBufferCount_spec hw'
  rw [bufferReComputeUnitsToFetch]
  rcases hfull : bufferAssertIsBufferFull e contest w with ⟨_ | _, w₁⟩
  · rw [hfull] at hassert hcount hlimits
    rcases hget : getBufferCount e.client contest false w₁ with ⟨_ | ⟨packets, units⟩, w₂⟩
    · simp only [hget, Bool.false_eq_true, if_false]
      rw [hget] at hcount
      exact ⟨hassert.trans hcount, fun h ↦ absurd rfl h⟩
    · simp only [hget, Bool.false_eq_true, if_false]
      rw [hget] at hcount hlimits
      exact ⟨hassert.trans hcount, fun _ ↦ hlimits (Option.some_ne_none _)⟩
  · rw [hfull] at hassert
    exact ⟨hassert, fun h ↦ absurd rfl h⟩

/-! ## Taking a packet -/

/-- The state after a packet has been taken from the remote buffer, compared with the one in which
the round starts. -/
structure Took (e : Fetching) (l : FetchLoop) (w : Buffers) (data : WorkRecord)
    (rest : List WorkRecord) (w₁ : Buffers) : Prop where
  readable : AllReadable e w₁
  mode : w₁.mooOutputMode = true
  data : FromMoo data
  mem : w₁.membufftable = w.membufftable
  elsewhere : ∀ filename, filename ≠ l.remoteFile →
    (w₁.files filename).getD [] = (w.files filename).getD []
  held : (heldIn ((w.files l.remoteFile).getD [])).length = rest.length + 1
  remote : ∃ m : MooFile, w₁.files l.remoteFile = some m.bytes ∧ remoteRecords m.bytes = rest ∧
    blankPacket ∈ m.slots ∧ m.slots.length = reported ((w.files l.remoteFile).getD [])

theorem length_heldIn {bs : List U8} (h : isMooFile bs = true) :
    (heldIn bs).length = (remoteRecords bs).length := by
  rw [heldIn, remoteRecords, if_pos h, if_pos h, List.length_map, List.length_map]

section Take

variable {l : FetchLoop} (hw : AllReadable e w)
  (hremote : e.remoteFilename contest = some l.remoteFile)

include hw hremote

private theorem takeRemote_nil (hnone : remotePackets l w = []) :
    (takeRemote l.remoteFile w).1.rc ≠ 0 ∧ (takeRemote l.remoteFile w).1.data = none ∧
      AllReadable e (takeRemote l.remoteFile w).2 := by
  rcases (hw.remote contest _ hremote).takeRemote w.mooOutputMode with
    ⟨-, hfailed, hdata, file, mode, hstate, hread⟩ | ⟨m, m', data, rest, hfile, hcons, -⟩
  · have htake : (takeRemote l.remoteFile w).2 = w.close l.remoteFile (healthy file mode) := by
      rw [← hstate]
      rfl
    rw [htake]
    exact ⟨hfailed, hdata, hw.close hread⟩
  · rw [remotePackets, hfile, Option.getD_some, hcons] at hnone
    exact nomatch hnone

private theorem takeRemote_cons {data : WorkRecord} {rest : List WorkRecord}
    (hcons : remotePackets l w = data :: rest) : ∃ w₁,
    takeRemote l.remoteFile w = (⟨0, some data, some rest.length⟩, w₁) ∧
      Took e l w data rest w₁ := by
  have hat : w.atFile l.remoteFile = healthy (w.files l.remoteFile) w.mooOutputMode := rfl
  rw [remotePackets] at hcons
  rcases (hw.remote contest _ hremote).takeRemote w.mooOutputMode with
    ⟨hnone, -⟩ | ⟨m, m', data', rest', hfile, hcons', hdata, hgot, hrest, hblank, hlen⟩
  · exact nomatch hnone.symm.trans hcons
  · have hbytes : (w.files l.remoteFile).getD [] = m.bytes := by rw [hfile, Option.getD_some]
    obtain ⟨rfl, rfl⟩ := List.cons.inj (hcons'.symm.trans (hbytes ▸ hcons))
    refine ⟨w.close l.remoteFile (healthy (some m'.bytes) true), ?_, ?_⟩
    · rw [takeRemote, hat, hgot]
    · refine ⟨hw.close ⟨true, _, .moo m'⟩, rfl, hdata, rfl, fun filename hne ↦ ?_, ?_, m', ?_,
        hrest, hblank, ?_⟩
      · rw [w.files_close_of_ne _ hne]
      · rw [hbytes, length_heldIn m.isMooFile_bytes, hcons', List.length_cons]
      · exact Buffers.files_close_self ..
      · rw [hlen, hbytes, m.reported_bytes]

end Take

/-- A packet that comes back into the remote buffer leaves it in order. -/
private theorem allReadable_offerBack {l : FetchLoop} {w₁ : Buffers} (hw : AllReadable e w₁)
    {m : MooFile} (hfile : w₁.files l.remoteFile = some m.bytes) (hblank : blankPacket ∈ m.slots)
    (data : WorkRecord) : AllReadable e (offerBack l.remoteFile data w₁) := by
  obtain ⟨m', hput⟩ := m.offerBack hblank data w₁.mooOutputMode
  have hat : w₁.atFile l.remoteFile = healthy (some m.bytes) w₁.mooOutputMode := by
    rw [Buffers.atFile, hfile]
    rfl
  have hoffer : offerBack l.remoteFile data w₁
      = w₁.close l.remoteFile (healthy (some m'.bytes) true) := by
    rw [← hput, ← hat]
    rfl
  rw [hoffer]
  exact hw.close ⟨true, _, .moo m'⟩

/-! ## Storing a packet -/

section Put

variable {client : Client} {data : WorkRecord} (hdata : FromMoo data)
  (hlimits : checkBuffLimits client = true)

include hdata hlimits

private theorem put_disk (hdisk : client.nodiskbuffers = false) {bs : List U8} {count : ℕ}
    (hmode : w.mooOutputMode = true)
    (hput : bufferPutFileRecord (healthy (w.files (client.filename RC5_72 false)) true) data true
      BUFFER_FLAGS_NONE = (⟨0, some count⟩, healthy (some bs) true)) :
    putBufferRecord client data w =
      ((count : ℤ), w.close (client.filename RC5_72 false) (healthy (some bs) true)) := by
  have hcontest : ¬¬data.contest < CONTEST_COUNT := by rw [hdata.contest]; decide
  have hstate : ¬¬IsWorkstate data.resultcode := not_not.mpr (Or.inl hdata.state)
  have hoff : decide (data.resultcode ≠ RESULT_WORKING) = false := by rw [hdata.state]; rfl
  have hat : w.atFile (client.filename RC5_72 false)
      = healthy (w.files (client.filename RC5_72 false)) true := by rw [Buffers.atFile, hmode]; rfl
  have hinto : putInto client RC5_72 false data true w = (⟨0, some count⟩,
      w.close (client.filename RC5_72 false) (healthy (some bs) true)) := by
    rw [putInto, if_pos hdisk]
    simp only [hat, hput]
  rw [putBufferRecord, if_neg hcontest, if_neg hstate, if_neg (by rw [hlimits]; decide), hoff,
    hdata.contest, hinto]
  rfl

private theorem put_mem (hmem : client.nodiskbuffers = true) : putBufferRecord client data w =
    let r := bufferPutMemRecord (w.membufftable RC5_72 false) data
    (if r.1.rc = 0 then (r.1.countP.getD 0 : ℤ) else -1, w.setMemBuff RC5_72 false r.2) := by
  have hcontest : ¬¬data.contest < CONTEST_COUNT := by rw [hdata.contest]; decide
  have hstate : ¬¬IsWorkstate data.resultcode := not_not.mpr (Or.inl hdata.state)
  have hoff : decide (data.resultcode ≠ RESULT_WORKING) = false := by rw [hdata.state]; rfl
  rw [putBufferRecord, if_neg hcontest, if_neg hstate, if_neg (by rw [hlimits]; decide), putInto,
    if_neg (by rw [hmem]; decide), hoff, hdata.contest]
  dsimp only
  split_ifs <;> rfl

end Put

/-- **What a memory buffer does with a record.** -/
private theorem bufferPutMemRecord_cases (m : MemBuff) (data : WorkRecord) :
    (m.HasPlace ∧ ∃ maxcount, bufferPutMemRecord m data =
      (⟨0, some (m.buff.length + 1)⟩, ⟨m.buff ++ [data], maxcount⟩)) ∨
    (¬m.HasPlace ∧ (bufferPutMemRecord m data).1.rc = -1) := by
  simp only [bufferPutMemRecord, MemBuff.HasPlace]
  by_cases hgrow : m.buff.length = m.maxcount ∧ m.maxcount < MEMBUFF_COUNT_MAX
  · have hlt : m.buff.length < m.maxcount + MEMBUFF_STEPS := by rw [MEMBUFF_STEPS]; omega
    simp only [if_pos hgrow, if_pos hlt]
    exact Or.inl ⟨Or.inr hgrow, _, rfl⟩
  · simp only [if_neg hgrow, or_iff_left hgrow]
    by_cases hlt : m.buff.length < m.maxcount
    · rw [if_pos hlt]
      exact Or.inl ⟨hlt, _, rfl⟩
    · rw [if_neg hlt]
      exact Or.inr ⟨hlt, rfl⟩

/-! ## One round -/

section Round

variable {l : FetchLoop}

private theorem fetchRound_satisfied (h : (bufferReComputeUnitsToFetch e contest w).1 = 0) :
    fetchRound e contest l w = (.satisfied, { l with lefttotransSu := 0 },
      (bufferReComputeUnitsToFetch e contest w).2) := by
  simp only [fetchRound, h, if_true]

variable (hn : (bufferReComputeUnitsToFetch e contest w).1 ≠ 0)

include hn

private theorem fetchRound_failed
    (hrc : (takeRemote l.remoteFile (bufferReComputeUnitsToFetch e contest w).2).1.rc ≠ 0) :
    ∃ round, (round = .remoteError ∨ round = .remoteEmpty) ∧ fetchRound e contest l w =
      (round, { l with lefttotransSu := (bufferReComputeUnitsToFetch e contest w).1 },
        (takeRemote l.remoteFile (bufferReComputeUnitsToFetch e contest w).2).2) := by
  simp only [fetchRound, if_neg hn]
  split
  · exact absurd ‹_› hrc
  · split_ifs
    · exact ⟨_, Or.inl rfl, rfl⟩
    · exact ⟨_, Or.inr rfl, rfl⟩

variable {data : WorkRecord} {rest : List WorkRecord} {w₁ : Buffers}
  (htake : takeRemote l.remoteFile (bufferReComputeUnitsToFetch e contest w).2
    = (⟨0, some data, some rest.length⟩, w₁))

include htake

private theorem fetchRound_foreign (hne : data.contest ≠ contest) : fetchRound e contest l w =
    (.foreign data, { l with lefttotransSu := (bufferReComputeUnitsToFetch e contest w).1 },
      offerBack l.remoteFile data w₁) := by
  simp only [fetchRound, if_neg hn, htake, if_pos hne]

variable (heq : data.contest = contest) {count : ℤ} {w₂ : Buffers}
  (hput : putBufferRecord e.client data w₁ = (count, w₂))

include heq hput

private theorem fetchRound_refused (hcount : count < 0) : fetchRound e contest l w =
    (.refused data, { l with lefttotransSu := (bufferReComputeUnitsToFetch e contest w).1 },
      offerBack l.remoteFile data w₂) := by
  simp only [fetchRound, if_neg hn, htake, if_neg (not_not.mpr heq), hput, if_pos hcount]

private theorem fetchRound_growing (hcount : 0 ≤ count)
    (hgrows : l.projtransPkts = 0 ∨ l.inbufferCountLast < count) : fetchRound e contest l w =
    (.retrieved data,
      { l with lefttotransSu := (bufferReComputeUnitsToFetch e contest w).1 }.retrieve count data
        rest.length, w₂) := by
  simp only [fetchRound, if_neg hn, htake, if_neg (not_not.mpr heq), hput, if_neg hcount.not_gt,
    if_pos hgrows]
  rfl

private theorem fetchRound_stuck (hcount : 0 ≤ count)
    (hstuck : ¬(l.projtransPkts = 0 ∨ l.inbufferCountLast < count)) : fetchRound e contest l w =
    let warned := { l with
      lefttotransSu := (bufferReComputeUnitsToFetch e contest w).1
      inbufferCountWarnings := l.inbufferCountWarnings + 1 }
    if l.inbufferCountWarnings < MAX_REMOTE_BUFFER_WARNINGS then
      (.retrieved data, warned.retrieve count data rest.length, w₂)
    else (.notGrowing data, warned, w₂) := by
  simp only [fetchRound, if_neg hn, htake, if_neg (not_not.mpr heq), hput, if_neg hcount.not_gt,
    if_neg hstuck]
  rfl

end Round

/-! ## The loop over the packets -/

/-- What a put into the input buffer of RC5-72 has reported last. -/
def inCount (client : Client) (w : Buffers) : ℕ :=
  if client.nodiskbuffers = false then reported (inBytes client RC5_72 w)
  else (w.membufftable RC5_72 false).buff.length

/-- What holds of the variables of the loop at the start of a round. Only RC5-72 packets come from a
remote buffer. -/
structure LoopInv (client : Client) (contest : U32) (l : FetchLoop) (w : Buffers) : Prop where
  fresh : l.projtransPkts = 0 → l.projtransSu = 0 ∧ l.inbufferCountWarnings = 0
  contest : l.projtransPkts ≠ 0 → contest = RC5_72
  last : l.projtransPkts ≠ 0 → l.inbufferCountLast = inCount client w
  warnings : l.projtransPkts ≠ 0 → client.nodiskbuffers = false →
    ¬Apart client l.remoteFile ∨ HasBlank (inBytes client RC5_72 w) →
    l.inbufferCountWarnings + 1 = l.projtransPkts

/-- The fetch gives up after the next packet. -/
def GivesUp (client : Client) (l : FetchLoop) (w : Buffers) : Prop :=
  client.nodiskbuffers = false ∧ 4 ≤ l.projtransPkts ∧
    (¬Apart client l.remoteFile ∨ HasBlank (inBytes client RC5_72 w))

/-- What may become of a packet that has been taken, leaving the state `w₁`. -/
inductive PacketRound (e : Fetching) (l : FetchLoop) (w : Buffers) (wanted : ℕ)
    (data : WorkRecord) (rest : List WorkRecord) (w₁ : Buffers) :
    FetchRound → FetchLoop → Buffers → Prop
  | refused {l' : FetchLoop} {w₂ : Buffers} (hmem : e.client.nodiskbuffers = true)
    (hplace : ¬(w.membufftable RC5_72 false).HasPlace)
    (hw : AllReadable e (offerBack l.remoteFile data w₂)) :
    PacketRound e l w wanted data rest w₁ (.refused data) l' (offerBack l.remoteFile data w₂)
  | lost {round : FetchRound} {l' : FetchLoop} {w' : Buffers}
    (hdisk : e.client.nodiskbuffers = false) (hapart : Apart e.client l.remoteFile)
    (htakes : ¬TakesPacket (inBytes e.client RC5_72 w) data)
    (hround : round = .notGrowing data ∨ round = .retrieved data)
    (hgains : ¬Gains e.client RC5_72 data w₁ w') :
    PacketRound e l w wanted data rest w₁ round l' w'
  | gaveUp {l' : FetchLoop} {w' : Buffers} (hgives : GivesUp e.client l w)
    (hgains : Gains e.client RC5_72 data w₁ w') (hw : AllReadable e w')
    (hgrown : (held e.client w' RC5_72 false).length ≤ (held e.client w RC5_72 false).length ↔
      ¬Apart e.client l.remoteFile) :
    PacketRound e l w wanted data rest w₁ (.notGrowing data) l' w'
  | retrieved {l' : FetchLoop} {w' : Buffers} (hgives : ¬GivesUp e.client l w)
    (htakes : e.client.nodiskbuffers = false → Apart e.client l.remoteFile →
      TakesPacket (inBytes e.client RC5_72 w) data)
    (hplace : e.client.nodiskbuffers = true → (w.membufftable RC5_72 false).HasPlace)
    (hgains : Gains e.client RC5_72 data w₁ w') (hw : AllReadable e w')
    (hfile : l'.remoteFile = l.remoteFile) (hpkts : l'.projtransPkts = l.projtransPkts + 1)
    (hsu : l'.projtransSu = l.projtransSu + data.units)
    (hleft : l'.lefttotransSu = FetchLoop.leftAfter wanted data.units rest.length)
    (hinv : LoopInv e.client RC5_72 l' w')
    (hrest : Apart e.client l.remoteFile → remotePackets l' w' = rest) :
    PacketRound e l w wanted data rest w₁ (.retrieved data) l' w'

private theorem gains_close {client : Client} (hdisk : client.nodiskbuffers = false)
    {data : WorkRecord} {w₁ : Buffers} {bs : List U8} :
    Gains client RC5_72 data w₁
        (w₁.close (client.filename RC5_72 false) (healthy (some bs) true)) ↔
      Readable (some bs) ∧
      (heldIn bs : Multiset WorkRecord) = data ::ₘ heldIn (inBytes client RC5_72 w₁) ∧
      (inBytes client RC5_72 w₁ ≠ [] → isMooFile bs = isMooFile (inBytes client RC5_72 w₁)) := by
  have hfile := Buffers.files_close_self w₁ (client.filename RC5_72 false) (healthy (some bs) true)
  constructor
  · rintro ⟨hordered, hheld, hlayout⟩
    have hread := hordered hdisk
    rw [hfile] at hread
    rw [held, held, if_pos hdisk, if_pos hdisk, hfile] at hheld
    simp only [inMoo, hfile, hdisk, Bool.not_false, Bool.true_and] at hlayout
    exact ⟨hread, hheld, hlayout⟩
  · rintro ⟨hread, hheld, hlayout⟩
    refine ⟨fun _ ↦ ?_, ?_, ?_⟩
    · rw [hfile]
      exact hread
    · rw [held, held, if_pos hdisk, if_pos hdisk, hfile]
      exact hheld
    · simp only [inMoo, hfile, hdisk, Bool.not_false, Bool.true_and]
      exact hlayout

section Packet

variable {l : FetchLoop} {data : WorkRecord} {rest : List WorkRecord} {w₁ : Buffers}
  (hn : (bufferReComputeUnitsToFetch e RC5_72 w).1 ≠ 0)
  (htake : takeRemote l.remoteFile (bufferReComputeUnitsToFetch e RC5_72 w).2
    = (⟨0, some data, some rest.length⟩, w₁))
  (htook : Took e l w data rest w₁) (hlimits : checkBuffLimits e.client = true)
  (hinv : LoopInv e.client RC5_72 l w)

include hn htake htook hlimits hinv

private theorem packetRound_mem (hmem : e.client.nodiskbuffers = true) :
    let r := fetchRound e RC5_72 l w
    PacketRound e l w (bufferReComputeUnitsToFetch e RC5_72 w).1 data rest w₁ r.1 r.2.1 r.2.2 := by
  intro r
  have hput := put_mem (w := w₁) htook.data hlimits hmem
  rw [htook.mem] at hput
  obtain ⟨m, hfile, hrest, hblank, -⟩ := htook.remote
  have hnot : ¬e.client.nodiskbuffers = false := by rw [hmem]; decide
  rcases bufferPutMemRecord_cases (w.membufftable RC5_72 false) data with
    ⟨hplace, maxcount, hdone⟩ | ⟨hplace, hfull⟩
  · simp only [hdone, if_true, Option.getD_some] at hput
    have hgrows : l.projtransPkts = 0 ∨
        l.inbufferCountLast < (((w.membufftable RC5_72 false).buff.length + 1 : ℕ) : ℤ) := by
      rcases Nat.eq_zero_or_pos l.projtransPkts with hpkts | hpkts
      · exact Or.inl hpkts
      · rw [hinv.last hpkts.ne', inCount, if_neg hnot]
        exact Or.inr (Int.ofNat_lt.mpr (Nat.lt_succ_self _))
    have hround := fetchRound_growing hn htake htook.data.contest hput (Int.natCast_nonneg _) hgrows
    have htable (m : MemBuff) : (w₁.setMemBuff RC5_72 false m).membufftable RC5_72 false = m := by
      simp [Buffers.setMemBuff]
    simp only [r, hround]
    refine .retrieved (fun h ↦ hnot h.1) (fun h ↦ absurd h hnot) (fun _ ↦ hplace)
      ⟨fun h ↦ absurd h hnot, ?_, fun _ ↦ ?_⟩ ⟨fun c h ↦ absurd h hnot, htook.readable.remote⟩ rfl
      rfl rfl rfl ⟨fun h ↦ absurd h (Nat.succ_ne_zero _), fun _ ↦ rfl, fun _ ↦ ?_,
        fun _ h ↦ absurd h hnot⟩ fun _ ↦ ?_
    · rw [held, held, if_neg hnot, if_neg hnot, htable, htook.mem, List.reverse_append]
      rfl
    · rw [inMoo, inMoo, hmem]
      rfl
    · rw [inCount, if_neg hnot, htable]
      simp [FetchLoop.retrieve]
    · rw [← hrest, remotePackets]
      exact congrArg (fun file : Option (List U8) ↦ remoteRecords (file.getD [])) hfile
  · have hneg : ¬(-1 : ℤ) = 0 := by decide
    simp only [hfull, if_neg hneg] at hput
    have hround := fetchRound_refused hn htake htook.data.contest hput (by decide)
    simp only [r, hround]
    have hw₂ : AllReadable e (w₁.setMemBuff RC5_72 false
        (bufferPutMemRecord (w.membufftable RC5_72 false) data).2) :=
      ⟨fun c h ↦ absurd h hnot, htook.readable.remote⟩
    exact .refused hmem hplace (allReadable_offerBack hw₂ hfile hblank data)

private theorem packetRound_disk (hdisk : e.client.nodiskbuffers = false) :
    let r := fetchRound e RC5_72 l w
    PacketRound e l w (bufferReComputeUnitsToFetch e RC5_72 w).1 data rest w₁ r.1 r.2.1 r.2.2 := by
  intro r
  obtain ⟨m, hfile, hrest, hblank, hlen⟩ := htook.remote
  have hread : Readable (w₁.files (e.client.filename RC5_72 false)) :=
    htook.readable.inBuffer RC5_72 hdisk
  have hmemtrue : e.client.nodiskbuffers = true → (w.membufftable RC5_72 false).HasPlace :=
    fun h ↦ Bool.noConfusion (hdisk.symm.trans h)
  -- the input buffer is as it was, or it is the file the packet has been taken from
  have hin : (Apart e.client l.remoteFile ∧
        inBytes e.client RC5_72 w₁ = inBytes e.client RC5_72 w) ∨
      (¬Apart e.client l.remoteFile ∧ inBytes e.client RC5_72 w₁ = m.bytes ∧
        m.slots.length = inCount e.client w) := by
    by_cases hapart : Apart e.client l.remoteFile
    · have hne : e.client.filename RC5_72 false ≠ l.remoteFile :=
        (hapart.resolve_left (by rw [hdisk]; decide)).symm
      exact Or.inl ⟨hapart, htook.elsewhere _ hne⟩
    · have hsame : e.client.filename RC5_72 false = l.remoteFile :=
        (not_not.mp fun h ↦ hapart (Or.inr h)).symm
      refine Or.inr ⟨hapart, ?_, ?_⟩
      · rw [inBytes, hsame, hfile, Option.getD_some]
      · rw [inCount, if_pos hdisk, inBytes, hsame, hlen]
  by_cases htakes : TakesPacket (inBytes e.client RC5_72 w₁) data
  · obtain ⟨bs, hadded, hbuffer⟩ := hread.putPacket htook.data htakes
    have hput := put_disk htook.data hlimits hdisk htook.mode hbuffer
    set w₂ := w₁.close (e.client.filename RC5_72 false) (healthy (some bs) true) with hw₂
    have hgains : Gains e.client RC5_72 data w₁ w₂ :=
      (gains_close hdisk).mpr ⟨hadded.readable, hadded.held, hadded.layout⟩
    have horder : AllReadable e w₂ := htook.readable.close hadded.readable
    have htakes' : Apart e.client l.remoteFile → TakesPacket (inBytes e.client RC5_72 w) data := by
      intro hapart
      rcases hin with ⟨-, hin⟩ | ⟨hnot, -⟩
      · rwa [← hin]
      · exact absurd hapart hnot
    have hin₂ : inBytes e.client RC5_72 w₂ = bs := by
      rw [inBytes, hw₂, Buffers.files_close_self, healthy_disk, Option.getD_some]
    have hcount₂ : reported bs = inCount e.client w₂ := by rw [inCount, if_pos hdisk, hin₂]
    -- the figure stays the same while there is a blank slot to fill
    have hstuck : ¬(l.projtransPkts = 0 ∨ l.inbufferCountLast < (reported bs : ℤ)) ↔
        l.projtransPkts ≠ 0 ∧
          (¬Apart e.client l.remoteFile ∨ HasBlank (inBytes e.client RC5_72 w)) := by
      rw [not_or]
      refine and_congr_right fun hpkts ↦ ?_
      rw [hinv.last hpkts, Int.ofNat_lt]
      rcases hin with ⟨hapart, hin⟩ | ⟨hapart, hin, hslots⟩
      · rw [inCount, if_pos hdisk, ← hin]
        by_cases hhas : HasBlank (inBytes e.client RC5_72 w₁)
        · exact iff_of_true (hadded.same hhas).le.not_gt (Or.inr hhas)
        · have hmore : reported bs = reported (inBytes e.client RC5_72 w₁) + 1 := hadded.more hhas
          exact iff_of_false (by omega) (not_or.mpr ⟨not_not.mpr hapart, hhas⟩)
      · have hsame : reported bs = reported (inBytes e.client RC5_72 w₁) :=
          hadded.same (by
            rw [show (w₁.files (e.client.filename RC5_72 false)).getD [] = m.bytes from hin]
            exact m.hasBlank_bytes.mpr hblank)
        rw [hsame, hin, m.reported_bytes, hslots]
        exact iff_of_true (lt_irrefl _) (Or.inl hapart)
    have hrest' : ∀ l' : FetchLoop, l'.remoteFile = l.remoteFile → Apart e.client l.remoteFile →
        remotePackets l' w₂ = rest := by
      intro l' hl' hapart
      have hne : l.remoteFile ≠ e.client.filename RC5_72 false :=
        hapart.resolve_left (by rw [hdisk]; decide)
      rw [remotePackets, hl', hw₂, w₁.files_close_of_ne _ hne, hfile, Option.getD_some, hrest]
    have hblanks : ¬Apart e.client l.remoteFile ∨ HasBlank (inBytes e.client RC5_72 w₂) →
        ¬Apart e.client l.remoteFile ∨ HasBlank (inBytes e.client RC5_72 w) := by
      rintro (hnot | hhas)
      · exact Or.inl hnot
      · rcases hin with ⟨-, hin⟩ | ⟨hnot, -⟩
        · rw [hin₂] at hhas
          have := hadded.blank hhas
          rw [← hin]
          exact Or.inr this
        · exact Or.inl hnot
    have hgrown : (held e.client w₂ RC5_72 false).length ≤ (held e.client w RC5_72 false).length ↔
        ¬Apart e.client l.remoteFile := by
      have hlen₂ : (held e.client w₂ RC5_72 false).length
          = (held e.client w₁ RC5_72 false).length + 1 := by
        have hcard := congrArg Multiset.card hgains.held
        rwa [Multiset.card_cons] at hcard
      have hheld (w : Buffers) : held e.client w RC5_72 false
          = heldIn (inBytes e.client RC5_72 w) := if_pos hdisk
      rw [hlen₂, hheld, hheld]
      rcases hin with ⟨hapart, hin⟩ | ⟨hapart, hin, -⟩
      · rw [hin]
        exact iff_of_false (Nat.not_succ_le_self _) (not_not.mpr hapart)
      · have hsame : e.client.filename RC5_72 false = l.remoteFile :=
          (not_not.mp fun h ↦ hapart (Or.inr h)).symm
        rw [hin, length_heldIn m.isMooFile_bytes, hrest, inBytes, hsame, htook.held]
        exact iff_of_true le_rfl hapart
    by_cases hgrows : l.projtransPkts = 0 ∨ l.inbufferCountLast < (reported bs : ℤ)
    · have hround :=
        fetchRound_growing hn htake htook.data.contest hput (Int.natCast_nonneg _) hgrows
      simp only [r, hround]
      have hno := mt hstuck.mpr (not_not.mpr hgrows)
      refine .retrieved (fun h ↦ hno ⟨by have := h.2.1; omega, h.2.2⟩) (fun _ ↦ htakes') hmemtrue
        hgains horder rfl rfl rfl rfl ⟨fun h ↦ absurd h (Nat.succ_ne_zero _), fun _ ↦ rfl,
          fun _ ↦ congrArg _ hcount₂, fun _ _ hhas ↦ ?_⟩ (hrest' _ rfl)
      have hpkts : l.projtransPkts = 0 := not_not.mp fun h ↦ hno ⟨h, hblanks hhas⟩
      show l.inbufferCountWarnings + 1 = l.projtransPkts + 1
      rw [(hinv.fresh hpkts).2, hpkts]
    · have hround := fetchRound_stuck hn htake htook.data.contest hput (Int.natCast_nonneg _) hgrows
      obtain ⟨hpkts, hcause⟩ := hstuck.mp hgrows
      have hwarnings := hinv.warnings hpkts hdisk hcause
      by_cases hfew : l.inbufferCountWarnings < MAX_REMOTE_BUFFER_WARNINGS
      · simp only [hfew, if_true] at hround
        simp only [r, hround]
        rw [MAX_REMOTE_BUFFER_WARNINGS] at hfew
        refine .retrieved (fun h ↦ ?_) (fun _ ↦ htakes') hmemtrue
          hgains horder rfl rfl rfl rfl ⟨fun h ↦ absurd h (Nat.succ_ne_zero _), fun _ ↦ rfl,
            fun _ ↦ congrArg _ hcount₂, fun _ _ _ ↦ congrArg (· + 1) hwarnings⟩ (hrest' _ rfl)
        have := h.2.1
        omega
      · simp only [hfew, if_false] at hround
        simp only [r, hround]
        rw [MAX_REMOTE_BUFFER_WARNINGS] at hfew
        exact .gaveUp ⟨hdisk, by omega, hcause⟩ hgains horder hgrown
  · rcases hin with ⟨hapart, hin⟩ | ⟨-, hin, -⟩
    · obtain ⟨bs, count, hbuffer, hbad⟩ := hread.putPacket_of_not_takes htakes
      have hput := put_disk htook.data hlimits hdisk htook.mode hbuffer
      have hgains : ¬Gains e.client RC5_72 data w₁
          (w₁.close (e.client.filename RC5_72 false) (healthy (some bs) true)) := by
        rw [gains_close hdisk]
        rintro ⟨hread', -, hlayout⟩
        obtain ⟨hne, hother⟩ := hbad hread'
        exact hother (hlayout hne)
      rw [hin] at htakes
      by_cases hgrows : l.projtransPkts = 0 ∨ l.inbufferCountLast < (count : ℤ)
      · have hround :=
          fetchRound_growing hn htake htook.data.contest hput (Int.natCast_nonneg _) hgrows
        simp only [r, hround]
        exact .lost hdisk hapart htakes (Or.inr rfl) hgains
      · have hround :=
          fetchRound_stuck hn htake htook.data.contest hput (Int.natCast_nonneg _) hgrows
        simp only [r, hround]
        split_ifs
        · exact .lost hdisk hapart htakes (Or.inr rfl) hgains
        · exact .lost hdisk hapart htakes (Or.inl rfl) hgains
    · rw [hin, TakesPacket, if_pos m.isMooFile_bytes] at htakes
      exact absurd (Or.inr (m.hasBlank_bytes.mpr hblank)) htakes

end Packet

/-- **Every round of the loop over the packets**: nothing is wanted, nothing is there, the packet is
of another contest, or it is dealt with as in `PacketRound`. -/
private theorem fetchRound_cases {l : FetchLoop} (hw : AllReadable e w)
    (hremote : e.remoteFilename contest = some l.remoteFile)
    (hinv : LoopInv e.client contest l w) :
    let wanted := (bufferReComputeUnitsToFetch e contest w).1
    let w₀ := (bufferReComputeUnitsToFetch e contest w).2
    let r := fetchRound e contest l w
    (wanted = 0 ∧ SamePackets w w₀ ∧ r = (.satisfied, { l with lefttotransSu := 0 }, w₀)) ∨
    (wanted ≠ 0 ∧ remotePackets l w = [] ∧ (takeRemote l.remoteFile w₀).1.data = none ∧
      (r.1 = .remoteError ∨ r.1 = .remoteEmpty) ∧ AllReadable e r.2.2) ∨
    ∃ data rest w₁, wanted ≠ 0 ∧ remotePackets l w = data :: rest ∧
      takeRemote l.remoteFile w₀ = (⟨0, some data, some rest.length⟩, w₁) ∧
      ((data.contest ≠ contest ∧ r.1 = .foreign data ∧ r.2.2 = offerBack l.remoteFile data w₁ ∧
        AllReadable e r.2.2) ∨
      (data.contest = contest ∧ contest = RC5_72 ∧
        PacketRound e l w wanted data rest w₁ r.1 r.2.1 r.2.2)) := by
  intro wanted w₀ r
  obtain ⟨hsame, hlimits⟩ := recompute_spec (hw.inBuffer contest)
  have hw₀ : AllReadable e w₀ := hw.congr hsame
  have hpackets : remotePackets l w₀ = remotePackets l w :=
    congrArg remoteRecords (hsame.files l.remoteFile)
  by_cases hn : wanted = 0
  · exact Or.inl ⟨hn, hsame, fetchRound_satisfied hn⟩
  right
  rcases hcons : remotePackets l w with _ | ⟨data, rest⟩
  · obtain ⟨hrc, hdata, horder⟩ := takeRemote_nil hw₀ hremote (hpackets.trans hcons)
    obtain ⟨round, hround, hr⟩ := fetchRound_failed hn hrc
    refine Or.inl ⟨hn, rfl, hdata, ?_, ?_⟩
    · rwa [show r = _ from hr]
    · rwa [show r = _ from hr]
  right
  obtain ⟨w₁, htake, htook⟩ := takeRemote_cons hw₀ hremote (hpackets.trans hcons)
  refine ⟨data, rest, w₁, hn, rfl, htake, ?_⟩
  by_cases hcontest : data.contest = contest
  · obtain rfl : contest = RC5_72 := hcontest.symm.trans htook.data.contest
    have htook' : Took e l w data rest w₁ := by
      refine ⟨htook.readable, htook.mode, htook.data, htook.mem.trans hsame.mem,
        fun filename hne ↦ (htook.elsewhere filename hne).trans (hsame.files filename), ?_, ?_⟩
      · rw [← hsame.files]
        exact htook.held
      · rw [← hsame.files]
        exact htook.remote
    refine Or.inr ⟨hcontest, rfl, ?_⟩
    rcases hdisk : e.client.nodiskbuffers with _ | _
    · exact packetRound_disk hn htake htook' (hlimits hn).1 hinv hdisk
    · exact packetRound_mem hn htake htook' (hlimits hn).1 hinv hdisk
  · obtain ⟨m, hfile, -, hblank, -⟩ := htook.remote
    have hr := fetchRound_foreign hn htake hcontest
    refine Or.inl ⟨hcontest, ?_, ?_, ?_⟩
    · rw [show r = _ from hr]
    · rw [show r = _ from hr]
    · rw [show r = _ from hr]
      exact allReadable_offerBack htook.readable hfile hblank data

/-- The report on progress, if the round goes on to it, does not divide by zero. -/
def Reports (r : FetchRound × FetchLoop × Buffers) : Prop :=
  (r.1 = .satisfied ∨ ∃ data, r.1 = .retrieved data) →
    ¬(r.2.1.projtransPkts ≠ 0 ∧ r.2.1.totrans = 0)

private theorem totrans_eq_zero {l : FetchLoop} (h : l.projtransPkts ≠ 0) :
    l.totrans = 0 ↔ ¬Measured l.projtransSu l.lefttotransSu := by
  rw [FetchLoop.totrans, Measured]
  split_ifs with hsu <;> omega

private theorem reports_stay {r : FetchRound × FetchLoop × Buffers}
    (hstay : r.1 = .satisfied ∨ ∃ data, r.1 = .retrieved data)
    (hfresh : r.2.1.projtransPkts = 0 → r.2.1.projtransSu = 0) :
    Reports r ↔ Measured r.2.1.projtransSu r.2.1.lefttotransSu := by
  rw [Reports, forall_prop_of_true hstay]
  by_cases hpkts : r.2.1.projtransPkts = 0
  · exact iff_of_true (fun h ↦ h.1 hpkts) (Or.inl (hfresh hpkts))
  · rw [totrans_eq_zero hpkts, not_and, not_not]
    exact forall_prop_of_true hpkts

theorem reports_break {r : FetchRound × FetchLoop × Buffers}
    (hbreak : r.1 ≠ .satisfied ∧ ∀ data, r.1 ≠ .retrieved data) : Reports r := by
  rintro (h | ⟨data, h⟩)
  · exact absurd h hbreak.1
  · exact absurd h (hbreak.2 data)

private theorem loopInv_congr {client : Client} {l l' : FetchLoop} {w w' : Buffers}
    (hinv : LoopInv client contest l w) (hsame : SamePackets w w')
    (hl : l' = { l with lefttotransSu := l'.lefttotransSu }) : LoopInv client contest l' w' := by
  have hin : inBytes client RC5_72 w' = inBytes client RC5_72 w := hsame.files _
  rw [hl]
  refine ⟨hinv.fresh, hinv.contest, fun h ↦ (hinv.last h).trans ?_, fun h hdisk hcause ↦
    hinv.warnings h hdisk (hin ▸ hcause)⟩
  rw [inCount, inCount, hin, hsame.mem]

section RoundIff

variable {l : FetchLoop} (hw : AllReadable e w)
  (hremote : e.remoteFilename contest = some l.remoteFile) (hinv : LoopInv e.client contest l w)

include hw hremote hinv

/-- **A round does what it is to do** if and only if it finds what it needs. -/
theorem round_iff : (Reports (fetchRound e contest l w) ∧ RoundSafe e contest l w) ↔
    RoundAllowed e contest l w := by
  rcases fetchRound_cases hw hremote hinv with
    ⟨hn, hsame, hr⟩ | ⟨hn, hnone, hdata, hr, -⟩ | ⟨data, rest, w₁, hn, hcons, htake, hr⟩
  · -- nothing is wanted
    rw [reports_stay (Or.inl (by rw [hr])) (by rw [hr]; exact fun h ↦ (hinv.fresh h).1)]
    constructor
    · rintro ⟨hmeasured, -⟩
      rw [hr] at hmeasured
      exact ⟨fun _ ↦ hmeasured, fun wanted hwanted hne ↦ absurd (hwanted.symm.trans hn) hne⟩
    · intro hallowed
      refine ⟨?_, fun h ↦ absurd hn h, fun data h ↦ ?_⟩
      · rw [hr]
        exact hallowed.satisfied hn
      · rw [hr] at h
        exact nomatch h
  · -- nothing is there
    have hround : ∀ round : FetchRound, round ≠ .remoteError → round ≠ .remoteEmpty →
        (fetchRound e contest l w).1 ≠ round := by
      rintro round herror hempty h
      rw [h] at hr
      exact hr.elim herror hempty
    refine iff_of_true ⟨reports_break ⟨hround _ nofun nofun, fun _ ↦ hround _ nofun nofun⟩, ?_, ?_⟩
      ⟨fun h ↦ absurd h hn, fun _ _ _ data rest h ↦ nomatch hnone.symm.trans h⟩
    · intro _ r w₁ htake data h
      rw [htake] at hdata
      exact nomatch hdata.symm.trans h
    · exact fun data h ↦ absurd h (hround _ nofun nofun)
  · have htaken {r : GetReturn} {w₂ : Buffers} (h : takeRemote l.remoteFile
        (bufferReComputeUnitsToFetch e contest w).2 = (r, w₂)) :
        r = ⟨0, some data, some rest.length⟩ ∧ w₂ = w₁ := by
      obtain ⟨hr, hw⟩ := Prod.mk.inj (h.symm.trans htake)
      exact ⟨hr, hw⟩
    have hallowed : RoundAllowed e contest l w ↔ (data.contest = contest → PacketAllowed e.client
        contest l w (bufferReComputeUnitsToFetch e contest w).1 data rest) := by
      constructor
      · exact fun h hcontest ↦ h.packet _ rfl hn data rest hcons hcontest
      · intro h
        refine ⟨fun hzero ↦ absurd hzero hn, fun wanted hwanted _ data' rest' hcons' hcontest ↦ ?_⟩
        obtain ⟨rfl, rfl⟩ := List.cons.inj (hcons.symm.trans hcons')
        exact hwanted ▸ h hcontest
    have hsafe : RoundSafe e contest l w ↔
        (((fetchRound e contest l w).1.returned = some data ∧
            ∃ w₂, (fetchRound e contest l w).2.2 = offerBack l.remoteFile data w₂) ∨
          ((fetchRound e contest l w).1.stored = some data ∧
            Gains e.client contest data w₁ (fetchRound e contest l w).2.2)) ∧
        ∀ data, (fetchRound e contest l w).1 = .notGrowing data →
          (held e.client (fetchRound e contest l w).2.2 contest false).length
            ≤ (held e.client w contest false).length := by
      refine ⟨fun h ↦ ⟨h.keeps hn _ _ htake data rfl, h.grows⟩, fun h ↦ ⟨?_, h.2⟩⟩
      intro _ r w₂ htake' data' hdata'
      obtain ⟨rfl, rfl⟩ := htaken htake'
      obtain rfl := Option.some.inj hdata'
      exact h.1
    rw [hallowed, hsafe]
    rcases hr with ⟨hforeign, hround, hback, -⟩ | ⟨hcontest, hrc5, hpacket⟩
    · -- the packet is of another contest
      rw [hround]
      exact iff_of_true ⟨reports_break ⟨by rw [hround]; nofun, fun _ ↦ by rw [hround]; nofun⟩,
        Or.inl ⟨rfl, _, hback⟩, nofun⟩ fun h ↦ absurd h hforeign
    · subst hrc5
      rw [forall_prop_of_true hcontest]
      generalize fetchRound e RC5_72 l w = r at hpacket ⊢
      obtain ⟨round, l', w'⟩ := r
      dsimp only at hpacket ⊢
      cases hpacket with
      | refused hmem hplace hw' =>
        have hnot : e.client.nodiskbuffers ≠ false := by rw [hmem]; decide
        exact iff_of_true ⟨reports_break ⟨nofun, nofun⟩, Or.inl ⟨rfl, _, rfl⟩, nofun⟩
          ⟨fun h ↦ absurd h hnot, fun h ↦ absurd h hnot, fun h ↦ absurd (h hmem) hplace⟩
      | lost hdisk hapart htakes hround hgains =>
        refine iff_of_false ?_ fun h ↦ htakes (h.takes hdisk hapart)
        rintro ⟨-, ⟨hreturned, -⟩ | ⟨-, hgains'⟩, -⟩
        · rcases hround with rfl | rfl
          · exact nomatch hreturned
          · exact nomatch hreturned
        · exact hgains hgains'
      | gaveUp hgives hgains hw' hgrown =>
        obtain ⟨hdisk, hfour, hcause⟩ := hgives
        by_cases hapart : Apart e.client l.remoteFile
        · refine iff_of_false ?_ fun h ↦ ?_
          · rintro ⟨-, -, hgrows⟩
            exact hgrown.mp (hgrows _ rfl) hapart
          · exact h.grows hdisk hapart hfour (hcause.resolve_left (not_not.mpr hapart))
        · refine iff_of_true ⟨reports_break ⟨nofun, nofun⟩, Or.inr ⟨rfl, hgains⟩,
            fun _ _ ↦ hgrown.mpr hapart⟩ ⟨fun _ h ↦ absurd h hapart, fun _ h ↦ absurd h hapart, ?_⟩
          intro _ h
          exact absurd hfour (h.resolve_left hapart).not_ge
      | retrieved hgives htakes hplace hgains hw' hfile hpkts hsu hleft hinv' hrest =>
        rw [reports_stay (Or.inr ⟨data, rfl⟩) (fun h ↦ (hinv'.fresh h).1)]
        dsimp only
        rw [hsu, hleft]
        refine ⟨fun h ↦ ⟨htakes, ?_, fun _ _ ↦ h.1⟩,
          fun h ↦ ⟨h.measured hplace ?_, Or.inr ⟨rfl, hgains⟩, nofun⟩⟩
        · exact fun hdisk _ hfour hblank ↦ hgives ⟨hdisk, hfour, Or.inr hblank⟩
        · by_cases hapart : Apart e.client l.remoteFile
          · exact Or.inl hapart
          · have hdisk : e.client.nodiskbuffers = false :=
              Bool.eq_false_of_not_eq_true fun h ↦ hapart (Or.inl h)
            exact Or.inr (Nat.lt_of_not_le fun hfour ↦ hgives ⟨hdisk, hfour, Or.inl hapart⟩)

/-- **How a round leaves the loop over the packets**, or keeps its invariant and leaves less to
do. -/
theorem round_goes (hallowed : RoundAllowed e contest l w) :
    let r := fetchRound e contest l w
    AllReadable e r.2.2 ∧ ((r.1 ≠ .satisfied ∧ ∀ data, r.1 ≠ .retrieved data) ∨
      ((r.1 = .satisfied ∨ ∃ data, r.1 = .retrieved data) ∧ r.2.1.remoteFile = l.remoteFile ∧
        LoopInv e.client contest r.2.1 r.2.2 ∧ (r.2.1.lefttotransSu = 0 ∨
          (if Apart e.client l.remoteFile then
            (remotePackets r.2.1 r.2.2).length < (remotePackets l w).length
          else l.projtransPkts < 4 ∧ r.2.1.projtransPkts = l.projtransPkts + 1)))) := by
  intro r
  rcases fetchRound_cases hw hremote hinv with
    ⟨-, hsame, hr⟩ | ⟨-, -, -, hround, hw'⟩ | ⟨data, rest, w₁, hn, hcons, -, hr⟩
  · rw [show r = _ from hr]
    exact ⟨hw.congr hsame, Or.inr ⟨Or.inl rfl, rfl, loopInv_congr hinv hsame rfl, Or.inl rfl⟩⟩
  · refine ⟨hw', Or.inl ⟨fun h ↦ ?_, fun data h ↦ ?_⟩⟩
    · exact hround.elim (fun h' ↦ (nomatch h.symm.trans h')) fun h' ↦ (nomatch h.symm.trans h')
    · exact hround.elim (fun h' ↦ (nomatch h.symm.trans h')) fun h' ↦ (nomatch h.symm.trans h')
  · rcases hr with ⟨-, hround, -, hw'⟩ | ⟨hcontest, hrc5, hpacket⟩
    · exact ⟨hw', Or.inl ⟨fun h ↦ (nomatch h.symm.trans hround),
        fun _ h ↦ (nomatch h.symm.trans hround)⟩⟩
    · subst hrc5
      have htakes := (hallowed.packet _ rfl hn data rest hcons hcontest).takes
      replace hpacket : PacketRound e l w _ data rest w₁ r.1 r.2.1 r.2.2 := hpacket
      obtain ⟨round, l', w'⟩ := r
      dsimp only at hpacket ⊢
      cases hpacket with
      | refused hmem hplace hw' => exact ⟨hw', Or.inl ⟨nofun, nofun⟩⟩
      | lost hdisk hapart hnot hround hgains => exact absurd (htakes hdisk hapart) hnot
      | gaveUp hgives hgains hw' hgrown => exact ⟨hw', Or.inl ⟨nofun, nofun⟩⟩
      | retrieved hgives htakes' hplace hgains hw' hfile hpkts hsu hleft hinv' hrest =>
        refine ⟨hw', Or.inr ⟨Or.inr ⟨data, rfl⟩, hfile, hinv', Or.inr ?_⟩⟩
        split_ifs with hapart
        · rw [hrest hapart, hcons]
          exact Nat.lt_succ_self _
        · have hdisk : e.client.nodiskbuffers = false :=
            Bool.eq_false_of_not_eq_true fun h ↦ hapart (Or.inl h)
          exact ⟨Nat.lt_of_not_le fun hfour ↦ hgives ⟨hdisk, hfour, Or.inl hapart⟩, hpkts⟩

end RoundIff

end Hyunjin
