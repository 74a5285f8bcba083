import Hyunjin.Buffer.Base
import Hyunjin.Buffer.Damage
import Hyunjin.Buffer.Delivery

/-!
# Importing a checkpoint

`CheckpointAction(CHECKPOINT_OPEN)` moves the records of the checkpoint file into the client's own
buffers with `BufferImportFileRecords` and truncates the file. The import asks for a remote buffer,
which the stock branch refuses and the Moo branch ignores; it stops at the first record it cannot
save, after putting that one back; and the truncation does not look at how far it got.

An operation of the import succeeds, or fails and changes nothing. `faults` holds a flag for each
get, put and resave to come, and an exhausted list means that nothing fails any more. Truncating
takes effect in either case, since a file that cannot be truncated is deleted. The import is a loop
without a bound, so it takes fuel.

`Importing.saved` lists what `PutBufferRecord` has reported to be saved, and the counter `recovered`
is the length of the list as far as an unsigned int goes. What the buffers really hold afterwards is
another matter.
-/

namespace Hyunjin

open Word Stdio Slots

/-! ## The import -/

structure Importing where
  buffers : Buffers
  faults : List Bool
  saved : List WorkRecord

namespace Importing

/-- The counter of what has been saved. -/
def recovered (s : Importing) : U32 := BitVec.ofNat 32 s.saved.length

def fails (s : Importing) : Bool := s.faults.headD false

def tick (s : Importing) : Importing := { s with faults := s.faults.tail }

/-- The state after a call on a file. -/
def close (filename : Filename) (b : BufferState) (s : Importing) : Importing :=
  { s with buffers := s.buffers.close filename b }

/-- Get a record from the source file. -/
def get (source : Filename) (s : Importing) : GetReturn × Importing :=
  if s.fails then (⟨-1, none, some 0⟩, s.tick)
  else
    let (r, b) := bufferGetFileRecord (s.buffers.atFile source) true BUFFER_FLAGS_REMOTEBUF
    (r, s.tick.close source b)

/-- Put a record into the buffer it belongs to. -/
def put (client : Client) (data : WorkRecord) (s : Importing) : ℤ × Importing :=
  if s.fails then (-1, s.tick)
  else
    let (count, w) := putBufferRecord client data s.buffers
    (count, { s.tick with buffers := w })

/-- Put a record that could not be saved back into the source file. -/
def resave (source : Filename) (data : WorkRecord) (s : Importing) : Importing :=
  if s.fails then s.tick
  else
    let (_, b) := bufferPutFileRecord (s.buffers.atFile source) data false BUFFER_FLAGS_NONE
    s.tick.close source b

def zap (source : Filename) (s : Importing) : Importing :=
  let b := s.buffers.atFile source
  s.close source { b with disk := bufferZapFileRecords b.disk }

end Importing

/-- The buffer file a record belongs to. -/
def Client.bufferOf (client : Client) (data : WorkRecord) : Filename :=
  client.filename data.contest (data.resultcode ≠ RESULT_WORKING)

/-- What one round of the import does: it stops, with or without `errs`, or goes on with `remaining`
records in the source. -/
inductive ImportRound
  | stop (errs : Bool)
  | next (remaining : ℕ)

def importRound (client : Client) (source : Filename) (lastremaining : ℕ) (s : Importing) :
    ImportRound × Importing :=
  let (r, s) := s.get source
  let remaining := r.countP.getD 0
  match r.rc, r.data with
  | 0, some data =>
    -- the source is not getting smaller: the record just taken from it is dropped
    if lastremaining ≠ 0 ∧ lastremaining ≤ remaining then (.stop true, s)
    else
      let (count, s) := s.put client data
      if 0 < count then (.next remaining, { s with saved := s.saved ++ [data] })
      else (.stop true, s.resave source data)
  | _, _ => (.stop false, s)

/-- The rounds of the import, one for each unit of fuel; `none` if it is still going on. -/
def importLoop (client : Client) (source : Filename) : ℕ → ℕ → Importing → Option (Bool × Importing)
  | 0, _, _ => none
  | fuel + 1, lastremaining, s =>
    match importRound client source lastremaining s with
    | (.stop errs, s) => some (errs, s)
    | (.next remaining, s) => importLoop client source fuel remaining s

/-- The end of an import: the source is truncated if something has been recovered and nothing went
wrong that the import takes for an error. -/
def Importing.finish (source : Filename) (errs : Bool) (s : Importing) : Importing :=
  if 0#32 < s.recovered ∧ errs = false then s.zap source else s

/-- Import records from `source`: the number of records recovered, or `-1`. -/
def bufferImportFileRecords (client : Client) (source : Filename) (fuel : ℕ) (s : Importing) :
    Option (ℤ × Importing) :=
  match s.buffers.files source with
  | none => some (-1, s)
  | some _ =>
    (importLoop client source fuel 0 s).map fun (errs, s) ↦
      (s.recovered.toNat, s.finish source errs)

/-! ## The checkpoint -/

/-- The name of the checkpoint file without the blanks around it. -/
def checkpointName (checkpointFile : List Char) : Filename :=
  ((checkpointFile.dropWhile isspace).reverse.dropWhile isspace).reverse

/-- Whether checkpoints are enabled. -/
def doCheckpoint (client : Client) (checkpointFile : List Char) : Bool :=
  client.nodiskbuffers == false && checkpointName checkpointFile != [] &&
    checkpointName checkpointFile != "none".toList

/-- `CheckpointAction(CHECKPOINT_OPEN)`: opening goes on as closing does. The result is nonzero when
checkpoints are not enabled. -/
def checkpointOpen (client : Client) (checkpointFile : List Char) (fuel : ℕ) (s : Importing) :
    Option (ℤ × Importing) :=
  let source := checkpointName checkpointFile
  if doCheckpoint client checkpointFile = false then some (1, s)
  else (bufferImportFileRecords client source fuel s).map fun (_, s) ↦ (0, s.zap source)

/-- The records stored in a file, in either format, whatever a Moo header says. -/
def recordsIn (bs : List U8) : Multiset WorkRecord :=
  if isMooFile bs then (contents blankPacket (presentPackets bs)).map mooUnpackRecord
  else (contents blankBody (stockBodies bs)).map stockUnpackRecord

/-! ## The packets an import comes by -/

/-- A file that is not a Moo file gives nothing to a get that asks for a remote buffer. -/
theorem get_remote {file : Option (List U8)} (h : isMooFile (file.getD []) = false)
    (mode : Bool) : bufferGetFileRecord (healthy file mode) true BUFFER_FLAGS_REMOTEBUF =
      (⟨-1, none, some 0⟩, healthy file mode) := by
  have hdetect : mooFileDetect (healthy file mode) = (false, healthy file mode) := by
    rcases file with _ | bs
    · rfl
    · rw [mooFileDetect_some, show isMooFile bs = false from h, Bool.or_false]
  rw [bufferGetFileRecord, hdetect]
  rfl

/-- Work in progress is what a Moo packet is read as. -/
private def inProgress (r : WorkRecord) : WorkRecord := { r with resultcode := RESULT_WORKING }

/-- The records among the packets that the header counts. -/
def countedRecords (bs : List U8) : List WorkRecord :=
  (mooRecords bs RC5_72 (packetCount bs) 0).map inProgress

/-- The scan of a get finds nothing when no record is counted. -/
theorem mooRecords_of_mooScan {bs : List U8} {left i : ℕ}
    (h : ∀ j pkt, mooScan bs left i ≠ some (some (j, pkt))) : mooRecords bs RC5_72 left i = [] := by
  induction left generalizing i with
  | zero => rfl
  | succ left ih =>
    rw [mooScan] at h
    rw [mooRecords]
    rcases hp : packetAt bs i with _ | pkt
    · rfl
    · rw [hp] at h
      by_cases hb : pkt = blankPacket
      · simp only [if_pos hb] at h
        simp only [hb, ne_eq, not_true, false_and, if_false]
        exact ih h
      · simp only [if_neg hb] at h
        exact absurd rfl (h i pkt)

private theorem mooRecords_congr {bs bs' : List U8} {left i : ℕ}
    (h : ∀ k, i ≤ k → packetAt bs k = packetAt bs' k) (contest : U32) :
    mooRecords bs contest left i = mooRecords bs' contest left i := by
  induction left generalizing i with
  | zero => rfl
  | succ left ih =>
    rw [mooRecords, mooRecords, h i (Nat.le_refl i), ih fun k hk ↦ h k (Nat.le_of_succ_le hk)]

/-- What is found is the first record counted, and blanking its slot leaves the others. -/
theorem mooRecords_of_found {bs : List U8} {left i j : ℕ} {pkt : Packet}
    (h : mooScan bs left i = some (some (j, pkt))) :
    mooRecords bs RC5_72 left i = mooDecodeRecord pkt ::
      mooRecords (putPacketAt bs j blankPacket) RC5_72 left i := by
  have hfound : packetAt bs j = some pkt ∧ pkt ≠ blankPacket :=
    ⟨(packetAt_of_mooScan h).1, (packetAt_of_mooScan h).2.1⟩
  induction left generalizing i with
  | zero => cases h
  | succ left ih =>
    rw [mooScan] at h
    rw [mooRecords, mooRecords]
    rcases hp : packetAt bs i with _ | q
    · rw [hp] at h
      cases h
    · rw [hp] at h
      by_cases hb : q = blankPacket
      · simp only [if_pos hb] at h
        have hij : i ≠ j := by
          rintro rfl
          rw [hp] at hfound
          exact hfound.2 (Option.some.inj hfound.1 ▸ hb)
        rw [packetAt_putPacketAt_of_ne hij hp]
        simp only [hb, ne_eq, not_true, false_and, if_false]
        exact ih h
      · simp only [if_neg hb, Option.some.injEq, Prod.mk.injEq] at h
        obtain ⟨rfl, rfl⟩ := h
        have hrest (k : ℕ) (hk : i + 1 ≤ k) :
            packetAt bs k = packetAt (putPacketAt bs i blankPacket) k :=
          Option.ext fun x ↦ ⟨packetAt_putPacketAt_of_ne (by omega),
            packetAt_of_putPacketAt (by omega)⟩
        simp only [packetAt_putPacketAt_self, hb, ne_eq, not_false_eq_true, not_true, false_and,
          true_and, contest_mooDecodeRecord, if_true, if_false, mooRecords_congr hrest]

/-- The packets counted are those in the first slots. -/
theorem mooRecords_eq (bs : List U8) (left i : ℕ) : mooRecords bs RC5_72 left i =
    (full blankPacket ((List.range' i left).filterMap (packetAt bs))).map mooDecodeRecord := by
  induction left generalizing i with
  | zero => rfl
  | succ left ih =>
    rw [mooRecords, List.range'_succ]
    rcases hp : packetAt bs i with _ | pkt
    · have hnone : (List.range' (i + 1) left).filterMap (packetAt bs) = [] := by
        rw [List.filterMap_eq_nil_iff]
        intro k hk
        exact packetAt_none_of_le (by have := (List.mem_range'_1.mp hk).1; omega) hp
      rw [List.filterMap_cons_none hp, hnone]
      rfl
    · rw [List.filterMap_cons_some hp]
      by_cases hb : pkt = blankPacket
      · rw [hb, full_cons_blank, ← ih]
        simp
      · rw [full_cons_of_ne hb, List.map_cons, ← ih]
        simp [hb, contest_mooDecodeRecord]

theorem countedRecords_eq (bs : List U8) : countedRecords bs =
    (full blankPacket ((List.range' 0 (packetCount bs)).filterMap (packetAt bs))).map
      mooUnpackRecord := by
  rw [countedRecords, mooRecords_eq, List.map_map]
  rfl

private theorem presentPackets_eq {bs : List U8} {n : ℕ} (hn : (bs.length - 32) / 176 ≤ n) :
    presentPackets bs = (List.range' 0 n).filterMap (packetAt bs) := by
  obtain ⟨k, rfl⟩ := Nat.exists_eq_add_of_le hn
  have hnone : (List.range' (0 + (bs.length - 32) / 176) k).filterMap (packetAt bs) = [] := by
    rw [List.filterMap_eq_nil_iff]
    intro i hi
    have hle := (List.mem_range'_1.mp hi).1
    rw [packetAt, sliceAt_eq_none, packetOffset_eq]
    omega
  rw [presentPackets, List.range_eq_range', ← List.range'_append_1, List.filterMap_append, hnone,
    List.append_nil]

/-- **What a file stores and what its header counts.** -/
theorem recordsIn_moo {bs : List U8} (hmoo : isMooFile bs = true) : ∃ extra : Multiset WorkRecord,
    recordsIn bs = (countedRecords bs : Multiset WorkRecord) + extra ∧
      (extra = 0 ↔ CountCovers bs) := by
  set n := (bs.length - 32) / 176 with hn
  set beyond := full blankPacket ((List.range' (packetCount bs) n).filterMap (packetAt bs))
    with hbeyond
  refine ⟨(beyond.map mooUnpackRecord : List WorkRecord), ?_, ?_⟩
  · have hle : (bs.length - 32) / 176 ≤ packetCount bs + n := Nat.le_add_left ..
    rw [recordsIn, if_pos hmoo, presentPackets_eq hle, ← List.range'_append_1,
      List.filterMap_append,
      contents, full_append, Nat.zero_add, ← hbeyond, Multiset.map_coe, List.map_append,
      ← Multiset.coe_add, countedRecords_eq]
  rw [Multiset.coe_eq_zero, List.map_eq_nil_iff, hbeyond, full, List.filter_eq_nil_iff]
  constructor
  · intro hall i pkt hi hpkt
    have hlen := (packetAt_eq_some.mp hpkt).1
    have hmem : i ∈ List.range' (packetCount bs) n := by
      rw [packetOffset_eq] at hlen
      rw [List.mem_range'_1]
      omega
    simpa using hall pkt (List.mem_filterMap.mpr ⟨i, hmem, hpkt⟩)
  · intro hcovers pkt hmem
    obtain ⟨i, hi, hpkt⟩ := List.mem_filterMap.mp hmem
    simp [hcovers i pkt (List.mem_range'_1.mp hi).1 hpkt]

/-! ## One round -/

/-- Records that go back into the RC5-72 input buffer. -/
def IsRC5Work (data : WorkRecord) : Prop :=
  data.contest = RC5_72 ∧ data.resultcode = RESULT_WORKING

theorem isRC5Work_mooUnpack (pkt : Packet) : IsRC5Work (mooUnpackRecord pkt) :=
  ⟨contest_mooDecodeRecord pkt, rfl⟩

variable {client : Client} {source : Filename} {w : Buffers}

theorem bufferOf_eq {data : WorkRecord} (h : IsRC5Work data) :
    client.bufferOf data = client.filename RC5_72 false := by
  rw [Client.bufferOf, h.1, h.2]
  rfl

theorem importRound_of_failed {last : ℕ} {s : Importing}
    (h : (s.get source).1.rc ≠ 0) :
    importRound client source last s = (.stop false, (s.get source).2) := by
  rw [importRound]
  simp only
  split
  · rename_i hrc _
    exact absurd hrc h
  · rfl

theorem importRound_of_get {last remaining : ℕ} {s s₁ : Importing} {data : WorkRecord}
    (h : s.get source = (⟨0, some data, some remaining⟩, s₁)) :
    importRound client source last s =
      if last ≠ 0 ∧ last ≤ remaining then (.stop true, s₁)
      else if 0 < (s₁.put client data).1 then
        (.next remaining, { (s₁.put client data).2 with
          saved := (s₁.put client data).2.saved ++ [data] })
      else (.stop true, (s₁.put client data).2.resave source data) := by
  rw [importRound, h]
  rfl

/-- Truncating leaves a file without contents. -/
theorem zap_file (s : Importing) :
    ((s.zap source).buffers.files source).getD [] = [] := by
  rw [Importing.zap, Importing.close, Buffers.files_close_self]
  simp only [Buffers.atFile, bufferZapFileRecords]
  rcases s.buffers.files source with _ | bs
  · rfl
  · rfl

/-- A loop that ends does so whatever the fuel. -/
theorem importLoop_unique {fuel fuel' last : ℕ} {s : Importing} {res res' : Bool × Importing}
    (h : importLoop client source fuel last s = some res)
    (h' : importLoop client source fuel' last s = some res') : res = res' := by
  induction fuel generalizing fuel' last s with
  | zero => exact nomatch h
  | succ fuel ih =>
    rcases fuel' with _ | fuel'
    · exact nomatch h'
    rw [importLoop] at h h'
    rcases hround : importRound client source last s with ⟨errs | remaining, s'⟩
    · rw [hround] at h h'
      exact Option.some.inj (h.symm.trans h')
    · rw [hround] at h h'
      exact ih h h'

end Hyunjin
