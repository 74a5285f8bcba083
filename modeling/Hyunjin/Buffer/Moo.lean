import Hyunjin.Buffer.Record

/-!
# Moo buffer files

A Moo buffer file is a 32-byte header with a packet count, followed by 176-byte packets of which an
all-zero one is a blank slot. The functions here are the Moo branches' own: recognising a file,
reading the next packet and blanking its slot, writing a packet into the first blank slot or after
the last one, and counting.

The header count is trusted wherever it was obtained: a file may hold fewer packets than its header
says, or more, and `moo521HeaderCount` may have rejected the header, which callers read as a count
of zero. `packetAt bs i` is packet `i` of the file if all of it is there, whatever the header says.
-/

namespace Hyunjin

open Word Stdio

/-- The file being worked on and the process-wide `moo_output_mode` flag. -/
structure BufferState where
  disk : Disk
  mooOutputMode : Bool
  deriving DecidableEq, Repr

/-! ## The header -/

def moo521IsHeader (buf : List U8) : Bool :=
  buf.getD 0 0#8 == 0x83#8 && buf.getD 1 0#8 == 0xB6#8 && buf.getD 2 0#8 == 0x34#8 &&
    buf.getD 3 0#8 == 0x1A#8

/-- The packet count of a header, or `none` if the header is rejected. -/
def moo521HeaderCount (header : Bytes 32) : Option ℕ :=
  if moo521IsHeader header.val = false then none
  else
    let v := beLoad (header.val.drop 4)
    let c := beLoad (header.val.drop 8)
    if v ≠ 0x48#32 then none
    else if 0xFFFFFF#32 < c then none
    else some c.toNat

def moo521MakeHeader (count : U32) : Bytes 32 :=
  ⟨[0x83#8, 0xB6#8, 0x34#8, 0x1A#8, 0#8, 0#8, 0#8, 0x48#8] ++
    (beBytes count ++ List.replicate 20 0#8), by simp [beBytes]⟩

theorem moo521IsHeader_makeHeader (count : U32) :
    moo521IsHeader (moo521MakeHeader count).val = true := rfl

theorem moo521HeaderCount_makeHeader (count : U32) :
    moo521HeaderCount (moo521MakeHeader count) =
      if 0xFFFFFF#32 < count then none else some count.toNat := by
  have hseventytwo : [0#8, 0#8, 0#8, 0x48#8] = beBytes 0x48#32 := by decide
  have hversion : beLoad ((moo521MakeHeader count).val.drop 4) = 0x48#32 := by
    rw [← beLoad_beBytes 0x48#32 (beBytes count ++ List.replicate 20 0#8), ← hseventytwo]
    rfl
  have hcount : beLoad ((moo521MakeHeader count).val.drop 8) = count :=
    beLoad_beBytes count (List.replicate 20 0#8)
  rw [moo521HeaderCount, moo521IsHeader_makeHeader]
  simp only [hversion, hcount, Bool.true_eq_false, if_false, ne_eq, not_true]

theorem moo521HeaderCount_le {header : Bytes 32} {c : ℕ} (h : moo521HeaderCount header = some c) :
    c ≤ 0xFFFFFF := by
  simp only [moo521HeaderCount] at h
  split_ifs at h with _ _ hlt
  rw [← Option.some.inj h]
  exact BitVec.not_lt.mp hlt

theorem isHeader_of_headerCount {header : Bytes 32} {c : ℕ}
    (h : moo521HeaderCount header = some c) : moo521IsHeader header.val = true := by
  simp only [moo521HeaderCount] at h
  split_ifs at h with hmagic
  exact Bool.eq_true_of_not_eq_false hmagic

/-! ## Recognising a file -/

/-- Whether the file begins with the Moo magic; finding one sets the flag. -/
def mooFileDetect (s : BufferState) : Bool × BufferState :=
  match s.disk.fopen with
  | none => (false, s)
  | some d =>
    let (magic, d) := d.fread 4
    let isMoo := (magic.map fun m ↦ moo521IsHeader m.val).getD false
    (isMoo, ⟨d.fclose, s.mooOutputMode || isMoo⟩)

/-- Whether the file carries no format information yet. -/
def mooFileMissing (s : BufferState) : Bool × BufferState :=
  match s.disk.fopen with
  | none => (true, s)
  | some d =>
    let (len, d) := d.fseekEnd
    (len == some 0, { s with disk := d.fclose })

/-! ## Reading, writing and counting packets -/

def packetOffset (recno : ℕ) : ℕ := MOO521_HEADERLEN + recno * MOO521_RECLEN

/-- What reading a slot gave: a record, which has been blanked, nothing, or a failure. -/
inductive SlotRead
  | record (data : WorkRecord)
  | blank
  | ioError

/-- Read packet `recno` and blank its slot. The blanking write is not checked. -/
def mooReadOneRecord (d : Disk) (recno : ℕ) : SlotRead × Disk :=
  let (ok, d) := d.fseek (packetOffset recno)
  if ok = false then (.ioError, d)
  else
    let (pkt, d) := d.fread 176
    match pkt with
    | none => (.ioError, d)
    | some pkt =>
      if pkt = blankPacket then (.blank, d)
      else
        let (ok, d) := d.fseek (packetOffset recno)
        if ok = false then (.ioError, d)
        else (.record (mooUnpackRecord pkt), (d.fwrite blankPacket.val).2)

/-- The scan for a blank slot from packet `i` on, with `left` packets to go: the slot to write,
which is `reccount` to append, or `none` when a seek fails. A short read ends the scan. -/
def mooFindBlank (reccount : ℕ) : ℕ → ℕ → Disk → Option ℕ × Disk
  | 0, _, d => (some reccount, d)
  | left + 1, i, d =>
    let (ok, d) := d.fseek (packetOffset i)
    if ok = false then (none, d)
    else
      let (rd, d) := d.fread 176
      match rd with
      | none => (some reccount, d)
      | some rd => if rd = blankPacket then (some i, d) else mooFindBlank reccount left (i + 1) d

/-- Write a packet into the first blank slot, or append it and count it in the header. The result is
the packet count, or `none` on failure. The write of the header is not checked. -/
def mooWriteOneRecord (d : Disk) (reccount : ℕ) (data : WorkRecord) : Option ℕ × Disk :=
  let pkt := mooPackRecord data
  let (writerec, d) := mooFindBlank reccount reccount 0 d
  match writerec with
  | none => (none, d)
  | some writerec =>
    let (reccount', d) : Option ℕ × Disk :=
      if writerec = reccount then
        let (ok, d) := d.fseek 0
        if ok = false then (none, d)
        else
          (some (reccount + 1),
            (d.fwrite (moo521MakeHeader (BitVec.ofNat 32 (reccount + 1))).val).2)
      else (some reccount, d)
    match reccount' with
    | none => (none, d)
    | some reccount' =>
      let (ok, d) := d.fseek (packetOffset writerec)
      if ok = false then (none, d)
      else
        let (ok, d) := d.fwrite pkt.val
        (if ok then some reccount' else none, d)

/-- Count the packets of a contest and their stats units among the next `left` packets. -/
def mooCountRecords (contest : U32) : ℕ → Disk → (ℕ × ℕ) × Disk
  | 0, d => ((0, 0), d)
  | left + 1, d =>
    let (pkt, d) := d.fread 176
    match pkt with
    | none => ((0, 0), d)
    | some pkt =>
      let ((packetcount, normcount), d) := mooCountRecords contest left d
      if pkt = blankPacket then ((packetcount, normcount), d)
      else
        let wr := mooDecodeRecord pkt
        if wr.contest = contest then
          ((packetcount + 1, normcount + ((bufferGetRecordInfo wr).map BitVec.toNat).getD 0), d)
        else ((packetcount, normcount), d)

/-! ## The same on a disk without faults -/

/-- Packet `i` of a file, if all of it is there. -/
def packetAt (bs : List U8) (i : ℕ) : Option Packet := sliceAt bs (packetOffset i) 176

theorem sliceAt_packetOffset (bs : List U8) (i : ℕ) :
    sliceAt bs (packetOffset i) 176 = packetAt bs i := rfl

/-- The file after a packet has been written at slot `i`. -/
def putPacketAt (bs : List U8) (i : ℕ) (pkt : Packet) : List U8 :=
  splice bs (packetOffset i) pkt.val

theorem packetAt_putPacketAt_self (bs : List U8) (i : ℕ) (pkt : Packet) :
    packetAt (putPacketAt bs i pkt) i = some pkt :=
  sliceAt_splice_self bs (packetOffset i) (by decide) pkt

/-- Writing a slot leaves the other packets alone. -/
theorem packetAt_putPacketAt_of_ne {bs : List U8} {i j : ℕ} {pkt q : Packet} (hne : j ≠ i)
    (h : packetAt bs j = some q) : packetAt (putPacketAt bs i pkt) j = some q := by
  refine sliceAt_splice_of_le (by decide) ?_ h
  simp only [packetOffset, MOO521_HEADERLEN, MOO521_RECLEN, pkt.property]
  omega

/-- The first of the next `left` packets that is not blank: `none` if a packet is missing before it,
`some none` if all are blank. -/
def mooScan (bs : List U8) : ℕ → ℕ → Option (Option (ℕ × Packet))
  | 0, _ => some none
  | left + 1, i =>
    match packetAt bs i with
    | none => none
    | some pkt => if pkt = blankPacket then mooScan bs left (i + 1) else some (some (i, pkt))

/-- The slot that the next packet goes to; `reccount` is the end. -/
def blankSlot (bs : List U8) (reccount : ℕ) : ℕ → ℕ → ℕ
  | 0, _ => reccount
  | left + 1, i =>
    match packetAt bs i with
    | none => reccount
    | some pkt => if pkt = blankPacket then i else blankSlot bs reccount left (i + 1)

/-- The records of a contest among the next `left` packets. -/
def mooRecords (bs : List U8) (contest : U32) : ℕ → ℕ → List WorkRecord
  | 0, _ => []
  | left + 1, i =>
    match packetAt bs i with
    | none => []
    | some pkt =>
      if pkt ≠ blankPacket ∧ (mooDecodeRecord pkt).contest = contest then
        mooDecodeRecord pkt :: mooRecords bs contest left (i + 1)
      else mooRecords bs contest left (i + 1)

/-- The stats units of records, as the counting functions add them up. -/
def swuSum (rs : List WorkRecord) : ℕ :=
  (rs.map fun r ↦ ((bufferGetRecordInfo r).map BitVec.toNat).getD 0).sum

theorem mooReadOneRecord_healthy (bs : List U8) (p i : ℕ) : ∃ q,
    mooReadOneRecord ⟨some bs, p, []⟩ i =
      match packetAt bs i with
      | none => (.ioError, ⟨some bs, q, []⟩)
      | some pkt =>
        if pkt = blankPacket then (.blank, ⟨some bs, q, []⟩)
        else (.record (mooUnpackRecord pkt), ⟨some (putPacketAt bs i blankPacket), q, []⟩) := by
  rw [mooReadOneRecord]
  simp only [Disk.fseek_healthy, Disk.fread_healthy, sliceAt_packetOffset, Bool.true_eq_false,
    if_false]
  rcases packetAt bs i with _ | pkt
  · exact ⟨_, rfl⟩
  · by_cases hb : pkt = blankPacket
    · simp only [if_pos hb]
      exact ⟨_, rfl⟩
    · simp only [if_neg hb, Disk.fwrite_healthy]
      exact ⟨_, rfl⟩

theorem mooFindBlank_healthy (bs : List U8) (reccount left p i : ℕ) : ∃ q,
    mooFindBlank reccount left i ⟨some bs, p, []⟩ =
      (some (blankSlot bs reccount left i), ⟨some bs, q, []⟩) := by
  induction left generalizing p i with
  | zero => exact ⟨p, rfl⟩
  | succ left ih =>
    rw [mooFindBlank, blankSlot]
    simp only [Disk.fseek_healthy, Disk.fread_healthy, sliceAt_packetOffset, Bool.true_eq_false,
      if_false]
    rcases packetAt bs i with _ | pkt
    · exact ⟨_, rfl⟩
    · by_cases hb : pkt = blankPacket
      · simp only [if_pos hb]
        exact ⟨_, rfl⟩
      · simp only [if_neg hb]
        exact ih _ (i + 1)

/-- **What writing a record does to the file.** -/
theorem mooWriteOneRecord_healthy (bs : List U8) (p reccount : ℕ) (data : WorkRecord) : ∃ q,
    let w := blankSlot bs reccount reccount 0
    mooWriteOneRecord ⟨some bs, p, []⟩ reccount data =
      if w = reccount then
        (some (reccount + 1), ⟨some (putPacketAt
          (splice bs 0 (moo521MakeHeader (BitVec.ofNat 32 (reccount + 1))).val) w
          (mooPackRecord data)), q, []⟩)
      else (some reccount, ⟨some (putPacketAt bs w (mooPackRecord data)), q, []⟩) := by
  obtain ⟨q, hq⟩ := mooFindBlank_healthy bs reccount reccount p 0
  rw [mooWriteOneRecord]
  simp only [hq]
  by_cases hw : blankSlot bs reccount reccount 0 = reccount
  · simp only [hw, if_true, Disk.fseek_healthy, Disk.fwrite_healthy, Bool.true_eq_false, if_false]
    exact ⟨_, rfl⟩
  · simp only [hw, Disk.fseek_healthy, Disk.fwrite_healthy, Bool.true_eq_false, if_false, if_true]
    exact ⟨_, rfl⟩

/-- **Counting lists the records.** The stream stands at packet `i`. -/
theorem mooCountRecords_healthy (bs : List U8) (contest : U32) (left i : ℕ) : ∃ q,
    mooCountRecords contest left ⟨some bs, packetOffset i, []⟩ =
      (((mooRecords bs contest left i).length, swuSum (mooRecords bs contest left i)),
        ⟨some bs, q, []⟩) := by
  induction left generalizing i with
  | zero => exact ⟨_, rfl⟩
  | succ left ih =>
    rw [mooCountRecords, mooRecords]
    simp only [Disk.fread_healthy, sliceAt_packetOffset]
    rcases hp : packetAt bs i with _ | pkt
    · exact ⟨_, rfl⟩
    · have hlen : packetOffset i + 176 ≤ bs.length :=
        ((sliceAt_eq_some (by decide)).mp hp).1
      have hpos : packetOffset i + min 176 (bs.length - packetOffset i) = packetOffset (i + 1) := by
        rw [packetOffset, MOO521_HEADERLEN, MOO521_RECLEN] at hlen
        rw [packetOffset, packetOffset, MOO521_HEADERLEN, MOO521_RECLEN]
        omega
      obtain ⟨q, hq⟩ := ih (i + 1)
      refine ⟨q, ?_⟩
      simp only [hpos, hq]
      by_cases hb : pkt = blankPacket
      · simp [hb]
      · by_cases hc : (mooDecodeRecord pkt).contest = contest
        · simp only [hb, hc, if_false, if_true, ne_eq, not_false_eq_true, and_self]
          simp [swuSum, Nat.add_comm]
        · simp [hb, hc]

end Hyunjin
