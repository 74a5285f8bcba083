import Hyunjin.Buffer.File

/-!
# The buffer interface on a disk without faults

Without faults every call is a function of the file's bytes and the flag, and the position of the
stream drops out. The Moo branches are described for arbitrary contents, since nothing but the magic
is checked before they are taken; the stock branches for whole numbers of records, as they refuse
every other file.
-/

namespace Hyunjin

open Word Stdio

/-- The state between two calls on a disk without faults. -/
def healthy (file : Option (List U8)) (mode : Bool) : BufferState := ⟨⟨file, 0, []⟩, mode⟩

@[simp] theorem healthy_disk (file : Option (List U8)) (mode : Bool) :
    (healthy file mode).disk = ⟨file, 0, []⟩ := rfl

@[simp] theorem healthy_mode (file : Option (List U8)) (mode : Bool) :
    (healthy file mode).mooOutputMode = mode := rfl

/-! ## Recognising a file -/

/-- The contents have the Moo magic. -/
def isMooFile (bs : List U8) : Bool := moo521IsHeader bs

theorem length_of_isMooFile {bs : List U8} (h : isMooFile bs = true) : 4 ≤ bs.length := by
  by_contra hlt
  have hlast : bs.getD 3 0#8 = 0#8 := by
    rw [List.getD_eq_getElem?_getD, List.getElem?_eq_none (by omega), Option.getD_none]
  rw [isMooFile, moo521IsHeader, hlast] at h
  simp at h

@[simp] theorem isMooFile_nil : isMooFile [] = false := rfl

theorem mooFileDetect_some (bs : List U8) (mode : Bool) :
    mooFileDetect (healthy (some bs) mode) =
      (isMooFile bs, healthy (some bs) (mode || isMooFile bs)) := by
  have hmagic : ((sliceAt bs 0 4).map fun m ↦ moo521IsHeader m.val).getD false = isMooFile bs := by
    rcases hs : sliceAt bs 0 4 with _ | m
    · have hlt := (sliceAt_eq_none.mp hs).1
      rcases hb : isMooFile bs with _ | _
      · rfl
      · have := length_of_isMooFile hb
        omega
    · have hget := ((sliceAt_eq_some (by decide)).mp hs).2
      simp only [Nat.zero_add] at hget
      simp only [Option.map_some, Option.getD_some, isMooFile, moo521IsHeader,
        hget 0 (by decide), hget 1 (by decide), hget 2 (by decide), hget 3 (by decide)]
  simp only [mooFileDetect, healthy, Disk.fopen_some, Disk.fread_healthy, Disk.fclose_mk, hmagic]

theorem mooFileDetect_none (mode : Bool) :
    mooFileDetect (healthy none mode) = (false, healthy none mode) := rfl

theorem mooFileMissing_none (mode : Bool) :
    mooFileMissing (healthy none mode) = (true, healthy none mode) := rfl

theorem mooFileMissing_some (bs : List U8) (mode : Bool) :
    mooFileMissing (healthy (some bs) mode) = (decide (bs = []), healthy (some bs) mode) := by
  have hlen : (some bs.length == some 0) = decide (bs = []) := by
    rw [Bool.eq_iff_iff]
    simp
  simp only [mooFileMissing, healthy, Disk.fopen_some, Disk.fseekEnd_healthy, Disk.fclose_mk, hlen]

/-! ## The Moo branches -/

/-- The header of a file, if all of it is there. -/
def headerAt (bs : List U8) : Option (Bytes 32) := sliceAt bs 0 32

/-- The packet count the Moo branches work with. -/
def packetCount (bs : List U8) : ℕ := ((headerAt bs).bind moo521HeaderCount).getD 0

theorem sliceAt_header (bs : List U8) : sliceAt bs 0 32 = headerAt bs := rfl

theorem pos_after_header {bs : List U8} {hdr : Bytes 32} (h : headerAt bs = some hdr) :
    0 + min 32 (bs.length - 0) = packetOffset 0 := by
  have hle := ((sliceAt_eq_some (by decide)).mp h).1
  rw [packetOffset, MOO521_HEADERLEN]
  omega

theorem count_moo {bs : List U8} (h : isMooFile bs = true) (contest : U32) (mode : Bool) :
    bufferCountFileRecords (healthy (some bs) mode) contest =
      match (headerAt bs).bind moo521HeaderCount with
      | none => (⟨-1, 0, 0⟩, healthy (some bs) true)
      | some c =>
        (⟨0, (mooRecords bs contest c 0).length, swuSum (mooRecords bs contest c 0)⟩,
          healthy (some bs) true) := by
  rw [bufferCountFileRecords, mooFileDetect_some, h]
  simp only [if_true, Bool.or_true, healthy_disk, Disk.fopen_some, Disk.fread_healthy,
    sliceAt_header]
  rcases hc : (headerAt bs).bind moo521HeaderCount with _ | c
  · rfl
  · obtain ⟨hdr, hhdr, -⟩ := Option.bind_eq_some_iff.mp hc
    obtain ⟨q, hq⟩ := mooCountRecords_healthy bs contest c 0
    rw [pos_after_header hhdr]
    simp only [hq]
    rfl

theorem mooGetLoop_healthy (bs : List U8) (left i p : ℕ) : ∃ q,
    mooGetLoop left i ⟨some bs, p, []⟩ =
      match mooScan bs left i with
      | none => (.ioError, ⟨some bs, q, []⟩)
      | some none => (.blank, ⟨some bs, q, []⟩)
      | some (some (j, pkt)) =>
        (.record (mooUnpackRecord pkt), ⟨some (putPacketAt bs j blankPacket), q, []⟩) := by
  induction left generalizing i p with
  | zero => exact ⟨p, rfl⟩
  | succ left ih =>
    obtain ⟨q, hq⟩ := mooReadOneRecord_healthy bs p i
    rw [mooGetLoop, mooScan, hq]
    rcases packetAt bs i with _ | pkt
    · exact ⟨q, rfl⟩
    · by_cases hb : pkt = blankPacket
      · simp only [if_pos hb]
        exact ih (i + 1) q
      · simp only [if_neg hb]
        exact ⟨q, rfl⟩

/-- **What a get does to a Moo file.** -/
theorem get_moo {bs : List U8} (h : isMooFile bs = true) (mode wantCount : Bool) (flags : U32) :
    bufferGetFileRecord (healthy (some bs) mode) wantCount flags =
      if headerAt bs = none then (⟨-1, none, none⟩, healthy (some bs) true)
      else
        match mooScan bs (packetCount bs) 0 with
        | none => (⟨-1, none, if wantCount then some 0 else none⟩, healthy (some bs) true)
        | some none => (⟨1, none, if wantCount then some 0 else none⟩, healthy (some []) true)
        | some (some (j, pkt)) =>
          let bs' := putPacketAt bs j blankPacket
          (⟨0, some (mooUnpackRecord pkt),
            if wantCount then some (mooRecords bs' RC5_72 (packetCount bs') 0).length else none⟩,
            healthy (some bs') true) := by
  rw [bufferGetFileRecord, mooFileDetect_some, h]
  simp only [if_true, Bool.or_true, mooGet, healthy_disk, Disk.fopen_some, Disk.fseek_healthy,
    Disk.fread_healthy, sliceAt_header]
  rcases hhdr : headerAt bs with _ | hdr
  · rfl
  · have hcount : (moo521HeaderCount hdr).getD 0 = packetCount bs := by
      rw [packetCount, hhdr, Option.bind_some]
    simp only [hcount, reduceCtorEq, if_false]
    obtain ⟨q, hq⟩ := mooGetLoop_healthy bs (packetCount bs) 0 (0 + min 32 (bs.length - 0))
    rw [hq]
    rcases mooScan bs (packetCount bs) 0 with _ | _ | ⟨j, pkt⟩
    · rfl
    · rfl
    · rcases wantCount with _ | _
      · rfl
      · simp only [Bool.true_eq_false, if_false, if_true, Disk.fclose_mk, Disk.fopen_some,
          Disk.fread_healthy, sliceAt_header]
        rcases hhdr' : headerAt (putPacketAt bs j blankPacket) with _ | hdr'
        · simp only [Option.bind_none, Option.getD_none, mooCountRecords, packetCount, hhdr',
            mooRecords, List.length_nil]
          rfl
        · obtain ⟨q', hq'⟩ := mooCountRecords_healthy (putPacketAt bs j blankPacket) RC5_72
            ((moo521HeaderCount hdr').getD 0) 0
          rw [pos_after_header hhdr']
          simp only [Option.bind_some, hq', packetCount, hhdr']
          rfl

/-- The packet count after a put. -/
def mooPutCount (bs : List U8) : ℕ :=
  if blankSlot bs (packetCount bs) (packetCount bs) 0 = packetCount bs then packetCount bs + 1
  else packetCount bs

/-- The file after a put. -/
def mooPutBytes (bs : List U8) (data : WorkRecord) : List U8 :=
  let w := blankSlot bs (packetCount bs) (packetCount bs) 0
  if w = packetCount bs then
    putPacketAt (splice bs 0 (moo521MakeHeader (BitVec.ofNat 32 (packetCount bs + 1))).val) w
      (mooPackRecord data)
  else putPacketAt bs w (mooPackRecord data)

private theorem mooPut_some (bs : List U8) (mode wantCount : Bool) (data : WorkRecord) :
    mooPut (healthy (some bs) mode) data wantCount =
      (⟨0, if wantCount then some (mooPutCount bs) else none⟩,
        healthy (some (mooPutBytes bs data)) mode) := by
  have hcount : ((headerAt bs).bind moo521HeaderCount).getD 0 = packetCount bs := rfl
  obtain ⟨q, hq⟩ := mooWriteOneRecord_healthy bs (0 + min 32 (bs.length - 0)) (packetCount bs) data
  simp only [mooPut, healthy_disk, Disk.fopen_some, Disk.fseek_healthy, Disk.fread_healthy,
    sliceAt_header, if_true, hcount]
  simp only [hq, mooPutCount, mooPutBytes]
  split_ifs <;> rfl

/-- **What a put does to a Moo file.** -/
theorem put_moo {bs : List U8} (h : isMooFile bs = true) (mode wantCount : Bool) (flags : U32)
    (data : WorkRecord) :
    bufferPutFileRecord (healthy (some bs) mode) data wantCount flags =
      (⟨0, if wantCount then some (mooPutCount bs) else none⟩,
        healthy (some (mooPutBytes bs data)) true) := by
  rw [bufferPutFileRecord, mooFileDetect_some, h]
  simp only [if_true, Bool.or_true, mooPut_some]

/-- A Moo file with a single packet. -/
def singlePacketFile (data : WorkRecord) : List U8 :=
  (moo521MakeHeader 1#32).val ++ (mooPackRecord data).val

private theorem mooPutBytes_of_empty {bs : List U8}
    (hbs : bs = [] ∨ bs = (moo521MakeHeader 0#32).val)
    (data : WorkRecord) : mooPutBytes bs data = singlePacketFile data ∧ mooPutCount bs = 1 := by
  have hcount : packetCount bs = 0 := by
    rcases hbs with rfl | rfl <;> decide
  have hheader : splice bs 0 (moo521MakeHeader 1#32).val = (moo521MakeHeader 1#32).val := by
    rcases hbs with rfl | rfl <;> decide
  constructor
  · rw [mooPutBytes, hcount]
    simp only [blankSlot, if_true, Nat.zero_add]
    rw [hheader, putPacketAt, singlePacketFile]
    exact splice_end (moo521MakeHeader 1#32).property
  · rw [mooPutCount, hcount]
    rfl

theorem mooPutBytes_nil (data : WorkRecord) : mooPutBytes [] data = singlePacketFile data :=
  (mooPutBytes_of_empty (Or.inl rfl) data).1

/-- A put into a file that carries no format information, once a Moo file has been seen. -/
theorem put_missing {file : Option (List U8)} (h : file = none ∨ file = some [])
    (wantCount : Bool) (flags : U32) (data : WorkRecord) :
    bufferPutFileRecord (healthy file true) data wantCount flags =
      (⟨0, if wantCount then some 1 else none⟩, healthy (some (singlePacketFile data)) true) := by
  rcases h with rfl | rfl
  · have hcreate : mooPut (healthy none true) data wantCount =
        mooPut (healthy (some (moo521MakeHeader 0#32).val) true) data wantCount := by
      rfl
    obtain ⟨hbytes, hcount⟩ := mooPutBytes_of_empty (Or.inr rfl) data
    rw [bufferPutFileRecord, mooFileDetect_none]
    simp only [Bool.false_eq_true, if_false, healthy_mode, if_true, mooFileMissing_none, hcreate,
      mooPut_some, hbytes, hcount]
  · obtain ⟨hbytes, hcount⟩ := mooPutBytes_of_empty (Or.inl rfl) data
    rw [bufferPutFileRecord, mooFileDetect_some]
    simp only [isMooFile_nil, Bool.false_eq_true, if_false, healthy_mode, Bool.or_false, if_true,
      mooFileMissing_some, decide_true, mooPut_some, hbytes, hcount]

end Hyunjin
