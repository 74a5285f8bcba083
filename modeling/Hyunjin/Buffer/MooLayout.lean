import Hyunjin.Buffer.Effect
import Hyunjin.Slots.Store

/-!
# Well-formed Moo files as slot stores

A well-formed Moo file is a header and exactly as many packets as the header counts, which is what
`MooFile` carries. On such a file the interface of `Buffer.File` is the slot store of `Slots.Store`:
a get takes the first full slot, a put fills the first blank one or appends, and a count runs over
the full slots.

The header count has a ceiling. A put that would push it beyond `0xFFFFFF` writes a header that the
next call rejects, so a Moo file has room for another packet (`MooFile.Room`) only below the ceiling
or if it has a blank slot.
-/

namespace Hyunjin

open Word Stdio Slots

/-- The records of a contest among packets. -/
def packetRecords (contest : U32) (slots : List Packet) : List WorkRecord :=
  ((full blankPacket slots).map mooDecodeRecord).filter (·.contest = contest)

/-- A header and exactly the packets it counts. -/
structure MooFile where
  hdr : Bytes 32
  slots : List Packet
  count : moo521HeaderCount hdr = some slots.length

namespace MooFile

def bytes (m : MooFile) : List U8 := m.hdr.val ++ joined m.slots

/-- A put on this file leaves a well-formed file. -/
def Room (m : MooFile) : Prop := m.slots.length < 0xFFFFFF ∨ blankPacket ∈ m.slots

/-- The file with another packet in a slot. -/
def setSlot (m : MooFile) (i : ℕ) (pkt : Packet) : MooFile where
  hdr := m.hdr
  slots := m.slots.set i pkt
  count := m.count.trans (congrArg some (List.length_set ..).symm)

/-- The file of given packets under a fresh header. -/
def ofSlots (slots : List Packet) (h : slots.length ≤ 0xFFFFFF) : MooFile where
  hdr := moo521MakeHeader (BitVec.ofNat 32 slots.length)
  slots := slots
  count := by
    have hnat : (BitVec.ofNat 32 slots.length).toNat = slots.length :=
      Nat.mod_eq_of_lt (by omega)
    have hle : ¬0xFFFFFF#32 < BitVec.ofNat 32 slots.length := by
      rw [BitVec.lt_def, hnat]
      exact Nat.not_lt.mpr h
    rw [moo521HeaderCount_makeHeader, if_neg hle, hnat]

theorem bytes_ofSlots (slots : List Packet)
    (h : slots.length ≤ 0xFFFFFF) : (ofSlots slots h).bytes =
    (moo521MakeHeader (BitVec.ofNat 32 slots.length)).val ++ joined slots := rfl

variable (m : MooFile)

theorem headerAt_bytes : headerAt m.bytes = some m.hdr :=
  sliceAt_append (a := []) (r := joined m.slots) rfl m.hdr

theorem isMooFile_bytes : isMooFile m.bytes = true := by
  have hget (i : ℕ) (hi : i < 32) : m.bytes.getD i 0#8 = m.hdr.val.getD i 0#8 := by
    have hlt : i < m.hdr.val.length := hi.trans_eq m.hdr.property.symm
    rw [bytes, List.getD_append _ _ _ _ hlt]
  have hmagic := isHeader_of_headerCount m.count
  rw [moo521IsHeader] at hmagic
  rw [isMooFile, moo521IsHeader, hget 0 (by decide), hget 1 (by decide), hget 2 (by decide),
    hget 3 (by decide), hmagic]

theorem packetCount_bytes : packetCount m.bytes = m.slots.length := by
  rw [packetCount, m.headerAt_bytes, Option.bind_some, m.count, Option.getD_some]

theorem packetAt_bytes (i : ℕ) : packetAt m.bytes i = m.slots[i]? :=
  sliceAt_joined m.hdr.property (by decide) m.slots i

theorem length_slots_le : m.slots.length ≤ 0xFFFFFF := moo521HeaderCount_le m.count

theorem bytes_setSlot {i : ℕ} (hi : i < m.slots.length) (pkt : Packet) :
    putPacketAt m.bytes i pkt = (m.setSlot i pkt).bytes :=
  splice_joined m.hdr.property hi pkt

/-! The scans run over the slots from a given one on. -/

private theorem drop_succ_of_getElem? {i : ℕ} {pkt : Packet} (h : m.slots[i]? = some pkt) :
    m.slots.drop i = pkt :: m.slots.drop (i + 1) := by
  obtain ⟨hi, hpkt⟩ := List.getElem?_eq_some_iff.mp h
  rw [List.drop_eq_getElem_cons hi, hpkt]

private theorem mooScan_drop (left i : ℕ) (h : i + left = m.slots.length) :
    mooScan m.bytes left i
      = some ((firstFull blankPacket (m.slots.drop i)).map fun x ↦ (i + x.1, x.2)) := by
  induction left generalizing i with
  | zero =>
    rw [List.drop_of_length_le (by omega)]
    rfl
  | succ left ih =>
    have hi : i < m.slots.length := by omega
    have hget : m.slots[i]? = some m.slots[i] := List.getElem?_eq_getElem hi
    rw [mooScan, m.packetAt_bytes, hget, m.drop_succ_of_getElem? hget, firstFull]
    by_cases hb : m.slots[i] = blankPacket
    · simp only [if_pos hb]
      rw [ih (i + 1) (by omega), Option.map_map]
      refine congrArg some (congrArg (Option.map · _) (funext fun x ↦ ?_))
      simp only [Function.comp_apply, Prod.mk.injEq, and_true]
      omega
    · simp only [if_neg hb, Option.map_some, Nat.add_zero]

theorem mooScan_bytes : mooScan m.bytes m.slots.length 0
    = some (firstFull blankPacket m.slots) := by
  rw [m.mooScan_drop _ _ (Nat.zero_add _), List.drop_zero]
  rcases firstFull blankPacket m.slots with _ | ⟨i, pkt⟩ <;> simp

private theorem blankSlot_drop (left i : ℕ) (h : i + left = m.slots.length) :
    blankSlot m.bytes m.slots.length left i = i + firstBlank blankPacket (m.slots.drop i) := by
  induction left generalizing i with
  | zero =>
    rw [List.drop_of_length_le (by omega)]
    exact h.symm
  | succ left ih =>
    have hi : i < m.slots.length := by omega
    have hget : m.slots[i]? = some m.slots[i] := List.getElem?_eq_getElem hi
    rw [blankSlot, m.packetAt_bytes, hget, m.drop_succ_of_getElem? hget, firstBlank,
      List.findIdx_cons]
    by_cases hb : m.slots[i] = blankPacket
    · simp [hb]
    · simp only [decide_false, cond_false, if_false, ih (i + 1) (by omega), firstBlank, hb]
      omega

theorem blankSlot_bytes :
    blankSlot m.bytes m.slots.length m.slots.length 0 = firstBlank blankPacket m.slots := by
  rw [m.blankSlot_drop _ _ (Nat.zero_add _), List.drop_zero, Nat.zero_add]


private theorem mooRecords_drop (contest : U32) (left i : ℕ) (h : i + left = m.slots.length) :
    mooRecords m.bytes contest left i =
      ((full blankPacket (m.slots.drop i)).map mooDecodeRecord).filter (·.contest = contest) := by
  induction left generalizing i with
  | zero =>
    rw [List.drop_of_length_le (by omega)]
    rfl
  | succ left ih =>
    have hi : i < m.slots.length := by omega
    have hget : m.slots[i]? = some m.slots[i] := List.getElem?_eq_getElem hi
    rw [mooRecords, m.packetAt_bytes, hget, m.drop_succ_of_getElem? hget]
    by_cases hb : m.slots[i] = blankPacket
    · simp only [hb, ne_eq, not_true, false_and, if_false, full_cons_blank, ih (i + 1) (by omega)]
    · rw [full_cons_of_ne hb, List.map_cons]
      by_cases hc : (mooDecodeRecord m.slots[i]).contest = contest
      · simp [hb, hc, ih (i + 1) (by omega)]
      · simp [hc, ih (i + 1) (by omega)]

theorem mooRecords_bytes (contest : U32) :
    mooRecords m.bytes contest m.slots.length 0 = packetRecords contest m.slots := by
  rw [m.mooRecords_drop contest _ _ (Nat.zero_add _), List.drop_zero, packetRecords]

/-! The interface. -/

theorem count_bytes (contest : U32) (mode : Bool) :
    bufferCountFileRecords (healthy (some m.bytes) mode) contest =
      (⟨0, (packetRecords contest m.slots).length, swuSum (packetRecords contest m.slots)⟩,
        healthy (some m.bytes) true) := by
  have hheader : (headerAt m.bytes).bind moo521HeaderCount = some m.slots.length := by
    rw [m.headerAt_bytes, Option.bind_some, m.count]
  rw [count_moo m.isMooFile_bytes, hheader]
  simp only [m.mooRecords_bytes]

theorem get_bytes_of_none (h : firstFull blankPacket m.slots = none) (mode wantCount : Bool)
    (flags : U32) :
    bufferGetFileRecord (healthy (some m.bytes) mode) wantCount flags =
      (⟨1, none, if wantCount then some 0 else none⟩, healthy (some []) true) := by
  rw [get_moo m.isMooFile_bytes, if_neg (by rw [m.headerAt_bytes]; simp), m.packetCount_bytes,
    m.mooScan_bytes, h]

theorem get_bytes_of_some {i : ℕ} {pkt : Packet}
    (h : firstFull blankPacket m.slots = some (i, pkt)) (mode wantCount : Bool) (flags : U32) :
    bufferGetFileRecord (healthy (some m.bytes) mode) wantCount flags =
      (⟨0, some (mooUnpackRecord pkt),
        if wantCount then some
          (packetRecords RC5_72 (m.setSlot i blankPacket).slots).length else none⟩,
        healthy (some (m.setSlot i blankPacket).bytes) true) := by
  have hi : i < m.slots.length :=
    (List.getElem?_eq_some_iff.mp (firstFull_eq_some h).1).1
  rw [get_moo m.isMooFile_bytes, if_neg (by rw [m.headerAt_bytes]; simp), m.packetCount_bytes,
    m.mooScan_bytes, h]
  simp only [m.bytes_setSlot hi, packetCount_bytes, mooRecords_bytes]

/-- **A put with room fills the first blank slot, or appends.** -/
theorem put_bytes (hroom : m.Room) (data : WorkRecord) : ∃ m' : MooFile,
    m'.slots = fill m.slots (firstBlank blankPacket m.slots) (mooPackRecord data) ∧
    ∀ (mode wantCount : Bool) (flags : U32),
      bufferPutFileRecord (healthy (some m.bytes) mode) data wantCount flags =
        (⟨0, if wantCount then some m'.slots.length else none⟩,
          healthy (some m'.bytes) true) := by
  have hput (mode wantCount : Bool) (flags : U32) :=
    put_moo m.isMooFile_bytes mode wantCount flags data
  have hle : firstBlank blankPacket m.slots ≤ m.slots.length := firstBlank_le _
  rcases Nat.lt_or_eq_of_le hle with hlt | heq
  · refine ⟨m.setSlot (firstBlank blankPacket m.slots) (mooPackRecord data), ?_, ?_⟩
    · rw [fill, if_pos hlt, setSlot]
    · intro mode wantCount flags
      rw [hput, mooPutCount, mooPutBytes, m.packetCount_bytes, m.blankSlot_bytes,
        m.bytes_setSlot hlt]
      simp [Nat.ne_of_lt hlt, setSlot]
  · have hnot : blankPacket ∉ m.slots := fun hmem ↦ by
      have hlt : firstBlank blankPacket m.slots < m.slots.length := firstBlank_lt_iff.mpr hmem
      omega
    have hlt : m.slots.length < 0xFFFFFF := hroom.resolve_right hnot
    have hlen : (m.slots ++ [mooPackRecord data]).length = m.slots.length + 1 := by simp
    refine ⟨ofSlots (m.slots ++ [mooPackRecord data]) (by omega), ?_, ?_⟩
    · rw [fill, if_neg (Nat.not_lt.mpr heq.ge), ofSlots]
    · intro mode wantCount flags
      have hbytes : putPacketAt (splice m.bytes 0
          (moo521MakeHeader (BitVec.ofNat 32 (m.slots.length + 1))).val) m.slots.length
          (mooPackRecord data)
          = (ofSlots (m.slots ++ [mooPackRecord data]) (by omega)).bytes := by
        rw [bytes, splice_header m.hdr.property (moo521MakeHeader _).property, putPacketAt,
          packetOffset, MOO521_RECLEN, MOO521_HEADERLEN,
            splice_joined_end (moo521MakeHeader _).property,
          bytes_ofSlots, hlen]
      rw [hput, mooPutCount, mooPutBytes, m.packetCount_bytes, m.blankSlot_bytes, heq]
      simp only [if_true, hbytes, ofSlots, hlen]

/-- The file with a single packet. -/
def single (data : WorkRecord) : MooFile := ofSlots [mooPackRecord data] (by simp)

theorem bytes_single (data : WorkRecord) : (single data).bytes = singlePacketFile data := by
  simp [single, bytes, ofSlots, singlePacketFile]

end MooFile

end Hyunjin
