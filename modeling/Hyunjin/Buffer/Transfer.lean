import Hyunjin.Buffer.Holding
import Hyunjin.Buffer.Resave

/-!
# From one file into another

What a packet meets on its way from a remote buffer into an input buffer. A remote buffer is a Moo
file, and a get leaves a blank slot in it, so that it has room for the packet if that comes back. An
input buffer takes the packet (`TakesPacket`) unless it is a Moo file at the ceiling, or a stock
file in which the packet would come first and look like the beginning of a Moo file.

A put reports how many slots a Moo file has, but how many records a stock file holds (`reported`).
So the figure stays the same while a Moo file has blank slots.
-/

namespace Hyunjin

open Word Stdio Slots

/-! ## What is looked at -/

/-- What a put into a file reports. -/
def reported (bs : List U8) : ℕ := if isMooFile bs then packetCount bs else (heldIn bs).length

/-- The packets that a remote buffer gives, in order. -/
def remoteRecords (bs : List U8) : List WorkRecord :=
  if isMooFile bs then (full blankPacket (presentPackets bs)).map mooUnpackRecord else []

/-- A file that takes a packet once the flag is set. -/
def TakesPacket (bs : List U8) (data : WorkRecord) : Prop :=
  if isMooFile bs then packetCount bs < 0xFFFFFF ∨ HasBlank bs
  else bs ≠ [] → stockSlot true 0 (stockBodies bs).length (stockBodies bs) = 0 →
    moo521IsHeader (stockPackRecord data).val = false

/-- Work that a Moo packet may hold. -/
structure FromMoo (data : WorkRecord) : Prop where
  contest : data.contest = RC5_72
  state : data.resultcode = RESULT_WORKING
  stored : data.stored = data

theorem fromMoo_mooUnpack (pkt : Packet) : FromMoo (mooUnpackRecord pkt) where
  contest := contest_mooDecodeRecord pkt
  state := rfl
  stored := by
    have hid : nulTerminate (mooUnpackRecord pkt).id = (mooUnpackRecord pkt).id := by
      rw [mooUnpackRecord, mooDecodeRecord, switchByteOrder_rc5 rfl]
      exact nulTerminate_nulTerminate _
    exact congrArg (fun id ↦ { mooUnpackRecord pkt with id := id }) hid

section MooFile

variable (m : MooFile)

theorem MooFile.presentPackets_bytes : presentPackets m.bytes = m.slots :=
  (Holds.file m).presentPackets false

theorem MooFile.reported_bytes : reported m.bytes = m.slots.length := by
  rw [reported, if_pos m.isMooFile_bytes, m.packetCount_bytes]

theorem MooFile.remoteRecords_bytes :
    remoteRecords m.bytes = (full blankPacket m.slots).map mooUnpackRecord := by
  rw [remoteRecords, if_pos m.isMooFile_bytes, m.presentPackets_bytes]

theorem MooFile.heldIn_bytes : heldIn m.bytes = (full blankPacket m.slots).map mooDecodeRecord := by
  rw [heldIn, if_pos m.isMooFile_bytes, m.presentPackets_bytes]

theorem MooFile.hasBlank_bytes : HasBlank m.bytes ↔ blankPacket ∈ m.slots := by
  rw [HasBlank, m.packetCount_bytes, List.mem_iff_getElem?]
  refine exists_congr fun i ↦ ?_
  rw [m.packetAt_bytes]
  exact and_iff_right_of_imp fun h ↦ (List.getElem?_eq_some_iff.mp h).1

end MooFile

/-- Only a Moo file has a header that counts slots. -/
theorem packetCount_stock {bs : List U8} (h : isMooFile bs = false) : packetCount bs = 0 := by
  by_contra hne
  obtain ⟨hdr, hhdr, hcount⟩ := Option.bind_eq_some_iff.mp
    (headerAt_of_packetCount_pos (Nat.pos_of_ne_zero hne))
  have hget := ((sliceAt_eq_some (by decide)).mp hhdr).2
  simp only [Nat.zero_add] at hget
  have hmagic := isHeader_of_headerCount hcount
  rw [moo521IsHeader, hget 0 (by decide), hget 1 (by decide), hget 2 (by decide),
    hget 3 (by decide)] at hmagic
  rw [isMooFile, moo521IsHeader, hmagic] at h
  cases h

theorem not_hasBlank {bs : List U8} (h : isMooFile bs = false) : ¬HasBlank bs := by
  rintro ⟨j, hj, -⟩
  rw [packetCount_stock h] at hj
  exact absurd hj (Nat.not_lt_zero j)

/-! ## Taking from a remote buffer -/

/-- **What is taken from a remote buffer**: nothing from one that is not a Moo file or has no
packets, and otherwise the first packet, whose slot is blank then. -/
theorem Readable.takeRemote {file : Option (List U8)} (h : Readable file) (mode : Bool) :
    let got := bufferGetFileRecord (healthy file mode) true BUFFER_FLAGS_REMOTEBUF
    (remoteRecords (file.getD []) = [] ∧ got.1.rc ≠ 0 ∧ got.1.data = none ∧
      ∃ file' mode', got.2 = healthy file' mode' ∧ Readable file') ∨
    ∃ m m' : MooFile, ∃ data rest, file = some m.bytes ∧ remoteRecords m.bytes = data :: rest ∧
      FromMoo data ∧ got = (⟨0, some data, some rest.length⟩, healthy (some m'.bytes) true) ∧
      remoteRecords m'.bytes = rest ∧ blankPacket ∈ m'.slots ∧
      m'.slots.length = m.slots.length := by
  intro got
  obtain ⟨moo, rs, hfile⟩ := h
  cases hfile with
  | @stock _ cs hcs hstock =>
    have hnot : isMooFile (file.getD []) = false := by rw [hcs, hstock]
    have hgot : got = (⟨-1, none, some 0⟩, healthy file mode) := get_remote hnot mode
    have hfailed : (-1 : ℤ) ≠ 0 := by decide
    left
    rw [hgot]
    refine ⟨?_, hfailed, rfl, file, mode, rfl, false, _, .stock hcs hstock⟩
    rw [remoteRecords, hnot, if_neg Bool.false_ne_true]
  | moo m =>
    rcases hfirst : firstFull blankPacket m.slots with _ | ⟨i, pkt⟩
    · have hgot : got = (⟨1, none, some 0⟩, healthy (some []) true) :=
        m.get_bytes_of_none hfirst mode true BUFFER_FLAGS_REMOTEBUF
      have hnone : full blankPacket m.slots = [] :=
        List.filter_eq_nil_iff.mpr fun c hc ↦ by simp [firstFull_eq_none.mp hfirst c hc]
      left
      rw [hgot]
      refine ⟨?_, Int.one_ne_zero, rfl, some [], true, rfl, false, _, fileHolds_nil rfl⟩
      rw [Option.getD_some, m.remoteRecords_bytes, hnone, List.map_nil]
    · right
      have hi : i < m.slots.length := (List.getElem?_eq_some_iff.mp (firstFull_eq_some hfirst).1).1
      have hsplit : full blankPacket m.slots
          = pkt :: full blankPacket (m.slots.set i blankPacket) := full_of_firstFull hfirst
      have hcount : (packetRecords RC5_72 (m.setSlot i blankPacket).slots).length
          = ((full blankPacket (m.slots.set i blankPacket)).map mooUnpackRecord).length := by
        rw [packetRecords, List.filter_eq_self.mpr fun r hr ↦ ?_, List.length_map, List.length_map]
        · rfl
        · obtain ⟨p, -, rfl⟩ := List.mem_map.mp hr
          exact decide_eq_true (contest_mooDecodeRecord p)
      have hgot := m.get_bytes_of_some hfirst mode true BUFFER_FLAGS_REMOTEBUF
      rw [hcount] at hgot
      refine ⟨m, m.setSlot i blankPacket, mooUnpackRecord pkt, _, rfl, ?_, fromMoo_mooUnpack pkt,
        hgot, MooFile.remoteRecords_bytes _, ?_, List.length_set ..⟩
      · rw [m.remoteRecords_bytes, hsplit, List.map_cons]
      · exact List.mem_of_getElem? (List.getElem?_set_self hi)

/-- A packet that comes back finds room. -/
theorem MooFile.offerBack (m : MooFile) (hblank : blankPacket ∈ m.slots) (data : WorkRecord)
    (mode : Bool) : ∃ m' : MooFile,
    (bufferPutFileRecord (healthy (some m.bytes) mode) data false BUFFER_FLAGS_REMOTEBUF).2
      = healthy (some m'.bytes) true := by
  obtain ⟨m', -, hput⟩ := m.put_bytes (Or.inr hblank) data
  exact ⟨m', by rw [hput]⟩

/-! ## Storing in an input buffer -/

/-- `bs'` is the file `bs` with a packet more. -/
structure Added (data : WorkRecord) (bs bs' : List U8) : Prop where
  readable : Readable (some bs')
  held : (heldIn bs' : Multiset WorkRecord) = data ::ₘ heldIn bs
  layout : bs ≠ [] → isMooFile bs' = isMooFile bs
  blank : HasBlank bs' → HasBlank bs
  same : HasBlank bs → reported bs' = reported bs
  more : ¬HasBlank bs → reported bs' = reported bs + 1

private theorem mem_of_mem_fill {β : Type*} {blank c : β} (hc : c ≠ blank) {cs : List β} {i : ℕ}
    (h : blank ∈ fill cs i c) : blank ∈ cs := by
  rw [fill] at h
  split_ifs at h
  · exact (List.mem_or_eq_of_mem_set h).resolve_right hc.symm
  · rcases List.mem_append.mp h with h | h
    · exact h
    · exact absurd (List.mem_singleton.mp h).symm hc

private theorem added_moo {data : WorkRecord} (hdata : FromMoo data) {m m' : MooFile}
    (h : m'.slots = fill m.slots (firstBlank blankPacket m.slots) (mooPackRecord data)) :
    Added data m.bytes m'.bytes where
  readable := ⟨true, _, .moo m'⟩
  held := by
    have hadd :
        contents blankPacket m'.slots = mooPackRecord data ::ₘ contents blankPacket m.slots := by
      rw [h, contents_fill getElem?_firstBlank (mooPackRecord_ne_blank data)]
    have hmap := congrArg (Multiset.map mooDecodeRecord) hadd
    rw [Multiset.map_cons, mooDecode_pack hdata.contest] at hmap
    rw [m.heldIn_bytes, m'.heldIn_bytes]
    exact hmap.trans (congrArg (· ::ₘ _) hdata.stored)
  layout _ := m'.isMooFile_bytes.trans m.isMooFile_bytes.symm
  blank := by
    rw [m.hasBlank_bytes, m'.hasBlank_bytes, h]
    exact mem_of_mem_fill (mooPackRecord_ne_blank data)
  same := by
    rw [m.hasBlank_bytes, m.reported_bytes, m'.reported_bytes, h, ← firstBlank_lt_iff]
    intro hlt
    rw [fill, if_pos hlt, List.length_set]
  more := by
    rw [m.hasBlank_bytes, m.reported_bytes, m'.reported_bytes, h, ← firstBlank_lt_iff]
    intro hlt
    rw [fill, if_neg hlt, List.length_append, List.length_singleton]

private theorem added_first {data : WorkRecord} (hdata : FromMoo data) :
    Added data [] (MooFile.single data).bytes where
  readable := ⟨true, _, .moo (.single data)⟩
  held := by
    have hslots : (MooFile.single data).slots = [mooPackRecord data] := rfl
    rw [MooFile.heldIn_bytes, hslots, full_cons_of_ne (mooPackRecord_ne_blank data)]
    exact congrArg (fun r ↦ ({r} : Multiset WorkRecord))
      ((mooDecode_pack hdata.contest).trans hdata.stored)
  layout h := absurd rfl h
  blank := by
    rw [MooFile.hasBlank_bytes]
    intro h
    exact absurd (List.mem_singleton.mp h).symm (mooPackRecord_ne_blank data)
  same h := absurd h (not_hasBlank isMooFile_nil)
  more _ := MooFile.reported_bytes _

private theorem reported_stock {cs : List Body} (h : isMooFile (joined cs) = false) :
    reported (joined cs) = (full blankBody cs).length := by
  rw [reported, heldIn, h, stockBodies_joined]
  exact List.length_map ..

private theorem added_stock {data : WorkRecord} (hdata : FromMoo data) {cs : List Body} {i : ℕ}
    (hstock : isMooFile (joined cs) = false) (hle : i ≤ cs.length)
    (hslot : i < cs.length → cs[i]? = some blankBody)
    (himage : i = 0 → moo521IsHeader (stockPackRecord data).val = false) :
    Added data (joined cs) (joined (fill cs i (stockPackRecord data))) := by
  have hcontest : data.contest = RC5_72 ∨ data.contest = OGR_NG := Or.inl hdata.contest
  have hstock' := isMooFile_fill hstock himage hle
  have hadd := contents_fill hslot (stockPackRecord_ne_blank hcontest)
  refine ⟨⟨false, _, .stock rfl hstock'⟩, ?_, fun _ ↦ hstock'.trans hstock.symm, ?_, ?_, ?_⟩
  · have hmap := congrArg (Multiset.map stockUnpackRecord) hadd
    rw [Multiset.map_cons, stockUnpack_pack hcontest] at hmap
    rw [heldIn, heldIn, hstock, hstock', stockBodies_joined, stockBodies_joined]
    exact hmap.trans (congrArg (· ::ₘ _) hdata.stored)
  · exact fun h ↦ absurd h (not_hasBlank hstock')
  · exact fun h ↦ absurd h (not_hasBlank hstock)
  · intro _
    have hcard := congrArg Multiset.card hadd
    rw [reported_stock hstock, reported_stock hstock']
    rwa [Multiset.card_cons] at hcard

/-- The stock files that a put does not take for a Moo file to be. -/
private theorem put_counted {file : Option (List U8)} {cs : List Body}
    (hfile : file.getD [] = joined cs) (hstock : isMooFile (joined cs) = false) (hcs : cs ≠ [])
    (data : WorkRecord) :
    bufferPutFileRecord (healthy file true) data true BUFFER_FLAGS_NONE =
      (⟨0, some ((full blankBody cs).length + 1)⟩,
        healthy (some (joined (fill cs (stockSlot true 0 cs.length cs) (stockPackRecord data))))
          true) := by
  have hflags : LocalFlags BUFFER_FLAGS_NONE := rfl
  rw [put_stock hfile hstock hflags true (Or.inr hcs), stockMet_eq]
  rfl

private theorem missing_of_joined_nil {file : Option (List U8)}
    (hfile : file.getD [] = joined ([] : List Body)) : file = none ∨ file = some [] := by
  rcases file with _ | bs
  · exact Or.inl rfl
  · exact Or.inr (congrArg some hfile)

/-- **An input buffer that takes a packet** holds it in addition, and reports what it holds. -/
theorem Readable.putPacket {file : Option (List U8)} (h : Readable file) {data : WorkRecord}
    (hdata : FromMoo data) (htakes : TakesPacket (file.getD []) data) : ∃ bs',
    Added data (file.getD []) bs' ∧
      bufferPutFileRecord (healthy file true) data true BUFFER_FLAGS_NONE =
        (⟨0, some (reported bs')⟩, healthy (some bs') true) := by
  obtain ⟨moo, rs, hfile⟩ := h
  cases hfile with
  | moo m =>
    rw [Option.getD_some, TakesPacket, if_pos m.isMooFile_bytes, m.packetCount_bytes,
      m.hasBlank_bytes] at htakes
    obtain ⟨m', hslots, hput⟩ := m.put_bytes htakes data
    refine ⟨m'.bytes, added_moo hdata hslots, ?_⟩
    rw [hput, m'.reported_bytes]
    rfl
  | @stock _ cs hcs hstock =>
    rw [hcs, TakesPacket, hstock, if_neg Bool.false_ne_true, stockBodies_joined] at htakes
    rw [hcs]
    by_cases hempty : cs = []
    · subst hempty
      refine ⟨_, added_first hdata, ?_⟩
      rw [put_missing (missing_of_joined_nil hcs), MooFile.reported_bytes, MooFile.bytes_single]
      rfl
    · have hle : stockSlot true 0 cs.length cs ≤ 0 + cs.length := stockSlot_le _ _ (by omega)
      rw [Nat.zero_add] at hle
      have hadded := added_stock hdata hstock hle getElem?_stockSlot (htakes (joined_ne_nil hempty))
      refine ⟨_, hadded, ?_⟩
      rw [put_counted hcs hstock hempty, hadded.more (not_hasBlank hstock), reported_stock hstock]

/-- **An input buffer that does not take a packet** cannot be read afterwards, or is read in another
layout. -/
theorem Readable.putPacket_of_not_takes {file : Option (List U8)} (h : Readable file)
    {data : WorkRecord} (htakes : ¬TakesPacket (file.getD []) data) : ∃ bs' count,
    bufferPutFileRecord (healthy file true) data true BUFFER_FLAGS_NONE =
      (⟨0, some count⟩, healthy (some bs') true) ∧
      (Readable (some bs') → file.getD [] ≠ [] ∧ isMooFile bs' ≠ isMooFile (file.getD [])) := by
  obtain ⟨moo, rs, hfile⟩ := h
  cases hfile with
  | moo m =>
    rw [Option.getD_some, TakesPacket, if_pos m.isMooFile_bytes] at htakes
    have hlong : 32 + 176 * 0xFFFFFF < (mooPutBytes m.bytes data).length :=
      lt_length_mooPutBytes (s := healthy (some m.bytes) true) htakes data
    have hmoo' := isMooFile_mooPutBytes (Or.inr m.isMooFile_bytes) data
    exact ⟨_, _, put_moo m.isMooFile_bytes true true BUFFER_FLAGS_NONE data,
      fun hread ↦ absurd hread (not_readable_of_long hmoo' hlong)⟩
  | @stock _ cs hcs hstock =>
    rw [hcs, TakesPacket, hstock, if_neg Bool.false_ne_true, stockBodies_joined] at htakes
    rw [hcs]
    simp only [Classical.not_imp, Bool.not_eq_false] at htakes
    obtain ⟨hne, hslot, himage⟩ := htakes
    have hempty : cs ≠ [] := by
      rintro rfl
      exact hne rfl
    refine ⟨_, _, put_counted hcs hstock hempty data, fun _ ↦ ⟨hne, ?_⟩⟩
    -- the packet comes first in the file, and looks like a header
    obtain ⟨c, ds, rfl⟩ := List.exists_cons_of_ne_nil hempty
    have hmoo' : isMooFile (joined (fill (c :: ds) 0 (stockPackRecord data))) = true := by
      rw [fill, if_pos (List.length_pos_of_ne_nil hempty), List.set_cons_zero,
        isMooFile_joined_cons, himage]
    rw [hslot, hmoo', hstock]
    exact Bool.noConfusion

end Hyunjin
