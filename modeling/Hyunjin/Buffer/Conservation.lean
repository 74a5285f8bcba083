import Hyunjin.Buffer.MooStore
import Hyunjin.Buffer.Packets
import Hyunjin.Run.Machine
import Mathlib.Algebra.Order.Group.Multiset
import Mathlib.Data.List.Induction

/-!
# No record is lost or handed out twice

Over any run of puts, gets and counts on one Moo buffer file, the records handed out and the records
still stored are, as multisets, the records that were there and the records that were put. The one
thing that breaks the balance is a put on a file that already counts `0xFFFFFF` packets and has no
blank slot: it writes a header that every later call rejects, and the next get truncates the file.
So the run theorem asks each put to find room (`HasRoom`), and `overfull_loses` shows what happens
to a run that does not.
-/

namespace Hyunjin

open Word Stdio Slots Run

/-! ## What a file stores -/

/-- The packets physically present after the header, blank or not. -/
def presentPackets (bs : List U8) : List Packet :=
  (List.range ((bs.length - 32) / 176)).filterMap (packetAt bs)

/-- The records stored in a Moo file, as they would be read. -/
def storedRecords (s : BufferState) : Multiset WorkRecord :=
  (contents blankPacket (presentPackets s.disk.bytes)).map mooUnpackRecord

/-- Absent, zero-length, or a well-formed Moo file. -/
def StartFile (file : Option (List U8)) : Prop := ∃ slots, Holds file slots

theorem filterMap_range_getElem? {α : Type*} (l : List α) :
    (List.range l.length).filterMap (fun i ↦ l[i]?) = l := by
  induction l using List.reverseRecOn with
  | nil => rfl
  | append_singleton l a ih =>
    have hprefix : (List.range l.length).filterMap (fun i ↦ (l ++ [a])[i]?)
        = (List.range l.length).filterMap fun i ↦ l[i]? :=
      List.filterMap_congr fun i hi ↦ List.getElem?_append_left (List.mem_range.mp hi)
    rw [List.length_append, List.length_singleton, List.range_succ, List.filterMap_append, hprefix,
      ih]
    simp

theorem Holds.presentPackets {file : Option (List U8)} {slots : List Packet} (h : Holds file slots)
    (mode : Bool) : presentPackets (healthy file mode).disk.bytes = slots := by
  have hnothing : Hyunjin.presentPackets [] = [] := rfl
  cases h with
  | absent => exact hnothing
  | empty => exact hnothing
  | file m =>
    have hlen : (m.bytes.length - 32) / 176 = m.slots.length := by
      rw [MooFile.bytes, List.length_append, length_joined, m.hdr.property]
      omega
    have hbytes : (healthy (some m.bytes) mode).disk.bytes = m.bytes := rfl
    rw [Hyunjin.presentPackets, hbytes, hlen, funext m.packetAt_bytes, filterMap_range_getElem?]

theorem Holds.room_of_hasRoom {file : Option (List U8)} {slots : List Packet}
    (h : Holds file slots) {mode : Bool} (hroom : HasRoom (healthy file mode)) :
    slots.length < 0xFFFFFF ∨ blankPacket ∈ slots := by
  cases h with
  | absent => exact Or.inl (by decide)
  | empty => exact Or.inl (by decide)
  | file m =>
    have hbytes : (healthy (some m.bytes) mode).disk.bytes = m.bytes := rfl
    rw [HasRoom, hbytes, m.packetCount_bytes] at hroom
    rcases hroom with hlt | ⟨i, -, hi⟩
    · exact Or.inl hlt
    · rw [m.packetAt_bytes] at hi
      exact Or.inr (List.mem_of_getElem? hi)

/-- The records stored in a buffer. -/
theorem Holds.storedRecords {file : Option (List U8)} {slots : List Packet} (h : Holds file slots)
    (mode : Bool) :
    storedRecords (healthy file mode) = (contents blankPacket slots).map mooUnpackRecord := by
  rw [Hyunjin.storedRecords, h.presentPackets mode]

/-! ## One call -/

/-- What a record is stored as: its id is cut at the last byte. -/
def WorkRecord.stored (r : WorkRecord) : WorkRecord := { r with id := nulTerminate r.id }

/-- The record a get handed out. -/
def delivered (_ : BufferCall) : BufferAnswer → Multiset WorkRecord
  | .get r => if r.rc = 0 then r.data.elim 0 ({·}) else 0
  | _ => 0

/-- The record a successful put stored. -/
def accepted : BufferCall → BufferAnswer → Multiset WorkRecord
  | .put data _ _, .put r => if r.rc = 0 then {data.stored} else 0
  | _, _ => 0

/-- The calls considered: records put are RC5-72 work in progress. -/
def BufferCall.InProgress : BufferCall → Prop
  | .put data _ _ => data.contest = RC5_72 ∧ data.resultcode = RESULT_WORKING
  | _ => True

/-- A put finds room. -/
def BufferCall.FindsRoom (c : BufferCall) (s : BufferState) : Prop :=
  match c with
  | .put _ _ _ => HasRoom s
  | _ => True

/-- Between calls: no faults, the flag set, and a file that is empty or well-formed. -/
def Sound (s : BufferState) : Prop := ∃ file, s = healthy file true ∧ StartFile file

/-- A call keeps the file sound and the records balanced. -/
def Balances (c : BufferCall) (s : BufferState) : Prop :=
  Sound (c.exec s).2 ∧
    delivered c (c.exec s).1 + storedRecords (c.exec s).2
      = storedRecords s + accepted c (c.exec s).1

theorem mooUnpack_pack_stored {r : WorkRecord} (hcontest : r.contest = RC5_72)
    (hworking : r.resultcode = RESULT_WORKING) : mooUnpackRecord (mooPackRecord r) = r.stored := by
  rw [mooUnpack_pack hcontest, WorkRecord.stored, ← hworking]

theorem sound_healthy {file : Option (List U8)} {slots : List Packet} (h : Holds file slots) :
    Sound (healthy file true) := ⟨file, rfl, slots, h⟩

theorem balances_put {s : BufferState} (hs : Sound s) {data : WorkRecord}
    (hcontest : data.contest = RC5_72) (hworking : data.resultcode = RESULT_WORKING)
    (hroom : HasRoom s) (wantCount : Bool) (flags : U32) :
    Balances (.put data wantCount flags) s := by
  obtain ⟨file, rfl, slots, hfile⟩ := hs
  obtain ⟨file', hfile', hput⟩ := hfile.put (hfile.room_of_hasRoom hroom) data
  rw [Balances, BufferCall.exec, hput]
  refine ⟨sound_healthy hfile', ?_⟩
  rw [hfile.storedRecords, hfile'.storedRecords,
    contents_fill getElem?_firstBlank (mooPackRecord_ne_blank data), Multiset.map_cons,
    mooUnpack_pack_stored hcontest hworking]
  simp only [delivered, accepted, if_true, zero_add]
  rw [← Multiset.singleton_add, add_comm]

theorem balances_get {s : BufferState} (hs : Sound s) (wantCount : Bool) (flags : U32) :
    Balances (.get wantCount flags) s := by
  obtain ⟨file, rfl, slots, hfile⟩ := hs
  rcases hfull : firstFull blankPacket slots with _ | ⟨i, pkt⟩
  · have hnothing : contents blankPacket slots = 0 :=
      contents_eq_zero (firstFull_eq_none.mp hfull)
    by_cases hflags : LocalFlags flags
    · rw [Balances, BufferCall.exec, hfile.get_none hflags hfull]
      refine ⟨sound_healthy .empty, ?_⟩
      rw [hfile.storedRecords, Holds.empty.storedRecords, hnothing]
      simp [delivered, accepted]
    · obtain ⟨rc, file', hfile', hget⟩ := hfile.get_remote hflags hfull wantCount
      rw [Balances, BufferCall.exec, hget]
      refine ⟨sound_healthy hfile', ?_⟩
      rw [hfile.storedRecords, hfile'.storedRecords, hnothing]
      simp [delivered, accepted]
  · obtain ⟨file', hfile', hget⟩ := hfile.get_some hfull
    rw [Balances, BufferCall.exec, hget]
    refine ⟨sound_healthy hfile', ?_⟩
    obtain ⟨hget, hne⟩ := firstFull_eq_some hfull
    rw [hfile.storedRecords, hfile'.storedRecords, contents_take hget hne, Multiset.map_cons]
    simp [delivered, accepted]

theorem balances_count {s : BufferState} (hs : Sound s) (contest : U32) :
    Balances (.count contest) s := by
  obtain ⟨file, rfl, slots, hfile⟩ := hs
  obtain ⟨file', hfile', hcount⟩ := hfile.count contest
  rw [Balances, BufferCall.exec, hcount]
  refine ⟨sound_healthy hfile', ?_⟩
  rw [hfile.storedRecords, hfile'.storedRecords]
  simp [delivered, accepted]

/-! ## Runs -/

/-- What each call of a run has to meet: it puts work in progress only, and finds room for it. -/
def BufferCall.Fits (c : BufferCall) (s : BufferState) : Prop := c.InProgress ∧ c.FindsRoom s

theorem balances_of_fits (c : BufferCall) (s : BufferState) (hs : Sound s) (hc : c.Fits s) :
    Balances c s := by
  cases c with
  | put data wantCount flags => exact balances_put hs hc.1.1 hc.1.2 hc.2 wantCount flags
  | get wantCount flags => exact balances_get hs wantCount flags
  | count contest => exact balances_count hs contest

/-- **Records are conserved over every run whose puts find room.** -/
theorem records_conserved {file : Option (List U8)} (hfile : StartFile file)
    {calls : List BufferCall}
    (hcalls : Guarded BufferCall.exec BufferCall.Fits calls (healthy file true)) :
    total BufferCall.exec delivered calls (healthy file true) +
        storedRecords (final BufferCall.exec calls (healthy file true)) =
      storedRecords (healthy file true) +
        total BufferCall.exec accepted calls (healthy file true) :=
  ledger (fun c s hs hc ↦ (balances_of_fits c s hs hc).1)
    (fun c s hs hc ↦ (balances_of_fits c s hs hc).2) ⟨file, rfl, hfile⟩ hcalls

/-! ## Without room -/

/-- The file after a put that found no room: its header is rejected from now on. -/
theorem put_without_room {m : MooFile} (h : ¬m.Room) (mode wantCount : Bool) (flags : U32)
    (data : WorkRecord) : ∃ file : List U8,
    bufferPutFileRecord (healthy (some m.bytes) mode) data wantCount flags =
        (⟨0, if wantCount then some 0x1000000 else none⟩, healthy (some file) true) ∧
      isMooFile file = true ∧ headerAt file ≠ none ∧ packetCount file = 0 := by
  simp only [MooFile.Room, not_or, Nat.not_lt] at h
  have hlen : m.slots.length = 0xFFFFFF := Nat.le_antisymm m.length_slots_le h.1
  have hblank : firstBlank blankPacket m.slots = m.slots.length :=
    List.findIdx_eq_length.mpr fun pkt hpkt ↦ by
      simpa using fun heq : pkt = blankPacket ↦ h.2 (heq ▸ hpkt)
  have hbytes : mooPutBytes m.bytes data =
      (moo521MakeHeader 0x1000000#32).val ++ joined (m.slots ++ [mooPackRecord data]) := by
    rw [mooPutBytes, m.packetCount_bytes, m.blankSlot_bytes, hblank]
    simp only [if_true]
    rw [MooFile.bytes, splice_header m.hdr.property (moo521MakeHeader _).property, putPacketAt,
      packetOffset, MOO521_RECLEN, MOO521_HEADERLEN,
      splice_joined_end (moo521MakeHeader _).property, hlen]
  have hheader : headerAt (mooPutBytes m.bytes data) = some (moo521MakeHeader 0x1000000#32) := by
    rw [hbytes]
    exact sliceAt_append (a := []) (r := joined (m.slots ++ [mooPackRecord data])) rfl
      (moo521MakeHeader 0x1000000#32)
  have hrejected : moo521HeaderCount (moo521MakeHeader 0x1000000#32) = none := by
    rw [moo521HeaderCount_makeHeader, if_pos (by decide)]
  refine ⟨mooPutBytes m.bytes data, ?_, ?_, ?_, ?_⟩
  · rw [put_moo m.isMooFile_bytes, mooPutCount, m.packetCount_bytes, m.blankSlot_bytes, hblank]
    simp only [if_true, hlen]
  · rw [hbytes]
    rfl
  · rw [hheader]
    exact Option.some_ne_none _
  · rw [packetCount, hheader, Option.bind_some, hrejected, Option.getD_none]

/-- An RC5-72 work unit in progress, with nothing but the contest filled in. -/
def emptyRecord : WorkRecord where
  work := ⟨List.replicate 20 0#32, rfl⟩
  resultcode := RESULT_WORKING
  id := Bytes.zero 64
  contest := RC5_72
  cpu := 0#32
  os := 0#32
  build := 0#32
  core := 0#32

/-- A well-formed file of `n` copies of its packet. -/
def repeatedFile (n : ℕ) (h : n ≤ 0xFFFFFF) : MooFile :=
  MooFile.ofSlots (List.replicate n (mooPackRecord emptyRecord)) (List.length_replicate.trans_le h)

theorem not_room_repeatedFile {n : ℕ} (h : n ≤ 0xFFFFFF) (hn : 0xFFFFFF ≤ n) :
    ¬(repeatedFile n h).Room := by
  rintro (hlt | hmem)
  · rw [repeatedFile, MooFile.ofSlots, List.length_replicate] at hlt
    omega
  · exact mooPackRecord_ne_blank emptyRecord (List.eq_of_mem_replicate hmem).symm

/-- Putting into a file without room and getting from it afterwards loses every record. -/
theorem loses_without_room {m : MooFile} (h : ¬m.Room) (data : WorkRecord) :
    let s := healthy (some m.bytes) true
    let calls := [BufferCall.put data true BUFFER_FLAGS_NONE, BufferCall.get true BUFFER_FLAGS_NONE]
    total BufferCall.exec delivered calls s = 0 ∧
      storedRecords (final BufferCall.exec calls s) = 0 ∧
      total BufferCall.exec accepted calls s = {data.stored} := by
  intro s calls
  obtain ⟨file, hput, hmoo, hheader, hcount⟩ :=
    put_without_room h true true BUFFER_FLAGS_NONE data
  have hget := get_of_packetCount_zero hmoo hheader hcount true true BUFFER_FLAGS_NONE
  refine ⟨?_, ?_, ?_⟩
  · simp [calls, total, BufferCall.exec, s, hput, hget, delivered]
  · simp only [calls, final, BufferCall.exec, s, hput, hget]
    exact Holds.empty.storedRecords true
  · simp [calls, total, BufferCall.exec, s, hput, accepted]

/-- **Records are lost** by a put into a file at the ceiling of the header count. -/
theorem overfull_loses :
    let s := healthy (some (repeatedFile 0xFFFFFF (Nat.le_refl _)).bytes) true
    let calls := [BufferCall.put emptyRecord true BUFFER_FLAGS_NONE,
      BufferCall.get true BUFFER_FLAGS_NONE]
    Sound s ∧ (∀ c ∈ calls, c.InProgress) ∧
      total BufferCall.exec delivered calls s + storedRecords (final BufferCall.exec calls s) ≠
        storedRecords s + total BufferCall.exec accepted calls s := by
  intro s calls
  obtain ⟨hdelivered, hstored, haccepted⟩ :=
    loses_without_room (not_room_repeatedFile _ (Nat.le_refl _)) emptyRecord
  refine ⟨sound_healthy (.file _), by simp [calls, BufferCall.InProgress, emptyRecord], fun h ↦ ?_⟩
  rw [hdelivered, hstored, haccepted] at h
  have hcard := congrArg Multiset.card h
  rw [Multiset.card_add, Multiset.card_add, Multiset.card_singleton, Multiset.card_zero] at hcard
  omega

/-- A record put into a file that does not exist yet and taken out again. -/
theorem records_conserved_put_get :
    let calls := [BufferCall.put emptyRecord true BUFFER_FLAGS_NONE,
      BufferCall.get true BUFFER_FLAGS_NONE]
    total BufferCall.exec delivered calls (healthy none true) +
        storedRecords (final BufferCall.exec calls (healthy none true)) =
      storedRecords (healthy none true) +
        total BufferCall.exec accepted calls (healthy none true) :=
  records_conserved ⟨[], .absent⟩
    ⟨⟨⟨rfl, rfl⟩, Or.inl (by decide)⟩, ⟨trivial, trivial⟩, trivial⟩

end Hyunjin
