import Hyunjin.Buffer.Conservation

/-!
# The layout of a Moo file

A Moo file in order is empty, or a header and exactly the packets it counts, of which each is blank
or carries the checksum of its own body. `Layout` says so about the bytes of a file.

Puts and gets keep the layout as long as each put finds room; a put at the ceiling writes a header
that no reader accepts (`not_layout_overfull`). On a file that ends before the packets its header
counts, a put may restore the layout, as it appends behind the last packet *counted* and a write
past the end leaves a hole of zero bytes, that is, of blank packets. It does not look at the place
where the file ends, though: a packet that was cut in two is filled up with zeros. And if there is a
blank packet in what is left of the file, the put fills that one and appends nothing.
-/

namespace Hyunjin

open Word Stdio Slots Run Keystream

/-- The check dword of a packet deciphers to the checksum of its body. -/
def CheckedPacket (pkt : Packet) : Prop :=
  let seed := beLoad (pkt.val.drop 172)
  decodeWord (seed - 42#32 * MOO521_DELTA) (dword pkt.val 42)
    = byteSwap (moo521Checksum (moo521Decode pkt))

instance (pkt : Packet) : Decidable (CheckedPacket pkt) := inferInstanceAs (Decidable (_ = _))

def GoodSlot (pkt : Packet) : Prop := pkt = blankPacket ∨ CheckedPacket pkt

instance (pkt : Packet) : Decidable (GoodSlot pkt) := inferInstanceAs (Decidable (_ ∨ _))

/-- A file is empty, or a header that is accepted and exactly the packets it counts, all of them
good. -/
def Layout (bs : List U8) : Prop :=
  bs = [] ∨ ∃ n, (headerAt bs).bind moo521HeaderCount = some n ∧ bs.length = 32 + 176 * n ∧
    ∀ i < n, ∃ pkt, packetAt bs i = some pkt ∧ GoodSlot pkt

theorem checkedPacket_mooPackRecord (data : WorkRecord) : CheckedPacket (mooPackRecord data) := by
  rw [CheckedPacket, mooPackRecord, trailer_encode, moo521Decode_encode]
  exact checkDword_encode ..

/-- The layout of a file that holds good slots. -/
theorem Holds.layout {file : Option (List U8)} {slots : List Packet} (h : Holds file slots)
    (hgood : ∀ pkt ∈ slots, GoodSlot pkt) (mode : Bool) :
    Layout (healthy file mode).disk.bytes := by
  cases h with
  | absent => exact Or.inl rfl
  | empty => exact Or.inl rfl
  | file m =>
    refine Or.inr ⟨m.slots.length, ?_, ?_, fun i hi ↦ ⟨m.slots[i], ?_, ?_⟩⟩
    · exact (congrArg (Option.bind · moo521HeaderCount) m.headerAt_bytes).trans m.count
    · exact (List.length_append ..).trans (by
        rw [length_joined, m.hdr.property, Nat.mul_comm])
    · exact (m.packetAt_bytes i).trans (List.getElem?_eq_getElem hi)
    · exact hgood _ (List.getElem_mem hi)

/-! ## Runs -/

/-- Between calls: no faults, the flag set, and a file that holds good slots. -/
def InOrder (s : BufferState) : Prop :=
  ∃ file slots, s = healthy file true ∧ Holds file slots ∧ ∀ pkt ∈ slots, GoodSlot pkt

theorem InOrder.layout {s : BufferState} (h : InOrder s) : Layout s.disk.bytes := by
  obtain ⟨file, slots, rfl, hfile, hgood⟩ := h
  exact hfile.layout hgood true

private theorem good_set {slots : List Packet} (hgood : ∀ pkt ∈ slots, GoodSlot pkt) (i : ℕ)
    {pkt : Packet} (hpkt : GoodSlot pkt) : ∀ q ∈ slots.set i pkt, GoodSlot q := by
  intro q hq
  rcases List.mem_or_eq_of_mem_set hq with hq | rfl
  · exact hgood q hq
  · exact hpkt

private theorem good_fill {slots : List Packet} (hgood : ∀ pkt ∈ slots, GoodSlot pkt) (i : ℕ)
    {pkt : Packet} (hpkt : GoodSlot pkt) : ∀ q ∈ fill slots i pkt, GoodSlot q := by
  rw [fill]
  split_ifs
  · exact good_set hgood i hpkt
  · intro q hq
    rcases List.mem_append.mp hq with hq | hq
    · exact hgood q hq
    · rw [List.mem_singleton.mp hq]
      exact hpkt

/-- **A call keeps the file in order**, if it is not a put without room. -/
theorem inOrder_exec (c : BufferCall) (s : BufferState) (hs : InOrder s) (hc : c.FindsRoom s) :
    InOrder (c.exec s).2 := by
  obtain ⟨file, slots, rfl, hfile, hgood⟩ := hs
  cases c with
  | put data wantCount flags =>
    obtain ⟨file', hfile', hput⟩ := hfile.put (hfile.room_of_hasRoom hc) data
    rw [BufferCall.exec, hput]
    exact ⟨file', _, rfl, hfile', good_fill hgood _ (Or.inr (checkedPacket_mooPackRecord data))⟩
  | get wantCount flags =>
    rcases hfull : firstFull blankPacket slots with _ | ⟨i, pkt⟩
    · by_cases hflags : LocalFlags flags
      · rw [BufferCall.exec, hfile.get_none hflags hfull]
        exact ⟨some [], [], rfl, .empty, fun _ h ↦ by cases h⟩
      · obtain ⟨rc, file', hfile', hget⟩ := hfile.get_remote hflags hfull wantCount
        rw [BufferCall.exec, hget]
        exact ⟨file', [], rfl, hfile', fun _ h ↦ by cases h⟩
    · obtain ⟨file', hfile', hget⟩ := hfile.get_some hfull
      rw [BufferCall.exec, hget]
      exact ⟨file', _, rfl, hfile', good_set hgood i (Or.inl rfl)⟩
  | count contest =>
    obtain ⟨file', hfile', hcount⟩ := hfile.count contest
    rw [BufferCall.exec, hcount]
    exact ⟨file', slots, rfl, hfile', hgood⟩

/-- **The layout is kept over every run whose puts find room**, from a file without contents. -/
theorem layout_final {file : Option (List U8)} (hfile : file = none ∨ file = some [])
    {calls : List BufferCall}
    (hcalls : Guarded BufferCall.exec BufferCall.FindsRoom calls (healthy file true)) :
    Layout (final BufferCall.exec calls (healthy file true)).disk.bytes := by
  refine InOrder.layout (invariant inOrder_exec ?_ hcalls)
  rcases hfile with rfl | rfl
  · exact ⟨none, [], rfl, .absent, fun _ h ↦ nomatch h⟩
  · exact ⟨some [], [], rfl, .empty, fun _ h ↦ nomatch h⟩

/-! ## A put on a truncated file -/

/-- Packet `i` of a file, filled up with zeros where the file ends. -/
def paddedAt (bs : List U8) (i : ℕ) : Packet :=
  ⟨(List.range 176).map fun k ↦ bs.getD (packetOffset i + k) 0#8, by simp⟩

theorem getD_paddedAt (bs : List U8) (i : ℕ) {k : ℕ} (hk : k < 176) :
    (paddedAt bs i).val.getD k 0#8 = bs.getD (packetOffset i + k) 0#8 := by
  rw [paddedAt, List.getD_eq_getElem _ _ (by simpa using hk), List.getElem_map, List.getElem_range]

/-- A file in which more is written has the padded packets of the old one where nothing was
written. -/
private theorem packetAt_eq_paddedAt {bs bs' : List U8} {i : ℕ}
    (hlen : packetOffset i + 176 ≤ bs'.length)
    (h : ∀ k < 176, bs'.getD (packetOffset i + k) 0#8 = bs.getD (packetOffset i + k) 0#8) :
    packetAt bs' i = some (paddedAt bs i) :=
  packetAt_eq_some.mpr ⟨hlen, fun k hk ↦ by rw [getD_paddedAt bs i hk, h k hk]⟩

/-- What it takes for a put to restore the layout of a file of `c` packets counted: there is room in
the header, no blank packet is present, and every packet is good once it is filled up with zeros. -/
def Restorable (bs : List U8) (c : ℕ) : Prop :=
  c < 0xFFFFFF ∧ (∀ i, packetAt bs i ≠ some blankPacket) ∧ ∀ i < c, GoodSlot (paddedAt bs i)

section Truncated

variable {bs : List U8} {c : ℕ} (hcount : (headerAt bs).bind moo521HeaderCount = some c)
  (hshort : bs.length < 32 + 176 * c)

include hcount

private theorem packetCount_eq : packetCount bs = c := by
  rw [packetCount, hcount, Option.getD_some]

private theorem le_length : 32 ≤ bs.length := by
  obtain ⟨hdr, hhdr, -⟩ := Option.bind_eq_some_iff.mp hcount
  exact ((sliceAt_eq_some (by decide)).mp hhdr).1

include hshort

/-- A blank packet that is left takes the new one, and the file stays as short as it was. -/
private theorem not_layout_of_blank (data : WorkRecord) {j : ℕ}
    (hblank : packetAt bs j = some blankPacket) : ¬Layout (mooPutBytes bs data) := by
  have hpc := packetCount_eq hcount
  have hj : j < c := by
    have hlen := (packetAt_eq_some.mp hblank).1
    rw [packetOffset_eq] at hlen
    omega
  rcases blankSlot_cases bs c c 0 with ⟨-, hno⟩ | ⟨-, hlt, hslot⟩
  · exact absurd hblank (hno j (Nat.zero_le j) (by omega))
  rw [Nat.zero_add] at hlt
  obtain ⟨hdr, hhdr, hc⟩ := Option.bind_eq_some_iff.mp hcount
  have hbytes : mooPutBytes bs data = putPacketAt bs (blankSlot bs c c 0) (mooPackRecord data) := by
    rw [mooPutBytes, hpc]
    exact if_neg (Nat.ne_of_lt hlt)
  have hlen : (mooPutBytes bs data).length = bs.length := by
    have hin := (packetAt_eq_some.mp hslot).1
    rw [hbytes, putPacketAt, length_splice, (mooPackRecord data).property]
    omega
  rintro (hnil | ⟨n, hn, hn', -⟩)
  · exact putPacketAt_ne_nil _ _ _ (hbytes.symm.trans hnil)
  · rw [hbytes, headerAt_putPacketAt hhdr, Option.bind_some, hc] at hn
    obtain rfl := Option.some.inj hn
    omega

/-- Without a blank packet, the put appends behind the last packet counted. -/
private theorem layout_append_iff (data : WorkRecord)
    (hblank : ∀ i, packetAt bs i ≠ some blankPacket) :
    Layout (mooPutBytes bs data) ↔ c < 0xFFFFFF ∧ ∀ i < c, GoodSlot (paddedAt bs i) := by
  have hpc := packetCount_eq hcount
  have hle := le_length hcount
  have hslot : blankSlot bs c c 0 = c := by
    rcases blankSlot_cases bs c c 0 with ⟨heq, -⟩ | ⟨-, -, hfound⟩
    · exact heq
    · exact absurd hfound (hblank _)
  have hceiling : c ≤ 0xFFFFFF := hpc ▸ packetCount_le bs
  set hdr' := moo521MakeHeader (BitVec.ofNat 32 (c + 1)) with hhdr'
  have hbytes : mooPutBytes bs data
      = putPacketAt (splice bs 0 hdr'.val) c (mooPackRecord data) := by
    rw [mooPutBytes, hpc]
    simp only [hslot, if_true, hhdr']
  have hheader : headerAt (mooPutBytes bs data) = some hdr' := by
    rw [hbytes]
    exact headerAt_putPacketAt (headerAt_splice_header ..) ..
  have hlen : (mooPutBytes bs data).length = 32 + 176 * (c + 1) := by
    rw [hbytes, putPacketAt, length_splice, length_splice, hdr'.property,
      (mooPackRecord data).property, packetOffset_eq]
    omega
  have hold : ∀ i < c, packetAt (mooPutBytes bs data) i = some (paddedAt bs i) := by
    intro i hi
    refine packetAt_eq_paddedAt (by rw [hlen, packetOffset_eq]; omega) fun k hk ↦ ?_
    have hbefore : ¬(packetOffset c ≤ packetOffset i + k ∧
        packetOffset i + k < packetOffset c + (mooPackRecord data).val.length) := by
      rw [packetOffset_eq, packetOffset_eq]
      omega
    have hbehind : ¬(0 ≤ packetOffset i + k ∧ packetOffset i + k < 0 + hdr'.val.length) := by
      rw [packetOffset_eq, hdr'.property]
      omega
    rw [hbytes, putPacketAt, getD_splice, if_neg hbefore, getD_splice, if_neg hbehind]
  have hnew : packetAt (mooPutBytes bs data) c = some (mooPackRecord data) := by
    rw [hbytes]
    exact packetAt_putPacketAt_self ..
  constructor
  · rintro (hnil | ⟨n, hn, hn', hgood⟩)
    · rw [hnil, List.length_nil] at hlen
      omega
    · have hnc : n = c + 1 := by omega
      subst hnc
      rw [hheader, Option.bind_some] at hn
      refine ⟨Nat.lt_of_succ_le (moo521HeaderCount_le hn), fun i hi ↦ ?_⟩
      obtain ⟨pkt, hpkt, hpgood⟩ := hgood i (Nat.lt_succ_of_lt hi)
      rw [hold i hi] at hpkt
      rwa [Option.some.inj hpkt]
  · rintro ⟨hlt, hgood⟩
    refine Or.inr ⟨c + 1, ?_, hlen, fun i hi ↦ ?_⟩
    · rw [hheader, Option.bind_some, hhdr', moo521HeaderCount_ofNat hlt]
    · rcases Nat.lt_succ_iff_lt_or_eq.mp hi with hlt' | rfl
      · exact ⟨_, hold i hlt', hgood i hlt'⟩
      · exact ⟨_, hnew, Or.inr (checkedPacket_mooPackRecord data)⟩

/-- **When a put restores the layout of a truncated file.** -/
theorem layout_mooPutBytes_iff (data : WorkRecord) :
    Layout (mooPutBytes bs data) ↔ Restorable bs c := by
  by_cases hblank : ∀ i, packetAt bs i ≠ some blankPacket
  · rw [layout_append_iff hcount hshort data hblank, Restorable]
    exact ⟨fun h ↦ ⟨h.1, hblank, h.2⟩, fun h ↦ ⟨h.1, h.2.2⟩⟩
  · refine iff_of_false ?_ fun h ↦ hblank h.2.1
    simp only [not_forall, not_not] at hblank
    obtain ⟨j, hj⟩ := hblank
    exact not_layout_of_blank hcount hshort data hj

end Truncated

/-- A file whose header is accepted is recognised. -/
theorem isMooFile_of_headerCount {bs : List U8} {c : ℕ}
    (h : (headerAt bs).bind moo521HeaderCount = some c) : isMooFile bs = true := by
  obtain ⟨hdr, hhdr, hc⟩ := Option.bind_eq_some_iff.mp h
  have hget := ((sliceAt_eq_some (by decide)).mp hhdr).2
  simp only [Nat.zero_add] at hget
  have hmagic := isHeader_of_headerCount hc
  rwa [moo521IsHeader, hget 0 (by decide), hget 1 (by decide), hget 2 (by decide),
    hget 3 (by decide)] at hmagic

/-- **When Moo files are in order.** From a file without contents the layout is kept over every run
whose puts find room; and a put on a file that ends before the packets its header counts restores
the layout exactly if there is room in the header, no blank packet is left and every packet is good
once filled up with zeros. -/
theorem layout_of_room {file : Option (List U8)} (hfile : file = none ∨ file = some [])
    (calls : List BufferCall)
    (hroom : Guarded BufferCall.exec BufferCall.FindsRoom calls (healthy file true))
    {bs : List U8} {c : ℕ} (hcount : (headerAt bs).bind moo521HeaderCount = some c)
    (hshort : bs.length < 32 + 176 * c) (data : WorkRecord) (mode wantCount : Bool) (flags : U32) :
    Layout (final BufferCall.exec calls (healthy file true)).disk.bytes ∧
    (Layout (bufferPutFileRecord (healthy (some bs) mode) data wantCount flags).2.disk.bytes ↔
      Restorable bs c) := by
  refine ⟨layout_final hfile hroom, ?_⟩
  rw [put_moo (isMooFile_of_headerCount hcount)]
  exact layout_mooPutBytes_iff hcount hshort data

/-- A put into a new file, and a put into a file of which nothing but the header is left. -/
theorem layout_of_room_header :
    Layout (final BufferCall.exec [.put emptyRecord true BUFFER_FLAGS_NONE]
      (healthy none true)).disk.bytes ∧
    Layout (bufferPutFileRecord (healthy (some (moo521MakeHeader 1#32).val) true) emptyRecord true
      BUFFER_FLAGS_NONE).2.disk.bytes := by
  have hcount : (headerAt (moo521MakeHeader 1#32).val).bind moo521HeaderCount = some 1 := by decide
  have hrestorable : Restorable (moo521MakeHeader 1#32).val 1 := by
    refine ⟨by decide, fun i hi ↦ ?_, fun i hi ↦ ?_⟩
    · have hlen : (moo521MakeHeader 1#32).val.length = 32 := (moo521MakeHeader 1#32).property
      have hend : packetAt (moo521MakeHeader 1#32).val i = none :=
        sliceAt_eq_none.mpr ⟨by rw [hlen, packetOffset]; omega, by decide⟩
      cases hend.symm.trans hi
    · obtain rfl : i = 0 := Nat.lt_one_iff.mp hi
      decide +kernel
  obtain ⟨hruns, hput⟩ := layout_of_room (Or.inl rfl) [.put emptyRecord true BUFFER_FLAGS_NONE]
    ⟨Or.inl (by decide), trivial⟩ hcount (by decide) emptyRecord true true BUFFER_FLAGS_NONE
  exact ⟨hruns, hput.mpr hrestorable⟩

/-! ## Past the ceiling -/

/-- The put of an empty work unit. -/
def putEmpty : BufferCall := .put emptyRecord true BUFFER_FLAGS_NONE

/-- Up to the ceiling, every put appends a packet. -/
theorem final_replicate_putEmpty {n : ℕ} (hn : n ≤ 0xFFFFFF) : ∃ file slots,
    final BufferCall.exec (List.replicate n putEmpty) (healthy none true) = healthy file true ∧
      Holds file slots ∧ slots.length = n ∧ blankPacket ∉ slots := by
  induction n with
  | zero => exact ⟨none, [], rfl, .absent, rfl, List.not_mem_nil⟩
  | succ n ih =>
    obtain ⟨file, slots, hfinal, hfile, hlen, hblank⟩ := ih (Nat.le_of_succ_le hn)
    obtain ⟨file', hfile', hput⟩ := hfile.put (Or.inl (hlen.trans_lt hn)) emptyRecord
    have hend : ¬firstBlank blankPacket slots < slots.length := fun h ↦
      hblank (firstBlank_lt_iff.mp h)
    rw [fill, if_neg hend] at hfile'
    refine ⟨file', _, ?_, hfile', ?_, ?_⟩
    · rw [List.replicate_succ', final_append, hfinal, final, putEmpty, BufferCall.exec, hput]
      rfl
    · rw [List.length_append, hlen, List.length_singleton]
    · intro hmem
      rcases List.mem_append.mp hmem with hmem | hmem
      · exact hblank hmem
      · exact mooPackRecord_ne_blank _ (List.mem_singleton.mp hmem).symm

/-- A put without room writes a header that is not accepted. -/
theorem not_layout_of_not_room {m : MooFile} (h : ¬m.Room) (data : WorkRecord) :
    ¬Layout (mooPutBytes m.bytes data) := by
  simp only [MooFile.Room, not_or, Nat.not_lt] at h
  have hlen : m.slots.length = 0xFFFFFF := Nat.le_antisymm m.length_slots_le h.1
  have hend : blankSlot m.bytes m.slots.length m.slots.length 0 = m.slots.length := by
    rw [m.blankSlot_bytes]
    exact Nat.le_antisymm (firstBlank_le _) (Nat.not_lt.mp fun hlt ↦ h.2 (firstBlank_lt_iff.mp hlt))
  have hbytes : mooPutBytes m.bytes data = putPacketAt (splice m.bytes 0
      (moo521MakeHeader (BitVec.ofNat 32 (0xFFFFFF + 1))).val) 0xFFFFFF (mooPackRecord data) := by
    rw [mooPutBytes, m.packetCount_bytes]
    simp only [hend, if_true]
    rw [hlen]
  have hrejected : moo521HeaderCount (moo521MakeHeader (BitVec.ofNat 32 (0xFFFFFF + 1)))
    = none := by
    rw [moo521HeaderCount_makeHeader, if_pos (by decide)]
  rintro (hnil | ⟨n, hn, -⟩)
  · exact putPacketAt_ne_nil _ _ _ (hbytes.symm.trans hnil)
  · rw [hbytes, headerAt_putPacketAt (headerAt_splice_header ..), Option.bind_some, hrejected] at hn
    cases hn

private theorem not_layout_replicate {n : ℕ} (hn : n = 0xFFFFFF) :
    ¬Layout (final BufferCall.exec (List.replicate (n + 1) putEmpty)
      (healthy none true)).disk.bytes := by
  obtain ⟨file, slots, hfinal, hfile, hlen, hblank⟩ := final_replicate_putEmpty hn.le
  rw [List.replicate_succ', final_append, hfinal]
  cases hfile with
  | absent => exact absurd (hlen.trans hn) (by decide)
  | empty => exact absurd (hlen.trans hn) (by decide)
  | file m =>
    have hroom : ¬m.Room := by
      rintro (hlt | hmem)
      · omega
      · exact hblank hmem
    rw [final, putEmpty, BufferCall.exec, put_moo m.isMooFile_bytes]
    exact not_layout_of_not_room hroom emptyRecord

/-- **The layout is lost** by the put after `0xFFFFFF` puts. -/
theorem not_layout_overfull :
    ∃ calls : List BufferCall, calls.length = 0x1000000 ∧ (∀ c ∈ calls, c = putEmpty) ∧
      ¬Layout (final BufferCall.exec calls (healthy none true)).disk.bytes :=
  ⟨List.replicate (0xFFFFFF + 1) putEmpty, List.length_replicate,
    fun _ hc ↦ List.eq_of_mem_replicate hc, not_layout_replicate rfl⟩

end Hyunjin
