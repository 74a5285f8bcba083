import Hyunjin.Buffer.Conservation

/-!
# Damaged Moo files

Detection looks at four bytes, so the Moo branches are entered for files whose header is rejected,
whose header counts more or fewer packets than there are, or which end in the middle of one. Two
promises are examined for every such content: that a get truncates a file only if nothing is stored
in it, and that a put overwrites no stored packet and leaves a header that covers them all.

Neither holds in general. A get ignores the verdict on the header, and a put takes a rejected header
for an empty file; `truncatesSafely_iff` and `putsSafely_iff` say for exactly which contents the
promises are kept.
-/

namespace Hyunjin

open Word Stdio

/-! ## Truncation -/

/-- Every packet present is blank. -/
def AllBlank (bs : List U8) : Prop := ∀ i pkt, packetAt bs i = some pkt → pkt = blankPacket

/-- A get truncates the file only if nothing is stored in it, and fails without touching it whenever
a count fails. -/
def TruncatesSafely (bs : List U8) : Prop :=
  ∀ (mode wantCount : Bool) (flags contest : U32),
    let s := healthy (some bs) mode
    let got := bufferGetFileRecord s wantCount flags
    (got.2.disk.file = some [] → AllBlank bs) ∧
    ((bufferCountFileRecords s contest).1.rc = -1 → got.1.rc < 0 ∧ got.2.disk.file = some bs)

/-- **When a get keeps stored work.** Either the file is too short for a header, or the header is
accepted and it is not the case that all the packets it counts are blank while one beyond them is
not. -/
theorem truncatesSafely_iff {bs : List U8} (hmoo : isMooFile bs = true) :
    TruncatesSafely bs ↔ bs.length < 32 ∨
      ∃ c, (headerAt bs).bind moo521HeaderCount = some c ∧
        ((∀ i < c, packetAt bs i = some blankPacket) → AllBlank bs) := by
  have hne := ne_nil_of_isMooFile hmoo
  rcases hhdr : headerAt bs with _ | hdr
  · have hshort : bs.length < 32 := by
      have := (sliceAt_eq_none.mp hhdr).1
      omega
    refine iff_of_true (fun mode wantCount flags contest ↦ ?_) (Or.inl hshort)
    simp only [get_moo hmoo, hhdr, if_true, healthy_disk, Option.some.injEq, hne, false_implies,
      true_and]
    exact fun _ ↦ ⟨by decide, trivial⟩
  · have hlong : ¬bs.length < 32 := by
      have := ((sliceAt_eq_some (by decide)).mp hhdr).1
      omega
    have hsome : (some hdr : Option (Bytes 32)) ≠ none := Option.some_ne_none hdr
    rcases hc : moo521HeaderCount hdr with _ | c
    · -- the header is rejected: a count fails, and a get finds no packets and truncates
      have hcount : packetCount bs = 0 := by
        rw [packetCount, hhdr, Option.bind_some, hc, Option.getD_none]
      refine iff_of_false (fun hsafe ↦ ?_) (by simp [hlong, hc])
      have hrc := ((hsafe true true 0#32 0#32).2 (by
        simp only [count_moo hmoo, hhdr, Option.bind_some, hc])).1
      rw [get_of_packetCount_zero hmoo (hhdr ▸ hsome) hcount] at hrc
      exact absurd hrc (by decide)
    · have hcount : packetCount bs = c := by
        rw [packetCount, hhdr, Option.bind_some, hc, Option.getD_some]
      have hscan : mooScan bs c 0 = some none ↔ ∀ i < c, packetAt bs i = some blankPacket := by
        rw [mooScan_eq_all_blank]
        simp
      have hget (mode wantCount : Bool) (flags : U32) :
          (bufferGetFileRecord (healthy (some bs) mode) wantCount flags).2.disk.file = some [] ↔
            mooScan bs c 0 = some none := by
        rw [get_moo hmoo, hhdr, if_neg hsome, hcount]
        rcases mooScan bs c 0 with _ | _ | ⟨j, pkt⟩ <;> simp [hne, putPacketAt_ne_nil]
      have hnofail (mode : Bool) (contest : U32) :
          (bufferCountFileRecords (healthy (some bs) mode) contest).1.rc ≠ -1 := by
        simp [count_moo hmoo, hhdr, hc]
      constructor
      · intro hsafe
        exact Or.inr ⟨c, by rw [Option.bind_some, hc], fun hall ↦
          (hsafe true true 0#32 0#32).1 ((hget _ _ _).mpr (hscan.mpr hall))⟩
      · rintro (hshort | ⟨c', hc', hall⟩) mode wantCount flags contest
        · exact absurd hshort hlong
        · rw [Option.bind_some, hc] at hc'
          obtain rfl := Option.some.inj hc'
          exact ⟨fun htrunc ↦ hall (hscan.mp ((hget _ _ _).mp htrunc)),
            fun hrc ↦ absurd hrc (hnofail mode contest)⟩

theorem truncatesSafely_iff_single : TruncatesSafely (MooFile.single emptyRecord).bytes := by
  refine (truncatesSafely_iff (MooFile.single emptyRecord).isMooFile_bytes).mpr
    (.inr ⟨1, ?_, fun hblank ↦ ?_⟩)
  · rw [MooFile.headerAt_bytes, Option.bind_some, MooFile.count]
    rfl
  · -- the packet that is counted is not blank
    have hpacket := hblank 0 Nat.one_pos
    rw [MooFile.packetAt_bytes] at hpacket
    exact absurd (Option.some.inj hpacket) (mooPackRecord_ne_blank emptyRecord)

/-- A header of version 73, which is rejected. -/
def rejectedHeader : Bytes 32 :=
  ⟨[0x83#8, 0xB6#8, 0x34#8, 0x1A#8, 0#8, 0#8, 0#8, 0x49#8, 0#8, 0#8, 0#8, 1#8] ++
    List.replicate 20 0#8, rfl⟩

/-- A file that holds a packet under a rejected header. -/
def rejectedFile : List U8 := rejectedHeader.val ++ joined [mooPackRecord emptyRecord]

theorem headerAt_rejectedFile : headerAt rejectedFile = some rejectedHeader :=
  sliceAt_append (a := []) (r := joined [mooPackRecord emptyRecord]) rfl rejectedHeader

theorem packetCount_rejectedFile : packetCount rejectedFile = 0 := by
  have hrejected : moo521HeaderCount rejectedHeader = none := by decide
  rw [packetCount, headerAt_rejectedFile, Option.bind_some, hrejected, Option.getD_none]

theorem packetAt_rejectedFile : packetAt rejectedFile 0 = some (mooPackRecord emptyRecord) :=
  sliceAt_joined rejectedHeader.property (by decide) [mooPackRecord emptyRecord] 0

/-- **Stored work is destroyed** when a get meets a rejected header: it truncates the file with the
packet in it. -/
theorem rejected_header_truncates : ¬TruncatesSafely rejectedFile := by
  intro hsafe
  have hmoo : isMooFile rejectedFile = true := rfl
  have hget := get_of_packetCount_zero hmoo (by rw [headerAt_rejectedFile]; simp)
    packetCount_rejectedFile true true 0#32
  have hstored := (hsafe true true 0#32 0#32).1 (by rw [hget]; rfl)
  exact mooPackRecord_ne_blank _ (hstored 0 _ packetAt_rejectedFile)

/-! ## Overwriting -/

/-- Packets that were stored are still there. -/
def KeepsPackets (bs bs' : List U8) : Prop :=
  ∀ i pkt, packetAt bs i = some pkt → pkt ≠ blankPacket → packetAt bs' i = some pkt

/-- The new packet is where there was a blank one, or none at all. -/
def FillsFreeSlot (bs bs' : List U8) (data : WorkRecord) : Prop :=
  ∃ w, packetAt bs' w = some (mooPackRecord data) ∧
    (packetAt bs w = some blankPacket ∨ packetAt bs w = none)

/-- The header is accepted and counts every stored packet. -/
def HeaderCovers (bs : List U8) : Prop :=
  ∃ c, (headerAt bs).bind moo521HeaderCount = some c ∧
    ∀ i pkt, packetAt bs i = some pkt → pkt ≠ blankPacket → i < c

/-- A put that succeeds keeps what is stored, fills a free slot and leaves a header that covers all
packets; one that fails leaves the file unchanged. -/
def PutsSafely (bs : List U8) (data : WorkRecord) : Prop :=
  ∀ (mode wantCount : Bool) (flags : U32),
    let r := bufferPutFileRecord (healthy (some bs) mode) data wantCount flags
    (r.1.rc = 0 → ∃ bs', r.2.disk.file = some bs' ∧
      KeepsPackets bs bs' ∧ FillsFreeSlot bs bs' data ∧ HeaderCovers bs') ∧
    (r.1.rc ≠ 0 → r.1.rc = -1 ∧ r.2.disk.file = some bs)

/-- Since a put on a Moo file always succeeds here, only what it writes matters. -/
theorem putsSafely_iff_bytes {bs : List U8} (hmoo : isMooFile bs = true) (data : WorkRecord) :
    PutsSafely bs data ↔ KeepsPackets bs (mooPutBytes bs data) ∧
      FillsFreeSlot bs (mooPutBytes bs data) data ∧ HeaderCovers (mooPutBytes bs data) := by
  simp only [PutsSafely, put_moo hmoo, healthy_disk, Option.some.injEq, exists_eq_left', ne_eq,
    not_true, false_implies, and_true, forall_const]

/-- No stored packet lies beyond the count a put works with. -/
def CountCovers (bs : List U8) : Prop :=
  ∀ i pkt, packetCount bs ≤ i → packetAt bs i = some pkt → pkt = blankPacket

/-- Filling a blank slot is safe exactly when the count covers what is stored. -/
private theorem fill_safe_iff {bs : List U8} {w : ℕ} (hw : w < packetCount bs)
    (hblank : packetAt bs w = some blankPacket) (data : WorkRecord) :
    (KeepsPackets bs (putPacketAt bs w (mooPackRecord data)) ∧
      FillsFreeSlot bs (putPacketAt bs w (mooPackRecord data)) data ∧
      HeaderCovers (putPacketAt bs w (mooPackRecord data))) ↔ CountCovers bs := by
  have hcount := headerAt_of_packetCount_pos (Nat.zero_lt_of_lt hw)
  obtain ⟨hdr, hhdr, hc⟩ := Option.bind_eq_some_iff.mp hcount
  have hcount' : (headerAt (putPacketAt bs w (mooPackRecord data))).bind moo521HeaderCount
      = some (packetCount bs) := by
    rw [headerAt_putPacketAt hhdr, Option.bind_some, hc]
  have hkeeps : KeepsPackets bs (putPacketAt bs w (mooPackRecord data)) := by
    intro i pkt hpkt hne
    refine packetAt_putPacketAt_of_ne (fun hiw ↦ hne ?_) hpkt
    rw [hiw, hblank] at hpkt
    exact (Option.some.inj hpkt).symm
  constructor
  · rintro ⟨-, -, c, hcc, hcover⟩ i pkt hi hpkt
    obtain rfl := Option.some.inj (hcount'.symm.trans hcc)
    by_contra hne
    exact absurd (hcover i pkt (hkeeps i pkt hpkt hne) hne) (Nat.not_lt.mpr hi)
  · intro hcovers
    refine ⟨hkeeps, ⟨w, packetAt_putPacketAt_self .., Or.inl hblank⟩, _, hcount',
      fun i pkt hpkt hne ↦ ?_⟩
    by_contra hi
    exact hne (hcovers i pkt (by omega) (packetAt_of_putPacketAt (by omega) hpkt))

/-- Appending is safe exactly when, besides, the count is below the ceiling. -/
private theorem append_safe_iff (bs : List U8) (data : WorkRecord) :
    let bs' := putPacketAt (splice bs 0
      (moo521MakeHeader (BitVec.ofNat 32 (packetCount bs + 1))).val) (packetCount bs)
      (mooPackRecord data)
    (KeepsPackets bs bs' ∧ FillsFreeSlot bs bs' data ∧ HeaderCovers bs') ↔
      CountCovers bs ∧ packetCount bs < 0xFFFFFF := by
  intro bs'
  set c := packetCount bs with hcdef
  have hle : c ≤ 0xFFFFFF := packetCount_le bs
  have hnat : (BitVec.ofNat 32 (c + 1)).toNat = c + 1 := Nat.mod_eq_of_lt (by omega)
  have hlt_iff : 0xFFFFFF#32 < BitVec.ofNat 32 (c + 1) ↔ ¬c < 0xFFFFFF := by
    rw [BitVec.lt_def, hnat]
    have hceil : (0xFFFFFF#32).toNat = 0xFFFFFF := rfl
    omega
  have hheader : (headerAt bs').bind moo521HeaderCount
      = if c < 0xFFFFFF then some (c + 1) else none := by
    rw [headerAt_putPacketAt (headerAt_splice_header ..), Option.bind_some,
      moo521HeaderCount_makeHeader, hnat]
    by_cases hc : c < 0xFFFFFF
    · rw [if_neg (fun h ↦ hlt_iff.mp h hc), if_pos hc]
    · rw [if_pos (hlt_iff.mpr hc), if_neg hc]
  have hother {i : ℕ} {pkt : Packet} (hi : i ≠ c) (h : packetAt bs i = some pkt) :
      packetAt bs' i = some pkt :=
    packetAt_putPacketAt_of_ne hi (by rw [packetAt_splice_header, h])
  have hself : packetAt bs' c = some (mooPackRecord data) := packetAt_putPacketAt_self ..
  have hbeyond {i : ℕ} {pkt : Packet} (hi : c < i) (h : packetAt bs' i = some pkt) :
      packetAt bs i = some pkt := by
    have := packetAt_of_putPacketAt hi h
    rwa [packetAt_splice_header] at this
  constructor
  · rintro ⟨hkeeps, ⟨w, hw, hfree⟩, c', hc', hcover⟩
    rw [hheader] at hc'
    have hlt : c < 0xFFFFFF := by
      by_contra hge
      rw [if_neg hge] at hc'
      exact nomatch hc'
    rw [if_pos hlt] at hc'
    obtain rfl := Option.some.inj hc'
    refine ⟨fun i pkt hi hpkt ↦ ?_, hlt⟩
    by_contra hne
    rcases Nat.eq_or_lt_of_le hi with rfl | hgt
    · -- the stored packet in slot `c` was overwritten, so the free slot that was filled is another
      have hwc : w ≠ c := by
        rintro rfl
        rcases hfree with hfree | hfree <;> rw [hpkt] at hfree
        · exact hne (Option.some.inj hfree)
        · exact nomatch hfree
      rcases hfree with hfree | hfree
      · rw [hother hwc hfree] at hw
        exact mooPackRecord_ne_blank data (Option.some.inj hw).symm
      · have hgt : c < w := by
          by_contra hwle
          have := packetAt_none_of_le (by omega : w ≤ c) hfree
          rw [hpkt] at this
          exact nomatch this
        rw [hbeyond hgt hw] at hfree
        exact nomatch hfree
    · have := hcover i pkt (hother (Nat.ne_of_gt hgt) hpkt) hne
      omega
  · rintro ⟨hcovers, hlt⟩
    rw [if_pos hlt] at hheader
    have hfree : packetAt bs c = some blankPacket ∨ packetAt bs c = none := by
      rcases hp : packetAt bs c with _ | pkt
      · exact Or.inr rfl
      · exact Or.inl (congrArg some (hcovers c pkt (Nat.le_refl c) hp))
    refine ⟨fun i pkt hpkt hne ↦ hother ?_ hpkt, ⟨c, hself, hfree⟩, c + 1, hheader,
      fun i pkt hpkt hne ↦ ?_⟩
    · rintro rfl
      exact hne (hcovers _ pkt (Nat.le_refl _) hpkt)
    · by_contra hi
      exact hne (hcovers i pkt (by omega) (hbeyond (by omega) hpkt))

/-- **When a put keeps stored work.** No packet beyond the header's count is stored, where a header
that is rejected or cut off counts none, and either the count is below its ceiling or a blank slot
is counted. -/
theorem putsSafely_iff {bs : List U8} (hmoo : isMooFile bs = true) (data : WorkRecord) :
    PutsSafely bs data ↔ CountCovers bs ∧
      (packetCount bs < 0xFFFFFF ∨ ∃ i < packetCount bs, packetAt bs i = some blankPacket) := by
  rw [putsSafely_iff_bytes hmoo, mooPutBytes]
  rcases blankSlot_cases bs (packetCount bs) (packetCount bs) 0 with ⟨heq, hno⟩ | ⟨-, hlt, hblank⟩
  · have hnone : ¬∃ i < packetCount bs, packetAt bs i = some blankPacket := by
      rintro ⟨i, hi, hblank⟩
      exact hno i (Nat.zero_le i) (by omega) hblank
    simp only [heq, if_true]
    exact (append_safe_iff bs data).trans (by rw [or_iff_left hnone])
  · rw [Nat.zero_add] at hlt
    simp only [Nat.ne_of_lt hlt, if_false]
    rw [fill_safe_iff hlt hblank, and_iff_left (Or.inr ⟨_, hlt, hblank⟩)]

theorem putsSafely_iff_single : PutsSafely (MooFile.single emptyRecord).bytes emptyRecord := by
  refine (putsSafely_iff (MooFile.single emptyRecord).isMooFile_bytes emptyRecord).mpr
    ⟨fun i pkt hle hpkt ↦ ?_, .inl ?_⟩
  · -- there is no packet behind the one that is counted
    rw [MooFile.packetCount_bytes] at hle
    rw [MooFile.packetAt_bytes, List.getElem?_eq_none hle] at hpkt
    exact nomatch hpkt
  · rw [MooFile.packetCount_bytes]
    decide

/-- **Stored work is overwritten** when a put meets a rejected header: it takes the file for an
empty one and writes over the packet in it. -/
theorem rejected_header_overwrites : ¬PutsSafely rejectedFile emptyRecord := by
  have hslot : blankSlot rejectedFile (packetCount rejectedFile) (packetCount rejectedFile) 0
      = packetCount rejectedFile := by
    rw [packetCount_rejectedFile]
    rfl
  rw [putsSafely_iff_bytes rfl, mooPutBytes]
  simp only [hslot, if_true]
  intro hsafe
  have hcovers := ((append_safe_iff rejectedFile emptyRecord).mp hsafe).1
  exact mooPackRecord_ne_blank _
    (hcovers 0 _ (by rw [packetCount_rejectedFile]) packetAt_rejectedFile)

end Hyunjin
