import Hyunjin.Buffer.Effect

/-!
# Packets of an arbitrary file

The Moo branches are entered on the strength of four bytes, so they meet files whose header is
rejected, whose header counts more or fewer packets than there are, or which end in the middle of
one. The lemmas here follow single packets through such a file: what writing a packet or a header
leaves of the others, where the scans of a get and of a put end up, and when a put leaves a header
that the next call accepts.
-/

namespace Hyunjin

open Word Stdio

/-! ## Reading after writing -/

theorem packetAt_eq_some {bs : List U8} {i : ℕ} {pkt : Packet} : packetAt bs i = some pkt ↔
    packetOffset i + 176 ≤ bs.length ∧
      ∀ k < 176, pkt.val.getD k 0#8 = bs.getD (packetOffset i + k) 0#8 :=
  sliceAt_eq_some (by decide)

theorem packetOffset_eq (i : ℕ) : packetOffset i = 32 + i * 176 := rfl

/-- Packets are present up to some point. -/
theorem packetAt_none_of_le {bs : List U8} {i j : ℕ} (hij : i ≤ j) (h : packetAt bs i = none) :
    packetAt bs j = none := by
  rw [packetAt, sliceAt_eq_none, packetOffset_eq] at h ⊢
  have := Nat.mul_le_mul_right 176 hij
  omega

/-- Packets beyond the one that was written are those that were there. -/
theorem packetAt_of_putPacketAt {bs : List U8} {w j : ℕ} {pkt q : Packet} (hj : w < j)
    (h : packetAt (putPacketAt bs w pkt) j = some q) : packetAt bs j = some q := by
  have hoff : packetOffset w + 176 ≤ packetOffset j := by
    rw [packetOffset_eq, packetOffset_eq]
    omega
  rw [packetAt_eq_some] at h ⊢
  rw [putPacketAt, length_splice, pkt.property] at h
  refine ⟨by omega, fun k hk ↦ ?_⟩
  have hout : ¬(packetOffset w ≤ packetOffset j + k ∧
      packetOffset j + k < packetOffset w + pkt.val.length) := by rw [pkt.property]; omega
  rw [h.2 k hk, getD_splice, if_neg hout]

/-- Packets do not see the header. -/
theorem packetAt_splice_header (bs : List U8) (hdr : Bytes 32) (j : ℕ) :
    packetAt (splice bs 0 hdr.val) j = packetAt bs j := by
  refine Option.ext fun q ↦ ?_
  rw [packetAt_eq_some, packetAt_eq_some, length_splice, hdr.property, packetOffset_eq]
  refine and_congr (by omega) (forall_congr' fun k ↦ imp_congr_right fun _ ↦ ?_)
  have hout : ¬(0 ≤ 32 + j * 176 + k ∧ 32 + j * 176 + k < 0 + hdr.val.length) := by
    rw [hdr.property]
    omega
  rw [getD_splice, if_neg hout]

theorem headerAt_putPacketAt {bs : List U8} {hdr : Bytes 32} (h : headerAt bs = some hdr) (w : ℕ)
    (pkt : Packet) : headerAt (putPacketAt bs w pkt) = some hdr :=
  sliceAt_splice_of_le (by decide) (Or.inl (by rw [packetOffset_eq]; omega)) h

theorem headerAt_splice_header (bs : List U8) (hdr : Bytes 32) :
    headerAt (splice bs 0 hdr.val) = some hdr := sliceAt_splice_self bs 0 (by decide) hdr

theorem putPacketAt_ne_nil (bs : List U8) (w : ℕ) (pkt : Packet) : putPacketAt bs w pkt ≠ [] := by
  intro h
  have hlen := congrArg List.length h
  rw [putPacketAt, length_splice, pkt.property, List.length_nil] at hlen
  omega

theorem isMooFile_putPacketAt {bs : List U8} (h : isMooFile bs = true) (w : ℕ) (pkt : Packet) :
    isMooFile (putPacketAt bs w pkt) = true := by
  have hget (i : ℕ) (hi : i < 4) : (putPacketAt bs w pkt).getD i 0#8 = bs.getD i 0#8 := by
    have hout : ¬(packetOffset w ≤ i ∧ i < packetOffset w + pkt.val.length) := by
      rw [packetOffset_eq]
      omega
    rw [putPacketAt, getD_splice, if_neg hout]
  rw [isMooFile, moo521IsHeader] at h ⊢
  rw [hget 0 (by decide), hget 1 (by decide), hget 2 (by decide), hget 3 (by decide), h]

theorem isMooFile_splice_header (bs : List U8) (count : U32) :
    isMooFile (splice bs 0 (moo521MakeHeader count).val) = true := by
  have hget (i : ℕ) (hi : i < 4) : (splice bs 0 (moo521MakeHeader count).val).getD i 0#8
      = (moo521MakeHeader count).val.getD i 0#8 := by
    have hin : 0 ≤ i ∧ i < 0 + (moo521MakeHeader count).val.length := by
      rw [(moo521MakeHeader count).property]
      omega
    rw [getD_splice, if_pos hin, Nat.sub_zero]
  rw [isMooFile, moo521IsHeader, hget 0 (by decide), hget 1 (by decide), hget 2 (by decide),
    hget 3 (by decide)]
  rfl

theorem ne_nil_of_isMooFile {bs : List U8} (h : isMooFile bs = true) : bs ≠ [] := by
  rintro rfl
  exact Bool.false_ne_true h

/-! ## The count -/

theorem headerAt_of_packetCount_pos {bs : List U8} (h : 0 < packetCount bs) :
    (headerAt bs).bind moo521HeaderCount = some (packetCount bs) := by
  rw [packetCount] at h ⊢
  rcases hc : (headerAt bs).bind moo521HeaderCount with _ | c
  · rw [hc] at h
    exact absurd h (Nat.lt_irrefl 0)
  · rfl

theorem packetCount_le (bs : List U8) : packetCount bs ≤ 0xFFFFFF := by
  rcases Nat.eq_zero_or_pos (packetCount bs) with h | h
  · omega
  · obtain ⟨hdr, -, hc⟩ := Option.bind_eq_some_iff.mp (headerAt_of_packetCount_pos h)
    exact moo521HeaderCount_le hc

/-- A get truncates a file whose header it reads as counting no packets. -/
theorem get_of_packetCount_zero {bs : List U8} (hmoo : isMooFile bs = true)
    (hheader : headerAt bs ≠ none) (hcount : packetCount bs = 0) (mode wantCount : Bool)
    (flags : U32) :
    bufferGetFileRecord (healthy (some bs) mode) wantCount flags =
      (⟨1, none, if wantCount then some 0 else none⟩, healthy (some []) true) := by
  rw [get_moo hmoo, if_neg hheader, hcount]
  rfl

/-! ## Where the scans end -/

theorem mooScan_eq_all_blank {bs : List U8} {left i : ℕ} : mooScan bs left i = some none ↔
    ∀ j, i ≤ j → j < i + left → packetAt bs j = some blankPacket := by
  induction left generalizing i with
  | zero =>
    refine iff_of_true rfl fun j hij hj ↦ ?_
    omega
  | succ left ih =>
    rw [mooScan]
    constructor
    · intro h j hij hj
      rcases hp : packetAt bs i with _ | pkt
      · rw [hp] at h
        cases h
      · by_cases hb : pkt = blankPacket
        · simp only [hp, if_pos hb] at h
          rcases Nat.eq_or_lt_of_le hij with rfl | hlt
          · rw [hp, hb]
          · exact ih.mp h j hlt (by omega)
        · simp only [hp, if_neg hb] at h
          cases h
    · intro h
      simp only [h i (Nat.le_refl i) (by omega), if_true]
      exact ih.mpr fun j hij hj ↦ h j (by omega) (by omega)

/-- The scan of a get finds the packet that only blank ones precede. -/
theorem mooScan_eq_some {bs : List U8} {left i j : ℕ} {pkt : Packet} (hij : i ≤ j)
    (hj : j < i + left) (hblank : ∀ k, i ≤ k → k < j → packetAt bs k = some blankPacket)
    (hpkt : packetAt bs j = some pkt) (hne : pkt ≠ blankPacket) :
    mooScan bs left i = some (some (j, pkt)) := by
  induction left generalizing i with
  | zero => omega
  | succ left ih =>
    rw [mooScan]
    rcases Nat.eq_or_lt_of_le hij with rfl | hlt
    · simp only [hpkt, if_neg hne]
    · simp only [hblank i (Nat.le_refl i) hlt, if_true]
      exact ih hlt (by omega) fun k hk hkj ↦ hblank k (by omega) hkj

theorem packetAt_of_mooScan {bs : List U8} {left i j : ℕ} {pkt : Packet}
    (h : mooScan bs left i = some (some (j, pkt))) :
    packetAt bs j = some pkt ∧ pkt ≠ blankPacket ∧ j < i + left := by
  induction left generalizing i with
  | zero => cases h
  | succ left ih =>
    rw [mooScan] at h
    rcases hp : packetAt bs i with _ | q
    · rw [hp] at h
      cases h
    · by_cases hb : q = blankPacket
      · simp only [hp, if_pos hb] at h
        obtain ⟨hpkt, hne, hlt⟩ := ih h
        exact ⟨hpkt, hne, by omega⟩
      · simp only [hp, if_neg hb, Option.some.injEq, Prod.mk.injEq] at h
        obtain ⟨rfl, rfl⟩ := h
        exact ⟨hp, hb, by omega⟩

theorem le_of_mooScan {bs : List U8} {left i j : ℕ} {pkt : Packet}
    (h : mooScan bs left i = some (some (j, pkt))) : i ≤ j := by
  induction left generalizing i with
  | zero => cases h
  | succ left ih =>
    rw [mooScan] at h
    rcases hp : packetAt bs i with _ | q
    · rw [hp] at h
      cases h
    · by_cases hb : q = blankPacket
      · simp only [hp, if_pos hb] at h
        exact (Nat.le_succ i).trans (ih h)
      · simp only [hp, if_neg hb, Option.some.injEq, Prod.mk.injEq] at h
        exact h.1.le

/-- What a get does when the scan finds a packet. -/
theorem get_of_mooScan {bs : List U8} (hmoo : isMooFile bs = true) {j : ℕ} {pkt : Packet}
    (h : mooScan bs (packetCount bs) 0 = some (some (j, pkt))) (mode wantCount : Bool)
    (flags : U32) : ∃ countP, bufferGetFileRecord (healthy (some bs) mode) wantCount flags =
      (⟨0, some (mooUnpackRecord pkt), countP⟩,
        healthy (some (putPacketAt bs j blankPacket)) true) := by
  have hhdr : headerAt bs ≠ none := by
    intro hnone
    have hcount : packetCount bs = 0 := by
      rw [packetCount, hnone, Option.bind_none, Option.getD_none]
    rw [hcount] at h
    cases h
  rw [get_moo hmoo, if_neg hhdr, h]
  exact ⟨_, rfl⟩

theorem blankSlot_cases (bs : List U8) (reccount left i : ℕ) :
    (blankSlot bs reccount left i = reccount ∧
      ∀ j, i ≤ j → j < i + left → packetAt bs j ≠ some blankPacket) ∨
    (i ≤ blankSlot bs reccount left i ∧ blankSlot bs reccount left i < i + left ∧
      packetAt bs (blankSlot bs reccount left i) = some blankPacket) := by
  induction left generalizing i with
  | zero => exact Or.inl ⟨rfl, fun j hij hj ↦ by omega⟩
  | succ left ih =>
    rw [blankSlot]
    rcases hp : packetAt bs i with _ | pkt
    · -- nothing is present from here on
      exact Or.inl ⟨rfl, fun j hij _ ↦ by simp [packetAt_none_of_le hij hp]⟩
    · by_cases hb : pkt = blankPacket
      · simp only [if_pos hb]
        exact Or.inr ⟨Nat.le_refl i, by omega, by rw [hp, hb]⟩
      · simp only [if_neg hb]
        rcases ih (i + 1) with ⟨heq, hno⟩ | ⟨hge, hlt, hblank⟩
        · refine Or.inl ⟨heq, fun j hij hj ↦ ?_⟩
          rcases Nat.eq_or_lt_of_le hij with rfl | hlt
          · rw [hp]
            exact fun h ↦ hb (Option.some.inj h)
          · exact hno j hlt (by omega)
        · exact Or.inr ⟨by omega, by omega, hblank⟩

/-- A put finds a header count below the ceiling, or a blank slot to fill. -/
def HasRoom (s : BufferState) : Prop :=
  packetCount s.disk.bytes < 0xFFFFFF ∨
    ∃ i < packetCount s.disk.bytes, packetAt s.disk.bytes i = some blankPacket

instance (s : BufferState) : Decidable (HasRoom s) := inferInstanceAs (Decidable (_ ∨ _))

/-! ## After a put -/

theorem packetCount_of_header {bs : List U8} {hdr : Bytes 32} (h : headerAt bs = some hdr) :
    packetCount bs = (moo521HeaderCount hdr).getD 0 := by
  rw [packetCount, h, Option.bind_some]

/-- A header for fewer than `0x1000000` packets is read back as it was written. -/
theorem moo521HeaderCount_ofNat {n : ℕ} (h : n ≤ 0xFFFFFF) :
    moo521HeaderCount (moo521MakeHeader (BitVec.ofNat 32 n)) = some n := by
  have hnat : (BitVec.ofNat 32 n).toNat = n := Nat.mod_eq_of_lt (by omega)
  have hle : ¬0xFFFFFF#32 < BitVec.ofNat 32 n := by
    rw [BitVec.lt_def, hnat]
    exact Nat.not_lt.mpr h
  rw [moo521HeaderCount_makeHeader, if_neg hle, hnat]

theorem isMooFile_mooPutBytes {bs : List U8} (h : bs = [] ∨ isMooFile bs = true)
    (data : WorkRecord) : isMooFile (mooPutBytes bs data) = true := by
  rw [mooPutBytes]
  split_ifs with hw
  · exact isMooFile_putPacketAt (isMooFile_splice_header ..) ..
  · refine isMooFile_putPacketAt (h.resolve_left ?_) ..
    rintro rfl
    exact hw rfl

/-- The packet that was put is where the scan for a blank slot ended. -/
theorem packetAt_mooPutBytes (bs : List U8) (data : WorkRecord) :
    packetAt (mooPutBytes bs data) (blankSlot bs (packetCount bs) (packetCount bs) 0)
      = some (mooPackRecord data) := by
  rw [mooPutBytes]
  split_ifs <;> exact packetAt_putPacketAt_self ..

/-- A put with room leaves a header that counts the packet it put. -/
theorem blankSlot_lt_packetCount {bs : List U8}
    (hroom : packetCount bs < 0xFFFFFF ∨ ∃ i < packetCount bs, packetAt bs i = some blankPacket)
    (data : WorkRecord) :
    blankSlot bs (packetCount bs) (packetCount bs) 0 < packetCount (mooPutBytes bs data) := by
  rw [mooPutBytes]
  rcases blankSlot_cases bs (packetCount bs) (packetCount bs) 0 with ⟨heq, hno⟩ | ⟨-, hlt, -⟩
  · have hbelow : packetCount bs < 0xFFFFFF := by
      refine hroom.resolve_right ?_
      rintro ⟨i, hi, hblank⟩
      exact hno i (Nat.zero_le i) (by omega) hblank
    simp only [heq, if_true]
    rw [packetCount_of_header (headerAt_putPacketAt (headerAt_splice_header ..) ..),
      moo521HeaderCount_ofNat hbelow]
    exact Nat.lt_succ_self _
  · rw [Nat.zero_add] at hlt
    obtain ⟨hdr, hhdr, hc⟩ :=
      Option.bind_eq_some_iff.mp (headerAt_of_packetCount_pos (Nat.zero_lt_of_lt hlt))
    simp only [Nat.ne_of_lt hlt, if_false]
    rw [packetCount_of_header (headerAt_putPacketAt hhdr ..), hc]
    exact hlt

/-- A put without room goes to a slot that no header counts. -/
theorem blankSlot_without_room {bs : List U8}
    (h : ¬(packetCount bs < 0xFFFFFF ∨
      ∃ i < packetCount bs, packetAt bs i = some blankPacket)) :
    blankSlot bs (packetCount bs) (packetCount bs) 0 = 0xFFFFFF := by
  simp only [not_or, not_exists, not_and] at h
  have hcount : packetCount bs = 0xFFFFFF := Nat.le_antisymm (packetCount_le bs) (by omega)
  rcases blankSlot_cases bs (packetCount bs) (packetCount bs) 0 with ⟨heq, -⟩ | ⟨-, hlt, hblank⟩
  · rw [heq, hcount]
  · exact absurd hblank (h.2 _ (by omega))

end Hyunjin
