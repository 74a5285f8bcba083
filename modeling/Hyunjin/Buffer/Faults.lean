import Hyunjin.Buffer.Conservation

/-!
# Moo branches on a failing disk

Any seek, read or write of a get or a put on a Moo file may fail. Two writes are not checked: the
one that blanks the packet a get delivers, and the one that counts a new packet in the header. And a
put that appends counts the packet in the header before it is there.

So a get may deliver a packet and leave it in the file (`BlankingFails`), and a put may fail and
leave a header that counts one packet more (`TornAppend`). These are the only ways in which the file
is not what the return value says (`mooKeeps_iff`).
-/

namespace Hyunjin

open Word Stdio Slots

/-- Whether the fallible call after `k` others fails. -/
def Stdio.Disk.failsAt (d : Disk) (k : ℕ) : Bool := d.faults.getD k false

/-- The packets that a file stores: those its header counts that are there and not blank. -/
def countedPackets (bs : List U8) : Multiset Packet :=
  contents blankPacket ((List.range (packetCount bs)).filterMap (packetAt bs))

/-- The stored packets and the header count are what they were. -/
def KeepsStored (bs bs' : List U8) : Prop :=
  packetCount bs' = packetCount bs ∧ countedPackets bs' = countedPackets bs

theorem KeepsStored.refl (bs : List U8) : KeepsStored bs bs := ⟨rfl, rfl⟩

theorem KeepsStored.trans {bs bs' bs'' : List U8} (h : KeepsStored bs bs')
    (h' : KeepsStored bs' bs'') : KeepsStored bs bs'' := ⟨h'.1.trans h.1, h'.2.trans h.2⟩

theorem keepsStored_of_zero {bs bs' : List U8} (h : packetCount bs = 0) (h' : packetCount bs' = 0) :
    KeepsStored bs bs' := by
  rw [KeepsStored, countedPackets, countedPackets, h, h']
  exact ⟨rfl, rfl⟩

/-- A header that is written over the old one is read back as long as it counts no more than the
reader accepts. -/
theorem packetCount_splice_header (bs : List U8) {c : ℕ} (hc : c ≤ 0x1000000) :
    packetCount (splice bs 0 (moo521MakeHeader (BitVec.ofNat 32 c)).val) =
      if c ≤ 0xFFFFFF then c else 0 := by
  have hnat : (BitVec.ofNat 32 c).toNat = c := Nat.mod_eq_of_lt (by omega)
  have hlt : 0xFFFFFF#32 < BitVec.ofNat 32 c ↔ ¬c ≤ 0xFFFFFF := by
    rw [BitVec.lt_def, hnat, Nat.not_le]
    rfl
  rw [packetCount, headerAt_splice_header, Option.bind_some, moo521HeaderCount_makeHeader, hnat]
  by_cases hle : c ≤ 0xFFFFFF
  · rw [if_neg fun h ↦ hlt.mp h hle, if_pos hle]
    rfl
  · rw [if_pos (hlt.mpr hle), if_neg hle]
    rfl

/-- A new header alone keeps what is stored exactly if it counts what the old one did. -/
theorem keepsStored_header_iff {bs : List U8} {r : ℕ} (hr : r = packetCount bs ∨ r = 0) :
    KeepsStored bs (splice bs 0 (moo521MakeHeader (BitVec.ofNat 32 (r + 1))).val) ↔
      r + 1 = packetCount bs := by
  have hle : r ≤ 0xFFFFFF := by
    have := packetCount_le bs
    omega
  rw [KeepsStored, packetCount_splice_header bs (by omega)]
  constructor
  · rintro ⟨hcount, -⟩
    split_ifs at hcount with hmax
    · exact hcount
    · omega
  · intro hcount
    have hmax : r + 1 ≤ 0xFFFFFF := hcount ▸ packetCount_le bs
    rw [if_pos hmax, countedPackets, packetCount_splice_header bs (by omega), if_pos hmax, hcount,
      funext (packetAt_splice_header bs _)]
    exact ⟨rfl, rfl⟩

/-! ## Calls that fail and calls that do not

The calls of a branch are numbered by the faults that they consume: before call `n` the faults to
come are `faults.drop n`. -/

section Calls

variable {f : Option (List U8)} {bs : List U8} {faults : List Bool} {n : ℕ} (p : ℕ)

private theorem fails_drop :
    Disk.fails ⟨f, p, faults.drop n⟩ = faults.getD n false := by
  rw [Disk.fails, List.headD_eq_head?_getD, List.head?_drop, List.getD_eq_getElem?_getD]

private theorem tick_drop : Disk.tick ⟨f, p, faults.drop n⟩ = ⟨f, p, faults.drop (n + 1)⟩ := by
  rw [Disk.tick, List.tail_drop]

private theorem fseek_failing (h : faults.getD n false = true) (offset : ℕ) :
    Disk.fseek ⟨f, p, faults.drop n⟩ offset = (false, ⟨f, p, faults.drop (n + 1)⟩) := by
  rw [Disk.fseek, fails_drop, tick_drop, if_pos h]

private theorem fseek_working (h : faults.getD n false = false) (offset : ℕ) :
    Disk.fseek ⟨f, p, faults.drop n⟩ offset = (true, ⟨f, offset, faults.drop (n + 1)⟩) := by
  rw [Disk.fseek, fails_drop, tick_drop, if_neg (ne_true_of_eq_false h)]

private theorem fread_failing (h : faults.getD n false = true) (size : ℕ) :
    Disk.fread ⟨f, p, faults.drop n⟩ size = (none, ⟨f, p, faults.drop (n + 1)⟩) := by
  rw [Disk.fread, fails_drop, tick_drop, if_pos h]

private theorem fread_working (h : faults.getD n false = false) (size : ℕ) :
    Disk.fread ⟨some bs, p, faults.drop n⟩ size
      = (sliceAt bs p size,
        ⟨some bs, p + min size (bs.length - p), faults.drop (n + 1)⟩) := by
  rw [Disk.fread, fails_drop, tick_drop, if_neg (ne_true_of_eq_false h)]
  rfl

private theorem fwrite_failing (h : faults.getD n false = true) (data : List U8) :
    Disk.fwrite ⟨f, p, faults.drop n⟩ data = (false, ⟨f, p, faults.drop (n + 1)⟩) := by
  rw [Disk.fwrite, fails_drop, tick_drop, if_pos h]

private theorem fwrite_working (h : faults.getD n false = false) (data : List U8) :
    Disk.fwrite ⟨some bs, p, faults.drop n⟩ data
      = (true, ⟨some (splice bs p data), p + data.length, faults.drop (n + 1)⟩) := by
  rw [Disk.fwrite, fails_drop, tick_drop, if_neg (ne_true_of_eq_false h)]
  rfl

end Calls

/-! ## Gets -/

/-- A get that delivers a packet has blanked its slot and no other; one that fails has changed
nothing. -/
structure GetKeeps (s : BufferState) (r : GetReturn × BufferState) : Prop where
  blanked : r.1.rc = 0 → ∃ i pkt, packetAt s.disk.bytes i = some pkt ∧ pkt ≠ blankPacket ∧
    r.1.data = some (mooUnpackRecord pkt) ∧ packetAt r.2.disk.bytes i = some blankPacket ∧
    ∀ j q, j ≠ i → packetAt s.disk.bytes j = some q → packetAt r.2.disk.bytes j = some q
  failed : r.1.rc < 0 → KeepsStored s.disk.bytes r.2.disk.bytes

/-- There is a packet to deliver, every call up to the write that blanks it succeeds, and that write
fails. A get seeks and reads the header, then each packet in turn, and seeks back to the one it
delivers. -/
def BlankingFails (d : Disk) : Prop :=
  ∃ j pkt, mooScan d.bytes (packetCount d.bytes) 0 = some (some (j, pkt)) ∧
    (∀ k < 2 * j + 5, d.failsAt k = false) ∧ d.failsAt (2 * j + 5) = true

section Loop

variable {bs : List U8} {faults : List Bool}

/-- Reading a slot: it fails and leaves the file alone, it finds the slot blank, or it delivers the
packet there and blanks it if the write succeeds. -/
private theorem mooReadOneRecord_cases (bs : List U8) (i p n : ℕ) : ∃ q m,
    (mooReadOneRecord ⟨some bs, p, faults.drop n⟩ i = (.ioError, ⟨some bs, q, faults.drop m⟩) ∧
      ((∃ k < 3, faults.getD (n + k) false = true) ∨ packetAt bs i = none)) ∨
    (mooReadOneRecord ⟨some bs, p, faults.drop n⟩ i = (.blank, ⟨some bs, q, faults.drop (n + 2)⟩) ∧
      packetAt bs i = some blankPacket ∧ ∀ k < 2, faults.getD (n + k) false = false) ∨
    ∃ pkt, packetAt bs i = some pkt ∧ pkt ≠ blankPacket ∧
      (∀ k < 3, faults.getD (n + k) false = false) ∧
      mooReadOneRecord ⟨some bs, p, faults.drop n⟩ i =
        (.record (mooUnpackRecord pkt), ⟨some (if faults.getD (n + 3) false = true then bs
          else putPacketAt bs i blankPacket), q, faults.drop m⟩) := by
  rcases h0 : faults.getD n false with _ | _
  · rcases h1 : faults.getD (n + 1) false with _ | _
    · have hread : Disk.fread ⟨some bs, packetOffset i, faults.drop (n + 1)⟩ 176
        = (packetAt bs i, _) :=
        fread_working (packetOffset i) h1 176
      rcases hp : packetAt bs i with _ | pkt
      · simp only [mooReadOneRecord, fseek_working p h0, hread, hp]
        exact ⟨_, _, Or.inl ⟨rfl, Or.inr trivial⟩⟩
      by_cases hb : pkt = blankPacket
      · simp only [mooReadOneRecord, fseek_working p h0, hread, hp, if_pos hb]
        refine ⟨_, 0, Or.inr (Or.inl ⟨rfl, congrArg some hb, fun k hk ↦ ?_⟩)⟩
        rcases Nat.le_one_iff_eq_zero_or_eq_one.mp (Nat.le_of_lt_succ hk) with rfl | rfl
        · exact h0
        · exact h1
      · rcases h2 : faults.getD (n + 2) false with _ | _
        · have hok : ∀ k < 3, faults.getD (n + k) false = false := by
            intro k hk
            interval_cases k
            · exact h0
            · exact h1
            · exact h2
          simp only [mooReadOneRecord, fseek_working p h0, hread, hp, if_neg hb, fseek_working _ h2]
          rcases h3 : faults.getD (n + 3) false with _ | _
          · rw [fwrite_working _ h3]
            exact ⟨_, _, Or.inr (Or.inr ⟨pkt, rfl, hb, hok, rfl⟩)⟩
          · rw [fwrite_failing _ h3]
            exact ⟨_, _, Or.inr (Or.inr ⟨pkt, rfl, hb, hok, rfl⟩)⟩
        · simp only [mooReadOneRecord, fseek_working p h0, hread, hp, if_neg hb, fseek_failing _ h2]
          exact ⟨_, _, Or.inl ⟨rfl, Or.inl ⟨2, by decide, h2⟩⟩⟩
    · simp only [mooReadOneRecord, fseek_working p h0, fread_failing _ h1]
      exact ⟨_, _, Or.inl ⟨rfl, Or.inl ⟨1, by decide, h1⟩⟩⟩
  · simp only [mooReadOneRecord, fseek_failing p h0]
    exact ⟨_, _, Or.inl ⟨rfl, Or.inl ⟨0, by decide, h0⟩⟩⟩

/-- What the loop of a get does: it delivers the packet that the scan finds if nothing fails before,
and otherwise leaves the file alone. -/
private theorem mooGetLoop_cases (bs : List U8) (left i p n : ℕ) : ∃ q m,
    (∃ l pkt, mooScan bs left i = some (some (i + l, pkt)) ∧
      (∀ k < 2 * l + 3, faults.getD (n + k) false = false) ∧
      mooGetLoop left i ⟨some bs, p, faults.drop n⟩ =
        (.record (mooUnpackRecord pkt), ⟨some (if faults.getD (n + (2 * l + 3)) false = true then bs
          else putPacketAt bs (i + l) blankPacket), q, faults.drop m⟩)) ∨
    ∃ r, (∀ data, r ≠ .record data) ∧
      mooGetLoop left i ⟨some bs, p, faults.drop n⟩ = (r, ⟨some bs, q, faults.drop m⟩) ∧
      ∀ l pkt, mooScan bs left i = some (some (i + l, pkt)) →
        ∃ k < 2 * l + 3, faults.getD (n + k) false = true := by
  induction left generalizing i p n with
  | zero =>
    exact ⟨p, n, Or.inr ⟨.blank, (fun _ h ↦ by cases h), rfl, fun _ _ h ↦ by cases h⟩⟩
  | succ left ih =>
    rw [mooGetLoop, mooScan]
    obtain ⟨q, m, ⟨hread, hwhy⟩ | ⟨hread, hpkt, hok⟩ | ⟨pkt, hpkt, hne, hok, hread⟩⟩ :=
      mooReadOneRecord_cases bs i p n
    · rw [hread]
      refine ⟨q, m, Or.inr ⟨.ioError, (fun _ h ↦ by cases h), rfl, fun l pkt hscan ↦ ?_⟩⟩
      rcases hwhy with ⟨k, hk, hfails⟩ | hnone
      · exact ⟨k, by omega, hfails⟩
      · rw [hnone] at hscan
        cases hscan
    · rw [hread, hpkt]
      simp only [if_true]
      obtain ⟨q', m', ⟨l, pkt, hfound, hclean, hloop⟩ | ⟨r, hr, hloop, hwhy⟩⟩ := ih (i + 1) q
        (n + 2)
      · refine ⟨q', m', Or.inl ⟨l + 1, pkt, ?_, fun k hk ↦ ?_, ?_⟩⟩
        · rw [hfound, Nat.add_assoc, Nat.add_comm 1]
        · rcases Nat.lt_or_ge k 2 with hlt | hge
          · exact hok k hlt
          · obtain ⟨k, rfl⟩ := Nat.exists_eq_add_of_le hge
            rw [← Nat.add_assoc]
            exact hclean k (by omega)
        · have hcall : n + 2 + (2 * l + 3) = n + (2 * (l + 1) + 3) := by omega
          rw [hloop, hcall, Nat.add_assoc i, Nat.add_comm 1]
      · refine ⟨q', m', Or.inr ⟨r, hr, hloop, fun l pkt hfound ↦ ?_⟩⟩
        obtain ⟨l, rfl⟩ := Nat.exists_eq_add_of_le'
          (Nat.le_of_add_le_add_left (le_of_mooScan hfound))
        rw [Nat.add_comm l, ← Nat.add_assoc] at hfound
        obtain ⟨k, hk, hfails⟩ := hwhy l pkt hfound
        rw [Nat.add_assoc] at hfails
        exact ⟨2 + k, by omega, hfails⟩
    · rw [hread, hpkt]
      simp only [if_neg hne]
      exact ⟨q, m, Or.inl ⟨0, pkt, rfl, hok, rfl⟩⟩

end Loop

private theorem fread_file (d : Disk) (size : ℕ) : (d.fread size).2.file = d.file := by
  rw [Disk.fread]
  split_ifs <;> rfl

private theorem mooCountRecords_file (contest : U32) (left : ℕ) (d : Disk) :
    (mooCountRecords contest left d).2.file = d.file := by
  induction left generalizing d with
  | zero => rfl
  | succ left ih =>
    have hfile := fread_file d 176
    rw [mooCountRecords]
    rcases hr : d.fread 176 with ⟨pkt, d'⟩
    rw [hr] at hfile
    rcases pkt with _ | pkt
    · exact hfile
    · rw [← hfile, ← ih d']
      dsimp only
      split_ifs <;> rfl

/-- What the Moo branch of a get does to the file. -/
private theorem mooGet_cases {s : BufferState} {bs : List U8} (hs : s.disk.file = some bs)
    (wantCount : Bool) :
    (∃ j pkt, mooScan bs (packetCount bs) 0 = some (some (j, pkt)) ∧
      (∀ k < 2 * j + 5, s.disk.failsAt k = false) ∧
      (mooGet s wantCount).1.rc = 0 ∧ (mooGet s wantCount).1.data = some (mooUnpackRecord pkt) ∧
      (mooGet s wantCount).2.disk.file
        = some (if s.disk.failsAt (2 * j + 5) = true then bs else putPacketAt bs j blankPacket)) ∨
    ((mooGet s wantCount).1.rc ≠ 0 ∧
      ((mooGet s wantCount).1.rc < 0 → (mooGet s wantCount).2.disk.file = some bs) ∧
      ∀ j pkt, mooScan bs (packetCount bs) 0 = some (some (j, pkt)) →
        ∃ k < 2 * j + 5, s.disk.failsAt k = true) := by
  obtain ⟨⟨f, p, faults⟩, mode⟩ := s
  obtain rfl : f = some bs := hs
  have hopen : Disk.fopen ⟨some bs, p, faults⟩ = some ⟨some bs, 0, faults.drop 0⟩ := rfl
  have hminus : (-1 : ℤ) ≠ 0 := by decide
  have hearly {k₀ : ℕ} (hk₀ : k₀ < 5) (h : faults.getD k₀ false = true) (j : ℕ) :
      ∃ k < 2 * j + 5, faults.getD k false = true := ⟨k₀, by omega, h⟩
  simp only [Disk.failsAt]
  rcases h0 : faults.getD 0 false with _ | _
  · rcases h1 : faults.getD 1 false with _ | _
    · have hread : Disk.fread ⟨some bs, 0, faults.drop 1⟩ 32 = (headerAt bs, _) :=
        fread_working 0 h1 32
      rcases hhdr : headerAt bs with _ | hdr
      · right
        have hcount : packetCount bs = 0 := by
          rw [packetCount, hhdr]
          rfl
        simp only [mooGet, hopen, fseek_working 0 h0, hread, hhdr, hcount, if_true]
        exact ⟨hminus, fun _ ↦ rfl, fun _ _ h ↦ by cases h⟩
      · have hcount : packetCount bs = (moo521HeaderCount hdr).getD 0 := by
          rw [packetCount, hhdr]
          rfl
        simp only [mooGet, hopen, fseek_working 0 h0, hread, hhdr, ← hcount, if_true]
        obtain ⟨q, m, ⟨l, pkt, hfound, hclean, hloop⟩ | ⟨r, hr, hloop, hwhy⟩⟩ :=
          mooGetLoop_cases bs (packetCount bs) 0 (0 + min 32 (bs.length - 0)) (1 + 1)
        · left
          rw [Nat.zero_add l] at hfound hloop
          have hcall : 1 + 1 + (2 * l + 3) = 2 * l + 5 := by omega
          rw [hcall] at hloop
          refine ⟨l, pkt, hfound, fun k hk ↦ ?_, ?_⟩
          · rcases Nat.lt_or_ge k 2 with hlt | hge
            · rcases Nat.le_one_iff_eq_zero_or_eq_one.mp (Nat.le_of_lt_succ hlt) with rfl | rfl
              · exact h0
              · exact h1
            · obtain ⟨k, rfl⟩ := Nat.exists_eq_add_of_le hge
              exact hclean k (by omega)
          · simp only [hloop]
            cases wantCount with
            | false => exact ⟨rfl, rfl, rfl⟩
            | true => exact ⟨rfl, rfl, (mooCountRecords_file ..).trans (fread_file _ 32)⟩
        · right
          have hlater (j : ℕ) (pkt : Packet)
              (hfound : mooScan bs (packetCount bs) 0 = some (some (j, pkt))) :
              ∃ k < 2 * j + 5, faults.getD k false = true := by
            rw [← Nat.zero_add j] at hfound
            obtain ⟨k, hk, hfails⟩ := hwhy j pkt hfound
            exact ⟨1 + 1 + k, by omega, hfails⟩
          simp only [hloop]
          cases r with
          | ioError => exact ⟨hminus, fun _ ↦ rfl, hlater⟩
          | blank => exact ⟨Int.one_ne_zero, fun h : (1 : ℤ) < 0 ↦ absurd h (by decide), hlater⟩
          | record data => exact absurd rfl (hr data)
    · right
      simp only [mooGet, hopen, fseek_working 0 h0, fread_failing _ h1, if_true]
      exact ⟨hminus, fun _ ↦ rfl, fun j _ _ ↦ hearly (by decide) h1 j⟩
  · right
    simp only [mooGet, hopen, fseek_failing 0 h0, Bool.false_eq_true, if_false]
    exact ⟨hminus, fun _ ↦ rfl, fun j _ _ ↦ hearly (by decide) h0 j⟩

/-- A file that is recognised is there, and recognising it consumes one call. -/
private theorem mooFileDetect_disk {s : BufferState} (h : (mooFileDetect s).1 = true) : ∃ bs,
    s.disk.file = some bs ∧ (mooFileDetect s).2.disk.file = some bs := by
  rcases hf : s.disk.file with _ | bs
  · rw [mooFileDetect, Disk.fopen, hf] at h
    cases h
  · refine ⟨bs, rfl, ?_⟩
    rw [mooFileDetect, Disk.fopen, hf]
    exact fread_file _ 4

/-- **A get keeps its promises exactly if the write that blanks does not fail.** -/
theorem getKeeps_iff {s : BufferState} (h : (mooFileDetect s).1 = true) (wantCount : Bool)
    (flags : U32) : GetKeeps s (bufferGetFileRecord s wantCount flags) ↔
      ¬BlankingFails (mooFileDetect s).2.disk := by
  obtain ⟨bs, hs, hs'⟩ := mooFileDetect_disk h
  have hget : bufferGetFileRecord s wantCount flags = mooGet (mooFileDetect s).2 wantCount :=
    if_pos h
  have hbytes : s.disk.bytes = bs := by rw [Disk.bytes, hs]; rfl
  have hbytes' : (mooFileDetect s).2.disk.bytes = bs := by rw [Disk.bytes, hs']; rfl
  rw [hget, BlankingFails, hbytes']
  rcases mooGet_cases hs' wantCount with
    ⟨j, pkt, hfound, hclean, hrc, hdata, hfile⟩ | ⟨hrc, hfailed, hwhy⟩
  · obtain ⟨hpkt, hne, -⟩ := packetAt_of_mooScan hfound
    rcases hblanks : (mooFileDetect s).2.disk.failsAt (2 * j + 5) with _ | _
    · rw [hblanks] at hfile
      refine iff_of_true ⟨fun _ ↦ ⟨j, pkt, ?_⟩, fun hneg ↦ ?_⟩ ?_
      · rw [hbytes, Disk.bytes, hfile]
        exact ⟨hpkt, hne, hdata, packetAt_putPacketAt_self bs j blankPacket,
          fun k q hk hq ↦ packetAt_putPacketAt_of_ne hk hq⟩
      · rw [hrc] at hneg
        exact absurd hneg (by decide)
      · rintro ⟨j', pkt', hfound', -, hfails⟩
        obtain ⟨rfl, -⟩ := Prod.mk.inj
          (Option.some.inj (Option.some.inj (hfound.symm.trans hfound')))
        rw [hblanks] at hfails
        exact nomatch hfails
    · rw [hblanks] at hfile
      refine iff_of_false (fun hkeeps ↦ ?_) fun hnot ↦ hnot ⟨j, pkt, hfound, hclean, hblanks⟩
      obtain ⟨i, q, hq, hqne, -, hblank, -⟩ := hkeeps.blanked hrc
      rw [Disk.bytes, hfile, Option.getD_some, if_pos rfl] at hblank
      rw [hbytes, hblank] at hq
      exact hqne (Option.some.inj hq).symm
  · refine iff_of_true ⟨fun hzero ↦ absurd hzero hrc, fun hneg ↦ ?_⟩ ?_
    · rw [hbytes, Disk.bytes, hfailed hneg]
      exact KeepsStored.refl bs
    · rintro ⟨j, pkt, hfound, hclean, -⟩
      obtain ⟨k, hk, hfails⟩ := hwhy j pkt hfound
      rw [hclean k hk] at hfails
      exact nomatch hfails

/-! ## Puts -/

/-- A put that fails has changed nothing. -/
def PutKeeps (s : BufferState) (r : PutReturn × BufferState) : Prop :=
  r.1.rc < 0 → KeepsStored s.disk.bytes r.2.disk.bytes

section Scan

variable (bs : List U8) (fails : ℕ → Bool) (reccount : ℕ)

/-- The scan for a blank slot reads slot `k` and goes on. -/
def SlotFull (k : ℕ) : Prop := fails (2 * k) = false ∧ fails (2 * k + 1) = false ∧
  ∃ pkt, packetAt bs k = some pkt ∧ pkt ≠ blankPacket

/-- The scan for a blank slot cannot read slot `k`, and ends there. -/
def SlotUnread (k : ℕ) : Prop :=
  fails (2 * k) = false ∧ (fails (2 * k + 1) = true ∨ packetAt bs k = none)

/-- The scan for a blank slot ends after `m` full ones without having found any. -/
structure ScanEnds (m : ℕ) : Prop where
  le : m ≤ reccount
  full : ∀ k < m, SlotFull bs fails k
  unread : m < reccount → SlotUnread bs fails m

/-- The calls that a scan makes that ends after `m` full slots. -/
def scanCalls (m : ℕ) : ℕ := if m = reccount then 2 * m else 2 * m + 2

variable {bs fails reccount}

theorem SlotFull.not_unread {k : ℕ} (h : SlotFull bs fails k) : ¬SlotUnread bs fails k := by
  obtain ⟨-, hread, pkt, hpkt, -⟩ := h
  rintro ⟨-, hfails | hnone⟩
  · rw [hread] at hfails
    exact nomatch hfails
  · rw [hpkt] at hnone
    exact nomatch hnone

/-- A scan gets past every full slot. -/
theorem ScanEnds.le_of_full {m i : ℕ} (h : ScanEnds bs fails reccount m) (hi : i ≤ reccount)
    (hfull : ∀ k < i, SlotFull bs fails k) : i ≤ m := by
  by_contra hlt
  have hlt : m < i := Nat.lt_of_not_le hlt
  exact (hfull m hlt).not_unread (h.unread (hlt.trans_le hi))

theorem ScanEnds.unique {m m' : ℕ} (h : ScanEnds bs fails reccount m)
    (h' : ScanEnds bs fails reccount m') : m = m' :=
  Nat.le_antisymm (h'.le_of_full h.le h.full) (h.le_of_full h'.le h'.full)

/-- A scan that comes to a slot that is neither full nor unread does not end without a blank
slot. -/
theorem not_scanEnds {i : ℕ} (hi : i < reccount) (hfull : ∀ k < i, SlotFull bs fails k)
    (hnot : ¬SlotFull bs fails i) (hnot' : ¬SlotUnread bs fails i) (m : ℕ) :
    ¬ScanEnds bs fails reccount m := by
  intro h
  rcases Nat.eq_or_lt_of_le (h.le_of_full hi.le hfull) with rfl | hlt
  · exact hnot' (h.unread hi)
  · exact hnot (h.full i hlt)

end Scan

section Write

variable {bs : List U8} {faults : List Bool}

/-- What the scan for a blank slot does from slot `i` on: the put appends exactly if the scan ends
without a blank slot. Call `n` of the put is the first of the scan. -/
private theorem mooFindBlank_cases (reccount n : ℕ) {left i : ℕ} (hleft : i + left = reccount)
    (p : ℕ)
    (hfull : ∀ k < i, SlotFull bs (fun k ↦ faults.getD (n + k) false) k) : ∃ q m',
    (∃ m, ScanEnds bs (fun k ↦ faults.getD (n + k) false) reccount m ∧
      mooFindBlank reccount left i ⟨some bs, p, faults.drop (n + 2 * i)⟩ =
        (some reccount, ⟨some bs, q, faults.drop (n + scanCalls reccount m)⟩)) ∨
    ∃ w, w ≠ some reccount ∧
      mooFindBlank reccount left i ⟨some bs, p, faults.drop (n + 2 * i)⟩ =
        (w, ⟨some bs, q, faults.drop m'⟩) ∧
      ∀ m, ¬ScanEnds bs (fun k ↦ faults.getD (n + k) false) reccount m := by
  induction left generalizing i p with
  | zero =>
    obtain rfl : i = reccount := hleft
    refine ⟨p, 0, Or.inl ⟨i, ⟨Nat.le_refl i, hfull, fun h ↦ absurd h (Nat.lt_irrefl i)⟩, ?_⟩⟩
    rw [mooFindBlank, scanCalls, if_pos rfl]
  | succ left ih =>
    have hi : i < reccount := by omega
    rw [mooFindBlank]
    rcases h0 : faults.getD (n + 2 * i) false with _ | _
    · have hends (hunread : SlotUnread bs (fun k ↦ faults.getD (n + k) false) i) :
          ScanEnds bs (fun k ↦ faults.getD (n + k) false) reccount i :=
        ⟨hi.le, hfull, fun _ ↦ hunread⟩
      have hcalls : n + scanCalls reccount i = n + 2 * i + 1 + 1 := by
        rw [scanCalls, if_neg hi.ne]
        omega
      rcases h1 : faults.getD (n + 2 * i + 1) false with _ | _
      · have hread : Disk.fread ⟨some bs, packetOffset i, faults.drop (n + 2 * i + 1)⟩ 176
            = (packetAt bs i, _) := fread_working (packetOffset i) h1 176
        simp only [fseek_working p h0, hread, Bool.true_eq_false, if_false]
        rcases hp : packetAt bs i with _ | pkt
        · exact ⟨_, 0, Or.inl ⟨i, hends ⟨h0, Or.inr hp⟩, by rw [hcalls]⟩⟩
        · by_cases hb : pkt = blankPacket
          · simp only [if_pos hb]
            refine ⟨_, _, Or.inr ⟨some i, fun h ↦ hi.ne (Option.some.inj h), rfl, fun m ↦ ?_⟩⟩
            refine not_scanEnds hi hfull (fun hfull ↦ ?_) (fun hunread ↦ ?_) m
            · obtain ⟨-, -, q, hq, hne⟩ := hfull
              rw [hp, hb] at hq
              exact hne (Option.some.inj hq).symm
            · rcases hunread.2 with hfails | hnone
              · exact absurd (h1.symm.trans hfails) (by decide)
              · cases hp.symm.trans hnone
          · simp only [if_neg hb]
            have hnext : n + 2 * i + 1 + 1 = n + 2 * (i + 1) := by omega
            rw [hnext]
            refine ih (by omega) _ fun k hk ↦ ?_
            rcases Nat.lt_succ_iff_lt_or_eq.mp hk with hlt | rfl
            · exact hfull k hlt
            · exact ⟨h0, h1, pkt, hp, hb⟩
      · simp only [fseek_working p h0, fread_failing _ h1, Bool.true_eq_false, if_false]
        exact ⟨_, 0, Or.inl ⟨i, hends ⟨h0, Or.inl h1⟩, by rw [hcalls]⟩⟩
    · simp only [fseek_failing p h0, if_true]
      refine ⟨_, _, Or.inr ⟨none, fun h ↦ (by cases h), rfl, fun m ↦ ?_⟩⟩
      refine not_scanEnds hi hfull (fun hfull ↦ ?_) (fun hunread ↦ ?_) m
      · exact absurd (h0.symm.trans hfull.1) (by decide)
      · exact absurd (h0.symm.trans hunread.1) (by decide)

/-- The scan of a put ends without a blank slot, the header is written, and then the seek to the new
packet or the write of it fails. Call `n` of the put is the first of the scan. -/
def TearsFrom (bs : List U8) (fails : ℕ → Bool) (reccount : ℕ) : Prop :=
  ∃ m, ScanEnds bs fails reccount m ∧ fails (scanCalls reccount m) = false ∧
    fails (scanCalls reccount m + 1) = false ∧
    (fails (scanCalls reccount m + 2) = true ∨ fails (scanCalls reccount m + 3) = true)

/-- The last two calls of a put: the seek to the packet and the write of it. -/
private def writePacket (d : Disk) (writerec reccount : ℕ) (pkt : List U8) : Option ℕ × Disk :=
  let (ok, d) := d.fseek (packetOffset writerec)
  if ok = false then (none, d)
  else
    let (ok, d) := d.fwrite pkt
    (if ok then some reccount else none, d)

private theorem writePacket_cases (bs : List U8) (faults : List Bool) (n p writerec reccount : ℕ)
    (pkt : List U8) :
    let r := writePacket ⟨some bs, p, faults.drop n⟩ writerec reccount pkt
    (r.1 = none ∧ r.2.file = some bs ∧
      (faults.getD n false = true ∨ faults.getD (n + 1) false = true)) ∨
    (r.1 = some reccount ∧ faults.getD n false = false ∧ faults.getD (n + 1) false = false) := by
  intro r
  rcases h0 : faults.getD n false with _ | _
  · rcases h1 : faults.getD (n + 1) false with _ | _
    · simp only [r, writePacket, fseek_working p h0, fwrite_working _ h1]
      exact Or.inr ⟨rfl, trivial, trivial⟩
    · simp only [r, writePacket, fseek_working p h0, fwrite_failing _ h1]
      exact Or.inl ⟨rfl, rfl, Or.inr trivial⟩
  · simp only [r, writePacket, fseek_failing p h0]
    exact Or.inl ⟨rfl, rfl, Or.inl trivial⟩

/-- A put into a blank slot is the write of the packet. -/
private theorem mooWriteOneRecord_of_blank {d d' : Disk} {reccount w : ℕ} {data : WorkRecord}
    (hfind : mooFindBlank reccount reccount 0 d = (some w, d')) (hne : w ≠ reccount) :
    mooWriteOneRecord d reccount data = writePacket d' w reccount (mooPackRecord data).val := by
  simp only [mooWriteOneRecord, hfind, if_neg hne]
  rfl

/-- A put that appends writes the header before the packet. -/
private theorem mooWriteOneRecord_of_append {d d' d'' : Disk} {reccount : ℕ} {data : WorkRecord}
    (hfind : mooFindBlank reccount reccount 0 d = (some reccount, d'))
    (hseek : d'.fseek 0 = (true, d'')) :
    mooWriteOneRecord d reccount data =
      writePacket (d''.fwrite (moo521MakeHeader (BitVec.ofNat 32 (reccount + 1))).val).2
        reccount (reccount + 1) (mooPackRecord data).val := by
  simp only [mooWriteOneRecord, hfind, hseek, if_true, Bool.true_eq_false, if_false]
  rfl

/-- What writing a record does when it fails: the file is as it was, or it is torn and only the
header is new. -/
private theorem mooWriteOneRecord_cases (bs : List U8) (faults : List Bool) (reccount n p : ℕ)
    (data : WorkRecord) :
    let r := mooWriteOneRecord ⟨some bs, p, faults.drop n⟩ reccount data
    let torn := TearsFrom bs (fun k ↦ faults.getD (n + k) false) reccount
    (r.1 = none ∧ r.2.file = some bs ∧ ¬torn) ∨
    (r.1 = none ∧ torn ∧
      r.2.file = some (splice bs 0 (moo521MakeHeader (BitVec.ofNat 32 (reccount + 1))).val)) ∨
    ((∃ c, r.1 = some c) ∧ ¬torn) := by
  intro r torn
  obtain ⟨q, m', ⟨m, hends, hscan⟩ | ⟨w, hw, hscan, hnot⟩⟩ := mooFindBlank_cases reccount n
    (Nat.zero_add reccount) p fun k hk ↦ absurd hk (Nat.not_lt_zero k)
  · obtain ⟨c, hc⟩ : ∃ c, c = scanCalls reccount m := ⟨_, rfl⟩
    have htorn : torn ↔ faults.getD (n + c) false = false ∧ faults.getD (n + c + 1) false = false ∧
        (faults.getD (n + c + 2) false = true ∨ faults.getD (n + c + 3) false = true) := by
      constructor
      · rintro ⟨m₁, hends₁, hrest⟩
        rw [hends₁.unique hends, ← hc] at hrest
        exact hrest
      · exact fun hrest ↦ ⟨m, hends, hc ▸ hrest⟩
    have hfind : mooFindBlank reccount reccount 0 ⟨some bs, p, faults.drop n⟩ =
        (some reccount, ⟨some bs, q, faults.drop (n + c)⟩) := hc ▸ hscan
    rcases h0 : faults.getD (n + c) false with _ | _
    · have happend : mooWriteOneRecord _ reccount data = _ :=
        mooWriteOneRecord_of_append hfind (fseek_working q h0 0)
      rcases h1 : faults.getD (n + c + 1) false with _ | _
      · rw [fwrite_working _ h1] at happend
        simp only [r, happend]
        rcases writePacket_cases _ faults (n + c + 2) _ reccount (reccount + 1)
          (mooPackRecord data).val with ⟨hnone, hfile, hfail⟩ | ⟨hsome, h2, h3⟩
        · exact Or.inr (Or.inl ⟨hnone, htorn.mpr ⟨h0, h1, hfail⟩, hfile⟩)
        · refine Or.inr (Or.inr ⟨⟨_, hsome⟩, fun h ↦ ?_⟩)
          rcases (htorn.mp h).2.2 with h | h
          · exact absurd (h2.symm.trans h) (by decide)
          · exact absurd (h3.symm.trans h) (by decide)
      · -- the header could not be written, so the file is as it was or the put succeeds
        have hnot : ¬torn := fun h ↦ absurd (h1.symm.trans (htorn.mp h).2.1) (by decide)
        rw [fwrite_failing _ h1] at happend
        simp only [r, happend]
        rcases writePacket_cases bs faults (n + c + 2) 0 reccount (reccount + 1)
          (mooPackRecord data).val with ⟨hnone, hfile, -⟩ | ⟨hsome, -⟩
        · exact Or.inl ⟨hnone, hfile, hnot⟩
        · exact Or.inr (Or.inr ⟨⟨_, hsome⟩, hnot⟩)
    · left
      have hnot : ¬torn := fun h ↦ absurd (h0.symm.trans (htorn.mp h).1) (by decide)
      simp only [r, mooWriteOneRecord, hfind, if_true, fseek_failing _ h0]
      exact ⟨trivial, trivial, hnot⟩
  · have hfind : mooFindBlank reccount reccount 0 ⟨some bs, p, faults.drop n⟩ =
        (w, ⟨some bs, q, faults.drop m'⟩) := hscan
    have hnot : ¬torn := by
      rintro ⟨m, hends, -⟩
      exact hnot m hends
    rcases w with _ | w
    · left
      simp only [r, mooWriteOneRecord, hfind]
      exact ⟨trivial, trivial, hnot⟩
    · simp only [r, mooWriteOneRecord_of_blank hfind fun h ↦ hw (congrArg some h)]
      rcases writePacket_cases bs faults m' q w reccount (mooPackRecord data).val with
        ⟨hnone, hfile, -⟩ | ⟨hsome, -⟩
      · exact Or.inl ⟨hnone, hfile, hnot⟩
      · exact Or.inr (Or.inr ⟨⟨_, hsome⟩, hnot⟩)

end Write

/-- The state in which a put enters the Moo branch, if it does. -/
def mooPutState (s : BufferState) : Option BufferState :=
  let (isMoo, s) := mooFileDetect s
  if isMoo then some s
  else if s.mooOutputMode then
    let (missing, s) := mooFileMissing s
    if missing then some s else none
  else none

theorem mooPutState_of_detect {s : BufferState} (h : (mooFileDetect s).1 = true) :
    mooPutState s = some (mooFileDetect s).2 := if_pos h

theorem put_of_mooPutState {s s' : BufferState} (h : mooPutState s = some s') (data : WorkRecord)
    (wantCount : Bool) (flags : U32) :
    bufferPutFileRecord s data wantCount flags = mooPut s' data wantCount := by
  rw [mooPutState] at h
  rw [bufferPutFileRecord]
  rcases hdetect : mooFileDetect s with ⟨isMoo, s₁⟩
  rw [hdetect] at h
  dsimp only at h ⊢
  by_cases hmoo : isMoo = true
  · rw [if_pos hmoo] at h ⊢
    rw [Option.some.inj h]
  · rw [if_neg hmoo] at h ⊢
    by_cases hmode : s₁.mooOutputMode = true
    · rw [if_pos hmode] at h ⊢
      rcases hmissing : mooFileMissing s₁ with ⟨missing, s₂⟩
      rw [hmissing] at h
      dsimp only at h ⊢
      by_cases hm : missing = true
      · rw [if_pos hm] at h ⊢
        rw [Option.some.inj h]
      · rw [if_neg hm] at h
        cases h
    · rw [if_neg hmode] at h
      cases h

/-- The file as the Moo branch of a put opens it. The write of a new file's header is not
checked. -/
def mooOpened (d : Disk) : Disk :=
  match d.fopen with
  | some d => d
  | none => (d.fopenTruncate.fwrite (moo521MakeHeader 0#32).val).2

/-- The Moo branch of a put on the opened file. -/
private def mooPutOpened (s : BufferState) (d : Disk) (data : WorkRecord) (wantCount : Bool) :
    PutReturn × BufferState :=
  let (ok, d) := d.fseek 0
  let (hdr, d) : Option (Bytes 32) × Disk := if ok then d.fread 32 else (none, d)
  let reccount := (hdr.bind moo521HeaderCount).getD 0
  let (rc, d) := mooWriteOneRecord d reccount data
  match rc with
  | none => (⟨-1, if wantCount then some 0 else none⟩, { s with disk := d.fclose })
  | some reccount =>
    (⟨0, if wantCount then some reccount else none⟩, { s with disk := d.fclose })

private theorem mooPut_eq (s : BufferState) (data : WorkRecord) (wantCount : Bool) :
    mooPut s data wantCount = mooPutOpened s (mooOpened s.disk) data wantCount := rfl

/-- A put appends, counts the new packet in the header, and then fails. On a new file the write of
its header comes first; then the header is read, which takes one call if the seek fails, and gives
no count if a call fails; then come the calls of the scan. The header must change by it: one that
could not be read may have counted a single packet already. -/
def TornAppend (d : Disk) : Prop :=
  let opening := if d.file = none then 1 else 0
  let scanning := opening + if d.failsAt opening then 1 else 2
  let reccount :=
    if d.failsAt opening || d.failsAt (opening + 1) then 0 else packetCount d.bytes
  reccount + 1 ≠ packetCount d.bytes ∧
    TearsFrom d.bytes (fun k ↦ d.failsAt (scanning + k)) reccount

/-- A put on a file opened at call `o`: it fails without a trace, it is torn, or it succeeds. -/
private theorem mooPut_cases {s : BufferState} {bs : List U8} {p o : ℕ}
    (hopened : mooOpened s.disk = ⟨some bs, p, s.disk.faults.drop o⟩) (data : WorkRecord)
    (wantCount : Bool) :
    let scanning := o + if s.disk.failsAt o then 1 else 2
    let reccount := if s.disk.failsAt o || s.disk.failsAt (o + 1) then 0 else packetCount bs
    let torn := TearsFrom bs (fun k ↦ s.disk.failsAt (scanning + k)) reccount
    let r := mooPut s data wantCount
    (r.1.rc < 0 ∧ r.2.disk.file = some bs ∧ ¬torn) ∨
    (r.1.rc < 0 ∧ torn ∧ r.2.disk.file =
      some (splice bs 0 (moo521MakeHeader (BitVec.ofNat 32 (reccount + 1))).val)) ∨
    (¬r.1.rc < 0 ∧ ¬torn) := by
  intro scanning reccount torn r
  obtain ⟨q, hwrite⟩ : ∃ q,
      let w := mooWriteOneRecord ⟨some bs, q, s.disk.faults.drop scanning⟩ reccount data
      r = match w.1 with
        | none => (⟨-1, if wantCount then some 0 else none⟩, { s with disk := w.2.fclose })
        | some reccount =>
          (⟨0, if wantCount then some reccount else none⟩, { s with disk := w.2.fclose }) := by
    simp only [r, mooPut_eq, mooPutOpened, hopened, scanning, reccount]
    rcases h0 : s.disk.failsAt o with _ | _
    · rcases h1 : s.disk.failsAt (o + 1) with _ | _
      · simp only [fseek_working p h0, if_true, fread_working 0 h1, sliceAt_header]
        exact ⟨0 + min 32 (bs.length - 0), rfl⟩
      · simp only [fseek_working p h0, if_true, fread_failing 0 h1]
        exact ⟨0, rfl⟩
    · simp only [fseek_failing p h0]
      exact ⟨p, rfl⟩
  have hcases := mooWriteOneRecord_cases bs s.disk.faults reccount scanning q data
  rcases hres : mooWriteOneRecord ⟨some bs, q, s.disk.faults.drop scanning⟩ reccount data with
    ⟨rc, d⟩
  rw [hwrite]
  simp only [hres] at hcases ⊢
  have hneg : (-1 : ℤ) < 0 := by decide
  rcases rc with _ | c
  · rcases hcases with ⟨-, hfile, hnot⟩ | ⟨-, htorn, hfile⟩ | ⟨⟨c, hc⟩, -⟩
    · exact Or.inl ⟨hneg, hfile, hnot⟩
    · exact Or.inr (Or.inl ⟨hneg, htorn, hfile⟩)
    · exact nomatch hc
  · rcases hcases with ⟨hc, -⟩ | ⟨hc, -⟩ | ⟨-, hnot⟩
    · exact nomatch hc
    · exact nomatch hc
    · exact Or.inr (Or.inr ⟨Int.lt_irrefl 0, hnot⟩)

/-- The counts of an opened file are those of the file before it was opened. -/
private theorem mooOpened_cases (d : Disk) : ∃ bs p,
    mooOpened d = ⟨some bs, p, d.faults.drop (if d.file = none then 1 else 0)⟩ ∧
      (d.file = some bs ∨ d.file = none ∧ packetCount bs = 0) := by
  obtain ⟨_ | bs, p, faults⟩ := d
  · rcases h0 : faults.getD 0 false with _ | _
    · have hwrite : Disk.fwrite ⟨some [], 0, faults.drop 0⟩ _ = _ :=
        fwrite_working 0 h0 (moo521MakeHeader 0#32).val
      exact ⟨_, _, congrArg Prod.snd hwrite, Or.inr ⟨rfl, by decide⟩⟩
    · have hwrite : Disk.fwrite ⟨some [], 0, faults.drop 0⟩ _ = _ :=
        fwrite_failing 0 h0 (moo521MakeHeader 0#32).val
      exact ⟨_, _, congrArg Prod.snd hwrite, Or.inr ⟨rfl, by decide⟩⟩
  · exact ⟨bs, 0, rfl, Or.inl rfl⟩

/-- Without packets to scan it does not matter which file is torn. -/
private theorem tearsFrom_zero {bs bs' : List U8} {fails : ℕ → Bool} (h : TearsFrom bs fails 0) :
    TearsFrom bs' fails 0 := by
  obtain ⟨m, hends, hrest⟩ := h
  obtain rfl : m = 0 := Nat.le_zero.mp hends.le
  exact ⟨0, ⟨Nat.le_refl 0, fun k hk ↦ absurd hk (Nat.not_lt_zero k),
    fun hlt ↦ absurd hlt (Nat.lt_irrefl 0)⟩, hrest⟩

private theorem mooFileDetect_file (s : BufferState) :
    (mooFileDetect s).2.disk.file = s.disk.file := by
  rw [mooFileDetect, Disk.fopen]
  rcases hf : s.disk.file with _ | bs
  · exact hf
  · exact fread_file _ 4

private theorem mooFileMissing_file (s : BufferState) :
    (mooFileMissing s).2.disk.file = s.disk.file := by
  rw [mooFileMissing, Disk.fopen]
  rcases hf : s.disk.file with _ | bs
  · exact hf
  · dsimp only [Option.map_some, Disk.fseekEnd]
    split_ifs <;> rfl

/-- Recognising a file and looking whether it is missing leave it alone. -/
private theorem mooPutState_file {s s' : BufferState} (h : mooPutState s = some s') :
    s'.disk.file = s.disk.file := by
  rw [mooPutState] at h
  dsimp only at h
  split_ifs at h
  · rw [← Option.some.inj h, mooFileDetect_file]
  · rw [← Option.some.inj h, mooFileMissing_file, mooFileDetect_file]

/-- **A put keeps its promise exactly if it is not torn.** -/
theorem putKeeps_iff {s s' : BufferState} (h : mooPutState s = some s') (data : WorkRecord)
    (wantCount : Bool) (flags : U32) : PutKeeps s (bufferPutFileRecord s data wantCount flags) ↔
      ¬TornAppend s'.disk := by
  rw [put_of_mooPutState h, PutKeeps]
  have hbytes : s.disk.bytes = s'.disk.bytes := by
    rw [Disk.bytes, Disk.bytes, mooPutState_file h]
  rw [hbytes]
  obtain ⟨bs, p, hopened, hfile⟩ := mooOpened_cases s'.disk
  have hcases := mooPut_cases hopened data wantCount
  have hcount : packetCount s'.disk.bytes = packetCount bs := by
    rcases hfile with hsome | ⟨hnone, hzero⟩
    · rw [Disk.bytes, hsome]
      rfl
    · rw [hzero, Disk.bytes, hnone]
      rfl
  -- a file that is not there yet stores as much as the one that is created
  have hkept : KeepsStored s'.disk.bytes bs ∧ KeepsStored bs s'.disk.bytes := by
    rcases hfile with hsome | ⟨-, hzero⟩
    · rw [Disk.bytes, hsome]
      exact ⟨.refl bs, .refl bs⟩
    · exact ⟨keepsStored_of_zero (hcount.trans hzero) hzero,
        keepsStored_of_zero hzero (hcount.trans hzero)⟩
  have htears {fails : ℕ → Bool} {r : ℕ} (hr : r = packetCount bs ∨ r = 0) :
      TearsFrom s'.disk.bytes fails r ↔ TearsFrom bs fails r := by
    rcases hfile with hsome | ⟨-, hzero⟩
    · rw [Disk.bytes, hsome]
      rfl
    · obtain rfl : r = 0 := by omega
      exact ⟨tearsFrom_zero, tearsFrom_zero⟩
  rw [TornAppend]
  dsimp only at hcases ⊢
  rw [hcount]
  generalize hr : (if (s'.disk.failsAt (if s'.disk.file = none then 1 else 0) ||
    s'.disk.failsAt ((if s'.disk.file = none then 1 else 0) + 1)) = true then 0
      else packetCount bs) = r at hcases ⊢
  have hr : r = packetCount bs ∨ r = 0 := by
    rw [← hr]
    exact (ite_eq_or_eq ..).symm
  rw [htears hr]
  rcases hcases with ⟨hneg, hsame, hnot⟩ | ⟨hneg, htorn, hnew⟩ | ⟨hneg, hnot⟩
  · have hbytes' : (mooPut s' data wantCount).2.disk.bytes = bs := congrArg (·.getD []) hsame
    rw [hbytes']
    exact iff_of_true (fun _ ↦ hkept.1) fun h ↦ hnot h.2
  · have hbytes' : (mooPut s' data wantCount).2.disk.bytes = _ := congrArg (·.getD []) hnew
    rw [hbytes', Option.getD_some]
    constructor
    · rintro hkeeps ⟨hne, -⟩
      exact hne ((keepsStored_header_iff hr).mp (hkept.2.trans (hkeeps hneg)))
    · intro h _
      have hsame : r + 1 = packetCount bs := not_not.mp fun hne ↦ h ⟨hne, htorn⟩
      exact hkept.1.trans ((keepsStored_header_iff hr).mpr hsame)
  · exact iff_of_true (fun h ↦ absurd h hneg) fun h ↦ hnot h.2

/-! ## What the Moo branches promise -/

/-- **When a failing disk is noticed.** A get that delivers a packet has blanked its slot, and one
that fails has changed nothing, unless the write that blanks fails; and a put that fails has changed
nothing, unless it had counted a new packet in the header. -/
theorem mooKeeps_iff (s : BufferState) (data : WorkRecord) (wantCount : Bool) (flags : U32) :
    ((mooFileDetect s).1 = true → (GetKeeps s (bufferGetFileRecord s wantCount flags) ↔
      ¬BlankingFails (mooFileDetect s).2.disk)) ∧
    ∀ s', mooPutState s = some s' → (PutKeeps s (bufferPutFileRecord s data wantCount flags) ↔
      ¬TornAppend s'.disk) :=
  ⟨fun h ↦ getKeeps_iff h wantCount flags, fun _ h ↦ putKeeps_iff h data wantCount flags⟩

/-- A file with one packet, on a disk on which the call after `n` others fails. -/
def faultyAfter (n : ℕ) : BufferState :=
  ⟨⟨some (MooFile.single emptyRecord).bytes, 0, List.replicate n false ++ [true]⟩, false⟩

/-- A read that fails before a packet is blanked, and before a put has counted the packets. -/
theorem mooKeeps_iff_faulty :
    GetKeeps (faultyAfter 3) (bufferGetFileRecord (faultyAfter 3) true BUFFER_FLAGS_NONE) ∧
      PutKeeps (faultyAfter 2)
        (bufferPutFileRecord (faultyAfter 2) emptyRecord true BUFFER_FLAGS_NONE) := by
  have hmoo : (mooFileDetect (faultyAfter 2)).1 = true := by decide
  have hmoo' : (mooFileDetect (faultyAfter 3)).1 = true := by decide
  have hblanking : ¬BlankingFails (mooFileDetect (faultyAfter 3)).2.disk := by
    rintro ⟨j, -, -, hworks, -⟩
    have hfails : (mooFileDetect (faultyAfter 3)).2.disk.failsAt 2 = true := by decide
    rw [hworks 2 (by omega)] at hfails
    exact Bool.noConfusion hfails
  have happend : ¬TornAppend (mooFileDetect (faultyAfter 2)).2.disk := fun h ↦
    h.1 (by decide +kernel)
  exact ⟨((mooKeeps_iff (faultyAfter 3) emptyRecord true BUFFER_FLAGS_NONE).1 hmoo').mpr hblanking,
    ((mooKeeps_iff (faultyAfter 2) emptyRecord true BUFFER_FLAGS_NONE).2 _
      (mooPutState_of_detect hmoo)).mpr happend⟩

/-- **Both promises are broken.** The write that blanks is the seventh call of a get, counting the
one that recognises the file; the write of the packet is the ninth call of a put that appends. -/
theorem not_mooKeeps_faulty :
    ((mooFileDetect (faultyAfter 6)).1 = true ∧
      ¬GetKeeps (faultyAfter 6) (bufferGetFileRecord (faultyAfter 6) true BUFFER_FLAGS_NONE)) ∧
    (mooPutState (faultyAfter 8)).isSome = true ∧
      ¬PutKeeps (faultyAfter 8)
        (bufferPutFileRecord (faultyAfter 8) emptyRecord true BUFFER_FLAGS_NONE) := by
  refine ⟨⟨by decide, fun h ↦ ?_⟩, by decide, fun h ↦ ?_⟩
  · obtain ⟨i, pkt, hpkt, hne, -, hblank, -⟩ := h.blanked (by decide +kernel)
    have hsame : (bufferGetFileRecord (faultyAfter 6) true BUFFER_FLAGS_NONE).2.disk.bytes
        = (faultyAfter 6).disk.bytes := by decide +kernel
    rw [hsame, hpkt] at hblank
    exact hne (Option.some.inj hblank)
  · have hcount := (h (by decide +kernel)).1
    revert hcount
    decide +kernel

end Hyunjin
