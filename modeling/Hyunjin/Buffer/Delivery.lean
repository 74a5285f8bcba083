import Hyunjin.Buffer.Conservation

/-!
# Records come back with their contest

Which format a file without contents gets is up to the sticky flag, that is, to the files seen
before it; how its records are read is up to the file alone, and the Moo reader takes every packet
for RC5-72. So the contest of a record survives unless the record is not RC5-72 and the put writes a
Moo packet (`TakesMoo`).

A get *delivers* the record of a given put if the image it takes is the one the put wrote, at the
place where it wrote it (`putImage`, `nextImage`). `returnsAlike_iff` quantifies over all the calls,
on this file and elsewhere, that may come between the two.
-/

namespace Hyunjin

open Word Stdio Slots Run

/-! ## Either format -/

/-- A file that is absent, empty, recognised as a Moo file, or a whole number of stock records. -/
def EitherFormat (s : BufferState) : Prop :=
  ∃ file mode, s = healthy file mode ∧
    (isMooFile (file.getD []) = true ∨ ∃ cs : List Body, file.getD [] = joined cs)

/-- The two formats of a file, as the calls tell them apart. -/
private theorem EitherFormat.cases {s : BufferState} (h : EitherFormat s) : ∃ mode,
    (∃ bs, isMooFile bs = true ∧ s = healthy (some bs) mode) ∨
    ∃ file, ∃ cs : List Body, s = healthy file mode ∧ file.getD [] = joined cs ∧
      isMooFile (joined cs) = false := by
  obtain ⟨file, mode, rfl, hfile⟩ := h
  refine ⟨mode, ?_⟩
  rcases hmoo : isMooFile (file.getD []) with _ | _
  · obtain ⟨cs, hcs⟩ := hfile.resolve_left (by simp [hmoo])
    exact Or.inr ⟨file, cs, rfl, hcs, hcs ▸ hmoo⟩
  · rcases file with _ | bs
    · exact nomatch hmoo
    · exact Or.inl ⟨bs, hmoo, rfl⟩

theorem eitherFormat_moo {bs : List U8} (h : isMooFile bs = true) (mode : Bool) :
    EitherFormat (healthy (some bs) mode) := ⟨some bs, mode, rfl, Or.inl h⟩

private theorem eitherFormat_stock {file : Option (List U8)} {cs : List Body}
    (h : file.getD [] = joined cs) (mode : Bool) : EitherFormat (healthy file mode) :=
  ⟨file, mode, rfl, Or.inr ⟨cs, h⟩⟩

private theorem eitherFormat_empty (mode : Bool) : EitherFormat (healthy (some []) mode) :=
  ⟨some [], mode, rfl, Or.inr ⟨[], rfl⟩⟩

/-! ## Events -/

/-- What may happen between two calls on a file: another call on it, or another file being found to
be a Moo file. -/
inductive BufferEvent
  | call (c : BufferCall)
  | mooSeen

def BufferEvent.exec : BufferEvent → BufferState → Option BufferAnswer × BufferState
  | .call c, s => ((c.exec s).1, (c.exec s).2)
  | .mooSeen, s => (none, { s with mooOutputMode := true })

/-- Whether a put writes a Moo packet. -/
def TakesMoo (s : BufferState) : Prop :=
  isMooFile s.disk.bytes = true ∨ (s.mooOutputMode = true ∧ s.disk.bytes = [])

instance (s : BufferState) : Decidable (TakesMoo s) := inferInstanceAs (Decidable (_ ∨ _))

/-- **What a put does when it takes the Moo branch.** -/
theorem put_takesMoo {s : BufferState} (hs : EitherFormat s) (hmoo : TakesMoo s) (data : WorkRecord)
    (wantCount : Bool) (flags : U32) : ∃ count,
    bufferPutFileRecord s data wantCount flags =
      (⟨0, count⟩, healthy (some (mooPutBytes s.disk.bytes data)) true) := by
  obtain ⟨mode, ⟨bs, hbs, rfl⟩ | ⟨file, cs, rfl, hcs, hstock⟩⟩ := hs.cases
  · exact ⟨_, put_moo hbs mode wantCount flags data⟩
  · have hbytes : (healthy file mode).disk.bytes = joined cs := hcs
    obtain ⟨hmode, hempty⟩ : mode = true ∧ joined cs = [] := by
      rcases hmoo with hmoo | ⟨hmode, hempty⟩
      · rw [hbytes, hstock] at hmoo
        exact nomatch hmoo
      · exact ⟨hmode, hbytes ▸ hempty⟩
    have hfile : file = none ∨ file = some [] := by
      rcases file with _ | bs
      · exact Or.inl rfl
      · exact Or.inr (congrArg some (hcs.trans hempty))
    rw [hbytes, hempty, mooPutBytes_nil, hmode]
    exact ⟨_, put_missing hfile wantCount flags data⟩

/-- A put that does not take the Moo branch finds a stock file. -/
private theorem stock_of_not_takesMoo {s : BufferState} (hs : EitherFormat s) (h : ¬TakesMoo s) :
    ∃ file mode, ∃ cs : List Body, s = healthy file mode ∧ file.getD [] = joined cs ∧
      isMooFile (joined cs) = false ∧ (mode = false ∨ cs ≠ []) := by
  simp only [TakesMoo, not_or, not_and] at h
  obtain ⟨mode, ⟨bs, hbs, rfl⟩ | ⟨file, cs, rfl, hcs, hstock⟩⟩ := hs.cases
  · exact absurd hbs h.1
  · refine ⟨file, mode, cs, rfl, hcs, hstock, ?_⟩
    rcases mode with _ | _
    · exact Or.inl rfl
    · right
      rintro rfl
      exact h.2 rfl hcs

/-- **A put that counts finds the file in one of the formats, or fails.** -/
theorem put_of_eitherFormat {s : BufferState} (hs : EitherFormat s) {flags : U32}
    (hflags : LocalFlags flags) (data : WorkRecord) : ∃ count, 0 < count ∧
    (bufferPutFileRecord s data true flags).1 = ⟨0, some count⟩ := by
  by_cases hmoo : TakesMoo s
  · obtain ⟨mode, ⟨bs, hbs, rfl⟩ | ⟨file, cs, rfl, hcs, hstock⟩⟩ := hs.cases
    · refine ⟨mooPutCount bs, ?_, by rw [put_moo hbs]; rfl⟩
      rw [mooPutCount]
      split_ifs with hslot
      · exact Nat.succ_pos _
      · rcases Nat.eq_zero_or_pos (packetCount bs) with hzero | hpos
        · exact absurd (by rw [hzero, blankSlot]) hslot
        · exact hpos
    · obtain ⟨rfl, hempty⟩ := hmoo.resolve_left (by rw [Disk.bytes, healthy, hcs, hstock]; decide)
      have hfile : file = none ∨ file = some [] := by
        rcases file with _ | bs
        · exact Or.inl rfl
        · exact Or.inr (congrArg some hempty)
      exact ⟨1, Nat.one_pos, by rw [put_missing hfile]; rfl⟩
  · obtain ⟨file, mode, cs, rfl, hcs, hstock, hmode⟩ := stock_of_not_takesMoo hs hmoo
    exact ⟨stockMet true cs + 1,
      Nat.succ_pos _, by rw [put_stock hcs hstock hflags mode hmode]; rfl⟩

/-- A file in neither format takes no record, and stays as it is. -/
theorem put_of_not_eitherFormat {file : Option (List U8)} {mode : Bool}
    (h : ¬EitherFormat (healthy file mode)) (data : WorkRecord) (wantCount : Bool) (flags : U32) :
    ∃ s, bufferPutFileRecord (healthy file mode) data wantCount flags = (⟨-1, none⟩, s) ∧
      s.disk.file = file := by
  obtain ⟨bs, rfl⟩ : ∃ bs, file = some bs := by
    rcases file with _ | bs
    · exact absurd ⟨none, mode, rfl, Or.inr ⟨[], rfl⟩⟩ h
    · exact ⟨bs, rfl⟩
  have hmoo : isMooFile bs = false := by
    by_contra hmoo
    exact h (eitherFormat_moo (Bool.eq_true_of_not_eq_false hmoo) mode)
  have hlen : ¬168 ∣ bs.length := fun hdvd ↦ by
    obtain ⟨cs, hcs⟩ := exists_joined hdvd
    exact h ⟨some bs, mode, rfl, Or.inr ⟨cs, hcs⟩⟩
  have hne : bs ≠ [] := by
    rintro rfl
    exact hlen (Nat.dvd_zero 168)
  have hput : ∃ s, stockPut (healthy (some bs) mode) data wantCount flags = (⟨-1, none⟩, s) ∧
      s.disk.file = some bs := by
    have hmod : bs.length % SIZEOF_WORKRECORD ≠ 0 := fun hzero ↦ hlen (Nat.dvd_of_mod_eq_zero hzero)
    obtain ⟨d, hopen, hfile⟩ : ∃ d, bufferOpenFile (healthy (some bs) mode).disk flags = (none, d) ∧
        d.file = some bs := by
      rw [bufferOpenFile]
      by_cases hflags : flags &&& BUFFER_FLAGS_REMOTEBUF ≠ 0#32
      · exact ⟨_, if_pos hflags, rfl⟩
      · simp only [if_neg hflags, openOrCreate, healthy_disk, Disk.fopen_some, Option.getD_some,
          Disk.fseekEnd_healthy, if_pos hmod]
        exact ⟨_, rfl, rfl⟩
    rw [stockPut, hopen]
    exact ⟨_, rfl, hfile⟩
  rw [bufferPutFileRecord, mooFileDetect_some, hmoo, Bool.or_false]
  simp only [Bool.false_eq_true, if_false, healthy_mode, mooFileMissing_some, decide_eq_false hne]
  rcases mode with _ | _
  · exact hput
  · exact hput

/-- **Every event keeps the file in one of the two formats.** A put on a stock file may turn it into
what passes for a Moo file. -/
theorem eitherFormat_exec {s : BufferState} (hs : EitherFormat s) (e : BufferEvent) :
    EitherFormat (e.exec s).2 := by
  cases e with
  | mooSeen =>
    obtain ⟨file, mode, rfl, hfile⟩ := hs
    exact ⟨file, true, rfl, hfile⟩
  | call c =>
    cases c with
    | put data wantCount flags =>
      simp only [BufferEvent.exec, BufferCall.exec]
      by_cases hmoo : TakesMoo s
      · obtain ⟨count, hput⟩ := put_takesMoo hs hmoo data wantCount flags
        have hbytes : s.disk.bytes = [] ∨ isMooFile s.disk.bytes = true :=
          hmoo.symm.imp_left And.right
        rw [hput]
        exact eitherFormat_moo (isMooFile_mooPutBytes hbytes data) true
      · obtain ⟨file, mode, cs, rfl, hcs, hstock, hmode⟩ := stock_of_not_takesMoo hs hmoo
        by_cases hflags : LocalFlags flags
        · rw [put_stock hcs hstock hflags mode hmode]
          exact eitherFormat_stock rfl mode
        · rw [put_stock_remote hcs hstock hflags mode hmode]
          exact eitherFormat_stock hcs mode
    | get wantCount flags =>
      simp only [BufferEvent.exec, BufferCall.exec]
      obtain ⟨mode, ⟨bs, hbs, rfl⟩ | ⟨file, cs, rfl, hcs, hstock⟩⟩ := hs.cases
      · rw [get_moo hbs]
        by_cases hhdr : headerAt bs = none
        · rw [if_pos hhdr]
          exact eitherFormat_moo hbs true
        · rw [if_neg hhdr]
          rcases mooScan bs (packetCount bs) 0 with _ | _ | ⟨j, pkt⟩
          · exact eitherFormat_moo hbs true
          · exact eitherFormat_empty true
          · exact eitherFormat_moo (isMooFile_putPacketAt hbs ..) true
      · by_cases hflags : LocalFlags flags
        · rcases hfull : firstFull blankBody cs with _ | ⟨i, c⟩
          · rw [get_stock_of_none hcs hstock hflags hfull]
            exact eitherFormat_empty mode
          · rw [get_stock_of_some hcs hstock hflags hfull]
            exact eitherFormat_stock rfl mode
        · rw [get_stock_remote hcs hstock hflags]
          exact eitherFormat_stock hcs mode
    | count contest =>
      simp only [BufferEvent.exec, BufferCall.exec]
      obtain ⟨mode, ⟨bs, hbs, rfl⟩ | ⟨file, cs, rfl, hcs, hstock⟩⟩ := hs.cases
      · rw [count_moo hbs]
        rcases (headerAt bs).bind moo521HeaderCount with _ | c
        · exact eitherFormat_moo hbs true
        · exact eitherFormat_moo hbs true
      · rw [count_stock hcs hstock]
        exact eitherFormat_stock rfl mode

/-! ## The image that is put and the image that is taken -/

/-- The whole records of a stock file. -/
def stockBodies (bs : List U8) : List Body :=
  (List.range (bs.length / 168)).filterMap fun i ↦ sliceAt bs (i * 168) 168

theorem stockBodies_joined (cs : List Body) : stockBodies (joined cs) = cs := by
  have hlen : (joined cs).length / 168 = cs.length := by
    rw [length_joined, Nat.mul_div_cancel _ (by decide)]
  rw [stockBodies, hlen, funext (sliceAt_stock cs), filterMap_range_getElem?]

/-- Where the record is stored that a get would take, and its image there. -/
def nextImage (bs : List U8) : Option (ℕ × List U8) :=
  if isMooFile bs then
    (mooScan bs (packetCount bs) 0).join.map fun x ↦ (packetOffset x.1, x.2.val)
  else (firstFull blankBody (stockBodies bs)).map fun x ↦ (x.1 * 168, x.2.val)

/-- Where a put stores a record, and its image there. -/
def putImage (s : BufferState) (data : WorkRecord) (wantCount : Bool) : ℕ × List U8 :=
  let bs := s.disk.bytes
  if TakesMoo s then
    (packetOffset (blankSlot bs (packetCount bs) (packetCount bs) 0), (mooPackRecord data).val)
  else
    let cs := stockBodies bs
    (stockSlot wantCount 0 cs.length cs * 168, (stockPackRecord data).val)

/-- **A put that succeeds leaves its image in the file.** -/
theorem putImage_stored {s : BufferState} (hs : EitherFormat s) (data : WorkRecord)
    (wantCount : Bool) (flags : U32)
    (hrc : (bufferPutFileRecord s data wantCount flags).1.rc = 0) :
    let (offset, image) := putImage s data wantCount
    ((bufferPutFileRecord s data wantCount flags).2.disk.bytes.drop offset).take image.length
      = image := by
  by_cases hmoo : TakesMoo s
  · obtain ⟨count, hput⟩ := put_takesMoo hs hmoo data wantCount flags
    rw [putImage, if_pos hmoo, hput]
    exact val_of_sliceAt (packetAt_mooPutBytes s.disk.bytes data)
  · rw [putImage, if_neg hmoo]
    obtain ⟨file, mode, cs, rfl, hcs, hstock, hmode⟩ := stock_of_not_takesMoo hs hmoo
    have hbytes : (healthy file mode).disk.bytes = joined cs := hcs
    by_cases hflags : LocalFlags flags
    · have hle : stockSlot wantCount 0 cs.length cs ≤ 0 + cs.length := stockSlot_le _ _ (by omega)
      rw [hbytes, stockBodies_joined, put_stock hcs hstock hflags mode hmode]
      refine val_of_sliceAt (n := 168) ?_
      exact (sliceAt_stock ..).trans (getElem?_fill (by omega) _)
    · rw [put_stock_remote hcs hstock hflags mode hmode] at hrc
      exact nomatch (show (-1 : ℤ) = 0 from hrc)

/-- A get takes the image in front, read in the format of the file. -/
private theorem get_nextImage {s : BufferState} (hs : EitherFormat s) {offset : ℕ}
    {image : List U8} (hnext : nextImage s.disk.bytes = some (offset, image)) {wantCount : Bool}
    {flags : U32} {r : WorkRecord}
    (hr : (bufferGetFileRecord s wantCount flags).1.data = some r) :
    (∃ j, ∃ pkt : Packet, j < 0xFFFFFF ∧ offset = packetOffset j ∧ image = pkt.val ∧
      r = mooUnpackRecord pkt) ∨
    ∃ c : Body, image = c.val ∧ r = stockUnpackRecord c := by
  obtain ⟨mode, ⟨bs, hbs, rfl⟩ | ⟨file, cs, rfl, hcs, hstock⟩⟩ := hs.cases
  · have hbytes : (healthy (some bs) mode).disk.bytes = bs := rfl
    rw [hbytes, nextImage, if_pos hbs] at hnext
    rcases hscan : mooScan bs (packetCount bs) 0 with _ | _ | ⟨j, pkt⟩
    · rw [hscan] at hnext
      exact nomatch hnext
    · rw [hscan] at hnext
      exact nomatch hnext
    · rw [hscan] at hnext
      simp only [Option.join_some, Option.map_some, Option.some.injEq, Prod.mk.injEq] at hnext
      obtain ⟨-, -, hlt⟩ := packetAt_of_mooScan hscan
      rw [Nat.zero_add] at hlt
      obtain ⟨countP, hget⟩ := get_of_mooScan hbs hscan mode wantCount flags
      rw [hget] at hr
      exact Or.inl ⟨j, pkt, hlt.trans_le (packetCount_le bs), hnext.1.symm, hnext.2.symm,
        (Option.some.inj hr).symm⟩
  · have hbytes : (healthy file mode).disk.bytes = joined cs := hcs
    rw [hbytes, nextImage, if_neg (by simp [hstock]), stockBodies_joined] at hnext
    obtain ⟨⟨i, c⟩, hfull, heq⟩ := Option.map_eq_some_iff.mp hnext
    by_cases hflags : LocalFlags flags
    · rw [get_stock_of_some hcs hstock hflags hfull] at hr
      exact Or.inr ⟨c, (Prod.mk.inj heq).2.symm, (Option.some.inj hr).symm⟩
    · rw [get_stock_remote hcs hstock hflags] at hr
      exact nomatch hr

/-! ## Reaching a packet -/

/-- **Gets work their way to every packet that the header counts.** The induction is on the packets
between the first ones, which are blank already, and the one to be reached. -/
private theorem reaches_packet {w : ℕ} {pkt : Packet} (hne : pkt ≠ blankPacket) (d : ℕ)
    {bs : List U8} {k : ℕ} (hk : k + d = w) (hmoo : isMooFile bs = true)
    (hblank : ∀ i < k, packetAt bs i = some blankPacket) (hpkt : packetAt bs w = some pkt)
    (hw : w < packetCount bs) : ∃ later bs',
      final BufferEvent.exec later (healthy (some bs) true) = healthy (some bs') true ∧
      isMooFile bs' = true ∧ mooScan bs' (packetCount bs') 0 = some (some (w, pkt)) := by
  induction d generalizing bs k with
  | zero =>
    have hscan : mooScan bs (packetCount bs) 0 = some (some (w, pkt)) :=
      mooScan_eq_some (Nat.zero_le w) (by omega) (fun i _ hi ↦ hblank i (by omega)) hpkt hne
    exact ⟨[], bs, rfl, hmoo, hscan⟩
  | succ d ih =>
    have hpresent : packetAt bs k ≠ none := fun h ↦ by
      rw [packetAt_none_of_le (by omega : k ≤ w) h] at hpkt
      exact nomatch hpkt
    obtain ⟨q, hq⟩ := Option.ne_none_iff_exists'.mp hpresent
    by_cases hb : q = blankPacket
    · have hblank' : ∀ i < k + 1, packetAt bs i = some blankPacket := by
        intro i hi
        rcases Nat.lt_succ_iff_lt_or_eq.mp hi with hlt | rfl
        · exact hblank i hlt
        · rw [hq, hb]
      exact ih (by omega) hmoo hblank' hpkt hw
    · -- the packet in slot `k` is in front; a get blanks it
      have hscan : mooScan bs (packetCount bs) 0 = some (some (k, q)) :=
        mooScan_eq_some (Nat.zero_le k) (by omega) (fun i _ hi ↦ hblank i hi) hq hb
      have hpos : 0 < packetCount bs := by omega
      obtain ⟨hdr, hhdr, hcount⟩ := Option.bind_eq_some_iff.mp (headerAt_of_packetCount_pos hpos)
      set bs₁ := putPacketAt bs k blankPacket with hbs₁
      have hget : (BufferEvent.exec (.call (.get false BUFFER_FLAGS_NONE))
          (healthy (some bs) true)).2 = healthy (some bs₁) true := by
        obtain ⟨countP, hget⟩ := get_of_mooScan hmoo hscan true false BUFFER_FLAGS_NONE
        simp only [BufferEvent.exec, BufferCall.exec, hget, hbs₁]
      have hmoo₁ : isMooFile bs₁ = true := isMooFile_putPacketAt hmoo ..
      have hblank₁ : ∀ i < k + 1, packetAt bs₁ i = some blankPacket := by
        intro i hi
        rcases Nat.lt_succ_iff_lt_or_eq.mp hi with hlt | rfl
        · exact packetAt_putPacketAt_of_ne (Nat.ne_of_lt hlt) (hblank i hlt)
        · exact packetAt_putPacketAt_self ..
      have hpkt₁ : packetAt bs₁ w = some pkt := packetAt_putPacketAt_of_ne (by omega) hpkt
      have hw₁ : w < packetCount bs₁ := by
        rwa [hbs₁, packetCount_of_header (headerAt_putPacketAt hhdr ..), hcount, Option.getD_some]
      obtain ⟨later, bs', hfinal, hmoo', hscan'⟩ := ih (by omega) hmoo₁ hblank₁ hpkt₁ hw₁
      exact ⟨.call (.get false BUFFER_FLAGS_NONE) :: later, bs', by rw [final, hget, hfinal], hmoo',
        hscan'⟩

/-! ## The contest of a record -/

/-- If the put succeeds, every later get that delivers the record returns its contest and its work,
whatever happens in between. -/
def ReturnsAlike (s : BufferState) (data : WorkRecord) (wantCount : Bool) (flags : U32) : Prop :=
  let put := bufferPutFileRecord s data wantCount flags
  put.1.rc = 0 → ∀ (later : List BufferEvent) (wantCount' : Bool) (flags' : U32) (r : WorkRecord),
    let s' := final BufferEvent.exec later put.2
    nextImage s'.disk.bytes = some (putImage s data wantCount) →
    (bufferGetFileRecord s' wantCount' flags').1.data = some r →
    r.contest = data.contest ∧ r.work = data.work

private theorem packetOffset_inj {i j : ℕ} (h : packetOffset i = packetOffset j) : i = j := by
  rw [packetOffset_eq, packetOffset_eq] at h
  omega

/-- The state of the file after any events. -/
private theorem eitherFormat_final {s : BufferState} (hs : EitherFormat s)
    (later : List BufferEvent) : EitherFormat (final BufferEvent.exec later s) := by
  induction later generalizing s with
  | nil => exact hs
  | cons e later ih => exact ih (eitherFormat_exec hs e)

/-- A put of a record that is not RC5-72 goes wrong if it writes a Moo packet that is counted. -/
private theorem not_returnsAlike_of_ogr {s : BufferState} (hs : EitherFormat s)
    (hmoo : TakesMoo s) (hroom : HasRoom s) {data : WorkRecord} (hdata : data.contest = OGR_NG)
    (wantCount : Bool) (flags : U32) : ¬ReturnsAlike s data wantCount flags := by
  intro halike
  obtain ⟨count, hput⟩ := put_takesMoo hs hmoo data wantCount flags
  have hbytes : s.disk.bytes = [] ∨ isMooFile s.disk.bytes = true := hmoo.symm.imp_left And.right
  obtain ⟨later, bs', hfinal, hmoo', hscan⟩ := reaches_packet (mooPackRecord_ne_blank data)
    (blankSlot s.disk.bytes (packetCount s.disk.bytes) (packetCount s.disk.bytes) 0)
    (Nat.zero_add _) (isMooFile_mooPutBytes hbytes data) (fun i hi ↦ absurd hi (Nat.not_lt_zero i))
    (packetAt_mooPutBytes s.disk.bytes data) (blankSlot_lt_packetCount hroom data)
  have hnext : nextImage bs' = some (putImage s data wantCount) := by
    rw [nextImage, if_pos hmoo', hscan, putImage, if_pos hmoo]
    rfl
  obtain ⟨countP, hget⟩ := get_of_mooScan hmoo' hscan true true flags
  have hreturned := halike (by rw [hput]) later true flags
    (mooUnpackRecord (mooPackRecord data)) (by rw [hput, hfinal]; exact hnext)
    (by rw [hput, hfinal, hget])
  rw [mooUnpack_pack_ogr hdata, hdata] at hreturned
  have hcontest : RC5_72 = OGR_NG := hreturned.1
  exact absurd hcontest (by decide)

/-- **When a record comes back with its contest and its work.** It is an RC5-72 record, or it is
stored in the stock format, or the header of the Moo file it is put in is at its ceiling and no get
ever delivers it. -/
theorem returnsAlike_iff {s : BufferState} (hs : EitherFormat s) {data : WorkRecord}
    (hdata : data.contest = RC5_72 ∨ data.contest = OGR_NG) (wantCount : Bool) (flags : U32) :
    ReturnsAlike s data wantCount flags ↔
      data.contest = RC5_72 ∨ ¬TakesMoo s ∨ ¬HasRoom s := by
  constructor
  · intro halike
    by_contra hnot
    simp only [not_or, not_not] at hnot
    exact not_returnsAlike_of_ogr hs hnot.2.1 hnot.2.2 (hdata.resolve_left hnot.1) wantCount flags
      halike
  · intro hcond hrc later wantCount' flags' r s' hnext hr
    have hs' : EitherFormat s' := eitherFormat_final
      (eitherFormat_exec hs (.call (.put data wantCount flags))) later
    by_cases hmoo : TakesMoo s
    · rw [putImage, if_pos hmoo] at hnext
      rcases get_nextImage hs' hnext hr with ⟨j, pkt, hj, hoffset, himage, rfl⟩ | ⟨c, himage, rfl⟩
      · obtain rfl : mooPackRecord data = pkt := Subtype.ext himage
        rcases hcond with hrc5 | hstock | hfull
        · rw [mooUnpack_pack hrc5]
          exact ⟨rfl, rfl⟩
        · exact absurd hmoo hstock
        · rw [blankSlot_without_room hfull] at hoffset
          have := packetOffset_inj hoffset
          omega
      · have hlen := congrArg List.length himage
        rw [(mooPackRecord data).property, c.property] at hlen
        exact absurd hlen (by decide)
    · rw [putImage, if_neg hmoo] at hnext
      rcases get_nextImage hs' hnext hr with ⟨j, pkt, -, -, himage, rfl⟩ | ⟨c, himage, rfl⟩
      · have hlen := congrArg List.length himage
        rw [(stockPackRecord data).property, pkt.property] at hlen
        exact absurd hlen (by decide)
      · obtain rfl : stockPackRecord data = c := Subtype.ext himage
        rw [stockUnpack_pack hdata]
        exact ⟨rfl, rfl⟩

/-- An OGR-NG stub put into a new file before any Moo file has been seen. -/
theorem returnsAlike_iff_new :
    ReturnsAlike (healthy none false) { emptyRecord with contest := OGR_NG } true 0#32 ↔
      OGR_NG = RC5_72 ∨ ¬TakesMoo (healthy none false) ∨ ¬HasRoom (healthy none false) :=
  returnsAlike_iff ⟨none, false, rfl, Or.inr ⟨[], rfl⟩⟩ (Or.inr rfl) true 0#32

/-- **An OGR-NG stub comes back as an RC5-72 packet** when it is put into a new file after a Moo
file has been seen. -/
theorem ogr_returns_as_rc5 :
    ¬ReturnsAlike (healthy none true) { emptyRecord with contest := OGR_NG } true 0#32 :=
  not_returnsAlike_of_ogr ⟨none, true, rfl, Or.inr ⟨[], rfl⟩⟩ (Or.inr ⟨rfl, rfl⟩)
    (Or.inl (by decide)) rfl true 0#32

end Hyunjin
