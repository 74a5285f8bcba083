import Hyunjin.Buffer.Finished

/-!
# What the files hold

`heldIn` lists the records of a buffer file in the order in which gets take them, each as it was
stored. A file is `Readable` if it is absent, in the stock layout, or a well-formed Moo file. On
such a file a get takes the first record of the list, and a put adds to the list a record that the
file takes (`FileTakes`): a Moo file, or an empty one that is to become one, takes RC5-72 records
only, and only while there is room.

A put of a record that the file does not take is never made good by later puts. The record of
another contest becomes an RC5-72 record, and a file beyond the ceiling stays too long for any
header.
-/

namespace Hyunjin

open Word Stdio Slots

/-! ## Records on disk -/

/-- The records of a file as they were stored, in the order in which gets take them. -/
def heldIn (bs : List U8) : List WorkRecord :=
  if isMooFile bs then (full blankPacket (presentPackets bs)).map mooDecodeRecord
  else (full blankBody (stockBodies bs)).map stockUnpackRecord

/-- The record that a get makes of a stored one. -/
def WorkRecord.asRead (moo : Bool) (r : WorkRecord) : WorkRecord :=
  if moo then { r with resultcode := RESULT_WORKING } else r

/-- A file in the stock layout, absent and empty ones included, or a well-formed Moo file, with the
records in it. -/
inductive FileHolds : Bool → Option (List U8) → List WorkRecord → Prop
  | stock {file : Option (List U8)} {cs : List Body} (hfile : file.getD [] = joined cs)
    (hstock : isMooFile (joined cs) = false) :
    FileHolds false file ((full blankBody cs).map stockUnpackRecord)
  | moo (m : MooFile) :
    FileHolds true (some m.bytes) ((full blankPacket m.slots).map mooDecodeRecord)

def Readable (file : Option (List U8)) : Prop := ∃ moo rs, FileHolds moo file rs

section FileHolds

variable {moo : Bool} {file : Option (List U8)} {rs : List WorkRecord}

/-- A file that is absent or empty holds nothing. -/
theorem fileHolds_nil (hfile : file.getD [] = []) : FileHolds false file [] :=
  .stock (show file.getD [] = joined [] from hfile) rfl

theorem FileHolds.isMooFile (h : FileHolds moo file rs) : isMooFile (file.getD []) = moo := by
  cases h with
  | stock hfile hstock => rw [hfile, hstock]
  | moo m => exact m.isMooFile_bytes

theorem FileHolds.heldIn (h : FileHolds moo file rs) : heldIn (file.getD []) = rs := by
  rw [Hyunjin.heldIn, h.isMooFile]
  cases h with
  | stock hfile hstock =>
    rw [hfile, stockBodies_joined]
    rfl
  | moo m =>
    have hpresent : presentPackets m.bytes = m.slots := (Holds.file m).presentPackets false
    rw [if_pos rfl, Option.getD_some, hpresent]

theorem Readable.holds (h : Readable file) :
    FileHolds (Hyunjin.isMooFile (file.getD [])) file (Hyunjin.heldIn (file.getD [])) := by
  obtain ⟨moo, rs, h⟩ := h
  rwa [h.isMooFile, h.heldIn]

/-- What is read from a file has a NUL-terminated id. -/
theorem FileHolds.stored_eq (h : FileHolds moo file rs) {r : WorkRecord} (hr : r ∈ rs) :
    (r.asRead moo).stored = r.asRead moo := by
  have hswitch (r : WorkRecord) : nulTerminate (switchByteOrder r).id = (switchByteOrder r).id := by
    rw [switchByteOrder]
    split_ifs <;> exact nulTerminate_nulTerminate r.id
  have hid : nulTerminate r.id = r.id := by
    cases h with
    | stock hfile hstock =>
      obtain ⟨c, -, rfl⟩ := List.mem_map.mp hr
      exact hswitch _
    | moo m =>
      obtain ⟨pkt, -, rfl⟩ := List.mem_map.mp hr
      exact hswitch _
  cases moo with
  | false => exact congrArg (fun id ↦ { r with id := id }) hid
  | true => exact congrArg (fun id ↦ { r with id := id, resultcode := RESULT_WORKING }) hid

/-- A Moo file holds records of RC5-72 only. -/
theorem contest_of_heldIn {bs : List U8} (h : Hyunjin.isMooFile bs = true) {r : WorkRecord}
    (hr : r ∈ Hyunjin.heldIn bs) : r.contest = RC5_72 := by
  rw [Hyunjin.heldIn, if_pos h] at hr
  obtain ⟨pkt, -, rfl⟩ := List.mem_map.mp hr
  exact contest_mooDecodeRecord pkt

/-! ## Getting -/

private theorem firstFull_of_full_cons {β : Type*} [DecidableEq β] {blank c : β} {cs ds : List β}
    (h : full blank cs = c :: ds) :
    ∃ i, firstFull blank cs = some (i, c) ∧ full blank (cs.set i blank) = ds := by
  rcases hfirst : firstFull blank cs with _ | ⟨i, d⟩
  · have hnone : full blank cs = [] :=
      List.filter_eq_nil_iff.mpr fun d hd ↦ by simp [firstFull_eq_none.mp hfirst d hd]
    exact nomatch hnone.symm.trans h
  · obtain ⟨rfl, hds⟩ := List.cons.inj ((full_of_firstFull hfirst).symm.trans h)
    exact ⟨i, rfl, hds⟩

private theorem firstFull_of_full_nil {β : Type*} [DecidableEq β] {blank : β} {cs : List β}
    (h : full blank cs = []) : firstFull blank cs = none := by
  rcases hfirst : firstFull blank cs with _ | ⟨i, d⟩
  · rfl
  · exact nomatch (full_of_firstFull hfirst).symm.trans h

private theorem full_stockTake {cs : List Body} {i : ℕ} {c : Body}
    (h : firstFull blankBody cs = some (i, c)) :
    full blankBody (stockTake cs i) = full blankBody (cs.set i blankBody) := by
  rw [stockTake]
  split_ifs with hlast
  · exact (List.filter_eq_nil_iff.mpr fun d hd ↦ by
      simp [eq_blank_of_take_last h hlast d hd]).symm
  · rfl

theorem FileHolds.get_nil (h : FileHolds moo file []) (mode : Bool) :
    bufferGetFileRecord (healthy file mode) true BUFFER_FLAGS_NONE =
      (⟨1, none, some 0⟩, healthy (some []) (mode || moo)) := by
  generalize hrs : ([] : List WorkRecord) = rs at h
  cases h with
  | stock hfile hstock =>
    have hnone := firstFull_of_full_nil (List.map_eq_nil_iff.mp hrs.symm)
    have hflags : LocalFlags BUFFER_FLAGS_NONE := rfl
    rw [get_stock_of_none hfile hstock hflags hnone, Bool.or_false]
    rfl
  | moo m =>
    have hnone := firstFull_of_full_nil (List.map_eq_nil_iff.mp hrs.symm)
    rw [m.get_bytes_of_none hnone, Bool.or_true]
    rfl

/-- **A get takes the first record**, and counts those of the same contest that are left. -/
theorem FileHolds.get_cons {r : WorkRecord} (h : FileHolds moo file (r :: rs)) (mode : Bool) :
    ∃ file', FileHolds moo file' rs ∧
      bufferGetFileRecord (healthy file mode) true BUFFER_FLAGS_NONE =
        (⟨0, some (r.asRead moo), some (rs.filter (·.contest = r.contest)).length⟩,
          healthy file' (mode || moo)) := by
  generalize hrs : r :: rs = rs' at h
  cases h with
  | @stock file cs hfile hstock =>
    obtain ⟨c, ds, hfull, rfl, rfl⟩ := List.map_eq_cons_iff.mp hrs.symm
    obtain ⟨i, hfirst, hset⟩ := firstFull_of_full_cons hfull
    have htake : full blankBody (stockTake cs i) = ds := (full_stockTake hfirst).trans hset
    have hflags : LocalFlags BUFFER_FLAGS_NONE := rfl
    refine ⟨some (joined (stockTake cs i)), ?_, ?_⟩
    · rw [← htake]
      exact .stock rfl (isMooFile_stockTake hstock i)
    · rw [get_stock_of_some hfile hstock hflags hfirst, Bool.or_false, stockRecords, htake]
      rfl
  | moo m =>
    obtain ⟨pkt, ds, hfull, rfl, rfl⟩ := List.map_eq_cons_iff.mp hrs.symm
    obtain ⟨i, hfirst, hset⟩ := firstFull_of_full_cons hfull
    refine ⟨some (m.setSlot i blankPacket).bytes, ?_, ?_⟩
    · rw [← hset]
      exact .moo (m.setSlot i blankPacket)
    · have hslots : (m.setSlot i blankPacket).slots = m.slots.set i blankPacket := rfl
      rw [m.get_bytes_of_some hfirst, Bool.or_true, packetRecords, hslots, hset,
        contest_mooDecodeRecord]
      rfl

end FileHolds

/-! ## Putting -/

/-- A record of a contest the client supports, with a valid result code. Its image does not begin
like a Moo file, as no such record does whose key or stub is within its bounds. -/
structure Supported (r : WorkRecord) : Prop where
  contest : r.contest = RC5_72 ∨ r.contest = OGR_NG
  state : IsWorkstate r.resultcode
  image : moo521IsHeader (stockPackRecord r).val = false

/-- A file that stores Moo packets takes RC5-72 records, while there is room. -/
def FileTakes (s : BufferState) (r : WorkRecord) : Prop :=
  TakesMoo s → r.contest = RC5_72 ∧ HasRoom s

/-- The image of a record begins with its work. -/
private theorem isHeader_stockPackRecord (r : WorkRecord) : moo521IsHeader (stockPackRecord r).val
    = moo521IsHeader (ofLEWords (switchByteOrder r).work.val) := by
  have hget (i : ℕ) (hi : i < 80) : (stockPackRecord r).val.getD i 0#8
      = (ofLEWords (switchByteOrder r).work.val).getD i 0#8 := by
    refine List.getD_append _ _ _ _ (hi.trans_eq ?_)
    simp [(switchByteOrder r).work.property]
  rw [moo521IsHeader, moo521IsHeader, hget 0 (by decide), hget 1 (by decide), hget 2 (by decide),
    hget 3 (by decide)]

theorem Supported.asRead {r : WorkRecord} (h : Supported r) (moo : Bool) :
    Supported (r.asRead moo) := by
  cases moo with
  | false => exact h
  | true =>
    have hwork : (switchByteOrder (r.asRead true)).work = (switchByteOrder r).work := by
      simp only [switchByteOrder, WorkRecord.asRead, if_true]
      split_ifs <;> rfl
    refine ⟨h.contest, Or.inl rfl, ?_⟩
    rw [isHeader_stockPackRecord, hwork, ← isHeader_stockPackRecord, h.image]

/-- **A put adds a record that the file takes.** -/
theorem FileHolds.put {moo : Bool} {file : Option (List U8)} {rs : List WorkRecord}
    (h : FileHolds moo file rs) {r : WorkRecord} (hr : Supported r) {mode : Bool}
    (htakes : FileTakes (healthy file mode) r) : ∃ moo' file' rs' mode',
    FileHolds moo' file' rs' ∧ (rs' : Multiset WorkRecord) = r.stored ::ₘ rs ∧
      (bufferPutFileRecord (healthy file mode) r false BUFFER_FLAGS_NONE).2
        = healthy file' mode' := by
  cases h with
  | moo m =>
    obtain ⟨hcontest, hroom⟩ := htakes (Or.inl m.isMooFile_bytes)
    obtain ⟨m', hslots, hput⟩ := m.put_bytes ((Holds.file m).room_of_hasRoom hroom) r
    refine ⟨true, _, _, true, .moo m', ?_, by rw [hput]⟩
    have hadd :
        contents blankPacket m'.slots = mooPackRecord r ::ₘ contents blankPacket m.slots := by
      rw [hslots, contents_fill getElem?_firstBlank (mooPackRecord_ne_blank r)]
    have hmap := congrArg (Multiset.map mooDecodeRecord) hadd
    rwa [Multiset.map_cons, mooDecode_pack hcontest] at hmap
  | @stock _ cs hfile hstock =>
    by_cases hmoo : TakesMoo (healthy file mode)
    · obtain ⟨hcontest, -⟩ := htakes hmoo
      have hbytes : (healthy file mode).disk.bytes = joined cs := hfile
      obtain ⟨rfl, hempty⟩ := hmoo.resolve_left (by rw [hbytes, hstock]; exact Bool.false_ne_true)
      have hmissing : file = none ∨ file = some [] := by
        rcases file with _ | bs
        · exact Or.inl rfl
        · exact Or.inr (congrArg some hempty)
      have hcs : cs = [] := by
        have hlen := congrArg List.length (hbytes.symm.trans hempty)
        rw [length_joined, List.length_nil] at hlen
        exact List.length_eq_zero_iff.mp (by omega)
      refine ⟨true, _, _, true, .moo (.single r), ?_, ?_⟩
      · have hslots : (MooFile.single r).slots = [mooPackRecord r] := rfl
        rw [hcs, hslots, full_cons_of_ne (mooPackRecord_ne_blank r)]
        exact congrArg (fun r ↦ ({r} : Multiset WorkRecord)) (mooDecode_pack hcontest)
      · rw [put_missing hmissing, MooFile.bytes_single]
    · have hmode : mode = false ∨ cs ≠ [] := by
        rcases mode with _ | _
        · exact Or.inl rfl
        · right
          rintro rfl
          exact hmoo (Or.inr ⟨rfl, hfile⟩)
      set i := stockSlot false 0 cs.length cs with hi
      have hle : i ≤ 0 + cs.length := stockSlot_le _ _ (by omega)
      rw [Nat.zero_add] at hle
      have hadd := contents_fill (i := i) getElem?_stockSlot (stockPackRecord_ne_blank hr.contest)
      have hmap := congrArg (Multiset.map stockUnpackRecord) hadd
      rw [Multiset.map_cons, stockUnpack_pack hr.contest] at hmap
      have hflags : LocalFlags BUFFER_FLAGS_NONE := rfl
      exact ⟨false, _, _, mode, .stock rfl (isMooFile_fill hstock (fun _ ↦ hr.image) hle), hmap, by
        rw [put_stock hfile hstock hflags mode hmode]⟩

/-! ## Refusing -/

/-- A Moo file in which no record of the contest of `r` will be read again: either that is not
RC5-72, or the file is too long for any header. -/
def Spoiled (r : WorkRecord) (bs : List U8) : Prop :=
  isMooFile bs = true ∧ (r.contest ≠ RC5_72 ∨ 32 + 176 * 0xFFFFFF < bs.length)

/-- No header counts so many packets. -/
theorem not_readable_of_long {bs : List U8} (hmoo : isMooFile bs = true)
    (hlong : 32 + 176 * 0xFFFFFF < bs.length) : ¬Readable (some bs) := by
  rintro ⟨moo, rs, hholds⟩
  have hmoo' := hholds.isMooFile
  cases hholds with
  | stock _ _ => exact Bool.false_ne_true (hmoo'.symm.trans hmoo)
  | moo m =>
    have hle := m.length_slots_le
    rw [MooFile.bytes, List.length_append, m.hdr.property, length_joined] at hlong
    omega

/-- No record of the contest is in a spoiled file, if the file can be read at all. -/
theorem Spoiled.contest_ne {r : WorkRecord} {bs : List U8} (h : Spoiled r bs)
    (hread : Readable (some bs)) {x : WorkRecord} (hx : x ∈ heldIn bs) : x.contest ≠ r.contest := by
  rcases h.2 with hcontest | hlong
  · rw [contest_of_heldIn h.1 hx]
    exact hcontest.symm
  · exact absurd hread (not_readable_of_long h.1 hlong)

private theorem length_mooPutBytes (bs : List U8) (r : WorkRecord) :
    bs.length ≤ (mooPutBytes bs r).length := by
  rw [mooPutBytes]
  split_ifs
  · rw [putPacketAt, length_splice, length_splice]
    omega
  · rw [putPacketAt, length_splice]
    omega

theorem Spoiled.mooPutBytes {r : WorkRecord} {bs : List U8} (h : Spoiled r bs) (x : WorkRecord) :
    Spoiled r (mooPutBytes bs x) :=
  ⟨isMooFile_mooPutBytes (Or.inr h.1) x,
    h.2.imp_right fun hlong ↦ hlong.trans_le (length_mooPutBytes bs x)⟩

theorem Spoiled.put {r : WorkRecord} {bs : List U8} (h : Spoiled r bs) (x : WorkRecord)
    (mode : Bool) : (bufferPutFileRecord (healthy (some bs) mode) x false BUFFER_FLAGS_NONE).2
      = healthy (some (Hyunjin.mooPutBytes bs x)) true := by
  rw [put_moo h.1]

/-- Without room, a packet goes behind `0xFFFFFF` others. -/
theorem lt_length_mooPutBytes {s : BufferState} (h : ¬HasRoom s) (r : WorkRecord) :
    32 + 176 * 0xFFFFFF < (Hyunjin.mooPutBytes s.disk.bytes r).length := by
  have hpacket := packetAt_mooPutBytes s.disk.bytes r
  rw [blankSlot_without_room h] at hpacket
  have hlen := (packetAt_eq_some.mp hpacket).1
  rw [packetOffset_eq] at hlen
  omega

/-- **A put of a record that the file does not take spoils the file.** -/
theorem spoiled_of_not_takes {file : Option (List U8)} (hread : Readable file) {r : WorkRecord}
    {mode : Bool} (h : ¬FileTakes (healthy file mode) r) : ∃ bs,
    Spoiled r bs ∧ (bufferPutFileRecord (healthy file mode) r false BUFFER_FLAGS_NONE).2
      = healthy (some bs) true := by
  rw [FileTakes, Classical.not_imp] at h
  obtain ⟨hmoo, hrefused⟩ := h
  obtain ⟨moo, rs, hfile⟩ := hread
  have heither : EitherFormat (healthy file mode) := by
    cases hfile with
    | stock hcs _ => exact ⟨_, mode, rfl, Or.inr ⟨_, hcs⟩⟩
    | moo m => exact eitherFormat_moo m.isMooFile_bytes mode
  obtain ⟨count, hput⟩ := put_takesMoo heither hmoo r false BUFFER_FLAGS_NONE
  refine ⟨_, ⟨isMooFile_mooPutBytes (hmoo.symm.imp_left And.right) r, ?_⟩, by rw [hput]⟩
  by_cases hcontest : r.contest = RC5_72
  · exact Or.inr (lt_length_mooPutBytes (fun hroom ↦ hrefused ⟨hcontest, hroom⟩) r)
  · exact Or.inl hcontest

end Hyunjin
