import Hyunjin.Buffer.Transfer

/-!
# Whether it is stored

A put that reports success need not have stored its record. A Moo file at the ceiling gets a header
that is rejected when it is read again, and a stock file whose first record begins like a Moo header
is read as a Moo file. `gained_iff` says when the buffers have really gained the records that were
put: each of them finds its place (`AllPlaced`).

What a buffer holds is counted by what gets come to (`readIn`), so a packet that the header of a Moo
file does not count is not held, and a rejected header counts none.
-/

namespace Hyunjin

open Word Stdio Slots Run

/-! ## What a buffer holds -/

/-- The records of a file that gets come to. -/
def readIn (bs : List U8) : Multiset WorkRecord :=
  if isMooFile bs then countedRecords bs
  else (contents blankBody (stockBodies bs)).map stockUnpackRecord

/-- The records of one of the client's buffers. -/
def Client.contentOf (client : Client) (w : Buffers) (contest : U32) (isOut : Bool) :
    Multiset WorkRecord :=
  if client.nodiskbuffers = false then readIn ((w.files (client.filename contest isOut)).getD [])
  else (w.membufftable contest isOut).buff

/-- Every buffer other than the source holds what it held and, in addition, the given records that
belong there. A file that has contents is still in the same layout. -/
structure Gained (client : Client) (source : Filename) (rs : List WorkRecord) (w w' : Buffers) :
    Prop where
  records : ∀ contest isOut, (client.nodiskbuffers = false →
    source ≠ client.filename contest isOut) →
    client.contentOf w contest isOut + (rs.filter (Belongs · contest isOut) : List WorkRecord)
      ≤ client.contentOf w' contest isOut
  layout : client.nodiskbuffers = false → ∀ contest isOut, source ≠ client.filename contest isOut →
    (w.files (client.filename contest isOut)).getD [] ≠ [] →
      isMooFile ((w'.files (client.filename contest isOut)).getD [])
        = isMooFile ((w.files (client.filename contest isOut)).getD [])

/-- Records that are put into a file one after another all find their place. -/
def AllPlaced (rs : List WorkRecord) (file : Option (List U8)) : Prop :=
  Guarded putFile (fun data file ↦ TakesPacket (file.getD []) data) rs file

theorem AllPlaced.of_prefix {rs rs' : List WorkRecord} {file : Option (List U8)}
    (h : AllPlaced rs file) (hfront : rs' <+: rs) : AllPlaced rs' file := by
  induction rs' generalizing rs file with
  | nil => trivial
  | cons r rs' ih =>
    obtain ⟨rest, rfl⟩ := hfront
    exact ⟨h.1, ih h.2 (List.prefix_append rs' rest)⟩

/-! ## Moo files -/

section Moo

variable {bs : List U8} (hmoo : isMooFile bs = true)

include hmoo

private theorem readIn_moo : readIn bs = countedRecords bs := if_pos hmoo

/-- No more is read than the header counts. -/
private theorem card_readIn_le : (readIn bs).card ≤ packetCount bs := by
  rw [readIn_moo hmoo, Multiset.coe_card, length_countedRecords, contents, Multiset.coe_card]
  exact (List.length_filter_le ..).trans (List.length_take_le ..)

omit hmoo in
private theorem filterMap_sublist {α β : Type*} {f g : α → Option β} {l : List α}
    (h : ∀ a ∈ l, ∀ b, f a = some b → g a = some b) :
    (l.filterMap f).Sublist (l.filterMap g) := by
  induction l with
  | nil => exact .slnil
  | cons a l ih =>
    have hrest := ih fun x hx ↦ h x (List.mem_cons_of_mem a hx)
    rcases hf : f a with _ | b
    · rw [List.filterMap_cons_none hf]
      rcases hg : g a with _ | c
      · rwa [List.filterMap_cons_none hg]
      · rw [List.filterMap_cons_some hg]
        exact hrest.cons c
    · rw [List.filterMap_cons_some hf, List.filterMap_cons_some (h a List.mem_cons_self b hf)]
      exact hrest.cons_cons b

omit hmoo in
private theorem mooUnpack_pack_of_fromMoo {data : WorkRecord} (hdata : FromMoo data) :
    mooUnpackRecord (mooPackRecord data) = data := by
  have hstored : (mooDecodeRecord (mooPackRecord data)) = data :=
    (mooDecode_pack hdata.contest).trans hdata.stored
  calc mooUnpackRecord (mooPackRecord data)
      = { mooDecodeRecord (mooPackRecord data) with resultcode := RESULT_WORKING } := rfl
    _ = { data with resultcode := RESULT_WORKING } := by rw [hstored]
    _ = data := congrArg (fun code ↦ { data with resultcode := code }) hdata.state.symm

/-- **A put into a Moo file that has room** adds the record to what is read. Where the header counts
more packets than there are, the put may complete one that was cut off. -/
private theorem readIn_mooPut {data : WorkRecord} (hdata : FromMoo data)
    (hroom : packetCount bs < 0xFFFFFF ∨ HasBlank bs) :
    data ::ₘ readIn bs ≤ readIn (mooPutBytes bs data) := by
  have hmoo' := isMooFile_mooPutBytes (Or.inr hmoo) data
  have hne := mooPackRecord_ne_blank data
  rw [readIn_moo hmoo, readIn_moo hmoo']
  rcases blankSlot_cases bs (packetCount bs) (packetCount bs) 0 with ⟨heq, hno⟩ | ⟨-, hlt, hblank⟩
  · have hlt : packetCount bs < 0xFFFFFF := hroom.resolve_right fun ⟨i, hi, hblank⟩ ↦
      hno i (Nat.zero_le i) (by omega) hblank
    set bs' := mooPutBytes bs data with hbs'
    have hput : bs' = putPacketAt (splice bs 0
        (moo521MakeHeader (BitVec.ofNat 32 (packetCount bs + 1))).val) (packetCount bs)
        (mooPackRecord data) := by
      rw [hbs', mooPutBytes]
      simp only [heq, if_true]
    have hcount : packetCount bs' = packetCount bs + 1 := by
      rw [hput, packetCount_of_header (headerAt_putPacketAt (headerAt_splice_header ..) ..),
        moo521HeaderCount_ofNat hlt]
      rfl
    have hself : packetAt bs' (packetCount bs) = some (mooPackRecord data) := by
      rw [hput]
      exact packetAt_putPacketAt_self ..
    have hother : ∀ i ∈ List.range' 0 (packetCount bs), ∀ pkt, packetAt bs i = some pkt →
        packetAt bs' i = some pkt := by
      intro i hi pkt hpkt
      have hlt := (List.mem_range'_1.mp hi).2
      rw [hput]
      exact packetAt_putPacketAt_of_ne (by omega) (by rw [packetAt_splice_header, hpkt])
    have hsub := ((filterMap_sublist hother).filter (· ≠ blankPacket)).map mooUnpackRecord
    rw [countedRecords_eq, countedRecords_eq, hcount, List.range'_1_concat, List.filterMap_append,
      Nat.zero_add, List.filterMap_cons_some hself, List.filterMap_nil, full_append,
      full_cons_of_ne hne, List.map_append, ← Multiset.coe_add, add_comm]
    have hone : (((mooPackRecord data :: full blankPacket []).map mooUnpackRecord :
        List WorkRecord) : Multiset WorkRecord) = {data} := by
      rw [List.map_cons, mooUnpack_pack_of_fromMoo hdata]
      rfl
    rw [hone, Multiset.singleton_add]
    exact (Multiset.cons_le_cons_iff data).mpr (Multiset.coe_le.mpr hsub.subperm)
  · rw [Nat.zero_add] at hlt
    have hput : mooPutBytes bs data = putPacketAt bs
        (blankSlot bs (packetCount bs) (packetCount bs) 0) (mooPackRecord data) := by
      rw [mooPutBytes]
      simp only [Nat.ne_of_lt hlt, if_false]
    set j := blankSlot bs (packetCount bs) (packetCount bs) 0 with hj
    have hpresent : packetAt bs j ≠ none := by rw [hblank]; exact Option.some_ne_none _
    have hslot : ((presentPackets bs).take (packetCount bs))[j]? = some blankPacket := by
      rw [List.getElem?_take_of_lt hlt, getElem?_presentPackets, hblank]
    rw [coe_countedRecords, coe_countedRecords, hput, packetCount_putPacketAt hlt,
      presentPackets_putPacketAt hpresent, List.take_set, contents_put hslot hne, Multiset.map_cons,
      mooUnpack_pack_of_fromMoo hdata]

omit hmoo in
/-- A put adds at most one to what the header counts. -/
private theorem packetCount_mooPut_le (data : WorkRecord) :
    packetCount (mooPutBytes bs data) ≤ packetCount bs + 1 := by
  rw [mooPutBytes]
  rcases blankSlot_cases bs (packetCount bs) (packetCount bs) 0 with ⟨heq, -⟩ | ⟨-, hlt, -⟩
  · simp only [heq, if_true]
    rw [packetCount_of_header (headerAt_putPacketAt (headerAt_splice_header ..) ..)]
    rcases Nat.lt_or_ge (packetCount bs) 0xFFFFFF with hbelow | hfull
    · rw [moo521HeaderCount_ofNat hbelow]
      exact le_rfl
    · rw [moo521HeaderCount_makeHeader, if_pos]
      · exact Nat.zero_le _
      · have hcount : packetCount bs = 0xFFFFFF := Nat.le_antisymm (packetCount_le bs) hfull
        rw [hcount]
        decide
  · rw [Nat.zero_add] at hlt
    simp only [Nat.ne_of_lt hlt, if_false, packetCount_putPacketAt hlt]
    exact Nat.le_succ _

omit hmoo in
/-- A put beyond the ceiling leaves a header that counts nothing. -/
private theorem packetCount_mooPut_full {data : WorkRecord}
    (hfull : ¬(packetCount bs < 0xFFFFFF ∨ HasBlank bs)) :
    packetCount (mooPutBytes bs data) = 0 := by
  have hslot := blankSlot_without_room hfull
  have hcount : packetCount bs = 0xFFFFFF :=
    Nat.le_antisymm (packetCount_le bs) (Nat.not_lt.mp fun h ↦ hfull (Or.inl h))
  rw [mooPutBytes, hslot, hcount]
  simp only [if_true]
  rw [packetCount_of_header (headerAt_putPacketAt (headerAt_splice_header ..) ..),
    moo521HeaderCount_makeHeader, if_pos (by decide)]
  rfl

end Moo

/-! ## Files -/

private theorem readIn_nil : readIn [] = 0 := rfl

private theorem readIn_single {data : WorkRecord} (hdata : FromMoo data) :
    readIn (singlePacketFile data) = data ::ₘ 0 := by
  have hne := mooPackRecord_ne_blank data
  rw [← MooFile.bytes_single, readIn_moo (MooFile.isMooFile_bytes _), coe_countedRecords,
    MooFile.presentPackets_bytes, MooFile.packetCount_bytes, List.take_length]
  have hslots : (MooFile.single data).slots = [mooPackRecord data] := rfl
  rw [hslots, contents, full_cons_of_ne hne, Multiset.map_coe, List.map_cons,
    mooUnpack_pack_of_fromMoo hdata]
  rfl

section File

variable {file : Option (List U8)}

/-- **What a put makes of a file**: a Moo file, or a stock file with a record more. -/
private theorem putFile_cases (h : EitherFormat (healthy file true)) (data : WorkRecord) :
    ((isMooFile (file.getD []) = true ∨ file.getD [] = []) ∧
      (putFile data file).2 = some (mooPutBytes (file.getD []) data)) ∨
    ∃ cs : List Body, cs ≠ [] ∧ file.getD [] = joined cs ∧ isMooFile (joined cs) = false ∧
      (putFile data file).2 =
        some (joined (fill cs (stockSlot true 0 cs.length cs) (stockPackRecord data))) := by
  by_cases hmoo : TakesMoo (healthy file true)
  · left
    obtain ⟨count, hput⟩ := put_takesMoo h hmoo data true BUFFER_FLAGS_NONE
    refine ⟨hmoo.imp_right And.right, ?_⟩
    rw [putFile, hput]
    rfl
  · right
    obtain ⟨hstock, hne⟩ := not_or.mp hmoo
    obtain ⟨file', mode, heq, hfile⟩ := h
    obtain rfl : file = file' := congrArg (·.disk.file) heq
    obtain ⟨cs, hcs⟩ := hfile.resolve_left hstock
    have hstock' : isMooFile (joined cs) = false :=
      Bool.eq_false_of_not_eq_true fun hmoo ↦ hstock (show isMooFile (file.getD []) = true by
        rw [hcs, hmoo])
    have hcs' : cs ≠ [] := by
      rintro rfl
      exact hne ⟨rfl, hcs⟩
    refine ⟨cs, hcs', hcs, hstock', ?_⟩
    have hflags : LocalFlags BUFFER_FLAGS_NONE := rfl
    rw [putFile, put_stock hcs hstock' hflags true (Or.inr hcs')]
    rfl

private theorem eitherFormat_putFile (h : EitherFormat (healthy file true)) (data : WorkRecord) :
    EitherFormat (healthy (putFile data file).2 true) := by
  obtain ⟨file', mode, heq, hfile⟩ :=
    eitherFormat_exec h (.call (.put data true BUFFER_FLAGS_NONE))
  refine ⟨file', true, ?_, hfile⟩
  exact congrArg (fun s : BufferState ↦ healthy s.disk.file true) heq

/-- A put leaves contents. -/
private theorem putFile_ne_nil (h : EitherFormat (healthy file true)) (data : WorkRecord) :
    (putFile data file).2.getD [] ≠ [] := by
  rcases putFile_cases h data with ⟨hmoo, hput⟩ | ⟨cs, hcs, -, -, hput⟩
  · have hmoo' := isMooFile_mooPutBytes hmoo.symm data
    rw [hput, Option.getD_some]
    intro hnil
    rw [hnil] at hmoo'
    exact nomatch hmoo'
  · rw [hput, Option.getD_some]
    refine joined_ne_nil ?_
    rw [fill]
    split_ifs
    · exact fun hnil ↦ hcs (by simpa using hnil)
    · exact List.append_ne_nil_of_right_ne_nil cs (List.cons_ne_nil _ _)

/-- **A put of a record that finds its place** adds it to what is read. -/
private theorem putFile_gains (h : EitherFormat (healthy file true)) {data : WorkRecord}
    (hdata : FromMoo data) (htakes : TakesPacket (file.getD []) data) :
    data ::ₘ readIn (file.getD []) ≤ readIn ((putFile data file).2.getD []) ∧
      (file.getD [] ≠ [] → isMooFile ((putFile data file).2.getD [])
        = isMooFile (file.getD [])) := by
  rcases putFile_cases h data with ⟨hmoo | hnil, hput⟩ | ⟨cs, hcs, hfile, hstock, hput⟩
  · rw [TakesPacket, if_pos hmoo] at htakes
    rw [hput, Option.getD_some]
    exact ⟨readIn_mooPut hmoo hdata htakes,
      fun _ ↦ (isMooFile_mooPutBytes (Or.inr hmoo) data).trans hmoo.symm⟩
  · rw [hput, hnil, Option.getD_some, mooPutBytes_nil, readIn_nil, readIn_single hdata]
    exact ⟨le_rfl, fun hne ↦ absurd rfl hne⟩
  · rw [hfile, TakesPacket, hstock, if_neg Bool.false_ne_true, stockBodies_joined] at htakes
    have hle : stockSlot true 0 cs.length cs ≤ 0 + cs.length := stockSlot_le _ _ (by omega)
    rw [Nat.zero_add] at hle
    have hstock' := isMooFile_fill hstock (htakes (joined_ne_nil hcs)) hle
    have hcontest : data.contest = RC5_72 ∨ data.contest = OGR_NG := Or.inl hdata.contest
    rw [hput, hfile, Option.getD_some]
    refine ⟨le_of_eq ?_, fun _ ↦ hstock'.trans hstock.symm⟩
    have hadd := contents_fill (i := stockSlot true 0 cs.length cs) getElem?_stockSlot
      (stockPackRecord_ne_blank hcontest)
    rw [readIn, readIn, hstock, hstock', if_neg Bool.false_ne_true, if_neg Bool.false_ne_true,
      stockBodies_joined, stockBodies_joined, hadd, Multiset.map_cons, stockUnpack_pack hcontest]
    exact congrArg (· ::ₘ _) hdata.stored.symm

/-- **A put of a record that does not find its place** leaves a header that counts nothing, or a
stock file that is read as a Moo file. -/
private theorem putFile_spoils (h : EitherFormat (healthy file true)) {data : WorkRecord}
    (htakes : ¬TakesPacket (file.getD []) data) :
    isMooFile ((putFile data file).2.getD []) = true ∧
      (packetCount ((putFile data file).2.getD []) = 0 ∨
        (file.getD [] ≠ [] ∧ isMooFile (file.getD []) = false)) := by
  rcases putFile_cases h data with ⟨hmoo | hnil, hput⟩ | ⟨cs, hcs, hfile, hstock, hput⟩
  · rw [TakesPacket, if_pos hmoo] at htakes
    rw [hput, Option.getD_some]
    exact ⟨isMooFile_mooPutBytes (Or.inr hmoo) data, Or.inl (packetCount_mooPut_full htakes)⟩
  · rw [hnil] at htakes
    exact absurd (fun hne ↦ absurd rfl hne) htakes
  · rw [hfile, TakesPacket, hstock, if_neg Bool.false_ne_true, stockBodies_joined] at htakes
    simp only [Classical.not_imp, Bool.not_eq_false] at htakes
    obtain ⟨hne, hslot, himage⟩ := htakes
    refine ⟨?_, Or.inr ⟨hfile ▸ hne, hfile ▸ hstock⟩⟩
    -- the record comes first in the file
    obtain ⟨c, ds, rfl⟩ := List.exists_cons_of_ne_nil hcs
    rw [hput, Option.getD_some, hslot, fill, if_pos (List.length_pos_of_ne_nil hcs),
      List.set_cons_zero, isMooFile_joined_cons, himage]

end File

/-! ## Runs of puts -/

section Run

variable {rs : List WorkRecord} {file : Option (List U8)}

/-- **Records that find their places** are all read afterwards. -/
private theorem gains_of_placed (h : EitherFormat (healthy file true))
    (hrs : ∀ r ∈ rs, FromMoo r) (hplaced : AllPlaced rs file) :
    readIn (file.getD []) + rs ≤ readIn ((final putFile rs file).getD []) ∧
      (file.getD [] ≠ [] → isMooFile ((final putFile rs file).getD [])
        = isMooFile (file.getD [])) := by
  induction rs generalizing file with
  | nil => exact ⟨le_of_eq (add_zero _), fun _ ↦ rfl⟩
  | cons r rs ih =>
    obtain ⟨htakes, hrest⟩ := hplaced
    rw [List.forall_mem_cons] at hrs
    obtain ⟨hone, hlayout⟩ := putFile_gains h hrs.1 htakes
    obtain ⟨hmore, hlayout'⟩ := ih (eitherFormat_putFile h r) hrs.2 hrest
    rw [final]
    refine ⟨?_, fun hne ↦ (hlayout' (putFile_ne_nil h r)).trans (hlayout hne)⟩
    calc readIn (file.getD []) + ↑(r :: rs)
        = r ::ₘ readIn (file.getD []) + rs := by
          rw [← Multiset.cons_coe, Multiset.add_cons, Multiset.cons_add]
      _ ≤ readIn ((putFile r file).2.getD []) + rs := add_le_add_left hone _
      _ ≤ _ := hmore

/-- A Moo file stays one, and its header counts no more than one in addition for each put. -/
private theorem packetCount_final_le (h : EitherFormat (healthy file true))
    (hmoo : isMooFile (file.getD []) = true) (rs : List WorkRecord) :
    isMooFile ((final putFile rs file).getD []) = true ∧
      packetCount ((final putFile rs file).getD []) ≤ packetCount (file.getD []) + rs.length := by
  induction rs generalizing file with
  | nil => exact ⟨hmoo, le_rfl⟩
  | cons r rs ih =>
    rcases putFile_cases h r with ⟨-, hput⟩ | ⟨cs, -, hfile, hstock, -⟩
    · have hmoo' : isMooFile ((putFile r file).2.getD []) = true := by
        rw [hput]
        exact isMooFile_mooPutBytes (Or.inr hmoo) r
      obtain ⟨hfinal, hle⟩ := ih (eitherFormat_putFile h r) hmoo'
      have hone : packetCount ((putFile r file).2.getD []) ≤ packetCount (file.getD []) + 1 := by
        rw [hput]
        exact packetCount_mooPut_le r
      rw [final, List.length_cons]
      exact ⟨hfinal, by omega⟩
    · rw [hfile, hstock] at hmoo
      cases hmoo

/-- **Unless all records find their places**, a stock file ends up as a Moo file, or fewer records
are read than have been put. The puts that come after a spoiled one do not make up for it. -/
private theorem spoiled_of_not_placed (h : EitherFormat (healthy file true))
    (hplaced : ¬AllPlaced rs file) : isMooFile ((final putFile rs file).getD []) = true ∧
      ((file.getD [] ≠ [] ∧ isMooFile (file.getD []) = false) ∨
        (readIn ((final putFile rs file).getD [])).card < rs.length) := by
  induction rs generalizing file with
  | nil => exact absurd trivial hplaced
  | cons r rs ih =>
    have hnext := eitherFormat_putFile h r
    rw [final, List.length_cons]
    by_cases htakes : TakesPacket (file.getD []) r
    · obtain ⟨hmoo, hcases⟩ := ih hnext fun hrest ↦ hplaced ⟨htakes, hrest⟩
      refine ⟨hmoo, hcases.imp (fun hstock ↦ ?_) Nat.lt_succ_of_lt⟩
      rcases putFile_cases h r with ⟨hfile, hput⟩ | ⟨cs, hcs, hfile, hstock', -⟩
      · rw [hput, Option.getD_some, isMooFile_mooPutBytes hfile.symm] at hstock
        cases hstock.2
      · exact ⟨hfile ▸ joined_ne_nil hcs, hfile ▸ hstock'⟩
    · obtain ⟨hmoo, hwhy⟩ := putFile_spoils h htakes
      obtain ⟨hfinal, hle⟩ := packetCount_final_le hnext hmoo rs
      refine ⟨hfinal, hwhy.symm.imp_right fun hzero ↦ ?_⟩
      have hcard := card_readIn_le hfinal
      omega

/-- **When all that was put is read**, in the layout in which the file is. -/
private theorem gains_iff_placed (h : EitherFormat (healthy file true))
    (hrs : ∀ r ∈ rs, FromMoo r) :
    (readIn (file.getD []) + rs ≤ readIn ((final putFile rs file).getD []) ∧
      (file.getD [] ≠ [] → isMooFile ((final putFile rs file).getD [])
        = isMooFile (file.getD []))) ↔ AllPlaced rs file := by
  refine ⟨fun ⟨hgains, hlayout⟩ ↦ ?_, gains_of_placed h hrs⟩
  by_contra hplaced
  obtain ⟨hmoo, ⟨hne, hstock⟩ | hfewer⟩ := spoiled_of_not_placed h hplaced
  · have hsame := hlayout hne
    rw [hmoo, hstock] at hsame
    exact nomatch hsame
  · have hcard := Multiset.card_le_card hgains
    rw [Multiset.card_add, Multiset.coe_card] at hcard
    omega

end Run

/-! ## The buffers -/

section Buffers

variable {client : Client} {source : Filename} {rs : List WorkRecord} {w w' : Buffers}

private theorem filter_belongs_self (hrs : ∀ r ∈ rs, FromMoo r) :
    rs.filter (Belongs · RC5_72 false) = rs := by
  refine List.filter_eq_self.mpr fun r hr ↦ decide_eq_true ⟨(hrs r hr).contest, ?_⟩
  simp [(hrs r hr).state]

private theorem filter_belongs_other (hrs : ∀ r ∈ rs, FromMoo r) {contest : U32} {isOut : Bool}
    (hne : (contest, isOut) ≠ (RC5_72, false)) : rs.filter (Belongs · contest isOut) = [] := by
  refine List.filter_eq_nil_iff.mpr fun r hr hbelongs ↦ hne ?_
  obtain ⟨hcontest, hout⟩ := of_decide_eq_true hbelongs
  rw [(hrs r hr).contest] at hcontest
  rw [(hrs r hr).state] at hout
  rcases isOut with _ | _
  · rw [hcontest]
  · exact absurd rfl (hout.mp rfl)

/-- **When the buffers have gained what was put.** In memory they always have. On disk, unless the
records go into the source itself, every one must find its place in the input buffer. -/
theorem gained_iff (hputs : Puts client source rs w w') (hrs : ∀ r ∈ rs, FromMoo r)
    (hformat : client.nodiskbuffers = false → rs ≠ [] →
      EitherFormat (healthy (w.files (client.filename RC5_72 false)) true)) :
    Gained client source rs w w' ↔ (client.nodiskbuffers = false →
      source ≠ client.filename RC5_72 false →
        AllPlaced rs (w.files (client.filename RC5_72 false))) := by
  set target := client.filename RC5_72 false with htarget
  -- only this file gets records; the other buffers are as they were
  have hgains (hdisk : client.nodiskbuffers = false) (hne : source ≠ target) :
      (readIn ((w.files target).getD []) + rs ≤ readIn ((w'.files target).getD []) ∧
        ((w.files target).getD [] ≠ [] → isMooFile ((w'.files target).getD [])
          = isMooFile ((w.files target).getD []))) ↔ AllPlaced rs (w.files target) := by
    rw [hputs.file hdisk hne]
    rcases rs with _ | ⟨r, rs⟩
    · exact iff_of_true ⟨le_of_eq (add_zero _), fun _ ↦ rfl⟩ trivial
    · exact gains_iff_placed (hformat hdisk (List.cons_ne_nil r rs)) hrs
  constructor
  · intro h hdisk hne
    refine (hgains hdisk hne).mp ⟨?_, h.layout hdisk RC5_72 false hne⟩
    have hrecords := h.records RC5_72 false fun _ ↦ hne
    rwa [filter_belongs_self hrs, Client.contentOf, Client.contentOf, if_pos hdisk, if_pos hdisk]
      at hrecords
  · intro hplaced
    have hsame {contest : U32} {isOut : Bool} (hdisk : client.nodiskbuffers = false)
        (hne : source ≠ client.filename contest isOut)
        (hother : client.filename contest isOut ≠ target) :
        w'.files (client.filename contest isOut) = w.files (client.filename contest isOut) :=
      hputs.files _ hne.symm fun _ ↦ hother
    refine ⟨fun contest isOut hne ↦ ?_, fun hdisk contest isOut hne hcontents ↦ ?_⟩
    · by_cases hdisk : client.nodiskbuffers = false
      · rw [Client.contentOf, Client.contentOf, if_pos hdisk, if_pos hdisk]
        by_cases hname : client.filename contest isOut = target
        · have hfrom : source ≠ target := hname ▸ hne hdisk
          rw [hname]
          refine le_trans (add_le_add_right ?_ _)
            ((hgains hdisk hfrom).mpr (hplaced hdisk hfrom)).1
          exact Multiset.coe_le.mpr List.filter_sublist.subperm
        · have hother : (contest, isOut) ≠ (RC5_72, false) := fun heq ↦ hname (by
            obtain ⟨rfl, rfl⟩ := Prod.mk.inj heq
            rfl)
          rw [hsame hdisk (hne hdisk) hname, filter_belongs_other hrs hother]
          exact le_of_eq (add_zero _)
      · rw [Client.contentOf, Client.contentOf, if_neg hdisk, if_neg hdisk]
        by_cases hself : (contest, isOut) = (RC5_72, false)
        · obtain ⟨rfl, rfl⟩ := Prod.mk.inj hself
          rw [hputs.buff (Bool.eq_true_of_not_eq_false hdisk), filter_belongs_self hrs,
            Multiset.coe_add]
        · rw [hputs.others contest isOut hself, filter_belongs_other hrs hself]
          exact le_of_eq (add_zero _)
    · by_cases hname : client.filename contest isOut = target
      · rw [hname] at hne hcontents ⊢
        exact ((hgains hdisk hne).mpr (hplaced hdisk hne)).2 hcontents
      · rw [hsame hdisk hne hname]

end Buffers

end Hyunjin
