import Hyunjin.Buffer.Finished
import Hyunjin.Buffer.Import

/-!
# Taking a record and putting it back

An import takes the first record that the header of a Moo file counts, and blanks its slot. When the
record is put back, it goes into the first blank slot, which the header counts as well. Either way
`OneMore` says how the two files differ: by one record, and among those that are counted.

What happens to the client's own buffers is a matter of the records that are put one after another
into the RC5-72 input buffer, whatever becomes of the source (`Puts`). A put is
`importingPut_cases`. The buffer may be the source itself, and then a put is the same as putting
back.
-/

namespace Hyunjin

open Word Stdio Slots Run

/-! ## Packets that come and go -/

/-- The packets that are present, by position. -/
theorem getElem?_presentPackets (bs : List U8) (i : ℕ) : (presentPackets bs)[i]?
    = packetAt bs i := by
  have hpresent (k : ℕ) : (packetAt bs k).isSome = true ↔ k < (bs.length - 32) / 176 := by
    rw [Option.isSome_iff_ne_none, packetAt, Ne, sliceAt_eq_none, packetOffset_eq]
    omega
  have hlist : presentPackets bs = List.ofFn fun k : Fin ((bs.length - 32) / 176) ↦
      (packetAt bs k).get ((hpresent k).mpr k.isLt) := by
    set l := List.ofFn fun k : Fin ((bs.length - 32) / 176) ↦
      (packetAt bs k).get ((hpresent k).mpr k.isLt) with hl
    have hlen : l.length = (bs.length - 32) / 176 := List.length_ofFn
    rw [presentPackets, ← hlen]
    refine (List.filterMap_congr fun k hk ↦ ?_).trans (filterMap_range_getElem? l)
    rw [List.getElem?_eq_getElem (List.mem_range.mp hk)]
    simp [hl]
  rw [hlist]
  rcases Nat.lt_or_ge i ((bs.length - 32) / 176) with hlt | hge
  · rw [List.getElem?_eq_getElem (by rwa [List.length_ofFn])]
    simp
  · rw [List.getElem?_eq_none (by rwa [List.length_ofFn])]
    exact (Option.not_isSome_iff_eq_none.mp fun h ↦ absurd ((hpresent i).mp h)
      (Nat.not_lt.mpr hge)).symm

/-- Writing over a packet leaves all others as they are, also those that are not there. -/
theorem packetAt_putPacketAt_other {bs : List U8} {i j : ℕ} (h : packetAt bs j ≠ none) (hne : i ≠ j)
    (pkt : Packet) : packetAt (putPacketAt bs j pkt) i = packetAt bs i := by
  rcases hi : packetAt bs i with _ | q
  · have hlt : j < i := by
      by_contra hle
      exact h (packetAt_none_of_le (Nat.not_lt.mp hle) hi)
    rw [← hi]
    exact Option.ext fun x ↦
      ⟨packetAt_of_putPacketAt hlt, packetAt_putPacketAt_of_ne hne⟩
  · exact packetAt_putPacketAt_of_ne hne hi

theorem presentPackets_putPacketAt {bs : List U8} {j : ℕ} (h : packetAt bs j ≠ none)
    (pkt : Packet) :
    presentPackets (putPacketAt bs j pkt) = (presentPackets bs).set j pkt := by
  refine List.ext_getElem? fun i ↦ ?_
  rw [getElem?_presentPackets, List.getElem?_set, getElem?_presentPackets]
  by_cases hij : j = i
  · subst hij
    rw [if_pos rfl, packetAt_putPacketAt_self]
    have hlt : j < (presentPackets bs).length := by
      by_contra hge
      rw [← getElem?_presentPackets] at h
      exact h (List.getElem?_eq_none (Nat.not_lt.mp hge))
    rw [if_pos hlt]
  · rw [if_neg hij, packetAt_putPacketAt_other h (Ne.symm hij)]

/-- Putting back what was there. -/
theorem putPacketAt_putPacketAt_self {bs : List U8} {j : ℕ} {pkt : Packet}
    (h : packetAt bs j = some pkt) (q : Packet) : putPacketAt (putPacketAt bs j q) j pkt = bs := by
  obtain ⟨hlen, hget⟩ := packetAt_eq_some.mp h
  have hlength : (putPacketAt (putPacketAt bs j q) j pkt).length = bs.length := by
    rw [putPacketAt, putPacketAt, length_splice, length_splice, pkt.property, q.property]
    omega
  refine ext_getD hlength fun i _ ↦ ?_
  rw [putPacketAt, putPacketAt, getD_splice, getD_splice, pkt.property, q.property]
  by_cases hin : packetOffset j ≤ i ∧ i < packetOffset j + 176
  · rw [if_pos hin, hget _ (by omega), Nat.add_sub_cancel' hin.1]
  · rw [if_neg hin, if_neg hin]

/-! ## A record more -/

private theorem filterMap_range_take {α : Type*} (l : List α) (c : ℕ) :
    (List.range c).filterMap (fun i ↦ l[i]?) = l.take c := by
  induction c with
  | zero => rfl
  | succ c ih =>
    rw [List.range_succ, List.filterMap_append, ih, List.take_add_one]
    rcases hc : l[c]? with _ | a <;> simp [hc]

/-- The records that the header counts are the full ones of the first slots. -/
theorem coe_countedRecords (bs : List U8) : (countedRecords bs : Multiset WorkRecord) =
    (contents blankPacket ((presentPackets bs).take (packetCount bs))).map mooUnpackRecord := by
  have htake : (List.range' 0 (packetCount bs)).filterMap (packetAt bs)
      = (presentPackets bs).take (packetCount bs) := by
    rw [← List.range_eq_range', ← funext (getElem?_presentPackets bs)]
    exact filterMap_range_take _ _
  rw [countedRecords_eq, htake, contents, Multiset.map_coe]

theorem length_countedRecords (bs : List U8) : (countedRecords bs).length =
    (contents blankPacket ((presentPackets bs).take (packetCount bs))).card := by
  rw [← Multiset.coe_card, coe_countedRecords, Multiset.card_map]

/-- `bs'` is the Moo file `bs` with one record more among those the header counts. -/
structure OneMore (r : WorkRecord) (bs bs' : List U8) : Prop where
  moo : isMooFile bs = true
  moo' : isMooFile bs' = true
  covers : CountCovers bs' ↔ CountCovers bs
  records : recordsIn bs' = r ::ₘ recordsIn bs
  counted : (countedRecords bs').length = (countedRecords bs).length + 1

/-- Writing a counted packet leaves the header. -/
theorem packetCount_putPacketAt {bs : List U8} {j : ℕ} (hj : j < packetCount bs) (pkt : Packet) :
    packetCount (putPacketAt bs j pkt) = packetCount bs := by
  obtain ⟨hdr, hhdr, hc⟩ := Option.bind_eq_some_iff.mp
    (headerAt_of_packetCount_pos (Nat.zero_lt_of_lt hj))
  rw [packetCount_of_header (headerAt_putPacketAt hhdr ..), hc, Option.getD_some]

theorem oneMore_putPacketAt {bs : List U8} (hmoo : isMooFile bs = true) {j : ℕ}
    (hj : j < packetCount bs) (hblank : packetAt bs j = some blankPacket) {pkt : Packet}
    (hne : pkt ≠ blankPacket) : OneMore (mooUnpackRecord pkt) bs (putPacketAt bs j pkt) := by
  have hpresent : packetAt bs j ≠ none := by rw [hblank]; exact Option.some_ne_none _
  have hslot : (presentPackets bs)[j]? = some blankPacket := by
    rw [getElem?_presentPackets, hblank]
  have hcount := packetCount_putPacketAt hj pkt
  have hmoo' := isMooFile_putPacketAt hmoo j pkt
  refine ⟨hmoo, hmoo', ?_, ?_, ?_⟩
  · rw [CountCovers, CountCovers, hcount]
    refine forall_congr' fun i ↦ forall_congr' fun q ↦ imp_congr_right fun hi ↦ ?_
    rw [packetAt_putPacketAt_other hpresent (by omega)]
  · rw [recordsIn, recordsIn, if_pos hmoo, if_pos hmoo', presentPackets_putPacketAt hpresent,
      contents_put hslot hne, Multiset.map_cons]
  · have htake : ((presentPackets bs).take (packetCount bs))[j]? = some blankPacket := by
      rw [List.getElem?_take_of_lt hj, hslot]
    rw [length_countedRecords, length_countedRecords, hcount, presentPackets_putPacketAt hpresent,
      List.take_set, contents_put htake hne, Multiset.card_cons]

/-! ## Gets, puts and resaves -/

variable {client : Client} {source : Filename}

/-- A Moo file whose first blank slot the header counts takes a record there. -/
def HasBlank (bs : List U8) : Prop := ∃ j < packetCount bs, packetAt bs j = some blankPacket

/-- Putting a record that came from a Moo file back into one that has a blank slot. -/
theorem put_hasBlank {bs : List U8} (hmoo : isMooFile bs = true) (hblank : HasBlank bs)
    (pkt : Packet) (mode wantCount : Bool) (flags : U32) : ∃ bs',
      OneMore (mooUnpackRecord pkt) bs bs' ∧
      bufferPutFileRecord (healthy (some bs) mode) (mooUnpackRecord pkt) wantCount flags =
        (⟨0, if wantCount then some (packetCount bs) else none⟩, healthy (some bs') true) := by
  obtain ⟨i, hi, hslot⟩ := hblank
  have hself : mooUnpackRecord (mooPackRecord (mooUnpackRecord pkt)) = mooUnpackRecord pkt := by
    rw [mooUnpack_pack (isRC5Work_mooUnpack pkt).1, mooUnpackRecord, mooDecodeRecord,
      switchByteOrder_rc5 rfl]
    simp only [nulTerminate_nulTerminate]
  rcases blankSlot_cases bs (packetCount bs) (packetCount bs) 0 with ⟨-, hno⟩ | ⟨-, hlt, hfree⟩
  · exact absurd hslot (hno i (Nat.zero_le i) (by omega))
  · rw [Nat.zero_add] at hlt
    refine ⟨mooPutBytes bs (mooUnpackRecord pkt), ?_, ?_⟩
    · have hmore := oneMore_putPacketAt hmoo hlt hfree
        (mooPackRecord_ne_blank (mooUnpackRecord pkt))
      rw [hself] at hmore
      rwa [mooPutBytes, if_neg hlt.ne]
    · rw [put_moo hmoo, mooPutCount, if_neg hlt.ne]

/-- The scan of a get ends without a packet only where one is missing. -/
private theorem exists_missing_of_mooScan {bs : List U8} {left i : ℕ}
    (h : mooScan bs left i = none) : ∃ j, i ≤ j ∧ j < i + left ∧ packetAt bs j = none := by
  induction left generalizing i with
  | zero => cases h
  | succ left ih =>
    rw [mooScan] at h
    rcases hp : packetAt bs i with _ | pkt
    · exact ⟨i, Nat.le_refl i, by omega, hp⟩
    · by_cases hb : pkt = blankPacket
      · simp only [hp, if_pos hb] at h
        obtain ⟨j, hij, hj, hmissing⟩ := ih h
        exact ⟨j, Nat.le_of_succ_le hij, by omega, hmissing⟩
      · simp only [hp, if_neg hb] at h
        cases h

/-- **What a get of the import takes** from a Moo file: nothing if no record is counted, and then
the file is empty afterwards, or it is as it was and holds nothing else; otherwise a record. -/
theorem importingGet {s : Importing} {bs : List U8} (hbs : s.buffers.files source = some bs)
    (hmoo : isMooFile bs = true) (hfails : s.fails = false) :
    ((countedRecords bs).length = 0 ∧ (s.get source).1.rc ≠ 0 ∧
      ∃ bs', (s.get source).2.buffers.files source = some bs' ∧
        (bs' = [] ∨ bs' = bs ∧ CountCovers bs)) ∨
    ∃ pkt bs', OneMore (mooUnpackRecord pkt) bs' bs ∧ HasBlank bs' ∧
      countedRecords bs = mooUnpackRecord pkt :: countedRecords bs' ∧
      s.get source = (⟨0, some (mooUnpackRecord pkt), some (countedRecords bs').length⟩,
        s.tick.close source (healthy (some bs') true)) := by
  have hfile : s.buffers.atFile source = healthy (some bs) s.buffers.mooOutputMode := by
    rw [Buffers.atFile, hbs]
    rfl
  have hget : s.get source = ((bufferGetFileRecord (healthy (some bs) s.buffers.mooOutputMode) true
      BUFFER_FLAGS_REMOTEBUF).1, s.tick.close source
        (bufferGetFileRecord (healthy (some bs) s.buffers.mooOutputMode) true
          BUFFER_FLAGS_REMOTEBUF).2) := by
    rw [Importing.get, hfails, hfile]
    rfl
  have hfailed : (-1 : ℤ) ≠ 0 := by decide
  have hnone (h : ∀ j pkt, mooScan bs (packetCount bs) 0 ≠ some (some (j, pkt))) :
      (countedRecords bs).length = 0 := by
    rw [countedRecords, mooRecords_of_mooScan h]
    rfl
  rw [hget, get_moo hmoo]
  rcases hhdr : headerAt bs with _ | hdr
  · -- cut off within the header
    left
    have hcount : packetCount bs = 0 := by
      rw [packetCount, hhdr]
      rfl
    refine ⟨?_, hfailed, bs, Buffers.files_close_self .., Or.inr ⟨rfl, fun i q _ hq ↦ ?_⟩⟩
    · rw [countedRecords, hcount]
      rfl
    · have hshort := (sliceAt_eq_none.mp hhdr).1
      have hlong := (packetAt_eq_some.mp hq).1
      rw [packetOffset_eq] at hlong
      omega
  · rcases hscan : mooScan bs (packetCount bs) 0 with _ | _ | ⟨j, pkt⟩
    · -- cut off before a packet that is counted, with blank ones before it
      left
      obtain ⟨j, -, hj, hmissing⟩ := exists_missing_of_mooScan hscan
      refine ⟨hnone fun j pkt h ↦ (by cases hscan.symm.trans h), hfailed, bs,
        Buffers.files_close_self .., Or.inr ⟨rfl, fun i q hi hq ↦ ?_⟩⟩
      rw [packetAt_none_of_le (by omega) hmissing] at hq
      cases hq
    · -- all that are counted are blank, so the file is truncated
      left
      exact ⟨hnone fun j pkt h ↦ (by cases hscan.symm.trans h), Int.one_ne_zero, [],
        Buffers.files_close_self .., Or.inl rfl⟩
    · right
      obtain ⟨hpkt, hne, hj⟩ := packetAt_of_mooScan hscan
      rw [Nat.zero_add] at hj
      have hcount := packetCount_putPacketAt hj blankPacket
      have hmore := oneMore_putPacketAt (isMooFile_putPacketAt hmoo j blankPacket)
        (hcount.symm ▸ hj) (packetAt_putPacketAt_self ..) hne
      rw [putPacketAt_putPacketAt_self hpkt] at hmore
      refine ⟨pkt, _, hmore, ⟨j, hcount.symm ▸ hj, packetAt_putPacketAt_self ..⟩, ?_, ?_⟩
      · rw [countedRecords, mooRecords_of_found hscan, countedRecords, hcount]
        rfl
      · rw [countedRecords, List.length_map]
        rfl

/-! ## What the buffers take -/

/-- The RC5-72 input buffer on disk takes records. -/
structure Accepts (client : Client) (w : Buffers) : Prop where
  limits : checkBuffLimits client = true
  format : EitherFormat (w.atFile (client.filename RC5_72 false))

/-- How many records a memory buffer holds at most: it grows in steps up to a limit. -/
def MemBuff.capacity (m : MemBuff) : ℕ :=
  m.maxcount + MEMBUFF_STEPS *
    ((MEMBUFF_COUNT_MAX - m.maxcount + (MEMBUFF_STEPS - 1)) / MEMBUFF_STEPS)

/-- The buffer that imported records go to takes one after `k` others: the file does, or there is
room in memory. -/
def Takes (client : Client) (w : Buffers) (k : ℕ) : Prop :=
  if client.nodiskbuffers = false then Accepts client w
  else (w.membufftable RC5_72 false).buff.length ≤ (w.membufftable RC5_72 false).maxcount ∧
    (w.membufftable RC5_72 false).buff.length + k < (w.membufftable RC5_72 false).capacity

/-- The buffer that imported records go to is not the source itself. -/
def Apart (client : Client) (source : Filename) : Prop :=
  client.nodiskbuffers = true ∨ source ≠ client.filename RC5_72 false

instance (client : Client) (source : Filename) : Decidable (Apart client source) :=
  inferInstanceAs (Decidable (_ ∨ _))

private theorem eitherFormat_mode {file : Option (List U8)} {mode : Bool}
    (h : EitherFormat (healthy file mode)) (mode' : Bool) : EitherFormat (healthy file mode') := by
  obtain ⟨file', mode'', heq, hfile⟩ := h
  obtain rfl : file = file' := congrArg (·.disk.file) heq
  exact ⟨file, mode', rfl, hfile⟩

/-- Whether a file takes records does not depend on the flag. -/
theorem accepts_iff {w : Buffers} (mode : Bool) : Accepts client w ↔
    checkBuffLimits client = true ∧
      EitherFormat (healthy (w.files (client.filename RC5_72 false)) mode) :=
  ⟨fun h ↦ ⟨h.limits, eitherFormat_mode h.format mode⟩,
    fun h ↦ ⟨h.1, eitherFormat_mode h.2 w.mooOutputMode⟩⟩

/-! ## What becomes of the buffers -/

/-- Put a record into a file, once a Moo file has been seen. -/
def putFile (data : WorkRecord) (file : Option (List U8)) : PutReturn × Option (List U8) :=
  let (r, s) := bufferPutFileRecord (healthy file true) data true BUFFER_FLAGS_NONE
  (r, s.disk.file)

/-- How an import changes the buffers: the records go one after another into the RC5-72 input
buffer, unless that is the source. Nothing is said of the source. -/
structure Puts (client : Client) (source : Filename) (rs : List WorkRecord) (w w' : Buffers) :
    Prop where
  file : client.nodiskbuffers = false → source ≠ client.filename RC5_72 false →
    w'.files (client.filename RC5_72 false) =
      final putFile rs (w.files (client.filename RC5_72 false))
  files : ∀ filename ≠ source, (client.nodiskbuffers = false →
    filename ≠ client.filename RC5_72 false) → w'.files filename = w.files filename
  buff : client.nodiskbuffers = true →
    (w'.membufftable RC5_72 false).buff = (w.membufftable RC5_72 false).buff ++ rs
  others : ∀ contest isOut, (contest, isOut) ≠ (RC5_72, false) →
    w'.membufftable contest isOut = w.membufftable contest isOut

section Puts

variable {rs rs' : List WorkRecord} {w w' w'' : Buffers}

theorem puts_nil (hfiles : ∀ filename ≠ source, w'.files filename = w.files filename)
    (hmem : w'.membufftable = w.membufftable) : Puts client source [] w w' where
  file _ hne := hfiles _ (Ne.symm hne)
  files filename hne _ := hfiles filename hne
  buff _ := by rw [hmem, List.append_nil]
  others _ _ _ := by rw [hmem]

/-- Calls on the source put nothing. -/
theorem puts_close (b : BufferState) : Puts client source [] w (w.close source b) :=
  puts_nil (fun _ hne ↦ w.files_close_of_ne b hne) rfl

theorem Puts.trans (h : Puts client source rs w w') (h' : Puts client source rs' w' w'') :
    Puts client source (rs ++ rs') w w'' where
  file hdisk hne := by rw [h'.file hdisk hne, h.file hdisk hne, final_append]
  files filename hne hother := (h'.files filename hne hother).trans (h.files filename hne hother)
  buff hmem := by rw [h'.buff hmem, h.buff hmem, List.append_assoc]
  others contest isOut hne := (h'.others contest isOut hne).trans (h.others contest isOut hne)

end Puts

section Calls

variable (s : Importing)

theorem saved_get : (s.get source).2.saved = s.saved := by
  rw [Importing.get]
  split_ifs <;> rfl

theorem saved_resave (data : WorkRecord) : (s.resave source data).saved = s.saved := by
  rw [Importing.resave]
  split_ifs <;> rfl

theorem saved_finish (errs : Bool) : (s.finish source errs).saved = s.saved := by
  rw [Importing.finish]
  split_ifs <;> rfl

theorem puts_get : Puts client source [] s.buffers (s.get source).2.buffers := by
  rw [Importing.get]
  split_ifs
  · exact puts_nil (fun _ _ ↦ rfl) rfl
  · exact puts_close _

theorem puts_resave (data : WorkRecord) :
    Puts client source [] s.buffers (s.resave source data).buffers := by
  rw [Importing.resave]
  split_ifs
  · exact puts_nil (fun _ _ ↦ rfl) rfl
  · exact puts_close _

theorem puts_zap : Puts client source [] s.buffers (s.zap source).buffers := puts_close _

theorem puts_finish (errs : Bool) :
    Puts client source [] s.buffers (s.finish source errs).buffers := by
  rw [Importing.finish]
  split_ifs
  · exact puts_zap s
  · exact puts_nil (fun _ _ ↦ rfl) rfl

end Calls

/-! ## Puts -/

private theorem failed_not_pos : ¬(0 : ℤ) < -1 := by decide

/-- **What a memory buffer does with a record.** -/
private theorem putMem_cases (m : MemBuff) (data : WorkRecord) :
    let r := bufferPutMemRecord m data
    (m.buff.length ≤ m.maxcount ∧ m.buff.length < m.capacity ∧
      r.1 = ⟨0, some (m.buff.length + 1)⟩ ∧ r.2.buff = m.buff ++ [data] ∧ ∀ k,
        (r.2.buff.length ≤ r.2.maxcount ∧ r.2.buff.length + k < r.2.capacity ↔
          m.buff.length + (k + 1) < m.capacity)) ∨
    (¬(m.buff.length ≤ m.maxcount ∧ m.buff.length < m.capacity) ∧ r.1.rc = -1 ∧
      r.2.buff = m.buff) := by
  simp only [bufferPutMemRecord]
  by_cases hgrow : m.buff.length = m.maxcount ∧ m.maxcount < MEMBUFF_COUNT_MAX
  · left
    simp only [if_pos hgrow]
    rw [MEMBUFF_COUNT_MAX] at hgrow
    have hlt : m.buff.length < m.maxcount + MEMBUFF_STEPS := by rw [MEMBUFF_STEPS]; omega
    simp only [if_pos hlt, List.length_append, List.length_singleton]
    simp only [MemBuff.capacity, MEMBUFF_COUNT_MAX, MEMBUFF_STEPS]
    exact ⟨hgrow.1.le, by omega, trivial, trivial, fun k ↦ by omega⟩
  · simp only [if_neg hgrow]
    rw [MEMBUFF_COUNT_MAX] at hgrow
    by_cases hlt : m.buff.length < m.maxcount
    · left
      simp only [if_pos hlt, List.length_append, List.length_singleton]
      simp only [MemBuff.capacity, MEMBUFF_COUNT_MAX, MEMBUFF_STEPS]
      exact ⟨hlt.le, by omega, trivial, trivial, fun k ↦ by omega⟩
    · right
      simp only [if_neg hlt, MemBuff.capacity, MEMBUFF_COUNT_MAX, MEMBUFF_STEPS]
      exact ⟨by omega, trivial, trivial⟩

section Put

variable {data : WorkRecord} (hdata : IsRC5Work data)

include hdata

private theorem putBufferRecord_eq (w : Buffers) : putBufferRecord client data w =
    if checkBuffLimits client = false then ((-1 : ℤ), w)
    else
      let (r, w) := putInto client RC5_72 false data true w
      if r.rc = 0 then ((r.countP.getD 0 : ℤ), w) else (-1, w) := by
  have hcontest : ¬¬data.contest < CONTEST_COUNT := by rw [hdata.1]; decide
  have hstate : ¬¬IsWorkstate data.resultcode := not_not.mpr (Or.inl hdata.2)
  have hoff : decide (data.resultcode ≠ RESULT_WORKING) = false := by rw [hdata.2]; rfl
  rw [putBufferRecord, if_neg hcontest, if_neg hstate, hoff, hdata.1]

/-- **What a put does on disk**, once a Moo file has been seen. -/
private theorem put_onDisk (hdisk : client.nodiskbuffers = false) {w : Buffers}
    (hmode : w.mooOutputMode = true) :
    let put := putBufferRecord client data w
    (0 < put.1 ∧ Accepts client w ∧ Accepts client put.2 ∧
      Puts client source [data] w put.2) ∨
    (¬0 < put.1 ∧ ¬Accepts client w ∧ Puts client source [] w put.2) := by
  intro put
  have hput : put = putBufferRecord client data w := rfl
  rw [putBufferRecord_eq hdata] at hput
  by_cases hlimits : checkBuffLimits client = false
  · right
    rw [if_pos hlimits] at hput
    rw [hput]
    refine ⟨failed_not_pos, fun h ↦ ?_, puts_nil (fun _ _ ↦ rfl) rfl⟩
    rw [h.limits] at hlimits
    cases hlimits
  · set target := client.filename RC5_72 false with htarget
    have hat : w.atFile target = healthy (w.files target) true := by rw [Buffers.atFile, hmode]; rfl
    simp only [if_neg hlimits, putInto, if_pos hdisk, ← htarget, hat] at hput
    by_cases hformat : EitherFormat (healthy (w.files target) true)
    · left
      have haccepts : Accepts client w :=
        (accepts_iff true).mpr ⟨Bool.eq_true_of_not_eq_false hlimits, hformat⟩
      obtain ⟨count, hcount, hdone⟩ :=
        put_of_eitherFormat hformat (show LocalFlags BUFFER_FLAGS_NONE by decide) data
      simp only [hdone, if_true, Option.getD_some] at hput
      have hnext := eitherFormat_exec hformat (.call (.put data true BUFFER_FLAGS_NONE))
      rw [hput]
      refine ⟨Int.natCast_pos.mpr hcount, haccepts, ?_, fun _ _ ↦ ?_, fun f _ hne ↦ ?_,
        fun h ↦ ?_, fun _ _ _ ↦ rfl⟩
      · obtain ⟨file, mode, heq, hfile⟩ := hnext
        refine (accepts_iff mode).mpr ⟨haccepts.limits, file, mode, ?_, hfile⟩
        rw [Buffers.files_close_self]
        exact congrArg (fun s : BufferState ↦ healthy s.disk.file mode) heq
      · exact Buffers.files_close_self ..
      · exact w.files_close_of_ne _ (hne hdisk)
      · rw [hdisk] at h
        cases h
    · right
      obtain ⟨s, hrefused, hfile⟩ := put_of_not_eitherFormat hformat data true BUFFER_FLAGS_NONE
      have hsame : put = (-1, w.close target s) := by
        rw [hput, hrefused]
        rfl
      rw [hsame]
      refine ⟨failed_not_pos, fun h ↦ hformat ((accepts_iff true).mp h).2,
        puts_nil (fun filename _ ↦ ?_) rfl⟩
      by_cases hname : filename = target
      · rw [hname, Buffers.files_close_self, hfile]
      · exact w.files_close_of_ne s hname

/-- **What a put does in memory.** -/
private theorem put_inMem (hmem : client.nodiskbuffers = true) (w : Buffers) :
    let put := putBufferRecord client data w
    (0 < put.1 ∧ Takes client w 0 ∧ (∀ k, Takes client put.2 k ↔ Takes client w (k + 1)) ∧
      Puts client source [data] w put.2) ∨
    (¬0 < put.1 ∧ ¬Takes client w 0 ∧ Puts client source [] w put.2) := by
  intro put
  have hdisk : ¬client.nodiskbuffers = false := by rw [hmem]; decide
  have hlimits : ¬checkBuffLimits client = false := by simp [checkBuffLimits, hmem]
  set m := w.membufftable RC5_72 false with hm
  have hput : put = (if (bufferPutMemRecord m data).1.rc = 0
        then ((bufferPutMemRecord m data).1.countP.getD 0 : ℤ) else -1,
      w.setMemBuff RC5_72 false (bufferPutMemRecord m data).2) := by
    simp only [put, putBufferRecord_eq hdata, if_neg hlimits, putInto, if_neg hdisk, ← hm]
    split_ifs <;> rfl
  have htable (m' : MemBuff) : (w.setMemBuff RC5_72 false m').membufftable RC5_72 false = m' := by
    simp [Buffers.setMemBuff]
  have hothers (m' : MemBuff) (contest : U32) (isOut : Bool)
      (hne : (contest, isOut) ≠ (RC5_72, false)) :
      (w.setMemBuff RC5_72 false m').membufftable contest isOut
        = w.membufftable contest isOut := by
    by_cases hcontest : contest = RC5_72
    · subst hcontest
      have hout : isOut ≠ false := fun h ↦ hne (by rw [h])
      simp [Buffers.setMemBuff, hout]
    · simp [Buffers.setMemBuff, hcontest]
  have hputs {rs : List WorkRecord} (hbuff : (bufferPutMemRecord m data).2.buff = m.buff ++ rs) :
      Puts client source rs w put.2 := by
    rw [hput]
    exact ⟨fun h ↦ absurd h hdisk, fun _ _ _ ↦ rfl, fun _ ↦ by rw [htable, hbuff], hothers _⟩
  simp only [Takes, if_neg hdisk]
  rcases putMem_cases m data with ⟨hle, hlt, hr, hbuff, hnext⟩ | ⟨hfull, hr, hbuff⟩
  · left
    refine ⟨?_, ⟨hle, hlt⟩, fun k ↦ ?_, hputs hbuff⟩
    · rw [hput, hr]
      exact Int.natCast_pos.mpr (Nat.succ_pos _)
    · rw [hput, htable, hnext k]
      exact ⟨fun h ↦ ⟨hle, h⟩, And.right⟩
  · right
    refine ⟨?_, hfull, hputs (hbuff.trans (List.append_nil _).symm)⟩
    have hne : ¬(-1 : ℤ) = 0 := by decide
    rw [hput, hr, if_neg hne]
    exact failed_not_pos

/-- **What a put of the import does** with the buffers. -/
theorem importingPut {s : Importing} (hmode : s.buffers.mooOutputMode = true) :
    let put := s.put client data
    put.2.saved = s.saved ∧ put.2.faults = s.faults.tail ∧
      ((0 < put.1 ∧ s.fails = false ∧ Takes client s.buffers 0 ∧
        (∀ k, Takes client put.2.buffers k ↔ Takes client s.buffers (k + 1)) ∧
        Puts client source [data] s.buffers put.2.buffers) ∨
      (¬0 < put.1 ∧ (s.fails = true ∨ ¬Takes client s.buffers 0) ∧
        Puts client source [] s.buffers put.2.buffers)) := by
  intro put
  rcases hfails : s.fails with _ | _
  · have hput : put = ((putBufferRecord client data s.buffers).1,
        { s.tick with buffers := (putBufferRecord client data s.buffers).2 }) := by
      simp only [put, Importing.put, hfails]
      rfl
    rw [hput]
    refine ⟨rfl, rfl, ?_⟩
    simp only [true_and]
    by_cases hdisk : client.nodiskbuffers = false
    · simp only [Takes, if_pos hdisk]
      rcases @put_onDisk client source data hdata hdisk s.buffers hmode with
        ⟨hpos, haccepts, haccepts', hputs⟩ | ⟨hneg, haccepts, hputs⟩
      · exact Or.inl ⟨hpos, haccepts, fun _ ↦ iff_of_true haccepts' haccepts, hputs⟩
      · exact Or.inr ⟨hneg, Or.inr haccepts, hputs⟩
    · rcases @put_inMem client source data hdata (Bool.eq_true_of_not_eq_false hdisk) s.buffers with
        ⟨hpos, htakes, hlater, hputs⟩ | ⟨hneg, htakes, hputs⟩
      · exact Or.inl ⟨hpos, htakes, hlater, hputs⟩
      · exact Or.inr ⟨hneg, Or.inr htakes, hputs⟩
  · have hput : put = (-1, s.tick) := by
      simp only [put, Importing.put, hfails]
      rfl
    rw [hput]
    exact ⟨rfl, rfl, Or.inr ⟨failed_not_pos, Or.inl rfl, puts_nil (fun _ _ ↦ rfl) rfl⟩⟩

end Put

/-- A put leaves the source alone, if it is not the buffer. -/
private theorem importingPut_apart (hapart : Apart client source) {data : WorkRecord}
    (hdata : IsRC5Work data) {s : Importing} (hmode : s.buffers.mooOutputMode = true) :
    (s.put client data).2.buffers.files source = s.buffers.files source := by
  have hputs (other : Filename) : ∃ rs,
      Puts client other rs s.buffers (s.put client data).2.buffers := by
    rcases (@importingPut client other data hdata s hmode).2.2 with h | h
    · exact ⟨_, h.2.2.2.2⟩
    · exact ⟨_, h.2.2⟩
  rcases hapart with hmem | hne
  · obtain ⟨rs, h⟩ := hputs ('x' :: source)
    exact h.files source (fun heq ↦ absurd (congrArg List.length heq) (by simp))
      fun hdisk ↦ nomatch hdisk.symm.trans hmem
  · obtain ⟨rs, h⟩ := hputs (client.filename RC5_72 false)
    exact h.files source hne fun _ ↦ hne

/-- What becomes of the source in a put, if it is the buffer itself: the record goes back where it
came from. -/
private theorem importingPut_same (hdisk : client.nodiskbuffers = false)
    (hsame : source = client.filename RC5_72 false) {s : Importing} {bs : List U8}
    (hbs : s.buffers.files source = some bs) (hmoo : isMooFile bs = true) (hblank : HasBlank bs)
    (pkt : Packet) :
    let put := s.put client (mooUnpackRecord pkt)
    (0 < put.1 → ∃ bs', OneMore (mooUnpackRecord pkt) bs bs' ∧
      put.2.buffers.files source = some bs') ∧
    (¬0 < put.1 → put.2.buffers.files source = some bs) := by
  intro put
  have hfile : s.buffers.atFile source = healthy (some bs) s.buffers.mooOutputMode := by
    rw [Buffers.atFile, hbs]
    rfl
  have hcount : 0 < packetCount bs := by
    obtain ⟨j, hj, -⟩ := hblank
    omega
  obtain ⟨bs', hmore, hput⟩ :=
    put_hasBlank hmoo hblank pkt s.buffers.mooOutputMode true BUFFER_FLAGS_NONE
  rcases hfails : s.fails with _ | _
  · by_cases hlimits : checkBuffLimits client = false
    · have hrefused : put = (-1, s.tick) := by
        simp only [put, Importing.put, hfails, putBufferRecord_eq (isRC5Work_mooUnpack pkt),
          if_pos hlimits]
        rfl
      rw [hrefused]
      exact ⟨fun h ↦ absurd h failed_not_pos, fun _ ↦ hbs⟩
    · have hdone : put = ((packetCount bs : ℤ),
          { s.tick with buffers := s.buffers.close source (healthy (some bs') true) }) := by
        simp only [put, Importing.put, hfails, putBufferRecord_eq (isRC5Work_mooUnpack pkt),
          if_neg hlimits, putInto, if_pos hdisk, ← hsame, hfile, hput]
        rfl
      rw [hdone]
      exact ⟨fun _ ↦ ⟨bs', hmore, Buffers.files_close_self ..⟩,
        fun h ↦ absurd (Int.natCast_pos.mpr hcount) h⟩
  · have hrefused : put = (-1, s.tick) := by
      simp only [put, Importing.put, hfails]
      rfl
    rw [hrefused]
    exact ⟨fun h ↦ absurd h failed_not_pos, fun _ ↦ hbs⟩

/-- **What a put of the import does** with a record that was taken from the source. -/
theorem importingPut_cases {s : Importing} {bs : List U8}
    (hbs : s.buffers.files source = some bs) (hmode : s.buffers.mooOutputMode = true)
    (hmoo : isMooFile bs = true) (hblank : HasBlank bs) (pkt : Packet) :
    let put := s.put client (mooUnpackRecord pkt)
    put.2.saved = s.saved ∧ put.2.faults = s.faults.tail ∧
      ((¬0 < put.1 ∧ (s.fails = true ∨ ¬Takes client s.buffers 0) ∧
        Puts client source [] s.buffers put.2.buffers ∧ put.2.buffers.files source = some bs) ∨
      (0 < put.1 ∧ s.fails = false ∧ Takes client s.buffers 0 ∧
        (∀ k, Takes client put.2.buffers k ↔ Takes client s.buffers (k + 1)) ∧
        Puts client source [mooUnpackRecord pkt] s.buffers put.2.buffers ∧
        (Apart client source ∧ put.2.buffers.files source = some bs ∨
          ¬Apart client source ∧ ∃ bs', OneMore (mooUnpackRecord pkt) bs bs' ∧
            put.2.buffers.files source = some bs'))) := by
  intro put
  have hdata := isRC5Work_mooUnpack pkt
  obtain ⟨hsaved, hfaults, hcases⟩ := @importingPut client source _ hdata s hmode
  refine ⟨hsaved, hfaults, ?_⟩
  by_cases hapart : Apart client source
  · have hsource : put.2.buffers.files source = some bs :=
      (importingPut_apart hapart hdata hmode).trans hbs
    rcases hcases with ⟨hpos, hworks, htakes, hlater, hputs⟩ | ⟨hneg, hwhy, hputs⟩
    · exact Or.inr ⟨hpos, hworks, htakes, hlater, hputs, Or.inl ⟨hapart, hsource⟩⟩
    · exact Or.inl ⟨hneg, hwhy, hputs, hsource⟩
  · have hdisk : client.nodiskbuffers = false :=
      Bool.eq_false_of_not_eq_true fun h ↦ hapart (Or.inl h)
    have hsame : source = client.filename RC5_72 false :=
      not_not.mp fun h ↦ hapart (Or.inr h)
    obtain ⟨hback, hkept⟩ := importingPut_same hdisk hsame hbs hmoo hblank pkt
    rcases hcases with ⟨hpos, hworks, htakes, hlater, hputs⟩ | ⟨hneg, hwhy, hputs⟩
    · exact Or.inr ⟨hpos, hworks, htakes, hlater, hputs, Or.inr ⟨hapart, hback hpos⟩⟩
    · exact Or.inl ⟨hneg, hwhy, hputs, hkept hneg⟩

end Hyunjin
