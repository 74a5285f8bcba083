import Hyunjin.Buffer.Conservation

/-!
# Moo buffers against stock buffers

The same calls on a Moo buffer and on a stock buffer, both holding nothing at first. As long as a
put finds at most one blank slot the two stay alike slot by slot and answer alike. With two or more
they part: the Moo branch fills the first of them and reports how many packets its header counts,
the stock branch fills the last and reports how many records there are (`put_diverges`).

Two stores may be alike although the Moo file has slots and the stock file has not, since taking the
record in the last slot truncates a stock file at once and a Moo file only at the next get.
-/

namespace Hyunjin

open Word Stdio Slots Run

/-! ## Alike slots -/

/-- A packet and a stock record are read as the same record in progress. -/
def ReadAlike (pkt : Packet) (c : Body) : Prop :=
  mooDecodeRecord pkt = stockUnpackRecord c ∧ mooUnpackRecord pkt = stockUnpackRecord c

/-- The slots of a Moo file against those of a stock file. -/
def SlotsAlike (slots : List Packet) (cs : List Body) : Prop :=
  Alike blankPacket blankBody ReadAlike slots cs ∨ (cs = [] ∧ ∀ p ∈ slots, p = blankPacket)

theorem readAlike_pack {data : WorkRecord} (hcontest : data.contest = RC5_72)
    (hworking : data.resultcode = RESULT_WORKING) :
    ReadAlike (mooPackRecord data) (stockPackRecord data) := by
  rw [ReadAlike, mooDecode_pack hcontest, mooUnpack_pack hcontest,
    stockUnpack_pack (Or.inl hcontest),
    ← hworking]
  exact ⟨rfl, rfl⟩

theorem slotAlike_pack {data : WorkRecord} (hcontest : data.contest = RC5_72)
    (hworking : data.resultcode = RESULT_WORKING) :
    SlotAlike blankPacket blankBody ReadAlike (mooPackRecord data) (stockPackRecord data) :=
  .full (mooPackRecord_ne_blank data) (stockPackRecord_ne_blank (Or.inl hcontest))
    (readAlike_pack hcontest hworking)

private theorem full_of_blank {slots : List Packet} (h : ∀ p ∈ slots, p = blankPacket) :
    full blankPacket slots = [] :=
  List.filter_eq_nil_iff.mpr fun p hp ↦ by simp [h p hp]

/-- The two files list the same records. -/
theorem SlotsAlike.records {slots : List Packet} {cs : List Body} (h : SlotsAlike slots cs)
    (contest : U32) : packetRecords contest slots = stockRecords contest cs := by
  rcases h with h | ⟨rfl, hblank⟩
  · rw [packetRecords, stockRecords, h.map_full fun _ _ hread ↦ hread.1]
  · rw [packetRecords, full_of_blank hblank]
    rfl

theorem SlotsAlike.length_full {slots : List Packet} {cs : List Body} (h : SlotsAlike slots cs) :
    (full blankPacket slots).length = (full blankBody cs).length := by
  rcases h with h | ⟨rfl, hblank⟩
  · have hmap := congrArg List.length (h.map_full fun _ _ hread ↦ hread.1)
    rwa [List.length_map, List.length_map] at hmap
  · rw [full_of_blank hblank]
    rfl

/-! ## The simulation -/

/-- A Moo buffer and a stock buffer with alike slots. -/
def Simulates (s t : BufferState) : Prop :=
  ∃ file slots file' cs, s = healthy file true ∧ Holds file slots ∧
    t = healthy file' false ∧ file'.getD [] = joined cs ∧ isMooFile (joined cs) = false ∧
    SlotsAlike slots cs

/-- The calls considered ask for the count. -/
def BufferCall.Counted : BufferCall → Prop
  | .put _ wantCount _ => wantCount = true
  | .get wantCount _ => wantCount = true
  | .count _ => True

/-- What keeps the two files alike: no call asks for a remote buffer, and a put finds room and at
most one blank slot in the Moo file, and does not write a record that begins with the Moo magic into
the first slot. -/
def BufferCall.KeepsStep (c : BufferCall) (s : BufferState) : Prop :=
  match c with
  | .put data _ flags =>
    let slots := presentPackets s.disk.bytes
    LocalFlags flags ∧ HasRoom s ∧ blanks blankPacket slots ≤ 1 ∧
      (firstBlank blankPacket slots = 0 → moo521IsHeader (stockPackRecord data).val = false)
  | .get _ flags => LocalFlags flags
  | .count _ => True

/-- A step of the simulation. -/
def StepsAlike (c : BufferCall) (s t : BufferState) : Prop :=
  (c.exec s).1 = (c.exec t).1 ∧ Simulates (c.exec s).2 (c.exec t).2

theorem stepsAlike_put {s t : BufferState} (hst : Simulates s t) {data : WorkRecord}
    (hcontest : data.contest = RC5_72) (hworking : data.resultcode = RESULT_WORKING) {flags : U32}
    (hkeeps : BufferCall.KeepsStep (.put data true flags) s) :
    StepsAlike (.put data true flags) s t := by
  obtain ⟨file, slots, file', cs, rfl, hfile, rfl, hcs, hstock, halike⟩ := hst
  obtain ⟨hflags, hroom, hone, hmagic⟩ := hkeeps
  rw [hfile.presentPackets] at hone hmagic
  obtain ⟨file₁, hfile₁, hput⟩ := hfile.put (hfile.room_of_hasRoom hroom) data
  have hpair := slotAlike_pack hcontest hworking
  -- both put into the same slot and then hold as many records as the Moo file has slots
  obtain ⟨hslot, halike₁⟩ : stockSlot true 0 cs.length cs = firstBlank blankPacket slots ∧
      SlotsAlike (fill slots (firstBlank blankPacket slots) (mooPackRecord data))
        (fill cs (stockSlot true 0 cs.length cs) (stockPackRecord data)) := by
    rcases halike with halike | ⟨rfl, hblank⟩
    · have hslot : stockSlot true 0 cs.length cs = firstBlank blankPacket slots := by
        rw [stockSlot_eq_firstBlank (halike.blanks ▸ hone), halike.firstBlank]
      exact ⟨hslot, hslot ▸ Or.inl (halike.fill _ hpair)⟩
    · have hzero : firstBlank blankPacket slots = 0 := by
        rcases slots with _ | ⟨p, slots⟩
        · rfl
        · simp [firstBlank, List.findIdx_cons, hblank p (List.mem_cons_self)]
      have hsingle : fill slots 0 (mooPackRecord data) = [mooPackRecord data] := by
        rcases slots with _ | ⟨p, _ | ⟨q, slots⟩⟩
        · rfl
        · rfl
        · rw [hblank p (by simp), hblank q (by simp), blanks_cons_blank, blanks_cons_blank] at hone
          omega
      rw [hzero, hsingle]
      exact ⟨rfl, Or.inl (List.Forall₂.cons hpair List.Forall₂.nil)⟩
  have hle : firstBlank blankPacket slots ≤ cs.length := by
    have := stockSlot_le true cs (show cs.length ≤ 0 + cs.length by omega)
    omega
  have hstored : (fill slots (firstBlank blankPacket slots) (mooPackRecord data)).length
      = stockMet true cs + 1 := by
    rw [length_fill_firstBlank hone, stockMet_eq, halike.length_full]
  rw [StepsAlike, BufferCall.exec, BufferCall.exec, hput,
    put_stock hcs hstock hflags false (Or.inl rfl), hstored]
  refine ⟨rfl, _, _, _, _, rfl, hfile₁, rfl, rfl, ?_, halike₁⟩
  rw [hslot]
  exact isMooFile_fill hstock hmagic hle

theorem stepsAlike_get {s t : BufferState} (hst : Simulates s t) {flags : U32}
    (hflags : LocalFlags flags) : StepsAlike (.get true flags) s t := by
  obtain ⟨file, slots, file', cs, rfl, hfile, rfl, hcs, hstock, halike⟩ := hst
  have hnothing (hslots : firstFull blankPacket slots = none)
    (hbodies : firstFull blankBody cs = none) :
      StepsAlike (.get true flags) (healthy file true) (healthy file' false) := by
    rw [StepsAlike, BufferCall.exec, BufferCall.exec, hfile.get_none hflags hslots,
      get_stock_of_none hcs hstock hflags hbodies]
    exact ⟨rfl, _, _, _, _, rfl, .empty, rfl, rfl, rfl, Or.inl List.Forall₂.nil⟩
  rcases halike with halike | ⟨rfl, hblank⟩
  · rcases halike.firstFull with ⟨hslots, hbodies⟩ | ⟨i, p, c, hslots, hbodies, hread⟩
    · exact hnothing hslots hbodies
    · obtain ⟨file₁, hfile₁, hget⟩ := hfile.get_some hslots
      have hrc5 : (stockUnpackRecord c).contest = RC5_72 :=
        hread.1 ▸ contest_mooDecodeRecord p
      -- the stock file is truncated at once if this was the record in its last slot
      have halike₁ : SlotsAlike (slots.set i blankPacket) (stockTake cs i) := by
        rw [stockTake]
        split_ifs with hlast
        · rw [← halike.length_eq] at hlast
          exact Or.inr ⟨rfl, eq_blank_of_take_last hslots hlast⟩
        · exact Or.inl (halike.set i .blank)
      rw [StepsAlike, BufferCall.exec, BufferCall.exec, hget,
        get_stock_of_some hcs hstock hflags hbodies, hread.2, hrc5, halike₁.records]
      exact ⟨rfl, _, _, _, _, rfl, hfile₁, rfl, rfl, isMooFile_stockTake hstock i, halike₁⟩
  · exact hnothing (firstFull_eq_none.mpr hblank) rfl

theorem stepsAlike_count {s t : BufferState} (hst : Simulates s t) (contest : U32) :
    StepsAlike (.count contest) s t := by
  obtain ⟨file, slots, file', cs, rfl, hfile, rfl, hcs, hstock, halike⟩ := hst
  obtain ⟨file₁, hfile₁, hcount⟩ := hfile.count contest
  rw [StepsAlike, BufferCall.exec, BufferCall.exec, hcount, count_stock hcs hstock, halike.records]
  exact ⟨rfl, _, _, _, _, rfl, hfile₁, rfl, rfl, hstock, halike⟩

/-- **A put that finds two blank slots is answered differently.** -/
theorem put_diverges {s t : BufferState} (hst : Simulates s t)
    (htwo : 2 ≤ blanks blankPacket (presentPackets s.disk.bytes)) (data : WorkRecord) {flags : U32}
    (hflags : LocalFlags flags) :
    (BufferCall.exec (.put data true flags) s).1 ≠
      (BufferCall.exec (.put data true flags) t).1 := by
  obtain ⟨file, slots, file', cs, rfl, hfile, rfl, hcs, hstock, halike⟩ := hst
  rw [hfile.presentPackets] at htwo
  have hmem : blankPacket ∈ slots := blanks_pos_iff.mp (by omega)
  obtain ⟨file₁, -, hput⟩ := hfile.put (Or.inr hmem) data
  have hlt : firstBlank blankPacket slots < slots.length := firstBlank_lt_iff.mpr hmem
  have hlen : (full blankPacket slots).length + blanks blankPacket slots = slots.length :=
    length_full_add_blanks slots
  rw [BufferCall.exec, BufferCall.exec, hput, put_stock hcs hstock hflags false (Or.inl rfl),
    stockMet_eq,
    ← halike.length_full, fill, if_pos hlt, List.length_set]
  intro h
  simp only [BufferAnswer.put.injEq, PutReturn.mk.injEq, Option.some.injEq, if_true, true_and] at h
  omega

/-! ## Runs -/

/-- The condition under which each call of a run is answered alike. -/
def BufferCall.Agrees (c : BufferCall) (s : BufferState) : Prop :=
  c.InProgress ∧ c.Counted ∧ c.KeepsStep s

theorem stepsAlike_of_agrees (c : BufferCall) (s t : BufferState) (hst : Simulates s t)
    (hc : c.Agrees s) : StepsAlike c s t := by
  obtain ⟨hprogress, hcounted, hkeeps⟩ := hc
  cases c with
  | put data wantCount flags =>
    obtain rfl : wantCount = true := hcounted
    exact stepsAlike_put hst hprogress.1 hprogress.2 hkeeps
  | get wantCount flags =>
    obtain rfl : wantCount = true := hcounted
    exact stepsAlike_get hst hkeeps
  | count contest => exact stepsAlike_count hst contest

/-- **The Moo back end answers as the stock back end does**, call for call, in every run whose calls
keep the two alike. -/
theorem moo_refines_stock {file file' : Option (List U8)} (hfile : Holds file [])
    (hfile' : file'.getD [] = []) {calls : List BufferCall}
    (hcalls : Guarded BufferCall.exec BufferCall.Agrees calls (healthy file true)) :
    outputs BufferCall.exec calls (healthy file true) =
      outputs BufferCall.exec calls (healthy file' false) := by
  have hstart : Simulates (healthy file true) (healthy file' false) :=
    ⟨file, [], file', [], rfl, hfile, rfl, hfile', rfl, Or.inl List.Forall₂.nil⟩
  exact List.forall₂_eq_eq_eq ▸ (simulation stepsAlike_of_agrees hstart hcalls).1

/-- A record put into a buffer that holds nothing, counted, and taken out again. -/
theorem moo_refines_stock_put_get :
    let calls := [BufferCall.put emptyRecord true BUFFER_FLAGS_NONE, BufferCall.count RC5_72,
      BufferCall.get true BUFFER_FLAGS_NONE]
    outputs BufferCall.exec calls (healthy none true) =
      outputs BufferCall.exec calls (healthy none false) :=
  moo_refines_stock .absent rfl
    ⟨⟨⟨rfl, rfl⟩, rfl, rfl, Or.inl (by decide), by decide, fun _ ↦ rfl⟩,
      ⟨trivial, trivial, trivial⟩, ⟨trivial, rfl, rfl⟩, trivial⟩

theorem Holds.hasRoom {file : Option (List U8)} {slots : List Packet} (h : Holds file slots)
    (hlt : slots.length < 0xFFFFFF) (mode : Bool) : HasRoom (healthy file mode) := by
  have hzero : packetCount [] < 0xFFFFFF := by decide
  cases h with
  | absent => exact Or.inl hzero
  | empty => exact Or.inl hzero
  | file m =>
    have hbytes : (healthy (some m.bytes) mode).disk.bytes = m.bytes := rfl
    rw [HasRoom, hbytes, m.packetCount_bytes]
    exact Or.inl hlt

/-- **The back ends part** when two records have been put and taken and a third is put: the Moo file
then reports two packets and the stock file one. -/
theorem two_blanks_part :
    let put := BufferCall.put emptyRecord true BUFFER_FLAGS_NONE
    let get := BufferCall.get true BUFFER_FLAGS_NONE
    outputs BufferCall.exec [put, put, get, get, put] (healthy none true) ≠
      outputs BufferCall.exec [put, put, get, get, put] (healthy none false) := by
  intro put get
  set p := mooPackRecord emptyRecord with hp
  have hne : p ≠ blankPacket := mooPackRecord_ne_blank emptyRecord
  obtain ⟨file₁, h₁, hput₁⟩ := Holds.absent.put (Or.inl (by decide)) emptyRecord
  have hslots₁ : fill [] (firstBlank blankPacket []) p = [p] := rfl
  rw [← hp, hslots₁] at h₁
  obtain ⟨file₂, h₂, hput₂⟩ := h₁.put (Or.inl (by simp)) emptyRecord
  have hslots₂ : fill [p] (firstBlank blankPacket [p]) p = [p, p] := by
    simp [fill, firstBlank, List.findIdx_cons, hne]
  rw [← hp, hslots₂] at h₂
  have hfull₂ : firstFull blankPacket [p, p] = some (0, p) := if_neg hne
  obtain ⟨file₃, h₃, hget₃⟩ := h₂.get_some hfull₂
  rw [List.set_cons_zero] at h₃
  have hfull₃ : firstFull blankPacket [blankPacket, p] = some (1, p) := by
    simp [firstFull, hne]
  obtain ⟨file₄, h₄, hget₄⟩ := h₃.get_some hfull₃
  rw [List.set_cons_succ, List.set_cons_zero] at h₄
  have hrun : Guarded BufferCall.exec BufferCall.Agrees [put, put, get, get]
    (healthy none true) := by
    refine ⟨⟨⟨rfl, rfl⟩, rfl, rfl, Or.inl (by decide), by decide, fun _ ↦ rfl⟩, ?_⟩
    simp only [put, get, BufferCall.exec, hput₁, hput₂, hget₃, Guarded]
    refine ⟨⟨⟨rfl, rfl⟩, rfl, rfl, h₁.hasRoom (by simp) true, ?_, fun _ ↦ rfl⟩,
      ⟨trivial, rfl, rfl⟩, ⟨trivial, rfl, rfl⟩, trivial⟩
    rw [h₁.presentPackets, blanks_cons_of_ne hne]
    exact Nat.zero_le 1
  have hstart : Simulates (healthy none true) (healthy none false) :=
    ⟨none, [], none, [], rfl, .absent, rfl, rfl, rfl, Or.inl List.Forall₂.nil⟩
  have hsim := (simulation stepsAlike_of_agrees hstart hrun).2
  have hfinal : final BufferCall.exec [put, put, get, get] (healthy none true)
      = healthy file₄ true := by
    simp only [put, get, final, BufferCall.exec, hput₁, hput₂, hget₃, hget₄]
  have htwo : 2 ≤ blanks blankPacket
      (presentPackets (final BufferCall.exec [put, put, get, get]
        (healthy none true)).disk.bytes) := by
    rw [hfinal, h₄.presentPackets, blanks_cons_blank, blanks_cons_blank]
    exact Nat.le_add_left 2 _
  intro houtputs
  simp only [outputs, List.cons.injEq] at houtputs
  exact put_diverges hsim htwo emptyRecord (show LocalFlags BUFFER_FLAGS_NONE from rfl)
    houtputs.2.2.2.2.1

end Hyunjin
