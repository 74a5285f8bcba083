import Hyunjin.Buffer.Effect
import Hyunjin.Slots.Store

/-!
# Stock files as slot stores

A stock file is any list of bodies, as long as its first body does not begin with the Moo magic. On
these the interface of `Buffer.File` is the slot store of `Slots.Store`. A get takes the first full
slot, and truncates the file when that slot is the last one; a put fills a blank slot or appends; a
count runs over the full slots.
-/

namespace Hyunjin

open Word Stdio Slots

/-- A flag word that does not ask for a remote buffer. -/
def LocalFlags (flags : U32) : Prop := flags &&& BUFFER_FLAGS_REMOTEBUF = 0#32

instance (flags : U32) : Decidable (LocalFlags flags) := inferInstanceAs (Decidable (_ = _))

theorem sliceAt_stock (cs : List Body) (i : ℕ) :
    sliceAt (joined cs) (i * 168) 168 = cs[i]? := by
  have := sliceAt_joined (n := 168) (List.length_nil (α := U8)) (by decide) cs i
  rwa [List.nil_append, Nat.zero_add] at this

theorem splice_stock {cs : List Body} {i : ℕ} (hi : i ≤ cs.length) (c : Body) :
    splice (joined cs) (i * 168) c.val = joined (fill cs i c) := by
  rw [fill]
  split_ifs with hlt
  · have := splice_joined (List.length_nil (α := U8)) hlt c
    rwa [List.nil_append, Nat.zero_add, List.nil_append] at this
  · have heq : i = cs.length := by omega
    have := splice_joined_end (List.length_nil (α := U8)) cs c
    rwa [List.nil_append, Nat.zero_add, List.nil_append, ← heq] at this

/-- The file a stock open finds or creates. -/
theorem bufferOpenFile_healthy {flags : U32} (h : LocalFlags flags) {file : Option (List U8)}
    {cs : List Body} (hfile : file.getD [] = joined cs) : ∃ q,
    bufferOpenFile ⟨file, 0, []⟩ flags = (some cs.length, ⟨some (joined cs), q, []⟩) := by
  have hopen : openOrCreate ⟨file, 0, []⟩ = ⟨some (joined cs), 0, []⟩ := by
    rcases file with _ | bs
    · rw [← hfile]
      rfl
    · rw [← hfile]
      rfl
  have hlen : (joined cs).length = cs.length * 168 := length_joined cs
  rw [bufferOpenFile, if_neg (fun hne ↦ hne h)]
  simp only [hopen, Disk.fseekEnd_healthy, hlen, SIZEOF_WORKRECORD, Nat.mul_mod_left, ne_eq,
    not_true, if_false, Nat.mul_div_cancel _ (by decide : 0 < 168)]
  exact ⟨_, rfl⟩

/-- The slot a put writes: the last blank one when it has to count, else the first. -/
def stockSlot (wantCount : Bool) : ℕ → ℕ → List Body → ℕ
  | _, writerec, [] => writerec
  | recno, writerec, c :: cs =>
    if c ≠ blankBody then stockSlot wantCount (recno + 1) writerec cs
    else if wantCount = false then recno
    else stockSlot wantCount (recno + 1) recno cs

theorem stockSlot_le (wantCount : Bool) {recno writerec : ℕ} (cs : List Body)
    (h : writerec ≤ recno + cs.length) :
    stockSlot wantCount recno writerec cs ≤ recno + cs.length := by
  induction cs generalizing recno writerec with
  | nil => exact h
  | cons c cs ih =>
    rw [List.length_cons] at h ⊢
    rw [stockSlot]
    split_ifs
    · exact (ih (by omega)).trans_eq (by omega)
    · omega
    · exact (ih (by omega)).trans_eq (by omega)

private theorem stockSlot_cases (wantCount : Bool) (recno writerec : ℕ) (cs : List Body) :
    stockSlot wantCount recno writerec cs = writerec ∨
      ∃ j, cs[j]? = some blankBody ∧ stockSlot wantCount recno writerec cs = recno + j := by
  induction cs generalizing recno writerec with
  | nil => exact Or.inl rfl
  | cons c cs ih =>
    rw [stockSlot]
    by_cases hc : c = blankBody
    · rw [if_neg (not_not.mpr hc)]
      have hhead : (c :: cs)[0]? = some blankBody := congrArg some hc
      split_ifs
      · exact Or.inr ⟨0, hhead, rfl⟩
      · rcases ih (recno + 1) recno with hslot | ⟨j, hj, hslot⟩
        · exact Or.inr ⟨0, hhead, hslot⟩
        · exact Or.inr ⟨j + 1, hj, by omega⟩
    · rw [if_pos hc]
      exact (ih (recno + 1) writerec).imp_right fun ⟨j, hj, hslot⟩ ↦ ⟨j + 1, hj, by omega⟩

/-- A put writes a blank slot, or the end. -/
theorem getElem?_stockSlot {wantCount : Bool} {cs : List Body}
    (h : stockSlot wantCount 0 cs.length cs < cs.length) :
    cs[stockSlot wantCount 0 cs.length cs]? = some blankBody := by
  rcases stockSlot_cases wantCount 0 cs.length cs with hslot | ⟨j, hj, hslot⟩
  · omega
  · rwa [hslot, Nat.zero_add]

private theorem stockSlot_of_full (recno writerec : ℕ) {cs : List Body}
    (h : blanks blankBody cs = 0) :
    stockSlot true recno writerec cs = writerec := by
  induction cs generalizing recno with
  | nil => rfl
  | cons c cs ih =>
    have hc : c ≠ blankBody := by
      rintro rfl
      rw [blanks_cons_blank] at h
      exact nomatch h
    rw [blanks_cons_of_ne hc] at h
    rw [stockSlot, if_pos hc, ih _ h]

private theorem stockSlot_of_count_le_one (recno : ℕ) {cs : List Body}
    (h : blanks blankBody cs ≤ 1) :
    stockSlot true recno (recno + cs.length) cs = recno + firstBlank blankBody cs := by
  induction cs generalizing recno with
  | nil => rfl
  | cons c cs ih =>
    rw [stockSlot, firstBlank, List.findIdx_cons]
    by_cases hc : c = blankBody
    · rw [hc, blanks_cons_blank] at h
      rw [if_neg (not_not.mpr hc), if_neg (by decide), stockSlot_of_full _ _ (by omega)]
      simp [hc]
    · rw [blanks_cons_of_ne hc] at h
      rw [if_pos hc, List.length_cons, Nat.add_comm cs.length, ← Nat.add_assoc, ih _ h]
      simp [hc, firstBlank, Nat.add_assoc, Nat.add_comm]

/-- The first blank slot is the last one when there are not two of them. -/
theorem stockSlot_eq_firstBlank {cs : List Body} (h : blanks blankBody cs ≤ 1) :
    stockSlot true 0 cs.length cs = firstBlank blankBody cs := by
  have hslot := stockSlot_of_count_le_one 0 h
  rwa [Nat.zero_add, Nat.zero_add] at hslot

/-- The records a put meets on its scan. -/
def stockMet (wantCount : Bool) : List Body → ℕ
  | [] => 0
  | c :: cs =>
    if c ≠ blankBody then stockMet wantCount cs + 1
    else if wantCount = false then 0
    else stockMet wantCount cs

theorem stockMet_eq (cs : List Body) : stockMet true cs = (full blankBody cs).length := by
  induction cs with
  | nil => rfl
  | cons c cs ih =>
    rw [stockMet]
    by_cases hc : c = blankBody
    · rw [if_neg (not_not.mpr hc), if_neg (by decide), hc, full_cons_blank, ih]
    · rw [if_pos hc, full_cons_of_ne hc, List.length_cons, ih]

/-- The stock scans read on from record `recno`, where `cs` is what is left of the file. -/
private def StandsAt (bs : List U8) (recno : ℕ) (cs : List Body) : Prop :=
  ∀ i, sliceAt bs ((recno + i) * 168) 168 = cs[i]?

private theorem StandsAt.head {bs : List U8} {recno : ℕ} {c : Body} {cs : List Body}
    (h : StandsAt bs recno (c :: cs)) : sliceAt bs (recno * 168) 168 = some c ∧
      recno * 168 + min 168 (bs.length - recno * 168) = (recno + 1) * 168 := by
  have hc : sliceAt bs (recno * 168) 168 = some c := h 0
  have hle := ((sliceAt_eq_some (by decide)).mp hc).1
  exact ⟨hc, by omega⟩

private theorem StandsAt.tail {bs : List U8} {recno : ℕ} {c : Body} {cs : List Body}
    (h : StandsAt bs recno (c :: cs)) : StandsAt bs (recno + 1) cs := by
  intro i
  rw [Nat.add_right_comm, Nat.add_assoc]
  exact h (i + 1)

private theorem standsAt_joined (cs : List Body) : StandsAt (joined cs) 0 cs := by
  intro i
  rw [Nat.zero_add, sliceAt_stock]

private theorem stockPutScan_healthy {bs : List U8} (wantCount : Bool) (cs : List Body)
    (recno writerec count : ℕ) (h : StandsAt bs recno cs) : ∃ q,
    stockPutScan wantCount cs.length recno writerec count ⟨some bs, recno * 168, []⟩ =
      (some (stockSlot wantCount recno writerec cs, count + stockMet wantCount cs),
        ⟨some bs, q, []⟩) := by
  induction cs generalizing recno writerec count with
  | nil => exact ⟨_, rfl⟩
  | cons c cs ih =>
    obtain ⟨hc, hpos⟩ := h.head
    rw [List.length_cons, stockPutScan, stockSlot, stockMet]
    simp only [Disk.fread_healthy, hc, hpos]
    by_cases hb : c = blankBody
    · rcases wantCount with _ | _
      · simp only [hb, ne_eq, not_true, if_false, if_true]
        exact ⟨_, rfl⟩
      · simp only [hb, ne_eq, not_true, if_false, Bool.true_eq_false]
        exact ih (recno + 1) recno count h.tail
    · simp only [hb, ne_eq, not_false_eq_true, if_true]
      obtain ⟨q, hq⟩ := ih (recno + 1) writerec (count + 1) h.tail
      exact ⟨q, by rw [hq, Nat.add_right_comm, Nat.add_assoc]⟩

private theorem stockGetScan_healthy {bs : List U8} (cs : List Body) (recno blanked : ℕ)
    (h : StandsAt bs recno cs) : ∃ q,
    stockGetScan cs.length recno blanked ⟨some bs, recno * 168, []⟩ =
      match firstFull blankBody cs with
      | none => ((.blank, blanked + cs.length), ⟨some bs, q, []⟩)
      | some (i, c) =>
        ((.record (stockUnpackRecord c), blanked + i + 1),
          ⟨some (splice bs ((recno + i) * 168) blankBody.val), q, []⟩) := by
  induction cs generalizing recno blanked with
  | nil => exact ⟨_, rfl⟩
  | cons c cs ih =>
    obtain ⟨hc, hpos⟩ := h.head
    rw [List.length_cons, stockGetScan, firstFull]
    simp only [Disk.fread_healthy, hc, hpos]
    by_cases hb : c = blankBody
    · obtain ⟨q, hq⟩ := ih (recno + 1) (blanked + 1) h.tail
      refine ⟨q, ?_⟩
      simp only [hb, if_true, hq]
      rcases firstFull blankBody cs with _ | ⟨i, d⟩
      · have hall : blanked + 1 + cs.length = blanked + (cs.length + 1) := by omega
        simp only [Option.map_none, hall]
      · have hblanked : blanked + 1 + i = blanked + (i + 1) := by omega
        have hrecno : recno + 1 + i = recno + (i + 1) := by omega
        simp only [Option.map_some, hblanked, hrecno]
    · simp only [if_neg hb, Disk.fseek_healthy, Disk.fwrite_healthy, SIZEOF_WORKRECORD,
        Bool.true_eq_false, if_false]
      exact ⟨_, rfl⟩

/-- The records of a contest in a stock file. -/
def stockRecords (contest : U32) (cs : List Body) : List WorkRecord :=
  ((full blankBody cs).map stockUnpackRecord).filter (·.contest = contest)

private theorem stockCountScan_healthy {bs : List U8} (contest : U32) (cs : List Body)
    (recno : ℕ) (h : StandsAt bs recno cs) : ∃ q,
    stockCountScan contest cs.length ⟨some bs, recno * 168, []⟩ =
      (some ((stockRecords contest cs).length, swuSum (stockRecords contest cs)),
        ⟨some bs, q, []⟩) := by
  induction cs generalizing recno with
  | nil => exact ⟨_, rfl⟩
  | cons c cs ih =>
    obtain ⟨hc, hpos⟩ := h.head
    obtain ⟨q, hq⟩ := ih (recno + 1) h.tail
    refine ⟨q, ?_⟩
    rw [List.length_cons, stockCountScan]
    simp only [Disk.fread_healthy, hc, hpos, hq, stockRecords]
    by_cases hb : c = blankBody
    · simp only [hb, if_true, full_cons_blank]
    · rw [full_cons_of_ne hb, List.map_cons]
      by_cases hcontest : (stockUnpackRecord c).contest = contest
      · simp [hb, hcontest, swuSum, Nat.add_comm]
      · simp [hb, hcontest]

/-- The slots of a stock file after the record in slot `i`, the first full one, has been taken; if
that was the last slot, nothing is left and the file is truncated. -/
def stockTake (cs : List Body) (i : ℕ) : List Body :=
  if i + 1 = cs.length then [] else cs.set i blankBody

theorem joined_ne_nil {cs : List Body} (h : cs ≠ []) : joined cs ≠ [] := by
  intro hnil
  have hlen := congrArg List.length hnil
  rw [length_joined, List.length_nil] at hlen
  exact h (List.length_eq_zero_iff.mp (by omega))

/-- Whether a stock file passes for a Moo file is up to its first record. -/
theorem isMooFile_joined_cons (c : Body) (cs : List Body) :
    isMooFile (joined (c :: cs)) = moo521IsHeader c.val := by
  have hget (i : ℕ) (hi : i < 168) : (joined (c :: cs)).getD i 0#8 = c.val.getD i 0#8 := by
    rw [joined_cons, List.getD_append _ _ _ _ (hi.trans_eq c.property.symm)]
  rw [isMooFile, moo521IsHeader, moo521IsHeader, hget 0 (by decide), hget 1 (by decide),
    hget 2 (by decide), hget 3 (by decide)]

theorem isMooFile_set_blank {cs : List Body} (h : isMooFile (joined cs) = false) (i : ℕ) :
    isMooFile (joined (cs.set i blankBody)) = false := by
  rcases cs with _ | ⟨c, cs⟩
  · exact h
  · rcases i with _ | i
    · rw [List.set_cons_zero, isMooFile_joined_cons]
      rfl
    · rw [List.set_cons_succ, isMooFile_joined_cons, ← isMooFile_joined_cons c cs, h]

/-- Filling a slot makes a stock file pass for a Moo file only in the first slot. -/
theorem isMooFile_fill {cs : List Body} (h : isMooFile (joined cs) = false) {i : ℕ} {c : Body}
    (hc : i = 0 → moo521IsHeader c.val = false) (hi : i ≤ cs.length) :
    isMooFile (joined (fill cs i c)) = false := by
  rcases cs with _ | ⟨d, cs⟩
  · obtain rfl : i = 0 := Nat.le_zero.mp hi
    exact (isMooFile_joined_cons c []).trans (hc rfl)
  · rw [isMooFile_joined_cons] at h
    rw [fill]
    split_ifs
    · cases i with
      | zero => rw [List.set_cons_zero, isMooFile_joined_cons, hc rfl]
      | succ i => rw [List.set_cons_succ, isMooFile_joined_cons, h]
    · rw [List.cons_append, isMooFile_joined_cons, h]

theorem isMooFile_stockTake {cs : List Body} (h : isMooFile (joined cs) = false) (i : ℕ) :
    isMooFile (joined (stockTake cs i)) = false := by
  rw [stockTake]
  split_ifs
  · rfl
  · exact isMooFile_set_blank h i

/-! The interface. A file that is absent is treated as an empty one and exists afterwards. -/

variable {file : Option (List U8)} {cs : List Body} (hfile : file.getD [] = joined cs)
  (hstock : isMooFile (joined cs) = false)

include hfile hstock

private theorem mooFileDetect_stock (mode : Bool) :
    mooFileDetect (healthy file mode) = (false, healthy file mode) := by
  rcases file with _ | bs
  · rfl
  · rw [mooFileDetect_some, show bs = joined cs from hfile, hstock, Bool.or_false]

theorem count_stock (contest : U32) (mode : Bool) :
    bufferCountFileRecords (healthy file mode) contest =
      (⟨0, (stockRecords contest cs).length, swuSum (stockRecords contest cs)⟩,
        healthy (some (joined cs)) mode) := by
  obtain ⟨p, hp⟩ := bufferOpenFile_healthy (show LocalFlags BUFFER_FLAGS_NOLWRITE by decide) hfile
  obtain ⟨q, hq⟩ := stockCountScan_healthy contest cs 0 (standsAt_joined cs)
  rw [Nat.zero_mul] at hq
  rw [bufferCountFileRecords, mooFileDetect_stock hfile hstock]
  simp only [Bool.false_eq_true, if_false, healthy_disk, hp, Disk.fseek_healthy, if_true, hq]
  rfl

/-- A put takes the stock branch unless the file is to become a Moo file. -/
private theorem put_stock_branch {mode : Bool} (hmode : mode = false ∨ cs ≠ [])
    (data : WorkRecord) (wantCount : Bool) (flags : U32) :
    bufferPutFileRecord (healthy file mode) data wantCount flags =
      stockPut (healthy file mode) data wantCount flags := by
  rw [bufferPutFileRecord, mooFileDetect_stock hfile hstock]
  simp only [Bool.false_eq_true, if_false, healthy_mode]
  rcases hmode with rfl | hcs
  · simp
  · have hne := joined_ne_nil hcs
    have hmissing : mooFileMissing (healthy file mode) = (false, healthy file mode) := by
      rcases file with _ | bs
      · exact absurd hfile.symm hne
      · rw [mooFileMissing_some, show bs = joined cs from hfile, decide_eq_false hne]
    simp [hmissing]

/-- **What a put does to a stock file**, unless the file is to become a Moo file. -/
theorem put_stock {flags : U32} (hflags : LocalFlags flags) (mode : Bool)
    (hmode : mode = false ∨ cs ≠ []) (wantCount : Bool) (data : WorkRecord) :
    bufferPutFileRecord (healthy file mode) data wantCount flags =
      (⟨0, if wantCount then some (stockMet wantCount cs + 1) else none⟩,
        healthy (some (joined (fill cs (stockSlot wantCount 0 cs.length cs)
          (stockPackRecord data)))) mode) := by
  obtain ⟨p, hp⟩ := bufferOpenFile_healthy hflags hfile
  obtain ⟨q, hq⟩ := stockPutScan_healthy wantCount cs 0 cs.length 0 (standsAt_joined cs)
  rw [Nat.zero_mul, Nat.zero_add] at hq
  have hle : stockSlot wantCount 0 cs.length cs ≤ 0 + cs.length := stockSlot_le _ _ (by omega)
  have hput : stockPut (healthy file mode) data wantCount flags =
      (⟨0, if wantCount then some (stockMet wantCount cs + 1) else none⟩,
        healthy (some (joined (fill cs (stockSlot wantCount 0 cs.length cs)
          (stockPackRecord data)))) mode) := by
    simp only [stockPut, healthy_disk, hp, Disk.fseek_healthy, if_true, hq, Bool.true_eq_false,
      if_false, Disk.fwrite_healthy, Disk.fclose_mk, SIZEOF_WORKRECORD,
      splice_stock (hle.trans_eq (Nat.zero_add _)), healthy_mode]
    rfl
  rw [put_stock_branch hfile hstock hmode, hput]

/-- A get or put that asks for a remote buffer leaves a stock file alone. -/
theorem get_stock_remote {flags : U32} (hflags : ¬LocalFlags flags) (mode wantCount : Bool) :
    bufferGetFileRecord (healthy file mode) wantCount flags =
      (⟨-1, none, if wantCount then some 0 else none⟩, healthy file mode) := by
  have hopen : bufferOpenFile (healthy file mode).disk flags
    = (none, (healthy file mode).disk) := by
    rw [bufferOpenFile, if_pos (show flags &&& BUFFER_FLAGS_REMOTEBUF ≠ 0#32 from hflags)]
  rw [bufferGetFileRecord, mooFileDetect_stock hfile hstock]
  simp only [Bool.false_eq_true, if_false, stockGet, hopen]

theorem put_stock_remote {flags : U32} (hflags : ¬LocalFlags flags) (mode : Bool)
    (hmode : mode = false ∨ cs ≠ []) (wantCount : Bool) (data : WorkRecord) :
    bufferPutFileRecord (healthy file mode) data wantCount flags =
      (⟨-1, none⟩, healthy file mode) := by
  have hopen : bufferOpenFile (healthy file mode).disk flags
    = (none, (healthy file mode).disk) := by
    rw [bufferOpenFile, if_pos (show flags &&& BUFFER_FLAGS_REMOTEBUF ≠ 0#32 from hflags)]
  rw [put_stock_branch hfile hstock hmode]
  simp only [stockPut, hopen]

theorem get_stock_of_none {flags : U32} (hflags : LocalFlags flags)
    (h : firstFull blankBody cs = none) (mode wantCount : Bool) :
    bufferGetFileRecord (healthy file mode) wantCount flags =
      (⟨1, none, if wantCount then some 0 else none⟩, healthy (some []) mode) := by
  obtain ⟨p, hp⟩ := bufferOpenFile_healthy hflags hfile
  obtain ⟨q, hq⟩ := stockGetScan_healthy cs 0 0 (standsAt_joined cs)
  rw [Nat.zero_mul, h] at hq
  rw [bufferGetFileRecord, mooFileDetect_stock hfile hstock]
  simp only [Bool.false_eq_true, if_false, stockGet, healthy_disk, hp, Disk.fseek_healthy, if_true,
    hq, Nat.zero_add, Disk.fclose_mk, and_true, healthy_mode]
  rcases cs with _ | ⟨c, cs⟩
  · rfl
  · simp [bufferZapFileRecords, healthy]

theorem get_stock_of_some {flags : U32} (hflags : LocalFlags flags) {i : ℕ} {c : Body}
    (h : firstFull blankBody cs = some (i, c)) (mode wantCount : Bool) :
    bufferGetFileRecord (healthy file mode) wantCount flags =
      (⟨0, some (stockUnpackRecord c),
        if wantCount then
          some (stockRecords (stockUnpackRecord c).contest (stockTake cs i)).length
        else none⟩,
        healthy (some (joined (stockTake cs i))) mode) := by
  have hi : i < cs.length := (List.getElem?_eq_some_iff.mp (firstFull_eq_some h).1).1
  have hfile' : (some (joined (stockTake cs i))).getD [] = joined (stockTake cs i) := rfl
  have hcount := count_stock hfile' (isMooFile_stockTake hstock i)
    (stockUnpackRecord c).contest mode
  obtain ⟨p, hp⟩ := bufferOpenFile_healthy hflags hfile
  obtain ⟨q, hq⟩ := stockGetScan_healthy cs 0 0 (standsAt_joined cs)
  rw [Nat.zero_mul, h] at hq
  -- the file is truncated exactly when the slot that was blanked is the last one
  have hzap : (if 0 < cs.length ∧ cs.length = i + 1 then
        bufferZapFileRecords ⟨some (joined (cs.set i blankBody)), 0, []⟩
      else ⟨some (joined (cs.set i blankBody)), 0, []⟩)
      = (⟨some (joined (stockTake cs i)), 0, []⟩ : Disk) := by
    rw [stockTake]
    by_cases hlast : i + 1 = cs.length
    · rw [if_pos ⟨by omega, hlast.symm⟩, if_pos hlast]
      rfl
    · rw [if_neg fun hlen ↦ hlast hlen.2.symm, if_neg hlast]
  have hblank : splice (joined cs) (i * 168) blankBody.val = joined (cs.set i blankBody) := by
    rw [splice_stock hi.le, fill, if_pos hi]
  rw [bufferGetFileRecord, mooFileDetect_stock hfile hstock]
  simp only [Bool.false_eq_true, if_false, stockGet, healthy_disk, hp, Disk.fseek_healthy, if_true,
    hq, Nat.zero_add, Disk.fclose_mk, hblank, hzap, healthy_mode]
  rcases wantCount with _ | _
  · rfl
  · simp only [Bool.true_eq_false, if_false, if_true]
    rw [show (⟨⟨some (joined (stockTake cs i)), 0, []⟩, mode⟩ : BufferState)
      = healthy (some (joined (stockTake cs i))) mode from rfl, hcount]

end Hyunjin
