import Hyunjin.Buffer.Base
import Hyunjin.Buffer.Conservation
import Mathlib.Algebra.Order.BigOperators.Group.List

/-!
# The stats units of a Moo buffer

A count and a get read the same packets. A get takes every packet for work in progress, whatever
result code is stored with it; a count leaves the stored result code as it is, and asks for the
stats units of what it finds. There are none for a result code that is not one of the three, so a
packet with such a code is counted but its units are not.

`unitsAgree_iff` compares what a count reports with the units of all the records that getting over
and over delivers.
-/

namespace Hyunjin

open Word Stdio Slots

/-- The stats units that a counting function adds for a record. -/
def WorkRecord.units (r : WorkRecord) : ℕ := ((bufferGetRecordInfo r).map BitVec.toNat).getD 0

theorem swuSum_eq (rs : List WorkRecord) : swuSum rs = (rs.map WorkRecord.units).sum := rfl

/-- The records that getting over and over delivers, at most `n` of them. -/
def getAll (wantCount : Bool) (flags : U32) : ℕ → BufferState → List WorkRecord
  | 0, _ => []
  | n + 1, s =>
    match bufferGetFileRecord s wantCount flags with
    | (⟨0, some data, _⟩, s) => data :: getAll wantCount flags n s
    | _ => []

/-- **Getting over and over delivers every packet**, in the order of the slots. -/
theorem getAll_bytes (m : MooFile) (mode wantCount : Bool) (flags : U32) {n : ℕ}
    (hn : (full blankPacket m.slots).length < n) :
    getAll wantCount flags n (healthy (some m.bytes) mode)
      = (full blankPacket m.slots).map mooUnpackRecord := by
  induction n generalizing m mode with
  | zero => exact absurd hn (Nat.not_lt_zero _)
  | succ n ih =>
    rw [getAll]
    rcases hfirst : firstFull blankPacket m.slots with _ | ⟨i, pkt⟩
    · have hnone : full blankPacket m.slots = [] :=
        List.filter_eq_nil_iff.mpr fun c hc ↦ by simp [firstFull_eq_none.mp hfirst c hc]
      rw [m.get_bytes_of_none hfirst, hnone]
      rfl
    · have hsplit : full blankPacket m.slots
        = pkt :: full blankPacket (m.slots.set i blankPacket) :=
        full_of_firstFull hfirst
      have hlen : (full blankPacket (m.setSlot i blankPacket).slots).length < n := by
        rw [hsplit, List.length_cons] at hn
        exact Nat.lt_of_succ_lt_succ hn
      rw [m.get_bytes_of_some hfirst, hsplit, List.map_cons]
      exact congrArg _ (ih (m.setSlot i blankPacket) true hlen)

/-! ## The units of one packet -/

/-- The stats units of a record in progress. -/
theorem units_mooUnpackRecord (pkt : Packet) :
    (mooUnpackRecord pkt).units = (100#32 * (mooDecodeRecord pkt).work.val.getD 11 0#32).toNat := by
  have hcontest := contest_mooDecodeRecord pkt
  rw [WorkRecord.units, bufferGetRecordInfo, mooUnpackRecord, hcontest]
  rfl

/-- **A count sees the units of a packet** only under a known result code. -/
theorem units_mooDecodeRecord (pkt : Packet) : (mooDecodeRecord pkt).units =
    if IsWorkstate (mooDecodeRecord pkt).resultcode then (mooUnpackRecord pkt).units else 0 := by
  have hne : RC5_72 ≠ OGR_NG := by decide
  rw [units_mooUnpackRecord, WorkRecord.units, bufferGetRecordInfo, contest_mooDecodeRecord,
    workGetSWUCount]
  by_cases hcode : IsWorkstate (mooDecodeRecord pkt).resultcode
  · have hknown : ¬((mooDecodeRecord pkt).resultcode ≠ RESULT_WORKING ∧
        (mooDecodeRecord pkt).resultcode ≠ RESULT_FOUND ∧
        (mooDecodeRecord pkt).resultcode ≠ RESULT_NOTHING) := by
      rintro ⟨hw, hf, hn⟩
      rcases hcode with h | h | h
      · exact hw h
      · exact hf h
      · exact hn h
    rw [if_pos hcode, if_neg hknown, if_neg hne, if_pos rfl]
    rfl
  · have hunknown : (mooDecodeRecord pkt).resultcode ≠ RESULT_WORKING ∧
        (mooDecodeRecord pkt).resultcode ≠ RESULT_FOUND ∧
        (mooDecodeRecord pkt).resultcode ≠ RESULT_NOTHING :=
      ⟨fun h ↦ hcode (Or.inl h), fun h ↦ hcode (Or.inr (Or.inl h)),
        fun h ↦ hcode (Or.inr (Or.inr h))⟩
    rw [if_neg hcode, if_pos hunknown]
    rfl

/-- A packet whose units a count sees, or that has none. -/
def CountedAlike (pkt : Packet) : Prop :=
  IsWorkstate (mooDecodeRecord pkt).resultcode ∨
    100#32 * (mooDecodeRecord pkt).work.val.getD 11 0#32 = 0#32

instance (pkt : Packet) : Decidable (CountedAlike pkt) := inferInstanceAs (Decidable (_ ∨ _))

theorem units_eq_iff (pkt : Packet) :
    (mooDecodeRecord pkt).units = (mooUnpackRecord pkt).units ↔ CountedAlike pkt := by
  have hzero : (mooUnpackRecord pkt).units = 0 ↔
      100#32 * (mooDecodeRecord pkt).work.val.getD 11 0#32 = 0#32 := by
    rw [units_mooUnpackRecord, ← BitVec.toNat_inj]
    rfl
  rw [units_mooDecodeRecord, CountedAlike, ← hzero]
  by_cases hcode : IsWorkstate (mooDecodeRecord pkt).resultcode
  · rw [if_pos hcode]
    exact iff_of_true rfl (Or.inl hcode)
  · rw [if_neg hcode, or_iff_right hcode]
    exact eq_comm

theorem units_mooDecodeRecord_le (pkt : Packet) :
    (mooDecodeRecord pkt).units ≤ (mooUnpackRecord pkt).units := by
  rw [units_mooDecodeRecord]
  split_ifs
  · exact le_rfl
  · exact Nat.zero_le _

/-! ## The units of a file -/

/-- Sums of terms of which none is greater are equal only term by term. -/
private theorem sum_map_eq_iff {α : Type*} {f g : α → ℕ} (l : List α) (h : ∀ a ∈ l, f a ≤ g a) :
    (l.map f).sum = (l.map g).sum ↔ ∀ a ∈ l, f a = g a := by
  induction l with
  | nil => simp
  | cons a l ih =>
    have hhead := h a List.mem_cons_self
    have htail := ih fun b hb ↦ h b (List.mem_cons_of_mem a hb)
    have hle : (l.map f).sum ≤ (l.map g).sum :=
      List.sum_le_sum fun b hb ↦ h b (List.mem_cons_of_mem a hb)
    rw [List.map_cons, List.map_cons, List.sum_cons, List.sum_cons, List.forall_mem_cons, ← htail]
    omega

/-- A count reports the units of all the records that getting over and over delivers, and every
packet it counts adds the units of its record. -/
def UnitsAgree (m : MooFile) : Prop :=
  (∀ (mode wantCount : Bool) (flags : U32), ∀ n > m.slots.length,
    (bufferCountFileRecords (healthy (some m.bytes) mode) RC5_72).1.normcount
      = ((getAll wantCount flags n (healthy (some m.bytes) mode)).map WorkRecord.units).sum) ∧
  ∀ pkt ∈ full blankPacket m.slots, (mooDecodeRecord pkt).units = (mooUnpackRecord pkt).units

/-- **When a count and the gets agree on stats units.** Every packet in the file has one of the
three result codes stored with it, or no units. -/
theorem unitsAgree_iff (m : MooFile) :
    UnitsAgree m ↔ ∀ pkt ∈ m.slots, pkt ≠ blankPacket → CountedAlike pkt := by
  have hall : (∀ pkt ∈ full blankPacket m.slots, (mooDecodeRecord pkt).units
      = (mooUnpackRecord pkt).units) ↔ ∀ pkt ∈ m.slots, pkt ≠ blankPacket → CountedAlike pkt := by
    simp only [full, List.mem_filter, decide_eq_true_eq, and_imp, units_eq_iff]
  have hcounted : packetRecords RC5_72 m.slots = (full blankPacket m.slots).map mooDecodeRecord :=
    List.filter_eq_self.mpr fun r hr ↦ by
      obtain ⟨pkt, -, rfl⟩ := List.mem_map.mp hr
      exact decide_eq_true (contest_mooDecodeRecord pkt)
  have hsum (mode wantCount : Bool) (flags : U32) (n : ℕ) (hn : m.slots.length < n) :
      (bufferCountFileRecords (healthy (some m.bytes) mode) RC5_72).1.normcount
        = ((getAll wantCount flags n (healthy (some m.bytes) mode)).map WorkRecord.units).sum ↔
      ∀ pkt ∈ full blankPacket m.slots,
        (mooDecodeRecord pkt).units = (mooUnpackRecord pkt).units := by
    have hlen : (full blankPacket m.slots).length < n :=
      (List.length_filter_le ..).trans_lt hn
    rw [m.count_bytes, swuSum_eq, hcounted, getAll_bytes m mode wantCount flags hlen, List.map_map,
      List.map_map]
    exact sum_map_eq_iff _ fun pkt _ ↦ units_mooDecodeRecord_le pkt
  rw [← hall, UnitsAgree]
  constructor
  · exact And.right
  · intro h
    exact ⟨fun mode wantCount flags n hn ↦ (hsum mode wantCount flags n hn).mpr h, h⟩

/-- A packet of one stats unit, stored with a result code that is not one of the three. -/
def oddRecord : WorkRecord :=
  { emptyRecord with
    work := ⟨List.replicate 11 0#32 ++ 1#32 :: List.replicate 8 0#32, rfl⟩
    resultcode := 3#32 }

/-- **Units are missing from the count** of a file whose packet has an unknown result code. -/
theorem not_unitsAgree_odd : ¬UnitsAgree (MooFile.single oddRecord) := by
  rintro ⟨-, hunits⟩
  have hfull : mooPackRecord oddRecord ∈ full blankPacket (MooFile.single oddRecord).slots :=
    List.mem_filter.mpr ⟨List.mem_singleton.mpr rfl,
      decide_eq_true (mooPackRecord_ne_blank oddRecord)⟩
  have hcounted := (units_eq_iff _).mp (hunits _ hfull)
  rw [CountedAlike, mooDecode_pack rfl] at hcounted
  exact absurd hcounted (by decide)

end Hyunjin
