import Hyunjin.Word.Bytes
import Mathlib.Data.List.Basic

/-!
# A file and the stream open on it

The part of `stdio` that record files need: seek to an absolute offset, read a block of known size,
write a block over whatever is there, and truncate. A write past the end leaves a hole that reads as
zero bytes, so a file is best looked at through `List.getD · i 0`; `getD_splice` is the one lemma
about a write from which the others follow.

Seeks, reads and writes may fail. The faults to come are a list of flags, consumed one a call, and
an exhausted list means that nothing fails any more. A failing write leaves the file as it was.

## Files of equal-sized records

`joined cs` lays out blocks of one size end to end. Reading, overwriting and appending at a record
boundary are `cs[i]?`, `cs.set i c` and `cs ++ [c]`.
-/

namespace Hyunjin.Stdio

/-! ## Bytes at an offset -/

/-- The `n` bytes at offset `p`, if the file has them all. -/
def sliceAt (bs : List U8) (p n : ℕ) : Option (Bytes n) :=
  if h : ((bs.drop p).take n).length = n then some ⟨(bs.drop p).take n, h⟩ else none

/-- Write `data` at offset `p`, filling a hole before it with zeros. -/
def splice (bs : List U8) (p : ℕ) (data : List U8) : List U8 :=
  (bs ++ List.replicate (p - bs.length) 0#8).take p ++ data ++ bs.drop (p + data.length)

theorem length_splice (bs : List U8) (p : ℕ) (data : List U8) :
    (splice bs p data).length = max bs.length (p + data.length) := by
  simp only [splice, List.length_append, List.length_take, List.length_replicate, List.length_drop]
  omega

/-- **What a write leaves at every offset.** -/
theorem getD_splice (bs : List U8) (p : ℕ) (data : List U8) (i : ℕ) :
    (splice bs p data).getD i 0#8 =
      if p ≤ i ∧ i < p + data.length then data.getD (i - p) 0#8 else bs.getD i 0#8 := by
  have hlen : ((bs ++ List.replicate (p - bs.length) 0#8).take p).length = p := by
    simp only [List.length_take, List.length_append, List.length_replicate]
    omega
  simp only [splice, List.append_assoc, List.getD_eq_getElem?_getD]
  rcases Nat.lt_or_ge i p with hlt | hge
  · have hno : ¬(p ≤ i ∧ i < p + data.length) := by omega
    rw [if_neg hno, List.getElem?_append_left (by omega), List.getElem?_take_of_lt hlt]
    rcases Nat.lt_or_ge i bs.length with hin | hout
    · rw [List.getElem?_append_left hin]
    · rw [List.getElem?_append_right hout, List.getElem?_eq_none hout, List.getElem?_replicate]
      split_ifs <;> rfl
  · rw [List.getElem?_append_right (by omega), hlen]
    rcases Nat.lt_or_ge i (p + data.length) with hin | hout
    · rw [if_pos ⟨hge, hin⟩, List.getElem?_append_left (by omega)]
    · have hno : ¬(p ≤ i ∧ i < p + data.length) := by omega
      rw [if_neg hno, List.getElem?_append_right (by omega), List.getElem?_drop]
      congr 2
      omega

theorem ext_getD {bs bs' : List U8} (hlen : bs.length = bs'.length)
    (h : ∀ i < bs.length, bs.getD i 0#8 = bs'.getD i 0#8) : bs = bs' := by
  refine List.ext_getElem hlen fun i hi hi' ↦ ?_
  have := h i hi
  rwa [List.getD_eq_getElem _ _ hi, List.getD_eq_getElem _ _ hi'] at this

theorem sliceAt_eq_none {bs : List U8} {p n : ℕ} :
    sliceAt bs p n = none ↔ bs.length < p + n ∧ n ≠ 0 := by
  rw [sliceAt]
  split_ifs with h <;> simp only [List.length_take, List.length_drop] at h <;> simp <;> omega

theorem sliceAt_eq_some {bs : List U8} {p n : ℕ} {b : Bytes n} (hn : n ≠ 0) :
    sliceAt bs p n = some b ↔
      p + n ≤ bs.length ∧ ∀ k < n, b.val.getD k 0#8 = bs.getD (p + k) 0#8 := by
  have hget (k : ℕ) (hk : k < n) : ((bs.drop p).take n).getD k 0#8 = bs.getD (p + k) 0#8 := by
    rw [List.getD_eq_getElem?_getD, List.getD_eq_getElem?_getD, List.getElem?_take_of_lt hk,
      List.getElem?_drop]
  rw [sliceAt]
  split_ifs with h
  · have hle : p + n ≤ bs.length := by
      simp only [List.length_take, List.length_drop] at h
      omega
    constructor
    · rintro hb
      rw [← Option.some.inj hb]
      exact ⟨hle, hget⟩
    · rintro ⟨-, hb⟩
      refine congrArg some (Subtype.ext (ext_getD (h.trans b.property.symm) fun k hk ↦ ?_))
      have hk' : k < n := h ▸ hk
      rw [hget k hk', hb k hk']
  · have hgt : bs.length < p + n := by
      simp only [List.length_take, List.length_drop] at h
      omega
    exact iff_of_false (fun hb ↦ nomatch hb) fun hb ↦ absurd hb.1 (Nat.not_le.mpr hgt)

theorem val_of_sliceAt {bs : List U8} {p n : ℕ} {b : Bytes n} (h : sliceAt bs p n = some b) :
    (bs.drop p).take b.val.length = b.val := by
  rw [sliceAt] at h
  split_ifs at h
  rw [b.property, ← Option.some.inj h]

theorem sliceAt_splice_self (bs : List U8) (p : ℕ) {n : ℕ} (hn : n ≠ 0) (b : Bytes n) :
    sliceAt (splice bs p b.val) p n = some b := by
  rw [sliceAt_eq_some hn, length_splice, b.property]
  refine ⟨Nat.le_max_right _ _, fun k hk ↦ ?_⟩
  have hin : p ≤ p + k ∧ p + k < p + b.val.length := by rw [b.property]; omega
  rw [getD_splice, if_pos hin, Nat.add_sub_cancel_left]

/-- A write leaves alone what it does not overlap. -/
theorem sliceAt_splice_of_le {bs : List U8} {p q n : ℕ} {data : List U8} {b : Bytes n} (hn : n ≠ 0)
    (hdisj : q + n ≤ p ∨ p + data.length ≤ q) (h : sliceAt bs q n = some b) :
    sliceAt (splice bs p data) q n = some b := by
  rw [sliceAt_eq_some hn] at h ⊢
  refine ⟨h.1.trans (length_splice bs p data ▸ Nat.le_max_left _ _), fun k hk ↦ ?_⟩
  have hout : ¬(p ≤ q + k ∧ q + k < p + data.length) := by omega
  rw [getD_splice, if_neg hout, h.2 k hk]

/-- Reading a block off a file that is written out in parts. -/
theorem sliceAt_append {a r : List U8} {p n : ℕ} (hp : a.length = p) (b : Bytes n) :
    sliceAt (a ++ (b.val ++ r)) p n = some b := by
  have htake : ((a ++ (b.val ++ r)).drop p).take n = b.val := by
    rw [List.drop_left' hp, List.take_left' b.property]
  rw [sliceAt, dif_pos (by rw [htake, b.property])]
  exact congrArg some (Subtype.ext htake)

/-- Overwriting a part of a file. -/
theorem splice_append {a r old data : List U8} {p : ℕ} (hp : a.length = p)
    (hlen : old.length = data.length) :
    splice (a ++ (old ++ r)) p data = a ++ (data ++ r) := by
  have hhole : p - (a ++ (old ++ r)).length = 0 := by
    simp only [List.length_append]
    omega
  have hrest : (a ++ (old ++ r)).drop (p + data.length) = r := by
    rw [← List.append_assoc, List.drop_left' (by rw [List.length_append]; omega)]
  rw [splice, hhole, hrest, List.replicate_zero, List.append_nil, List.take_left' hp,
    List.append_assoc]

/-- Writing at the end of a file. -/
theorem splice_end {a data : List U8} {p : ℕ} (hp : a.length = p) :
    splice a p data = a ++ data := by
  rw [splice, hp, Nat.sub_self, List.replicate_zero, List.append_nil, List.take_of_length_le hp.le,
    List.drop_of_length_le (by omega), List.append_nil]

/-! ## Files of equal-sized records -/

section Joined

variable {n : ℕ}

/-- Blocks laid out end to end. -/
def joined (cs : List (Bytes n)) : List U8 := cs.flatMap Subtype.val

@[simp] theorem joined_nil : joined ([] : List (Bytes n)) = [] := rfl

@[simp] theorem joined_cons (c : Bytes n) (cs : List (Bytes n)) :
    joined (c :: cs) = c.val ++ joined cs := rfl

@[simp] theorem joined_append (cs cs' : List (Bytes n)) :
    joined (cs ++ cs') = joined cs ++ joined cs' := List.flatMap_append

@[simp] theorem length_joined (cs : List (Bytes n)) : (joined cs).length = cs.length * n := by
  induction cs with
  | nil => simp
  | cons c cs ih => rw [joined_cons, List.length_append, ih, c.property, List.length_cons,
      Nat.succ_mul, Nat.add_comm]

/-- Bytes that fill a whole number of blocks are blocks. -/
theorem exists_joined {bs : List U8} (hdvd : n ∣ bs.length) : ∃ cs : List (Bytes n),
    bs = joined cs := by
  obtain ⟨k, hk⟩ := hdvd
  induction k generalizing bs with
  | zero => exact ⟨[], List.length_eq_zero_iff.mp hk⟩
  | succ k ih =>
    have htake : (bs.take n).length = n := by
      rw [List.length_take, hk, Nat.mul_succ]
      exact Nat.min_eq_left (Nat.le_add_left ..)
    have hdrop : (bs.drop n).length = n * k := by
      rw [List.length_drop, hk, Nat.mul_succ, Nat.add_sub_cancel]
    obtain ⟨cs, hcs⟩ := ih hdrop
    refine ⟨⟨bs.take n, htake⟩ :: cs, ?_⟩
    rw [joined_cons, ← hcs, List.take_append_drop]

variable {hdr : List U8} {h : ℕ} (hh : hdr.length = h)

/-- A file of records, cut at record `i`. -/
private theorem append_joined_split (hdr : List U8) {cs : List (Bytes n)} {i : ℕ}
    (hi : i < cs.length) : hdr ++ joined cs =
      (hdr ++ joined (cs.take i)) ++ (cs[i].val ++ joined (cs.drop (i + 1))) := by
  rw [List.append_assoc, ← joined_cons, ← joined_append, ← List.drop_eq_getElem_cons hi,
    List.take_append_drop]

include hh

private theorem length_head {cs : List (Bytes n)} {i : ℕ} (hi : i ≤ cs.length) :
    (hdr ++ joined (cs.take i)).length = h + i * n := by
  rw [List.length_append, length_joined, List.length_take, Nat.min_eq_left hi, hh]

/-- Reading at a record boundary. -/
theorem sliceAt_joined (hn : n ≠ 0) (cs : List (Bytes n)) (i : ℕ) :
    sliceAt (hdr ++ joined cs) (h + i * n) n = cs[i]? := by
  rcases Nat.lt_or_ge i cs.length with hi | hi
  · rw [List.getElem?_eq_getElem hi, append_joined_split hdr hi,
      sliceAt_append (length_head hh hi.le)]
  · have hle := Nat.mul_le_mul_right n hi
    rw [List.getElem?_eq_none hi, sliceAt_eq_none, List.length_append, length_joined, hh]
    omega

/-- Overwriting a record. -/
theorem splice_joined {cs : List (Bytes n)} {i : ℕ} (hi : i < cs.length) (c : Bytes n) :
    splice (hdr ++ joined cs) (h + i * n) c.val = hdr ++ joined (cs.set i c) := by
  rw [append_joined_split hdr hi, splice_append (length_head hh hi.le)
    (cs[i].property.trans c.property.symm), List.set_eq_take_append_cons_drop, if_pos hi,
    joined_append, joined_cons, List.append_assoc]

/-- Appending a record. -/
theorem splice_joined_end (cs : List (Bytes n)) (c : Bytes n) :
    splice (hdr ++ joined cs) (h + cs.length * n) c.val = hdr ++ joined (cs ++ [c]) := by
  rw [splice_end (by rw [List.length_append, length_joined, hh]), joined_append, joined_cons,
    joined_nil, List.append_nil, List.append_assoc]

/-- Overwriting the header. -/
theorem splice_header {hdr' : List U8} (hh' : hdr'.length = h) (cs : List (Bytes n)) :
    splice (hdr ++ joined cs) 0 hdr' = hdr' ++ joined cs := by
  have happend : splice ([] ++ (hdr ++ joined cs)) 0 hdr' = [] ++ (hdr' ++ joined cs) :=
    splice_append rfl (hh.trans hh'.symm)
  rwa [List.nil_append, List.nil_append] at happend

end Joined

/-! ## The stream -/

/-- One file, the position of the stream open on it, and the faults to come. -/
structure Disk where
  file : Option (List U8)
  pos : ℕ
  faults : List Bool
  deriving DecidableEq, Repr

namespace Disk

/-- Open an existing file for reading or updating. -/
def fopen (d : Disk) : Option Disk := d.file.map fun _ ↦ { d with pos := 0 }

/-- Open for writing: the file is created, or truncated to zero length. -/
def fopenTruncate (d : Disk) : Disk := { d with file := some [], pos := 0 }

/-- Close the stream; a position means nothing without one. -/
def fclose (d : Disk) : Disk := { d with pos := 0 }

/-- Whether the next fallible call fails. -/
def fails (d : Disk) : Bool := d.faults.headD false

/-- The disk after a fallible call has been made. -/
def tick (d : Disk) : Disk := { d with faults := d.faults.tail }

def bytes (d : Disk) : List U8 := d.file.getD []

def fseek (d : Disk) (offset : ℕ) : Bool × Disk :=
  if d.fails then (false, d.tick) else (true, { d.tick with pos := offset })

/-- Seek to the end and tell the position, which is the length of the file. -/
def fseekEnd (d : Disk) : Option ℕ × Disk :=
  if d.fails then (none, d.tick) else (some d.bytes.length, { d.tick with pos := d.bytes.length })

/-- Read a block; a short read is a failure. -/
def fread (d : Disk) (n : ℕ) : Option (Bytes n) × Disk :=
  if d.fails then (none, d.tick)
  else (sliceAt d.bytes d.pos n, { d.tick with pos := d.pos + min n (d.bytes.length - d.pos) })

def fwrite (d : Disk) (data : List U8) : Bool × Disk :=
  if d.fails then (false, d.tick)
  else (true, { d.tick with
    file := some (splice d.bytes d.pos data)
    pos := d.pos + data.length })

/-! The calls on a disk without faults. -/

@[simp] theorem fopen_some (bs : List U8) (p : ℕ) :
    fopen ⟨some bs, p, []⟩ = some ⟨some bs, 0, []⟩ := rfl

@[simp] theorem fopen_none (p : ℕ) : fopen ⟨none, p, []⟩ = none := rfl

@[simp] theorem fclose_mk (f : Option (List U8)) (p : ℕ) (faults : List Bool) :
    fclose ⟨f, p, faults⟩ = ⟨f, 0, faults⟩ := rfl

@[simp] theorem fopenTruncate_mk (f : Option (List U8)) (p : ℕ) (faults : List Bool) :
    fopenTruncate ⟨f, p, faults⟩ = ⟨some [], 0, faults⟩ := rfl

@[simp] theorem fseek_healthy (f : Option (List U8)) (p offset : ℕ) :
    fseek ⟨f, p, []⟩ offset = (true, ⟨f, offset, []⟩) := rfl

@[simp] theorem fseekEnd_healthy (bs : List U8) (p : ℕ) :
    fseekEnd ⟨some bs, p, []⟩ = (some bs.length, ⟨some bs, bs.length, []⟩) := rfl

@[simp] theorem fread_healthy (bs : List U8) (p n : ℕ) : fread ⟨some bs, p, []⟩ n =
    (sliceAt bs p n, ⟨some bs, p + min n (bs.length - p), []⟩) := rfl

@[simp] theorem fwrite_healthy (bs : List U8) (p : ℕ) (data : List U8) :
    fwrite ⟨some bs, p, []⟩ data = (true, ⟨some (splice bs p data), p + data.length, []⟩) := rfl

end Disk

end Hyunjin.Stdio
