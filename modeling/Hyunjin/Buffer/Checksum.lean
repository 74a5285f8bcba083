import Hyunjin.Buffer.Codec
import Hyunjin.Word.Triangular

/-!
# What the checksum of a packet detects

The checksum folds the same 42 dwords in eight times, by xor and a subtraction. Both are triangular
(`Word.Triangular`), so when one dword is changed, the lowest bit that the change flips comes into
the running sum at every pass: after one pass the sums differ there, after two they agree again.
Eight being even, the checksums of a body and of the changed body always agree in that bit and in
those below it, and it is left to the carries above whether they differ at all. A change of the top
bit alone, which has no bits above it, is never seen.

`moo521Checksum_eq_iff` says exactly when a change is not seen: when the sums that meet the changed
dword in the last pass differ by the very bits in which the dword was changed.
-/

namespace Hyunjin

open Word

namespace Body

def word (body : Body) (i : ℕ) : U32 := (leWords body.val).getD i 0#32

/-- The body with dword `i` replaced. -/
def setWord (body : Body) (i : ℕ) (v : U32) : Body :=
  ⟨ofLEWords ((leWords body.val).set i v), by simp [length_leWords, body.property]⟩

theorem leWords_setWord (body : Body) (i : ℕ) (v : U32) :
    leWords (body.setWord i v).val = (leWords body.val).set i v := leWords_ofLEWords _

theorem length_leWords (body : Body) : (leWords body.val).length = 42 := by
  rw [Word.length_leWords, body.property]

end Body

/-- The running sum after `n` passes over the dwords of a body. -/
def checksumPasses (n : ℕ) (rec168 : Body) : U32 :=
  (fun edi ↦ (leWords rec168.val).foldl checksumStep edi)^[n] MOO521_CKSEED

/-- The running sum that meets dword `i` in the pass after `n` passes. -/
def checksumAt (n i : ℕ) (rec168 : Body) : U32 :=
  ((leWords rec168.val).take i).foldl checksumStep (checksumPasses n rec168)

theorem checksumPasses_eight (body : Body) : checksumPasses 8 body = moo521Checksum body := rfl

theorem triangular_checksumStep (w : U32) : Triangular fun edi ↦ checksumStep edi w :=
  (triangular_sub MOO521_CKQ).comp (triangular_xor (byteSwap w))

section Change

variable (body : Body) (i : ℕ)

/-- The part of a pass before dword `i`. -/
private def before (edi : U32) : U32 := ((leWords body.val).take i).foldl checksumStep edi

/-- The part of a pass behind the xor with dword `i`. -/
private def behind (x : U32) : U32 :=
  ((leWords body.val).drop (i + 1)).foldl checksumStep (x - MOO521_CKQ)

private theorem triangular_before : Triangular (before body i) :=
  Triangular.foldl triangular_checksumStep _

private theorem triangular_behind : Triangular (behind body i) :=
  (Triangular.foldl triangular_checksumStep _).comp (triangular_sub MOO521_CKQ)

variable {i}

/-- A pass over the changed body, cut at the changed dword. -/
private theorem pass_setWord (hi : i < 42) (v edi : U32) :
    (leWords (body.setWord i v).val).foldl checksumStep edi
      = behind body i (byteSwap v ^^^ before body i edi) := by
  have hlt : i < (leWords body.val).length := by rwa [body.length_leWords]
  rw [body.leWords_setWord, List.set_eq_take_append_cons_drop, if_pos hlt, List.foldl_append,
    List.foldl_cons]
  rfl

/-- The sums that meet the changed dword go round through the parts of the pass. -/
private theorem checksumAt_setWord (hi : i < 42) (v : U32) (n : ℕ) :
    checksumAt n i (body.setWord i v)
      = (fun s ↦ before body i (behind body i (byteSwap v ^^^ s)))^[n]
          (before body i MOO521_CKSEED) := by
  have htake : (leWords (body.setWord i v).val).take i = (leWords body.val).take i := by
    rw [body.leWords_setWord, List.take_set_of_le (Nat.le_refl i)]
  rw [checksumAt, htake]
  change before body i _ = _
  induction n with
  | zero => rfl
  | succ n ih =>
    rw [Function.iterate_succ_apply', ← ih, checksumPasses, Function.iterate_succ_apply',
      pass_setWord body hi, ← checksumPasses]

private theorem checksumPasses_setWord (hi : i < 42) (v : U32) (n : ℕ) :
    checksumPasses (n + 1) (body.setWord i v)
      = behind body i (byteSwap v ^^^ checksumAt n i (body.setWord i v)) := by
  have htake : (leWords (body.setWord i v).val).take i = (leWords body.val).take i := by
    rw [body.leWords_setWord, List.take_set_of_le (Nat.le_refl i)]
  rw [checksumPasses, Function.iterate_succ_apply', pass_setWord body hi, ← checksumPasses,
    checksumAt, htake]
  rfl

/-- Replacing a dword by itself changes nothing. -/
theorem Body.setWord_word (hi : i < 42) : body.setWord i (body.word i) = body := by
  have hlt : i < (leWords body.val).length := by rwa [body.length_leWords]
  have hset : (leWords body.val).set i (body.word i) = leWords body.val := by
    rw [Body.word, List.getD_eq_getElem _ _ hlt, List.set_getElem_self]
  refine Subtype.ext ((congrArg ofLEWords hset).trans ?_)
  exact ofLEWords_leWords _ (by rw [body.property])

/-- The passes over a body, cut at one of its own dwords. -/
private theorem checksumPasses_self (hi : i < 42) (n : ℕ) :
    checksumPasses (n + 1) body
      = behind body i (byteSwap (body.word i) ^^^ checksumAt n i body) := by
  have h := checksumPasses_setWord body hi (body.word i) n
  rwa [body.setWord_word hi] at h

private theorem checksumAt_self (hi : i < 42) (n : ℕ) :
    checksumAt n i body
      = (fun s ↦ before body i (behind body i (byteSwap (body.word i) ^^^ s)))^[n]
          (before body i MOO521_CKSEED) := by
  have h := checksumAt_setWord body hi (body.word i) n
  rwa [body.setWord_word hi] at h

variable {v : U32} {j : ℕ}

/-- The lowest bit that the change flips differs in the sums that meet the dword after an odd number
of passes, and only there. -/
private theorem lowestDiff_checksumAt (hi : i < 42) (hj : j < 32)
    (hv : LowestDiff j (byteSwap v) (byteSwap (body.word i))) (n : ℕ) :
    (n % 2 = 0 → Agree (j + 1) (checksumAt n i (body.setWord i v)) (checksumAt n i body)) ∧
      (n % 2 = 1 →
        LowestDiff j (checksumAt n i (body.setWord i v)) (checksumAt n i body)) := by
  rw [checksumAt_setWord body hi, checksumAt_self body hi]
  exact lowestDiff_iterate ((triangular_before body i).comp (triangular_behind body i)) hj hv _ n

/-- **An odd number of passes sees every change**, in the lowest bit that it flips. -/
theorem lowestDiff_checksumPasses (hi : i < 42) (hj : j < 32)
    (hv : LowestDiff j (byteSwap v) (byteSwap (body.word i))) {n : ℕ} (hn : n % 2 = 1) :
    LowestDiff j (checksumPasses n (body.setWord i v)) (checksumPasses n body) := by
  obtain ⟨m, rfl⟩ := Nat.exists_eq_succ_of_ne_zero (n := n) (by rintro rfl; cases hn)
  rw [checksumPasses_setWord body hi, checksumPasses_self body hi,
    (triangular_behind body i).lowestDiff hj]
  exact hv.xor_agree ((lowestDiff_checksumAt body hi hj hv m).1 (by omega))

/-- **The checksums agree** in the lowest bit that a change flips, and in those below it. -/
theorem agree_moo521Checksum (hi : i < 42) (hj : j < 32)
    (hv : LowestDiff j (byteSwap v) (byteSwap (body.word i))) :
    Agree (j + 1) (moo521Checksum (body.setWord i v)) (moo521Checksum body) := by
  rw [← checksumPasses_eight, ← checksumPasses_eight, checksumPasses_setWord body hi,
    checksumPasses_self body hi, triangular_behind body i (j + 1) hj]
  exact hv.xor ((lowestDiff_checksumAt body hi hj hv 7).2 rfl)

/-- **When a change is not seen**: when the sums that meet the changed dword in the last pass differ
by the bits in which the dword was changed. -/
theorem moo521Checksum_eq_iff (hi : i < 42) (v : U32) :
    moo521Checksum (body.setWord i v) = moo521Checksum body ↔
      checksumAt 7 i (body.setWord i v) ^^^ checksumAt 7 i body
        = byteSwap v ^^^ byteSwap (body.word i) := by
  rw [← checksumPasses_eight, ← checksumPasses_eight, checksumPasses_setWord body hi,
    checksumPasses_self body hi, (triangular_behind body i).injective, xor_eq_xor_iff]

end Change

/-- **What the checksum detects of a changed dword.** After an odd number of passes every change
would be seen. The eight passes agree in the lowest bit the change flips and below, so that a change
of the top bit is never seen, and they see a change exactly if the sums that meet the dword in the
last pass do not differ by the very bits of the change. -/
theorem moo521Checksum_setWord (body : Body) {i : ℕ} (hi : i < 42) {v : U32}
    (hv : v ≠ body.word i) :
    (∃ j < 32, LowestDiff j (byteSwap v) (byteSwap (body.word i)) ∧
        (∀ n, n % 2 = 1 →
          LowestDiff j (checksumPasses n (body.setWord i v)) (checksumPasses n body)) ∧
        Agree (j + 1) (moo521Checksum (body.setWord i v)) (moo521Checksum body)) ∧
      (byteSwap v ^^^ byteSwap (body.word i) = 0x80000000#32 →
        moo521Checksum (body.setWord i v) = moo521Checksum body) ∧
      (moo521Checksum (body.setWord i v) ≠ moo521Checksum body ↔
        checksumAt 7 i (body.setWord i v) ^^^ checksumAt 7 i body
          ≠ byteSwap v ^^^ byteSwap (body.word i)) := by
  obtain ⟨j, hj, hdiff⟩ := exists_lowestDiff (byteSwap_inj.not.mpr hv)
  refine ⟨⟨j, hj, hdiff, fun n ↦ lowestDiff_checksumPasses body hi hj hdiff,
    agree_moo521Checksum body hi hj hdiff⟩, fun htop ↦ ?_, (moo521Checksum_eq_iff body hi v).not⟩
  have hdiff' : LowestDiff 31 (byteSwap v) (byteSwap (body.word i)) := by
    have hbit : LowestDiff 31 0x80000000#32 0#32 := by decide
    have hxor : LowestDiff 31 (0x80000000#32 ^^^ byteSwap (body.word i))
        (0#32 ^^^ byteSwap (body.word i)) := hbit.xor_agree rfl
    rwa [← htop, BitVec.xor_assoc, BitVec.xor_self, BitVec.xor_zero, BitVec.zero_xor] at hxor
  exact agree_width.mp (agree_moo521Checksum body hi (by decide) hdiff')

/-- A change of the low bit of the first byte of an empty body. -/
theorem moo521Checksum_setWord_zero : ∃ j < 32,
    Agree (j + 1) (moo521Checksum (Body.setWord (Bytes.zero 168) 0 1#32))
      (moo521Checksum (Bytes.zero 168)) := by
  obtain ⟨⟨j, hj, -, -, hagree⟩, -, -⟩ :=
    moo521Checksum_setWord (Bytes.zero 168) (i := 0) (v := 1#32) (by decide) (by decide +kernel)
  exact ⟨j, hj, hagree⟩

/-- The top bit of the first byte can be flipped unseen. -/
theorem moo521Checksum_setWord_top :
    0x80#32 ≠ Body.word (Bytes.zero 168) 0 ∧
      moo521Checksum (Body.setWord (Bytes.zero 168) 0 0x80#32)
        = moo521Checksum (Bytes.zero 168) := by
  decide +kernel

end Hyunjin
