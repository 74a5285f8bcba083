import Hyunjin.Key.Format
import Hyunjin.Search.Linear
import Mathlib.Data.List.FinRange

/-!
# RC5-32/12/9 as the cores compute it

Key expansion and encryption are written out twice, once as the reference core has them and once as
the CUDA kernel has them: the table is filled by repeated addition in one and by multiplication in
the other, the rotations are different code, and the sums are associated differently. The two are
the same function of the plaintext block and the key (`hyEncrypt_eq`).

What a core wants to know about a key is `RC572UnitWork.verdict`: the low half of the encrypted
block decides a partial match and the high half makes it an exact one.
-/

namespace Hyunjin

open Word Search

/-- A 64-bit block as two words. -/
structure Block where
  hi : U32
  lo : U32
  deriving DecidableEq, Repr

/-- The counter-measure check: how many partial matches were seen and the last key that gave one. -/
structure CheckBlock where
  count : U32
  key : Key72
  deriving DecidableEq, Repr

structure RC572UnitWork where
  plain : Block
  cypher : Block
  L0 : Key72
  check : CheckBlock
  deriving DecidableEq, Repr

def RC5_P : U32 := 0xB7E15163#32

def RC5_Q : U32 := 0x9E3779B9#32

/-! ## Rotations -/

/-- The `ROTL` macro. A shift by 32 gives zero here; the macro meets one only when the other half of
the rotation is already the whole word. -/
def ROTL (x s : U32) : U32 :=
  (x <<< (s &&& 31#32).toNat) ||| (x >>> (32 - (s &&& 31#32).toNat))

def ROTL3 (x : U32) : U32 := ROTL x 3#32

def hyRotl (x n : U32) : U32 :=
  let n := n &&& 31#32
  if n = 0#32 then x else (x <<< n.toNat) ||| (x >>> (32 - n.toNat))

theorem hyRotl_eq (x n : U32) : hyRotl x n = ROTL x n := by
  simp only [hyRotl, ROTL]
  split_ifs with h
  · have hshift : x >>> 32 = 0#32 := BitVec.ushiftRight_eq_zero (Nat.le_refl 32)
    simp only [h, BitVec.toNat_ofNat, Nat.zero_mod, BitVec.shiftLeft_zero, Nat.sub_zero, hshift,
      BitVec.or_zero]
  · rfl

/-! ## Key expansion -/

/-- The tables, the two accumulators and the two cursors of the key expansion. -/
structure Schedule where
  S : Vector U32 26
  L : Vector U32 3
  A : U32
  B : U32
  i : Fin 26
  j : Fin 3

def refTable : Vector U32 26 :=
  (List.finRange 25).foldl (fun S (i : Fin 25) ↦ S.set (i.val + 1) (S[i.val] + RC5_Q))
    (Vector.replicate 26 RC5_P)

def refMix (s : Schedule) : Schedule :=
  let A := ROTL3 (s.S[s.i] + (s.A + s.B))
  let B := ROTL (s.L[s.j] + (A + s.B)) (A + s.B)
  { S := s.S.set s.i A, L := s.L.set s.j B, A := A, B := B, i := s.i + 1, j := s.j + 1 }

def refExpand (key : Key72) : Vector U32 26 :=
  (refMix^[3 * 26] ⟨refTable, #v[key.lo, key.mid, key.hi], 0, 0, 0, 0⟩).S

def hyTable : Vector U32 26 := Vector.ofFn fun it ↦ RC5_P + BitVec.ofNat 32 it * RC5_Q

def hyMix (s : Schedule) : Schedule :=
  let A := hyRotl (s.S[s.i] + s.A + s.B) 3#32
  let B := hyRotl (s.L[s.j] + A + s.B) (A + s.B)
  { S := s.S.set s.i A, L := s.L.set s.j B, A := A, B := B, i := s.i + 1, j := s.j + 1 }

def hyExpand (key : Key72) : Vector U32 26 :=
  (hyMix^[78] ⟨hyTable, #v[key.lo, key.mid, key.hi], 0, 0, 0, 0⟩).S

theorem hyTable_eq : hyTable = refTable := by decide +kernel

theorem hyMix_eq : hyMix = refMix := by
  funext s
  simp only [hyMix, refMix, hyRotl_eq, ROTL3, BitVec.add_assoc]

theorem hyExpand_eq (key : Key72) : hyExpand key = refExpand key := by
  rw [hyExpand, refExpand, hyTable_eq, hyMix_eq]

/-! ## Encryption -/

def refRound (S : Vector U32 26) (b : Block) (i : Fin 12) : Block :=
  let A := ROTL (b.lo ^^^ b.hi) b.hi + S[2 * (i.val + 1)]
  let B := ROTL (b.hi ^^^ A) A + S[2 * (i.val + 1) + 1]
  ⟨B, A⟩

def refEncrypt (plain : Block) (key : Key72) : Block :=
  let S := refExpand key
  (List.finRange 12).foldl (refRound S) ⟨plain.hi + S[1], plain.lo + S[0]⟩

def hyRound (S : Vector U32 26) (b : Block) (i : Fin 12) : Block :=
  let A := hyRotl (b.lo ^^^ b.hi) b.hi + S[2 + 2 * i.val]
  let B := hyRotl (b.hi ^^^ A) A + S[3 + 2 * i.val]
  ⟨B, A⟩

def hyEncrypt (plain : Block) (key : Key72) : Block :=
  let S := hyExpand key
  (List.finRange 12).foldl (hyRound S) ⟨plain.hi + S[1], plain.lo + S[0]⟩

theorem hyRound_eq (S : Vector U32 26) : hyRound S = refRound S := by
  funext b i
  have heven : 2 + 2 * i.val = 2 * (i.val + 1) := by omega
  have hodd : 3 + 2 * i.val = 2 * (i.val + 1) + 1 := by omega
  simp only [hyRound, refRound, hyRotl_eq, heven, hodd]

/-- **The kernel and the reference core encrypt alike.** -/
theorem hyEncrypt_eq (plain : Block) (key : Key72) : hyEncrypt plain key
    = refEncrypt plain key := by
  simp only [hyEncrypt, refEncrypt, hyExpand_eq, hyRound_eq]

/-! ## Places of the table -/

namespace Table

scoped instance neZero : NeZero 26 := ⟨by decide⟩

scoped instance neZero_words : NeZero 3 := ⟨by decide⟩

theorem zero_lt : 0 < 26 := by decide

theorem one_lt : 1 < 26 := by decide

theorem words_pos : 0 < 3 := by decide

theorem size_words (key : Key72) : #[key.lo, key.mid, key.hi].size = 3 := rfl

theorem fst_lt (b : Fin 26 × Fin 3) : b.1.val < 26 := b.1.isLt

theorem snd_lt (b : Fin 26 × Fin 3) : b.2.val < 3 := b.2.isLt

theorem fst_sub_lt (b : Fin 26 × Fin 3) : (b.1 - 1).val < 26 := (b.1 - 1).isLt

theorem snd_sub_lt (b : Fin 26 × Fin 3) : (b.2 - 1).val < 3 := (b.2 - 1).isLt

theorem i_lt (s : Schedule) : s.i.val < 26 := s.i.isLt

theorem j_lt (s : Schedule) : s.j.val < 3 := s.j.isLt

theorem even_lt (i : Fin 12) : 2 + 2 * i.val < 26 := by omega

theorem odd_lt (i : Fin 12) : 3 + 2 * i.val < 26 := by omega

end Table

/-- What a key turns out to be for a plaintext and a cyphertext block. -/
def verdict (plain cypher : Block) (key : Key72) : Verdict :=
  let c := refEncrypt plain key
  if c.lo = cypher.lo then if c.hi = cypher.hi then .hit else .near else .miss

/-- The test vector of the core's self-test. -/
example : verdict ⟨0x2FF17AF3#32, 0x3F3CA653#32⟩ ⟨0x2FB7852A#32, 0x562D285A#32⟩
    ⟨0x85#32, 0xFEE1D4C0#32, 0x53030CC9#32⟩ = .hit := by decide +kernel

def RC572UnitWork.verdict (w : RC572UnitWork) : Key72 → Verdict := Hyunjin.verdict w.plain w.cypher

end Hyunjin
