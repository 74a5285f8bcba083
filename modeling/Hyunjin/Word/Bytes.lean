import Mathlib.Data.List.Basic
import Mathlib.Data.Nat.Bitwise
import Mathlib.Tactic.IntervalCases

/-!
# Words and their bytes

Fixed-width words, the four bytes of a 32-bit word, and byte-order reversal. Mask-and-shift code on
32-bit words is reasoned about by writing every word as `ofLE b₀ b₁ b₂ b₃`, its little-endian bytes:
masks, shifts by whole bytes and additions at a byte position then act on single bytes, and the
numeric value is a sum of four terms that `omega` can handle.

The last section is the byte-string side: a list of words laid out little-endian and read back.
-/

namespace Hyunjin

abbrev U8 := BitVec 8

abbrev U16 := BitVec 16

abbrev U32 := BitVec 32

abbrev U64 := BitVec 64

namespace Word

/-! ## The four bytes of a word -/

/-- The word whose bytes, least significant first, are `b₀ b₁ b₂ b₃`. -/
def ofLE (b₀ b₁ b₂ b₃ : U8) : U32 := b₃ ++ b₂ ++ b₁ ++ b₀

/-- Byte `i` of a word, counted from the least significant one. -/
def byte (x : U32) (i : ℕ) : U8 := x.extractLsb' (8 * i) 8

theorem ofLE_byte (x : U32) : ofLE (byte x 0) (byte x 1) (byte x 2) (byte x 3) = x := by
  ext i hi
  simp only [ofLE, byte]
  grind

theorem exists_ofLE (x : U32) : ∃ a b c d, x = ofLE a b c d :=
  ⟨_, _, _, _, (ofLE_byte x).symm⟩

theorem toNat_ofLE (a b c d : U8) :
    (ofLE a b c d).toNat
      = a.toNat + 2 ^ 8 * b.toNat + 2 ^ 16 * c.toNat + 2 ^ 24 * d.toNat := by
  simp only [ofLE, BitVec.toNat_append]
  rw [← Nat.shiftLeft_add_eq_or_of_lt, ← Nat.shiftLeft_add_eq_or_of_lt,
    ← Nat.shiftLeft_add_eq_or_of_lt] <;> omega

theorem getLsbD_ofLE (a b c d : U8) (i : ℕ) :
    (ofLE a b c d).getLsbD i = if i < 8 then a.getLsbD i else if i < 16 then b.getLsbD (i - 8)
      else if i < 24 then c.getLsbD (i - 16) else d.getLsbD (i - 24) := by
  -- the append is stated at width `8 + 8 + 8 + 8`, which `U32` only equals by evaluation
  have happ : (ofLE a b c d).getLsbD i
      = (d ++ c ++ b ++ a : BitVec (8 + 8 + 8 + 8)).getLsbD i := rfl
  rw [happ]
  simp only [BitVec.getLsbD_append]
  grind

theorem ofLE_inj {a b c d a' b' c' d' : U8} :
    ofLE a b c d = ofLE a' b' c' d' ↔ a = a' ∧ b = b' ∧ c = c' ∧ d = d' := by
  constructor
  · intro h
    have hn := congrArg BitVec.toNat h
    rw [toNat_ofLE, toNat_ofLE] at hn
    refine ⟨?_, ?_, ?_, ?_⟩ <;> exact BitVec.eq_of_toNat_eq (by omega)
  · rintro ⟨rfl, rfl, rfl, rfl⟩
    rfl

theorem ofLE_eq_zero_iff {a b c d : U8} :
    ofLE a b c d = 0#32 ↔ a = 0#8 ∧ b = 0#8 ∧ c = 0#8 ∧ d = 0#8 := by
  rw [show (0#32 : U32) = ofLE 0#8 0#8 0#8 0#8 from rfl, ofLE_inj]

/-! ### Masks and whole-byte shifts -/

theorem ofLE_and (a b c d a' b' c' d' : U8) :
    ofLE a b c d &&& ofLE a' b' c' d' = ofLE (a &&& a') (b &&& b') (c &&& c') (d &&& d') := by
  refine BitVec.eq_of_getLsbD_eq fun i hi ↦ ?_
  simp only [BitVec.getLsbD_and, getLsbD_ofLE]
  split_ifs <;> rfl

theorem ofLE_or (a b c d a' b' c' d' : U8) :
    ofLE a b c d ||| ofLE a' b' c' d' = ofLE (a ||| a') (b ||| b') (c ||| c') (d ||| d') := by
  refine BitVec.eq_of_getLsbD_eq fun i hi ↦ ?_
  simp only [BitVec.getLsbD_or, getLsbD_ofLE]
  split_ifs <;> rfl

theorem ofLE_shiftLeft_8 (a b c d : U8) : ofLE a b c d <<< 8 = ofLE 0#8 a b c := by
  refine BitVec.eq_of_toNat_eq ?_
  rw [BitVec.toNat_shiftLeft, Nat.shiftLeft_eq, toNat_ofLE, toNat_ofLE]
  simp only [BitVec.toNat_ofNat]
  omega

theorem ofLE_shiftRight_8 (a b c d : U8) : ofLE a b c d >>> 8 = ofLE b c d 0#8 := by
  refine BitVec.eq_of_toNat_eq ?_
  rw [BitVec.toNat_ushiftRight, Nat.shiftRight_eq_div_pow, toNat_ofLE, toNat_ofLE]
  simp only [BitVec.toNat_ofNat]
  omega

theorem ofLE_shiftLeft_16 (a b c d : U8) : ofLE a b c d <<< 16 = ofLE 0#8 0#8 a b := by
  rw [show 16 = 8 + 8 from rfl, BitVec.shiftLeft_add, ofLE_shiftLeft_8, ofLE_shiftLeft_8]

theorem ofLE_shiftRight_16 (a b c d : U8) : ofLE a b c d >>> 16 = ofLE c d 0#8 0#8 := by
  rw [show 16 = 8 + 8 from rfl, BitVec.shiftRight_add, ofLE_shiftRight_8, ofLE_shiftRight_8]

theorem ofLE_shiftLeft_24 (a b c d : U8) : ofLE a b c d <<< 24 = ofLE 0#8 0#8 0#8 a := by
  rw [show 24 = 16 + 8 from rfl, BitVec.shiftLeft_add, ofLE_shiftLeft_16, ofLE_shiftLeft_8]

theorem ofLE_shiftRight_24 (a b c d : U8) : ofLE a b c d >>> 24 = ofLE d 0#8 0#8 0#8 := by
  rw [show 24 = 16 + 8 from rfl, BitVec.shiftRight_add, ofLE_shiftRight_16, ofLE_shiftRight_8]

/-! ## Byte-order reversal -/

/-- Reverse the bytes of a word. -/
def byteSwap (x : U32) : U32 :=
  ((x &&& 0x000000FF#32) <<< 24) ||| ((x &&& 0x0000FF00#32) <<< 8) |||
    ((x &&& 0x00FF0000#32) >>> 8) ||| ((x &&& 0xFF000000#32) >>> 24)

theorem mask_byte0 : 0x000000FF#32 = ofLE 0xFF#8 0#8 0#8 0#8 := rfl

theorem mask_byte1 : 0x0000FF00#32 = ofLE 0#8 0xFF#8 0#8 0#8 := rfl

theorem mask_byte2 : 0x00FF0000#32 = ofLE 0#8 0#8 0xFF#8 0#8 := rfl

theorem mask_byte3 : 0xFF000000#32 = ofLE 0#8 0#8 0#8 0xFF#8 := rfl

theorem and_ff (a : U8) : a &&& 0xFF#8 = a := by
  rw [show 0xFF#8 = BitVec.allOnes 8 from rfl, BitVec.and_allOnes]

@[simp] theorem byteSwap_ofLE (a b c d : U8) : byteSwap (ofLE a b c d) = ofLE d c b a := by
  simp only [byteSwap, mask_byte0, mask_byte1, mask_byte2, mask_byte3, ofLE_and,
    ofLE_shiftLeft_24, ofLE_shiftLeft_8, ofLE_shiftRight_8, ofLE_shiftRight_24, ofLE_or, and_ff,
    BitVec.and_zero, BitVec.or_zero, BitVec.zero_or]

@[simp] theorem byteSwap_byteSwap (x : U32) : byteSwap (byteSwap x) = x := by
  obtain ⟨a, b, c, d, rfl⟩ := exists_ofLE x
  rw [byteSwap_ofLE, byteSwap_ofLE]

theorem byteSwap_inj {x y : U32} : byteSwap x = byteSwap y ↔ x = y :=
  ⟨fun h ↦ by rw [← byteSwap_byteSwap x, h, byteSwap_byteSwap], fun h ↦ by rw [h]⟩

/-! ## Words as byte strings -/

/-- The bytes of a word in memory order on a little-endian host. -/
def leBytes (x : U32) : List U8 := [byte x 0, byte x 1, byte x 2, byte x 3]

/-- The word read from the first four bytes; missing bytes read as zero. -/
def leLoad (bs : List U8) : U32 :=
  ofLE (bs.getD 0 0) (bs.getD 1 0) (bs.getD 2 0) (bs.getD 3 0)

/-- The whole words of a byte string, in order. -/
def leWords : List U8 → List U32
  | a :: b :: c :: d :: rest => ofLE a b c d :: leWords rest
  | _ => []

/-- The byte string of a list of words. -/
def ofLEWords (ws : List U32) : List U8 := ws.flatMap leBytes

@[simp] theorem length_leBytes (x : U32) : (leBytes x).length = 4 := rfl

theorem leBytes_ofLE (a b c d : U8) : leBytes (ofLE a b c d) = [a, b, c, d] := by
  have h := ofLE_inj.mp (ofLE_byte (ofLE a b c d))
  rw [leBytes, h.1, h.2.1, h.2.2.1, h.2.2.2]

@[simp] theorem leLoad_leBytes (x : U32) (rest : List U8) : leLoad (leBytes x ++ rest) = x := by
  rw [leBytes, leLoad]
  exact ofLE_byte x

theorem leBytes_inj {x y : U32} : leBytes x = leBytes y ↔ x = y :=
  ⟨fun h ↦ by rw [← leLoad_leBytes x [], h, leLoad_leBytes], fun h ↦ by rw [h]⟩

@[simp] theorem ofLEWords_nil : ofLEWords [] = [] := rfl

@[simp] theorem ofLEWords_cons (x : U32) (ws : List U32) :
    ofLEWords (x :: ws) = leBytes x ++ ofLEWords ws := rfl

@[simp] theorem ofLEWords_append (ws vs : List U32) :
    ofLEWords (ws ++ vs) = ofLEWords ws ++ ofLEWords vs := List.flatMap_append

@[simp] theorem length_ofLEWords (ws : List U32) : (ofLEWords ws).length = 4 * ws.length := by
  induction ws with
  | nil => rfl
  | cons x ws ih =>
    rw [ofLEWords_cons, List.length_append, length_leBytes, ih, List.length_cons]
    omega

theorem leWords_leBytes_append (x : U32) (bs : List U8) :
    leWords (leBytes x ++ bs) = x :: leWords bs := by
  rw [leBytes, List.cons_append, List.cons_append, List.cons_append, List.cons_append,
    List.nil_append, leWords, ofLE_byte]

theorem leWords_ofLEWords (ws : List U32) : leWords (ofLEWords ws) = ws := by
  induction ws with
  | nil => rfl
  | cons x ws ih => rw [ofLEWords_cons, leWords_leBytes_append, ih]

theorem length_leWords : ∀ bs : List U8, (leWords bs).length = bs.length / 4
  | a :: b :: c :: d :: rest => by
    rw [leWords, List.length_cons, length_leWords rest]
    simp only [List.length_cons]
    omega
  | [] => by simp [leWords]
  | [_] => by simp [leWords]
  | [_, _] => by simp [leWords]
  | [_, _, _] => by simp [leWords]

/-- A byte string of whole words is recovered from its words. -/
theorem ofLEWords_leWords : ∀ bs : List U8, bs.length % 4 = 0 → ofLEWords (leWords bs) = bs
  | a :: b :: c :: d :: rest, h => by
    have hrest : rest.length % 4 = 0 := by
      simp only [List.length_cons] at h
      omega
    rw [leWords, ofLEWords_cons, leBytes_ofLE, ofLEWords_leWords rest hrest]
    rfl
  | [], _ => rfl
  | [_], h => by simp at h
  | [_, _], h => by simp at h
  | [_, _, _], h => by simp at h

/-! ## Big-endian words

Headers are written byte by byte with the most significant byte first. -/

/-- The word whose most significant byte comes first in memory. -/
def beLoad (bs : List U8) : U32 :=
  ((bs.getD 0 0).setWidth 32 <<< 24) ||| ((bs.getD 1 0).setWidth 32 <<< 16) |||
    ((bs.getD 2 0).setWidth 32 <<< 8) ||| (bs.getD 3 0).setWidth 32

def beBytes (x : U32) : List U8 :=
  [((x >>> 24) &&& 0xFF#32).setWidth 8, ((x >>> 16) &&& 0xFF#32).setWidth 8,
    ((x >>> 8) &&& 0xFF#32).setWidth 8, (x &&& 0xFF#32).setWidth 8]

private theorem setWidth_eq_ofLE (a : U8) : a.setWidth 32 = ofLE a 0#8 0#8 0#8 := by
  refine BitVec.eq_of_toNat_eq ?_
  rw [toNat_ofLE, BitVec.toNat_setWidth]
  simp only [BitVec.toNat_ofNat]
  omega

private theorem setWidth_ofLE (a b c d : U8) : (ofLE a b c d).setWidth 8 = a := by
  refine BitVec.eq_of_toNat_eq ?_
  rw [BitVec.toNat_setWidth, toNat_ofLE]
  omega

theorem beLoad_eq (bs : List U8) : beLoad bs = byteSwap (leLoad bs) := by
  simp only [beLoad, leLoad, byteSwap_ofLE, setWidth_eq_ofLE, ofLE_shiftLeft_24, ofLE_shiftLeft_16,
    ofLE_shiftLeft_8, ofLE_or, BitVec.zero_or, BitVec.or_zero]

theorem beBytes_eq (x : U32) : beBytes x = leBytes (byteSwap x) := by
  obtain ⟨a, b, c, d, rfl⟩ := exists_ofLE x
  have hmask (a b c d : U8) : ofLE a b c d &&& 0xFF#32 = ofLE a 0#8 0#8 0#8 := by
    rw [show 0xFF#32 = ofLE 0xFF#8 0#8 0#8 0#8 from rfl, ofLE_and]
    simp [and_ff]
  simp only [beBytes, byteSwap_ofLE, leBytes_ofLE, ofLE_shiftRight_24, ofLE_shiftRight_16,
    ofLE_shiftRight_8, hmask, setWidth_ofLE]

@[simp] theorem beLoad_beBytes (x : U32) (rest : List U8) : beLoad (beBytes x ++ rest) = x := by
  rw [beLoad_eq, beBytes_eq, leLoad_leBytes, byteSwap_byteSwap]

end Word

/-- A byte string of known length. -/
abbrev Bytes (n : ℕ) := {bs : List U8 // bs.length = n}

/-- A list of words of known length. -/
abbrev Words (n : ℕ) := {ws : List U32 // ws.length = n}

/-- The byte string of zeros. -/
def Bytes.zero (n : ℕ) : Bytes n := ⟨List.replicate n 0#8, List.length_replicate⟩

namespace Words

def map {n : ℕ} (f : U32 → U32) (ws : Words n) : Words n :=
  ⟨ws.val.map f, (List.length_map f).trans ws.property⟩

theorem map_map {n : ℕ} {f g : U32 → U32} (h : ∀ x, g (f x) = x) (ws : Words n) :
    (ws.map f).map g = ws := by
  refine Subtype.ext ?_
  simp only [map, List.map_map, show g ∘ f = id from funext h, List.map_id]

end Words

end Hyunjin
