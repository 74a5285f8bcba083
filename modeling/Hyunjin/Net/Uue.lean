import Hyunjin.Net.Netline
import Hyunjin.Word.Memory
import Mathlib.Tactic.IntervalCases

/-!
# UUE

Data is sent in lines of up to 45 bytes, four characters for three bytes behind a character for the
length, between a line that begins with `begin` and a line `end`. A line is decoded in place: the
bytes are written over the characters that have been read.
-/

namespace Hyunjin.Net

open Memory

/-! ## Encoding -/

def uuEnc (c : U8) : U8 := if c &&& 63#8 ≠ 0#8 then (c &&& 63#8) + 32#8 else 96#8

/-- The characters of a line behind its length. -/
def uuGroups : List U8 → List U8
  | a :: b :: c :: data =>
    uuEnc (a >>> 2) :: uuEnc ((a <<< 4 &&& 48#8) ||| (b >>> 4 &&& 15#8))
      :: uuEnc ((b <<< 2 &&& 60#8) ||| (c >>> 6 &&& 3#8)) :: uuEnc (c &&& 63#8) :: uuGroups data
  | [a, b] =>
    [uuEnc (a >>> 2), uuEnc ((a <<< 4 &&& 48#8) ||| (b >>> 4 &&& 15#8)), uuEnc (b <<< 2 &&& 60#8),
      uuEnc 0#8]
  | [a] =>
    [uuEnc (a >>> 2), uuEnc ((a <<< 4 &&& 48#8) ||| (0#8 >>> 4 &&& 15#8)),
      uuEnc (0#8 <<< 2 &&& 60#8), uuEnc 0#8]
  | [] => []

def uuLine (data : List U8) : List U8 := uuEnc (BitVec.ofNat 8 data.length) :: uuGroups data

/-- The most bytes of a line. -/
def LINELEN : ℕ := 45

/-- The lines of data. There are at most as many as there are bytes. -/
def uuLinesLoop : ℕ → List U8 → List (List U8)
  | 0, _ => []
  | fuel + 1, data =>
    if data = [] then [] else uuLine (data.take LINELEN) :: uuLinesLoop fuel (data.drop LINELEN)

/-- `begin 644 query.txt` -/
def BEGIN_LINE : List U8 :=
  [98#8, 101#8, 103#8, 105#8, 110#8, 32#8, 54#8, 52#8, 52#8, 32#8, 113#8, 117#8, 101#8, 114#8,
    121#8, 46#8, 116#8, 120#8, 116#8]

/-- `end` -/
def END : List U8 := [101#8, 110#8, 100#8]

/-- Lines with their ends. -/
def textOf (lines : List (List U8)) : List U8 := lines.flatMap (· ++ [CR, LF])

theorem textOf_append (lines lines' : List (List U8)) :
    textOf (lines ++ lines') = textOf lines ++ textOf lines' := List.flatMap_append

theorem textOf_cons (l : List U8) (lines : List (List U8)) :
    textOf (l :: lines) = l ++ CR :: LF :: textOf lines := by
  rw [textOf, List.flatMap_cons, List.append_assoc]
  rfl

/-- The text that is sent for the data. -/
def uueText (data : List U8) : List U8 :=
  textOf (BEGIN_LINE :: uuLinesLoop data.length data ++ [END])

/-! ## Decoding -/

def uuDec (c : U8) : U8 := (c - 32#8) &&& 63#8

/-- The length of a line that says it has `n` bytes. -/
def uuLen (n : ℕ) : ℕ := n / 3 * 4 + (n % 3 + 1)

/-- A character of the line; `limit` of them may be read. -/
def readChar (limit : ℕ) (mem : List U8) (i : ℕ) : Option U8 := if i < limit then mem[i]? else none

/-- A byte from the characters at `i` and behind it. -/
def putByte (limit : ℕ) (f : U8 → U8 → U8) (mem : List U8) (dst i : ℕ) : Option (List U8) := do
  let a ← readChar limit mem i
  let b ← readChar limit mem (i + 1)
  store mem dst (f (uuDec a) (uuDec b))

/-- `n` bytes are decoded from the characters at `src`, and written at `dst`. -/
def uuLoop (limit : ℕ) : ℕ → List U8 → ℕ → ℕ → Option (List U8)
  | 0, mem, _, _ => some mem
  | 1, mem, dst, src => putByte limit (fun a b ↦ a <<< 2 ||| b >>> 4) mem dst src
  | 2, mem, dst, src => do
    let mem ← putByte limit (fun a b ↦ a <<< 2 ||| b >>> 4) mem dst src
    putByte limit (fun a b ↦ a <<< 4 ||| b >>> 2) mem (dst + 1) (src + 1)
  | n + 3, mem, dst, src => do
    let mem ← putByte limit (fun a b ↦ a <<< 2 ||| b >>> 4) mem dst src
    let mem ← putByte limit (fun a b ↦ a <<< 4 ||| b >>> 2) mem (dst + 1) (src + 1)
    let mem ← putByte limit (fun a b ↦ a <<< 6 ||| b) mem (dst + 2) (src + 2)
    uuLoop limit n mem (dst + 3) (src + 4)

/-- The line at the head of `mem` is decoded. -/
def uuDecodeLine (limit n : ℕ) (mem : List U8) : Option (List U8) := uuLoop limit n mem 0 1

/-! ## What is decoded -/

/-- The characters that `n` bytes are decoded from. -/
def uuNeed : ℕ → ℕ
  | 0 => 0
  | 1 => 2
  | 2 => 3
  | n + 3 => uuNeed n + 4

/-- The bytes that are decoded. -/
def uuBytes : ℕ → List U8 → List U8
  | n + 3, a :: b :: c :: d :: s =>
    (uuDec a <<< 2 ||| uuDec b >>> 4) :: (uuDec b <<< 4 ||| uuDec c >>> 2)
      :: (uuDec c <<< 6 ||| uuDec d) :: uuBytes n s
  | 2, a :: b :: c :: _ => [uuDec a <<< 2 ||| uuDec b >>> 4, uuDec b <<< 4 ||| uuDec c >>> 2]
  | 1, a :: b :: _ => [uuDec a <<< 2 ||| uuDec b >>> 4]
  | _, _ => []

theorem uuNeed_eq (n : ℕ) : uuNeed n = n / 3 * 4 + if n % 3 = 0 then 0 else n % 3 + 1 := by
  induction n using uuNeed.induct with
  | case1 | case2 | case3 => rfl
  | case4 n ih =>
    rw [uuNeed, ih, show n.succ.succ.succ / 3 = n / 3 + 1 by omega,
      show n.succ.succ.succ % 3 = n % 3 by omega]
    omega

/-- A line that is long enough for its length has all the characters but one. -/
theorem uuNeed_le (n : ℕ) : uuNeed n ≤ uuLen n := by
  rw [uuNeed_eq, uuLen]
  split_ifs <;> omega

/-! ## Decoding in place -/

variable {limit : ℕ} {mem : List U8} {dst src : ℕ}

theorem readChar_eq_none {i : ℕ} (h : limit ≤ i) : readChar limit mem i = none :=
  if_neg (not_lt.mpr h)

theorem readChar_of_drop {i : ℕ} {c : U8} {s : List U8} (hi : i < limit)
    (h : mem.drop i = c :: s) : readChar limit mem i = some c := by
  rw [readChar, if_pos hi, ← List.head?_drop, h, List.head?_cons]

theorem drop_store {mem mem' : List U8} {i k : ℕ} {c : U8} (h : store mem i c = some mem')
    (hk : i < k) : mem'.drop k = mem.drop k := by
  rw [store] at h
  split_ifs at h
  rw [← Option.some.inj h, List.drop_set_of_lt hk]

/-- A byte is decoded, and written before the characters that are read next. -/
theorem putByte_spec (limit : ℕ) (f : U8 → U8 → U8) {a b : U8} {s : List U8}
    (hlimit : src + 2 ≤ limit) (hdst : dst < src) (h : mem.drop src = a :: b :: s) :
    ∃ mem', putByte limit f mem dst src = some mem' ∧ mem'.length = mem.length
      ∧ mem'.take (dst + 1) = mem.take dst ++ [f (uuDec a) (uuDec b)]
      ∧ ∀ k, dst < k → mem'.drop k = mem.drop k := by
  have hlen := congrArg List.length h
  rw [List.length_drop, List.length_cons, List.length_cons] at hlen
  have hlt : dst < mem.length := by omega
  have hnext : mem.drop (src + 1) = b :: s := by
    rw [← List.drop_drop, h, List.drop_one, List.tail_cons]
  have hstore := store_of_lt hlt (f (uuDec a) (uuDec b))
  refine ⟨_, ?_, List.length_set, ?_, fun k hk ↦ drop_store hstore hk⟩
  · rw [putByte, readChar_of_drop (by omega) h, readChar_of_drop (by omega) hnext]
    exact hstore
  · rw [List.take_add_one, List.take_set_of_le le_rfl, List.getElem?_set_self hlt]
    rfl

theorem putByte_eq_none (f : U8 → U8 → U8) (h : limit ≤ src + 1) :
    putByte limit f mem dst src = none := by
  rw [putByte, readChar_eq_none h]
  cases readChar limit mem src <;> rfl

theorem exists_drop_two (mem : List U8) {i : ℕ} (h : i + 1 < mem.length) :
    ∃ a b, mem.drop i = a :: b :: mem.drop (i + 2) :=
  ⟨_, _, by rw [List.drop_eq_getElem_cons (by omega), List.drop_eq_getElem_cons h]⟩

/-- **A line is decoded in place** if all the characters may be read. -/
theorem uuLoop_spec (n : ℕ) {mem : List U8} {dst src : ℕ} (hdst : dst < src)
    (hlimit : src + uuNeed n ≤ limit) (hlen : src + uuNeed n ≤ mem.length) :
    ∃ mem', uuLoop limit n mem dst src = some mem' ∧ mem'.length = mem.length
      ∧ mem'.take (dst + n) = mem.take dst ++ uuBytes n (mem.drop src)
      ∧ ∀ k, dst + n ≤ k → mem'.drop k = mem.drop k := by
  induction n using uuNeed.induct generalizing mem dst src with
  | case1 => exact ⟨mem, rfl, rfl, (List.append_nil _).symm, fun _ _ ↦ rfl⟩
  | case2 =>
    rw [uuNeed] at hlimit hlen
    obtain ⟨a, b, h⟩ := exists_drop_two mem (show src + 1 < mem.length by omega)
    obtain ⟨m₁, hm₁, hlen₁, htake₁, hdrop₁⟩ :=
      putByte_spec limit (fun a b ↦ a <<< 2 ||| b >>> 4) hlimit hdst h
    exact ⟨m₁, hm₁, hlen₁, by rw [htake₁, h, uuBytes], hdrop₁⟩
  | case3 =>
    rw [uuNeed] at hlimit hlen
    obtain ⟨a, b, h⟩ := exists_drop_two mem (show src + 1 < mem.length by omega)
    rw [List.drop_eq_getElem_cons (show src + 2 < mem.length by omega)] at h
    generalize mem[src + 2] = c at h
    obtain ⟨m₁, hm₁, hlen₁, htake₁, hdrop₁⟩ :=
      putByte_spec limit (fun a b ↦ a <<< 2 ||| b >>> 4) (by omega) hdst h
    have h₁ : m₁.drop (src + 1) = b :: c :: mem.drop (src + 2 + 1) := by
      rw [hdrop₁ _ (by omega), ← List.drop_drop, h, List.drop_one, List.tail_cons]
    obtain ⟨m₂, hm₂, hlen₂, htake₂, hdrop₂⟩ := putByte_spec limit
      (fun a b ↦ a <<< 4 ||| b >>> 2) (by omega) (Nat.succ_lt_succ hdst) h₁
    refine ⟨m₂, ?_, hlen₂.trans hlen₁, ?_, fun k hk ↦ ?_⟩
    · rw [uuLoop, hm₁, Option.bind_eq_bind, Option.bind_some, hm₂]
    · rw [htake₂, htake₁, h, uuBytes, List.append_assoc, List.singleton_append]
    · rw [hdrop₂ k (by omega), hdrop₁ k (by omega)]
  | case4 n ih =>
    rw [uuNeed] at hlimit hlen
    obtain ⟨a, b, h⟩ := exists_drop_two mem (show src + 1 < mem.length by omega)
    obtain ⟨c, d, h'⟩ := exists_drop_two mem (show src + 2 + 1 < mem.length by omega)
    rw [h'] at h
    obtain ⟨m₁, hm₁, hlen₁, htake₁, hdrop₁⟩ := putByte_spec limit
      (fun a b ↦ a <<< 2 ||| b >>> 4) (by omega) hdst h
    have h₁ : m₁.drop (src + 1) = b :: c :: d :: mem.drop (src + 2 + 2) := by
      rw [hdrop₁ _ (by omega), ← List.drop_drop, h, List.drop_one, List.tail_cons]
    obtain ⟨m₂, hm₂, hlen₂, htake₂, hdrop₂⟩ := putByte_spec limit
      (fun a b ↦ a <<< 4 ||| b >>> 2) (by omega) (Nat.succ_lt_succ hdst) h₁
    have h₂ : m₂.drop (src + 2) = c :: d :: mem.drop (src + 2 + 2) := by
      rw [hdrop₂ _ (by omega), hdrop₁ _ (by omega), h']
    obtain ⟨m₃, hm₃, hlen₃, htake₃, hdrop₃⟩ := putByte_spec limit
      (fun a b ↦ a <<< 6 ||| b) (by omega) (show dst + 2 < src + 2 by omega) h₂
    have hlen' : m₃.length = mem.length := hlen₃.trans (hlen₂.trans hlen₁)
    have hdrop : ∀ k, dst + 2 < k → m₃.drop k = mem.drop k := fun k hk ↦ by
      rw [hdrop₃ k hk, hdrop₂ k (by omega), hdrop₁ k (by omega)]
    obtain ⟨m', hm', hlen'', htake', hdrop'⟩ := ih (show dst + 3 < src + 4 by omega)
      (by omega) (show src + 4 + uuNeed n ≤ m₃.length by omega)
    refine ⟨m', ?_, hlen''.trans hlen', ?_, fun k hk ↦ ?_⟩
    · rw [uuLoop, hm₁]
      simp only [Option.bind_eq_bind, Option.bind_some]
      rw [hm₂, Option.bind_some, hm₃, Option.bind_some, hm']
    · rw [show dst + n.succ.succ.succ = dst + 3 + n by omega, htake', htake₃, htake₂, htake₁,
        hdrop _ (by omega), h, uuBytes, List.append_assoc, List.append_assoc, List.append_assoc]
      rfl
    · rw [hdrop' k (by omega), hdrop k (by omega)]

/-- **A character that may not be read** is come to. -/
theorem uuLoop_eq_none (n : ℕ) {mem : List U8} {dst src : ℕ} (hsrc : src ≤ limit)
    (hlimit : limit < src + uuNeed n) : uuLoop limit n mem dst src = none := by
  induction n using uuNeed.induct generalizing mem dst src with
  | case1 => exact absurd hlimit (not_lt.mpr hsrc)
  | case2 => exact putByte_eq_none _ (Nat.le_of_lt_succ hlimit)
  | case3 =>
    have hlast : ∀ m, putByte limit (fun a b ↦ a <<< 4 ||| b >>> 2) m (dst + 1) (src + 1) = none :=
      fun m ↦ putByte_eq_none _ (Nat.le_of_lt_succ hlimit)
    simp only [uuLoop, hlast, Option.bind_eq_bind, Option.bind_fun_none]
  | case4 n ih =>
    rw [uuNeed] at hlimit
    by_cases hgroup : src + 4 ≤ limit
    · have hrest : ∀ m, uuLoop limit n m (dst + 3) (src + 4) = none := fun m ↦ ih hgroup (by omega)
      simp only [uuLoop, hrest, Option.bind_eq_bind, Option.bind_fun_none]
    · have hlast : ∀ m, putByte limit (fun a b ↦ a <<< 6 ||| b) m (dst + 2) (src + 2) = none :=
        fun m ↦ putByte_eq_none _ (by omega)
      simp only [uuLoop, hlast, Option.bind_eq_bind, Option.bind_fun_none, Option.bind_none]

/-- A line is decoded. -/
theorem uuDecodeLine_spec (n : ℕ) (mem : List U8) (hlimit : 1 + uuNeed n ≤ limit)
    (hlen : limit ≤ mem.length) :
    ∃ mem', uuDecodeLine limit n mem = some mem' ∧ mem'.length = mem.length
      ∧ mem'.take n = uuBytes n (mem.drop 1) ∧ ∀ k, n ≤ k → mem'.drop k = mem.drop k := by
  obtain ⟨mem', hmem, hlen', htake, hdrop⟩ :=
    uuLoop_spec n Nat.zero_lt_one hlimit (hlimit.trans hlen)
  rw [Nat.zero_add] at htake hdrop
  exact ⟨mem', hmem, hlen', htake, hdrop⟩

/-! ## What is encoded is decoded -/

theorem uuDec_uuEnc (c : U8) : uuDec (uuEnc c) = c &&& 63#8 := by
  revert c
  decide

theorem uuBytes_first (a b : U8) :
    uuDec (uuEnc (a >>> 2)) <<< 2
      ||| uuDec (uuEnc ((a <<< 4 &&& 48#8) ||| (b >>> 4 &&& 15#8))) >>> 4 = a := by
  rw [uuDec_uuEnc, uuDec_uuEnc]
  ext i hi
  interval_cases i <;> simp

theorem uuBytes_second (a b c : U8) :
    uuDec (uuEnc ((a <<< 4 &&& 48#8) ||| (b >>> 4 &&& 15#8))) <<< 4
      ||| uuDec (uuEnc ((b <<< 2 &&& 60#8) ||| (c >>> 6 &&& 3#8))) >>> 2 = b := by
  rw [uuDec_uuEnc, uuDec_uuEnc]
  ext i hi
  interval_cases i <;> simp

theorem uuBytes_third (b c : U8) :
    uuDec (uuEnc ((b <<< 2 &&& 60#8) ||| (c >>> 6 &&& 3#8))) <<< 6 ||| uuDec (uuEnc (c &&& 63#8))
      = c := by
  rw [uuDec_uuEnc, uuDec_uuEnc]
  ext i hi
  interval_cases i <;> simp

/-- **The groups of a line are decoded** to its bytes. -/
theorem uuBytes_uuGroups (data s : List U8) : uuBytes data.length (uuGroups data ++ s) = data := by
  induction data using uuGroups.induct with
  | case1 a b c data ih =>
    rw [uuGroups, List.length_cons, List.length_cons, List.length_cons]
    simp only [List.cons_append, uuBytes]
    rw [uuBytes_first, uuBytes_second, uuBytes_third, ih]
  | case2 a b =>
    have hlast : b <<< 2 &&& 60#8 = (b <<< 2 &&& 60#8) ||| (0#8 >>> 6 &&& 3#8) := by
      rw [show 0#8 >>> 6 &&& 3#8 = 0#8 by decide, BitVec.or_zero]
    rw [uuGroups, hlast]
    simp only [List.length_cons, List.length_nil, List.cons_append, uuBytes]
    rw [uuBytes_first, uuBytes_second]
  | case3 a =>
    rw [uuGroups]
    simp only [List.length_cons, List.length_nil, List.cons_append, uuBytes]
    rw [uuBytes_first]
  | case4 => rfl

theorem length_uuGroups (data : List U8) : (uuGroups data).length = (data.length + 2) / 3 * 4 := by
  induction data using uuGroups.induct with
  | case1 a b c data ih =>
    rw [uuGroups]
    simp only [List.length_cons]
    rw [ih]
    omega
  | case2 | case3 =>
    rw [uuGroups]
    simp only [List.length_cons, List.length_nil, Nat.reduceAdd, Nat.reduceDiv, Nat.reduceMul]
  | case4 => rfl

/-- All characters of a line are encoded bytes. -/
theorem uuGroups_mem {data : List U8} : ∀ c ∈ uuGroups data, ∃ b, uuEnc b = c := by
  induction data using uuGroups.induct with
  | case1 a b c data ih =>
    rw [uuGroups]
    simp only [List.forall_mem_cons]
    exact ⟨⟨_, rfl⟩, ⟨_, rfl⟩, ⟨_, rfl⟩, ⟨_, rfl⟩, ih⟩
  | case2 | case3 =>
    rw [uuGroups]
    simp only [List.forall_mem_cons]
    exact ⟨⟨_, rfl⟩, ⟨_, rfl⟩, ⟨_, rfl⟩, ⟨_, rfl⟩, List.forall_mem_nil _⟩
  | case4 => exact List.forall_mem_nil _

theorem uuLine_mem {data : List U8} : ∀ c ∈ uuLine data, ∃ b, uuEnc b = c := by
  rw [uuLine, List.forall_mem_cons]
  exact ⟨⟨_, rfl⟩, uuGroups_mem⟩

theorem uuEnc_printable (b : U8) : Printable (uuEnc b) := by
  revert b
  decide

theorem uuLine_printable {data : List U8} : ∀ c ∈ uuLine data, Printable c := fun c hc ↦ by
  obtain ⟨b, rfl⟩ := uuLine_mem c hc
  exact uuEnc_printable b

/-- The length of a line is read back. -/
theorem uuDec_length {data : List U8} (h : data.length ≤ LINELEN) :
    (uuDec (uuEnc (BitVec.ofNat 8 data.length))).toNat = data.length := by
  rw [uuDec_uuEnc]
  generalize data.length = n at h
  revert n
  decide

end Hyunjin.Net
