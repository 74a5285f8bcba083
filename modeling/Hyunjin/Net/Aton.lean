import Hyunjin.Net.Netline
import Hyunjin.Word.Strings

/-!
# Numeric addresses

`_inet_atox` reads an address of up to four numbers with dots between them. `Address` says what is
one: a number has digits, and is decimal, octal or hexadecimal by how it begins.

The code does not look at how many digits it has read. It takes an empty text for a number, and `0x`
without digits, and an `x` alone for the mark of a hexadecimal number (`Sloppy`); and an address in
brackets is refused, because the bracket at its end is not gone over. These are all the texts that
it is wrong about (`atonRight_iff`).
-/

namespace Hyunjin.Net

open Word

def DOT : U8 := 46#8

def ZERO : U8 := 48#8

def LBRACKET : U8 := 91#8

def RBRACKET : U8 := 93#8

/-! ## The function -/

/-- The value of a character that can be a digit; letters are digits of hexadecimal numbers. -/
def digitOf (radix : ℕ) (c : U8) : Option ℕ :=
  if 48 ≤ c.toNat ∧ c.toNat ≤ 57 then some (c.toNat - 48)
  else if radix = 16 ∧ 65 ≤ c.toNat ∧ c.toNat ≤ 70 then some (10 + (c.toNat - 65))
  else if radix = 16 ∧ 97 ≤ c.toNat ∧ c.toNat ≤ 102 then some (10 + (c.toNat - 97))
  else none

/-- `X` or `x` -/
def isX (c : U8) : Bool := c = 88#8 || c = 120#8

/-- The inner loop, with the value of the digits so far and what is still to be read. An `unsigned
long` has `ulongs` values. -/
def readNumber (ulongs radix maxval val : ℕ) : List U8 → Option (ℕ × List U8)
  | [] => some (val, [])
  | c :: cp =>
    match digitOf radix c with
    | none => some (val, c :: cp)
    | some d =>
      let newval := (val * radix + d) % ulongs
      if radix ≤ d then none
      else if newval < val then none
      else if maxval < newval then none
      else readNumber ulongs radix maxval newval cp

/-- The radix of a number, and the number without its mark. -/
def readRadix (cp : List U8) : ℕ × List U8 :=
  let (radix, cp) := if cp.head? = some ZERO then (8, cp.tail) else (10, cp)
  if cp.head?.any isX then (16, cp.tail) else (radix, cp)

def readPart (ulongs maxval : ℕ) (cp : List U8) : Option (ℕ × List U8) :=
  readNumber ulongs (readRadix cp).1 maxval 0 (readRadix cp).2

/-- `'h'` for `inet_aton` and `'n'` for `inet_network`, each part of which is a byte. -/
inductive Addrtype
  | h
  | n
  deriving DecidableEq

/-- The outer loop, after `buf` and with room for `left` more parts. -/
def readParts (ulongs : ℕ) (addrtype : Addrtype) (left : ℕ) (buf : List ℕ) (maxval : ℕ)
    (cp : List U8) : Option (List ℕ × List U8) :=
  if cp = [] then some (buf, [])
  else
    let maxval := if addrtype = .n then 0xff else maxval
    match readPart ulongs maxval cp, left with
    | none, _ => none
    | some _, 0 => none
    | some (val, cp), left + 1 =>
      if buf.getLast?.any (0xff < ·) then none
      else if cp.head? ≠ some DOT then some (buf ++ [val], cp)
      else if cp.tail = [] then none
      else readParts ulongs addrtype left (buf ++ [val]) (maxval >>> 8) cp.tail

/-- What may stand behind an address. -/
def isBlank (c : U8) : Bool := c = LF || c = CR || c = 9#8 || c = SPACE

/-- The parts put together for `inet_aton`. -/
def hostValue (ulongs : ℕ) : List ℕ → ℕ
  | [a] => a
  | [a, b] => (a <<< 24) % ulongs ||| b
  | [a, b, c] => (a <<< 24) % ulongs ||| (b <<< 16) % ulongs ||| c
  | [a, b, c, d] => (a <<< 24) % ulongs ||| (b <<< 16) % ulongs ||| (c <<< 8) % ulongs ||| d
  | _ => 0

/-- The four bytes that are stored, on a little-endian machine for `inet_network`. -/
def addrBytes (ulongs : ℕ) (addrtype : Addrtype) (buf : List ℕ) : List U8 :=
  if addrtype = .n then
    leBytes (buf.foldl (fun addr val ↦ addr <<< 8 ||| BitVec.ofNat 32 (val &&& 0xff)) 0#32)
  else (List.range 4).map fun n ↦
    BitVec.ofNat 8 ((hostValue ulongs buf >>> ((3 - n) <<< 3)) &&& 0xff)

/-- `_inet_atox`; `none` is an error. -/
def inetAtox (ulongs : ℕ) (cp : List U8) (minparts : ℕ) (addrtype : Addrtype) : Option (List U8) :=
  let bracket := cp.head? = some LBRACKET ∧ addrtype ≠ .n
  match readParts ulongs addrtype 4 [] 0xffffffff (if bracket then cp.tail else cp) with
  | none => none
  | some (buf, rest) =>
    if buf.length = 0 ∨ buf.length < minparts then none
    else if bracket ∧ rest.head? ≠ some RBRACKET then none
    else if rest.head?.any (!isBlank ·) then none
    else some (addrBytes ulongs addrtype buf)

def ps_EINVAL : ℤ := -7

/-- `net_aton_v4`, with what is at the address that the result is stored to. -/
def netAtonV4 (ulongs : ℕ) (cp addr : List U8) : ℤ × List U8 :=
  match inetAtox ulongs cp 4 .h with
  | none => (ps_EINVAL, addr)
  | some addr => (0, addr)

/-! ## Addresses -/

/-- A text of digits. -/
def Digits (radix : ℕ) (ds : List U8) : Prop := ∀ c ∈ ds, ∃ d < radix, digitOf radix c = some d

/-- The number that digits go on with, from the value of those before. -/
def valueFrom (radix : ℕ) (val : ℕ) (ds : List U8) : ℕ :=
  ds.foldl (fun val c ↦ val * radix + (digitOf radix c).getD 0) val

/-- A number and its value. -/
inductive Number : List U8 → ℕ → Prop
  | decimal {ds : List U8} (digits : Digits 10 ds) (nonempty : ds ≠ [])
      (not_octal : ds.head? ≠ some ZERO) : Number ds (valueFrom 10 0 ds)
  | octal {ds : List U8} (digits : Digits 8 ds) : Number (ZERO :: ds) (valueFrom 8 0 ds)
  | hexadecimal {ds : List U8} {x : U8} (mark : isX x = true) (digits : Digits 16 ds)
      (nonempty : ds ≠ []) : Number (ZERO :: x :: ds) (valueFrom 16 0 ds)

/-- What is taken for a number and is none. -/
inductive Sloppy : List U8 → ℕ → Prop
  | empty : Sloppy [] 0
  | noDigits {x : U8} (mark : isX x = true) : Sloppy [ZERO, x] 0
  | noZero {ds : List U8} {x : U8} (mark : isX x = true) (digits : Digits 16 ds) :
      Sloppy (x :: ds) (valueFrom 16 0 ds)

/-- Four parts with dots between them and the values of bytes. -/
structure Address (Part : List U8 → ℕ → Prop) (parts : List (List U8 × ℕ)) : Prop where
  length : parts.length = 4
  part : ∀ p ∈ parts, Part p.1 p.2
  byte : ∀ p ∈ parts, p.2 ≤ 0xff

/-- The text of an address. -/
def addressText (parts : List (List U8 × ℕ)) : List U8 := [DOT].intercalate (parts.map Prod.fst)

/-- Nothing, or a blank and anything. -/
def Ends (rest : List U8) : Prop := ∀ c ∈ rest.head?, isBlank c = true

/-- An address in brackets. -/
def Bracketed (s : List U8) (parts : List (List U8 × ℕ)) : Prop :=
  Address Number parts ∧ ∃ rest, Ends rest ∧ s = LBRACKET :: addressText parts ++ RBRACKET :: rest

/-- What `net_aton_v4` should take for an address. -/
def WellFormed (s : List U8) (parts : List (List U8 × ℕ)) : Prop :=
  (Address Number parts ∧ ∃ rest, Ends rest ∧ s = addressText parts ++ rest) ∨ Bracketed s parts

/-- **The address that is stored** is the one that is written, and nothing is stored if there is
none. -/
def AtonRight (ulongs : ℕ) (s : List U8) : Prop :=
  ∀ addr, (∀ parts, WellFormed s parts →
      netAtonV4 ulongs s addr = (0, parts.map fun p ↦ BitVec.ofNat 8 p.2)) ∧
    ((∀ parts, ¬WellFormed s parts) → ∃ err < 0, netAtonV4 ulongs s addr = (err, addr))

/-! ## Digits and numbers -/

theorem digits_nil (radix : ℕ) : Digits radix [] := fun _ h ↦ absurd h List.not_mem_nil

theorem le_valueFrom {radix : ℕ} (hradix : 1 ≤ radix) (val : ℕ) (ds : List U8) :
    val ≤ valueFrom radix val ds := by
  induction ds generalizing val with
  | nil => exact le_rfl
  | cons c ds ih =>
    have hmul : val * 1 ≤ val * radix := Nat.mul_le_mul_left val hradix
    exact le_trans (by omega) (ih (val * radix + (digitOf radix c).getD 0))

/-- Digits are read up to what is none. -/
theorem readNumber_of_digits {ulongs radix maxval val : ℕ} {ds rest : List U8}
    (hulongs : 2 ^ 32 ≤ ulongs) (hradix : 1 ≤ radix) (hmax : 0xff ≤ maxval)
    (hds : Digits radix ds) (hrest : ∀ c ∈ rest.head?, digitOf radix c = none)
    (hval : valueFrom radix val ds ≤ 0xff) :
    readNumber ulongs radix maxval val (ds ++ rest) = some (valueFrom radix val ds, rest) := by
  induction ds generalizing val with
  | nil =>
    cases rest with
    | nil => rfl
    | cons c rest =>
      rw [List.nil_append, readNumber, hrest c rfl]
      rfl
  | cons c ds ih =>
    obtain ⟨d, hd, hdigit⟩ := hds c List.mem_cons_self
    have hnext : valueFrom radix val (c :: ds) = valueFrom radix (val * radix + d) ds := by
      rw [valueFrom, List.foldl_cons, hdigit, Option.getD_some, ← valueFrom]
    rw [hnext] at hval ⊢
    have hle := (le_valueFrom hradix (val * radix + d) ds).trans hval
    have hmul : val * 1 ≤ val * radix := Nat.mul_le_mul_left val hradix
    rw [List.cons_append, readNumber, hdigit]
    dsimp only
    rw [Nat.mod_eq_of_lt (by omega), if_neg (by omega), if_neg (by omega), if_neg (by omega)]
    exact ih (fun c hc ↦ hds c (List.mem_cons_of_mem _ hc)) hval

/-- What is read are digits; a value that may be in a byte is theirs. -/
theorem digits_of_readNumber {ulongs radix maxval val v : ℕ} {cp rest : List U8}
    (hulongs : 2 ^ 32 ≤ ulongs) (hradix : radix ≤ 16)
    (h : readNumber ulongs radix maxval val cp = some (v, rest)) (hval : val ≤ maxval) :
    val ≤ v ∧ v ≤ maxval ∧ (∀ c ∈ rest.head?, digitOf radix c = none) ∧
      ∃ ds, cp = ds ++ rest ∧ Digits radix ds ∧ (v ≤ 0xff → v = valueFrom radix val ds) := by
  induction cp generalizing val with
  | nil =>
    obtain ⟨rfl, rfl⟩ := Prod.mk.inj (Option.some.inj h)
    exact ⟨le_rfl, hval, by simp, [], rfl, digits_nil radix, fun _ ↦ rfl⟩
  | cons c cp ih =>
    rw [readNumber] at h
    rcases hdigit : digitOf radix c with _ | d
    · rw [hdigit] at h
      obtain ⟨rfl, rfl⟩ := Prod.mk.inj (Option.some.inj h)
      refine ⟨le_rfl, hval, fun c' hc' ↦ ?_, [], rfl, digits_nil radix, fun _ ↦ rfl⟩
      rwa [← Option.some.inj hc']
    · rw [hdigit] at h
      dsimp only at h
      split_ifs at h with hd hwrap hbig
      obtain ⟨hle, hmax, hrest, ds, rfl, hds, hvalue⟩ := ih h (by omega)
      refine ⟨by omega, hmax, hrest, c :: ds, rfl, fun c' hc' ↦ ?_, fun hv ↦ ?_⟩
      · rcases List.mem_cons.mp hc' with rfl | hc'
        · exact ⟨d, by omega, hdigit⟩
        · exact hds c' hc'
      · have hmul : val * radix ≤ 0xff * 16 := Nat.mul_le_mul (by omega) hradix
        have hexact : (val * radix + d) % ulongs = val * radix + d := Nat.mod_eq_of_lt (by omega)
        rw [hvalue hv, hexact, valueFrom, valueFrom, List.foldl_cons, hdigit, Option.getD_some]

/-! ## Parts -/

/-- What is taken for a number. -/
def Taken (p : List U8) (v : ℕ) : Prop := Number p v ∨ Sloppy p v

/-- A character that a number may be made of. -/
def partChar (c : U8) : Bool := (digitOf 16 c).isSome || isX c

theorem partChar_separators : partChar DOT = false ∧ partChar LBRACKET = false ∧
    partChar RBRACKET = false := by decide

theorem partChar_of_isBlank : ∀ c, isBlank c = true → partChar c = false := by decide

theorem digitOf_of_isX : ∀ c, isX c = true → digitOf 16 c = none := by decide

/-- A digit is one of the hexadecimal digits. -/
theorem digitOf_mono {radix : ℕ} {c : U8} {d : ℕ} (h : digitOf radix c = some d) :
    digitOf 16 c = some d := by
  rw [digitOf] at h ⊢
  split_ifs at h ⊢ <;> simp_all

theorem digitOf_eq_none {radix : ℕ} {c : U8} (h : partChar c = false) : digitOf radix c = none := by
  rw [partChar, Bool.or_eq_false_iff] at h
  rcases hdigit : digitOf radix c with _ | d
  · rfl
  · rw [digitOf_mono hdigit] at h
    exact absurd h.1 (by simp)

theorem isX_eq_false_of_digit {radix : ℕ} {c : U8} {d : ℕ} (h : digitOf radix c = some d) :
    isX c = false :=
  Bool.eq_false_iff.mpr fun hx ↦ nomatch (digitOf_of_isX c hx).symm.trans (digitOf_mono h)

theorem readRadix_zero_x {x : U8} (hx : isX x = true) (cp : List U8) :
    readRadix (ZERO :: x :: cp) = (16, cp) := by simp [readRadix, hx]

theorem readRadix_zero {cp : List U8} (hx : ∀ c ∈ cp.head?, isX c = false) :
    readRadix (ZERO :: cp) = (8, cp) := by
  cases cp with
  | nil => rfl
  | cons c cp => simp [readRadix, hx c rfl]

theorem readRadix_x {x : U8} (hx : isX x = true) (cp : List U8) :
    readRadix (x :: cp) = (16, cp) := by
  have hne : x ≠ ZERO := by
    rintro rfl
    exact absurd hx (by decide)
  simp [readRadix, hx, hne]

theorem readRadix_decimal {cp : List U8} (hzero : cp.head? ≠ some ZERO)
    (hx : ∀ c ∈ cp.head?, isX c = false) : readRadix cp = (10, cp) := by
  cases cp with
  | nil => rfl
  | cons c cp => simp [readRadix, hx c rfl, show c ≠ ZERO from fun h ↦ hzero (congrArg some h)]

/-- The four ways a number may begin. -/
theorem readRadix_cases (cp : List U8) :
    (∃ x cp', cp = ZERO :: x :: cp' ∧ isX x = true ∧ readRadix cp = (16, cp')) ∨
    (∃ cp', cp = ZERO :: cp' ∧ readRadix cp = (8, cp')) ∨
    (∃ x cp', cp = x :: cp' ∧ isX x = true ∧ readRadix cp = (16, cp')) ∨
    (cp.head? ≠ some ZERO ∧ readRadix cp = (10, cp)) := by
  by_cases hzero : cp.head? = some ZERO
  · obtain ⟨cp', rfl⟩ := List.head?_eq_some_iff.mp hzero
    by_cases hx : ∀ c ∈ cp'.head?, isX c = false
    · exact Or.inr (Or.inl ⟨cp', rfl, readRadix_zero hx⟩)
    · simp only [not_forall, Bool.not_eq_false] at hx
      obtain ⟨x, hhead, hx⟩ := hx
      obtain ⟨cp'', rfl⟩ := List.head?_eq_some_iff.mp hhead
      exact Or.inl ⟨x, cp'', rfl, hx, readRadix_zero_x hx cp''⟩
  · by_cases hx : ∀ c ∈ cp.head?, isX c = false
    · exact Or.inr (Or.inr (Or.inr ⟨hzero, readRadix_decimal hzero hx⟩))
    · simp only [not_forall, Bool.not_eq_false] at hx
      obtain ⟨x, hhead, hx⟩ := hx
      obtain ⟨cp', rfl⟩ := List.head?_eq_some_iff.mp hhead
      exact Or.inr (Or.inr (Or.inl ⟨x, cp', rfl, hx, readRadix_x hx cp'⟩))

variable {ulongs maxval v : ℕ} {p cp rest : List U8}

/-- **What a part is** that has been read. -/
theorem taken_of_readPart (hulongs : 2 ^ 32 ≤ ulongs)
    (h : readPart ulongs maxval cp = some (v, rest)) :
    v ≤ maxval ∧ ∃ p, cp = p ++ rest ∧ (v ≤ 0xff → Taken p v) := by
  rw [readPart] at h
  rcases readRadix_cases cp with ⟨x, cp', rfl, hx, hradix⟩ | ⟨cp', rfl, hradix⟩ |
    ⟨x, cp', rfl, hx, hradix⟩ | ⟨hzero, hradix⟩ <;> rw [hradix] at h
  · obtain ⟨-, hmax, -, ds, rfl, hds, hvalue⟩ :=
      digits_of_readNumber hulongs (by simp) h (Nat.zero_le _)
    refine ⟨hmax, ZERO :: x :: ds, rfl, fun hv ↦ ?_⟩
    rw [hvalue hv]
    by_cases hnil : ds = []
    · rw [hnil]
      exact Or.inr (.noDigits hx)
    · exact Or.inl (.hexadecimal hx hds hnil)
  · obtain ⟨-, hmax, -, ds, rfl, hds, hvalue⟩ :=
      digits_of_readNumber hulongs (by simp) h (Nat.zero_le _)
    refine ⟨hmax, ZERO :: ds, rfl, fun hv ↦ ?_⟩
    rw [hvalue hv]
    exact Or.inl (.octal hds)
  · obtain ⟨-, hmax, -, ds, rfl, hds, hvalue⟩ :=
      digits_of_readNumber hulongs (by simp) h (Nat.zero_le _)
    refine ⟨hmax, x :: ds, rfl, fun hv ↦ ?_⟩
    rw [hvalue hv]
    exact Or.inr (.noZero hx hds)
  · obtain ⟨-, hmax, -, ds, rfl, hds, hvalue⟩ :=
      digits_of_readNumber hulongs (by simp) h (Nat.zero_le _)
    refine ⟨hmax, ds, rfl, fun hv ↦ ?_⟩
    rw [hvalue hv]
    by_cases hnil : ds = []
    · rw [hnil]
      exact Or.inr .empty
    · refine Or.inl (.decimal hds hnil fun hhead ↦ hzero ?_)
      rw [List.head?_append, hhead]
      rfl

/-- **A part is read** up to a character that it cannot be made of. -/
theorem readPart_of_taken (hulongs : 2 ^ 32 ≤ ulongs) (hmax : 0xff ≤ maxval) (h : Taken p v)
    (hv : v ≤ 0xff) (hrest : ∀ c ∈ rest.head?, partChar c = false) :
    readPart ulongs maxval (p ++ rest) = some (v, rest) := by
  have hstop {radix : ℕ} : ∀ c ∈ rest.head?, digitOf radix c = none :=
    fun c hc ↦ digitOf_eq_none (hrest c hc)
  have hmark {radix : ℕ} {ds : List U8} (hds : Digits radix ds) :
      ∀ c ∈ (ds ++ rest).head?, isX c = false := by
    intro c hc
    cases ds with
    | nil => exact (Bool.or_eq_false_iff.mp (hrest c hc)).2
    | cons c' ds =>
      obtain rfl := Option.some.inj hc
      obtain ⟨d, -, hdigit⟩ := hds c' List.mem_cons_self
      exact isX_eq_false_of_digit hdigit
  rw [readPart]
  rcases h with h | h
  · cases h with
    | decimal hds hne hzero =>
      have hhead : (p ++ rest).head? ≠ some ZERO := by
        rwa [List.head?_append_of_ne_nil _ hne]
      rw [readRadix_decimal hhead (hmark hds)]
      exact readNumber_of_digits hulongs (by simp) hmax hds hstop hv
    | octal hds =>
      rw [List.cons_append, readRadix_zero (hmark hds)]
      exact readNumber_of_digits hulongs (by simp) hmax hds hstop hv
    | hexadecimal hx hds hne =>
      rw [List.cons_append, List.cons_append, readRadix_zero_x hx]
      exact readNumber_of_digits hulongs (by simp) hmax hds hstop hv
  · cases h with
    | empty =>
      have hhead : rest.head? ≠ some ZERO := fun h ↦ absurd (hrest _ h) (by decide)
      rw [List.nil_append, readRadix_decimal hhead (hmark (digits_nil 10))]
      exact readNumber_of_digits hulongs (by simp) hmax (digits_nil 10) hstop hv
    | noDigits hx =>
      rw [List.cons_append, List.cons_append, readRadix_zero_x hx]
      exact readNumber_of_digits hulongs (by simp) hmax (digits_nil 16) hstop hv
    | noZero hx hds =>
      rw [List.cons_append, readRadix_x hx]
      exact readNumber_of_digits hulongs (by simp) hmax hds hstop hv

/-- A part is made of the characters for it. -/
theorem Taken.chars (h : Taken p v) : ∀ c ∈ p, partChar c = true := by
  have hdigits {radix : ℕ} {ds : List U8} (hds : Digits radix ds) :
      ∀ c ∈ ds, partChar c = true := by
    intro c hc
    obtain ⟨d, -, hdigit⟩ := hds c hc
    rw [partChar, digitOf_mono hdigit]
    rfl
  have hmark {x : U8} (hx : isX x = true) : partChar x = true := by
    rw [partChar, hx, Bool.or_true]
  have hzero : partChar ZERO = true := by decide
  rcases h with h | h
  · cases h with
    | decimal hds => exact hdigits hds
    | octal hds => exact List.forall_mem_cons.mpr ⟨hzero, hdigits hds⟩
    | hexadecimal hx hds =>
      exact List.forall_mem_cons.mpr ⟨hzero, List.forall_mem_cons.mpr ⟨hmark hx, hdigits hds⟩⟩
  · cases h with
    | empty => exact fun c hc ↦ absurd hc List.not_mem_nil
    | noDigits hx =>
      exact List.forall_mem_cons.mpr ⟨hzero, List.forall_mem_singleton.mpr (hmark hx)⟩
    | noZero hx hds => exact List.forall_mem_cons.mpr ⟨hmark hx, hdigits hds⟩

/-- What is no number is not one with another value either. -/
theorem Sloppy.not_number {w : ℕ} (h : Sloppy p v) : ¬Number p w := by
  intro hnum
  have hdigit {radix : ℕ} {ds : List U8} {x : U8} (hds : Digits radix (x :: ds))
      (hx : isX x = true) : False := by
    obtain ⟨d, -, hd⟩ := hds x List.mem_cons_self
    exact nomatch hx.symm.trans (isX_eq_false_of_digit hd)
  have hzero : isX ZERO = false := by decide
  cases h with
  | empty =>
    cases hnum with
    | decimal _ hne => exact hne rfl
  | noDigits hx =>
    cases hnum with
    | decimal _ _ hhead => exact hhead rfl
    | octal hds => exact hdigit hds hx
    | hexadecimal _ _ hne => exact hne rfl
  | noZero hx =>
    cases hnum with
    | decimal hds => exact hdigit hds hx
    | octal => exact nomatch hzero.symm.trans hx
    | hexadecimal => exact nomatch hzero.symm.trans hx

/-! ## All parts -/

theorem addressText_singleton (p : List U8 × ℕ) : addressText [p] = p.1 :=
  List.intercalate_singleton

theorem addressText_cons (p : List U8 × ℕ) {parts : List (List U8 × ℕ)} (h : parts ≠ []) :
    addressText (p :: parts) = p.1 ++ DOT :: addressText parts := by
  have hne : parts.map Prod.fst ≠ [] := by rwa [ne_eq, List.map_eq_nil_iff]
  rw [addressText, List.map_cons, List.intercalate_cons_of_ne_nil hne, List.append_assoc]
  rfl

/-- What the parts are that have been read, up to the last of which is behind the last dot. -/
structure Read (parts : List (List U8 × ℕ)) (maxval : ℕ) (cp rest : List U8) : Prop where
  nonempty : parts ≠ []
  text : cp = addressText parts ++ rest
  byte : ∀ p ∈ parts.dropLast, p.2 ≤ 0xff
  last_le : ∀ p ∈ parts.getLast?, p.2 ≤ maxval >>> (8 * (parts.length - 1))
  last_ne : ∀ p ∈ parts.getLast?, p.1 ++ rest ≠ []
  taken : ∀ p ∈ parts, p.2 ≤ 0xff → Taken p.1 p.2

theorem Read.single (hmax : v ≤ maxval) (htaken : v ≤ 0xff → Taken p v) (hne : p ++ rest ≠ []) :
    Read [(p, v)] maxval (p ++ rest) rest where
  nonempty := List.cons_ne_nil _ _
  text := by rw [addressText_singleton]
  byte := fun q hq ↦ absurd hq List.not_mem_nil
  last_le := fun q hq ↦ by
    obtain rfl := Option.some.inj hq
    exact hmax
  last_ne := fun q hq ↦ by
    obtain rfl := Option.some.inj hq
    exact hne
  taken := fun q hq ↦ by
    obtain rfl := List.mem_singleton.mp hq
    exact htaken

theorem Read.cons {parts : List (List U8 × ℕ)} (h : Read parts (maxval >>> 8) cp rest)
    (hv : v ≤ 0xff) (htaken : Taken p v) :
    Read ((p, v) :: parts) maxval (p ++ DOT :: cp) rest where
  nonempty := List.cons_ne_nil _ _
  text := by rw [addressText_cons _ h.nonempty, h.text, List.append_assoc, List.cons_append]
  byte := by
    rw [List.dropLast_cons_of_ne_nil h.nonempty]
    exact List.forall_mem_cons.mpr ⟨hv, h.byte⟩
  last_le := fun q hq ↦ by
    rw [List.getLast?_cons_of_ne_nil h.nonempty] at hq
    have hle := h.last_le q hq
    have hpos := List.length_pos_of_ne_nil h.nonempty
    rw [← Nat.shiftRight_add] at hle
    rwa [List.length_cons, show 8 * (parts.length + 1 - 1) = 8 + 8 * (parts.length - 1) by omega]
  last_ne := fun q hq ↦ by
    rw [List.getLast?_cons_of_ne_nil h.nonempty] at hq
    exact h.last_ne q hq
  taken := List.forall_mem_cons.mpr ⟨fun _ ↦ htaken, h.taken⟩

theorem last_byte {buf : List ℕ} (h : ¬buf.getLast?.any (0xff < ·) = true) :
    ∀ val ∈ buf.getLast?, val ≤ 0xff := by
  intro val hval
  rw [Option.mem_def.mp hval] at h
  simpa using h

/-- **The parts that have been read** are separated by dots. -/
theorem read_of_readParts (hulongs : 2 ^ 32 ≤ ulongs) {left : ℕ} {buf buf' : List ℕ}
    (h : readParts ulongs .h left buf maxval cp = some (buf', rest)) (hne : cp ≠ []) :
    (∀ val ∈ buf.getLast?, val ≤ 0xff) ∧ ∃ parts, Read parts maxval cp rest ∧
      buf' = buf ++ parts.map Prod.snd ∧ parts.length ≤ left := by
  induction left generalizing buf maxval cp with
  | zero =>
    rw [readParts, if_neg hne] at h
    rcases hpart : readPart ulongs maxval cp with _ | part <;> simp [hpart] at h
  | succ left ih =>
    rw [readParts, if_neg hne] at h
    rcases hpart : readPart ulongs maxval cp with _ | ⟨val, cp'⟩
    · simp [hpart] at h
    · obtain ⟨hmax, p, rfl, htaken⟩ := taken_of_readPart hulongs hpart
      simp only [hpart, reduceCtorEq, if_false] at h
      split_ifs at h with hlast hdot htail
      · rw [Option.some.injEq, Prod.mk.injEq] at h
        obtain ⟨rfl, rfl⟩ := h
        exact ⟨last_byte hlast, _, .single hmax htaken hne, rfl, Nat.succ_le_succ (Nat.zero_le _)⟩
      · obtain ⟨hval, parts, hread, rfl, hlen⟩ := ih h htail
        obtain ⟨cp'', rfl⟩ := List.head?_eq_some_iff.mp (not_not.mp hdot)
        have hval : val ≤ 0xff := hval val (by rw [List.getLast?_concat]; rfl)
        refine ⟨last_byte hlast, _, hread.cons hval (htaken hval), ?_, Nat.succ_le_succ hlen⟩
        rw [List.append_assoc]
        rfl

/-- There is a text behind every dot. -/
theorem addressText_append_ne_nil {parts : List (List U8 × ℕ)} (hne : parts ≠ [])
    (hlast : ∀ p ∈ parts.getLast?, p.1 ++ rest ≠ []) : addressText parts ++ rest ≠ [] := by
  rcases parts with _ | ⟨p, parts⟩
  · exact absurd rfl hne
  · by_cases hnil : parts = []
    · rw [hnil, addressText_singleton]
      exact hlast p (by rw [hnil]; rfl)
    · rw [addressText_cons p hnil]
      simp

/-- **Parts are read** up to the end of the last. -/
theorem readParts_of_parts (hulongs : 2 ^ 32 ≤ ulongs) {parts : List (List U8 × ℕ)}
    (hne : parts ≠ []) {left : ℕ} (hlen : parts.length ≤ left) {buf : List ℕ}
    (hbuf : ∀ val ∈ buf.getLast?, val ≤ 0xff) (hbyte : ∀ p ∈ parts, p.2 ≤ 0xff)
    (htaken : ∀ p ∈ parts, Taken p.1 p.2) (hmax : 0xff ≤ maxval >>> (8 * (parts.length - 1)))
    (hlast : ∀ p ∈ parts.getLast?, p.1 ++ rest ≠ [])
    (hrest : ∀ c ∈ rest.head?, partChar c = false) (hdot : rest.head? ≠ some DOT) :
    readParts ulongs .h left buf maxval (addressText parts ++ rest) =
      some (buf ++ parts.map Prod.snd, rest) := by
  induction parts generalizing left buf maxval with
  | nil => exact absurd rfl hne
  | cons p parts ih =>
    obtain ⟨left, rfl⟩ := Nat.exists_eq_succ_of_ne_zero (n := left)
      (Nat.ne_of_gt (lt_of_lt_of_le (Nat.succ_pos _) hlen))
    have hp := List.forall_mem_cons.mp hbyte
    have ht := List.forall_mem_cons.mp htaken
    have hmaxval : 0xff ≤ maxval :=
      hmax.trans (by rw [Nat.shiftRight_eq_div_pow]; exact Nat.div_le_self _ _)
    have hany : buf.getLast?.any (0xff < ·) = false := by
      rcases hget : buf.getLast? with _ | val
      · rfl
      · simpa using hbuf val hget
    have htext := addressText_append_ne_nil hne hlast
    rw [readParts, if_neg htext]
    by_cases hnil : parts = []
    · rw [hnil, addressText_singleton]
      simp [readPart_of_taken hulongs hmaxval ht.1 hp.1 hrest, hany, hdot]
    · have htail : ∀ q ∈ parts.getLast?, q.1 ++ rest ≠ [] := fun q hq ↦
        hlast q (by rwa [List.getLast?_cons_of_ne_nil hnil])
      have hpos := List.length_pos_of_ne_nil hnil
      have hmax' : 0xff ≤ maxval >>> 8 >>> (8 * (parts.length - 1)) := by
        rwa [← Nat.shiftRight_add, show 8 + 8 * (parts.length - 1) =
          8 * ((p :: parts).length - 1) by rw [List.length_cons]; omega]
      have hrec : readParts ulongs .h left (buf ++ [p.2]) (maxval >>> 8) (addressText parts ++ rest)
          = some (buf ++ [p.2] ++ parts.map Prod.snd, rest) :=
        ih hnil (Nat.le_of_succ_le_succ hlen) (by simpa using hp.1) hp.2 ht.2 hmax' htail
      have hpart : readPart ulongs maxval (p.1 ++ DOT :: (addressText parts ++ rest)) =
          some (p.2, DOT :: (addressText parts ++ rest)) :=
        readPart_of_taken hulongs hmaxval ht.1 hp.1 (by simpa using partChar_separators.1)
      rw [addressText_cons p hnil, List.append_assoc, List.cons_append]
      simp [hpart, hany, addressText_append_ne_nil hnil htail, hrec]

/-! ## Addresses -/

theorem addrBytes_four (hulongs : 2 ^ 32 ≤ ulongs) {a b c d : ℕ} (ha : a ≤ 0xff) (hb : b ≤ 0xff)
    (hc : c ≤ 0xff) (hd : d ≤ 0xff) :
    addrBytes ulongs .h [a, b, c, d] = [a, b, c, d].map (BitVec.ofNat 8) := by
  have hab : (a <<< 24) % ulongs ||| (b <<< 16) % ulongs = a * 2 ^ 24 + b * 2 ^ 16 := by
    rw [Nat.mod_eq_of_lt (by rw [Nat.shiftLeft_eq]; omega),
      Nat.mod_eq_of_lt (by rw [Nat.shiftLeft_eq]; omega),
      ← Nat.shiftLeft_add_eq_or_of_lt (by rw [Nat.shiftLeft_eq]; omega), Nat.shiftLeft_eq,
      Nat.shiftLeft_eq]
  have habc : a * 2 ^ 24 + b * 2 ^ 16 ||| (c <<< 8) % ulongs =
      a * 2 ^ 24 + b * 2 ^ 16 + c * 2 ^ 8 := by
    rw [Nat.mod_eq_of_lt (by rw [Nat.shiftLeft_eq]; omega),
      show a * 2 ^ 24 + b * 2 ^ 16 = (a * 2 ^ 8 + b) <<< 16 by rw [Nat.shiftLeft_eq]; omega,
      ← Nat.shiftLeft_add_eq_or_of_lt (by rw [Nat.shiftLeft_eq]; omega), Nat.shiftLeft_eq c]
  have habcd : a * 2 ^ 24 + b * 2 ^ 16 + c * 2 ^ 8 ||| d =
      a * 2 ^ 24 + b * 2 ^ 16 + c * 2 ^ 8 + d := by
    rw [show a * 2 ^ 24 + b * 2 ^ 16 + c * 2 ^ 8 = (a * 2 ^ 16 + b * 2 ^ 8 + c) <<< 8 by
      rw [Nat.shiftLeft_eq]; omega, ← Nat.shiftLeft_add_eq_or_of_lt (by omega)]
  rw [addrBytes, if_neg (by decide), hostValue, hab, habc, habcd]
  generalize hn : a * 2 ^ 24 + b * 2 ^ 16 + c * 2 ^ 8 + d = n
  have hbyte (k v : ℕ) (h : n / 2 ^ k % 2 ^ 8 = v) :
      BitVec.ofNat 8 (n >>> k &&& 0xff) = BitVec.ofNat 8 v := by
    rw [Nat.shiftRight_eq_div_pow, ← h]
    exact congrArg _ (Nat.and_two_pow_sub_one_eq_mod _ 8)
  change [BitVec.ofNat 8 (n >>> 24 &&& 0xff), BitVec.ofNat 8 (n >>> 16 &&& 0xff),
    BitVec.ofNat 8 (n >>> 8 &&& 0xff), BitVec.ofNat 8 (n >>> 0 &&& 0xff)] = _
  rw [hbyte 24 a (by omega), hbyte 16 b (by omega), hbyte 8 c (by omega), hbyte 0 d (by omega)]
  rfl

variable {s : List U8} {parts : List (List U8 × ℕ)}

theorem Address.eq_four {Part : List U8 → ℕ → Prop} (h : Address Part parts) :
    ∃ p q r t, parts = [p, q, r, t] := by
  obtain ⟨p, parts, rfl⟩ := List.exists_cons_of_length_eq_add_one h.length
  obtain ⟨q, r, t, rfl⟩ := List.length_eq_three.mp (Nat.succ.inj h.length)
  exact ⟨p, q, r, t, rfl⟩

theorem Address.addrBytes {Part : List U8 → ℕ → Prop} (h : Address Part parts)
    (hulongs : 2 ^ 32 ≤ ulongs) :
    addrBytes ulongs .h (parts.map Prod.snd) = parts.map fun p ↦ BitVec.ofNat 8 p.2 := by
  obtain ⟨p, q, r, t, rfl⟩ := h.eq_four
  exact addrBytes_four hulongs (h.byte p (by simp)) (h.byte q (by simp)) (h.byte r (by simp))
    (h.byte t (by simp))

/-- An address does not begin with a bracket. -/
theorem Address.head_ne (h : Address Taken parts) :
    (addressText parts ++ rest).head? ≠ some LBRACKET := by
  obtain ⟨p, q, r, t, rfl⟩ := h.eq_four
  rw [addressText_cons p (List.cons_ne_nil _ _), List.append_assoc]
  intro hhead
  rcases hp : p.1 with _ | ⟨c, cs⟩
  · rw [hp] at hhead
    exact absurd (Option.some.inj hhead) (by decide)
  · rw [hp] at hhead
    have hchar := (h.part p List.mem_cons_self).chars c (by rw [hp]; exact List.mem_cons_self)
    rw [Option.some.inj hhead, partChar_separators.2.1] at hchar
    exact nomatch hchar

/-- An address, with what is behind it, that the code takes. -/
structure Accepted (s : List U8) (parts : List (List U8 × ℕ)) (rest : List U8) : Prop where
  address : Address Taken parts
  ends : Ends rest
  text : s = addressText parts ++ rest
  last : ∀ p ∈ parts.getLast?, p.1 ++ rest ≠ []

theorem Ends.partChar (h : Ends rest) : ∀ c ∈ rest.head?, partChar c = false :=
  fun c hc ↦ partChar_of_isBlank c (h c hc)

/-- **What is taken for an address** is stored. -/
theorem Accepted.inetAtox (h : Accepted s parts rest) (hulongs : 2 ^ 32 ≤ ulongs) :
    inetAtox ulongs s 4 .h = some (parts.map fun p ↦ BitVec.ofNat 8 p.2) := by
  obtain ⟨p, q, r, t, hfour⟩ := h.address.eq_four
  have hdot : rest.head? ≠ some DOT := fun hhead ↦ absurd (h.ends DOT hhead) (by decide)
  have hlen := h.address.length
  have hread : readParts ulongs .h 4 [] 0xffffffff s = some (parts.map Prod.snd, rest) := by
    rw [h.text]
    exact readParts_of_parts hulongs (by rw [hfour]; exact List.cons_ne_nil _ _) hlen.le (by simp)
      h.address.byte h.address.part (by rw [hlen]; decide) h.last h.ends.partChar hdot
  have hbracket : ¬(s.head? = some LBRACKET ∧ Addrtype.h ≠ .n) := fun hb ↦ by
    rw [h.text] at hb
    exact h.address.head_ne hb.1
  have hany : rest.head?.any (!isBlank ·) = false := by
    rcases hhead : rest.head? with _ | c
    · rfl
    · simpa using h.ends c hhead
  simp only [Net.inetAtox, if_neg hbracket, hread, List.length_map, hlen]
  rw [if_neg (by decide), if_neg (fun hb ↦ hbracket hb.1), hany, if_neg Bool.false_ne_true,
    h.address.addrBytes hulongs]

/-- **A text that begins with a bracket** is refused: the bracket at the end is not gone over. -/
theorem inetAtox_bracket (h : s.head? = some LBRACKET) : inetAtox ulongs s 4 .h = none := by
  simp only [inetAtox, h]
  rcases readParts ulongs .h 4 [] 0xffffffff (if True ∧ Addrtype.h ≠ .n then s.tail else s) with
    _ | ⟨buf, rest⟩
  · rfl
  · by_cases hclosed : rest.head? = some RBRACKET
    · simp [hclosed, show isBlank RBRACKET = false by decide]
    · simp [hclosed]

/-- **What is stored** has been taken for an address. -/
theorem accepted_of_inetAtox {bytes : List U8} (hulongs : 2 ^ 32 ≤ ulongs)
    (h : inetAtox ulongs s 4 .h = some bytes) : ∃ parts rest, Accepted s parts rest ∧
      bytes = parts.map fun p ↦ BitVec.ofNat 8 p.2 := by
  have hbracket : s.head? ≠ some LBRACKET := fun hb ↦ nomatch (inetAtox_bracket hb).symm.trans h
  simp only [inetAtox, hbracket, false_and, if_false] at h
  rcases hread : readParts ulongs .h 4 [] 0xffffffff s with _ | ⟨buf, rest⟩
  · rw [hread] at h
    exact nomatch h
  · rw [hread] at h
    dsimp only at h
    split_ifs at h with hlen hblank
    have hne : s ≠ [] := by
      rintro rfl
      obtain ⟨rfl, -⟩ := Prod.mk.inj (Option.some.inj hread)
      exact hlen (Or.inl rfl)
    obtain ⟨-, parts, hparts, rfl, hle⟩ := read_of_readParts hulongs hread hne
    rw [List.nil_append] at h hlen
    rw [List.length_map] at hlen
    have hfour : parts.length = 4 := by omega
    have hbyte : ∀ p ∈ parts, p.2 ≤ 0xff := by
      intro p hp
      rw [← List.dropLast_append_getLast hparts.nonempty, List.mem_append] at hp
      rcases hp with hp | hp
      · exact hparts.byte p hp
      · have hlast := hparts.last_le _ (List.getLast?_eq_getLast_of_ne_nil hparts.nonempty)
        rw [List.mem_singleton.mp hp]
        rwa [hfour] at hlast
    have haddress : Address Taken parts :=
      ⟨hfour, fun p hp ↦ hparts.taken p hp (hbyte p hp), hbyte⟩
    refine ⟨parts, rest, ⟨haddress, fun c hc ↦ ?_, hparts.text, hparts.last_ne⟩, ?_⟩
    · rw [Option.mem_def.mp hc] at hblank
      simpa using hblank
    · rw [← Option.some.inj h, haddress.addrBytes hulongs]

/-! ## When it is right -/

/-- A text that is taken for an address with something in it that is no number. -/
def SloppyAddress (s : List U8) : Prop :=
  ∃ parts rest, Accepted s parts rest ∧ ∃ p ∈ parts, Sloppy p.1 p.2

theorem Address.taken (h : Address Number parts) : Address Taken parts :=
  ⟨h.length, fun p hp ↦ Or.inl (h.part p hp), h.byte⟩

/-- The text of an address is all that is made of the characters for it. -/
theorem Accepted.takeWhile_eq (h : Accepted s parts rest) :
    s.takeWhile (fun c ↦ partChar c || c = DOT) = addressText parts := by
  have hrest : rest.takeWhile (fun c ↦ partChar c || c = DOT) = [] := by
    cases rest with
    | nil => rfl
    | cons c rest =>
      have hblank : isBlank c = true := h.ends c rfl
      have hdot : c ≠ DOT := by
        rintro rfl
        exact absurd hblank (by decide)
      exact List.takeWhile_cons_of_neg (by simp [partChar_of_isBlank c hblank, hdot])
  rw [h.text, List.takeWhile_append_of_pos, hrest, List.append_nil]
  intro c hc
  obtain ⟨p, hp, hmem⟩ | rfl : (∃ p ∈ parts, c ∈ p.1) ∨ c = DOT := by
    obtain ⟨p, q, r, t, rfl⟩ := h.address.eq_four
    rw [addressText_cons p (List.cons_ne_nil _ _), addressText_cons q (List.cons_ne_nil _ _),
      addressText_cons r (List.cons_ne_nil _ _), addressText_singleton] at hc
    simp only [List.mem_append, List.mem_cons] at hc
    simp only [List.mem_cons, List.not_mem_nil, or_false, exists_eq_or_imp, exists_eq_left]
    tauto
  · rw [(h.address.part p hp).chars c hmem, Bool.true_or]
  · rfl

/-- The parts of an address can be told from its text. -/
theorem Accepted.unique {parts' : List (List U8 × ℕ)} {rest' : List U8}
    (h : Accepted s parts rest) (h' : Accepted s parts' rest') :
    parts.map Prod.fst = parts'.map Prod.fst := by
  have hsplit {parts : List (List U8 × ℕ)} (h : Address Taken parts) :
      (addressText parts).splitOn DOT = parts.map Prod.fst := by
    obtain ⟨p, q, r, t, hfour⟩ := h.eq_four
    refine List.splitOn_intercalate DOT (fun text htext hdot ↦ ?_) (by rw [hfour]; simp)
    obtain ⟨p, hp, rfl⟩ := List.mem_map.mp htext
    exact nomatch partChar_separators.1.symm.trans ((h.part p hp).chars DOT hdot)
  rw [← hsplit h.address, ← hsplit h'.address, ← h.takeWhile_eq, h'.takeWhile_eq]

theorem Number.ne_nil (h : Number p v) : p ≠ [] := by
  cases h with
  | decimal _ hne => exact hne
  | octal => exact List.cons_ne_nil _ _
  | hexadecimal => exact List.cons_ne_nil _ _

theorem Address.accepted (h : Address Number parts) (hends : Ends rest) :
    Accepted (addressText parts ++ rest) parts rest := by
  refine ⟨h.taken, hends, rfl, fun p hp hnil ↦ ?_⟩
  exact (h.part p (List.mem_of_getLast? hp)).ne_nil (List.append_eq_nil_iff.mp hnil).1

theorem netAtonV4_success {addr bytes : List U8} :
    netAtonV4 ulongs s addr = (0, bytes) ↔ inetAtox ulongs s 4 .h = some bytes := by
  rw [netAtonV4]
  rcases inetAtox ulongs s 4 .h with _ | bytes'
  · simp [ps_EINVAL]
  · simp

/-- **When it is right**: the text is not an address in brackets, and does not have a part that is
taken for a number and is none. -/
theorem atonRight_iff (hulongs : 2 ^ 32 ≤ ulongs) (s : List U8) :
    AtonRight ulongs s ↔ (∀ parts, ¬Bracketed s parts) ∧ ¬SloppyAddress s := by
  have hopen {parts : List (List U8 × ℕ)} (hb : Bracketed s parts) :
      inetAtox ulongs s 4 .h = none := by
    obtain ⟨-, rest, -, rfl⟩ := hb
    exact inetAtox_bracket rfl
  constructor
  · intro h
    have hbracket (parts : List (List U8 × ℕ)) : ¬Bracketed s parts := fun hb ↦
      nomatch (hopen hb).symm.trans (netAtonV4_success.mp ((h []).1 parts (Or.inr hb)))
    refine ⟨hbracket, fun ⟨parts, rest, haccepted, p, hp, hsloppy⟩ ↦ ?_⟩
    have hstored := haccepted.inetAtox hulongs
    by_cases hwell : ∃ parts', WellFormed s parts'
    · obtain ⟨parts', ⟨haddress, rest', hends, hs⟩ | hb⟩ := hwell
      · have hsame := haccepted.unique (hs ▸ haddress.accepted hends)
        obtain ⟨q, hq, heq⟩ := List.mem_map.mp (hsame ▸ List.mem_map_of_mem hp)
        refine hsloppy.not_number (w := q.2) ?_
        rw [← heq]
        exact haddress.part q hq
      · exact hbracket parts' hb
    · obtain ⟨err, herr, hfail⟩ := (h []).2 (not_exists.mp hwell)
      rw [netAtonV4, hstored] at hfail
      rw [← (Prod.mk.inj hfail).1] at herr
      exact absurd herr (lt_irrefl 0)
  · rintro ⟨hbracket, hsloppy⟩ addr
    constructor
    · rintro parts (⟨haddress, rest, hends, hs⟩ | hb)
      · rw [netAtonV4_success, hs]
        exact (haddress.accepted hends).inetAtox hulongs
      · exact absurd hb (hbracket parts)
    · intro hnone
      rw [netAtonV4]
      rcases hresult : inetAtox ulongs s 4 .h with _ | bytes
      · exact ⟨ps_EINVAL, by decide, rfl⟩
      · obtain ⟨parts, rest, haccepted, -⟩ := accepted_of_inetAtox hulongs hresult
        refine absurd (Or.inl ⟨⟨haccepted.address.length, fun p hp ↦ ?_, haccepted.address.byte⟩,
          rest, haccepted.ends, haccepted.text⟩) (hnone parts)
        exact (haccepted.address.part p hp).resolve_right fun h ↦
          hsloppy ⟨parts, rest, haccepted, p, hp, h⟩

/-- **`net_aton_v4` is right** about a string exactly if it is not an address in brackets, and not
one in which a part is taken for a number that has no digits, or an `x` without a zero. -/
theorem net_aton_v4_exact (ulongs : {n : ℕ // 2 ^ 32 ≤ n}) (s : Memory.CString) :
    AtonRight ulongs s.1 ↔ (∀ parts, ¬Bracketed s.1 parts) ∧ ¬SloppyAddress s.1 :=
  atonRight_iff ulongs.2 s.1

theorem number_digit {c : U8} (h : 49 ≤ c.toNat ∧ c.toNat ≤ 57) : Number [c] (c.toNat - 48) := by
  have hdigit : digitOf 10 c = some (c.toNat - 48) := if_pos ⟨by omega, h.2⟩
  have hzero : c ≠ ZERO := by
    rintro rfl
    exact absurd h.1 (by decide)
  have hvalue : valueFrom 10 0 [c] = c.toNat - 48 := by
    rw [valueFrom, List.foldl_cons, List.foldl_nil, hdigit, Option.getD_some, Nat.zero_mul,
      Nat.zero_add]
  rw [← hvalue]
  refine .decimal (fun d hd ↦ ?_) (List.cons_ne_nil _ _) fun h ↦ hzero (Option.some.inj h)
  obtain rfl := List.mem_singleton.mp hd
  exact ⟨_, by omega, hdigit⟩

/-- `1.2.3.4` -/
def oneToFour : List (List U8 × ℕ) := [([49#8], 1), ([50#8], 2), ([51#8], 3), ([52#8], 4)]

/-- `1..3.4` -/
def emptyPart : List (List U8 × ℕ) := [([49#8], 1), ([], 0), ([51#8], 3), ([52#8], 4)]

theorem address_oneToFour : Address Number oneToFour where
  length := rfl
  part := by
    simp only [oneToFour, List.forall_mem_cons, List.not_mem_nil, false_imp_iff, implies_true,
      and_true]
    exact ⟨number_digit (by decide), number_digit (by decide), number_digit (by decide),
      number_digit (by decide)⟩
  byte := by decide

theorem address_emptyPart : Address Taken emptyPart where
  length := rfl
  part := by
    simp only [emptyPart, List.forall_mem_cons, List.not_mem_nil, false_imp_iff, implies_true,
      and_true]
    exact ⟨Or.inl (number_digit (by decide)), Or.inr .empty, Or.inl (number_digit (by decide)),
      Or.inl (number_digit (by decide))⟩
  byte := by decide

/-- **`[1.2.3.4]`** is refused, and `1..3.4` is taken. -/
theorem not_atonRight : ¬AtonRight (2 ^ 32) (LBRACKET :: addressText oneToFour ++ [RBRACKET]) ∧
    ¬AtonRight (2 ^ 32) (addressText emptyPart) := by
  rw [atonRight_iff le_rfl, atonRight_iff le_rfl]
  constructor
  · rintro ⟨hbracket, -⟩
    exact hbracket oneToFour ⟨address_oneToFour, [], by simp [Ends], rfl⟩
  · rintro ⟨-, hsloppy⟩
    refine hsloppy ⟨emptyPart, [], ⟨address_emptyPart, by simp [Ends], by simp, ?_⟩, ([], 0), ?_,
      .empty⟩
    · decide
    · decide

end Hyunjin.Net
