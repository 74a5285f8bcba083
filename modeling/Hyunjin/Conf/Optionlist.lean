import Hyunjin.Conf.Projects
import Mathlib.Logic.Function.Basic

/-!
# Option lists

A table with a number for each contest, or two such tables, is kept as a list: `RC5=1:2,DES=3:4`.
`utilGatherOptionArraysToList` writes it and `utilScatterOptionListToArraysEx` reads it. The reader
goes through an entry character by character. The word in its buffer is the name up to the first
colon or equals sign and a value from there on; an entry ends at a comma or a semicolon, or with the
string.
-/

namespace Hyunjin.Conf

open Memory

/-! ## The writer -/

/-- The number as `%d` prints it. -/
def intText (v : U32) : List U8 :=
  if v.toInt < 0 then DASH :: decimal v.toInt.natAbs else decimal v.toInt.natAbs

/-- `char single[...]`, with integers of four bytes. -/
def SINGLE : ℕ := MAX_PROJECT_NAME_LEN + 1 + 4 * 3 + 1 + 4 * 3 + 1

/-- What is written for a contest. -/
def optionText (table1 : Project → U32) (table2 : Option (Project → U32)) (p : Project) : List U8 :=
  projectGetName p ++ EQUALS :: intText (table1 p)
    ++ table2.elim [] fun table2 ↦ COLON :: intText (table2 p)

/-- The buffer and the length that is written, or that would be. -/
def gatherLoop (table1 : Project → U32) (table2 : Option (Project → U32)) :
    List Project → Option (List U8) → ℕ → List U8 → Option (Option (List U8) × ℕ)
  | [], buffer, donelen, _ => some (buffer, donelen)
  | p :: ps, buffer, donelen, delim =>
    let single := delim ++ optionText table1 table2 p
    if SINGLE ≤ single.length then none
    else
      match buffer with
      | none => gatherLoop table1 table2 ps none (donelen + single.length) [COMMA]
      | some b =>
        if b.length = 0 then
          gatherLoop table1 table2 ps (some b) (donelen + single.length) [COMMA]
        else if donelen + single.length < b.length - 1 then
          (stores b donelen (single ++ [0#8])).bind fun b ↦
            gatherLoop table1 table2 ps (some b) (donelen + single.length) [COMMA]
        else gatherLoop table1 table2 ps (some b) donelen delim

def utilGatherOptionArraysToList (buffer : Option (List U8)) (table1 : Project → U32)
    (table2 : Option (Project → U32)) : Option (Option (List U8) × ℕ) := do
  let buffer ← buffer.elim (some none) fun b ↦
    if b.length = 0 then some (some b) else (store b 0 0#8).map some
  gatherLoop table1 table2 projects buffer 0 []

/-! ## The reader -/

def SPACE : U8 := 32#8

def TAB : U8 := 9#8

def PLUS : U8 := 43#8

/-- The nearest number that a `long` of 64 bits holds. -/
def toLong (n : ℤ) : ℤ := max (-2 ^ 63) (min n (2 ^ 63 - 1))

theorem toLong_eq {n : ℤ} (hlow : -2 ^ 63 ≤ n) (hhigh : n < 2 ^ 63) : toLong n = n := by
  rw [toLong, min_eq_left (Int.le_sub_one_of_lt hhigh), max_eq_right hlow]

/-- The number a string begins with. -/
def strtol (s : List U8) : ℤ :=
  match s.dropWhile isspace with
  | [] => 0
  | c :: cs =>
    if c = DASH then toLong (-decimalValue (cs.takeWhile isdigit))
    else if c = PLUS then toLong (decimalValue (cs.takeWhile isdigit))
    else toLong (decimalValue ((c :: cs).takeWhile isdigit))

/-- C leaves a number undefined that is out of the range of an `int`. Here it is what glibc makes of
it where a `long` has 64 bits, a cast of what `strtol` reads. -/
def atoi (s : List U8) : U32 := BitVec.ofInt 32 (strtol s)

/-- `char buffer[64]` -/
def OPTION : ℕ := 64

/-- The variables of an entry. -/
structure Scan where
  buffer : List U8
  len : ℕ
  kwpos : ℕ
  precspace : Bool
  havenondig : Bool
  contest : Option Project
  value1 : Option U32
  value2 : Option U32

/-- A colon or an equals sign, or the end of the entry: what is in the buffer is taken. The entry is
left if there is anything wrong with it. -/
def takeWord (two : Bool) (sc : Scan) : Option (Scan × Bool) := do
  let buffer ← store sc.buffer sc.len 0#8
  let sc := { sc with buffer := buffer, precspace := false }
  if sc.len = 0 then some (sc, true)
  else
    let word ← cstr sc.buffer
    let sc := { sc with kwpos := sc.kwpos + 1 }
    let next : Scan := { sc with len := 0, havenondig := false }
    if sc.kwpos = 1 then
      match projects.find? (projectGetName · == word) with
      | none => some (sc, false)
      | some p => some ({ next with contest := some p }, true)
    else if sc.kwpos = 2 then
      if sc.havenondig then some (sc, false)
      else some ({ next with value1 := some (atoi word) }, true)
    else if sc.kwpos = 3 ∧ two then
      if sc.havenondig then some (sc, false)
      else some ({ next with value2 := some (atoi word) }, true)
    else some (sc, false)

/-- The characters of an entry: the rest of the string, and what has been read. -/
def optionLoop (two : Bool) : List U8 → Scan → Option (List U8 × Scan)
  | [], sc =>
    if sc.len < OPTION - 1 then do
      let buffer ← stores sc.buffer sc.len [0#8, 0#8]
      let (sc, _) ← takeWord two { sc with buffer := buffer }
      some ([], sc)
    else some ([], sc)
  | c :: cs, sc =>
    if sc.len < OPTION - 1 then do
      let buffer ← stores sc.buffer sc.len [c, 0#8]
      let sc := { sc with buffer := buffer }
      let append : Option Scan := (store sc.buffer sc.len (toupper c)).map fun buffer ↦
        { sc with buffer := buffer, havenondig := true, len := sc.len + 1 }
      if c = COMMA ∨ c = SEMICOLON then
        (takeWord two sc).bind fun (sc, _) ↦ some (c :: cs, sc)
      else if c = COLON ∨ c = EQUALS then
        (takeWord two sc).bind fun (sc, go) ↦
          if go then optionLoop two cs sc else some (cs, sc)
      else if c = SPACE ∨ c = TAB then
        optionLoop two cs { sc with precspace := sc.precspace || decide (sc.len ≠ 0) }
      else if sc.kwpos = 0 ∧ sc.precspace = false then append.bind (optionLoop two cs)
      else if isalpha c then
        if sc.kwpos ≠ 0 ∨ sc.precspace = true then some (cs, sc)
        else append.bind (optionLoop two cs)
      else if isdigit c then
        if sc.precspace then some (cs, sc) else optionLoop two cs { sc with len := sc.len + 1 }
      else if c = PLUS ∨ c = DASH then
        if sc.len ≠ 0 ∨ cs.head?.all (!isdigit ·) then some (cs, sc)
        else optionLoop two cs { sc with len := sc.len + 1 }
      else optionLoop two cs sc
    else some (c :: cs, sc)

/-- The two tables. -/
structure Tables where
  table1 : Project → U32
  table2 : Option (Project → U32)

/-- What has been read of an entry goes into the tables. -/
def Tables.assign (t : Tables) (sc : Scan) : Tables :=
  match sc.contest, sc.value1 with
  | some p, some value1 =>
    { table1 := Function.update t.table1 p value1
      table2 := t.table2.map fun table2 ↦ Function.update table2 p (sc.value2.getD value1) }
  | _, _ => t

def scatterLoop : ℕ → List U8 → List U8 → Tables → Option Tables
  | 0, _, _, _ => none
  | fuel + 1, oplist, buffer, t =>
    if oplist = [] then some t
    else
      let oplist := oplist.dropWhile (!isalpha ·)
      if oplist = [] then some t
      else do
        let (oplist, sc) ← optionLoop t.table2.isSome oplist
          ⟨buffer, 0, 0, false, false, none, none, none⟩
        scatterLoop fuel (oplist.dropWhile fun c ↦ c != COMMA && c != SEMICOLON) sc.buffer
          (t.assign sc)

/-- The tables as they are before the list is read. -/
def Tables.defaults (t : Tables) (default1 default2 : Option (Project → U32)) : Tables where
  table1 := default1.getD t.table1
  table2 := t.table2.map fun table2 ↦ default2.getD table2

/-- What the buffer holds before an entry does not matter. -/
def utilScatterOptionListToArraysEx (buffer : List.Vector U8 OPTION) (oplist : List U8) (t : Tables)
    (default1 default2 : Option (Project → U32)) : Option Tables :=
  scatterLoop (oplist.length + 1) oplist buffer.1 (t.defaults default1 default2)

/-! ## Numbers that are read -/

theorem takeWhile_isdigit_decimal (n : ℕ) : (decimal n).takeWhile isdigit = decimal n :=
  List.takeWhile_eq_self_iff.mpr fun _ hc ↦ isDigit_iff.mpr (isDigit_of_mem_decimal hc)

theorem decimal_eq_cons (n : ℕ) : ∃ c cs, decimal n = c :: cs ∧ IsDigit c := by
  cases hds : decimal n with
  | nil => exact absurd hds (List.length_pos_iff.mp (length_decimal_pos n))
  | cons c cs =>
    refine ⟨c, cs, rfl, isDigit_of_mem_decimal (n := n) ?_⟩
    rw [hds]
    exact List.mem_cons_self

theorem not_sign_of_isDigit {c : U8} (h : IsDigit c) : isspace c = false ∧ c ≠ DASH ∧ c ≠ PLUS := by
  rw [← isDigit_iff] at h
  revert h
  revert c
  decide

/-- A number without a sign is read back. -/
theorem atoi_decimal {n : ℕ} (h : n < 2 ^ 63) : atoi (decimal n) = BitVec.ofInt 32 n := by
  obtain ⟨c, cs, hcons, hc⟩ := decimal_eq_cons n
  obtain ⟨hspace, hdash, hplus⟩ := not_sign_of_isDigit hc
  have hwhile := takeWhile_isdigit_decimal n
  have hvalue := decimalValue_decimal n
  rw [hcons] at hwhile hvalue
  rw [hcons, atoi, strtol, List.dropWhile_cons_of_neg (by rw [hspace]; exact Bool.false_ne_true)]
  dsimp only
  rw [if_neg hdash, if_neg hplus, hwhile, hvalue, toLong_eq (by omega) (by omega)]

end Hyunjin.Conf
