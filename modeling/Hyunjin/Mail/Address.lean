import Hyunjin.Conf.Timestring
import Hyunjin.Run.Loops
import Hyunjin.Text.Decimal
import Hyunjin.Word.Strings

/-!
# Mail addresses

`rfc822Address` takes the first address off a list: a word, or what is between angle brackets.
Quoted strings and comments are skipped. Between the brackets, spaces and unprintable characters
are skipped without a look at the end of the string, and a comma that comes first is not skipped at
all: the loop is left at the end of the string, or never (`BracketOk`).
-/

namespace Hyunjin.Mail

open Conf (isdigit)
open Memory (CString)

/-! ## Characters -/

def LT : U8 := 60#8

def GT : U8 := 62#8

def LPAREN : U8 := 40#8

def RPAREN : U8 := 41#8

def DQUOTE : U8 := 34#8

def SQUOTE : U8 := 39#8

def ATSIGN : U8 := 64#8

/-- `isprint`, in the C locale. -/
def isprint (c : U8) : Bool := (32#8).ule c && c.ule 126#8

/-- A space or an unprintable character. -/
def blank (c : U8) : Bool := !isprint c || Conf.isspace c

def separator (c : U8) : Bool := c == COMMA || blank c

/-- What starts a comment or a quoted string. -/
def quote (c : U8) : Bool := c == LPAREN || c == DQUOTE || c == SQUOTE

/-- What ends it. -/
def closing (c : U8) : U8 := if c = LPAREN then RPAREN else c

/-! ## The scan -/

/-- What is left of the address, what is in the buffer, how much of the buffer has been written, and
whether the loop has been left. -/
structure Scan where
  addr : List U8
  out : List U8
  extent : ℕ
  started : Bool
  errcode : ℤ
  ended : Bool

namespace Scan

/-- A character is copied. -/
def put (s : Scan) (c : U8) (cs : List U8) : Scan :=
  { s with addr := cs, out := s.out ++ [c], extent := max s.extent (s.out.length + 1),
           started := true }

/-- The buffer is emptied. -/
def fail (s : Scan) (addr : List U8) (errcode : ℤ) : Scan :=
  { s with addr, out := [], errcode, ended := true }

end Scan

/-- Blanks are skipped between brackets. The NUL is one of them: `none` if it is skipped, too. -/
def skipBlank : List U8 → Option (List U8)
  | [] => none
  | c :: cs => if blank c then skipBlank cs else some (c :: cs)

def bracketDone (s : Scan) : Bool := s.ended || s.addr.head? == some GT

/-- A turn of the loop between brackets; `none` if it reads past the NUL. -/
def bracketTurn (s : Scan) : Option Scan :=
  match s.addr with
  | [] => some (s.fail [] (-1))
  | c :: cs =>
    if separator c then (skipBlank (c :: cs)).map fun rest ↦
      if s.started ∧ rest.head? ≠ some GT then s.fail rest (if rest = [] then 1 else -1)
      else { s with addr := rest }
    else some (s.put c cs)

/-- What comes after a bracket is scanned. -/
def bracket (fuel : ℕ) (s : Scan) (text : List U8) : Option Scan :=
  (Run.whileLoop bracketDone bracketTurn fuel { s with addr := text, out := [], errcode := 0 }).map
    fun t ↦ { t with ended := true }

def scanDone (s : Scan) : Bool := s.ended || s.addr == []

/-- A comment or a quoted string is skipped, with what separates it from the next; `none` if it is
not closed. -/
def skipQuoted (c : U8) (cs : List U8) : Option (List U8) :=
  match cs.dropWhile (· ≠ closing c) with
  | [] => none
  | _ :: rest => some (rest.dropWhile separator)

/-- A turn of the loop that scans an address. -/
def scanTurn (fuel : ℕ) (s : Scan) : Option Scan :=
  match s.addr with
  | [] => some s
  | c :: cs =>
    if c = LT then if s.started then some (s.fail (c :: cs) (-1)) else bracket fuel s cs
    else if quote c then
      match skipQuoted c cs with
      | none => some { s with addr := [], errcode := 1, ended := true }
      | some rest => some { s with addr := rest, ended := s.started }
    else if separator c then
      some { s with addr := (c :: cs).dropWhile separator, ended := s.started }
    else some (s.put c cs)

theorem lawfulBEq_U8 : LawfulBEq U8 := inferInstance

/-- A host is added to an address without one. -/
def withHost (out host : List U8) : List U8 :=
  haveI := lawfulBEq_U8
  let bare := out.getLast? = some ATSIGN ∨ ATSIGN ∉ out
  let out := if out.getLast? = some ATSIGN then out.dropLast else out
  match host with
  | [] => out
  | h :: _ =>
    if bare then out ++ [ATSIGN] ++ if isdigit h then [91#8] ++ host ++ [93#8] else host
    else out

/-- An address, with the error code and what is left. -/
structure Addressed where
  errcode : ℤ
  buffer : List U8
  next : List U8
  extent : ℕ

/-- The buffer is ended, and gets a host. -/
def Scan.address (s : Scan) (host : List U8) : Addressed :=
  let extent := max s.extent (s.out.length + 1)
  if s.out = [] then ⟨if s.errcode = 0 then -1 else s.errcode, [], s.addr, extent⟩
  else ⟨s.errcode, withHost s.out host, s.addr, max extent ((withHost s.out host).length + 1)⟩

/-- `rfc822Address`, where no loop has more than `fuel` turns. -/
def rfc822AddressIn (fuel : ℕ) (addr host : List U8) : Option Addressed :=
  (Run.whileLoop scanDone (scanTurn fuel) fuel ⟨addr, [], 0, false, 0, false⟩).map (·.address host)

/-- `rfc822Address`; `none` if it does not return. With more turns it does not return either
(`rfc822AddressIn_eq_none`). -/
def rfc822Address (addr host : List U8) : Option Addressed :=
  rfc822AddressIn (addr.length + 2) addr host

/-! ## Between brackets -/

/-- A character of an address. -/
def wordChar (c : U8) : Bool := !separator c && c != GT

/-- A word between brackets comes to its end: blanks that follow it are not the last. -/
def WordOk (text : List U8) : Prop :=
  text.dropWhile wordChar = [] ∨ (text.dropWhile wordChar).dropWhile blank ≠ []

/-- What follows a bracket comes to its end: blanks are not the last of it, and a comma is not the
first of it that is not blank. -/
def BracketOk (text : List U8) : Prop :=
  (text = [] ∨ text.dropWhile blank ≠ []) ∧ (text.dropWhile blank).head? ≠ some COMMA ∧
    WordOk (text.dropWhile blank)

instance (text : List U8) : Decidable (WordOk text) := inferInstanceAs (Decidable (_ ∨ _))

instance (text : List U8) : Decidable (BracketOk text) := inferInstanceAs (Decidable (_ ∧ _))

theorem skipBlank_eq (text : List U8) : skipBlank text =
    if text.dropWhile blank = [] then none else some (text.dropWhile blank) := by
  induction text with
  | nil => rfl
  | cons c text ih =>
    rw [skipBlank]
    by_cases h : blank c = true
    · rw [if_pos h, ih, List.dropWhile_cons_of_pos h]
    · rw [if_neg h, List.dropWhile_cons_of_neg h, if_neg (List.cons_ne_nil _ _)]

theorem separator_eq_false {c : U8} (h : separator c = false) : c ≠ COMMA ∧ blank c = false := by
  rw [separator, Bool.or_eq_false_iff] at h
  exact ⟨fun heq ↦ by simp [heq] at h, h.2⟩

theorem wordChar_of_separator {c : U8} (h : separator c = true) : wordChar c = false := by
  rw [wordChar, h]
  rfl

theorem wordChar_of_not_separator {c : U8} (h : separator c = false) (hGT : c ≠ GT) :
    wordChar c = true := by
  rw [wordChar, h, bne_iff_ne.mpr hGT]
  rfl

theorem wordOk_cons {c : U8} (h : wordChar c = true) (cs : List U8) :
    WordOk (c :: cs) ↔ WordOk cs := by
  rw [WordOk, WordOk, List.dropWhile_cons_of_pos h]

theorem wordOk_cons_of_end {c : U8} (h : wordChar c = false) (cs : List U8) :
    WordOk (c :: cs) ↔ (c :: cs).dropWhile blank ≠ [] := by
  rw [WordOk, List.dropWhile_cons_of_neg (by rw [h]; exact Bool.false_ne_true)]
  exact or_iff_right (List.cons_ne_nil _ _)

theorem wordOk_GT (cs : List U8) : WordOk (GT :: cs) := by
  rw [wordOk_cons_of_end (by decide), List.dropWhile_cons_of_neg (by decide)]
  exact List.cons_ne_nil _ _

theorem bracketOk_nil : BracketOk [] := ⟨.inl rfl, by simp, .inl rfl⟩

theorem dropWhile_dropWhile {p : U8 → Bool} (text : List U8) :
    (text.dropWhile p).dropWhile p = text.dropWhile p := by
  induction text with
  | nil => rfl
  | cons c text ih =>
    by_cases h : p c = true
    · rwa [List.dropWhile_cons_of_pos h]
    · rw [List.dropWhile_cons_of_neg h, List.dropWhile_cons_of_neg h]

theorem bracketOk_cons (c : U8) (cs : List U8) : BracketOk (c :: cs) ↔
    (c :: cs).dropWhile blank ≠ [] ∧ BracketOk ((c :: cs).dropWhile blank) := by
  rw [BracketOk, BracketOk, dropWhile_dropWhile]
  simp only [reduceCtorEq, false_or, ne_eq]
  tauto

theorem bracketOk_cons_of_not_blank {c : U8} (h : blank c = false) (cs : List U8) :
    BracketOk (c :: cs) ↔ c ≠ COMMA ∧ WordOk (c :: cs) := by
  rw [BracketOk, List.dropWhile_cons_of_neg (by rw [h]; exact Bool.false_ne_true)]
  simp

/-- The states from which the loop between brackets is left. -/
def Scan.Closing (s : Scan) : Prop :=
  s.ended = true ∨ if s.started = true then WordOk s.addr else BracketOk s.addr

/-- What is still to be done in a loop that scans. -/
def Scan.left (s : Scan) : ℕ := if s.ended then 0 else s.addr.length + 1

theorem bracketDone_eq_false {s : Scan} (h : bracketDone s = false) :
    s.ended = false ∧ s.addr.head? ≠ some GT := by
  rw [bracketDone, Bool.or_eq_false_iff] at h
  exact ⟨h.1, by simpa using h.2⟩

/-- A turn of a loop that will be left. -/
theorem Scan.Closing.turn {s : Scan} (h : s.Closing) (hgoing : bracketDone s = false) :
    ∃ t, bracketTurn s = some t ∧ t.Closing ∧ t.left < s.left := by
  obtain ⟨hover, hGT⟩ := bracketDone_eq_false hgoing
  obtain ⟨addr, out, extent, started, errcode, ended⟩ := s
  dsimp only at hover hGT
  subst hover
  have hopen := h.resolve_left Bool.false_ne_true
  dsimp only at hopen
  cases addr with
  | nil => exact ⟨_, rfl, .inl rfl, by simp [Scan.left, Scan.fail]⟩
  | cons c cs =>
    have hc : c ≠ GT := fun heq ↦ hGT (by rw [heq]; rfl)
    simp only [bracketTurn]
    cases hsep : separator c with
    | false =>
      rw [if_neg Bool.false_ne_true]
      have hword := wordChar_of_not_separator hsep hc
      refine ⟨_, rfl, .inr ?_, by simp [Scan.left, Scan.put]⟩
      rw [Scan.put, if_pos rfl, ← wordOk_cons hword]
      cases started with
      | true => exact hopen
      | false => exact ((bracketOk_cons_of_not_blank (separator_eq_false hsep).2 cs).mp hopen).2
    | true =>
      obtain ⟨rest, hrest⟩ : ∃ rest, rest = (c :: cs).dropWhile blank := ⟨_, rfl⟩
      have hlt (hblank : blank c = true) : rest.length < (c :: cs).length := by
        rw [hrest, List.dropWhile_cons_of_pos hblank]
        exact Nat.lt_succ_of_le (List.dropWhile_suffix _).length_le
      rw [if_pos rfl, skipBlank_eq, ← hrest]
      cases started with
      | true =>
        have hne : rest ≠ [] :=
          hrest ▸ (wordOk_cons_of_end (wordChar_of_separator hsep) cs).mp hopen
        rw [if_neg hne, Option.map_some]
        by_cases hhead : rest.head? = some GT
        · rw [if_neg (fun h ↦ h.2 hhead)]
          obtain ⟨rest, rfl⟩ := List.head?_eq_some_iff.mp hhead
          have hblank : blank c = true := by
            by_contra hno
            rw [List.dropWhile_cons_of_neg hno] at hrest
            exact hc (List.cons.inj hrest).1.symm
          refine ⟨_, rfl, .inr (wordOk_GT rest), ?_⟩
          simp only [Scan.left, Bool.false_eq_true, ↓reduceIte]
          exact Nat.succ_lt_succ (hlt hblank)
        · rw [if_pos ⟨rfl, hhead⟩]
          exact ⟨_, rfl, .inl rfl, Nat.succ_pos _⟩
      | false =>
        obtain ⟨hne, hok⟩ := (bracketOk_cons c cs).mp hopen
        rw [← hrest] at hne hok
        have hblank : blank c = true := by
          by_contra hno
          have hcomma := ((bracketOk_cons_of_not_blank (eq_false_of_ne_true hno) cs).mp hopen).1
          rw [separator, Bool.or_eq_true, beq_iff_eq] at hsep
          exact hsep.elim hcomma hno
        rw [if_neg hne, Option.map_some, if_neg (fun h ↦ Bool.false_ne_true h.1)]
        refine ⟨_, rfl, .inr hok, ?_⟩
        simp only [Scan.left, Bool.false_eq_true, ↓reduceIte]
        exact Nat.succ_lt_succ (hlt hblank)

/-- A turn of a loop that will not be left. -/
theorem Scan.turn_of_not_closing {s : Scan} (h : ¬s.Closing) :
    bracketDone s = false ∧ ∀ t, bracketTurn s = some t → ¬t.Closing := by
  obtain ⟨addr, out, extent, started, errcode, ended⟩ := s
  rw [Scan.Closing, not_or] at h
  obtain ⟨hover, hopen⟩ := h
  dsimp only at hover hopen
  have hover : ended = false := eq_false_of_ne_true hover
  subst hover
  cases addr with
  | nil =>
    cases started with
    | true => exact absurd (.inl rfl) hopen
    | false => exact absurd bracketOk_nil hopen
  | cons c cs =>
    have hc : c ≠ GT := by
      rintro rfl
      cases started with
      | true => exact hopen (wordOk_GT cs)
      | false =>
        exact hopen ((bracketOk_cons_of_not_blank (by decide) cs).mpr ⟨by decide, wordOk_GT cs⟩)
    have hgoing : bracketDone ⟨c :: cs, out, extent, started, errcode, false⟩ = false := by
      simp [bracketDone, hc]
    refine ⟨hgoing, fun t ht ↦ ?_⟩
    simp only [bracketTurn] at ht
    cases hsep : separator c with
    | false =>
      rw [hsep, if_neg Bool.false_ne_true] at ht
      have hword := wordChar_of_not_separator hsep hc
      rw [← Option.some.inj ht, Scan.Closing, Scan.put, if_pos rfl, ← wordOk_cons hword, not_or]
      refine ⟨Bool.false_ne_true, ?_⟩
      cases started with
      | true => exact hopen
      | false =>
        obtain ⟨hcomma, hblank⟩ := separator_eq_false hsep
        exact fun hok ↦ hopen ((bracketOk_cons_of_not_blank hblank cs).mpr ⟨hcomma, hok⟩)
    | true =>
      rw [hsep, if_pos rfl, skipBlank_eq] at ht
      cases started with
      | true =>
        have hend := mt (wordOk_cons_of_end (wordChar_of_separator hsep) cs).mpr hopen
        rw [if_pos (not_not.mp hend)] at ht
        exact nomatch ht
      | false =>
        by_cases hne : (c :: cs).dropWhile blank = []
        · rw [if_pos hne] at ht
          exact nomatch ht
        · rw [if_neg hne, Option.map_some, if_neg (fun h ↦ Bool.false_ne_true h.1)] at ht
          rw [← Option.some.inj ht, Scan.Closing, not_or]
          exact ⟨Bool.false_ne_true, fun hok ↦ hopen ((bracketOk_cons c cs).mpr ⟨hne, hok⟩)⟩

/-! ## What has been scanned -/

/-- What is left is an end of the text, and not more is written than has been read. -/
structure Scan.Within (text : List U8) (s : Scan) : Prop where
  suffix : s.addr <:+ text
  out_le : s.out.length ≤ s.extent
  extent_le : s.extent + s.addr.length ≤ text.length

namespace Scan

variable {text : List U8} {s : Scan}

/-- Characters are skipped. -/
theorem Within.skip (h : s.Within text) {rest : List U8} (hrest : rest <:+ s.addr) (ended : Bool)
    (errcode : ℤ) : Within text { s with addr := rest, ended, errcode } where
  suffix := hrest.trans h.suffix
  out_le := h.out_le
  extent_le := (Nat.add_le_add_left hrest.length_le _).trans h.extent_le

theorem Within.fail (h : s.Within text) {rest : List U8} (hrest : rest <:+ s.addr) (errcode : ℤ) :
    (s.fail rest errcode).Within text where
  suffix := hrest.trans h.suffix
  out_le := Nat.zero_le _
  extent_le := (Nat.add_le_add_left hrest.length_le _).trans h.extent_le

theorem Within.put (h : s.Within text) {c : U8} {cs : List U8} (haddr : s.addr = c :: cs) :
    (s.put c cs).Within text := by
  obtain ⟨hsuffix, hout, hextent⟩ := h
  rw [haddr] at hsuffix
  rw [haddr, List.length_cons] at hextent
  refine ⟨(List.suffix_cons c cs).trans hsuffix, ?_, ?_⟩
  · simp only [Scan.put, List.length_append, List.length_singleton]
    omega
  · simp only [Scan.put]
    omega

theorem Within.bracketTurn (h : s.Within text) {t : Scan} (ht : bracketTurn s = some t) :
    t.Within text := by
  rw [Mail.bracketTurn] at ht
  rcases haddr : s.addr with _ | ⟨c, cs⟩
  · rw [haddr] at ht
    rw [← Option.some.inj ht]
    exact h.fail (List.nil_suffix) _
  · rw [haddr] at ht
    dsimp only at ht
    by_cases hsep : separator c = true
    · have hsuffix : (c :: cs).dropWhile blank <:+ s.addr := haddr ▸ List.dropWhile_suffix _
      rw [if_pos hsep, skipBlank_eq] at ht
      by_cases hnone : (c :: cs).dropWhile blank = []
      · rw [if_pos hnone] at ht
        exact nomatch ht
      · rw [if_neg hnone, Option.map_some, Option.some.injEq] at ht
        rw [← ht]
        split_ifs
        · exact h.fail hsuffix _
        · exact h.skip hsuffix _ _
    · rw [if_neg hsep] at ht
      rw [← Option.some.inj ht]
      exact h.put haddr

/-- **The loop between brackets is left** if what follows the bracket is ok. -/
theorem exists_bracket {fuel : ℕ} {rest : List U8} (h : s.Within text) (hrest : rest <:+ s.addr)
    (hstarted : s.started = false) (hok : BracketOk rest) (hfuel : rest.length + 1 < fuel) :
    ∃ t, bracket fuel s rest = some t ∧ t.ended = true ∧ t.Within text := by
  obtain ⟨u, hu⟩ : ∃ u : Scan, u = { s with addr := rest, out := [], errcode := 0 } := ⟨_, rfl⟩
  have hwithin : u.Within text := by
    rw [hu]
    exact ⟨hrest.trans h.suffix, Nat.zero_le _,
      (Nat.add_le_add_left hrest.length_le _).trans h.extent_le⟩
  have hclosing : u.Closing := by
    rw [hu]
    exact .inr (by rw [hstarted]; exact hok)
  have hleft : u.left < fuel := by
    rw [hu, Scan.left]
    dsimp only
    split_ifs <;> omega
  have hbody (t : Scan) (ht : t.Closing ∧ t.Within text) (hgoing : bracketDone t = false) :
      ∃ v, Mail.bracketTurn t = some v ∧ (v.Closing ∧ v.Within text) ∧ v.left < t.left := by
    obtain ⟨v, hv, hclosing, hless⟩ := ht.1.turn hgoing
    exact ⟨v, hv, ⟨hclosing, ht.2.bracketTurn hv⟩, hless⟩
  obtain ⟨t, ht, ⟨-, hin⟩, -⟩ := Run.exists_whileLoop_eq
    (fun t ↦ t.Closing ∧ t.Within text) Scan.left hbody ⟨hclosing, hwithin⟩ hleft
  refine ⟨{ t with ended := true }, ?_, rfl, hin.skip List.suffix_rfl _ _⟩
  rw [bracket, ← hu, ht, Option.map_some]

theorem bracket_eq_none {rest : List U8} (hover : s.ended = false) (hstarted : s.started = false)
    (hok : ¬BracketOk rest) (fuel : ℕ) : bracket fuel s rest = none := by
  rw [bracket, Run.whileLoop_eq_none Scan.Closing (fun t ht ↦ turn_of_not_closing ht),
    Option.map_none]
  rw [Closing, hover, hstarted]
  simpa using hok

end Scan

/-! ## Addresses -/

/-- The scan comes to a bracket before anything has been copied, and `text` follows it. -/
inductive Opens : List U8 → List U8 → Prop
  | bracket (text : List U8) : Opens (LT :: text) text
  | quoted {c : U8} {cs rest text : List U8} (hquote : quote c = true)
      (hskip : skipQuoted c cs = some rest) (opens : Opens rest text) : Opens (c :: cs) text
  | separated {c : U8} {cs text : List U8} (hsep : separator c = true)
      (opens : Opens ((c :: cs).dropWhile separator) text) : Opens (c :: cs) text

/-- If the first address is one in brackets, what follows the bracket is ok. -/
def AddressOk (addr : List U8) : Prop := ∀ text, Opens addr text → BracketOk text

theorem addressOk_nil : AddressOk [] := fun _ h ↦ nomatch h

theorem addressOk_LT (text : List U8) : AddressOk (LT :: text) ↔ BracketOk text := by
  refine ⟨fun h ↦ h text (.bracket text), fun hok text' hopens ↦ ?_⟩
  cases hopens with
  | bracket => exact hok
  | quoted hquote => exact absurd hquote (by decide)
  | separated hsep => exact absurd hsep (by decide)

theorem separator_of_quote {c : U8} (h : quote c = true) : separator c = false ∧ c ≠ LT := by
  simp only [quote, Bool.or_eq_true, beq_iff_eq] at h
  rcases h with (rfl | rfl) | rfl <;> decide

theorem addressOk_quoted {c : U8} {cs rest : List U8} (hquote : quote c = true)
    (hskip : skipQuoted c cs = some rest) : AddressOk (c :: cs) ↔ AddressOk rest := by
  refine ⟨fun h text hopens ↦ h text (.quoted hquote hskip hopens), fun hok text hopens ↦ ?_⟩
  cases hopens with
  | bracket => exact absurd rfl (separator_of_quote hquote).2
  | quoted _ hskip' hopens =>
    obtain rfl := Option.some.inj (hskip.symm.trans hskip')
    exact hok text hopens
  | separated hsep => exact absurd (hsep.symm.trans (separator_of_quote hquote).1) (by decide)

theorem addressOk_unclosed {c : U8} {cs : List U8} (hquote : quote c = true)
    (hskip : skipQuoted c cs = none) : AddressOk (c :: cs) := by
  intro text hopens
  cases hopens with
  | bracket => exact absurd rfl (separator_of_quote hquote).2
  | quoted _ hskip' => exact nomatch hskip.symm.trans hskip'
  | separated hsep => exact absurd (hsep.symm.trans (separator_of_quote hquote).1) (by decide)

theorem addressOk_word {c : U8} {cs : List U8} (hLT : c ≠ LT) (hquote : ¬quote c = true)
    (hsep : ¬separator c = true) : AddressOk (c :: cs) := by
  intro text hopens
  cases hopens with
  | bracket => exact absurd rfl hLT
  | quoted hquote' => exact absurd hquote' hquote
  | separated hsep' => exact absurd hsep' hsep

theorem addressOk_separated {c : U8} {cs : List U8} (hsep : separator c = true) :
    AddressOk (c :: cs) ↔ AddressOk ((c :: cs).dropWhile separator) := by
  refine ⟨fun h text hopens ↦ h text (.separated hsep hopens), fun hok text hopens ↦ ?_⟩
  cases hopens with
  | bracket => exact absurd hsep (by decide)
  | quoted hquote => exact absurd (hsep.symm.trans (separator_of_quote hquote).1) (by decide)
  | separated _ hopens => exact hok text hopens

/-- The states from which the scan comes to an end. -/
def Scan.Ending (s : Scan) : Prop := s.ended = true ∨ s.started = true ∨ AddressOk s.addr

theorem skipQuoted_suffix {c : U8} {cs rest : List U8} (h : skipQuoted c cs = some rest) :
    rest <:+ cs := by
  rw [skipQuoted] at h
  rcases hdrop : cs.dropWhile (· ≠ closing c) with _ | ⟨d, ds⟩
  · rw [hdrop] at h
    exact nomatch h
  · rw [hdrop] at h
    rw [← Option.some.inj h]
    refine (List.dropWhile_suffix _).trans ((List.suffix_cons d ds).trans ?_)
    rw [← hdrop]
    exact List.dropWhile_suffix _

theorem scanDone_eq_false {s : Scan} (h : scanDone s = false) : s.ended = false ∧ s.addr ≠ [] := by
  rw [scanDone, Bool.or_eq_false_iff] at h
  exact ⟨h.1, by simpa using h.2⟩

/-- A turn of a scan that comes to an end. -/
theorem Scan.Ending.turn {fuel : ℕ} {text : List U8} {s : Scan} (h : s.Ending)
    (hwithin : s.Within text) (hgoing : scanDone s = false) (hfuel : text.length + 1 < fuel) :
    ∃ t, scanTurn fuel s = some t ∧ t.Ending ∧ t.Within text ∧ t.left < s.left := by
  obtain ⟨hover, hne⟩ := scanDone_eq_false hgoing
  obtain ⟨c, cs, haddr⟩ := List.exists_cons_of_ne_nil hne
  have hopen := h.resolve_left (by rw [hover]; exact Bool.false_ne_true)
  rw [haddr] at hopen
  have hcs : cs <:+ s.addr := haddr ▸ List.suffix_cons c cs
  have hleft : s.left = cs.length + 2 := by
    rw [left, haddr, hover]
    rfl
  have hlen : cs.length < text.length := by
    have hle := hwithin.suffix.length_le
    rw [haddr] at hle
    exact hle
  have hshort {t : Scan} (ht : t.addr <:+ cs) : t.left < s.left := by
    have hle := ht.length_le
    rw [hleft, left]
    split_ifs <;> omega
  simp only [scanTurn, haddr]
  by_cases hLT : c = LT
  · rw [if_pos hLT]
    cases hstarted : s.started with
    | true =>
      rw [if_pos rfl]
      refine ⟨_, rfl, .inl rfl, hwithin.fail (by rw [haddr]) _, ?_⟩
      rw [hleft]
      exact Nat.succ_pos _
    | false =>
      rw [hstarted, hLT] at hopen
      have hok : BracketOk cs := (addressOk_LT cs).mp (hopen.resolve_left Bool.false_ne_true)
      have hturns : cs.length + 1 < fuel := by
        omega
      obtain ⟨t, ht, hend, hin⟩ := exists_bracket hwithin hcs hstarted hok hturns
      refine ⟨t, ?_, .inl hend, hin, ?_⟩
      · rw [if_neg Bool.false_ne_true, ht]
      · rw [hleft, left, hend]
        exact Nat.succ_pos _
  rw [if_neg hLT]
  by_cases hquote : quote c = true
  · rw [if_pos hquote]
    cases hskip : skipQuoted c cs with
    | none =>
      refine ⟨_, rfl, .inl rfl, hwithin.skip List.nil_suffix _ _, ?_⟩
      rw [hleft]
      exact Nat.succ_pos _
    | some rest =>
      have hrest := skipQuoted_suffix hskip
      refine ⟨_, rfl, ?_, hwithin.skip (hrest.trans hcs) _ _, hshort hrest⟩
      rcases hopen with hstarted | hok
      · exact .inl hstarted
      · exact .inr (.inr ((addressOk_quoted hquote hskip).mp hok))
  rw [if_neg hquote]
  by_cases hsep : separator c = true
  · have hrest : (c :: cs).dropWhile separator <:+ cs := by
      rw [List.dropWhile_cons_of_pos hsep]
      exact List.dropWhile_suffix _
    rw [if_pos hsep]
    refine ⟨_, rfl, ?_, hwithin.skip (hrest.trans hcs) _ _, hshort hrest⟩
    rcases hopen with hstarted | hok
    · exact .inl hstarted
    · exact .inr (.inr ((addressOk_separated hsep).mp hok))
  · rw [if_neg hsep]
    exact ⟨_, rfl, .inr (.inl rfl), hwithin.put haddr, hshort List.suffix_rfl⟩

/-- A turn of a scan that does not come to an end. -/
theorem Scan.turn_of_not_ending {s : Scan} (h : ¬s.Ending) (fuel : ℕ) :
    scanDone s = false ∧ ∀ t, scanTurn fuel s = some t → ¬t.Ending := by
  simp only [Ending, not_or] at h
  obtain ⟨hover, hstarted, hok⟩ := h
  have hover : s.ended = false := eq_false_of_ne_true hover
  have hstarted : s.started = false := eq_false_of_ne_true hstarted
  have hne : s.addr ≠ [] := fun heq ↦ hok (by rw [heq]; exact addressOk_nil)
  obtain ⟨c, cs, haddr⟩ := List.exists_cons_of_ne_nil hne
  refine ⟨by simp [scanDone, hover, hne], fun t ht ↦ ?_⟩
  simp only [scanTurn, haddr] at ht
  rw [haddr] at hok
  by_cases hLT : c = LT
  · rw [hLT, addressOk_LT] at hok
    rw [if_pos hLT, hstarted, if_neg Bool.false_ne_true, bracket_eq_none hover hstarted hok] at ht
    exact nomatch ht
  rw [if_neg hLT] at ht
  by_cases hquote : quote c = true
  · rw [if_pos hquote] at ht
    cases hskip : skipQuoted c cs with
    | none => exact absurd (addressOk_unclosed hquote hskip) hok
    | some rest =>
      rw [hskip] at ht
      rw [← Option.some.inj ht, Ending, hstarted]
      simpa using mt (addressOk_quoted hquote hskip).mpr hok
  rw [if_neg hquote] at ht
  by_cases hsep : separator c = true
  · rw [if_pos hsep] at ht
    rw [← Option.some.inj ht, Ending, hstarted]
    simpa using mt (addressOk_separated hsep).mpr hok
  · exact absurd (addressOk_word hLT hquote hsep) hok

/-! ## What is returned -/

/-- **Nothing is returned** if what follows the bracket is not ok. -/
theorem rfc822AddressIn_eq_none {addr : List U8} (h : ¬AddressOk addr) (host : List U8) (fuel : ℕ) :
    rfc822AddressIn fuel addr host = none := by
  rw [rfc822AddressIn, Run.whileLoop_eq_none Scan.Ending
    (fun s hs ↦ Scan.turn_of_not_ending hs fuel), Option.map_none]
  simpa [Scan.Ending] using h

theorem length_withHost_le (out host : List U8) :
    (withHost out host).length ≤ out.length + host.length + 3 := by
  obtain ⟨bare, hbare⟩ : ∃ bare,
      bare = if out.getLast? = some ATSIGN then out.dropLast else out := ⟨_, rfl⟩
  have hle : bare.length ≤ out.length := by
    rw [hbare]
    split_ifs
    · rw [List.length_dropLast]
      exact Nat.sub_le _ _
    · exact le_rfl
  cases host with
  | nil => exact (hbare ▸ hle).trans (Nat.le_add_right _ _)
  | cons h hs =>
    simp only [withHost, ← hbare]
    split_ifs <;> simp only [List.length_append, List.length_cons, List.length_nil] <;> omega

/-- The call has come to an end, has written no more than that, and has made headway if it has found
an address. -/
structure Addressed.Right (addr host : List U8) (r : Addressed) : Prop where
  extent_le : r.extent ≤ addr.length + host.length + 4
  suffix : r.next <:+ addr
  headway : r.errcode = 0 → r.next.length < addr.length

theorem Scan.Within.right {addr : List U8} {s : Scan} (h : s.Within addr) (host : List U8) :
    (s.address host).Right addr host := by
  obtain ⟨hsuffix, hout, hextent⟩ := h
  have hlen := length_withHost_le s.out host
  rw [Scan.address]
  by_cases hempty : s.out = []
  · rw [if_pos hempty]
    refine ⟨?_, hsuffix, fun hzero ↦ ?_⟩
    · rw [hempty, List.length_nil]
      dsimp only
      omega
    · dsimp only at hzero
      split_ifs at hzero with herr
      exact absurd hzero herr
  · rw [if_neg hempty]
    have hpos := List.length_pos_iff.mpr hempty
    refine ⟨?_, hsuffix, fun _ ↦ ?_⟩
    · dsimp only
      omega
    · dsimp only
      omega

/-- **An address is returned** if what follows the bracket is ok. -/
theorem exists_rfc822Address {addr : List U8} (h : AddressOk addr) (host : List U8) :
    ∃ r, rfc822Address addr host = some r ∧ r.Right addr host := by
  have hbody (s : Scan) (hs : s.Ending ∧ s.Within addr) (hgoing : scanDone s = false) :
      ∃ t, scanTurn (addr.length + 2) s = some t ∧ (t.Ending ∧ t.Within addr) ∧
        t.left < s.left := by
    obtain ⟨t, ht, hend, hin, hless⟩ := hs.1.turn hs.2 hgoing (Nat.lt_succ_self _)
    exact ⟨t, ht, ⟨hend, hin⟩, hless⟩
  have hstart : Scan.Within addr ⟨addr, [], 0, false, 0, false⟩ :=
    ⟨List.suffix_rfl, le_rfl, (Nat.zero_add _).le⟩
  obtain ⟨s, hs, ⟨-, hin⟩, -⟩ := Run.exists_whileLoop_eq
    (fun s ↦ s.Ending ∧ s.Within addr) Scan.left hbody ⟨.inr (.inr h), hstart⟩
    (Nat.lt_succ_self (addr.length + 1))
  refine ⟨s.address host, ?_, hin.right host⟩
  rw [rfc822Address, rfc822AddressIn, hs, Option.map_some]

/-! ## Recipients -/

/-- What is known while the recipients are told to the server. -/
structure Envelope where
  destid : List U8
  addrtries : ℕ
  addrok : ℕ
  errmsg : Bool
  ended : Bool

/-- The network: whether a line can be sent, and the result the server gives for it. -/
structure Server where
  sent : ℕ → Bool
  result : ℕ → ℤ

def envelopeDone (s : Envelope) : Bool := s.errmsg || s.ended || s.destid == []

/-- A turn of the loop over the recipients in `smtp_open_message_envelope`. -/
def recipientTurn (server : Server) (smtphost : List U8) (s : Envelope) : Option Envelope :=
  match s.destid.dropWhile separator with
  | [] => some { s with destid := [], ended := true }
  | c :: cs =>
    if quote c then some { s with destid := (cs.dropWhile (· ≠ closing c)).tail }
    else (rfc822Address (c :: cs) smtphost).map fun r ↦
      if r.errcode ≠ 0 then { s with destid := r.next, ended := true }
      else if server.sent s.addrtries then
        { s with destid := r.next, addrtries := s.addrtries + 1,
                 addrok := s.addrok + if server.result s.addrtries = 250 then 1 else 0 }
      else { s with destid := r.next, addrtries := s.addrtries + 1, errmsg := true }

/-- The first turn. -/
def Envelope.start (destid : List U8) : Envelope := ⟨destid, 0, 0, false, false⟩

/-- What a turn takes an address from; the quoted strings are skipped on their own. -/
def nextAddress (destid : List U8) : Option (List U8) :=
  match destid.dropWhile separator with
  | [] => none
  | c :: cs => if quote c then none else some (c :: cs)

/-- What is still to be done in the loop over the recipients. -/
def Envelope.left (s : Envelope) : ℕ := if s.errmsg || s.ended then 0 else s.destid.length + 1

theorem recipientTurn_eq_none_iff (server : Server) (smtphost : List U8) (s : Envelope) :
    recipientTurn server smtphost s = none ↔ ∃ addr ∈ nextAddress s.destid, ¬AddressOk addr := by
  rw [recipientTurn, nextAddress]
  rcases s.destid.dropWhile separator with _ | ⟨c, cs⟩
  · simp
  · dsimp only
    by_cases hquote : quote c = true
    · simp [hquote]
    · rw [if_neg hquote, if_neg hquote, Option.map_eq_none_iff]
      simp only [Option.mem_def, Option.some.injEq, exists_eq_left']
      by_cases hok : AddressOk (c :: cs)
      · obtain ⟨r, hr, -⟩ := exists_rfc822Address hok smtphost
        rw [hr]
        simpa using hok
      · rw [rfc822Address, rfc822AddressIn_eq_none hok]
        simpa using hok

/-- A turn leaves less to be done. -/
theorem recipientTurn_left {server : Server} {smtphost : List U8} {s t : Envelope}
    (hgoing : envelopeDone s = false) (ht : recipientTurn server smtphost s = some t) :
    t.left < s.left := by
  simp only [envelopeDone, Bool.or_eq_false_iff] at hgoing
  obtain ⟨⟨herrmsg, hover⟩, -⟩ := hgoing
  have hleft : s.left = s.destid.length + 1 := by
    rw [Envelope.left, herrmsg, hover]
    rfl
  have hshort {u : Envelope} (h : u.destid.length < s.destid.length) : u.left < s.left := by
    rw [hleft, Envelope.left]
    split_ifs <;> omega
  have hend {u : Envelope} (h : (u.errmsg || u.ended) = true) : u.left < s.left := by
    rw [hleft, Envelope.left, if_pos h]
    exact Nat.succ_pos _
  have hsuffix : s.destid.dropWhile separator <:+ s.destid := List.dropWhile_suffix _
  rw [recipientTurn] at ht
  rcases hdestid : s.destid.dropWhile separator with _ | ⟨c, cs⟩
  · rw [hdestid] at ht
    rw [← Option.some.inj ht]
    exact hend (Bool.or_true _)
  rw [hdestid] at ht hsuffix
  have hlen : cs.length < s.destid.length := hsuffix.length_le
  dsimp only at ht
  by_cases hquote : quote c = true
  · rw [if_pos hquote] at ht
    rw [← Option.some.inj ht]
    refine hshort (Nat.lt_of_le_of_lt ?_ hlen)
    exact ((List.tail_suffix _).trans (List.dropWhile_suffix _)).length_le
  rw [if_neg hquote] at ht
  obtain ⟨r, hr, ht⟩ := Option.map_eq_some_iff.mp ht
  have hok : AddressOk (c :: cs) := by
    by_contra hno
    rw [rfc822Address, rfc822AddressIn_eq_none hno] at hr
    exact nomatch hr
  obtain ⟨r', hr', hright⟩ := exists_rfc822Address hok smtphost
  obtain rfl : r = r' := Option.some.inj (hr.symm.trans hr')
  rw [← ht]
  by_cases herrcode : r.errcode ≠ 0
  · rw [if_pos herrcode]
    exact hend (Bool.or_true _)
  rw [if_neg herrcode]
  by_cases hsent : server.sent s.addrtries = true
  · rw [if_pos hsent]
    exact hshort (Nat.lt_of_lt_of_le (hright.headway (not_not.mp herrcode)) hlen)
  · rw [if_neg hsent]
    exact hend rfl

/-! ## Termination -/

/-- `rfc822Address` terminates, stays within the string and within its share of the buffer, and has
moved on if it reports success. -/
def AddressRight (addr host : CString) : Prop :=
  ∃ fuel r, rfc822AddressIn fuel addr.1 host.1 = some r ∧ r.Right addr.1 host.1

theorem addressRight_iff (addr host : CString) : AddressRight addr host ↔ AddressOk addr.1 := by
  constructor
  · rintro ⟨fuel, r, hr, -⟩
    by_contra hno
    rw [rfc822AddressIn_eq_none hno] at hr
    exact nomatch hr
  · intro hok
    obtain ⟨r, hr, hright⟩ := exists_rfc822Address hok host.1
    exact ⟨_, r, hr, hright⟩

/-- The loop over the recipients comes to an end. -/
def RecipientsEnd (server : Server) (smtphost destid : CString) : Prop :=
  ∃ fuel t, Run.whileLoop envelopeDone (recipientTurn server smtphost.1) fuel
    (Envelope.start destid.1) = some t

/-- Wherever the loop over the recipients comes to, the next address is ok. -/
def RecipientsOk (server : Server) (smtphost destid : CString) : Prop :=
  ∀ t, Run.Visits envelopeDone (recipientTurn server smtphost.1) (Envelope.start destid.1) t →
    envelopeDone t = false → ∀ addr ∈ nextAddress t.destid, AddressOk addr

theorem recipientsEnd_iff (server : Server) (smtphost destid : CString) :
    RecipientsEnd server smtphost destid ↔ RecipientsOk server smtphost destid := by
  rw [RecipientsEnd, Run.exists_whileLoop_iff_visits Envelope.left
    fun s t hgoing ht ↦ recipientTurn_left hgoing ht]
  refine forall_congr' fun t ↦ forall_congr' fun hvisits ↦ forall_congr' fun hgoing ↦ ?_
  rw [ne_eq, recipientTurn_eq_none_iff]
  simp only [not_exists, not_and, not_not]

/-- **Addresses are taken off a list** without reading past its end, and the loop over the
recipients terminates, exactly if what follows the bracket of an address is ok wherever an address
in brackets is come to: a comma is not the first of it, and blanks are not the last. -/
theorem mail_addresses_exact (addr host : CString) (server : Server) (smtphost destid : CString) :
    (AddressRight addr host ↔ AddressOk addr.1) ∧
    (RecipientsEnd server smtphost destid ↔ RecipientsOk server smtphost destid) :=
  ⟨addressRight_iff addr host, recipientsEnd_iff server smtphost destid⟩

/-- A bracket that is not closed, with a space before the end. -/
def openBracket : CString := ⟨[LT, 97#8, 32#8], by decide⟩

/-- **The end of the string is missed** after a space behind an open bracket. -/
theorem not_addressRight : (¬∀ addr host, AddressRight addr host) ∧
    ¬∀ server smtphost destid, RecipientsEnd server smtphost destid := by
  have hno : ¬AddressOk openBracket.1 := fun h ↦
    absurd (h [97#8, 32#8] (.bracket _)) (by decide)
  refine ⟨fun h ↦ hno ((addressRight_iff openBracket openBracket).mp (h _ _)), fun h ↦ hno ?_⟩
  exact (recipientsEnd_iff ⟨fun _ ↦ true, fun _ ↦ 250⟩ openBracket openBracket).mp (h _ _ _)
    _ .here (by decide) _ (by decide)

end Hyunjin.Mail
