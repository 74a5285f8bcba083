import Hyunjin.Ini.Doit
import Mathlib.Data.List.DropRight

/-!
# Lines of an ini file

A file is a list of lines. A line has a body, which starts at its first character that is no blank,
the spaces in front of it, and the line ends behind it. All that a read or a write asks of a line
depends on its body: whether it is a header, of which sections, whether it is a record, of which
keys, and the value. What the loops over the block compute is stated in these terms.
-/

namespace Hyunjin.Ini

open Memory

/-! ## Lines -/

/-- A line, with the spaces in front of it and the line ends behind it. -/
structure Line where
  lead : List U8
  body : List U8
  eol : List U8

def Line.text (l : Line) : List U8 := l.lead ++ l.body ++ l.eol

/-- The text of some lines. -/
def linesText (ls : List Line) : List U8 := ls.flatMap Line.text

@[simp] theorem linesText_nil : linesText [] = [] := rfl

@[simp] theorem linesText_cons (l : Line) (ls : List Line) :
    linesText (l :: ls) = l.text ++ linesText ls := List.flatMap_cons

@[simp] theorem linesText_append (ls ls' : List Line) :
    linesText (ls ++ ls') = linesText ls ++ linesText ls' := List.flatMap_append

/-- The parts of a line are what their names say. -/
structure Line.Ok (l : Line) : Prop where
  lead : ∀ c ∈ l.lead, isSpace c = true
  head : ∃ c cs, l.body = c :: cs ∧ isBlank c = false
  body : ∀ c ∈ l.body, isEol c = false
  eol : ∀ c ∈ l.eol, isEol c = true

theorem Line.Ok.body_ne {l : Line} (h : l.Ok) : l.body ≠ [] := by
  obtain ⟨c, cs, hbody, -⟩ := h.head
  rw [hbody]
  exact List.cons_ne_nil c cs

theorem Line.Ok.length_text_pos {l : Line} (h : l.Ok) : 0 < l.text.length := by
  obtain ⟨c, cs, hbody, -⟩ := h.head
  rw [Line.text, hbody]
  simp only [List.length_append, List.length_cons]
  omega

/-- Nothing follows that belongs to the line: no line end, and nothing at all behind a line without
one. -/
structure Line.EndsAt (l : Line) (rest : List U8) : Prop where
  head : ∀ c ∈ rest.head?, isEol c = false
  eol : l.eol = [] → rest = []

/-- What a text consists of: lines, and spaces behind the last one. -/
inductive Parsed : List Line → List U8 → Prop
  | done {tail : List U8} (h : ∀ c ∈ tail, isSpace c = true) : Parsed [] tail
  | line {l : Line} {ls : List Line} {tail : List U8} (hok : l.Ok)
    (hends : l.EndsAt (linesText ls ++ tail)) (h : Parsed ls tail) : Parsed (l :: ls) tail

/-- The next line of a text, and what follows it. -/
def takeLine (text : List U8) : Line × List U8 :=
  let fromBody := text.dropWhile isSpace
  let fromEol := fromBody.dropWhile (!isEol ·)
  (⟨text.takeWhile isSpace, fromBody.takeWhile (!isEol ·), fromEol.takeWhile isEol⟩,
    fromEol.dropWhile isEol)

def linesLoop : ℕ → List U8 → List Line
  | 0, _ => []
  | n + 1, text =>
    let (l, rest) := takeLine text
    if l.body = [] then [] else l :: linesLoop n rest

/-- **The lines of a text.** -/
def linesOf (text : List U8) : List Line := linesLoop text.length text

theorem isSpace_eq_false {c : U8} : isSpace c = false ↔ isEol c = false ∧ isBlank c = false := by
  rw [isSpace, Bool.or_eq_false_iff]

theorem takeLine_text (text : List U8) : (takeLine text).1.text ++ (takeLine text).2 = text := by
  simp only [takeLine, Line.text, List.append_assoc, List.takeWhile_append_dropWhile]

/-- The first element that is not dropped. -/
theorem of_mem_head?_dropWhile {p : U8 → Bool} {text : List U8} {c : U8}
    (h : c ∈ (text.dropWhile p).head?) : p c = false := by
  have hhead := List.head?_dropWhile_not p text
  rw [Option.mem_def.mp h] at hhead
  exact hhead

/-- A text without a body is all spaces. -/
theorem takeLine_body_eq_nil {text : List U8} (h : (takeLine text).1.body = []) :
    ∀ c ∈ text, isSpace c = true := by
  rw [← List.dropWhile_eq_nil_iff]
  dsimp only [takeLine] at h
  cases hdrop : text.dropWhile isSpace with
  | nil => rfl
  | cons c cs =>
    have hc := of_mem_head?_dropWhile (show c ∈ (text.dropWhile isSpace).head? by rw [hdrop]; rfl)
    rw [hdrop, List.takeWhile_cons_of_pos (by rw [(isSpace_eq_false.mp hc).1]; rfl)] at h
    exact absurd h (List.cons_ne_nil _ _)

theorem takeLine_ok {text : List U8} (h : (takeLine text).1.body ≠ []) :
    (takeLine text).1.Ok ∧ (takeLine text).1.EndsAt (takeLine text).2 := by
  refine ⟨⟨fun c hc ↦ List.mem_takeWhile_imp hc, ?_, ?_, fun c hc ↦ List.mem_takeWhile_imp hc⟩,
    fun c hc ↦ of_mem_head?_dropWhile hc, ?_⟩
  · dsimp only [takeLine] at h ⊢
    cases hdrop : text.dropWhile isSpace with
    | nil => exact absurd (by rw [hdrop]; rfl) h
    | cons c cs =>
      have hc := of_mem_head?_dropWhile
        (show c ∈ (text.dropWhile isSpace).head? by rw [hdrop]; rfl)
      obtain ⟨heol, hblank⟩ := isSpace_eq_false.mp hc
      exact ⟨c, _, List.takeWhile_cons_of_pos (by rw [heol]; rfl), hblank⟩
  · intro c hc
    simpa using List.mem_takeWhile_imp hc
  · dsimp only [takeLine]
    intro hnil
    cases hdrop : (text.dropWhile isSpace).dropWhile (!isEol ·) with
    | nil => rfl
    | cons c cs =>
      have hc := of_mem_head?_dropWhile
        (show c ∈ ((text.dropWhile isSpace).dropWhile (!isEol ·)).head? by rw [hdrop]; rfl)
      rw [hdrop, List.takeWhile_cons_of_pos (by simpa using hc)] at hnil
      exact absurd hnil (List.cons_ne_nil _ _)

theorem linesLoop_parsed (n : ℕ) {text : List U8} (hn : text.length ≤ n) :
    ∃ tail, text = linesText (linesLoop n text) ++ tail ∧ Parsed (linesLoop n text) tail := by
  induction n generalizing text with
  | zero =>
    rw [List.eq_nil_of_length_eq_zero (Nat.le_zero.mp hn)]
    exact ⟨[], rfl, .done (by simp)⟩
  | succ n ih =>
    rw [linesLoop]
    dsimp only
    split_ifs with hbody
    · exact ⟨text, rfl, .done (takeLine_body_eq_nil hbody)⟩
    · obtain ⟨hok, hends⟩ := takeLine_ok hbody
      have hshort : (takeLine text).2.length ≤ n := by
        have hlen := congrArg List.length (takeLine_text text)
        have hpos := List.length_pos_iff.mpr hbody
        rw [Line.text] at hlen
        simp only [List.length_append] at hlen
        omega
      obtain ⟨tail, htext, hparsed⟩ := ih hshort
      refine ⟨tail, ?_, .line hok (by rw [← htext]; exact hends) hparsed⟩
      rw [linesText_cons, List.append_assoc, ← htext, takeLine_text]

/-- **A text is its lines** and spaces behind them. -/
theorem linesOf_parsed (text : List U8) :
    ∃ tail, text = linesText (linesOf text) ++ tail ∧ Parsed (linesOf text) tail :=
  linesLoop_parsed text.length le_rfl

/-! ## The end of a text -/

section DropRight

variable {α : Type*} {p : α → Bool} {xs ys : List α}

theorem rdropWhile_append_of_pos (h : ∀ y ∈ ys, p y = true) :
    (xs ++ ys).rdropWhile p = xs.rdropWhile p := by
  rw [List.rdropWhile, List.reverse_append, List.dropWhile_append_of_pos, List.rdropWhile]
  exact fun y hy ↦ h y (List.mem_reverse.mp hy)

end DropRight

/-! ## What a line says -/

/-- How far two texts agree, up to case, `_` and `-`. -/
def agree : List U8 → List U8 → ℕ
  | s :: ss, c :: cs => if TOUPPER s = TOUPPER c then agree ss cs + 1 else 0
  | _, _ => 0

/-- The line is a header. -/
def isHeader (body : List U8) : Bool := body.head? == some OPEN

theorem isHeader_cons (c : U8) (cs : List U8) : isHeader (c :: cs) = (c == OPEN) := rfl

/-- The line, a header, is one of the section. The last character is not compared. -/
def isHeaderOf (sect body : List U8) : Bool :=
  let name := sect.dropWhile isBlank
  let i := (body.tail.takeWhile isBlank).length
  let text := body.tail.dropLast.drop i
  let n := agree name text
  let j := ((text.drop n).takeWhile isBlank).length
  decide ((name.drop n).dropWhile isBlank = []) && body.tail[i + n + j]? == some CLOSE

/-- What is in front of the `=`, without the blanks behind it. -/
def keyText (body : List U8) : List U8 := (body.takeWhile (· != EQUALS)).rdropWhile isBlank

/-- The line, no header, is a record of the key. -/
def isRecordOf (key body : List U8) : Bool :=
  let name := key.dropWhile isBlank
  let n := agree name (keyText body)
  decide (EQUALS ∈ body ∧ keyText body ≠ [] ∧ n = (keyText body).length
    ∧ (name.drop n).dropWhile isBlank = [])

/-- The line, no header, is a record of the key that is asked for. -/
def wanted (key : Option CString) (body : List U8) : Bool :=
  key.elim false fun key ↦ isRecordOf key.1 body

theorem mem_of_wanted {key : Option CString} {body : List U8} (h : wanted key body = true) :
    EQUALS ∈ body := by
  cases key with
  | none => exact absurd h Bool.false_ne_true
  | some key => exact (of_decide_eq_true h).1

/-- A value without the blanks in front of it and without its quotes, or without the blanks behind
it. -/
def unquoted (text : List U8) : List U8 :=
  match text.dropWhile isBlank with
  | [] => []
  | c :: cs => if isQuote c then cs.takeWhile (· != c) else (c :: cs).rdropWhile isBlank

/-- The value of a record. -/
def valueOf (body : List U8) : List U8 := unquoted (body.dropWhile (· != EQUALS)).tail

/-! ## The loops over a line -/

section Loops

variable {data : List U8}

theorem agree_le (name text : List U8) : agree name text ≤ text.length := by
  induction name, text using agree.induct with
  | case1 s ss c cs heq ih => rw [agree, if_pos heq]; exact Nat.succ_le_succ ih
  | case2 s ss c cs hne => rw [agree, if_neg hne]; exact Nat.zero_le _
  | case3 name text h =>
    have hzero : agree name text = 0 := by
      cases name with
      | nil => rfl
      | cons s ss =>
        cases text with
        | nil => rfl
        | cons c cs => exact (h s ss c cs rfl rfl).elim
    rw [hzero]
    exact Nat.zero_le _

theorem agree_le_left (name text : List U8) : agree name text ≤ name.length := by
  induction name generalizing text with
  | nil => exact Nat.le_refl 0
  | cons s ss ih =>
    cases text with
    | nil => exact Nat.zero_le _
    | cons c cs =>
      rw [agree]
      split_ifs
      · exact Nat.succ_le_succ (ih cs)
      · exact Nat.zero_le _

theorem skipBlanks_spec {pos i : ℕ} {text : List U8} (h : HoldsAt data (pos + i) text) :
    skipBlanks data pos text.length i = some (i + (text.takeWhile isBlank).length) := by
  induction text generalizing i with
  | nil => rfl
  | cons c cs ih =>
    rw [List.length_cons, skipBlanks, h.head, Option.bind_eq_bind, Option.bind_some]
    split_ifs with hc
    · rw [ih (i := i + 1) h.tail, List.takeWhile_cons_of_pos hc, List.length_cons, Nat.add_assoc,
        Nat.add_comm 1]
    · rw [List.takeWhile_cons_of_neg hc]
      rfl

theorem matchText_spec {pos i : ℕ} {text : List U8} (h : HoldsAt data (pos + i) text)
    (name : List U8) :
    matchText data pos (i + text.length) i name
      = some (i + agree name text, name.drop (agree name text)) := by
  induction name generalizing i text with
  | nil => cases text <;> rfl
  | cons s ss ih =>
    cases text with
    | nil =>
      rw [matchText, if_neg (by rw [List.length_nil]; exact Nat.lt_irrefl i)]
      rfl
    | cons c cs =>
      rw [matchText, if_pos (by rw [List.length_cons]; omega), h.head, Option.bind_eq_bind,
        Option.bind_some]
      split_ifs with heq
      · have hrec := ih (i := i + 1) h.tail
        rw [List.length_cons, ← Nat.add_assoc, Nat.add_right_comm, hrec, agree, if_pos heq,
          List.drop_succ_cons, Nat.add_assoc, Nat.add_comm 1]
      · rw [agree, if_neg heq]
        rfl

theorem findEquals_spec {pos i : ℕ} {text : List U8} (h : HoldsAt data (pos + i) text) :
    findEquals data pos text.length i
      = some (i + (text.takeWhile (· != EQUALS)).length) := by
  induction text generalizing i with
  | nil => rfl
  | cons c cs ih =>
    rw [List.length_cons, findEquals, h.head, Option.bind_eq_bind, Option.bind_some]
    split_ifs with hc
    · rw [List.takeWhile_cons_of_neg (by simpa using hc)]
      rfl
    · rw [ih (i := i + 1) h.tail, List.takeWhile_cons_of_pos (by simpa using hc), List.length_cons,
        Nat.add_assoc, Nat.add_comm 1]

theorem findQuote_spec {pos i : ℕ} {text : List U8} (endquote : U8)
    (h : HoldsAt data (i + pos) text) :
    findQuote data pos endquote text.length i
      = some (i + (text.takeWhile (· != endquote)).length) := by
  induction text generalizing i with
  | nil => rfl
  | cons c cs ih =>
    rw [List.length_cons, findQuote, h.head, Option.bind_eq_bind, Option.bind_some]
    split_ifs with hc
    · rw [List.takeWhile_cons_of_neg (by simpa using hc)]
      rfl
    · rw [ih (i := i + 1) (by rw [Nat.add_right_comm]; exact h.tail),
        List.takeWhile_cons_of_pos (by simpa using hc), List.length_cons, Nat.add_assoc,
        Nat.add_comm 1]

theorem stripBack_spec (p : U8 → Bool) {pos : ℕ} {text : List U8} (h : HoldsAt data pos text) :
    stripBack p data pos text.length = some (text.rdropWhile p).length := by
  induction text using List.reverseRecOn with
  | nil => rfl
  | append_singleton cs c ih =>
    rw [List.length_append, List.length_singleton, stripBack, h.right.head, Option.bind_eq_bind,
      Option.bind_some]
    split_ifs with hc
    · rw [ih h.left, List.rdropWhile_concat_pos _ _ _ hc]
    · rw [List.rdropWhile_concat_neg _ _ _ hc, List.length_append, List.length_singleton]

theorem matchText_of_ge {pos limit i : ℕ} (h : limit ≤ i) (name : List U8) :
    matchText data pos limit i name = some (i, name) := by
  cases name with
  | nil => rfl
  | cons s ss => rw [matchText, if_neg (Nat.not_lt.mpr h)]

/-- **The comparison with a header.** A header of nothing but blanks is compared with what follows
it, which is no `]`. -/
theorem headerFound_spec {keyoff : ℕ} {body : List U8} (h : HoldsAt data keyoff body)
    (hhead : isHeader body = true) {x : U8} (hx : data[keyoff + body.length]? = some x)
    (hclose : x ≠ CLOSE) (sect : List U8) :
    headerFound data keyoff body.length sect = some (isHeaderOf sect body) := by
  cases body with
  | nil => exact absurd hhead (by decide)
  | cons c b =>
    have hskip := skipBlanks_spec (i := 1) h.tail
    have hile : (b.takeWhile isBlank).length ≤ b.length := (List.takeWhile_prefix _).length_le
    rw [headerFound, List.length_cons, Nat.add_sub_cancel, hskip, isHeaderOf, List.tail_cons]
    simp only [Option.bind_eq_bind, Option.bind_some]
    generalize (b.takeWhile isBlank).length = i at hile ⊢
    rcases hile.lt_or_eq with hlt | rfl
    · have htext : HoldsAt data (keyoff + (1 + i)) (b.dropLast.drop i) := by
        rw [← Nat.add_assoc]
        exact (h.tail.of_prefix b.dropLast_prefix).drop (by rw [List.length_dropLast]; omega)
      have hlen : (b.dropLast.drop i).length = b.length - 1 - i := by
        rw [List.length_drop, List.length_dropLast]
      generalize b.dropLast.drop i = text at htext hlen ⊢
      have hmatch := matchText_spec htext (sect.dropWhile isBlank)
      rw [show 1 + i + text.length = b.length by omega] at hmatch
      have hn := agree_le (sect.dropWhile isBlank) text
      rw [hmatch, Option.bind_some]
      dsimp only
      generalize agree (sect.dropWhile isBlank) text = n at hn ⊢
      have hskip' := skipBlanks_spec (i := 1 + i + n) (by rw [← Nat.add_assoc]; exact htext.drop hn)
      have hj : ((text.drop n).takeWhile isBlank).length ≤ text.length - n := by
        rw [← List.length_drop]
        exact (List.takeWhile_prefix _).length_le
      rw [List.length_drop, show text.length - n = b.length - (1 + i + n) by omega] at hskip'
      rw [hskip', Option.bind_some]
      generalize ((text.drop n).takeWhile isBlank).length = j at hj ⊢
      have hget : data[keyoff + (1 + i + n + j)]? = b[i + n + j]? := by
        rw [← h.tail.getElem? (show i + n + j < b.length by omega)]
        congr 1
        omega
      rw [hget, List.getElem?_eq_getElem (by omega), Option.bind_some]
      split_ifs with hname
      · rw [decide_eq_true hname, Bool.true_and, Option.some_beq_some]
      · rw [decide_eq_false hname, Bool.false_and]
    · have hnil : b.dropLast.drop b.length = [] :=
        List.drop_eq_nil_of_le (by rw [List.length_dropLast]; omega)
      have hagree : agree (sect.dropWhile isBlank) [] = 0 := Nat.le_zero.mp (agree_le _ [])
      have hget : data[keyoff + (1 + b.length)]? = some x := by
        rw [← hx, List.length_cons, Nat.add_comm 1]
      rw [matchText_of_ge (by omega), Option.bind_some, hnil, hagree]
      dsimp only
      rw [show b.length - (1 + b.length) = 0 by omega, skipBlanks, Option.bind_some, hget,
        Option.bind_some, List.drop_nil, List.takeWhile_nil, List.length_nil, Nat.add_zero,
        List.getElem?_eq_none (Nat.le_refl b.length), List.drop_zero]
      split_ifs
      · rw [beq_eq_false_iff_ne.mpr hclose]
        simp
      · simp [*]

theorem length_takeWhile_lt {c : U8} {body : List U8} (h : c ∈ body) :
    (body.takeWhile (· != c)).length < body.length := by
  refine (List.takeWhile_prefix _).length_le.lt_of_ne fun heq ↦ ?_
  have hself := (List.takeWhile_prefix _).eq_of_length heq
  have hc := List.takeWhile_eq_self_iff.mp hself c h
  simp at hc

theorem length_takeWhile_eq {c : U8} {body : List U8} (h : c ∉ body) :
    (body.takeWhile (· != c)).length = body.length := by
  rw [List.takeWhile_eq_self_iff.mpr fun d hd ↦ by simpa using ne_of_mem_of_not_mem hd h]

/-- **The comparison with a record.** -/
theorem findKey_spec {keyoff : ℕ} {body : List U8} (h : HoldsAt data keyoff body)
    (key : Option CString) :
    ∃ keylen valuepos, findKey data keyoff body.length key
        = some (keylen, valuepos, wanted key body)
      ∧ (EQUALS ∈ body → keylen = (keyText body).length
        ∧ valuepos = (body.takeWhile (· != EQUALS)).length + 1) := by
  have hfind := findEquals_spec (i := 0) h
  have hkey : HoldsAt data keyoff (body.takeWhile (· != EQUALS)) :=
    h.of_prefix (List.takeWhile_prefix _)
  rw [findKey, hfind, Option.bind_eq_bind, Option.bind_some, Nat.zero_add]
  by_cases hmem : EQUALS ∈ body
  · rw [if_pos (length_takeWhile_lt hmem), stripBack_spec isBlank hkey, Option.bind_eq_bind,
      Option.bind_some]
    have hprefix : keyText body <+: body :=
      (List.rdropWhile_prefix _ _).trans (List.takeWhile_prefix _)
    cases key with
    | none => exact ⟨_, _, rfl, fun _ ↦ ⟨rfl, rfl⟩⟩
    | some key =>
      have hmatch := matchText_spec (i := 0) (h.of_prefix hprefix) (key.1.dropWhile isBlank)
      rw [Nat.zero_add, Nat.zero_add] at hmatch
      refine ⟨(keyText body).length, _, ?_, fun _ ↦ ⟨rfl, rfl⟩⟩
      dsimp only [wanted, Option.elim]
      rw [← keyText.eq_1, hmatch, isRecordOf]
      split_ifs with hpos
      · rw [Option.bind_some]
        simp only [hmem, List.length_pos_iff.mp hpos, ne_eq, not_false_eq_true, true_and,
          and_comm]
      · rw [Nat.pos_iff_ne_zero, not_not, List.length_eq_zero_iff] at hpos
        simp [hpos]
  · rw [if_neg (by rw [length_takeWhile_eq hmem]; exact Nat.lt_irrefl _)]
    refine ⟨(body.takeWhile (· != EQUALS)).length, 0, ?_, fun h ↦ absurd h hmem⟩
    cases key with
    | none => rfl
    | some key => simp [wanted, isRecordOf, hmem]

/-- What a scan finds of a line that begins here. -/
def Line.scan (l : Line) (off : ℕ) : Scan :=
  ⟨off + l.text.length, l.eol.length, off + l.lead.length, l.lead.countP isBlank, l.body.length⟩

theorem isBlank_of_isEol {c : U8} (h : isEol c = true) : isBlank c = false := by
  rw [isEol, Bool.or_eq_true, beq_iff_eq, beq_iff_eq] at h
  rcases h with rfl | rfl <;> decide

theorem scanLine_lead (n : ℕ) {off keyoff leadspaces : ℕ} {lead : List U8}
    (h : HoldsAt data off lead) (hlead : ∀ c ∈ lead, isSpace c = true) :
    scanLine data (lead.length + n) ⟨off, 0, keyoff, leadspaces, 0⟩
      = scanLine data n ⟨off + lead.length, 0, keyoff, leadspaces + lead.countP isBlank, 0⟩ := by
  induction lead generalizing off leadspaces with
  | nil => simp
  | cons c cs ih =>
    have htail := fun d hd ↦ hlead d (List.mem_cons_of_mem c hd)
    rw [List.length_cons, Nat.add_right_comm, scanLine]
    simp only [h.head, Option.bind_eq_bind, Option.bind_some, ne_eq, not_true_eq_false, if_false,
      true_and]
    split_ifs with heol hblank
    · rw [ih h.tail htail, Nat.add_assoc, Nat.add_comm 1,
        List.countP_cons_of_neg (by rw [isBlank_of_isEol heol]; exact Bool.false_ne_true)]
    · rw [ih h.tail htail, List.countP_cons_of_pos hblank, Nat.add_assoc, Nat.add_assoc,
        Nat.add_comm 1, Nat.add_comm 1]
    · have hspace := hlead c List.mem_cons_self
      rw [isSpace, Bool.or_eq_true] at hspace
      exact absurd hspace (not_or.mpr ⟨heol, hblank⟩)

theorem scanLine_body (n : ℕ) {off keyoff leadspaces linelen : ℕ} {body : List U8}
    (h : HoldsAt data off body) (hbody : ∀ c ∈ body, isEol c = false) (hpos : linelen ≠ 0) :
    scanLine data (body.length + n) ⟨off, 0, keyoff, leadspaces, linelen⟩
      = scanLine data n ⟨off + body.length, 0, keyoff, leadspaces, linelen + body.length⟩ := by
  induction body generalizing off linelen with
  | nil => simp
  | cons c cs ih =>
    have htail := fun d hd ↦ hbody d (List.mem_cons_of_mem c hd)
    rw [List.length_cons, Nat.add_right_comm, scanLine]
    simp only [h.head, Option.bind_eq_bind, Option.bind_some, ne_eq, not_true_eq_false, if_false,
      hbody c List.mem_cons_self, Bool.false_eq_true, hpos, false_and]
    rw [ih h.tail htail (Nat.add_one_ne_zero linelen), Nat.add_assoc, Nat.add_assoc,
      Nat.add_comm 1]

theorem scanLine_eol (n : ℕ) {off eollen keyoff leadspaces linelen : ℕ} {eol : List U8}
    (h : HoldsAt data off eol) (heol : ∀ c ∈ eol, isEol c = true) (hpos : linelen ≠ 0) :
    scanLine data (eol.length + n) ⟨off, eollen, keyoff, leadspaces, linelen⟩
      = scanLine data n ⟨off + eol.length, eollen + eol.length, keyoff, leadspaces, linelen⟩ := by
  induction eol generalizing off eollen with
  | nil => simp
  | cons c cs ih =>
    have htail := fun d hd ↦ heol d (List.mem_cons_of_mem c hd)
    rw [List.length_cons, Nat.add_right_comm, scanLine]
    simp only [h.head, Option.bind_eq_bind, Option.bind_some, heol c List.mem_cons_self, if_true,
      ne_eq, hpos, not_false_eq_true]
    rw [ih h.tail htail, Nat.add_assoc, Nat.add_assoc, Nat.add_comm 1]

/-- **A line is scanned** up to what follows its line ends. -/
theorem scanLine_spec {l : Line} {rest : List U8} (hok : l.Ok) (hends : l.EndsAt rest) {off : ℕ}
    (h : HoldsAt data off (l.text ++ rest)) :
    scanLine data (l.text ++ rest).length ⟨off, 0, 0, 0, 0⟩ = some (l.scan off) := by
  obtain ⟨c, cs, hbody, hblank⟩ := hok.head
  have heol : ∀ d ∈ c :: cs, isEol d = false := hbody ▸ hok.body
  have hlen : (l.text ++ rest).length
      = l.lead.length + (cs.length + (l.eol.length + rest.length) + 1) := by
    rw [Line.text, hbody]
    simp only [List.length_append, List.length_cons]
    omega
  rw [Line.text, hbody, List.append_assoc, List.append_assoc, List.cons_append] at h
  have hbodyAt := h.right.tail
  rw [hlen, scanLine_lead _ h.left hok.lead, scanLine]
  simp only [h.right.head, Option.bind_eq_bind, Option.bind_some, heol c List.mem_cons_self,
    Bool.false_eq_true, if_false, ne_eq, not_true_eq_false, true_and, hblank, if_true]
  rw [scanLine_body _ hbodyAt.left (fun d hd ↦ heol d (List.mem_cons_of_mem c hd)) (by decide),
    scanLine_eol _ hbodyAt.right.left hok.eol (by omega)]
  -- the scan stops at the end, or at the first character of what follows
  have hstop : scanLine data rest.length
      ⟨off + l.lead.length + 1 + cs.length + l.eol.length, 0 + l.eol.length, off + l.lead.length,
        0 + l.lead.countP isBlank, 0 + 1 + cs.length⟩
      = some ⟨off + l.lead.length + 1 + cs.length + l.eol.length, 0 + l.eol.length,
        off + l.lead.length, 0 + l.lead.countP isBlank, 0 + 1 + cs.length⟩ := by
    cases rest with
    | nil => rfl
    | cons d ds =>
      have hd := hends.head d rfl
      have hne : 0 + l.eol.length ≠ 0 := by
        rw [Nat.zero_add, Ne, List.length_eq_zero_iff]
        exact fun hnil ↦ List.cons_ne_nil d ds (hends.eol hnil)
      rw [List.length_cons, scanLine]
      simp only [hbodyAt.right.right.head, Option.bind_eq_bind, Option.bind_some, hd,
        Bool.false_eq_true, if_false]
      rw [if_pos hne]
  rw [hstop, Line.scan, Line.text, hbody]
  simp only [List.length_append, List.length_cons, Option.some.injEq, Scan.mk.injEq, Nat.zero_add]
  refine ⟨?_, trivial, trivial, trivial, ?_⟩ <;> omega

/-- Spaces at the end are no line. -/
theorem scanLine_tail {tail : List U8} {off : ℕ} (h : HoldsAt data off tail)
    (htail : ∀ c ∈ tail, isSpace c = true) :
    scanLine data tail.length ⟨off, 0, 0, 0, 0⟩
      = some ⟨off + tail.length, 0, 0, 0 + tail.countP isBlank, 0⟩ :=
  scanLine_lead 0 h htail

end Loops

end Hyunjin.Ini
