import Hyunjin.Ini.Reading

/-!
# Plain lines

The lines that the client itself writes: a header with a name, and a record with a key and a value.
The name of a section is plain if nothing is stripped from it and no `]` is in it, a key if it has
no `=` and is not taken for a header, and a value if it comes back from between its quotes. All that
is asked of such a line depends on these, and names and keys are compared up to case, `_` and `-`.
-/

namespace Hyunjin.Ini

open Memory

/-! ## Names, keys and values -/

/-- What a name or a key is taken for. -/
def folded (text : List U8) : List U8 := text.map TOUPPER

/-- The name of a section. -/
structure SectName where
  text : List U8
  cntrl : ∀ c ∈ text, iscntrl c = false
  close : CLOSE ∉ text
  head : ∀ c ∈ text.head?, isBlank c = false
  last : ∀ c ∈ text.getLast?, isBlank c = false

structure KeyName where
  text : List U8
  ne : text ≠ []
  cntrl : ∀ c ∈ text, iscntrl c = false
  equals : EQUALS ∉ text
  head : ∀ c ∈ text.head?, isBlank c = false ∧ c ≠ OPEN
  last : ∀ c ∈ text.getLast?, isBlank c = false

/-- A value has no quote in front, and one kind of quotes at most. -/
structure Setting where
  text : List U8
  cntrl : ∀ c ∈ text, iscntrl c = false
  head : ∀ c ∈ text.head?, isQuote c = false
  quotes : ¬ (QUOTE ∈ text ∧ DQUOTE ∈ text)

theorem nul_notMem_of_cntrl {text : List U8} (h : ∀ c ∈ text, iscntrl c = false) : 0#8 ∉ text := by
  intro hmem
  exact absurd (h _ hmem) (by decide)

def SectName.cstring (s : SectName) : CString := ⟨s.text, nul_notMem_of_cntrl s.cntrl⟩

def KeyName.cstring (k : KeyName) : CString := ⟨k.text, nul_notMem_of_cntrl k.cntrl⟩

def Setting.cstring (v : Setting) : CString := ⟨v.text, nul_notMem_of_cntrl v.cntrl⟩

@[simp] theorem SectName.val_cstring (s : SectName) : s.cstring.1 = s.text := rfl

@[simp] theorem KeyName.val_cstring (k : KeyName) : k.cstring.1 = k.text := rfl

@[simp] theorem Setting.val_cstring (v : Setting) : v.cstring.1 = v.text := rfl

/-! ## Lines -/

/-- A plain line. -/
inductive Item
  | header (s : SectName)
  | entry (k : KeyName) (v : Setting)

def quotedText (v : List U8) : List U8 :=
  (quotechar v).toList ++ v ++ (quotechar v).toList

def Item.body : Item → List U8
  | header s => OPEN :: (s.text ++ [CLOSE])
  | entry k v => k.text ++ EQUALS :: quotedText v.text

theorem entryText_eq (k : KeyName) (v : Setting) :
    entryText k.text v.text = (Item.entry k v).body ++ [LF] := by
  rw [entryText, Item.body, quotedText]
  simp only [List.append_assoc, List.cons_append]

theorem isEol_of_not_cntrl {c : U8} (h : iscntrl c = false) : isEol c = false := by
  refine eq_false_of_ne_true fun heol ↦ ?_
  rw [isEol, Bool.or_eq_true, beq_iff_eq, beq_iff_eq] at heol
  rcases heol with rfl | rfl <;> exact absurd h (by decide)

theorem isQuote_iff {c : U8} : isQuote c = true ↔ c = QUOTE ∨ c = DQUOTE := by
  rw [isQuote, Bool.or_eq_true, beq_iff_eq, beq_iff_eq]

theorem quoteLoop_eq (text : List U8) (qn : Bool) :
    quoteLoop qn text = match text.find? isQuote with
      | some c => some (if c = DQUOTE then QUOTE else DQUOTE)
      | none => if qn || text.any isBlank then some DQUOTE else none := by
  induction text generalizing qn with
  | nil => rw [quoteLoop, List.find?_nil, List.any_nil, Bool.or_false]
  | cons c cs ih =>
    rw [quoteLoop]
    cases hc : isQuote c with
    | true => rw [List.find?_cons_of_pos hc, if_pos rfl]
    | false =>
      rw [if_neg Bool.false_ne_true, ih, List.find?_cons_of_neg (by rw [hc]; decide),
        List.any_cons, Bool.or_assoc]

theorem Setting.quotechar_eq (v : Setting) : quotechar v.text = quoteLoop false v.text := by
  cases h : v.text with
  | nil => rfl
  | cons c cs =>
    have hc : isQuote c = false := v.head c (by rw [h]; rfl)
    rw [quotechar, hc, if_neg Bool.false_ne_true]

/-- A value that is quoted has no such quote. -/
theorem Setting.quotechar_some (v : Setting) {q : U8} (h : quotechar v.text = some q) :
    isQuote q = true ∧ q ∉ v.text := by
  rw [v.quotechar_eq, quoteLoop_eq] at h
  cases hfind : v.text.find? isQuote with
  | some c =>
    rw [hfind] at h
    have hmem := List.mem_of_find?_eq_some hfind
    rcases isQuote_iff.mp (List.find?_some hfind) with rfl | rfl
    · rw [← Option.some.inj h]
      exact ⟨by decide, fun hq ↦ v.quotes ⟨hmem, hq⟩⟩
    · rw [← Option.some.inj h]
      exact ⟨by decide, fun hq ↦ v.quotes ⟨hq, hmem⟩⟩
  | none =>
    rw [hfind] at h
    dsimp only at h
    split_ifs at h
    rw [← Option.some.inj h]
    exact ⟨by decide, fun hq ↦ List.find?_eq_none.mp hfind _ hq (by decide)⟩

/-- A value that is not quoted has no blanks. -/
theorem Setting.quotechar_none (v : Setting) (h : quotechar v.text = none) :
    ∀ c ∈ v.text, isBlank c = false := by
  intro c hc
  rw [v.quotechar_eq, quoteLoop_eq] at h
  cases hfind : v.text.find? isQuote with
  | some c =>
    rw [hfind] at h
    exact absurd h (Option.some_ne_none _)
  | none =>
    rw [hfind, Bool.false_or] at h
    dsimp only at h
    split_ifs at h with hany
    exact eq_false_of_ne_true fun hblank ↦ hany (List.any_eq_true.mpr ⟨c, hc, hblank⟩)

theorem not_cntrl_of_isQuote {c : U8} (h : isQuote c = true) : iscntrl c = false := by
  rcases isQuote_iff.mp h with rfl | rfl <;> decide

theorem isTrivial_eq_false {c : U8} : isTrivial c = false ↔
    isBlank c = false ∧ iscntrl c = false := by
  rw [isTrivial, isSpace, Bool.or_eq_false_iff, Bool.or_eq_false_iff]
  exact ⟨fun h ↦ ⟨h.1.2, h.2⟩, fun h ↦ ⟨⟨isEol_of_not_cntrl h.2, h.1⟩, h.2⟩⟩

theorem cntrl_quotedText (v : Setting) : ∀ c ∈ quotedText v.text, iscntrl c = false := by
  have hquote : ∀ c ∈ (quotechar v.text).toList, iscntrl c = false := by
    intro c hc
    exact not_cntrl_of_isQuote (v.quotechar_some (Option.mem_toList.mp hc)).1
  intro c hc
  rw [quotedText, List.mem_append, List.mem_append] at hc
  rcases hc with (hc | hc) | hc
  · exact hquote c hc
  · exact v.cntrl c hc
  · exact hquote c hc

theorem Item.cntrl_body (item : Item) : ∀ c ∈ item.body, iscntrl c = false := by
  intro c hc
  cases item with
  | header s =>
    rw [body, List.mem_cons, List.mem_append, List.mem_singleton] at hc
    rcases hc with rfl | hc | rfl
    · decide
    · exact s.cntrl c hc
    · decide
  | entry k v =>
    rw [body, List.mem_append, List.mem_cons] at hc
    rcases hc with hc | rfl | hc
    · exact k.cntrl c hc
    · decide
    · exact cntrl_quotedText v c hc

/-- A plain line begins with a character that is no blank. -/
theorem Item.head_body (item : Item) : ∃ c cs, item.body = c :: cs ∧ isBlank c = false := by
  cases item with
  | header s => exact ⟨OPEN, _, rfl, by decide⟩
  | entry k v =>
    obtain ⟨c, cs, hk⟩ := List.exists_cons_of_ne_nil k.ne
    refine ⟨c, cs ++ EQUALS :: quotedText v.text, ?_, (k.head c (by rw [hk]; rfl)).1⟩
    rw [body, hk, List.cons_append]

/-- A plain line ends with a character that is not trivial. -/
theorem Item.last_body (item : Item) : ∃ cs c, item.body = cs ++ [c] ∧ isTrivial c = false := by
  cases item with
  | header s => exact ⟨OPEN :: s.text, CLOSE, rfl, by decide⟩
  | entry k v =>
    rw [body, quotedText]
    cases hq : quotechar v.text with
    | some q =>
      refine ⟨k.text ++ EQUALS :: (q :: v.text), q, ?_, ?_⟩
      · simp
      · have hquote := (v.quotechar_some hq).1
        rcases isQuote_iff.mp hquote with rfl | rfl <;> decide
    | none =>
      rcases List.eq_nil_or_concat v.text with hnil | ⟨cs, c, hc⟩
      · refine ⟨k.text, EQUALS, ?_, by decide⟩
        rw [hnil]
        rfl
      · have hmem : c ∈ v.text := by
          rw [hc]
          simp
        refine ⟨k.text ++ EQUALS :: cs, c, ?_, ?_⟩
        · rw [hc]
          simp
        · exact isTrivial_eq_false.mpr ⟨v.quotechar_none hq c hmem, v.cntrl c hmem⟩

/-! ## Comparing -/

theorem folded_take_agree (name text : List U8) :
    folded (name.take (agree name text)) = folded (text.take (agree name text)) := by
  induction name generalizing text with
  | nil => simp [agree]
  | cons c cs ih =>
    cases text with
    | nil => simp [agree]
    | cons d ds =>
      rw [agree]
      split_ifs with hsame
      · rw [List.take_succ_cons, List.take_succ_cons, folded, folded, List.map_cons, List.map_cons,
          hsame]
        exact congrArg _ (ih ds)
      · rfl

theorem agree_of_folded {name text : List U8} (h : folded name = folded text) :
    agree name text = text.length := by
  induction name generalizing text with
  | nil =>
    cases text with
    | nil => rfl
    | cons d ds => exact absurd h (List.cons_ne_nil _ _).symm
  | cons c cs ih =>
    cases text with
    | nil => exact absurd h (List.cons_ne_nil _ _)
    | cons d ds =>
      obtain ⟨hhead, htail⟩ := List.cons_eq_cons.mp h
      rw [agree, if_pos hhead, ih htail, List.length_cons]

theorem length_of_folded {name text : List U8} (h : folded name = folded text) :
    name.length = text.length := by
  have hlen := congrArg List.length h
  rwa [folded, folded, List.length_map, List.length_map] at hlen

/-- Nothing but blanks is left of a text without blanks at its end only if nothing is. -/
theorem drop_blanks_eq_nil {text : List U8} (hlast : ∀ c ∈ text.getLast?, isBlank c = false)
    (n : ℕ) : (text.drop n).dropWhile isBlank = [] ↔ text.length ≤ n := by
  rw [List.dropWhile_eq_nil_iff, ← List.drop_eq_nil_iff]
  refine ⟨fun hall ↦ ?_, fun hnil ↦ by rw [hnil]; exact List.forall_mem_nil _⟩
  by_contra hne
  have hend : (text.drop n).getLast hne ∈ text.getLast? := by
    rw [List.getLast_drop]
    exact List.getLast?_eq_some_getLast _
  have hblank := hall _ (List.getLast_mem hne)
  rw [hlast _ hend] at hblank
  exact Bool.noConfusion hblank

theorem dropWhile_of_head {α : Type*} {p : α → Bool} {text : List α}
    (h : ∀ c ∈ text.head?, p c = false) : text.dropWhile p = text := by
  cases text with
  | nil => rfl
  | cons c cs => exact List.dropWhile_cons_of_neg (by rw [h c rfl]; exact Bool.false_ne_true)

theorem takeWhile_of_head {α : Type*} {p : α → Bool} {text : List α}
    (h : ∀ c ∈ text.head?, p c = false) : text.takeWhile p = [] := by
  cases text with
  | nil => rfl
  | cons c cs => exact List.takeWhile_cons_of_neg (by rw [h c rfl]; exact Bool.false_ne_true)

/-! ## What a plain line says -/

theorem isHeader_header (s : SectName) : isHeader (Item.header s).body = true := rfl

theorem isHeader_entry (k : KeyName) (v : Setting) : isHeader (Item.entry k v).body = false := by
  obtain ⟨c, cs, hk⟩ := List.exists_cons_of_ne_nil k.ne
  rw [Item.body, hk, List.cons_append, isHeader_cons]
  exact beq_eq_false_iff_ne.mpr (k.head c (by rw [hk]; rfl)).2

/-- **A plain header** is one of the sections of its name. -/
theorem isHeaderOf_header (s n : SectName) :
    isHeaderOf s.text (Item.header n).body = decide (folded s.text = folded n.text) := by
  have hi : ((n.text ++ [CLOSE]).takeWhile isBlank).length = 0 := by
    rw [takeWhile_of_head, List.length_nil]
    intro c hc
    cases hn : n.text with
    | nil =>
      rw [hn] at hc
      rw [← Option.some.inj hc]
      decide
    | cons d ds =>
      rw [hn] at hc
      rw [← Option.some.inj hc]
      exact n.head d (by rw [hn]; rfl)
  have hlast : ∀ j, (n.text ++ [CLOSE])[j]? = some CLOSE ↔ j = n.text.length := by
    intro j
    refine ⟨fun hj ↦ ?_, fun hj ↦ by rw [hj, List.getElem?_concat_length]⟩
    rcases Nat.lt_trichotomy j n.text.length with hlt | heq | hgt
    · rw [List.getElem?_append_left hlt] at hj
      exact absurd (List.mem_of_getElem? hj) n.close
    · exact heq
    · rw [List.getElem?_eq_none (by rw [List.length_append]; exact hgt)] at hj
      exact absurd hj.symm (Option.some_ne_none CLOSE)
  rw [isHeaderOf, Item.body, List.tail_cons, hi, List.dropLast_concat, List.drop_zero,
    dropWhile_of_head s.head, Nat.zero_add, Bool.eq_iff_iff, Bool.and_eq_true, decide_eq_true_eq,
    decide_eq_true_eq, beq_iff_eq, drop_blanks_eq_nil s.last, hlast]
  constructor
  · rintro ⟨hle, hclose⟩
    -- nothing but blanks is between the name and the `]`
    have hall : ((n.text.drop (agree s.text n.text)).takeWhile isBlank).length
        = (n.text.drop (agree s.text n.text)).length := by
      rw [List.length_drop, ← hclose, Nat.add_sub_cancel_left]
    have hblank : (n.text.drop (agree s.text n.text)).dropWhile isBlank = [] := by
      rw [dropWhile_eq_drop, hall, List.drop_length]
    have hle' := (drop_blanks_eq_nil n.last _).mp hblank
    have hsame := folded_take_agree s.text n.text
    rwa [List.take_of_length_le hle, List.take_of_length_le hle'] at hsame
  · intro hsame
    rw [agree_of_folded hsame, length_of_folded hsame, List.drop_length, List.takeWhile_nil]
    exact ⟨le_rfl, rfl⟩

theorem rdropWhile_of_last {p : U8 → Bool} {text : List U8}
    (h : ∀ c ∈ text.getLast?, p c = false) : text.rdropWhile p = text := by
  rw [List.rdropWhile_eq_self_iff]
  intro hne hlast
  have hlast' := h _ (List.getLast_mem_getLast? hne)
  rw [hlast] at hlast'
  exact Bool.noConfusion hlast'

/-- A text in front of a character that is not in it. -/
theorem takeWhile_ne {c : U8} {text : List U8} (h : c ∉ text) (rest : List U8) :
    (text ++ c :: rest).takeWhile (· != c) = text := by
  rw [List.takeWhile_append_of_pos, List.takeWhile_cons_of_neg, List.append_nil]
  · rw [bne_self_eq_false]
    exact Bool.false_ne_true
  · intro d hd
    exact bne_iff_ne.mpr fun heq ↦ h (heq ▸ hd)

theorem keyText_entry (k : KeyName) (v : Setting) : keyText (Item.entry k v).body = k.text := by
  rw [keyText, Item.body, takeWhile_ne k.equals, rdropWhile_of_last k.last]

/-- **A plain record** is one of the keys that its key is taken for. -/
theorem isRecordOf_entry (k n : KeyName) (v : Setting) :
    isRecordOf k.text (Item.entry n v).body = decide (folded k.text = folded n.text) := by
  have hmem : EQUALS ∈ (Item.entry n v).body := List.mem_append_right _ List.mem_cons_self
  rw [isRecordOf, keyText_entry, Bool.eq_iff_iff, decide_eq_true_eq, decide_eq_true_eq,
    dropWhile_of_head fun c hc ↦ (k.head c hc).1, drop_blanks_eq_nil k.last]
  constructor
  · rintro ⟨-, -, hn, hk⟩
    have hsame := folded_take_agree k.text n.text
    rwa [List.take_of_length_le hk, List.take_of_length_le hn.ge] at hsame
  · intro hsame
    rw [agree_of_folded hsame, length_of_folded hsame]
    exact ⟨hmem, n.ne, rfl, le_rfl⟩

theorem unquoted_quotedText (v : Setting) : unquoted (quotedText v.text) = v.text := by
  rw [unquoted, quotedText]
  cases hq : quotechar v.text with
  | some q =>
    obtain ⟨hquote, hnot⟩ := v.quotechar_some hq
    have hblank : isBlank q = false := by
      rcases isQuote_iff.mp hquote with rfl | rfl <;> decide
    rw [Option.toList_some, List.append_assoc, List.singleton_append,
      List.dropWhile_cons_of_neg (by rw [hblank]; exact Bool.false_ne_true)]
    dsimp only
    rw [if_pos hquote, takeWhile_ne hnot]
  | none =>
    have hblank := v.quotechar_none hq
    have hquote := v.head
    rw [Option.toList_none, List.nil_append, List.append_nil, dropWhile_of_head fun c hc ↦
      hblank c (List.mem_of_mem_head? hc)]
    cases htext : v.text with
    | nil => rfl
    | cons c cs =>
      rw [htext] at hblank hquote
      dsimp only
      rw [if_neg (by rw [hquote c rfl]; exact Bool.false_ne_true), rdropWhile_of_last fun d hd ↦
        hblank d (List.mem_of_mem_getLast? hd)]

/-- **The value** of a plain record is read back. -/
theorem valueOf_entry (k : KeyName) (v : Setting) : valueOf (Item.entry k v).body = v.text := by
  have hdrop := dropWhile_eq_drop (· != EQUALS) (Item.entry k v).body
  rw [valueOf, hdrop, Item.body, takeWhile_ne k.equals, List.tail_drop, ← List.drop_drop,
    List.drop_left, List.drop_one, List.tail_cons, unquoted_quotedText]

end Hyunjin.Ini
