import Hyunjin.Ini.Lines

/-!
# Reading an ini file

What a read returns depends on the bodies of the lines only: it is the value of the first record of
the key in the first section of the name, as far as the buffer takes it. A scan is followed line by
line, and each line is visited once.
-/

namespace Hyunjin.Ini

open Memory

/-! ## What is read -/

/-- The records of a section: what is in front of the first header, or what is behind the first
header of the section, up to the next header. -/
def sectionOf (sect : Option (List U8)) (bodies : List (List U8)) : List (List U8) :=
  match sect with
  | none => bodies.takeWhile (!isHeader ·)
  | some s =>
    (bodies.dropWhile fun b ↦ !(isHeader b && isHeaderOf s b)).tail.takeWhile (!isHeader ·)

/-- **What is read** of a key. -/
def lookup (sect : Option (List U8)) (key : List U8) (bodies : List (List U8)) :
    Option (List U8) :=
  ((sectionOf sect bodies).find? (isRecordOf key)).map valueOf

/-- The bodies of the lines of a text. -/
def bodiesOf (text : List U8) : List (List U8) := (linesOf text).map Line.body

/-! ## One line -/

section Visit

variable {sect key : Option CString} {act : Action} {b : Block} {l : Line} {rest : List U8}

/-- What is behind the body of a line is a line end, also behind the last line. -/
theorem Line.EndsAt.next {data : List U8} {pos : ℕ} (hok : l.Ok) (hends : l.EndsAt rest)
    (h : HoldsAt data pos (l.eol ++ (rest ++ [LF]))) :
    ∃ x, data[pos]? = some x ∧ x ≠ CLOSE := by
  cases heol : l.eol with
  | nil =>
    rw [heol, hends.eol heol] at h
    exact ⟨LF, h.head, by decide⟩
  | cons c cs =>
    rw [heol, List.cons_append] at h
    refine ⟨c, h.head, ?_⟩
    rintro rfl
    have hc := hok.eol CLOSE (by rw [heol]; exact List.mem_cons_self)
    exact absurd hc (by decide)

/-- The block holds a line from its offset on, and what follows it. -/
def Block.AtLine (b : Block) (l : Line) (rest : List U8) : Prop :=
  HoldsAt b.data b.offset (l.text ++ rest) ∧ b.filelen = b.offset + (l.text ++ rest).length

theorem Block.AtLine.body (h : b.AtLine l rest) :
    HoldsAt b.data (b.offset + l.lead.length) l.body := by
  have hat := h.1
  rw [Line.text, List.append_assoc, List.append_assoc] at hat
  exact hat.right.left

theorem Block.AtLine.head (h : b.AtLine l rest) (hok : l.Ok) :
    b.data[b.offset + l.lead.length]? = l.body.head? := by
  obtain ⟨c, cs, hbody, -⟩ := hok.head
  have hat := h.body
  rw [hbody] at hat ⊢
  exact hat.head

/-- **One round** of the scan: a line is scanned and visited. -/
theorem scanLoop_line (h : b.AtLine l rest) (hok : l.Ok) (hends : l.EndsAt rest) (fuel : ℕ) :
    scanLoop sect key act (fuel + 1) b
      = (visitLine sect key act { b with offset := b.offset + l.text.length }
          (l.scan b.offset)).bind fun p ↦
            if p.2 then scanLoop sect key act fuel p.1 else some p.1 := by
  obtain ⟨c, cs, hbody, -⟩ := hok.head
  have hlen : b.filelen - b.offset = (l.text ++ rest).length := by rw [h.2, Nat.add_sub_cancel_left]
  have hlt : b.offset < b.filelen := by
    rw [h.2, Line.text, hbody]
    simp only [List.length_append, List.length_cons]
    omega
  have hlinelen : (l.scan b.offset).linelen ≠ 0 := by
    rw [Line.scan, hbody]
    exact Nat.succ_ne_zero _
  rw [scanLoop, if_pos hlt, hlen, scanLine_spec hok hends h.1, Option.bind_eq_bind,
    Option.bind_some, if_neg hlinelen]
  rfl

/-- The last round: spaces at the end. -/
theorem scanLoop_tail {tail : List U8} (h : HoldsAt b.data b.offset tail)
    (htail : ∀ c ∈ tail, isSpace c = true) (hlen : b.filelen = b.offset + tail.length)
    {fuel : ℕ} (hfuel : b.filelen < b.offset + fuel) :
    scanLoop sect key act fuel b = some { b with offset := b.filelen } := by
  obtain ⟨fuel, rfl⟩ := Nat.exists_eq_add_of_le' (show 1 ≤ fuel by omega)
  rw [scanLoop]
  split_ifs with hlt
  · obtain ⟨fuel, rfl⟩ := Nat.exists_eq_add_of_le' (show 1 ≤ fuel by omega)
    have hlen' : b.filelen - b.offset = tail.length := by rw [hlen, Nat.add_sub_cancel_left]
    rw [hlen', scanLine_tail h htail, Option.bind_eq_bind, Option.bind_some]
    dsimp only
    rw [if_pos rfl, scanLoop, if_neg (by dsimp only; omega), hlen]
  · exact congrArg (fun n ↦ some { b with offset := n }) (show b.offset = b.filelen by omega)

/-- A header behind the section ends the scan. -/
theorem visitLine_end (h : b.AtLine l rest) (hok : l.Ok) (hhead : isHeader l.body = true)
    (hfound : b.foundsect = true) :
    visitLine sect key act { b with offset := b.offset + l.text.length } (l.scan b.offset)
      = some ({ b with
          offset := b.offset + l.text.length
          anysect := true
          sectoffend := b.offset + l.lead.length }, false) := by
  have hget : b.data[(l.scan b.offset).keyoff]? = some OPEN :=
    (h.head hok).trans (beq_iff_eq.mp hhead)
  rw [visitLine, hget, Option.bind_eq_bind, Option.bind_some, if_pos rfl, if_pos hfound]
  rfl

/-- A header in front of the section is compared with its name. -/
theorem visitLine_header (h : b.AtLine l rest) (hok : l.Ok) (hends : l.EndsAt rest)
    (hat : HoldsAt b.data b.offset (l.text ++ rest ++ [LF])) (hhead : isHeader l.body = true)
    (hfound : b.foundsect = false) {s : CString} :
    visitLine (some s) key act { b with offset := b.offset + l.text.length } (l.scan b.offset)
      = some ({ b with
          offset := b.offset + l.text.length
          anysect := true
          sectoff := if isHeaderOf s.1 l.body then b.offset + l.lead.length - l.lead.countP isBlank
            else b.sectoff
          foundsect := isHeaderOf s.1 l.body }, true) := by
  have hget : b.data[(l.scan b.offset).keyoff]? = some OPEN :=
    (h.head hok).trans (beq_iff_eq.mp hhead)
  rw [Line.text, List.append_assoc, List.append_assoc, List.append_assoc] at hat
  obtain ⟨x, hx, hclose⟩ := hends.next hok hat.right.right
  have hheader := headerFound_spec h.body hhead hx hclose s.1
  rw [visitLine, hget, Option.bind_eq_bind, Option.bind_some, if_pos rfl,
    if_neg (by rw [hfound]; exact Bool.false_ne_true)]
  simp only [Line.scan, Option.map_some, Option.getD_some, hheader, Option.bind_eq_bind,
    Option.bind_some]
  split_ifs with heq
  · rw [heq]
  · rw [Bool.eq_false_of_not_eq_true heq, ← hfound]

/-- Other lines in front of the section are passed by. -/
theorem visitLine_skip (h : b.AtLine l rest) (hok : l.Ok) (hhead : isHeader l.body = false)
    (hfound : b.foundsect = false) {s : CString} :
    visitLine (some s) key act { b with offset := b.offset + l.text.length } (l.scan b.offset)
      = some ({ b with offset := b.offset + l.text.length }, true) := by
  obtain ⟨c, cs, hbody, -⟩ := hok.head
  have hget : b.data[(l.scan b.offset).keyoff]? = some c :=
    (h.head hok).trans (by rw [hbody]; rfl)
  have hne : c ≠ OPEN := by
    rw [hbody, isHeader_cons] at hhead
    exact ne_of_beq_false hhead
  rw [visitLine, hget, Option.bind_eq_bind, Option.bind_some, if_neg hne, if_neg (by simp [hfound])]

/-- A record of the section: of the wanted key or of another. -/
theorem visitLine_record (h : b.AtLine l rest) (hok : l.Ok) (hhead : isHeader l.body = false)
    (hfound : b.foundsect = true) :
    visitLine sect key act { b with offset := b.offset + l.text.length } (l.scan b.offset)
      = if wanted key l.body then
          act { b with offset := b.offset + l.text.length, foundrecs := b.foundrecs + 1 }
            (l.scan b.offset) (keyText l.body).length
            ((l.body.takeWhile (· != EQUALS)).length + 1)
        else some ({ b with
          offset := b.offset + l.text.length
          foundrecs := b.foundrecs + 1 }, true) := by
  obtain ⟨c, cs, hbody, -⟩ := hok.head
  have hget : b.data[(l.scan b.offset).keyoff]? = some c :=
    (h.head hok).trans (by rw [hbody]; rfl)
  have hne : c ≠ OPEN := by
    rw [hbody, isHeader_cons] at hhead
    exact ne_of_beq_false hhead
  obtain ⟨keylen, valuepos, hkey, heq⟩ := findKey_spec h.body key
  rw [visitLine, hget, Option.bind_eq_bind, Option.bind_some, if_neg hne,
    if_pos (.inl hfound)]
  simp only [Line.scan, hkey, Option.bind_eq_bind, Option.bind_some]
  split_ifs with hrec
  · obtain ⟨rfl, rfl⟩ := heq (mem_of_wanted hrec)
    rfl
  · rfl

end Visit

/-! ## In front of the section -/

section Seek

variable {key : Option CString} {act : Action} {pre ls : List Line} {tail : List U8}

/-- The line is a header of the section. -/
def isHeaderLine (s : List U8) (l : Line) : Bool := isHeader l.body && isHeaderOf s l.body

theorem Parsed.of_append (h : Parsed (pre ++ ls) tail) : Parsed ls tail := by
  induction pre with
  | nil => exact h
  | cons l pre ih =>
    cases h with
    | line _ _ h => exact ih h

/-- The lines in front of the section are passed by. -/
theorem scanLoop_pass (key : Option CString) (act : Action) (hparsed : Parsed (pre ++ ls) tail)
    {s : CString} {b : Block}
    (hat : HoldsAt b.data b.offset (linesText (pre ++ ls) ++ tail ++ [LF]))
    (hlen : b.filelen = b.offset + (linesText (pre ++ ls) ++ tail).length)
    (hfound : b.foundsect = false) (hpre : ∀ l ∈ pre, isHeaderLine s.1 l = false)
    {fuel : ℕ} (hfuel : b.filelen < b.offset + fuel) :
    ∃ anysect fuel', scanLoop (some s) key act fuel b
        = scanLoop (some s) key act fuel'
          { b with offset := b.offset + (linesText pre).length, anysect := anysect }
      ∧ b.filelen < b.offset + (linesText pre).length + fuel' := by
  induction pre generalizing b fuel with
  | nil => exact ⟨_, fuel, rfl, hfuel⟩
  | cons l pre ih =>
    cases hparsed with
    | line hok hends hparsed =>
      rw [List.cons_append, linesText_cons, List.append_assoc l.text _ tail] at hat hlen
      have hpos := hok.length_text_pos
      rw [List.length_append, ← Nat.add_assoc] at hlen
      obtain ⟨fuel, rfl⟩ := Nat.exists_eq_add_of_le' (show 1 ≤ fuel by omega)
      have hline : b.AtLine l (linesText (pre ++ ls) ++ tail) :=
        ⟨hat.left, by rw [hlen, Nat.add_assoc, ← List.length_append]⟩
      have hat' : HoldsAt b.data (b.offset + l.text.length)
          (linesText (pre ++ ls) ++ tail ++ [LF]) := by
        rw [List.append_assoc l.text] at hat
        exact hat.right
      have hheader := hpre l List.mem_cons_self
      have hpre' := fun l' hl' ↦ hpre l' (List.mem_cons_of_mem l hl')
      rw [scanLoop_line hline hok hends, linesText_cons, List.length_append, ← Nat.add_assoc]
      cases hhead : isHeader l.body with
      | true =>
        rw [isHeaderLine, hhead, Bool.true_and] at hheader
        rw [visitLine_header hline hok hends hat hhead hfound, Option.bind_some, hheader,
          if_neg Bool.false_ne_true, ← hfound]
        exact ih (b := { b with offset := b.offset + l.text.length, anysect := true }) hparsed hat'
          hlen hfound hpre' (show b.filelen < b.offset + l.text.length + fuel by omega)
      | false =>
        rw [visitLine_skip hline hok hhead hfound, Option.bind_some]
        exact ih (b := { b with offset := b.offset + l.text.length }) hparsed hat' hlen hfound hpre'
          (show b.filelen < b.offset + l.text.length + fuel by omega)

/-- **The section begins** behind its header. -/
theorem scanLoop_header (key : Option CString) (act : Action) {l : Line}
    (hparsed : Parsed (l :: ls) tail) {s : CString} {b : Block}
    (hat : HoldsAt b.data b.offset (linesText (l :: ls) ++ tail ++ [LF]))
    (hlen : b.filelen = b.offset + (linesText (l :: ls) ++ tail).length)
    (hfound : b.foundsect = false) (hheader : isHeaderLine s.1 l = true)
    {fuel : ℕ} (hfuel : b.filelen < b.offset + fuel) :
    ∃ fuel', scanLoop (some s) key act fuel b
        = scanLoop (some s) key act fuel' { b with
            offset := b.offset + l.text.length
            anysect := true
            sectoff := b.offset + l.lead.length - l.lead.countP isBlank
            foundsect := true }
      ∧ b.filelen < b.offset + l.text.length + fuel' := by
  cases hparsed with
  | line hok hends hparsed =>
    obtain ⟨hhead, hsect⟩ := Bool.and_eq_true_iff.mp hheader
    rw [linesText_cons, List.append_assoc l.text _ tail] at hat hlen
    have hpos := hok.length_text_pos
    have hlen' := hlen
    rw [List.length_append] at hlen'
    obtain ⟨fuel, rfl⟩ := Nat.exists_eq_add_of_le' (show 1 ≤ fuel by omega)
    refine ⟨fuel, ?_, by omega⟩
    rw [scanLoop_line ⟨hat.left, hlen⟩ hok hends,
      visitLine_header ⟨hat.left, hlen⟩ hok hends hat hhead hfound, hsect, Option.bind_some,
      if_pos rfl, if_pos rfl]

/-- The first header of the section, what is in front of it and what is behind it. -/
structure Divided (s : List U8) (ls pre : List Line) (h : Line) (sec : List Line) : Prop where
  lines : ls = pre ++ h :: sec
  pre : ∀ l ∈ pre, isHeaderLine s l = false
  header : isHeaderLine s h = true

theorem divided_or (s : List U8) (ls : List Line) :
    (∀ l ∈ ls, isHeaderLine s l = false) ∨ ∃ pre h sec, Divided s ls pre h sec := by
  induction ls with
  | nil => exact .inl (List.forall_mem_nil _)
  | cons l ls ih =>
    cases hl : isHeaderLine s l with
    | true => exact .inr ⟨[], l, ls, rfl, List.forall_mem_nil _, hl⟩
    | false =>
      rcases ih with hnone | ⟨pre, h, sec, hdiv⟩
      · exact .inl (List.forall_mem_cons.mpr ⟨hl, hnone⟩)
      · refine .inr ⟨l :: pre, h, sec, ?_, List.forall_mem_cons.mpr ⟨hl, hdiv.pre⟩, hdiv.header⟩
        rw [hdiv.lines]
        rfl

/-- There is no such section: the scan comes to the end of the file. -/
theorem scanLoop_none (key : Option CString) (act : Action) (hparsed : Parsed ls tail)
    {s : CString} {b : Block}
    (hat : HoldsAt b.data b.offset (linesText ls ++ tail ++ [LF]))
    (hlen : b.filelen = b.offset + (linesText ls ++ tail).length)
    (hfound : b.foundsect = false) (hnone : ∀ l ∈ ls, isHeaderLine s.1 l = false)
    {fuel : ℕ} (hfuel : b.filelen < b.offset + fuel) :
    ∃ anysect, scanLoop (some s) key act fuel b
      = some { b with offset := b.filelen, anysect := anysect } := by
  rw [← List.append_nil ls] at hparsed hat hlen
  obtain ⟨anysect, fuel', hpass, hfuel'⟩ := scanLoop_pass key act hparsed hat hlen hfound hnone
    hfuel
  rw [List.append_nil, List.append_assoc] at hat
  rw [List.append_nil, List.length_append, ← Nat.add_assoc] at hlen
  cases hparsed.of_append with
  | done htail => exact ⟨anysect, hpass.trans (scanLoop_tail hat.right.left htail hlen hfuel')⟩

/-- There is such a section: the scan comes to what is behind its header. -/
theorem scanLoop_some (key : Option CString) (act : Action) {s : CString} {h : Line}
    {sec : List Line} (hdiv : Divided s.1 ls pre h sec)
    (hparsed : Parsed ls tail) {b : Block}
    (hat : HoldsAt b.data b.offset (linesText ls ++ tail ++ [LF]))
    (hlen : b.filelen = b.offset + (linesText ls ++ tail).length)
    (hfound : b.foundsect = false) {fuel : ℕ} (hfuel : b.filelen < b.offset + fuel) :
    ∃ fuel', scanLoop (some s) key act fuel b
        = scanLoop (some s) key act fuel' { b with
            offset := b.offset + (linesText (pre ++ [h])).length
            anysect := true
            sectoff := b.offset + (linesText pre).length + h.lead.length - h.lead.countP isBlank
            foundsect := true }
      ∧ b.filelen < b.offset + (linesText (pre ++ [h])).length + fuel' := by
  rw [hdiv.lines] at hparsed hat hlen
  obtain ⟨anysect, fuel₁, hpass, hfuel₁⟩ :=
    scanLoop_pass key act hparsed hat hlen hfound hdiv.pre hfuel
  rw [linesText_append, List.append_assoc, List.append_assoc] at hat
  rw [linesText_append, List.append_assoc, List.length_append, ← Nat.add_assoc] at hlen
  have hat' := hat.right
  rw [← List.append_assoc] at hat'
  obtain ⟨fuel₂, hheader, hfuel₂⟩ := scanLoop_header key act hparsed.of_append
    (b := { b with offset := b.offset + (linesText pre).length, anysect := anysect }) hat' hlen
    hfound hdiv.header hfuel₁
  have hoffset : b.offset + (linesText (pre ++ [h])).length
      = b.offset + (linesText pre).length + h.text.length := by
    rw [linesText_append, List.length_append, linesText_cons, linesText_nil, List.append_nil,
      Nat.add_assoc]
  rw [hoffset]
  exact ⟨fuel₂, hpass.trans hheader, hfuel₂⟩

end Seek

/-! ## The value -/

section Value

variable {data : List U8}

/-- The value of a record, where it is in the block. -/
theorem valueSpan_spec {valueoff : ℕ} {text : List U8} (h : HoldsAt data valueoff text)
    (hblank : ∀ c ∈ text.head?, isBlank c = false) :
    ∃ valueoff' valuelen, valueSpan data valueoff text.length = some (valueoff', valuelen)
      ∧ HoldsAt data valueoff' (unquoted text) ∧ valuelen = (unquoted text).length
      ∧ valueoff' + (unquoted text).length ≤ valueoff + text.length := by
  have hdrop : text.dropWhile isBlank = text := by
    cases text with
    | nil => rfl
    | cons c cs =>
      exact List.dropWhile_cons_of_neg (by rw [hblank c rfl]; exact Bool.false_ne_true)
  rw [unquoted, hdrop]
  cases text with
  | nil => exact ⟨valueoff, 0, rfl, h, rfl, Nat.le_refl _⟩
  | cons c cs =>
    rw [valueSpan, if_neg (List.length_cons ▸ Nat.succ_ne_zero cs.length), h.head,
      Option.bind_eq_bind, Option.bind_some]
    dsimp only
    split_ifs with hquote
    · have hat : HoldsAt data (0 + (valueoff + 1)) cs := by
        rw [Nat.zero_add]
        exact h.tail
      have hle : (cs.takeWhile (· != c)).length ≤ cs.length := (List.takeWhile_prefix _).length_le
      rw [List.length_cons, Nat.add_sub_cancel, findQuote_spec c hat, Nat.zero_add]
      exact ⟨_, _, rfl, h.tail.of_prefix (List.takeWhile_prefix _), rfl, by omega⟩
    · rw [stripBack_spec isBlank h]
      exact ⟨_, _, rfl, h.of_prefix (List.rdropWhile_prefix _ _), rfl,
        Nat.add_le_add_left (List.rdropWhile_prefix _ _).length_le valueoff⟩

theorem dropWhile_eq_drop (p : U8 → Bool) (text : List U8) :
    text.dropWhile p = text.drop (text.takeWhile p).length := by
  induction text with
  | nil => rfl
  | cons c cs ih =>
    by_cases hc : p c
    · rw [List.dropWhile_cons_of_pos hc, List.takeWhile_cons_of_pos hc, List.length_cons,
        List.drop_succ_cons, ih]
    · rw [List.dropWhile_cons_of_neg hc, List.takeWhile_cons_of_neg hc]
      rfl

theorem readBytes_spec {pos : ℕ} {text : List U8} (h : HoldsAt data pos text)
    (hle : pos + text.length ≤ data.length) (n : ℕ) :
    readBytes data pos (min n text.length) = some (text.take n) := by
  obtain ⟨rest, hrest⟩ := h
  have hmin := Nat.min_le_right n text.length
  rw [readBytes, if_pos (by omega), ← hrest, List.take_append_of_le_length hmin]
  rcases Nat.le_total n text.length with hle | hle
  · rw [Nat.min_eq_left hle]
  · rw [Nat.min_eq_right hle, List.take_length, List.take_of_length_le hle]

/-- **The value is copied** as far as the buffer takes it. -/
theorem copyValue_spec (b : Block) (sc : Scan) {body : List U8}
    (h : HoldsAt b.data sc.keyoff body) (hlen : sc.linelen = body.length) (hmem : EQUALS ∈ body)
    (bufflen keylen : ℕ) :
    copyValue bufflen b sc keylen ((body.takeWhile (· != EQUALS)).length + 1)
      = some ({ b with found := some ((valueOf body).take (bufflen - 1)) }, false) := by
  have hbodyle := h.length_le (List.ne_nil_of_mem hmem)
  have hlt : (body.takeWhile (· != EQUALS)).length + 1 ≤ body.length := length_takeWhile_lt hmem
  -- what is behind the `=`, and what is behind the blanks there
  have hraw : (body.dropWhile (· != EQUALS)).tail
      = body.drop ((body.takeWhile (· != EQUALS)).length + 1) := by
    rw [dropWhile_eq_drop, List.tail_drop]
  have hvalue : valueOf body
      = unquoted ((body.dropWhile (· != EQUALS)).tail.dropWhile isBlank) := by
    rw [valueOf, unquoted, unquoted, List.dropWhile_idempotent]
  have hrawAt := h.drop hlt
  have hrawLen : (body.drop ((body.takeWhile (· != EQUALS)).length + 1)).length
      = sc.linelen - ((body.takeWhile (· != EQUALS)).length + 1) := by rw [List.length_drop, hlen]
  rw [hvalue, hraw]
  generalize body.drop ((body.takeWhile (· != EQUALS)).length + 1) = raw at hrawAt hrawLen ⊢
  generalize (body.takeWhile (· != EQUALS)).length + 1 = valuepos at hlt hrawAt hrawLen ⊢
  have hk : (raw.takeWhile isBlank).length ≤ raw.length := (List.takeWhile_prefix _).length_le
  have hdrop := dropWhile_eq_drop isBlank raw
  have hdropLen : (raw.dropWhile isBlank).length
      = sc.linelen - (valuepos + (raw.takeWhile isBlank).length) := by
    rw [hdrop, List.length_drop, hrawLen, Nat.sub_sub]
  have hskip := skipBlanks_spec hrawAt
  obtain ⟨valueoff, valuelen, hspan, hat, rfl, hle⟩ := valueSpan_spec
    (show HoldsAt b.data (sc.keyoff + valuepos + (raw.takeWhile isBlank).length)
      (raw.dropWhile isBlank) by rw [hdrop]; exact hrawAt.drop hk)
    (fun c hc ↦ of_mem_head?_dropWhile hc)
  have hread := readBytes_spec hat (by omega) (bufflen - 1)
  rw [hdropLen, Nat.add_assoc] at hspan
  rw [hrawLen] at hskip
  simp only [copyValue, hskip, hspan, hread, Option.bind_eq_bind, Option.bind_some]

end Value

/-! ## The whole file -/

section Read

variable {sect : Option CString} {key : CString} {bufflen : ℕ} {ls : List Line} {tail : List U8}

/-- Behind the header of the section: the first record of the key is read, up to the next header. -/
theorem scanLoop_find (hparsed : Parsed ls tail) {b : Block}
    (hat : HoldsAt b.data b.offset (linesText ls ++ tail))
    (hlen : b.filelen = b.offset + (linesText ls ++ tail).length) (hfound : b.foundsect = true)
    (hnone : b.found = none) {fuel : ℕ} (hfuel : b.filelen < b.offset + fuel) :
    ∃ b', scanLoop sect (some key) (copyValue bufflen) fuel b = some b'
      ∧ b'.found = (((ls.map Line.body).takeWhile (!isHeader ·)).find? (isRecordOf key.1)).map
        fun body ↦ (valueOf body).take (bufflen - 1) := by
  induction hparsed generalizing b fuel with
  | done htail => exact ⟨_, scanLoop_tail hat htail hlen hfuel, hnone⟩
  | @line l ls tail hok hends _ ih =>
    rw [linesText_cons, List.append_assoc l.text (linesText ls) tail] at hat hlen
    have hpos := hok.length_text_pos
    rw [List.length_append, ← Nat.add_assoc] at hlen
    obtain ⟨fuel, rfl⟩ := Nat.exists_eq_add_of_le' (show 1 ≤ fuel by omega)
    have hline : b.AtLine l (linesText ls ++ tail) :=
      ⟨hat, by rw [hlen, Nat.add_assoc, ← List.length_append]⟩
    rw [scanLoop_line hline hok hends, List.map_cons]
    cases hhead : isHeader l.body with
    | true =>
      rw [visitLine_end hline hok hhead hfound, Option.bind_some,
        List.takeWhile_cons_of_neg (by simp [hhead])]
      exact ⟨_, rfl, hnone⟩
    | false =>
      rw [visitLine_record hline hok hhead hfound, List.takeWhile_cons_of_pos (by simp [hhead])]
      by_cases hrec : isRecordOf key.1 l.body = true
      · simp only [wanted, Option.elim_some, hrec, if_true]
        have hcopy := copyValue_spec
          { b with offset := b.offset + l.text.length, foundrecs := b.foundrecs + 1 }
          (l.scan b.offset) hline.body rfl (of_decide_eq_true hrec).1 bufflen
          (keyText l.body).length
        rw [hcopy, Option.bind_some, List.find?_cons_of_pos hrec]
        exact ⟨_, rfl, rfl⟩
      · simp only [wanted, Option.elim_some, hrec, Bool.false_eq_true, if_false]
        rw [Option.bind_some, List.find?_cons_of_neg hrec]
        refine ih ?_ ?_ ?_ ?_ ?_
        exacts [hat.right, hlen, hfound, hnone, by dsimp only; omega]

/-- The records of a section that is there. -/
theorem Divided.sectionOf {s : List U8} {pre sec : List Line} {h : Line}
    (hdiv : Divided s ls pre h sec) :
    Ini.sectionOf (some s) (ls.map Line.body) = (sec.map Line.body).takeWhile (!isHeader ·) := by
  have hheader := hdiv.header
  rw [isHeaderLine] at hheader
  rw [Ini.sectionOf, hdiv.lines, List.map_append, List.map_cons, List.dropWhile_append_of_pos,
    List.dropWhile_cons_of_neg, List.tail_cons]
  · rw [hheader]
    exact Bool.false_ne_true
  · intro body hbody
    obtain ⟨l, hl, rfl⟩ := List.mem_map.mp hbody
    exact Bool.not_eq_true' _ ▸ hdiv.pre l hl

theorem sectionOf_eq_nil {s : List U8} (hnone : ∀ l ∈ ls, isHeaderLine s l = false) :
    sectionOf (some s) (ls.map Line.body) = [] := by
  rw [sectionOf, List.dropWhile_eq_nil_iff.mpr, List.tail_nil, List.takeWhile_nil]
  intro body hbody
  obtain ⟨l, hl, rfl⟩ := List.mem_map.mp hbody
  exact Bool.not_eq_true' _ ▸ hnone l hl

/-- In front of the section: its first header is looked for. -/
theorem scanLoop_lookup (hparsed : Parsed ls tail) {s : CString} {b : Block}
    (hat : HoldsAt b.data b.offset (linesText ls ++ tail ++ [LF]))
    (hlen : b.filelen = b.offset + (linesText ls ++ tail).length) (hfound : b.foundsect = false)
    (hnone : b.found = none) {fuel : ℕ} (hfuel : b.filelen < b.offset + fuel) :
    ∃ b', scanLoop (some s) (some key) (copyValue bufflen) fuel b = some b'
      ∧ b'.found = (lookup (some s.1) key.1 (ls.map Line.body)).map (·.take (bufflen - 1)) := by
  rcases divided_or s.1 ls with hnot | ⟨pre, h, sec, hdiv⟩
  · obtain ⟨anysect, hscan⟩ := scanLoop_none (some key) (copyValue bufflen) hparsed hat hlen hfound
      hnot hfuel
    rw [hscan, lookup, sectionOf_eq_nil hnot]
    exact ⟨_, rfl, hnone⟩
  · obtain ⟨fuel', hscan, hfuel'⟩ := scanLoop_some (some key) (copyValue bufflen) hdiv hparsed hat
      hlen hfound hfuel
    have hsplit : linesText ls ++ tail
        = linesText (pre ++ [h]) ++ (linesText sec ++ tail) := by
      rw [hdiv.lines, linesText_append, linesText_append, linesText_cons, linesText_cons,
        linesText_nil]
      simp only [List.append_assoc, List.append_nil]
    rw [hdiv.lines, List.append_cons] at hparsed
    rw [hsplit] at hat hlen
    rw [List.length_append, ← Nat.add_assoc] at hlen
    rw [hscan, lookup, hdiv.sectionOf, Option.map_map]
    refine scanLoop_find hparsed.of_append ?_ ?_ ?_ ?_ ?_
    exacts [hat.left.right, hlen, rfl, hnone, hfuel']

/-- **A read looks up** the key in the lines of the file, or returns the default. -/
theorem readString_eq (malloc : ℕ → Bool) (content : List U8) (sect : Option CString)
    (key : CString) (defval : Option CString) (bufflen : ℕ) :
    readString malloc (some content) sect key defval bufflen
      = some (if 2 ≤ bufflen ∧ allocates malloc (content.length + 16) then
          ((lookup (sect.map Subtype.val) key.1 (bodiesOf content)).map (·.take (bufflen - 1))).getD
            (copyDefault defval bufflen)
        else copyDefault defval bufflen) := by
  obtain ⟨tail, htext, hparsed⟩ := linesOf_parsed content
  have hat : HoldsAt (content ++ List.replicate 16 LF) 0
      (linesText (linesOf content) ++ tail ++ [LF]) := by
    rw [← htext]
    exact ⟨List.replicate 15 LF, by simp [List.replicate_succ]⟩
  have hlen : content.length = 0 + (linesText (linesOf content) ++ tail).length := by
    rw [← htext, Nat.zero_add]
  have hscan : ∃ b', scanFile sect (some key) (copyValue bufflen)
        (content ++ List.replicate 16 LF) content.length = some b'
      ∧ b'.found
        = (lookup (sect.map Subtype.val) key.1 (bodiesOf content)).map (·.take (bufflen - 1)) := by
    rw [scanFile]
    cases sect with
    | some s =>
      rw [decide_eq_false fun h ↦ nomatch h.1]
      exact scanLoop_lookup hparsed hat hlen rfl rfl (by dsimp only; omega)
    | none =>
      simp only [lookup, sectionOf, Option.map_none, Option.map_map]
      by_cases hne : content.length ≠ 0
      · rw [decide_eq_true ⟨trivial, hne⟩]
        exact scanLoop_find hparsed hat.left hlen rfl rfl (by dsimp only; omega)
      · rw [ne_eq, not_not] at hne
        rw [hne, List.eq_nil_of_length_eq_zero hne]
        exact ⟨_, rfl, rfl⟩
  obtain ⟨b', hscan, hfound⟩ := hscan
  rw [readString]
  split_ifs with hread
  · rw [hscan, ← hfound]
    rfl
  · rfl

end Read

end Hyunjin.Ini
