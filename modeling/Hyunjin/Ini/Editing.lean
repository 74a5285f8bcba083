import Hyunjin.Ini.Reading

/-!
# Editing an ini file

A write takes out the lines of the key in the section, and puts a new line in their place. What is
in front of the line is done with, what is behind it is not yet touched, and what is behind the file
is the room that is left. A line fits if it is no longer than the old one and this room. If a header
comes next, a blank line is put in between. It is not counted: the last character of the file is
lost.
-/

namespace Hyunjin.Ini

open Memory

/-! ## One line -/

/-- What a replaced line takes with it: itself, its line ends, and as many characters in front of it
as there are blanks. -/
def Line.old (l : Line) : ℕ := l.lead.countP isBlank + l.body.length + l.eol.length

/-- What is left of the spaces in front of it. -/
def Line.kept (l : Line) : List U8 := l.lead.take (l.lead.length - l.lead.countP isBlank)

/-- The line that takes its place. -/
def Line.renewed (l : Line) (key value : List U8) : List U8 :=
  entryText (key.take (keyText l.body).length) value

/-- A header comes next. -/
def opens (rest : List U8) : Bool := rest.head? == some OPEN

/-- What is behind a new line. -/
def behindNew (rest : List U8) : List U8 := if opens rest then LF :: rest.dropLast else rest

theorem Line.length_text (l : Line) : l.text.length = l.kept.length + l.old := by
  have hle : l.lead.countP isBlank ≤ l.lead.length := List.countP_le_length
  rw [text, kept, old, List.length_take]
  simp only [List.length_append]
  omega

theorem Line.text_eq (l : Line) : ∃ gap, l.text = l.kept ++ gap ∧ gap.length = l.old := by
  refine ⟨l.text.drop l.kept.length, ?_, ?_⟩
  · have hprefix : l.kept <+: l.text := by
      rw [text, List.append_assoc]
      exact (List.take_prefix _ _).trans (List.prefix_append _ _)
    conv_lhs => rw [← List.take_append_drop l.kept.length l.text]
    rw [← List.prefix_iff_eq_take.mp hprefix]
  · rw [List.length_drop, l.length_text, Nat.add_sub_cancel_left]

theorem length_behindNew (rest : List U8) : (behindNew rest).length = rest.length := by
  rw [behindNew]
  split_ifs with hopen
  · cases rest with
    | nil => exact absurd hopen (by decide)
    | cons c cs => rw [List.length_cons, List.length_dropLast, List.length_cons, Nat.add_sub_cancel]
  · rfl

/-- The blank line that is put in is passed by. -/
theorem head_behindNew {rest : List U8} (h : opens rest = true) :
    ∀ c ∈ ((behindNew rest).dropWhile isSpace).head?, c = OPEN := by
  rw [behindNew, if_pos h]
  cases rest with
  | nil => exact absurd h (by decide)
  | cons d ds =>
    obtain rfl : d = OPEN := Option.some.inj (beq_iff_eq.mp h)
    cases ds with
    | nil => exact fun c hc ↦ nomatch hc
    | cons e es => exact fun c hc ↦ (Option.some.inj hc).symm

/-- The block holds what is done, what is not yet touched, and the room behind the file. -/
structure Block.At (b : Block) (front rest slack : List U8) : Prop where
  data : b.data = front ++ rest ++ slack
  offset : b.offset = front.length
  filelen : b.filelen = front.length + rest.length

section Replace

variable {b : Block} {front rest slack key value : List U8} {l : Line}

theorem Block.At.atLine (h : b.At front (l.text ++ rest) slack) : b.AtLine l rest :=
  ⟨by rw [h.data, h.offset]; exact holdsAt_append front _ slack, by rw [h.filelen, h.offset]⟩

theorem Block.At.length (h : b.At front rest slack) :
    b.data.length = front.length + rest.length + slack.length := by
  rw [h.data, List.length_append, List.length_append]

theorem opens_iff (rest : List U8) : opens rest = true ↔ rest.head? = some OPEN := beq_iff_eq

/-- What follows is moved up, with a newline in front of a header. -/
theorem makeRoom_of_le (hne : rest ≠ []) {n : ℕ} (hle : n + (opens rest).toNat ≤ slack.length) :
    ∃ gap slack', makeRoom (front ++ rest ++ slack) (front.length + rest.length) front.length n
        = some (front ++ gap ++ behindNew rest ++ slack') ∧ gap.length = n
      ∧ gap.length + slack'.length = slack.length := by
  obtain ⟨c, cs, rfl⟩ := List.exists_cons_of_ne_nil hne
  have hlt : front.length < front.length + (c :: cs).length := by
    rw [List.length_cons]
    omega
  have hget : (front ++ c :: cs ++ slack)[front.length]? = some c :=
    (holdsAt_append front (c :: cs) slack).head
  rw [makeRoom, if_pos hlt, hget, Option.bind_eq_bind, Option.bind_some, Nat.add_sub_cancel_left]
  by_cases hopen : c = OPEN
  · have hopens : opens (c :: cs) = true := (opens_iff _).mpr (congrArg some hopen)
    rw [hopens, Bool.toNat_true] at hle
    obtain ⟨gap, hmove, hgap⟩ := memmove_up front (c :: cs) slack hle
    obtain ⟨gap, x, rfl⟩ := (List.eq_nil_or_concat' gap).resolve_left
      (List.ne_nil_of_length_eq_add_one hgap)
    rw [List.length_append, List.length_singleton, Nat.add_right_cancel_iff] at hgap
    have hstore := store_append (front ++ gap) x LF (c :: cs ++ slack.drop (n + 1))
    rw [List.length_append, hgap] at hstore
    have hlast := congrArg (· ++ slack.drop (n + 1)) (List.dropLast_append_getLast hne)
    refine ⟨gap, (c :: cs).getLast hne :: slack.drop (n + 1), ?_, hgap, ?_⟩
    · rw [if_pos hopen, hmove, behindNew, if_pos hopens]
      simp only [Option.bind_eq_bind, Option.bind_some, List.append_assoc, List.cons_append,
        List.nil_append] at hstore hlast ⊢
      rw [hstore, hlast]
    · rw [List.length_cons, List.length_drop]
      omega
  · have hopens : opens (c :: cs) = false :=
      Bool.eq_false_of_not_eq_true fun h ↦ hopen (Option.some.inj ((opens_iff _).mp h))
    rw [hopens, Bool.toNat_false, Nat.add_zero] at hle
    obtain ⟨gap, hmove, hgap⟩ := memmove_up front (c :: cs) slack hle
    refine ⟨gap, slack.drop n, ?_, hgap, ?_⟩
    · rw [if_neg hopen, hmove, behindNew, hopens]
      rfl
    · rw [List.length_drop]
      omega

theorem makeRoom_of_gt (hne : rest ≠ []) {n : ℕ} (hgt : slack.length < n + (opens rest).toNat) :
    makeRoom (front ++ rest ++ slack) (front.length + rest.length) front.length n = none := by
  obtain ⟨c, cs, rfl⟩ := List.exists_cons_of_ne_nil hne
  have hlt : front.length < front.length + (c :: cs).length := by
    rw [List.length_cons]
    omega
  have hget : (front ++ c :: cs ++ slack)[front.length]? = some c :=
    (holdsAt_append front (c :: cs) slack).head
  rw [makeRoom, if_pos hlt, hget, Option.bind_eq_bind, Option.bind_some, Nat.add_sub_cancel_left]
  by_cases hopen : c = OPEN
  · have hopens : opens (c :: cs) = true := (opens_iff _).mpr (congrArg some hopen)
    rw [hopens, Bool.toNat_true] at hgt
    rw [if_pos hopen, memmove_of_gt]
    · rfl
    · simp only [List.length_append, List.length_cons] at hlt ⊢
      omega
  · have hopens : opens (c :: cs) = false :=
      Bool.eq_false_of_not_eq_true fun h ↦ hopen (Option.some.inj ((opens_iff _).mp h))
    rw [hopens, Bool.toNat_false, Nat.add_zero] at hgt
    rw [if_neg hopen, memmove_of_gt]
    simp only [List.length_append, List.length_cons] at hlt ⊢
    omega

theorem length_entryText (key value : List U8) :
    (entryText key value).length
      = key.length + 1 + value.length + (if (quotechar value).isSome then 2 else 0) + 1 := by
  rw [entryText]
  cases quotechar value <;>
    simp only [List.length_append, List.length_cons, Option.toList, List.length_nil, Option.isSome,
      Bool.false_eq_true, if_false, if_true] <;> omega

/-- **The new line fits**: it is stored, and what follows is behind it. -/
theorem insertLine_of_le (h : b.At front rest slack) {keylen : ℕ} (hkeylen : keylen ≤ key.length)
    {new : List U8} (hnew : entryText (key.take keylen) value = new)
    (hle : new.length + (opens rest).toNat ≤ slack.length) :
    ∃ slack', insertLine b front.length keylen key value = some { b with
        data := front ++ new ++ behindNew rest ++ slack'
        filelen := b.filelen + new.length
        offset := b.offset + new.length
        changed := true }
      ∧ new.length + slack'.length = slack.length := by
  have hlen := length_entryText (key.take keylen) value
  rw [hnew, List.length_take_of_le hkeylen] at hlen
  -- the room is made, or it is the end of the file and there is room
  have hroom : ∃ gap slack', makeRoom b.data b.filelen front.length new.length
        = some (front ++ gap ++ behindNew rest ++ slack') ∧ gap.length = new.length
      ∧ gap.length + slack'.length = slack.length := by
    rw [h.data, h.filelen]
    by_cases hne : rest = []
    · subst hne
      refine ⟨slack.take new.length, slack.drop new.length, ?_, ?_, ?_⟩
      · rw [makeRoom, if_neg (by simp), behindNew, if_neg (by decide)]
        simp
      · exact List.length_take_of_le (Nat.le_of_add_right_le hle)
      · rw [← List.length_append, List.take_append_drop]
    · exact makeRoom_of_le hne hle
  obtain ⟨gap, slack', hmake, hgap, hslack⟩ := hroom
  have hstores := stores_append front gap new (behindNew rest ++ slack') hgap
  rw [← List.append_assoc, ← List.append_assoc] at hstores
  refine ⟨slack', ?_, by omega⟩
  rw [insertLine]
  simp only [← hlen, hmake, hnew, hstores, Option.bind_eq_bind, Option.bind_some]

/-- **The new line does not fit.** -/
theorem insertLine_of_gt (h : b.At front rest slack) {keylen : ℕ} (hkeylen : keylen ≤ key.length)
    {new : List U8} (hnew : entryText (key.take keylen) value = new)
    (hgt : slack.length < new.length + (opens rest).toNat) :
    insertLine b front.length keylen key value = none := by
  have hlen := length_entryText (key.take keylen) value
  rw [hnew, List.length_take_of_le hkeylen] at hlen
  rw [insertLine]
  simp only [← hlen, hnew, h.data, h.filelen]
  by_cases hne : rest = []
  · subst hne
    rw [show opens [] = false from rfl, Bool.toNat_false, Nat.add_zero] at hgt
    rw [makeRoom, if_neg (by simp), Option.bind_eq_bind, Option.bind_some, stores_of_gt]
    · rfl
    · simp only [List.length_append]
      omega
    · simp only [List.length_append, List.length_nil]
      omega
  · rw [makeRoom_of_gt hne hgt]
    rfl

/-- What is done may be more, if what is behind it is as long as it was. -/
theorem Block.At.put (h : b.At front rest slack) (new rest' slack' : List U8)
    (hlen : rest'.length = rest.length) (foundrecs : ℕ) :
    ({ b with
      data := front ++ new ++ rest' ++ slack'
      filelen := b.filelen + new.length
      offset := b.offset + new.length
      foundrecs := foundrecs
      changed := true } : Block).At (front ++ new) rest' slack' := by
  refine ⟨rfl, ?_, ?_⟩
  · dsimp only
    rw [h.offset, List.length_append]
  · dsimp only
    rw [h.filelen, List.length_append, hlen]
    omega

/-- The old line is taken out. -/
theorem takeOut (h : b.At front (l.text ++ rest) slack) :
    ∃ slack', memmove b.data (front ++ l.kept).length ((front ++ l.kept).length + l.old) rest.length
        = some (front ++ l.kept ++ rest ++ slack')
      ∧ slack'.length = l.old + slack.length := by
  obtain ⟨gap, htext, hgap⟩ := l.text_eq
  obtain ⟨slack', hmove, hlen⟩ := memmove_down (front ++ l.kept) gap rest slack
  rw [hgap] at hmove hlen
  refine ⟨slack', ?_, hlen⟩
  rw [h.data, htext, ← hmove]
  simp only [List.append_assoc]

/-- What is left of the block when the old line is out. -/
def Block.without (b : Block) (front rest slack : List U8) (l : Line) (foundrecs : ℕ) : Block :=
  { b with
    data := front ++ l.kept ++ rest ++ slack
    filelen := b.filelen - l.old
    offset := b.offset + l.text.length - l.old
    foundrecs := foundrecs }

theorem Block.At.without (h : b.At front (l.text ++ rest) slack) (slack' : List U8) (n : ℕ) :
    (b.without front rest slack' l n).At (front ++ l.kept) rest slack' := by
  have hlen := l.length_text
  refine ⟨rfl, ?_, ?_⟩
  · rw [Block.without, h.offset, List.length_append]
    dsimp only
    omega
  · rw [Block.without, h.filelen, List.length_append, List.length_append]
    dsimp only
    omega

/-- What is done where the old line was. -/
def placeLine (key value : Option CString) (b : Block) (keyoff keylen : ℕ) : Option Block :=
  match value with
  | none => deleteLine b keyoff
  | some value => insertLine b keyoff keylen ((key.map Subtype.val).getD []) value.1

/-- **The old line is out**; what comes in its place is the rest of the work. -/
theorem replaceLine_eq (h : b.At front (l.text ++ rest) slack) (key value : Option CString)
    (n keylen valuepos : ℕ) :
    ∃ slack', slack'.length = l.old + slack.length
      ∧ replaceLine key value { b with offset := b.offset + l.text.length, foundrecs := n }
          (l.scan b.offset) keylen valuepos
        = (placeLine key value (b.without front rest slack' l n) (front ++ l.kept).length
            keylen).map (·, true) := by
  obtain ⟨slack', hmove, hlen⟩ := takeOut h
  have hle : l.lead.countP isBlank ≤ l.lead.length := List.countP_le_length
  have hold : (l.scan b.offset).linelen + ((l.scan b.offset).leadspaces + (l.scan b.offset).eollen)
      = l.old := by
    rw [Line.scan, Line.old]
    dsimp only
    omega
  have hkeyoff : (l.scan b.offset).keyoff - (l.scan b.offset).leadspaces
      = (front ++ l.kept).length := by
    rw [Line.scan, Line.kept, h.offset, List.length_append, List.length_take]
    dsimp only
    omega
  have hrest : b.filelen - ((front ++ l.kept).length + l.old) = rest.length := by
    rw [h.filelen, List.length_append, List.length_append, l.length_text]
    omega
  refine ⟨slack', hlen, ?_⟩
  rw [replaceLine]
  simp only [hold, hkeyoff, hrest, hmove, Option.bind_eq_bind, Option.bind_some]
  cases value with
  | none =>
    dsimp only [Block.without, placeLine]
    cases deleteLine _ _ <;> rfl
  | some value =>
    dsimp only [Block.without, placeLine]
    cases insertLine _ _ _ _ _ <;> rfl

/-- What is put in the place of a deleted line. -/
def blankLine (rest : List U8) : List U8 := if opens rest then [LF] else []

theorem length_blankLine_le (rest : List U8) : (blankLine rest).length ≤ 1 := by
  rw [blankLine]
  split_ifs
  · exact Nat.le_refl 1
  · exact Nat.zero_le 1

theorem deleteLine_eq (h : b.At front rest slack) (hroom : slack ≠ []) :
    ∃ slack', deleteLine b front.length = some { b with
        data := front ++ blankLine rest ++ rest ++ slack'
        filelen := b.filelen + (blankLine rest).length
        offset := b.offset + (blankLine rest).length
        foundrecs := b.foundrecs - 1
        changed := true }
      ∧ (blankLine rest).length + slack'.length = slack.length := by
  have hkeep : opens rest = false → b.data = front ++ blankLine rest ++ rest ++ slack := by
    intro hopens
    rw [blankLine, hopens, h.data]
    simp
  rw [deleteLine]
  cases rest with
  | nil =>
    rw [if_neg (by rw [h.filelen]; simp), hkeep rfl]
    exact ⟨slack, rfl, Nat.zero_add _⟩
  | cons c cs =>
    have hget : b.data[front.length]? = some c := by
      rw [h.data]
      exact (holdsAt_append front (c :: cs) slack).head
    rw [if_pos (by rw [h.filelen, List.length_cons]; omega), hget, Option.bind_eq_bind,
      Option.bind_some]
    by_cases hopen : c = OPEN
    · have hopens : opens (c :: cs) = true := (opens_iff _).mpr (congrArg some hopen)
      obtain ⟨gap, hmove, hgap⟩ := memmove_up front (c :: cs) slack (List.length_pos_iff.mpr hroom)
      obtain ⟨x, rfl⟩ := List.length_eq_one_iff.mp hgap
      have hstore := store_append front x LF (c :: cs ++ slack.drop 1)
      rw [h.data, h.filelen, Nat.add_sub_cancel_left, if_pos hopen, hmove, blankLine, hopens]
      refine ⟨slack.drop 1, ?_, ?_⟩
      · simp only [Option.bind_eq_bind, Option.bind_some, List.append_assoc, List.cons_append,
          List.nil_append, if_true, List.length_singleton] at hstore ⊢
        rw [hstore]
        rfl
      · rw [List.length_drop]
        have := List.length_pos_iff.mpr hroom
        simp only [if_true, List.length_singleton]
        omega
    · have hopens : opens (c :: cs) = false :=
        Bool.eq_false_of_not_eq_true fun h ↦ hopen (Option.some.inj ((opens_iff _).mp h))
      rw [if_neg hopen, hkeep hopens, blankLine, hopens]
      exact ⟨slack, rfl, Nat.zero_add _⟩

theorem Line.Ok.old_pos (h : l.Ok) : 0 < l.old :=
  Nat.add_pos_left (Nat.add_pos_right _ (List.length_pos_iff.mpr h.body_ne)) _

/-- What a replaced line leaves as it is. -/
structure Block.Since (b₁ b : Block) : Prop where
  length : b₁.data.length = b.data.length
  sectoff : b₁.sectoff = b.sectoff
  sectoffend : b₁.sectoffend = b.sectoffend
  foundsect : b₁.foundsect = b.foundsect
  changed : b₁.changed = true

/-- **A line is deleted.** -/
theorem replaceLine_delete (h : b.At front (l.text ++ rest) slack) (hroom : slack ≠ [])
    (key : Option CString) (n keylen valuepos : ℕ) :
    ∃ b₁ slack₁, replaceLine key none { b with offset := b.offset + l.text.length, foundrecs := n }
          (l.scan b.offset) keylen valuepos = some (b₁, true)
      ∧ b₁.At (front ++ (l.kept ++ blankLine rest)) rest slack₁
      ∧ slack₁.length + (blankLine rest).length = slack.length + l.old ∧ b₁.Since b := by
  obtain ⟨slack', hlen', hreplace⟩ := replaceLine_eq h key none n keylen valuepos
  have hslack' : slack' ≠ [] := by
    rw [← List.length_pos_iff] at hroom ⊢
    rw [hlen']
    exact Nat.add_pos_right _ hroom
  have hwithout := h.without slack' n
  obtain ⟨slack₁, hdelete, hlen₁⟩ := deleteLine_eq hwithout hslack'
  have hput := hwithout.put (blankLine rest) rest slack₁ rfl (n - 1)
  have htext := l.length_text
  rw [hreplace, placeLine, hdelete]
  refine ⟨_, slack₁, rfl, ?_, by omega, ?_, rfl, rfl, rfl, rfl⟩
  · rw [← List.append_assoc]
    exact hput
  · refine hput.length.trans ?_
    simp only [h.length, List.length_append]
    omega

/-- **A line is replaced.** -/
theorem replaceLine_insert (h : b.At front (l.text ++ rest) slack) (n : ℕ) {keylen : ℕ}
    (valuepos : ℕ) {key value : CString} (hkeylen : keylen ≤ key.1.length) {new : List U8}
    (hnew : entryText (key.1.take keylen) value.1 = new)
    (hle : new.length + (opens rest).toNat ≤ slack.length + l.old) :
    ∃ b₁ slack₁, replaceLine (some key) (some value)
          { b with offset := b.offset + l.text.length, foundrecs := n } (l.scan b.offset) keylen
          valuepos = some (b₁, true)
      ∧ b₁.At (front ++ (l.kept ++ new)) (behindNew rest) slack₁
      ∧ slack₁.length + new.length = slack.length + l.old ∧ b₁.Since b := by
  obtain ⟨slack', hlen', hreplace⟩ := replaceLine_eq h (some key) (some value) n keylen valuepos
  have hwithout := h.without slack' n
  obtain ⟨slack₁, hinsert, hlen₁⟩ := insertLine_of_le hwithout hkeylen hnew (by omega)
  have hput := hwithout.put new (behindNew rest) slack₁ (length_behindNew rest) n
  have hbehind := length_behindNew rest
  have htext := l.length_text
  rw [hreplace]
  dsimp only [placeLine, Option.map_some, Option.getD_some]
  rw [hinsert]
  refine ⟨_, slack₁, rfl, ?_, by omega, ?_, rfl, rfl, rfl, rfl⟩
  · rw [← List.append_assoc]
    exact hput
  · refine hput.length.trans ?_
    simp only [h.length, List.length_append]
    omega

/-- **A line is too long** to be replaced. -/
theorem replaceLine_of_gt (h : b.At front (l.text ++ rest) slack) (n : ℕ) {keylen : ℕ}
    (valuepos : ℕ) {key value : CString} (hkeylen : keylen ≤ key.1.length) {new : List U8}
    (hnew : entryText (key.1.take keylen) value.1 = new)
    (hgt : slack.length + l.old < new.length + (opens rest).toNat) :
    replaceLine (some key) (some value)
      { b with offset := b.offset + l.text.length, foundrecs := n } (l.scan b.offset) keylen
      valuepos = none := by
  obtain ⟨slack', hlen', hreplace⟩ := replaceLine_eq h (some key) (some value) n keylen valuepos
  have hinsert := insertLine_of_gt (h.without slack' n) hkeylen hnew (by omega)
  rw [hreplace]
  dsimp only [placeLine, Option.map_some, Option.getD_some]
  rw [hinsert]
  rfl

end Replace

/-! ## All the lines of a section -/

/-- What a write makes of a line of the key, with so much room, and of what follows. -/
def editLine (key value : Option CString) (spare : ℕ) (l : Line) (rest : List U8)
    (next : ℕ → Option (List U8)) : Option (List U8) :=
  match value with
  | none => (next (spare + l.old - (blankLine rest).length)).map (l.kept ++ blankLine rest ++ ·)
  | some value =>
    let new := l.renewed ((key.map Subtype.val).getD []) value.1
    if new.length + (opens rest).toNat ≤ spare + l.old then
      (if opens rest then some (behindNew rest) else next (spare + l.old - new.length)).map
        (l.kept ++ new ++ ·)
    else none

/-- **What a write makes of the lines** behind the header of its section. -/
def editLines (key value : Option CString) : ℕ → List Line → List U8 → Option (List U8)
  | _, [], tail => some tail
  | spare, l :: ls, tail =>
    if isHeader l.body then some (l.text ++ (linesText ls ++ tail))
    else if wanted key l.body then
      editLine key value spare l (linesText ls ++ tail)
        fun spare ↦ editLines key value spare ls tail
    else (editLines key value spare ls tail).map (l.text ++ ·)

/-- Some line up to the next header is one of the key. -/
def anyWanted (key : Option CString) (ls : List Line) : Bool :=
  ((ls.map Line.body).takeWhile (!isHeader ·)).any (wanted key)

/-- How far it is to the next header. -/
def sectionEnd : List Line → Option ℕ
  | [] => none
  | l :: ls =>
    if isHeader l.body then some l.lead.length else (sectionEnd ls).map (l.text.length + ·)

/-- What the scan leaves of the block. -/
structure Edited (key : Option CString) (b b' : Block) (front : List U8) (ls : List Line)
    (text : List U8) : Prop where
  length : b'.data.length = b.data.length
  holds : HoldsAt b'.data 0 (front ++ text)
  filelen : b'.filelen = (front ++ text).length
  sectoff : b'.sectoff = b.sectoff
  foundsect : b'.foundsect = true
  changed : b'.changed = (b.changed || anyWanted key ls)
  sectoffend : b'.sectoffend = b.sectoffend
    ∨ front.length ≤ b'.sectoffend ∧ b'.sectoffend ≤ b'.filelen
  same : anyWanted key ls = false →
    b'.data = b.data ∧ b'.sectoffend = (sectionEnd ls).elim b.sectoffend (b.offset + ·)

theorem anyWanted_cons {key : Option CString} {l : Line} {ls : List Line}
    (h : isHeader l.body = false) :
    anyWanted key (l :: ls) = (wanted key l.body || anyWanted key ls) := by
  rw [anyWanted, List.map_cons, List.takeWhile_cons_of_pos (by simp [h]), List.any_cons, anyWanted]

theorem anyWanted_header {key : Option CString} {l : Line} {ls : List Line}
    (h : isHeader l.body = true) : anyWanted key (l :: ls) = false := by
  rw [anyWanted, List.map_cons, List.takeWhile_cons_of_neg (by simp [h]), List.any_nil]

/-- Nothing is done if there is no line of the key. -/
theorem editLines_of_not {key value : Option CString} {ls : List Line} (tail : List U8)
    (h : anyWanted key ls = false) (spare : ℕ) :
    editLines key value spare ls tail = some (linesText ls ++ tail) := by
  induction ls with
  | nil => rfl
  | cons l ls ih =>
    rw [editLines, linesText_cons, List.append_assoc]
    cases hhead : isHeader l.body with
    | true => rfl
    | false =>
      rw [anyWanted_cons hhead, Bool.or_eq_false_iff] at h
      rw [if_neg Bool.false_ne_true, h.1, if_neg Bool.false_ne_true, ih h.2]
      rfl

/-- Lines are deleted wherever they are, and the file gets no longer. -/
theorem editLines_delete {key : Option CString} {ls : List Line} {tail : List U8}
    (hparsed : Parsed ls tail) (spare : ℕ) :
    ∃ text, editLines key none spare ls tail = some text
      ∧ text.length ≤ (linesText ls ++ tail).length := by
  induction hparsed generalizing spare with
  | done => exact ⟨_, rfl, le_rfl⟩
  | @line l ls tail hok hends hparsed ih =>
    rw [editLines, linesText_cons, List.append_assoc, List.length_append]
    split_ifs
    · exact ⟨_, rfl, List.length_append.le⟩
    · obtain ⟨text, htext, hle⟩ :=
        ih (spare + l.old - (blankLine (linesText ls ++ tail)).length)
      have hold := hok.old_pos
      have hblank := length_blankLine_le (linesText ls ++ tail)
      have hlen := l.length_text
      rw [editLine, htext]
      refine ⟨_, rfl, ?_⟩
      rw [List.length_append, List.length_append]
      omega
    · obtain ⟨text, htext, hle⟩ := ih spare
      rw [htext]
      refine ⟨_, rfl, ?_⟩
      rw [List.length_append]
      exact Nat.add_le_add_left hle _

section Scan

variable {sect key value : Option CString} {b : Block} {front slack tail : List U8} {ls : List Line}

/-- A text that has a header first, or nothing, ends the scan. -/
theorem scanLoop_stop (sect key : Option CString) (act : Action) {rest : List U8}
    (h : b.At front rest slack)
    (hstop : ∀ c ∈ (rest.dropWhile isSpace).head?, c = OPEN) (hfound : b.foundsect = true)
    {fuel : ℕ} (hfuel : b.filelen < b.offset + fuel) :
    ∃ offset anysect sectoffend, scanLoop sect key act fuel b
        = some { b with offset := offset, anysect := anysect, sectoffend := sectoffend }
      ∧ (sectoffend = b.sectoffend ∨ front.length ≤ sectoffend ∧ sectoffend ≤ b.filelen) := by
  obtain ⟨tail, htext, hparsed⟩ := linesOf_parsed rest
  generalize linesOf rest = ls at htext hparsed
  subst htext
  cases hparsed with
  | done htail =>
    have hat : HoldsAt b.data b.offset tail := by
      rw [h.data, h.offset]
      exact holdsAt_append front tail slack
    exact ⟨_, _, _, scanLoop_tail hat htail (by rw [h.filelen, h.offset]; rfl) hfuel, .inl rfl⟩
  | @line l ls _ hok hends _ =>
    obtain ⟨c, cs, hbody, hblank⟩ := hok.head
    have hspace : isSpace c = false :=
      isSpace_eq_false.mpr ⟨hok.body c (by rw [hbody]; exact List.mem_cons_self), hblank⟩
    have hhead : isHeader l.body = true := by
      rw [linesText_cons, Line.text, List.append_assoc, List.append_assoc, List.append_assoc,
        List.dropWhile_append_of_pos hok.lead, hbody, List.cons_append,
        List.dropWhile_cons_of_neg (by rw [hspace]; exact Bool.false_ne_true)] at hstop
      rw [hbody, isHeader_cons, hstop c rfl]
      rfl
    rw [linesText_cons, List.append_assoc] at h
    obtain ⟨fuel, rfl⟩ := Nat.exists_eq_add_of_le' (show 1 ≤ fuel by
      have := h.filelen; have := h.offset; omega)
    rw [scanLoop_line h.atLine hok hends, visitLine_end h.atLine hok hhead hfound,
      Option.bind_some]
    refine ⟨_, _, _, rfl, .inr ⟨by rw [h.offset]; exact Nat.le_add_right _ _, ?_⟩⟩
    rw [h.filelen, h.offset, Line.text]
    simp only [List.length_append]
    omega

/-- What a scan does with the lines is what is expected of them: it leaves the block, or comes to
the text. -/
def Outcome (key : Option CString) (b : Block) (front : List U8) (ls : List Line)
    (result : Option Block) : Option (List U8) → Prop
  | none => result = none
  | some text => ∃ b', result = some b' ∧ Edited key b b' front ls text

/-- One line is done, and the others come out as expected. -/
theorem Outcome.cons {b₁ : Block} {l : Line} {done : List U8} {result : Option Block}
    {expected : Option (List U8)} (h : Outcome key b₁ (front ++ done) ls result expected)
    (hhead : isHeader l.body = false) (hlen : b₁.data.length = b.data.length)
    (hsectoff : b₁.sectoff = b.sectoff) (hsectoffend : b₁.sectoffend = b.sectoffend)
    (hchanged : b₁.changed = (b.changed || wanted key l.body))
    (hsame : wanted key l.body = false →
      b₁.data = b.data ∧ b₁.offset = b.offset + l.text.length) :
    Outcome key b front (l :: ls) result (expected.map (done ++ ·)) := by
  cases expected with
  | none => exact h
  | some text =>
    obtain ⟨b', hresult, hedited⟩ := h
    refine ⟨b', hresult, hedited.length.trans hlen, ?_, ?_, hedited.sectoff.trans hsectoff,
      hedited.foundsect, ?_, ?_, ?_⟩
    · rw [← List.append_assoc]
      exact hedited.holds
    · rw [← List.append_assoc]
      exact hedited.filelen
    · rw [hedited.changed, hchanged, anyWanted_cons hhead, Bool.or_assoc]
    · rw [← hsectoffend]
      refine hedited.sectoffend.imp_right fun h ↦ ⟨le_trans ?_ h.1, h.2⟩
      rw [List.length_append]
      exact Nat.le_add_right _ _
    · rw [anyWanted_cons hhead, Bool.or_eq_false_iff]
      rintro ⟨hwanted, hany⟩
      obtain ⟨hdata, hoffset⟩ := hsame hwanted
      obtain ⟨hdata', hend⟩ := hedited.same hany
      refine ⟨hdata'.trans hdata, ?_⟩
      rw [hend, sectionEnd, hhead, hsectoffend, hoffset]
      cases sectionEnd ls with
      | none => rfl
      | some n => exact Nat.add_assoc _ _ _

theorem length_keyText_le {key : CString} {body : List U8} (h : isRecordOf key.1 body = true) :
    (keyText body).length ≤ key.1.length := by
  obtain ⟨-, -, hagree, -⟩ := of_decide_eq_true h
  rw [← hagree]
  exact (agree_le_left _ _).trans (List.dropWhile_suffix _).length_le

/-- **The scan of a section** comes to the text that is expected, or leaves the block. -/
theorem scanLoop_edit (hparsed : Parsed ls tail) (h : b.At front (linesText ls ++ tail) slack)
    (hfound : b.foundsect = true) {fuel : ℕ} (hfuel : b.filelen < b.offset + fuel)
    (hslack : value = none → slack ≠ []) :
    Outcome key b front ls (scanLoop sect key (replaceLine key value) fuel b)
      (editLines key value slack.length ls tail) := by
  induction hparsed generalizing b front slack fuel with
  | @done tail htail =>
    have hat : HoldsAt b.data b.offset tail := by
      rw [h.data, h.offset]
      exact holdsAt_append front tail slack
    refine ⟨_, scanLoop_tail hat htail (by rw [h.filelen, h.offset]; rfl) hfuel, rfl, ?_, ?_, rfl,
      hfound, ?_, .inl rfl, fun _ ↦ ⟨rfl, rfl⟩⟩
    · rw [h.data]
      exact ⟨slack, rfl⟩
    · rw [List.length_append, h.filelen]
      rfl
    · exact (Bool.or_false _).symm
  | @line l ls tail hok hends hparsed ih =>
    rw [linesText_cons, List.append_assoc] at h
    have hpos := hok.length_text_pos
    have hlen := h.filelen
    rw [List.length_append] at hlen
    have hoffset := h.offset
    obtain ⟨fuel, rfl⟩ := Nat.exists_eq_add_of_le' (show 1 ≤ fuel by omega)
    rw [scanLoop_line h.atLine hok hends, editLines]
    cases hhead : isHeader l.body with
    | true =>
      rw [visitLine_end h.atLine hok hhead hfound, if_pos rfl, Option.bind_some]
      refine ⟨_, rfl, rfl, ?_, ?_, rfl, hfound, ?_, .inr ⟨?_, ?_⟩, fun _ ↦ ⟨rfl, ?_⟩⟩
      · rw [h.data]
        exact ⟨slack, rfl⟩
      · rw [List.length_append, List.length_append]
        exact hlen
      · rw [anyWanted_header hhead]
        exact (Bool.or_false _).symm
      · rw [hoffset]
        exact Nat.le_add_right _ _
      · dsimp only
        rw [hoffset, hlen, Line.text]
        simp only [List.length_append]
        omega
      · rw [sectionEnd, if_pos hhead]
        rfl
    | false =>
      rw [visitLine_record h.atLine hok hhead hfound, if_neg Bool.false_ne_true]
      cases hwanted : wanted key l.body with
      | false =>
        rw [if_neg Bool.false_ne_true, if_neg Bool.false_ne_true, Option.bind_some]
        have hnext : ({ b with
            offset := b.offset + l.text.length
            foundrecs := b.foundrecs + 1 } : Block).At (front ++ l.text) (linesText ls ++ tail)
            slack := by
          refine ⟨?_, ?_, ?_⟩
          · simp only [h.data, List.append_assoc]
          · rw [List.length_append, ← hoffset]
          · simp only [hlen, List.length_append]
            omega
        have hwithin : b.filelen < b.offset + l.text.length + fuel := by omega
        refine (ih hnext hfound hwithin hslack).cons hhead rfl rfl rfl
          ?_ fun _ ↦ ⟨rfl, rfl⟩
        rw [hwanted, Bool.or_false]
      | true =>
        rw [if_pos rfl, if_pos rfl]
        have hchanged : true = (b.changed || wanted key l.body) := by rw [hwanted, Bool.or_true]
        generalize linesText ls ++ tail = rest at *
        cases value with
        | none =>
          have hspare := List.length_pos_iff.mpr (hslack rfl)
          have hold := hok.old_pos
          have hblank := length_blankLine_le rest
          obtain ⟨b₁, slack₁, hreplace, hnext, hlen₁, hsince⟩ := replaceLine_delete h (hslack rfl)
            key (b.foundrecs + 1) (keyText l.body).length
            ((l.body.takeWhile (· != EQUALS)).length + 1)
          have hlater : slack.length + l.old - (blankLine rest).length = slack₁.length := by omega
          rw [hreplace, Option.bind_some, if_pos rfl, editLine, hlater]
          refine (ih hnext (hsince.foundsect.trans hfound) ?_ fun _ ↦ ?_).cons hhead hsince.length
            hsince.sectoff hsince.sectoffend (hsince.changed.trans hchanged) ?_
          · rw [hnext.filelen, hnext.offset]
            omega
          · exact List.ne_nil_of_length_pos (by omega)
          · rw [hwanted]
            exact fun h ↦ by cases h
        | some value =>
          obtain ⟨k, rfl⟩ : ∃ k, key = some k := by
            cases key with
            | none => exact absurd hwanted Bool.false_ne_true
            | some k => exact ⟨k, rfl⟩
          have hkeylen := length_keyText_le hwanted
          rw [editLine]
          dsimp only [Option.map_some, Option.getD_some]
          by_cases hfit : (l.renewed k.1 value.1).length + (opens rest).toNat
              ≤ slack.length + l.old
          · obtain ⟨b₁, slack₁, hreplace, hnext, hlen₁, hsince⟩ := replaceLine_insert h
              (b.foundrecs + 1) ((l.body.takeWhile (· != EQUALS)).length + 1) hkeylen rfl hfit
            have hbehind := length_behindNew rest
            have hwithin : b₁.filelen < b₁.offset + fuel := by
              rw [hnext.filelen, hnext.offset]
              omega
            have hfound₁ := hsince.foundsect.trans hfound
            rw [hreplace, Option.bind_some, if_pos rfl, if_pos hfit]
            cases hopen : opens rest with
            | true =>
              obtain ⟨offset, anysect, sectoffend, hstop, hend⟩ := scanLoop_stop sect (some k)
                (replaceLine (some k) (some value)) hnext
                (head_behindNew hopen) hfound₁ hwithin
              rw [hstop, if_pos rfl, Option.map_some]
              refine ⟨_, rfl, hsince.length, ?_, ?_, hsince.sectoff, hfound₁, ?_, ?_, ?_⟩
              · rw [← List.append_assoc]
                exact ⟨slack₁, hnext.data.symm⟩
              · rw [← List.append_assoc, List.length_append]
                exact hnext.filelen
              · rw [anyWanted_cons hhead, hwanted, Bool.true_or, Bool.or_true]
                exact hsince.changed
              · rw [← hsince.sectoffend]
                refine hend.imp_right fun h ↦ ⟨le_trans ?_ h.1, h.2⟩
                rw [List.length_append]
                exact Nat.le_add_right _ _
              · rw [anyWanted_cons hhead, hwanted, Bool.true_or]
                exact fun h ↦ by cases h
            | false =>
              have hlater : slack.length + l.old - (l.renewed k.1 value.1).length
                  = slack₁.length := by
                rw [Line.renewed]
                omega
              rw [behindNew, hopen, if_neg Bool.false_ne_true] at hnext
              rw [if_neg Bool.false_ne_true, hlater]
              refine (ih hnext hfound₁ hwithin fun h ↦ by cases h).cons hhead hsince.length
                hsince.sectoff hsince.sectoffend (hsince.changed.trans hchanged) ?_
              rw [hwanted]
              exact fun h ↦ by cases h
          · rw [if_neg hfit, replaceLine_of_gt h _ _ hkeylen rfl (Nat.lt_of_not_le hfit)]
            rfl

end Scan

end Hyunjin.Ini
