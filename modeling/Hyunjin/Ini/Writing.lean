import Hyunjin.Ini.Editing

/-!
# Writing an ini file

A write comes to the section, edits its lines, and does what is left to do behind the scan: it adds
the section or the entry, or it deletes the section. Then it strips what is trivial from the end of
the file and puts a newline there. The file that is left is stated in terms of the lines.
-/

namespace Hyunjin.Ini

open Memory

/-! ## The end of the file -/

/-- The file without triviality at its end, with a newline. -/
def finished (text : List U8) : List U8 :=
  match text.rdropWhile isTrivial with
  | [] => []
  | c :: cs => c :: cs ++ [LF]

section Finish

variable {text rest : List U8}

theorem stripBack_append (p : U8 → Bool) (text rest : List U8) :
    stripBack p (text ++ rest) 0 text.length = some (text.rdropWhile p).length :=
  stripBack_spec p (List.prefix_append text rest)

theorem finishFile_of_lt (h : (text.rdropWhile isTrivial).length < (text ++ rest).length) :
    finishFile (text ++ rest) text.length = some (finished text) := by
  obtain ⟨back, hback⟩ := text.rdropWhile_prefix isTrivial
  rw [finishFile, stripBack_append, Option.bind_eq_bind, Option.bind_some, finished]
  cases hstrip : text.rdropWhile isTrivial with
  | nil => rw [List.length_nil, if_neg (Nat.lt_irrefl 0)]
  | cons c cs =>
    rw [hstrip] at h hback
    obtain ⟨d, ds, hd⟩ : ∃ d ds, back ++ rest = d :: ds := by
      rw [← hback, List.append_assoc, List.length_append] at h
      exact List.exists_cons_of_length_pos (Nat.lt_add_right_iff_pos.mp h)
    have hstore := store_append (c :: cs) d LF ds
    rw [← hback, List.append_assoc, hd,
      if_pos (List.length_pos_iff.mpr (List.cons_ne_nil c cs)), hstore, Option.bind_eq_bind,
      Option.bind_some, List.take_length_add_append]
    rfl

theorem finishFile_of_ge (h : (text ++ rest).length ≤ (text.rdropWhile isTrivial).length)
    (hne : text ≠ []) : finishFile (text ++ rest) text.length = none := by
  have hpos := List.length_pos_iff.mpr hne
  rw [List.length_append] at h
  rw [finishFile, stripBack_append, Option.bind_eq_bind, Option.bind_some, if_pos (by omega),
    store_of_ge (by rw [List.length_append]; exact h)]
  rfl

theorem finished_ne_nil {c : U8} (hmem : c ∈ text) (hc : isTrivial c = false) :
    finished text ≠ [] := by
  rw [finished]
  cases hstrip : text.rdropWhile isTrivial with
  | nil =>
    rw [List.rdropWhile_eq_nil_iff] at hstrip
    exact absurd (hstrip c hmem) (by rw [hc]; exact Bool.false_ne_true)
  | cons d ds => exact List.cons_ne_nil _ _

end Finish

/-! ## Behind the scan -/

/-- The header of a new section. -/
def headerText (sect : Option CString) : List U8 :=
  match sect with
  | none => []
  | some s => OPEN :: (s.1 ++ [CLOSE, LF])

/-- Two newlines behind what is in front. -/
def gapBehind (front : List U8) : List U8 := if 0 < front.length then [LF, LF] else []

/-- The file with a new section. -/
def withSection (content : List U8) (sect : Option CString) (key value : List U8) : List U8 :=
  content.rdropWhile isSpace ++ (gapBehind (content.rdropWhile isSpace) ++ headerText sect
    ++ entryText key value)

/-- The file with a new entry in front of some place. The character that it is stored over is a
space. -/
def withEntry (content : List U8) (place : ℕ) (key value : List U8) : List U8 :=
  let front := (content.take place).rdropWhile isSpace
  front ++ (LF :: (entryText key value ++ [LF])) ++ content.drop (front.length + 1)

/-- The file without what is between two places. -/
def withoutSection (content : List U8) (sectoff sectoffend : ℕ) : List U8 :=
  (content.take sectoff).rdropWhile isSpace
    ++ gapBehind ((content.take sectoff).rdropWhile isSpace)
    ++ if sectoffend = 0 then [] else content.drop sectoffend

section Behind

variable {content slack key value : List U8}

theorem length_gapBehind_le (front : List U8) : (gapBehind front).length ≤ 2 := by
  rw [gapBehind]
  split_ifs
  · exact Nat.le_refl 2
  · exact Nat.zero_le 2

theorem length_entryText_le (key value : List U8) :
    (entryText key value).length ≤ key.length + value.length + 4 := by
  rw [length_entryText]
  split_ifs <;> omega

/-- **A new section is added**, if there is room for the entry. -/
theorem addSection_spec (content : List U8) (sect : Option CString)
    (hroom : ((sect.map Subtype.val).getD []).length + key.length + value.length + 9
      < slack.length) :
    ∃ rest, addSection (content ++ slack) content.length sect key value
        = some (withSection content sect key value ++ rest,
          (withSection content sect key value).length) ∧ rest ≠ [] := by
  obtain ⟨back, hback⟩ := content.rdropWhile_prefix isSpace
  have hgap := length_gapBehind_le (content.rdropWhile isSpace)
  have hentry := length_entryText_le key value
  have hheader : (headerText sect).length ≤ ((sect.map Subtype.val).getD []).length + 3 := by
    cases sect with
    | none => exact Nat.zero_le _
    | some s => simp [headerText]
  have hle : (gapBehind (content.rdropWhile isSpace) ++ headerText sect
      ++ entryText key value).length < (back ++ slack).length := by
    simp only [List.length_append]
    omega
  have hstores := stores_behind (content.rdropWhile isSpace) hle.le
  rw [← List.append_assoc, hback] at hstores
  refine ⟨(back ++ slack).drop (gapBehind (content.rdropWhile isSpace) ++ headerText sect
    ++ entryText key value).length, ?_, ?_⟩
  · have hadd : addSection (content ++ slack) content.length sect key value
        = (stores (content ++ slack) (content.rdropWhile isSpace).length
            (gapBehind (content.rdropWhile isSpace) ++ headerText sect ++ entryText key value)).bind
          fun data ↦ some (data, (content.rdropWhile isSpace).length
            + (gapBehind (content.rdropWhile isSpace) ++ headerText sect
              ++ entryText key value).length) := by
      simp only [addSection, stripBack_append, Option.bind_eq_bind, Option.bind_some]
      cases sect <;> rfl
    rw [hadd, hstores, ← List.length_append]
    rfl
  · rw [← List.length_pos_iff, List.length_drop]
    exact Nat.sub_pos_of_lt hle

/-- What comes behind the end of the file is trivial. -/
theorem finished_append {text more : List U8} (h : ∀ c ∈ more, isTrivial c = true) :
    finished (text ++ more) = finished text := by
  rw [finished, finished, rdropWhile_append_of_pos h]

/-- **A new entry is added**, if there is room for it. -/
theorem addEntry_spec (key value : List U8) {place : ℕ} (hplace : place ≤ content.length)
    (hroom : key.length + value.length + 5 < slack.length) :
    ∃ text rest, addEntry (content ++ slack) content.length place key value
        = some (text ++ rest, text.length)
      ∧ finished text
        = finished (withEntry content (if place = 0 then content.length else place) key value)
      ∧ rest ≠ [] := by
  have hplace' : (if place = 0 then content.length else place) ≤ content.length := by
    split_ifs
    exacts [le_rfl, hplace]
  rw [addEntry, withEntry]
  generalize (if place = 0 then content.length else place) = place at hplace' ⊢
  obtain ⟨back, hback⟩ : (content.take place).rdropWhile isSpace <+: content :=
    (List.rdropWhile_prefix _ _).trans (List.take_prefix place content)
  have hstrip : stripBack isSpace (content ++ slack) 0 place
      = some ((content.take place).rdropWhile isSpace).length := by
    have hspec := stripBack_append isSpace (content.take place) (content.drop place ++ slack)
    rwa [← List.append_assoc, List.take_append_drop, List.length_take_of_le hplace'] at hspec
  rw [hstrip, Option.bind_eq_bind, Option.bind_some]
  generalize (content.take place).rdropWhile isSpace = front at hback ⊢
  subst hback
  -- the room is one short: the last newline is stored over the first character behind it
  have hentry : (LF :: (entryText key value ++ [LF])).length
      = key.length + value.length + 1 + (if (quotechar value).isSome then 2 else 0) + 2 + 1 := by
    rw [List.length_cons, List.length_append, length_entryText, List.length_singleton]
    omega
  have hi : key.length + value.length + 1 + (if (quotechar value).isSome then 2 else 0) + 2
      < slack.length := by
    split_ifs <;> omega
  dsimp only
  generalize key.length + value.length + 1 + (if (quotechar value).isSome then 2 else 0) + 2 = i
    at hentry hi ⊢
  obtain ⟨gap, hmove, hgap⟩ := memmove_up front back slack hi.le
  have hslack : slack.drop i ≠ [] := by
    rw [← List.length_pos_iff, List.length_drop]
    exact Nat.sub_pos_of_lt hi
  have hroom' : (LF :: (entryText key value ++ [LF])).length
      ≤ (gap ++ (back ++ slack.drop i)).length := by
    have := List.length_pos_iff.mpr hslack
    rw [hentry, List.length_append, List.length_append]
    omega
  have hstores := stores_behind front hroom'
  rw [hentry, ← hgap, List.drop_length_add_append, hgap, ← List.append_assoc,
    ← List.append_assoc] at hstores
  rw [List.length_append, Nat.add_sub_cancel_left, hmove]
  simp only [Option.bind_eq_bind, Option.bind_some, hstores]
  cases back with
  | nil =>
    refine ⟨front ++ LF :: entryText key value, LF :: (slack.drop i).drop 1, ?_, ?_,
      List.cons_ne_nil _ _⟩
    · simp only [List.length_append, List.length_cons, List.length_nil, List.append_assoc,
        List.cons_append, List.nil_append, Nat.add_right_cancel_iff,
        Nat.add_zero] at hentry ⊢
      rw [← hentry]
    · have hassoc : front ++ LF :: (entryText key value ++ [LF])
          = front ++ LF :: entryText key value ++ [LF] := by
        rw [← List.cons_append, ← List.append_assoc]
      rw [List.append_nil, List.drop_eq_nil_of_le (Nat.le_succ _), List.append_nil, hassoc,
        finished_append (show ∀ c ∈ [LF], isTrivial c = true by decide)]
  | cons c cs =>
    refine ⟨front ++ LF :: (entryText key value ++ [LF]) ++ cs, slack.drop i, ?_, ?_, hslack⟩
    · simp only [List.length_append, List.length_cons, List.length_nil, List.append_assoc,
        List.cons_append, List.nil_append, Nat.add_right_cancel_iff,
        List.drop_succ_cons, List.drop_zero] at hentry ⊢
      rw [← hentry]
      simp only [Option.some.injEq, Prod.mk.injEq, true_and]
      omega
    · rw [List.drop_length_add_append]
      rfl

/-- **A section is deleted.** -/
theorem deleteSection_spec {sectoff sectoffend : ℕ} (hoff : sectoff ≤ content.length)
    (hend : sectoffend ≤ content.length)
    (hafter : sectoffend ≠ 0 → sectoff + 2 ≤ sectoffend ∨ sectoff = 0) (hroom : 2 < slack.length) :
    ∃ rest, deleteSection (content ++ slack) content.length sectoff sectoffend
        = some (withoutSection content sectoff sectoffend ++ rest,
          (withoutSection content sectoff sectoffend).length) ∧ rest ≠ [] := by
  have hprefix := List.rdropWhile_prefix isSpace (content.take sectoff)
  have hfront := hprefix.length_le
  rw [List.length_take_of_le hoff] at hfront
  obtain ⟨back, hback⟩ := hprefix.trans (List.take_prefix sectoff content)
  have hstrip : stripBack isSpace (content ++ slack) 0 sectoff
      = some ((content.take sectoff).rdropWhile isSpace).length := by
    have hspec := stripBack_append isSpace (content.take sectoff) (content.drop sectoff ++ slack)
    rwa [← List.append_assoc, List.take_append_drop, List.length_take_of_le hoff] at hspec
  rw [deleteSection, hstrip, Option.bind_eq_bind, Option.bind_some, withoutSection]
  generalize (content.take sectoff).rdropWhile isSpace = front at hfront hback ⊢
  subst hback
  have hgap := length_gapBehind_le front
  have hstores := stores_behind front (show (gapBehind front).length ≤ (back ++ slack).length by
    rw [List.length_append]
    omega)
  rw [← List.append_assoc] at hstores
  dsimp only
  rw [← gapBehind.eq_1, hstores]
  simp only [Option.bind_eq_bind, Option.bind_some]
  split_ifs with hzero
  · refine ⟨(back ++ slack).drop (gapBehind front).length, ?_, ?_⟩
    · rw [List.append_nil, List.length_append]
    · rw [← List.length_pos_iff, List.length_drop, List.length_append]
      omega
  · -- what is behind the section is moved down behind the gap
    have hle : front.length + (gapBehind front).length ≤ sectoffend := by
      rcases hafter hzero with hafter | rfl
      · omega
      · rw [List.eq_nil_of_length_eq_zero (Nat.le_zero.mp hfront)]
        exact Nat.zero_le _
    obtain ⟨k, rfl⟩ := Nat.exists_eq_add_of_le hle
    rw [List.length_append, Nat.add_assoc, Nat.add_le_add_iff_left] at hend
    have hsplit : (back ++ slack).drop (gapBehind front).length
        = (back.drop (gapBehind front).length).take k
          ++ (back.drop ((gapBehind front).length + k) ++ slack) := by
      rw [← List.append_assoc, ← List.drop_drop, List.take_append_drop,
        List.drop_append_of_le_length (Nat.le_of_add_right_le hend)]
    have hlen : ((back.drop (gapBehind front).length).take k).length = k := by
      rw [List.length_take, List.length_drop]
      omega
    obtain ⟨rest, hmove, hrest⟩ := memmove_down (front ++ gapBehind front)
      ((back.drop (gapBehind front).length).take k) (back.drop ((gapBehind front).length + k)) slack
    have hcount : (front ++ back).length - (front.length + (gapBehind front).length + k)
        = (back.drop ((gapBehind front).length + k)).length := by
      rw [List.length_append, List.length_drop]
      omega
    rw [hlen, List.length_append] at hmove
    rw [hsplit, ← List.append_assoc (front ++ gapBehind front),
      ← List.append_assoc (front ++ gapBehind front ++ _), hcount, hmove, Option.bind_some,
      Nat.add_assoc, List.drop_length_add_append]
    refine ⟨rest, ?_, List.ne_nil_of_length_pos (by omega)⟩
    simp only [Option.some.injEq, Prod.mk.injEq, true_and, List.length_append, List.length_drop]
    omega

end Behind

/-! ## The section -/

/-- The lines behind the header of the section; all lines if none is asked for. -/
def sectionLines (sect : Option (List U8)) (ls : List Line) : List Line :=
  match sect with
  | none => ls
  | some s => (ls.dropWhile (!isHeaderLine s ·)).tail

/-- The file has the section; an empty file has none. -/
def hasSection (sect : Option (List U8)) (content : List U8) : Bool :=
  match sect with
  | none => !content.isEmpty
  | some s => (linesOf content).any (isHeaderLine s)

section Enter

variable {sect key : Option CString} {act : Action} {content slack : List U8}

/-- The scan has come to the lines of the section. -/
structure Entered (sect key : Option CString) (act : Action) (content slack : List U8)
    (pre sec : List Line) (tail : List U8) (b : Block) (fuel : ℕ) : Prop where
  lines : linesOf content = pre ++ sec
  sectionLines : sectionLines (sect.map Subtype.val) (linesOf content) = sec
  parsed : Parsed sec tail
  text : content = linesText pre ++ (linesText sec ++ tail)
  scan : scanFile sect key act (content ++ slack) content.length = scanLoop sect key act fuel b
  fuel : b.filelen < b.offset + fuel
  block : b.At (linesText pre) (linesText sec ++ tail) slack
  foundsect : b.foundsect = true
  changed : b.changed = false
  sectoffend : b.sectoffend = 0
  sectoff : b.sectoff + 2 ≤ (linesText pre).length ∨ b.sectoff = 0

theorem holdsAt_content (hslack : HoldsAt slack 0 [LF]) {ls : List Line} {tail : List U8}
    (htext : content = linesText ls ++ tail) :
    HoldsAt (content ++ slack) 0 (linesText ls ++ tail ++ [LF]) := by
  rw [← htext]
  exact (List.prefix_append_right_inj content).mpr hslack

/-- There is no such section. -/
theorem scanFile_none (key : Option CString) (act : Action) (hslack : HoldsAt slack 0 [LF])
    (hsect : hasSection (sect.map Subtype.val) content = false) :
    ∃ b, scanFile sect key act (content ++ slack) content.length = some b
      ∧ b.data = content ++ slack ∧ b.filelen = content.length ∧ b.foundsect = false := by
  obtain ⟨tail, htext, hparsed⟩ := linesOf_parsed content
  have hat := holdsAt_content hslack htext
  rw [scanFile]
  cases sect with
  | none =>
    obtain rfl : content = [] := by simpa [hasSection] using hsect
    exact ⟨_, rfl, rfl, rfl, rfl⟩
  | some s =>
    have hnone : ∀ l ∈ linesOf content, isHeaderLine s.1 l = false := by
      simpa [hasSection] using hsect
    have hlen : content.length = 0 + (linesText (linesOf content) ++ tail).length := by
      rw [← htext, Nat.zero_add]
    rw [decide_eq_false fun h ↦ by cases h.1]
    have hfuel : content.length < 0 + (content.length + 1) := by omega
    obtain ⟨anysect, hscan⟩ := scanLoop_none key act hparsed
      (b := ⟨content ++ slack, content.length, 0, 0, 0, 0, false, false, false, none⟩) hat hlen rfl
      hnone hfuel
    exact ⟨_, hscan, rfl, rfl, rfl⟩

/-- A header has two characters at least. -/
theorem isHeaderLine.two_le {s : List U8} {l : Line} (h : isHeaderLine s l = true) :
    2 ≤ l.body.length := by
  obtain ⟨-, hsect⟩ := Bool.and_eq_true_iff.mp h
  rw [isHeaderOf, Bool.and_eq_true, beq_iff_eq] at hsect
  obtain ⟨hlt, -⟩ := List.getElem?_eq_some_iff.mp hsect.2
  rw [List.length_tail] at hlt
  omega

/-- **There is such a section**, and the scan comes to its lines. -/
theorem scanFile_some (key : Option CString) (act : Action) (hslack : HoldsAt slack 0 [LF])
    (hsect : hasSection (sect.map Subtype.val) content = true) :
    ∃ pre sec tail b fuel, Entered sect key act content slack pre sec tail b fuel := by
  obtain ⟨tail, htext, hparsed⟩ := linesOf_parsed content
  have hlen : content.length = 0 + (linesText (linesOf content) ++ tail).length := by
    rw [← htext, Nat.zero_add]
  cases sect with
  | none =>
    have hne : content.length ≠ 0 := by simpa [hasSection] using hsect
    refine ⟨[], linesOf content, tail,
      ⟨content ++ slack, content.length, 0, 0, 0, 0, false, false, true, none⟩, content.length + 1,
      rfl, rfl, hparsed, htext, ?_, ?_, ⟨?_, rfl, hlen⟩, rfl, rfl, rfl, .inr rfl⟩
    · rw [scanFile, decide_eq_true ⟨rfl, hne⟩]
    · dsimp only
      omega
    · dsimp only
      rw [← htext]
      rfl
  | some s =>
    obtain ⟨l, hl, hheader⟩ := List.any_eq_true.mp hsect
    rcases divided_or s.1 (linesOf content) with hnone | ⟨pre, h, sec, hdiv⟩
    · exact absurd hheader (by rw [hnone l hl]; exact Bool.false_ne_true)
    · have hfuel : content.length < 0 + (content.length + 1) := by omega
      obtain ⟨fuel, hscan, hfuel⟩ := scanLoop_some key act hdiv hparsed
        (b := ⟨content ++ slack, content.length, 0, 0, 0, 0, false, false, false, none⟩)
        (holdsAt_content hslack htext) hlen rfl hfuel
      have hlines : linesOf content = (pre ++ [h]) ++ sec := by
        rw [hdiv.lines, List.append_assoc]
        rfl
      have hsplit : content = linesText (pre ++ [h]) ++ (linesText sec ++ tail) := by
        rw [← List.append_assoc, ← linesText_append, ← hlines]
        exact htext
      have hdrop : (linesOf content).dropWhile (!isHeaderLine s.1 ·) = h :: sec := by
        rw [hdiv.lines, List.dropWhile_append_of_pos fun l hl ↦ by rw [hdiv.pre l hl]; rfl,
          List.dropWhile_cons_of_neg (by rw [hdiv.header]; exact Bool.false_ne_true)]
      have hbody := isHeaderLine.two_le hdiv.header
      refine ⟨pre ++ [h], sec, tail, ⟨content ++ slack, content.length,
        0 + (linesText (pre ++ [h])).length,
        0 + (linesText pre).length + h.lead.length - h.lead.countP isBlank, 0, 0, true, false, true,
        none⟩, fuel, hlines, ?_, ?_, hsplit, ?_, hfuel, ⟨?_, ?_, ?_⟩, rfl, rfl, rfl, .inl ?_⟩
      · rw [Option.map_some, Ini.sectionLines, hdrop, List.tail_cons]
      · rw [hlines] at hparsed
        exact hparsed.of_append
      · rw [scanFile, decide_eq_false fun h ↦ by cases h.1]
        exact hscan
      · dsimp only
        rw [← hsplit]
      · exact Nat.zero_add _
      · dsimp only
        rw [← List.length_append, ← hsplit]
      · dsimp only
        rw [linesText_append, List.length_append, linesText_cons, linesText_nil, List.append_nil,
          Line.text, List.length_append, List.length_append]
        omega

end Enter

/-! ## Whole writes -/

section Write

variable {sect : Option CString} {key value : CString} {content slack : List U8}

/-- The block is written out. -/
theorem editBlock_of_afterScan {b : Block} {text rest : List U8} {success : ℕ}
    {file : Option (List U8)} {key value : Option CString}
    (hscan : scanFile sect key (replaceLine key value) (content ++ slack) content.length = some b)
    (hafter : afterScan b sect key value = some (some (text ++ rest, text.length), success)) :
    editBlock (content ++ slack) content.length file sect key value
      = (finishFile (text ++ rest) text.length).map fun content ↦
          (if content = [] then success else 1, some content) := by
  rw [editBlock, hscan]
  simp only [Option.bind_eq_bind, Option.bind_some, hafter]
  cases finishFile (text ++ rest) text.length <;> rfl

theorem finishFile_of_ne_nil {text rest : List U8} (h : rest ≠ []) :
    finishFile (text ++ rest) text.length = some (finished text) := by
  refine finishFile_of_lt ((List.rdropWhile_prefix _ _).length_le.trans_lt ?_)
  rw [List.length_append]
  exact Nat.lt_add_of_pos_right (List.length_pos_iff.mpr h)

theorem editBlock_ne_none {b : Block} {text rest : List U8} {success : ℕ}
    {file : Option (List U8)} {key value : Option CString}
    (hscan : scanFile sect key (replaceLine key value) (content ++ slack) content.length = some b)
    (hafter : afterScan b sect key value = some (some (text ++ rest, text.length), success))
    (hne : rest ≠ []) :
    editBlock (content ++ slack) content.length file sect key value ≠ none := by
  rw [editBlock_of_afterScan hscan hafter, finishFile_of_ne_nil hne]
  exact Option.some_ne_none _

theorem equals_mem_entryText (key value : List U8) : EQUALS ∈ entryText key value :=
  List.mem_append_right _ List.mem_cons_self

/-- **The section is new.** -/
theorem editBlock_section (file : Option (List U8)) (hslack : HoldsAt slack 0 [LF])
    (hroom : ((sect.map Subtype.val).getD []).length + key.1.length + value.1.length + 9
      < slack.length)
    (hsect : hasSection (sect.map Subtype.val) content = false) :
    editBlock (content ++ slack) content.length file sect (some key) (some value)
      = some (1, some (finished (withSection content sect key.1 value.1))) := by
  obtain ⟨b, hscan, hdata, hfilelen, hfound⟩ := scanFile_none (some key)
    (replaceLine (some key) (some value)) hslack hsect
  obtain ⟨rest, hadd, hrest⟩ := addSection_spec content sect hroom
  have hafter : afterScan b sect (some key) (some value)
      = some (some (withSection content sect key.1 value.1 ++ rest,
        (withSection content sect key.1 value.1).length), 0) := by
    rw [afterScan.eq_def, hfound]
    dsimp only
    rw [hdata, hfilelen, hadd]
    rfl
  have hmem : EQUALS ∈ withSection content sect key.1 value.1 :=
    List.mem_append_right _ (List.mem_append_right _ (equals_mem_entryText key.1 value.1))
  rw [editBlock_of_afterScan hscan hafter, finishFile_of_ne_nil hrest, Option.map_some,
    if_neg (finished_ne_nil hmem (by decide))]

variable {pre sec : List Line} {tail : List U8} {b : Block} {fuel : ℕ}

/-- The scan of the section, for a write. -/
theorem Entered.outcome {key value : Option CString}
    (h : Entered sect key (replaceLine key value) content slack pre sec tail b fuel)
    (hne : slack ≠ []) :
    Outcome key b (linesText pre) sec
      (scanFile sect key (replaceLine key value) (content ++ slack) content.length)
      (editLines key value slack.length sec tail) := by
  rw [h.scan]
  exact scanLoop_edit h.parsed h.block h.foundsect h.fuel fun _ ↦ hne

/-- What is held from the beginning is in front of the rest. -/
theorem Edited.data_eq {key : Option CString} {b b' : Block} {front text : List U8}
    {ls : List Line} (h : Edited key b b' front ls text) :
    ∃ rest, b'.data = front ++ text ++ rest ∧ b'.filelen = (front ++ text).length
      ∧ (front ++ text).length + rest.length = b.data.length := by
  obtain ⟨rest, hrest⟩ := h.holds
  rw [List.drop_zero] at hrest
  refine ⟨rest, hrest.symm, h.filelen, ?_⟩
  rw [← List.length_append, hrest, h.length]

/-- Where an entry is put: in front of the next header, or at the end of the file. -/
def entryPlace (pre sec : List Line) : ℕ := (sectionEnd sec).elim 0 ((linesText pre).length + ·)

/-- **The entry is new.** -/
theorem editBlock_entry (file : Option (List U8))
    (h : Entered sect (some key) (replaceLine (some key) (some value)) content slack pre sec tail b
      fuel)
    (hroom : key.1.length + value.1.length + 5 < slack.length)
    (hsame : editLines (some key) (some value) slack.length sec tail
      = some (linesText sec ++ tail))
    (hany : anyWanted (some key) sec = false) :
    editBlock (content ++ slack) content.length file sect (some key) (some value)
      = some (1, some (finished (withEntry content (if entryPlace pre sec = 0 then content.length
        else entryPlace pre sec) key.1 value.1))) := by
  have hout := h.outcome (List.ne_nil_of_length_pos (Nat.zero_lt_of_lt hroom))
  rw [hsame] at hout
  obtain ⟨b', hscan, hedited⟩ := hout
  obtain ⟨hdata, hend⟩ := hedited.same hany
  have hdata' : b'.data = content ++ slack := by rw [hdata, h.block.data, ← h.text]
  have hfilelen : b'.filelen = content.length := by rw [hedited.filelen, ← h.text]
  have hplace : b'.sectoffend = entryPlace pre sec := by
    rw [hend, h.sectoffend, h.block.offset, entryPlace]
  have hle : entryPlace pre sec ≤ content.length := by
    rw [← hplace, ← hfilelen]
    rcases hedited.sectoffend with h0 | ⟨-, hle⟩
    · rw [h0, h.sectoffend]
      exact Nat.zero_le _
    · exact hle
  obtain ⟨text, rest, hadd, htext, hrest⟩ := addEntry_spec key.1 value.1 hle hroom
  have hafter : afterScan b' sect (some key) (some value)
      = some (some (text ++ rest, text.length), 0) := by
    rw [afterScan.eq_def, hedited.foundsect]
    dsimp only
    rw [hedited.changed, hany, h.changed, hdata', hfilelen, hplace, if_neg (by simp), hadd]
    rfl
  have hmem : EQUALS ∈ withEntry content (if entryPlace pre sec = 0 then content.length
      else entryPlace pre sec) key.1 value.1 := by
    rw [withEntry]
    exact List.mem_append_left _ (List.mem_append_right _ (List.mem_cons_of_mem _
      (List.mem_append_left _ (equals_mem_entryText key.1 value.1))))
  rw [editBlock_of_afterScan hscan hafter, finishFile_of_ne_nil hrest, Option.map_some, htext,
    if_neg (finished_ne_nil hmem (by decide))]

/-- **The lines are replaced.** What is left to do is the end of the file. -/
theorem editBlock_replaced (file : Option (List U8))
    (h : Entered sect (some key) (replaceLine (some key) (some value)) content slack pre sec tail b
      fuel)
    (hne : slack ≠ []) {text : List U8}
    (hedit : editLines (some key) (some value) slack.length sec tail = some text)
    (hany : anyWanted (some key) sec = true) :
    ∃ rest, (linesText pre ++ text).length + rest.length = content.length + slack.length
      ∧ editBlock (content ++ slack) content.length file sect (some key) (some value)
        = (finishFile (linesText pre ++ text ++ rest) (linesText pre ++ text).length).map
          fun content ↦ (if content = [] then 0 else 1, some content) := by
  have hout := h.outcome hne
  rw [hedit] at hout
  obtain ⟨b', hscan, hedited⟩ := hout
  obtain ⟨rest, hdata, hfilelen, hlen⟩ := hedited.data_eq
  refine ⟨rest, ?_, editBlock_of_afterScan hscan ?_⟩
  · rw [hlen, h.block.data, ← h.text, List.length_append]
  · rw [afterScan.eq_def, hedited.foundsect]
    dsimp only
    rw [hedited.changed, hany, Bool.or_true, hdata, hfilelen, if_pos rfl]

/-- The block is left. -/
theorem editBlock_outside (file : Option (List U8))
    (h : Entered sect (some key) (replaceLine (some key) (some value)) content slack pre sec tail b
      fuel)
    (hne : slack ≠ [])
    (hedit : editLines (some key) (some value) slack.length sec tail = none) :
    editBlock (content ++ slack) content.length file sect (some key) (some value) = none := by
  have hout := h.outcome hne
  rw [hedit] at hout
  rw [editBlock, show scanFile sect (some key) (replaceLine (some key) (some value))
    (content ++ slack) content.length = none from hout]
  rfl

/-- **What is deleted** never takes more room. -/
theorem editBlock_delete (file : Option (List U8)) {key value : Option CString}
    (hslack : HoldsAt slack 0 [LF]) (hroom : 2 < slack.length)
    (hdelete : key = none ∨ value = none) :
    editBlock (content ++ slack) content.length file sect key value ≠ none := by
  cases hsect : hasSection (sect.map Subtype.val) content with
  | false =>
    obtain ⟨b, hscan, -, -, hfound⟩ := scanFile_none key (replaceLine key value) hslack hsect
    have hafter : ∃ success, afterScan b sect key value = some (none, success) := by
      rw [afterScan.eq_def, hfound]
      rcases hdelete with rfl | rfl
      · exact ⟨1, rfl⟩
      · cases key with
        | none => exact ⟨1, rfl⟩
        | some key => exact ⟨0, rfl⟩
    obtain ⟨success, hafter⟩ := hafter
    rw [editBlock, hscan, Option.bind_eq_bind, Option.bind_some, hafter]
    exact Option.some_ne_none _
  | true =>
    obtain ⟨pre, sec, tail, b, fuel, h⟩ := scanFile_some key (replaceLine key value) hslack
      hsect
    have hout := h.outcome (List.ne_nil_of_length_pos (Nat.zero_lt_of_lt hroom))
    have htext : ∃ text, editLines key value slack.length sec tail = some text
        ∧ text.length ≤ (linesText sec ++ tail).length := by
      rcases hdelete with rfl | rfl
      · exact ⟨_, editLines_of_not tail (by simp [anyWanted, wanted]) _, le_rfl⟩
      · exact editLines_delete h.parsed _
    obtain ⟨text, htext, hle⟩ := htext
    rw [htext] at hout
    obtain ⟨b', hscan, hedited⟩ := hout
    obtain ⟨rest, hdata, hfilelen, hlen⟩ := hedited.data_eq
    have hdeleted : ∃ text' rest', deleteSection (linesText pre ++ text ++ rest)
        (linesText pre ++ text).length b'.sectoff b'.sectoffend
          = some (text' ++ rest', text'.length)
        ∧ rest' ≠ [] := by
      have hsectoff := h.sectoff
      rw [← hedited.sectoff] at hsectoff
      have hsectoffend := hedited.sectoffend
      rw [h.sectoffend, hfilelen] at hsectoffend
      have hdatalen := h.block.length
      rw [List.length_append] at hlen hsectoffend
      have hoff : b'.sectoff ≤ (linesText pre ++ text).length := by
        rw [List.length_append]
        omega
      have hend : b'.sectoffend ≤ (linesText pre ++ text).length := by
        rw [List.length_append]
        omega
      obtain ⟨rest', hspec, hrest'⟩ := deleteSection_spec hoff hend (by omega)
        (show 2 < rest.length by omega)
      exact ⟨_, rest', hspec, hrest'⟩
    obtain ⟨text', rest', hdeleted, hrest'⟩ := hdeleted
    have hrest : rest ≠ [] := by
      have hdatalen := h.block.length
      rw [List.length_append] at hlen
      exact List.ne_nil_of_length_pos (by omega)
    cases key with
    | none =>
      have hafter : afterScan b' sect none value
          = some (some (text' ++ rest', text'.length), 0) := by
        rw [afterScan.eq_def, hedited.foundsect]
        dsimp only
        rw [hdata, hfilelen, hdeleted]
        rfl
      exact editBlock_ne_none hscan hafter hrest'
    | some key =>
      obtain rfl : value = none := hdelete.resolve_left (Option.some_ne_none key)
      by_cases hrecs : b'.foundrecs = 0
      · have hafter : afterScan b' sect (some key) none
            = some (some (text' ++ rest', text'.length), 0) := by
          rw [afterScan.eq_def, hedited.foundsect]
          dsimp only
          rw [if_pos hrecs, hdata, hfilelen, hdeleted]
          rfl
        exact editBlock_ne_none hscan hafter hrest'
      · cases hchanged : b'.changed with
        | true =>
          have hafter : afterScan b' sect (some key) none
              = some (some (linesText pre ++ text ++ rest, (linesText pre ++ text).length), 1) := by
            rw [afterScan.eq_def, hedited.foundsect]
            dsimp only
            rw [if_neg hrecs, hchanged, if_pos rfl, hdata, hfilelen]
          exact editBlock_ne_none hscan hafter hrest
        | false =>
          have hafter : afterScan b' sect (some key) none = some (none, 1) := by
            rw [afterScan.eq_def, hedited.foundsect]
            dsimp only
            rw [if_neg hrecs, hchanged, if_neg Bool.false_ne_true]
          rw [editBlock, hscan, Option.bind_eq_bind, Option.bind_some, hafter]
          exact Option.some_ne_none _

end Write

end Hyunjin.Ini
