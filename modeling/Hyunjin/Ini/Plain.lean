import Hyunjin.Ini.Items
import Hyunjin.Ini.Room

/-!
# Plain files

A plain file consists of plain lines, with newlines behind each. It comes apart into its lines in
one way only. What a write of an entry makes of it is a plain file again: the lines are the old
ones, with the new one at its place, and only the newlines behind the lines change.
-/

namespace Hyunjin.Ini

open Memory

/-! ## The lines of a text -/

theorem takeLine_append {l : Line} {rest : List U8} (hok : l.Ok) (hends : l.EndsAt rest) :
    takeLine (l.text ++ rest) = (l, rest) := by
  obtain ⟨c, cs, hbody, hblank⟩ := hok.head
  have hspace : isSpace c = false := by
    refine isSpace_eq_false.mpr ⟨hok.body c ?_, hblank⟩
    rw [hbody]
    exact List.mem_cons_self
  have hhead : ∀ d ∈ (l.body ++ (l.eol ++ rest)).head?, isSpace d = false := by
    rw [hbody]
    intro d hd
    rw [← Option.some.inj hd]
    exact hspace
  have hbodies : ∀ d ∈ l.body, (!isEol d) = true := by
    intro d hd
    rw [hok.body d hd]
    rfl
  -- behind the body is a line end, or nothing
  have hbehind : ∀ d ∈ (l.eol ++ rest).head?, (!isEol d) = false := by
    cases heol : l.eol with
    | nil =>
      rw [hends.eol heol]
      intro d hd
      exact absurd hd.symm (Option.some_ne_none d)
    | cons e es =>
      intro d hd
      rw [← Option.some.inj hd, hok.eol e (by rw [heol]; exact List.mem_cons_self)]
      rfl
  have htext : l.text ++ rest = l.lead ++ (l.body ++ (l.eol ++ rest)) := by
    rw [Line.text, List.append_assoc, List.append_assoc]
  rw [takeLine, htext, List.takeWhile_append_of_pos hok.lead, takeWhile_of_head hhead,
    List.append_nil, List.dropWhile_append_of_pos hok.lead, dropWhile_of_head hhead,
    List.takeWhile_append_of_pos hbodies, takeWhile_of_head hbehind, List.append_nil,
    List.dropWhile_append_of_pos hbodies, dropWhile_of_head hbehind,
    List.takeWhile_append_of_pos hok.eol, takeWhile_of_head hends.head, List.append_nil,
    List.dropWhile_append_of_pos hok.eol, dropWhile_of_head hends.head]

/-- A text without a line is all spaces. -/
theorem linesLoop_of_spaces {tail : List U8} (htail : ∀ c ∈ tail, isSpace c = true) (n : ℕ) :
    linesLoop n tail = [] := by
  cases n with
  | zero => rfl
  | succ n =>
    have hbody : (takeLine tail).1.body = [] := by
      rw [takeLine]
      dsimp only
      rw [List.dropWhile_eq_nil_iff.mpr htail, List.takeWhile_nil]
    rw [linesLoop]
    dsimp only
    rw [if_pos hbody]

theorem linesLoop_of_parsed {ls : List Line} {tail : List U8} (h : Parsed ls tail) {n : ℕ}
    (hn : (linesText ls).length ≤ n) : linesLoop n (linesText ls ++ tail) = ls := by
  induction h generalizing n with
  | done htail => exact linesLoop_of_spaces htail n
  | @line l ls tail hok hends _ ih =>
    rw [linesText_cons, List.length_append] at hn
    have hpos := hok.length_text_pos
    obtain ⟨n, rfl⟩ := Nat.exists_eq_add_of_le' (show 1 ≤ n by omega)
    rw [linesLoop, linesText_cons, List.append_assoc, takeLine_append hok hends]
    dsimp only
    rw [if_neg hok.body_ne, ih (by omega)]

/-- **A text comes apart** in one way only. -/
theorem linesOf_of_parsed {ls : List Line} {tail : List U8} (h : Parsed ls tail) :
    linesOf (linesText ls ++ tail) = ls := by
  refine linesLoop_of_parsed h ?_
  rw [List.length_append]
  exact Nat.le_add_right _ _

/-! ## Plain files -/

/-- A plain line in a file, and how many blank lines are behind it. -/
structure PlainLine where
  item : Item
  gap : ℕ

def PlainLine.line (w : PlainLine) : Line := ⟨[], w.item.body, List.replicate (w.gap + 1) LF⟩

/-- The text of a plain file. -/
def fileText (ws : List PlainLine) : List U8 := linesText (ws.map PlainLine.line)

@[simp] theorem fileText_nil : fileText [] = [] := rfl

theorem fileText_append (ws ws' : List PlainLine) :
    fileText (ws ++ ws') = fileText ws ++ fileText ws' := by
  rw [fileText, List.map_append, linesText_append, fileText, fileText]

theorem PlainLine.text_line (w : PlainLine) :
    w.line.text = w.item.body ++ List.replicate (w.gap + 1) LF := rfl

theorem fileText_cons (w : PlainLine) (ws : List PlainLine) :
    fileText (w :: ws) = w.item.body ++ List.replicate (w.gap + 1) LF ++ fileText ws := by
  rw [fileText, List.map_cons, linesText_cons, w.text_line, fileText]

theorem fileText_concat (ws : List PlainLine) (w : PlainLine) :
    fileText (ws ++ [w]) = fileText ws ++ w.item.body ++ List.replicate (w.gap + 1) LF := by
  rw [fileText_append, fileText_cons, fileText_nil, List.append_nil, List.append_assoc]

theorem PlainLine.line_ok (w : PlainLine) : w.line.Ok := by
  refine ⟨List.forall_mem_nil _, w.item.head_body, ?_, ?_⟩
  · intro c hc
    exact isEol_of_not_cntrl (w.item.cntrl_body c hc)
  · intro c hc
    rw [List.eq_of_mem_replicate hc]
    decide

theorem head_fileText {ws : List PlainLine} : ∀ c ∈ (fileText ws).head?, isEol c = false := by
  intro c hc
  cases ws with
  | nil => exact absurd hc.symm (Option.some_ne_none c)
  | cons w ws =>
    obtain ⟨d, ds, hbody, -⟩ := w.item.head_body
    rw [fileText_cons, hbody] at hc
    rw [← Option.some.inj hc]
    refine isEol_of_not_cntrl (w.item.cntrl_body d ?_)
    rw [hbody]
    exact List.mem_cons_self

theorem parsed_plain (ws : List PlainLine) : Parsed (ws.map PlainLine.line) [] := by
  induction ws with
  | nil => exact .done (List.forall_mem_nil _)
  | cons w ws ih =>
    refine .line w.line_ok ⟨?_, fun heol ↦ ?_⟩ ih
    · rw [List.append_nil]
      exact head_fileText
    · exact absurd heol (List.cons_ne_nil _ _)

/-- **The lines of a plain file.** -/
theorem linesOf_fileText (ws : List PlainLine) : linesOf (fileText ws) = ws.map PlainLine.line := by
  have hlines := linesOf_of_parsed (parsed_plain ws)
  rwa [List.append_nil] at hlines

theorem bodiesOf_fileText (ws : List PlainLine) :
    bodiesOf (fileText ws) = (ws.map PlainLine.item).map Item.body := by
  rw [bodiesOf, linesOf_fileText, List.map_map, List.map_map]
  rfl

/-! ## The end of a plain file -/

/-- The file may be finished behind its last line. -/
theorem finished_concat (ws : List PlainLine) (item : Item) {more : List U8}
    (hmore : ∀ c ∈ more, isTrivial c = true) :
    finished (fileText ws ++ item.body ++ more) = fileText (ws ++ [⟨item, 0⟩]) := by
  obtain ⟨cs, c, hbody, hc⟩ := item.last_body
  have hstrip : (fileText ws ++ item.body).rdropWhile isTrivial = fileText ws ++ item.body := by
    rw [hbody, ← List.append_assoc]
    exact List.rdropWhile_concat_neg _ _ _ (by rw [hc]; exact Bool.false_ne_true)
  obtain ⟨d, ds, hcons⟩ : ∃ d ds, fileText ws ++ item.body = d :: ds := by
    refine List.exists_cons_of_ne_nil ?_
    rw [hbody, ← List.append_assoc]
    exact List.concat_ne_nil _ _
  rw [finished_append hmore, finished, hstrip, hcons]
  dsimp only
  rw [← hcons, fileText_concat]
  rfl

/-- **A plain file that is finished** has the same lines. -/
theorem finished_fileText (ws : List PlainLine) {more : List U8}
    (hmore : ∀ c ∈ more, isTrivial c = true) :
    ∃ ws', ws'.map PlainLine.item = ws.map PlainLine.item
      ∧ finished (fileText ws ++ more) = fileText ws' := by
  rcases List.eq_nil_or_concat' ws with rfl | ⟨ws, w, rfl⟩
  · refine ⟨[], rfl, ?_⟩
    rw [finished_append hmore]
    rfl
  · refine ⟨ws ++ [⟨w.item, 0⟩], ?_, ?_⟩
    · rw [List.map_append, List.map_append]
      rfl
    · rw [fileText_concat, List.append_assoc, finished_concat]
      intro c hc
      rcases List.mem_append.mp hc with hc | hc
      · rw [List.eq_of_mem_replicate hc]
        decide
      · exact hmore c hc

/-- The last newline makes no difference. -/
theorem finished_dropLast (front ws : List PlainLine) (hne : ws ≠ []) :
    ∃ ws', ws'.map PlainLine.item = (front ++ ws).map PlainLine.item
      ∧ finished (fileText front ++ (fileText ws).dropLast) = fileText ws' := by
  obtain ⟨ws, w, rfl⟩ := (List.eq_nil_or_concat' ws).resolve_left hne
  have hdrop : (fileText (ws ++ [w])).dropLast
      = fileText ws ++ w.item.body ++ List.replicate w.gap LF := by
    rw [fileText_concat, List.replicate_succ', ← List.append_assoc, List.dropLast_concat]
  refine ⟨front ++ ws ++ [⟨w.item, 0⟩], ?_, ?_⟩
  · simp only [List.map_append, List.append_assoc]
    rfl
  · rw [hdrop, ← List.append_assoc, ← List.append_assoc, ← fileText_append, finished_concat]
    intro c hc
    rw [List.eq_of_mem_replicate hc]
    decide

theorem rdropWhile_fileText (ws : List PlainLine) (w : PlainLine) :
    (fileText (ws ++ [w])).rdropWhile isSpace = fileText ws ++ w.item.body := by
  obtain ⟨cs, c, hbody, hc⟩ := w.item.last_body
  rw [fileText_concat, rdropWhile_append_of_pos, hbody, ← List.append_assoc]
  · refine List.rdropWhile_concat_neg _ _ _ ?_
    rw [isTrivial, Bool.or_eq_false_iff] at hc
    rw [hc.1]
    exact Bool.false_ne_true
  · intro d hd
    rw [List.eq_of_mem_replicate hd]
    decide

/-! ## What is added -/

/-- A section comes to the end of the file. -/
theorem withSection_fileText (ws : List PlainLine) (s : SectName) (k : KeyName) (v : Setting) :
    ∃ ws', ws'.map PlainLine.item = ws.map PlainLine.item ++ [.header s, .entry k v]
      ∧ withSection (fileText ws) (some s.cstring) k.text v.text = fileText ws' := by
  have hnew : headerText (some s.cstring) ++ entryText k.text v.text
      = fileText [⟨.header s, 0⟩, ⟨.entry k v, 0⟩] := by
    rw [entryText_eq, fileText_cons, fileText_cons, fileText_nil, List.append_nil]
    simp only [headerText, Item.body, SectName.cstring, List.cons_append, List.append_assoc]
    rfl
  rcases List.eq_nil_or_concat' ws with rfl | ⟨ws, w, rfl⟩
  · exact ⟨_, rfl, hnew⟩
  · refine ⟨ws ++ [⟨w.item, 1⟩] ++ [⟨.header s, 0⟩, ⟨.entry k v, 0⟩], ?_, ?_⟩
    · simp only [List.map_append]
      rfl
    · have hne : fileText ws ++ w.item.body ≠ [] :=
        List.append_ne_nil_of_right_ne_nil _ w.line_ok.body_ne
      rw [withSection, rdropWhile_fileText, gapBehind, if_pos (List.length_pos_iff.mpr hne),
        List.append_assoc [LF, LF], hnew, fileText_append, fileText_concat]
      simp only [List.append_assoc]
      rfl

/-- An entry comes behind what is in front of a place. -/
theorem withEntry_fileText (front : List PlainLine) (w : PlainLine) (behind : List PlainLine)
    (k : KeyName) (v : Setting) :
    ∃ ws', ws'.map PlainLine.item
        = (front ++ [w]).map PlainLine.item ++ .entry k v :: behind.map PlainLine.item
      ∧ withEntry (fileText (front ++ [w] ++ behind)) (fileText (front ++ [w])).length k.text v.text
        = fileText ws' := by
  refine ⟨front ++ [⟨w.item, 0⟩] ++ ⟨.entry k v, w.gap + 1⟩ :: behind, ?_, ?_⟩
  · simp only [List.map_append]
    rfl
  · have hdrop : (fileText (front ++ [w] ++ behind)).drop
        ((fileText front ++ w.item.body).length + 1)
        = List.replicate w.gap LF ++ fileText behind := by
      rw [fileText_append, fileText_concat, ← List.drop_drop, List.append_assoc _ _ (fileText _),
        List.drop_left, List.replicate_succ, List.cons_append, List.drop_one, List.tail_cons]
    have htake : (fileText (front ++ [w] ++ behind)).take (fileText (front ++ [w])).length
        = fileText (front ++ [w]) := by
      rw [fileText_append (front ++ [w]), List.take_left]
    rw [withEntry, htake, rdropWhile_fileText, hdrop, entryText_eq, fileText_append,
      fileText_concat, fileText_cons]
    simp only [List.append_assoc, List.cons_append, List.replicate_succ, List.replicate_zero,
      List.nil_append]

end Hyunjin.Ini
