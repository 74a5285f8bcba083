import Hyunjin.Ini.Plain

/-!
# Writes to a plain file

A section of a plain file is its header and the records up to the next header. If no two of them are
of one key, a write of an entry replaces one line, or adds one, and never leaves the block. A write
that deletes takes the line of the key out, and the section with it if nothing else is in it.
-/

namespace Hyunjin.Ini

open Memory

/-! ## The section -/

/-- The first header of the section, what is in front of it, the records behind it, and what comes
behind them. -/
structure Around (s : SectName) (ws front : List PlainLine) (h : PlainLine)
    (recs behind : List PlainLine) : Prop where
  lines : ws = front ++ [h] ++ (recs ++ behind)
  front : ∀ w ∈ front, isHeaderLine s.text w.line = false
  header : isHeaderLine s.text h.line = true
  recs : ∀ w ∈ recs, isHeader w.item.body = false
  behind : ∀ w ∈ behind.head?, isHeader w.item.body = true

section Enter

variable {s : SectName} {ws front recs behind : List PlainLine} {h : PlainLine} {slack : List U8}

theorem Around.divided (har : Around s ws front h recs behind) :
    Divided s.text (ws.map PlainLine.line) (front.map PlainLine.line) h.line
      ((recs ++ behind).map PlainLine.line) := by
  refine ⟨?_, ?_, har.header⟩
  · rw [har.lines, List.append_assoc, List.map_append, List.map_append]
    rfl
  · intro l hl
    obtain ⟨w, hw, rfl⟩ := List.mem_map.mp hl
    exact har.front w hw

/-- **The scan comes to the section.** -/
theorem Around.entered (har : Around s ws front h recs behind) (key : Option CString)
    (act : Action) (hslack : HoldsAt slack 0 [LF]) :
    ∃ b fuel, Entered (some s.cstring) key act (fileText ws) slack
        ((front ++ [h]).map PlainLine.line) ((recs ++ behind).map PlainLine.line) [] b fuel
      ∧ b.sectoff = (fileText front).length ∧ b.foundrecs = 0 := by
  have hparsed := parsed_plain ws
  have hat := holdsAt_content hslack (List.append_nil (fileText ws)).symm
  have hlen : (fileText ws).length = 0 + (fileText ws ++ []).length := by
    rw [List.append_nil, Nat.zero_add]
  have hfuel : (fileText ws).length < 0 + ((fileText ws).length + 1) := by
    rw [Nat.zero_add]
    exact Nat.lt_succ_self _
  obtain ⟨fuel, hscan, hfuel⟩ := scanLoop_some key act (s := s.cstring) har.divided hparsed
    (b := ⟨fileText ws ++ slack, (fileText ws).length, 0, 0, 0, 0, false, false, false, none⟩)
    hat hlen rfl hfuel
  have hlines : ws.map PlainLine.line
      = (front ++ [h]).map PlainLine.line ++ (recs ++ behind).map PlainLine.line := by
    rw [← List.map_append, har.lines]
  have hsplit : fileText ws = fileText (front ++ [h]) ++ (fileText (recs ++ behind) ++ []) := by
    rw [List.append_nil, ← fileText_append, har.lines]
  have hsectoff : 0 + (fileText front).length + h.line.lead.length - h.line.lead.countP isBlank
      = (fileText front).length := Nat.zero_add _
  have hbody := isHeaderLine.two_le har.header
  have hlength : (fileText (front ++ [h])).length
      = (fileText front).length + (h.item.body.length + (h.gap + 1)) := by
    rw [fileText_concat, List.append_assoc, List.length_append, List.length_append,
      List.length_replicate]
  refine ⟨⟨fileText ws ++ slack, (fileText ws).length,
    0 + (linesText (front.map PlainLine.line ++ [h.line])).length,
    0 + (fileText front).length + h.line.lead.length - h.line.lead.countP isBlank, 0, 0, true,
    false, true, none⟩, fuel, ⟨(linesOf_fileText ws).trans hlines, ?_, parsed_plain _, hsplit, ?_,
    hfuel, ⟨?_, ?_, ?_⟩, rfl, rfl, rfl, .inl ?_⟩, hsectoff, rfl⟩
  · have hdrop : (ws.map PlainLine.line).dropWhile (!isHeaderLine s.text ·)
        = h.line :: (recs ++ behind).map PlainLine.line := by
      rw [har.divided.lines, List.dropWhile_append_of_pos, List.dropWhile_cons_of_neg]
      · rw [har.header]
        exact Bool.false_ne_true
      · intro l hl
        rw [har.divided.pre l hl]
        rfl
    rw [linesOf_fileText, Option.map_some, Ini.sectionLines]
    exact congrArg List.tail hdrop
  · rw [scanFile, decide_eq_false fun hnone ↦ absurd hnone.1 (Option.some_ne_none _)]
    exact hscan
  · dsimp only
    rw [hsplit]
    rfl
  · rw [List.map_append]
    exact Nat.zero_add _
  · dsimp only
    rw [← List.length_append, hsplit]
    rfl
  · dsimp only
    have hbody' : 2 ≤ h.item.body.length := hbody
    rw [hsectoff, ← fileText, hlength]
    omega

end Enter

/-! ## An entry -/

section Put

variable {s : SectName} {k : KeyName} {v : Setting} {ws front recs behind : List PlainLine}
  {h : PlainLine} {slack : List U8}

/-- None of the lines is one of the key. -/
theorem anyWanted_plain {ws : List PlainLine}
    (h : ∀ w ∈ ws, isHeader w.item.body = false → isRecordOf k.text w.item.body = false)
    {behind : List PlainLine} (hbehind : ∀ w ∈ behind.head?, isHeader w.item.body = true) :
    anyWanted (some k.cstring) ((ws ++ behind).map PlainLine.line) = false := by
  induction ws with
  | nil =>
    cases behind with
    | nil => rfl
    | cons w behind => exact anyWanted_header (hbehind w rfl)
  | cons w ws ih =>
    rw [List.cons_append, List.map_cons]
    cases hhead : isHeader w.item.body with
    | true => exact anyWanted_header hhead
    | false =>
      have hrec : wanted (some k.cstring) w.line.body = false := h w List.mem_cons_self hhead
      rw [anyWanted_cons hhead, hrec, ih fun w' hw' ↦ h w' (List.mem_cons_of_mem w hw')]
      rfl

/-- How far it is to the end of the section. -/
theorem sectionEnd_plain {recs behind : List PlainLine}
    (hrecs : ∀ w ∈ recs, isHeader w.item.body = false)
    (hbehind : ∀ w ∈ behind.head?, isHeader w.item.body = true) :
    sectionEnd ((recs ++ behind).map PlainLine.line)
      = behind.head?.map fun _ ↦ (fileText recs).length := by
  induction recs with
  | nil =>
    cases behind with
    | nil => rfl
    | cons w behind =>
      rw [List.nil_append, List.map_cons, sectionEnd]
      exact if_pos (hbehind w rfl)
  | cons w recs ih =>
    have hhead : isHeader w.line.body = false := hrecs w List.mem_cons_self
    rw [List.cons_append, List.map_cons, sectionEnd, hhead, if_neg Bool.false_ne_true,
      ih fun w' hw' ↦ hrecs w' (List.mem_cons_of_mem w hw'), fileText_cons, List.length_append,
      ← w.text_line]
    cases behind.head? <;> rfl

/-- There is no such section. -/
theorem hasSection_plain (hnone : ∀ w ∈ ws, isHeaderLine s.text w.line = false) :
    hasSection (some s.text) (fileText ws) = false := by
  rw [hasSection, linesOf_fileText, List.any_eq_false]
  intro l hl
  obtain ⟨w, hw, rfl⟩ := List.mem_map.mp hl
  rw [hnone w hw]
  exact Bool.false_ne_true

/-- **The section is new.** -/
theorem put_section (file : Option (List U8)) (hslack : HoldsAt slack 0 [LF])
    (hroom : s.text.length + k.text.length + v.text.length + 9 < slack.length)
    (hnone : ∀ w ∈ ws, isHeaderLine s.text w.line = false) :
    ∃ ws', ws'.map PlainLine.item = ws.map PlainLine.item ++ [.header s, .entry k v]
      ∧ editBlock (fileText ws ++ slack) (fileText ws).length file (some s.cstring)
        (some k.cstring) (some v.cstring) = some (1, some (fileText ws')) := by
  obtain ⟨ws₁, hitems₁, htext₁⟩ := withSection_fileText ws s k v
  obtain ⟨ws₂, hitems₂, htext₂⟩ := finished_fileText ws₁ (List.forall_mem_nil _)
  refine ⟨ws₂, hitems₂.trans hitems₁, ?_⟩
  have hedit : editBlock (fileText ws ++ slack) (fileText ws).length file (some s.cstring)
      (some k.cstring) (some v.cstring)
        = some (1, some (finished (withSection (fileText ws) (some s.cstring) k.text v.text))) :=
    editBlock_section file hslack hroom (hasSection_plain hnone)
  rw [hedit]
  exact congrArg (fun text ↦ some (1, some text))
    ((congrArg finished (htext₁.trans (List.append_nil _).symm)).trans htext₂)

/-- **The entry is new.** -/
theorem put_entry (har : Around s ws front h recs behind) (file : Option (List U8))
    (hslack : HoldsAt slack 0 [LF]) (hroom : k.text.length + v.text.length + 5 < slack.length)
    (hnone : ∀ w ∈ recs, isRecordOf k.text w.item.body = false) :
    ∃ ws', ws'.map PlainLine.item
        = (front ++ [h] ++ recs).map PlainLine.item ++ .entry k v :: behind.map PlainLine.item
      ∧ editBlock (fileText ws ++ slack) (fileText ws).length file (some s.cstring)
        (some k.cstring) (some v.cstring) = some (1, some (fileText ws')) := by
  obtain ⟨b, fuel, hentered, -, -⟩ := har.entered (some k.cstring)
    (replaceLine (some k.cstring) (some v.cstring)) hslack
  have hany := anyWanted_plain (fun w hw _ ↦ hnone w hw) har.behind
  have hedit := editBlock_entry file hentered hroom (editLines_of_not [] hany _) hany
  -- the place is behind the records
  obtain ⟨front', w, hfront⟩ : ∃ front' w, front ++ [h] ++ recs = front' ++ [w] := by
    refine (List.eq_nil_or_concat' _).resolve_left ?_
    exact List.append_ne_nil_of_left_ne_nil (List.concat_ne_nil _ _) _
  have hplace : (if entryPlace ((front ++ [h]).map PlainLine.line)
        ((recs ++ behind).map PlainLine.line) = 0 then (fileText ws).length
      else entryPlace ((front ++ [h]).map PlainLine.line) ((recs ++ behind).map PlainLine.line))
      = (fileText (front' ++ [w])).length := by
    rw [entryPlace, sectionEnd_plain har.recs har.behind, ← hfront]
    cases hbehind : behind with
    | nil =>
      rw [har.lines, hbehind, List.append_nil]
      rfl
    | cons w' behind' =>
      have hpos : 0 < (fileText (front ++ [h])).length := by
        rw [fileText_concat]
        simp
      rw [List.head?_cons, Option.map_some, Option.elim_some, ← fileText,
        if_neg (Nat.add_pos_left hpos _).ne', fileText_append _ recs, List.length_append]
  obtain ⟨ws₁, hitems₁, htext₁⟩ := withEntry_fileText front' w behind k v
  obtain ⟨ws₂, hitems₂, htext₂⟩ := finished_fileText ws₁ (List.forall_mem_nil _)
  refine ⟨ws₂, ?_, ?_⟩
  · rw [hitems₂, hitems₁, hfront]
  · have hws : ws = front' ++ [w] ++ behind := by rw [har.lines, ← List.append_assoc, hfront]
    rw [hedit, hplace]
    refine congrArg (fun text ↦ some (1, some text)) ?_
    rw [hws]
    exact (congrArg finished (htext₁.trans (List.append_nil _).symm)).trans htext₂

/-- What is in front of a line of the key is left as it is. -/
theorem editLines_front {key value : Option CString} {front : List PlainLine}
    (hhead : ∀ w ∈ front, isHeader w.item.body = false)
    (hkey : ∀ w ∈ front, wanted key w.item.body = false) (spare : ℕ) (ls : List Line)
    (tail : List U8) :
    editLines key value spare (front.map PlainLine.line ++ ls) tail
      = (editLines key value spare ls tail).map (fileText front ++ ·) := by
  induction front with
  | nil =>
    rw [List.map_nil, List.nil_append, fileText_nil]
    exact Option.map_id'.symm
  | cons w front ih =>
    have hw : isHeader w.line.body = false := hhead w List.mem_cons_self
    have hw' : wanted key w.line.body = false := hkey w List.mem_cons_self
    rw [List.map_cons, List.cons_append, editLines, hw, if_neg Bool.false_ne_true, hw',
      if_neg Bool.false_ne_true, ih (fun x hx ↦ hhead x (List.mem_cons_of_mem w hx))
        fun x hx ↦ hkey x (List.mem_cons_of_mem w hx), Option.map_map, fileText_cons,
      ← w.text_line]
    simp only [Function.comp_def, List.append_assoc]

/-- **One line is replaced**, and what follows is moved behind it. -/
theorem editLines_over {before after behind : List PlainLine} {w : PlainLine}
    (hhead : ∀ x ∈ before ++ w :: after, isHeader x.item.body = false)
    (hbehind : ∀ x ∈ behind.head?, isHeader x.item.body = true)
    (hother : ∀ x ∈ before ++ after, isRecordOf k.text x.item.body = false)
    (hsame : isRecordOf k.text w.item.body = true) {n : KeyName} {u : Setting}
    (hw : w.item = .entry n u) {spare : ℕ} (hroom : k.text.length + v.text.length + 5 < spare) :
    editLines (some k.cstring) (some v.cstring) spare
        ((before ++ w :: after ++ behind).map PlainLine.line) []
      = some (fileText (before ++ [⟨.entry k v, 0⟩])
        ++ behindNew (fileText (after ++ behind))) := by
  have hnew : w.line.renewed k.text v.text = (Item.entry k v).body ++ [LF] := by
    have hfolded : folded k.text = folded n.text := by
      rw [hw, isRecordOf_entry] at hsame
      exact of_decide_eq_true hsame
    have hkey : keyText w.line.body = n.text := by
      rw [PlainLine.line, hw, keyText_entry]
    rw [Line.renewed, hkey, ← length_of_folded hfolded, List.take_length, entryText_eq]
  have hfits : (w.line.renewed k.text v.text).length
      + (opens (linesText ((after ++ behind).map PlainLine.line) ++ [])).toNat
        ≤ spare + w.line.old := by
    have hlen := length_entryText_le k.text v.text
    have hopens := (opens (linesText ((after ++ behind).map PlainLine.line) ++ [])).toNat_le
    rw [entryText_eq, ← hnew] at hlen
    omega
  have hwhead : isHeader w.line.body = false :=
    hhead w (List.mem_append_right _ List.mem_cons_self)
  have hwanted : wanted (some k.cstring) w.line.body = true := hsame
  have hany : anyWanted (some k.cstring) ((after ++ behind).map PlainLine.line) = false :=
    anyWanted_plain (fun x hx _ ↦ hother x (List.mem_append_right _ hx)) hbehind
  have hrest : editLines (some k.cstring) (some v.cstring)
      (spare + w.line.old - (w.line.renewed k.text v.text).length)
      ((after ++ behind).map PlainLine.line) [] = some (fileText (after ++ behind)) := by
    rw [editLines_of_not [] hany, List.append_nil]
    rfl
  have hbefore : ∀ x ∈ before, wanted (some k.cstring) x.item.body = false := by
    intro x hx
    exact hother x (List.mem_append_left _ hx)
  rw [List.append_assoc, List.map_append,
    editLines_front (fun x hx ↦ hhead x (List.mem_append_left _ hx)) hbefore, List.cons_append,
    List.map_cons, editLines, hwhead, if_neg Bool.false_ne_true, hwanted,
    if_pos rfl]
  refine (congrArg (Option.map (fileText before ++ ·)) (if_pos hfits)).trans ?_
  dsimp only [Option.map_some, Option.getD_some, KeyName.val_cstring, Setting.val_cstring]
  rw [hrest, List.append_nil, ← fileText, behindNew]
  have hkept : w.line.kept = [] := rfl
  rw [hkept, hnew, fileText_concat]
  split_ifs <;> simp only [Option.map_some, List.nil_append, List.append_assoc] <;> rfl

/-- A blank line is put in front of the next header, and the last newline is lost. -/
theorem finished_behindNew (front ws : List PlainLine) (item : Item) :
    ∃ ws', ws'.map PlainLine.item = front.map PlainLine.item ++ item :: ws.map PlainLine.item
      ∧ finished (fileText (front ++ [⟨item, 0⟩]) ++ behindNew (fileText ws)) = fileText ws' := by
  rw [behindNew]
  split_ifs with hopen
  · have hne : ws ≠ [] := by
      rintro rfl
      exact absurd hopen (by decide)
    obtain ⟨ws', hitems, htext⟩ := finished_dropLast (front ++ [⟨item, 1⟩]) ws hne
    refine ⟨ws', ?_, ?_⟩
    · rw [hitems]
      simp
    · rw [← htext, fileText_concat, fileText_concat]
      simp only [List.append_assoc, List.replicate_succ, List.replicate_zero, List.cons_append,
        List.nil_append]
  · obtain ⟨ws', hitems, htext⟩ := finished_fileText (front ++ [⟨item, 0⟩] ++ ws)
      (List.forall_mem_nil _)
    refine ⟨ws', ?_, ?_⟩
    · rw [hitems]
      simp
    · rw [← htext, List.append_nil, fileText_append (front ++ _)]

/-- **The entry is there**, on one line only. -/
theorem put_over {before after : List PlainLine} {w : PlainLine}
    (har : Around s ws front h (before ++ w :: after) behind) (file : Option (List U8))
    (hslack : HoldsAt slack 0 [LF]) (hroom : k.text.length + v.text.length + 5 < slack.length)
    (hother : ∀ x ∈ before ++ after, isRecordOf k.text x.item.body = false)
    (hsame : isRecordOf k.text w.item.body = true) {n : KeyName} {u : Setting}
    (hw : w.item = .entry n u) :
    ∃ ws', ws'.map PlainLine.item = (front ++ [h] ++ before).map PlainLine.item
          ++ .entry k v :: (after ++ behind).map PlainLine.item
      ∧ editBlock (fileText ws ++ slack) (fileText ws).length file (some s.cstring)
        (some k.cstring) (some v.cstring) = some (1, some (fileText ws')) := by
  obtain ⟨b, fuel, hentered, -, -⟩ := har.entered (some k.cstring)
    (replaceLine (some k.cstring) (some v.cstring)) hslack
  have hne : slack ≠ [] := List.ne_nil_of_length_pos (Nat.zero_lt_of_lt hroom)
  have hedit := editLines_over har.recs har.behind hother hsame hw hroom
  have hany : anyWanted (some k.cstring) ((before ++ w :: after ++ behind).map PlainLine.line)
      = true := by
    have hbodies : (((before ++ w :: after ++ behind).map PlainLine.line).map Line.body).takeWhile
        (!isHeader ·) = ((before ++ w :: after).map PlainLine.line).map Line.body
          ++ ((behind.map PlainLine.line).map Line.body).takeWhile (!isHeader ·) := by
      rw [List.map_append, List.map_append, List.takeWhile_append_of_pos]
      intro body hbody
      rw [List.map_map] at hbody
      obtain ⟨x, hx, rfl⟩ := List.mem_map.mp hbody
      exact Bool.not_eq_true' _ ▸ har.recs x hx
    rw [anyWanted, hbodies, List.any_eq_true]
    refine ⟨w.item.body, List.mem_append_left _ ?_, hsame⟩
    rw [List.map_map]
    exact List.mem_map.mpr ⟨w, List.mem_append_right _ List.mem_cons_self, rfl⟩
  obtain ⟨rest, hlength, hblock⟩ := editBlock_replaced file hentered hne hedit hany
  obtain ⟨ws', hitems, htext⟩ := finished_behindNew (front ++ [h] ++ before) (after ++ behind)
    (.entry k v)
  refine ⟨ws', hitems, ?_⟩
  have hfront : linesText ((front ++ [h]).map PlainLine.line)
      ++ (fileText (before ++ [⟨.entry k v, 0⟩]) ++ behindNew (fileText (after ++ behind)))
      = fileText (front ++ [h] ++ before ++ [⟨.entry k v, 0⟩])
        ++ behindNew (fileText (after ++ behind)) := by
    rw [← List.append_assoc, ← fileText, ← fileText_append, ← List.append_assoc]
  rw [hfront] at hlength hblock
  have hrest : rest ≠ [] := by
    have hlen := length_entryText_le k.text v.text
    have hws : fileText ws = fileText (front ++ [h] ++ before)
        ++ (w.item.body ++ List.replicate (w.gap + 1) LF ++ fileText (after ++ behind)) := by
      rw [har.lines, ← fileText_cons, ← fileText_append]
      simp only [List.append_assoc, List.cons_append]
    rw [fileText_concat, List.append_assoc _ (Item.body _), List.append_assoc, hws,
      List.length_append, @List.length_append _ (fileText _), List.length_append,
      length_behindNew, @List.length_append _ (w.item.body ++ _)] at hlength
    rw [entryText_eq] at hlen
    dsimp only at hlength
    refine List.ne_nil_of_length_pos ?_
    have hnew : ((Item.entry k v).body ++ List.replicate (0 + 1) LF).length
        = ((Item.entry k v).body ++ [LF]).length := rfl
    omega
  have hne' : fileText ws' ≠ [] := by
    obtain ⟨x, xs, rfl⟩ : ∃ x xs, ws' = x :: xs := by
      refine List.exists_cons_of_ne_nil ?_
      rintro rfl
      exact absurd hitems.symm (List.append_ne_nil_of_right_ne_nil _ (List.cons_ne_nil _ _))
    rw [fileText_cons]
    simp
  rw [hblock, finishFile_of_ne_nil hrest, Option.map_some, htext, if_neg hne']

end Put

end Hyunjin.Ini
