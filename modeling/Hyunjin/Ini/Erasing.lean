import Hyunjin.Ini.Putting

/-!
# Deletes from a plain file

A write without a value takes the lines of the key out of the section, and the section with them if
nothing else is in it; a write without a key takes the section out. What is left is a plain file
again, of the other lines.
-/

namespace Hyunjin.Ini

open Memory

/-! ## The scan -/

section Scan

variable {sect key : Option CString} {b : Block} {front slack : List U8} {l : Line}
  {rest : List U8}

/-- A line that is deleted is not counted. -/
theorem replaceLine_erase (h : b.At front (l.text ++ rest) slack) (hroom : slack ≠ [])
    (key : Option CString) (n keylen valuepos : ℕ) :
    ∃ b₁ slack₁, replaceLine key none { b with offset := b.offset + l.text.length, foundrecs := n }
          (l.scan b.offset) keylen valuepos = some (b₁, true)
      ∧ b₁.At (front ++ (l.kept ++ blankLine rest)) rest slack₁
      ∧ slack₁.length + (blankLine rest).length = slack.length + l.old
      ∧ b₁.Since b ∧ b₁.foundrecs = n - 1 := by
  obtain ⟨slack', hlen', hreplace⟩ := replaceLine_eq h key none n keylen valuepos
  have hslack' : slack' ≠ [] := by
    rw [← List.length_pos_iff] at hroom ⊢
    rw [hlen']
    exact Nat.add_pos_right _ hroom
  have hwithout := h.without slack' n
  obtain ⟨slack₁, hdelete, hlen₁⟩ := deleteLine_eq hwithout hslack'
  obtain ⟨b₁, slack₂, hagain, hat, hlen₂, hsince⟩ :=
    replaceLine_delete h hroom key n keylen valuepos
  refine ⟨b₁, slack₂, hagain, hat, hlen₂, hsince, ?_⟩
  rw [hreplace, placeLine, hdelete] at hagain
  rw [← (Prod.mk.inj (Option.some.inj hagain)).1]
  rfl

/-- What the scan of the section leaves. -/
structure Scanned (key : Option CString) (b b' : Block) (front done recs behind : List PlainLine)
    (slack : List U8) (done' : List PlainLine) (slack' : List U8) : Prop where
  items : done'.map PlainLine.item
    = (done ++ recs.filter (!wanted key ·.item.body)).map PlainLine.item
  data : b'.data = fileText (front ++ done' ++ behind) ++ slack'
  filelen : b'.filelen = (fileText (front ++ done' ++ behind)).length
  slack : slack.length ≤ slack'.length
  sectoff : b'.sectoff = b.sectoff
  foundsect : b'.foundsect = true
  changed : b'.changed = (b.changed || recs.any (wanted key ·.item.body))
  foundrecs : b'.foundrecs = b.foundrecs + (recs.filter (!wanted key ·.item.body)).length
  sectoffend : b'.sectoffend
    = behind.head?.elim b.sectoffend fun _ ↦ (fileText (front ++ done')).length

variable {front done recs behind : List PlainLine}

/-- One line is done, and the others come out as they should. -/
theorem Scanned.cons {b₁ b' : Block} {done₁ done' : List PlainLine} {slack₁ slack' : List U8}
    {w : PlainLine} (h : Scanned key b₁ b' front done₁ recs behind slack₁ done' slack')
    (hitems : done₁.map PlainLine.item
      = (done ++ [w].filter (!wanted key ·.item.body)).map PlainLine.item)
    (hslack : slack.length ≤ slack₁.length) (hsectoff : b₁.sectoff = b.sectoff)
    (hsectoffend : b₁.sectoffend = b.sectoffend)
    (hchanged : b₁.changed = (b.changed || wanted key w.item.body))
    (hfoundrecs : b₁.foundrecs
      = b.foundrecs + ([w].filter (!wanted key ·.item.body)).length) :
    Scanned key b b' front done (w :: recs) behind slack done' slack' := by
  have hfilter : (w :: recs).filter (!wanted key ·.item.body)
      = [w].filter (!wanted key ·.item.body) ++ recs.filter (!wanted key ·.item.body) := by
    rw [← List.filter_append]
    rfl
  refine ⟨?_, h.data, h.filelen, hslack.trans h.slack, h.sectoff.trans hsectoff, h.foundsect, ?_,
    ?_, ?_⟩
  · rw [h.items, List.map_append, hitems, hfilter, ← List.map_append, List.append_assoc]
  · rw [h.changed, hchanged, List.any_cons, Bool.or_assoc]
  · rw [h.foundrecs, hfoundrecs, hfilter, List.length_append, Nat.add_assoc]
  · rw [h.sectoffend, hsectoffend]

/-- A blank line is put behind what is done. -/
theorem fileText_blankLine (front : List PlainLine) {done : List PlainLine} (hdone : done ≠ [])
    (rest : List U8) :
    ∃ done₁, done₁ ≠ [] ∧ done₁.map PlainLine.item = done.map PlainLine.item
      ∧ fileText (front ++ done) ++ blankLine rest = fileText (front ++ done₁) := by
  rw [blankLine]
  split_ifs with hopen
  · obtain ⟨d, x, rfl⟩ := (List.eq_nil_or_concat' done).resolve_left hdone
    refine ⟨d ++ [⟨x.item, x.gap + 1⟩], List.concat_ne_nil _ _, ?_, ?_⟩
    · rw [List.map_append, List.map_append]
      rfl
    · rw [← List.append_assoc, ← List.append_assoc, fileText_concat, fileText_concat,
        List.append_assoc, List.replicate_succ' (n := x.gap + 1)]
  · exact ⟨done, hdone, rfl, List.append_nil _⟩

/-- **The scan of a section**, for a delete. -/
theorem scanLoop_erase (sect key : Option CString)
    (hrecs : ∀ w ∈ recs, isHeader w.item.body = false)
    (hbehind : ∀ w ∈ behind.head?, isHeader w.item.body = true) (hdone : done ≠ [])
    (hat : b.At (fileText (front ++ done)) (fileText (recs ++ behind)) slack)
    (hfound : b.foundsect = true) (hslack : slack ≠ []) {fuel : ℕ}
    (hfuel : b.filelen < b.offset + fuel) :
    ∃ b' done' slack', scanLoop sect key (replaceLine key none) fuel b = some b'
      ∧ Scanned key b b' front done recs behind slack done' slack' := by
  induction recs generalizing b done slack fuel with
  | nil =>
    cases hb : behind with
    | nil =>
      subst hb
      have htail : HoldsAt b.data b.offset [] := List.nil_prefix
      refine ⟨_, done, slack, scanLoop_tail htail (List.forall_mem_nil _) ?_ hfuel, ?_⟩
      · rw [hat.filelen, hat.offset]
        rfl
      · refine ⟨?_, ?_, ?_, le_rfl, rfl, hfound, (Bool.or_false _).symm, rfl, rfl⟩
        · rw [List.filter_nil, List.append_nil]
        · rw [List.append_nil, hat.data]
          exact congrArg (· ++ slack) (List.append_nil _)
        · rw [List.append_nil, hat.filelen]
          rfl
    | cons w ws =>
      subst hb
      have hat' : b.At (fileText (front ++ done)) (w.line.text ++ fileText ws) slack := by
        rw [w.text_line, ← fileText_cons]
        exact hat
      have hends : w.line.EndsAt (fileText ws) := by
        refine ⟨head_fileText, fun heol ↦ absurd heol (List.cons_ne_nil _ _)⟩
      have hhead : isHeader w.line.body = true := hbehind w rfl
      have hlen := hat.filelen
      obtain ⟨fuel, rfl⟩ := Nat.exists_eq_add_of_le' (show 1 ≤ fuel by
        have := hat.offset; omega)
      have hscan : scanLoop sect key (replaceLine key none) (fuel + 1) b = some { b with
          offset := b.offset + w.line.text.length
          anysect := true
          sectoffend := b.offset + w.line.lead.length } := by
        rw [scanLoop_line hat'.atLine w.line_ok hends,
          visitLine_end hat'.atLine w.line_ok hhead hfound, Option.bind_some]
        rfl
      refine ⟨_, done, slack, hscan, ?_⟩
      · refine ⟨?_, ?_, ?_, le_rfl, rfl, hfound, (Bool.or_false _).symm, rfl, ?_⟩
        · rw [List.filter_nil, List.append_nil]
        · rw [fileText_append]
          exact hat.data
        · rw [fileText_append, List.length_append]
          exact hat.filelen
        · exact hat.offset
  | cons w recs ih =>
    have hhead : isHeader w.line.body = false := hrecs w List.mem_cons_self
    have hrecs' := fun x hx ↦ hrecs x (List.mem_cons_of_mem w hx)
    have hat' : b.At (fileText (front ++ done)) (w.line.text ++ fileText (recs ++ behind))
        slack := by
      rw [w.text_line, ← fileText_cons]
      exact hat
    have hends : w.line.EndsAt (fileText (recs ++ behind)) :=
      ⟨head_fileText, fun heol ↦ absurd heol (List.cons_ne_nil _ _)⟩
    have hlen := hat'.filelen
    have hoffset := hat'.offset
    have hpos := w.line_ok.length_text_pos
    rw [List.length_append] at hlen
    obtain ⟨fuel, rfl⟩ := Nat.exists_eq_add_of_le' (show 1 ≤ fuel by omega)
    rw [scanLoop_line hat'.atLine w.line_ok hends,
      visitLine_record hat'.atLine w.line_ok hhead hfound]
    have hbody : w.line.body = w.item.body := rfl
    cases hwanted : wanted key w.item.body with
    | false =>
      rw [hbody, hwanted, if_neg Bool.false_ne_true, Option.bind_some]
      have hnext : ({ b with
          offset := b.offset + w.line.text.length
          foundrecs := b.foundrecs + 1 } : Block).At (fileText (front ++ (done ++ [w])))
          (fileText (recs ++ behind)) slack := by
        refine ⟨?_, ?_, ?_⟩
        · rw [← List.append_assoc front, fileText_append _ [w], hat'.data, fileText_cons,
            fileText_nil, ← w.text_line]
          simp only [List.append_assoc, List.append_nil]
        · rw [← List.append_assoc front, fileText_append _ [w], fileText_cons, fileText_nil,
            List.append_nil, ← w.text_line, List.length_append, ← hoffset]
        · rw [← List.append_assoc front, fileText_append _ [w], fileText_cons, fileText_nil,
            List.append_nil, ← w.text_line, List.length_append, Nat.add_assoc]
          exact hlen
      obtain ⟨b', done', slack', hscan, hscanned⟩ := ih hrecs' (List.concat_ne_nil w done) hnext
        hfound hslack (show b.filelen < b.offset + w.line.text.length + fuel by omega)
      have hfilter : [w].filter (!wanted key ·.item.body) = [w] := by
        rw [List.filter_singleton, hwanted]
        rfl
      refine ⟨b', done', slack', hscan, hscanned.cons ?_ le_rfl rfl rfl ?_ ?_⟩
      · rw [hfilter]
      · rw [hwanted, Bool.or_false]
      · rw [hfilter]
        rfl
    | true =>
      rw [hbody, hwanted, if_pos rfl]
      obtain ⟨b₁, slack₁, hreplace, hnext, hlen₁, hsince, hcount⟩ := replaceLine_erase hat' hslack
        key (b.foundrecs + 1) (keyText w.item.body).length
        ((w.item.body.takeWhile (· != EQUALS)).length + 1)
      obtain ⟨done₁, hdone₁, hitems, htext⟩ := fileText_blankLine front hdone
        (fileText (recs ++ behind))
      have hkept : w.line.kept = [] := rfl
      have hold := w.line_ok.old_pos
      have hblank := length_blankLine_le (fileText (recs ++ behind))
      have hmore : slack.length ≤ slack₁.length := by omega
      have hslack₁ : slack₁ ≠ [] :=
        List.ne_nil_of_length_pos ((List.length_pos_iff.mpr hslack).trans_le hmore)
      rw [hkept, List.nil_append, htext] at hnext
      have hwithin : b₁.filelen < b₁.offset + fuel := by
        rw [hnext.filelen, hnext.offset]
        omega
      obtain ⟨b', done', slack', hscan, hscanned⟩ := ih hrecs' hdone₁ hnext
        (hsince.foundsect.trans hfound) hslack₁ hwithin
      have hfilter : [w].filter (!wanted key ·.item.body) = [] := by
        rw [List.filter_singleton, hwanted]
        rfl
      rw [hreplace, Option.bind_some, if_pos rfl]
      refine ⟨b', done', slack', hscan,
        hscanned.cons ?_ hmore hsince.sectoff hsince.sectoffend ?_ ?_⟩
      · rw [hfilter, List.append_nil, hitems]
      · rw [hwanted, Bool.or_true, hsince.changed]
      · rw [hfilter, hcount]
        rfl

end Scan

/-! ## What is left -/

section Erase

variable {s : SectName} {ws front recs behind : List PlainLine} {h : PlainLine} {slack : List U8}

/-- **The section is taken out.** What is in front of it keeps a blank line behind it. -/
theorem deleteSection_plain (front : List PlainLine) {done : List PlainLine} (hdone : done ≠ [])
    (behind : List PlainLine) (hroom : 2 < slack.length) :
    ∃ ws' rest, ws'.map PlainLine.item = (front ++ behind).map PlainLine.item ∧ rest ≠ []
      ∧ deleteSection (fileText (front ++ done ++ behind) ++ slack)
          (fileText (front ++ done ++ behind)).length (fileText front).length
          (behind.head?.elim 0 fun _ ↦ (fileText (front ++ done)).length)
        = some (fileText ws' ++ rest, (fileText ws').length) := by
  obtain ⟨x, xs, rfl⟩ := List.exists_cons_of_ne_nil hdone
  have hlen : (fileText (front ++ x :: xs)).length
      = (fileText front).length + (x.item.body.length + (x.gap + 1) + (fileText xs).length) := by
    rw [fileText_append, fileText_cons, List.length_append, List.length_append, List.length_append,
      List.length_replicate]
  have hbody : 0 < x.item.body.length := List.length_pos_iff.mpr x.line_ok.body_ne
  have hwhole : (fileText (front ++ x :: xs ++ behind)).length
      = (fileText (front ++ x :: xs)).length + (fileText behind).length := by
    rw [fileText_append, List.length_append]
  have hdrop : (if (behind.head?.elim 0 fun _ ↦ (fileText (front ++ x :: xs)).length) = 0 then []
      else (fileText (front ++ x :: xs ++ behind)).drop
        (behind.head?.elim 0 fun _ ↦ (fileText (front ++ x :: xs)).length)) = fileText behind := by
    cases behind with
    | nil => rfl
    | cons w ws =>
      rw [List.head?_cons, Option.elim_some, if_neg (by omega), fileText_append (front ++ _),
        List.drop_left]
  have htake : (fileText (front ++ x :: xs ++ behind)).take (fileText front).length
      = fileText front := by
    rw [List.append_assoc, fileText_append, List.take_left]
  -- where the section ends is behind where it begins, or it is the last one
  have hend : (behind.head?.elim 0 fun _ ↦ (fileText (front ++ x :: xs)).length) = 0
      ∨ (behind.head?.elim 0 fun _ ↦ (fileText (front ++ x :: xs)).length)
        = (fileText (front ++ x :: xs)).length := by
    cases behind.head?
    · exact .inl rfl
    · exact .inr rfl
  have hoff : (fileText front).length ≤ (fileText (front ++ x :: xs ++ behind)).length := by omega
  have hle : (behind.head?.elim 0 fun _ ↦ (fileText (front ++ x :: xs)).length)
      ≤ (fileText (front ++ x :: xs ++ behind)).length := by omega
  obtain ⟨rest, hdelete, hrest⟩ := deleteSection_spec hoff hle (by omega) hroom
  rw [withoutSection, hdrop, htake] at hdelete
  rcases List.eq_nil_or_concat' front with rfl | ⟨f, w, rfl⟩
  · exact ⟨behind, rest, rfl, hrest, hdelete⟩
  · refine ⟨f ++ [⟨w.item, 1⟩] ++ behind, rest, ?_, hrest, ?_⟩
    · simp only [List.map_append]
      rfl
    · have htext : fileText (f ++ [⟨w.item, 1⟩] ++ behind)
          = fileText f ++ w.item.body ++ gapBehind (fileText f ++ w.item.body)
            ++ fileText behind := by
        rw [fileText_append, fileText_concat, gapBehind, if_pos]
        · rfl
        · rw [List.length_append]
          exact Nat.add_pos_right _ (List.length_pos_iff.mpr w.line_ok.body_ne)
      rw [rdropWhile_fileText, ← htext] at hdelete
      exact hdelete

/-- There is no such section. -/
theorem erase_none (file : Option (List U8)) (key value : Option CString)
    (hslack : HoldsAt slack 0 [LF]) (hdelete : key = none ∨ value = none)
    (hnone : ∀ w ∈ ws, isHeaderLine s.text w.line = false) :
    ∃ success, editBlock (fileText ws ++ slack) (fileText ws).length file (some s.cstring) key value
      = some (success, file) := by
  have hsect : hasSection ((some s.cstring).map Subtype.val) (fileText ws) = false :=
    hasSection_plain hnone
  obtain ⟨b, hscan, -, -, hfound⟩ := scanFile_none key (replaceLine key value) hslack hsect
  have hafter : ∃ success, afterScan b (some s.cstring) key value = some (none, success) := by
    rw [afterScan.eq_def, hfound]
    cases key with
    | none => exact ⟨1, rfl⟩
    | some k =>
      obtain rfl := hdelete.resolve_left (Option.some_ne_none k)
      exact ⟨0, rfl⟩
  obtain ⟨success, hafter⟩ := hafter
  refine ⟨success, ?_⟩
  rw [editBlock, hscan, Option.bind_eq_bind, Option.bind_some, hafter]
  rfl

/-- **A section is deleted.** -/
theorem erase_section (har : Around s ws front h recs behind) (file : Option (List U8))
    (value : Option CString) (hslack : HoldsAt slack 0 [LF]) (hroom : 2 < slack.length) :
    ∃ success ws', ws'.map PlainLine.item = (front ++ behind).map PlainLine.item
      ∧ editBlock (fileText ws ++ slack) (fileText ws).length file (some s.cstring) none value
        = some (success, some (fileText ws')) := by
  obtain ⟨b, fuel, hentered, hsectoff, -⟩ := har.entered none (replaceLine none value) hslack
  have hany : anyWanted none ((recs ++ behind).map PlainLine.line) = false := by
    rw [anyWanted, List.any_eq_false]
    intro body _
    exact Bool.false_ne_true
  have hout := hentered.outcome (List.ne_nil_of_length_pos (Nat.zero_lt_of_lt hroom))
  rw [editLines_of_not [] hany] at hout
  obtain ⟨b', hscan, hedited⟩ := hout
  obtain ⟨hdata, hend⟩ := hedited.same hany
  have hwhole : fileText (front ++ (h :: recs) ++ behind) = fileText ws := by
    rw [har.lines]
    simp only [List.append_assoc, List.cons_append, List.nil_append]
  have hdata' : b'.data = fileText ws ++ slack := by
    rw [hdata, hentered.block.data, ← hentered.text]
  have hfilelen : b'.filelen = (fileText ws).length := by
    rw [hedited.filelen, ← hentered.text]
  have hplace : b'.sectoffend
      = behind.head?.elim 0 fun _ ↦ (fileText (front ++ (h :: recs))).length := by
    rw [hend, hentered.sectoffend, hentered.block.offset, sectionEnd_plain har.recs har.behind]
    cases behind.head? with
    | none => rfl
    | some w =>
      rw [Option.map_some, Option.elim_some, Option.elim_some, ← fileText, ← List.length_append,
        ← fileText_append, List.append_assoc]
      rfl
  obtain ⟨ws₁, rest, hitems₁, hrest, hsection⟩ := deleteSection_plain front
    (List.cons_ne_nil h recs) behind hroom
  obtain ⟨ws₂, hitems₂, htext₂⟩ := finished_fileText ws₁ (List.forall_mem_nil _)
  rw [List.append_nil] at htext₂
  have hafter : afterScan b' (some s.cstring) none value
      = some (some (fileText ws₁ ++ rest, (fileText ws₁).length), 0) := by
    rw [afterScan.eq_def, hedited.foundsect]
    dsimp only
    rw [hdata', hfilelen, hedited.sectoff, hsectoff, hplace, ← hwhole, hsection]
    rfl
  rw [editBlock_of_afterScan hscan hafter, finishFile_of_ne_nil hrest, Option.map_some, htext₂]
  exact ⟨_, ws₂, hitems₂.trans hitems₁, rfl⟩

/-- What a delete of a key leaves of the lines. -/
def erasedLines (key : Option CString) (front : List PlainLine) (h : PlainLine)
    (recs behind : List PlainLine) : List PlainLine :=
  if recs.filter (!wanted key ·.item.body) = [] then front ++ behind
  else front ++ [h] ++ recs.filter (!wanted key ·.item.body) ++ behind

/-- **An entry is deleted**, and the section with it if it was the last one. -/
theorem erase_entry (har : Around s ws front h recs behind) (k : CString)
    (hslack : HoldsAt slack 0 [LF]) (hroom : 2 < slack.length) :
    ∃ success ws', ws'.map PlainLine.item
        = (erasedLines (some k) front h recs behind).map PlainLine.item
      ∧ editBlock (fileText ws ++ slack) (fileText ws).length (some (fileText ws)) (some s.cstring)
        (some k) none = some (success, some (fileText ws')) := by
  obtain ⟨b, fuel, hentered, hsectoff, hcount⟩ := har.entered (some k) (replaceLine (some k) none)
    hslack
  have hne : slack ≠ [] := List.ne_nil_of_length_pos (Nat.zero_lt_of_lt hroom)
  have hat : b.At (fileText (front ++ [h])) (fileText (recs ++ behind)) slack := by
    have hblock := hentered.block
    rw [List.append_nil] at hblock
    exact hblock
  obtain ⟨b', done', slack', hscan, hscanned⟩ := scanLoop_erase (some s.cstring) (some k)
    har.recs har.behind (List.cons_ne_nil h []) hat hentered.foundsect hne
    hentered.fuel
  rw [← hentered.scan] at hscan
  have hplace := hscanned.sectoffend
  have hrecs := hscanned.foundrecs
  have hchanged := hscanned.changed
  rw [hentered.sectoffend] at hplace
  rw [hcount, Nat.zero_add] at hrecs
  rw [hentered.changed, Bool.false_or] at hchanged
  have hslack' : 2 < slack'.length := hroom.trans_le hscanned.slack
  have hne' : slack' ≠ [] := List.ne_nil_of_length_pos (Nat.zero_lt_of_lt hslack')
  have hdone : done' ≠ [] := by
    rintro rfl
    have hitems := hscanned.items
    exact absurd hitems.symm (List.cons_ne_nil _ _)
  rw [erasedLines]
  by_cases hnil : recs.filter (!wanted (some k) ·.item.body) = []
  · -- no more records, so the section is deleted too
    obtain ⟨ws₁, rest, hitems₁, hrest, hsection⟩ := deleteSection_plain front hdone behind hslack'
    obtain ⟨ws₂, hitems₂, htext₂⟩ := finished_fileText ws₁ (List.forall_mem_nil _)
    rw [List.append_nil] at htext₂
    have hzero : b'.foundrecs = 0 := by
      rw [hrecs, hnil]
      rfl
    have hafter : afterScan b' (some s.cstring) (some k) none
        = some (some (fileText ws₁ ++ rest, (fileText ws₁).length), 0) := by
      rw [afterScan.eq_def, hscanned.foundsect]
      dsimp only
      rw [if_pos hzero, hscanned.data, hscanned.filelen, hscanned.sectoff, hsectoff, hplace,
        hsection]
      rfl
    rw [if_pos hnil, editBlock_of_afterScan hscan hafter, finishFile_of_ne_nil hrest,
      Option.map_some, htext₂]
    exact ⟨_, ws₂, hitems₂.trans hitems₁, rfl⟩
  · have hpos : b'.foundrecs ≠ 0 := by
      rw [hrecs]
      exact (List.length_pos_iff.mpr hnil).ne'
    rw [if_neg hnil]
    cases hany : recs.any (wanted (some k) ·.item.body) with
    | true =>
      obtain ⟨ws₂, hitems₂, htext₂⟩ := finished_fileText (front ++ done' ++ behind)
        (List.forall_mem_nil _)
      rw [List.append_nil] at htext₂
      have hafter : afterScan b' (some s.cstring) (some k) none
          = some (some (fileText (front ++ done' ++ behind) ++ slack',
            (fileText (front ++ done' ++ behind)).length), 1) := by
        rw [afterScan.eq_def, hscanned.foundsect]
        dsimp only
        rw [if_neg hpos, hchanged, hany, if_pos rfl, hscanned.data, hscanned.filelen]
      rw [editBlock_of_afterScan hscan hafter, finishFile_of_ne_nil hne', Option.map_some, htext₂]
      refine ⟨_, ws₂, ?_, rfl⟩
      rw [hitems₂]
      simp only [List.map_append, hscanned.items, List.append_assoc]
    | false =>
      have hafter : afterScan b' (some s.cstring) (some k) none = some (none, 1) := by
        rw [afterScan.eq_def, hscanned.foundsect]
        dsimp only
        rw [if_neg hpos, hchanged, hany, if_neg Bool.false_ne_true]
      have hall : recs.filter (!wanted (some k) ·.item.body) = recs := by
        rw [List.filter_eq_self]
        intro w hw
        have hw' := List.any_eq_false.mp hany w hw
        rw [Bool.eq_false_of_not_eq_true hw']
        rfl
      refine ⟨1, ws, ?_, ?_⟩
      · rw [hall, har.lines, List.append_assoc (front ++ [h])]
      · rw [editBlock, hscan, Option.bind_eq_bind, Option.bind_some, hafter]
        rfl

end Erase

end Hyunjin.Ini
