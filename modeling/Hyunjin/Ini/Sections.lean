import Hyunjin.Ini.Erasing
import Hyunjin.Search.Keyed

/-!
# Settings

What a plain file is for: it holds a value for each key of each section, where names and keys are
taken up to case, `_` and `-`. Sections have distinct names, and the entries of one section distinct
keys, so that a read finds what the file holds. Each write does to the file what it does to the
settings, and to no other setting.
-/

namespace Hyunjin.Ini

open Memory Search

/-! ## Sections -/

structure Entry where
  key : KeyName
  value : Setting

/-- What the key is taken for. -/
def Entry.folded (e : Entry) : List U8 := Ini.folded e.key.text

def Entry.item (e : Entry) : Item := .entry e.key e.value

/-- A section has entries, with distinct keys. -/
structure Sect where
  name : SectName
  entries : List Entry
  ne : entries ≠ []
  distinct : Distinct Entry.folded entries

def Sect.folded (t : Sect) : List U8 := Ini.folded t.name.text

def Sect.items (t : Sect) : List Item := .header t.name :: t.entries.map Entry.item

/-- The sections of a file have distinct names. -/
structure Inifile where
  sects : List Sect
  distinct : Distinct Sect.folded sects

def itemsOf (sects : List Sect) : List Item := sects.flatMap Sect.items

/-- The value of a key in a section. -/
def getSetting (sects : List Sect) (s k : List U8) : Option (List U8) :=
  (keyed Sect.folded sects s).bind fun t ↦ (keyed Entry.folded t.entries k).map (·.value.text)

@[simp] theorem itemsOf_nil : itemsOf [] = [] := rfl

theorem itemsOf_cons (t : Sect) (sects : List Sect) :
    itemsOf (t :: sects) = t.items ++ itemsOf sects := List.flatMap_cons

theorem itemsOf_append (sects sects' : List Sect) :
    itemsOf (sects ++ sects') = itemsOf sects ++ itemsOf sects' := List.flatMap_append

/-! ## Reading -/

section Read

variable {s : SectName} {k : KeyName}

/-- The item is a header of the section. -/
def Item.isOf (s : SectName) : Item → Bool
  | .header n => decide (folded s.text = folded n.text)
  | .entry _ _ => false

theorem isOf_eq (s : SectName) (item : Item) :
    (isHeader item.body && isHeaderOf s.text item.body) = item.isOf s := by
  cases item with
  | header n => rw [isHeader_header, isHeaderOf_header, Bool.true_and, Item.isOf]
  | entry n v => rw [isHeader_entry, Bool.false_and, Item.isOf]

theorem isHeaderLine_plain (s : SectName) (w : PlainLine) :
    isHeaderLine s.text w.line = w.item.isOf s := isOf_eq s w.item

theorem isHeader_of_mem_entries (entries : List Entry) :
    ∀ item ∈ entries.map Entry.item, isHeader item.body = false := by
  intro item hitem
  obtain ⟨e, -, rfl⟩ := List.mem_map.mp hitem
  exact isHeader_entry e.key e.value

theorem isHeader_of_head_itemsOf (sects : List Sect) :
    ∀ item ∈ (itemsOf sects).head?, isHeader item.body = true := by
  intro item hitem
  cases sects with
  | nil => exact absurd hitem.symm (Option.some_ne_none item)
  | cons t sects =>
    rw [← Option.some.inj hitem]
    exact isHeader_header t.name

theorem isOf_of_mem_itemsOf {sects : List Sect} (hnone : ∀ t ∈ sects, t.folded ≠ folded s.text) :
    ∀ item ∈ itemsOf sects, item.isOf s = false := by
  intro item hitem
  obtain ⟨t, ht, hitem⟩ := List.mem_flatMap.mp hitem
  rcases List.mem_cons.mp hitem with rfl | hitem
  · exact decide_eq_false fun heq ↦ hnone t ht heq.symm
  · obtain ⟨e, -, rfl⟩ := List.mem_map.mp hitem
    rfl

/-- The records of a section of the file. -/
theorem sectionOf_itemsOf (s : SectName) (sects : List Sect) :
    sectionOf (some s.text) ((itemsOf sects).map Item.body)
      = ((keyed Sect.folded sects (folded s.text)).elim [] Sect.entries).map (·.item.body) := by
  induction sects with
  | nil => rfl
  | cons t sects ih =>
    have hitems : (itemsOf (t :: sects)).map Item.body = (Item.header t.name).body
        :: ((t.entries.map Entry.item).map Item.body ++ (itemsOf sects).map Item.body) := by
      rw [itemsOf_cons, List.map_append]
      rfl
    have hentries : ∀ b ∈ (t.entries.map Entry.item).map Item.body, isHeader b = false := by
      intro b hb
      obtain ⟨item, hitem, rfl⟩ := List.mem_map.mp hb
      exact isHeader_of_mem_entries t.entries item hitem
    have hheader : (isHeader (Item.header t.name).body
        && isHeaderOf s.text (Item.header t.name).body) = decide (folded s.text = t.folded) :=
      isOf_eq s (.header t.name)
    rw [hitems, keyed_cons, sectionOf]
    by_cases heq : t.folded = folded s.text
    · rw [decide_eq_true heq.symm] at hheader
      rw [if_pos heq, Option.elim_some, List.dropWhile_cons_of_neg (by rw [hheader]; decide),
        List.tail_cons, List.takeWhile_append_of_pos, takeWhile_of_head, List.append_nil,
        List.map_map]
      · rfl
      · intro b hb
        rw [List.head?_map] at hb
        obtain ⟨item, hitem, rfl⟩ := Option.map_eq_some_iff.mp hb
        rw [isHeader_of_head_itemsOf sects item hitem]
        rfl
      · intro b hb
        rw [hentries b hb]
        rfl
    · rw [decide_eq_false (Ne.symm heq)] at hheader
      rw [if_neg heq, ← ih, sectionOf, List.dropWhile_cons_of_pos (by rw [hheader]; rfl),
        List.dropWhile_append_of_pos]
      intro b hb
      rw [hentries b hb]
      rfl

/-- The first record of a key. -/
theorem find?_entries (k : KeyName) (entries : List Entry) :
    ((entries.map (·.item.body)).find? (isRecordOf k.text)).map valueOf
      = (keyed Entry.folded entries (folded k.text)).map (·.value.text) := by
  induction entries with
  | nil => rfl
  | cons e entries ih =>
    have hrec : isRecordOf k.text e.item.body = decide (folded k.text = e.folded) :=
      isRecordOf_entry k e.key e.value
    rw [List.map_cons, keyed_cons]
    by_cases heq : e.folded = folded k.text
    · rw [decide_eq_true heq.symm] at hrec
      rw [List.find?_cons_of_pos hrec, if_pos heq, Option.map_some, Option.map_some]
      exact congrArg some (valueOf_entry e.key e.value)
    · rw [decide_eq_false (Ne.symm heq)] at hrec
      rw [List.find?_cons_of_neg (by rw [hrec]; exact Bool.false_ne_true), if_neg heq, ih]

/-- **A read finds** what the file holds. -/
theorem lookup_itemsOf (s : SectName) (k : KeyName) (sects : List Sect) :
    lookup (some s.text) k.text ((itemsOf sects).map Item.body)
      = getSetting sects (folded s.text) (folded k.text) := by
  rw [lookup, sectionOf_itemsOf, find?_entries, getSetting]
  cases keyed Sect.folded sects (folded s.text) <;> rfl

end Read

/-! ## Writing -/

section Write

variable {s : SectName} {k : KeyName} {v : Setting} {sects A B : List Sect} {t : Sect}
  {ws : List PlainLine} {slack : List U8}

theorem not_isHeaderLine (hws : ws.map PlainLine.item = itemsOf sects)
    (hnone : ∀ t ∈ sects, t.folded ≠ folded s.text) :
    ∀ w ∈ ws, isHeaderLine s.text w.line = false := by
  intro w hw
  rw [isHeaderLine_plain]
  refine isOf_of_mem_itemsOf hnone _ ?_
  rw [← hws]
  exact List.mem_map_of_mem hw

/-- **The lines of a section** that is there. -/
theorem around_of_split (hws : ws.map PlainLine.item = itemsOf sects)
    (hsplit : Split Sect.folded (folded s.text) sects A t B) :
    ∃ front h recs behind, Around s ws front h recs behind
      ∧ front.map PlainLine.item = itemsOf A ∧ h.item = .header t.name
      ∧ recs.map PlainLine.item = t.entries.map Entry.item
      ∧ behind.map PlainLine.item = itemsOf B := by
  rw [hsplit.eq, itemsOf_append, itemsOf_cons, Sect.items, List.cons_append] at hws
  obtain ⟨front, rest, rfl, hfront, hrest⟩ := List.map_eq_append_iff.mp hws
  obtain ⟨h, rest, rfl, hheader, hrest⟩ := List.map_eq_cons_iff.mp hrest
  obtain ⟨recs, behind, rfl, hrecs, hbehind⟩ := List.map_eq_append_iff.mp hrest
  refine ⟨front, h, recs, behind, ⟨?_, ?_, ?_, ?_, ?_⟩, hfront, hheader, hrecs, hbehind⟩
  · rw [List.append_assoc, List.singleton_append]
  · exact not_isHeaderLine hfront fun t' ht' ↦ hsplit.other t' (List.mem_append_left _ ht')
  · rw [isHeaderLine_plain, hheader]
    exact decide_eq_true hsplit.found.symm
  · intro w hw
    refine isHeader_of_mem_entries t.entries w.item ?_
    rw [← hrecs]
    exact List.mem_map_of_mem hw
  · intro w hw
    refine isHeader_of_head_itemsOf B w.item ?_
    rw [← hbehind, List.head?_map, Option.mem_def.mp hw]
    rfl

/-- What is written to the settings. -/
def updated (get : List U8 → List U8 → Option (List U8)) (s k : List U8) (v : Option (List U8)) :
    List U8 → List U8 → Option (List U8) :=
  fun s' k' ↦ if s' = s ∧ k' = k then v else get s' k'

/-- A section is written over. -/
theorem getSetting_over (hsplit : Split Sect.folded (folded s.text) sects A t B) {t' : Sect}
    (ht' : t'.folded = folded s.text) {k' : List U8} {v' : Option (List U8)}
    (hkeyed : ∀ j, (keyed Entry.folded t'.entries j).map (·.value.text)
      = if j = k' then v' else (keyed Entry.folded t.entries j).map (·.value.text)) :
    getSetting (A ++ t' :: B) = updated (getSetting sects) (folded s.text) k' v' := by
  funext i j
  rw [updated, getSetting, getSetting, hsplit.over ht', hsplit.keyed]
  by_cases hi : i = folded s.text
  · rw [if_pos hi, if_pos hi, Option.bind_some, Option.bind_some, hkeyed]
    simp only [hi, true_and]
  · rw [if_neg hi, if_neg hi, if_neg fun h ↦ hi h.1, hsplit.erase, if_neg hi, hsplit.keyed,
      if_neg hi]

theorem isRecordOf_item (k : KeyName) (e : Entry) :
    isRecordOf k.text e.item.body = decide (e.folded = folded k.text) := by
  rw [Entry.item, isRecordOf_entry]
  exact decide_eq_decide.mpr eq_comm

theorem not_isRecordOf {entries : List Entry}
    (hws : ws.map PlainLine.item = entries.map Entry.item)
    (hnone : ∀ e ∈ entries, e.folded ≠ folded k.text) :
    ∀ w ∈ ws, isRecordOf k.text w.item.body = false := by
  intro w hw
  have hmem : w.item ∈ entries.map Entry.item := by
    rw [← hws]
    exact List.mem_map_of_mem hw
  obtain ⟨e, he, hitem⟩ := List.mem_map.mp hmem
  rw [← hitem, isRecordOf_item]
  exact decide_eq_false (hnone e he)

/-- **A value is written.** -/
theorem put_setting (f : Inifile) (hws : ws.map PlainLine.item = itemsOf f.sects) (s : SectName)
    (k : KeyName) (v : Setting) (file : Option (List U8)) (hslack : HoldsAt slack 0 [LF])
    (hroom : s.text.length + k.text.length + v.text.length + 9 < slack.length) :
    ∃ (f' : Inifile) (ws' : List PlainLine), ws'.map PlainLine.item = itemsOf f'.sects
      ∧ editBlock (fileText ws ++ slack) (fileText ws).length file (some s.cstring)
        (some k.cstring) (some v.cstring) = some (1, some (fileText ws'))
      ∧ getSetting f'.sects
        = updated (getSetting f.sects) (folded s.text) (folded k.text) (some v.text) := by
  rcases split_or f.distinct (folded s.text) with hnone | ⟨A, t, B, hsplit⟩
  · -- a new section
    obtain ⟨ws', hitems, hedit⟩ := put_section (k := k) (v := v) file hslack hroom
      (not_isHeaderLine hws hnone)
    have hnew : Distinct Entry.folded [⟨k, v⟩] := List.nodup_singleton _
    refine ⟨⟨f.sects ++ [⟨s, [⟨k, v⟩], List.cons_ne_nil _ _, hnew⟩],
      distinct_concat f.distinct hnone rfl⟩, ws', ?_, hedit, ?_⟩
    · rw [hitems, hws, itemsOf_append]
      rfl
    · funext i j
      rw [updated, getSetting, keyed_concat hnone rfl]
      by_cases hi : i = folded s.text
      · have hget : getSetting f.sects i j = none := by
          rw [getSetting, hi, keyed_eq_none hnone]
          rfl
        rw [if_pos hi, Option.bind_some, keyed_cons, hget]
        simp only [hi, true_and]
        by_cases hj : j = folded k.text
        · rw [if_pos hj, if_pos (show Entry.folded ⟨k, v⟩ = j from hj.symm)]
          rfl
        · rw [if_neg hj, if_neg (show Entry.folded ⟨k, v⟩ ≠ j from Ne.symm hj)]
          rfl
      · rw [if_neg hi, if_neg fun h ↦ hi h.1, getSetting]
  · obtain ⟨front, h, recs, behind, har, hfront, hheader, hrecs, hbehind⟩ :=
      around_of_split hws hsplit
    have hroom' : k.text.length + v.text.length + 5 < slack.length := by omega
    rcases split_or t.distinct (folded k.text) with hnone | ⟨E, e, F, hentry⟩
    · -- a new entry
      obtain ⟨ws', hitems, hedit⟩ := put_entry (v := v) har file hslack hroom'
        (not_isRecordOf hrecs hnone)
      have hnew := distinct_concat t.distinct hnone (show Entry.folded ⟨k, v⟩ = _ from rfl)
      obtain ⟨t', hname, hentries⟩ : ∃ t' : Sect, t'.name = t.name
          ∧ t'.entries = t.entries ++ [⟨k, v⟩] :=
        ⟨⟨t.name, t.entries ++ [⟨k, v⟩], List.concat_ne_nil _ _, hnew⟩, rfl, rfl⟩
      have hfound : t'.folded = folded s.text := by
        rw [Sect.folded, hname]
        exact hsplit.found
      refine ⟨⟨A ++ t' :: B, hsplit.distinct_over f.distinct hfound⟩, ws', ?_, hedit,
        getSetting_over hsplit hfound fun j ↦ ?_⟩
      · simp only [hitems, itemsOf_append, itemsOf_cons, Sect.items, hname, hentries,
          List.map_append, hfront, hrecs, hbehind, List.map_cons, hheader, List.map_nil,
          List.append_assoc, List.cons_append, List.nil_append, Entry.item]
      · rw [hentries, keyed_concat hnone rfl]
        split_ifs <;> rfl
    · -- an old entry
      rw [hentry.eq, List.map_append, List.map_cons] at hrecs
      obtain ⟨before, rest, rfl, hbefore, hrest⟩ := List.map_eq_append_iff.mp hrecs
      obtain ⟨w, after, rfl, hw, hafter⟩ := List.map_eq_cons_iff.mp hrest
      have hother : ∀ x ∈ before ++ after, isRecordOf k.text x.item.body = false := by
        have hitems : (before ++ after).map PlainLine.item = (E ++ F).map Entry.item := by
          rw [List.map_append, List.map_append, hbefore, hafter]
        exact not_isRecordOf hitems hentry.other
      have hsame : isRecordOf k.text w.item.body = true := by
        rw [hw, isRecordOf_item]
        exact decide_eq_true hentry.found
      obtain ⟨ws', hitems, hedit⟩ := put_over (v := v) har file hslack hroom' hother hsame hw
      have hnew := hentry.distinct_over t.distinct (show Entry.folded ⟨k, v⟩ = _ from rfl)
      obtain ⟨t', hname, hentries⟩ : ∃ t' : Sect, t'.name = t.name
          ∧ t'.entries = E ++ ⟨k, v⟩ :: F :=
        ⟨⟨t.name, E ++ ⟨k, v⟩ :: F,
          List.append_ne_nil_of_right_ne_nil _ (List.cons_ne_nil _ _), hnew⟩, rfl, rfl⟩
      have hfound : t'.folded = folded s.text := by
        rw [Sect.folded, hname]
        exact hsplit.found
      refine ⟨⟨A ++ t' :: B, hsplit.distinct_over f.distinct hfound⟩, ws', ?_, hedit,
        getSetting_over hsplit hfound fun j ↦ ?_⟩
      · simp only [hitems, itemsOf_append, itemsOf_cons, Sect.items, hname, hentries,
          List.map_append, hfront, hbefore, hafter, hbehind, List.map_cons, hheader,
          List.append_assoc, List.cons_append, List.nil_append, Entry.item]
      · rw [hentries, hentry.over rfl]
        split_ifs <;> rfl

/-- Nothing is taken out of a section that is not there. -/
theorem getSetting_eq_none (hnone : ∀ t ∈ sects, t.folded ≠ folded s.text) (k : List U8) :
    getSetting sects (folded s.text) k = none := by
  rw [getSetting, keyed_eq_none hnone]
  rfl

/-- A section is taken out. -/
theorem getSetting_erase (hsplit : Split Sect.folded (folded s.text) sects A t B) (i j : List U8) :
    getSetting (A ++ B) i j = if i = folded s.text then none else getSetting sects i j := by
  rw [getSetting, hsplit.erase, getSetting]
  split_ifs <;> rfl

/-- The lines that are left of a section. -/
theorem items_filter {recs : List PlainLine} {entries : List Entry}
    (hrecs : recs.map PlainLine.item = entries.map Entry.item) (k : KeyName) :
    (recs.filter (!wanted (some k.cstring) ·.item.body)).map PlainLine.item
      = (entries.filter fun e ↦ !decide (e.folded = folded k.text)).map Entry.item := by
  have hleft : recs.filter (!wanted (some k.cstring) ·.item.body)
      = recs.filter ((fun item : Item ↦ !isRecordOf k.text item.body) ∘ PlainLine.item) := rfl
  rw [hleft, ← List.filter_map, hrecs, List.filter_map]
  refine congrArg _ (List.filter_congr fun e _ ↦ ?_)
  rw [Function.comp_apply, isRecordOf_item]

/-- **A value is deleted.** -/
theorem erase_setting (f : Inifile) (hws : ws.map PlainLine.item = itemsOf f.sects) (s : SectName)
    (k : KeyName) (hslack : HoldsAt slack 0 [LF]) (hroom : 2 < slack.length) :
    ∃ (success : ℕ) (f' : Inifile) (ws' : List PlainLine),
      ws'.map PlainLine.item = itemsOf f'.sects
      ∧ editBlock (fileText ws ++ slack) (fileText ws).length (some (fileText ws)) (some s.cstring)
        (some k.cstring) none = some (success, some (fileText ws'))
      ∧ getSetting f'.sects
        = updated (getSetting f.sects) (folded s.text) (folded k.text) none := by
  rcases split_or f.distinct (folded s.text) with hnone | ⟨A, t, B, hsplit⟩
  · obtain ⟨success, hedit⟩ := erase_none (some (fileText ws)) (some k.cstring) none hslack
      (.inr rfl) (not_isHeaderLine hws hnone)
    refine ⟨success, f, ws, hws, hedit, ?_⟩
    funext i j
    rw [updated]
    split_ifs with h
    · rw [h.1, getSetting_eq_none hnone]
    · rfl
  · obtain ⟨front, h, recs, behind, har, hfront, hheader, hrecs, hbehind⟩ :=
      around_of_split hws hsplit
    obtain ⟨success, ws', hitems, hedit⟩ := erase_entry har k.cstring hslack hroom
    have hleft := items_filter hrecs k
    have hkeyed := keyed_filter Entry.folded t.entries (folded k.text)
    rw [erasedLines] at hitems
    by_cases hnil : t.entries.filter (fun e ↦ !decide (e.folded = folded k.text)) = []
    · -- the section goes with its last entry
      rw [hnil, List.map_nil, List.map_eq_nil_iff] at hleft
      rw [if_pos hleft, List.map_append, hfront, hbehind, ← itemsOf_append] at hitems
      refine ⟨success, ⟨A ++ B, hsplit.distinct_erase f.distinct⟩, ws', hitems, hedit, ?_⟩
      funext i j
      rw [getSetting_erase hsplit, updated]
      by_cases hi : i = folded s.text
      · have hj := hkeyed j
        rw [hnil] at hj
        rw [if_pos hi, getSetting, hsplit.keyed, if_pos hi, Option.bind_some]
        simp only [hi, true_and]
        split_ifs with hk
        · rfl
        · rw [if_neg hk] at hj
          rw [← hj]
          rfl
      · rw [if_neg hi, if_neg fun h ↦ hi h.1]
    · have hne : recs.filter (!wanted (some k.cstring) ·.item.body) ≠ [] := by
        intro heq
        rw [heq, List.map_nil] at hleft
        exact hnil (List.map_eq_nil_iff.mp hleft.symm)
      obtain ⟨t', hname, hentries⟩ : ∃ t' : Sect, t'.name = t.name
          ∧ t'.entries = t.entries.filter fun e ↦ !decide (e.folded = folded k.text) :=
        ⟨⟨t.name, _, hnil, t.distinct.filter _⟩, rfl, rfl⟩
      have hfound : t'.folded = folded s.text := by
        rw [Sect.folded, hname]
        exact hsplit.found
      refine ⟨success, ⟨A ++ t' :: B, hsplit.distinct_over f.distinct hfound⟩, ws', ?_, hedit,
        getSetting_over hsplit hfound fun j ↦ ?_⟩
      · rw [hitems, if_neg hne]
        simp only [itemsOf_append, itemsOf_cons, Sect.items, hname, hentries, List.map_append,
          hfront, hleft, hbehind, List.map_cons, hheader, List.append_assoc, List.cons_append,
          List.nil_append]
      · rw [hentries, hkeyed]
        split_ifs <;> rfl

/-- **A section is deleted.** -/
theorem drop_settings (f : Inifile) (hws : ws.map PlainLine.item = itemsOf f.sects) (s : SectName)
    (value : Option CString) (hslack : HoldsAt slack 0 [LF]) (hroom : 2 < slack.length) :
    ∃ (success : ℕ) (f' : Inifile) (ws' : List PlainLine),
      ws'.map PlainLine.item = itemsOf f'.sects
      ∧ editBlock (fileText ws ++ slack) (fileText ws).length (some (fileText ws)) (some s.cstring)
        none value = some (success, some (fileText ws'))
      ∧ ∀ i j, getSetting f'.sects i j
        = if i = folded s.text then none else getSetting f.sects i j := by
  rcases split_or f.distinct (folded s.text) with hnone | ⟨A, t, B, hsplit⟩
  · obtain ⟨success, hedit⟩ := erase_none (some (fileText ws)) none value hslack
      (.inl rfl) (not_isHeaderLine hws hnone)
    refine ⟨success, f, ws, hws, hedit, fun i j ↦ ?_⟩
    split_ifs with h
    · rw [h, getSetting_eq_none hnone]
    · rfl
  · obtain ⟨front, h, recs, behind, har, hfront, -, -, hbehind⟩ := around_of_split hws hsplit
    obtain ⟨success, ws', hitems, hedit⟩ :=
      erase_section har (some (fileText ws)) value hslack hroom
    rw [List.map_append, hfront, hbehind, ← itemsOf_append] at hitems
    exact ⟨success, ⟨A ++ B, hsplit.distinct_erase f.distinct⟩, ws', hitems, hedit,
      getSetting_erase hsplit⟩

end Write

end Hyunjin.Ini
