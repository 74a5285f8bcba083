import Hyunjin.Ini.Writing
import Mathlib.Algebra.BigOperators.Group.List.Basic

/-!
# The room for a write

The block is as long as the file and the strings of one entry, and a little more. Each line of the
key is replaced, however many there are, and a new line may be longer than the old one. The write
stays within the block if and only if no run of lines from the beginning of the section grows by
more than there is room.
-/

namespace Hyunjin.Ini

open Memory

/-! ## How much the lines grow -/

/-- The records at the beginning, up to the next header. -/
def recordsOf (ls : List Line) : List Line := ls.takeWhile (!isHeader ·.body)

def behindRecords (ls : List Line) : List Line := ls.dropWhile (!isHeader ·.body)

/-- How much longer the lines get. -/
def growth (key value : CString) (ls : List Line) : ℤ :=
  (ls.map fun l ↦
    if isRecordOf key.1 l.body then ((l.renewed key.1 value.1).length : ℤ) - l.old else 0).sum

/-- The last of the records is replaced. -/
def lastReplaced (key : CString) (sec : List Line) : Bool :=
  (recordsOf sec).getLast?.any (isRecordOf key.1 ·.body)

/-- The last of the records is replaced, and the next header is right behind it. -/
def separated (key : CString) (sec : List Line) : Bool :=
  lastReplaced key sec && (behindRecords sec).head?.any (·.lead.isEmpty)

/-- The last character is not trivial. -/
def endsNontrivial (text : List U8) : Bool := text.getLast?.any (!isTrivial ·)

/-- The lines fit into so much room behind the file. -/
def Fits (key value : CString) (spare : ℕ) (sec : List Line) : Prop :=
  (∀ p, p <+: recordsOf sec → growth key value p ≤ spare)
    ∧ (separated key sec = true → growth key value (recordsOf sec) + 1 ≤ spare)

section Lines

variable {key value : CString} {l : Line} {ls : List Line} {tail : List U8} {spare : ℕ}

@[simp] theorem growth_nil (key value : CString) : growth key value [] = 0 := rfl

theorem growth_cons (key value : CString) (l : Line) (ls : List Line) :
    growth key value (l :: ls) = (if isRecordOf key.1 l.body then
      ((l.renewed key.1 value.1).length : ℤ) - l.old else 0) + growth key value ls := by
  rw [growth, List.map_cons, List.sum_cons, growth]

theorem recordsOf_cons (h : isHeader l.body = false) :
    recordsOf (l :: ls) = l :: recordsOf ls := List.takeWhile_cons_of_pos (by rw [h]; rfl)

theorem behindRecords_cons (h : isHeader l.body = false) :
    behindRecords (l :: ls) = behindRecords ls := List.dropWhile_cons_of_pos (by rw [h]; rfl)

theorem recordsOf_header (ls : List Line) (h : isHeader l.body = true) : recordsOf (l :: ls) = [] :=
  List.takeWhile_cons_of_neg (by rw [h]; exact Bool.false_ne_true)

theorem recordsOf_append (ls : List Line) : recordsOf ls ++ behindRecords ls = ls :=
  List.takeWhile_append_dropWhile

theorem lastReplaced_cons (h : isHeader l.body = false) :
    lastReplaced key (l :: ls)
      = if recordsOf ls = [] then isRecordOf key.1 l.body else lastReplaced key ls := by
  rw [lastReplaced, recordsOf_cons h]
  split_ifs with hnil
  · rw [hnil]
    rfl
  · rw [List.getLast?_cons, lastReplaced]
    obtain ⟨r, rs, hr⟩ := List.exists_cons_of_ne_nil hnil
    rw [hr, List.getLast?_cons]
    rfl

theorem lastReplaced_eq_false (h : recordsOf ls = []) : lastReplaced key ls = false := by
  rw [lastReplaced, h]
  rfl

/-- A header comes next if there is nothing in front of it. -/
theorem opens_linesText (h : Parsed ls tail) :
    opens (linesText ls ++ tail) = ls.head?.any fun l ↦ isHeader l.body && l.lead.isEmpty := by
  cases h with
  | done htail =>
    cases tail with
    | nil => rfl
    | cons c cs =>
      have hc := htail c List.mem_cons_self
      rw [linesText_nil, List.nil_append, opens, List.head?_cons, List.head?_nil, Option.any_none,
        Option.some_beq_some, beq_eq_false_iff_ne]
      rintro rfl
      exact absurd hc (by decide)
  | @line l ls _ hok hends h =>
    obtain ⟨c, cs, hbody, -⟩ := hok.head
    rw [linesText_cons, Line.text, opens, List.head?_cons, Option.any_some]
    cases hlead : l.lead with
    | nil =>
      rw [hbody, isHeader_cons]
      exact (Bool.and_true _).symm
    | cons d ds =>
      have hd := hok.lead d (by rw [hlead]; exact List.mem_cons_self)
      rw [List.isEmpty_cons, Bool.and_false, List.cons_append, List.cons_append, List.cons_append,
        List.cons_append, List.head?_cons, Option.some_beq_some, beq_eq_false_iff_ne]
      rintro rfl
      exact absurd hd (by decide)

theorem endsNontrivial_append {xs ys : List U8} (h : ys ≠ []) :
    endsNontrivial (xs ++ ys) = endsNontrivial ys := by
  rw [endsNontrivial, List.getLast?_append_of_ne_nil _ h, endsNontrivial]

theorem separated_eq_false (h : recordsOf ls = []) : separated key ls = false := by
  rw [separated, lastReplaced_eq_false h, Bool.false_and]

theorem separated_cons (hhead : isHeader l.body = false) (hne : recordsOf ls ≠ []) :
    separated key (l :: ls) = separated key ls := by
  rw [separated, separated, lastReplaced_cons hhead, if_neg hne, behindRecords_cons hhead]

theorem separated_cons_of_not (ls : List Line) (hhead : isHeader l.body = false)
    (hrec : isRecordOf key.1 l.body = false) : separated key (l :: ls) = separated key ls := by
  by_cases hnil : recordsOf ls = []
  · rw [separated, lastReplaced_cons hhead, if_pos hnil, hrec, Bool.false_and,
      separated_eq_false hnil]
  · exact separated_cons hhead hnil

/-- Behind the last record is a header. -/
theorem separated_last (hhead : isHeader l.body = false) (hnil : recordsOf ls = []) :
    separated key (l :: ls) = (isRecordOf key.1 l.body
      && ls.head?.any fun h ↦ isHeader h.body && h.lead.isEmpty) := by
  have hbehind := recordsOf_append ls
  rw [hnil, List.nil_append] at hbehind
  rw [separated, lastReplaced_cons hhead, if_pos hnil, behindRecords_cons hhead, hbehind]
  cases ls with
  | nil => rfl
  | cons h hs =>
    cases hheader : isHeader h.body with
    | true => simp [hheader]
    | false =>
      rw [recordsOf_cons hheader] at hnil
      exact absurd hnil (List.cons_ne_nil _ _)

theorem fits_of_nil (h : recordsOf ls = []) : Fits key value spare ls := by
  refine ⟨fun p hp ↦ ?_, fun hsep ↦ ?_⟩
  · rw [h, List.prefix_nil] at hp
    rw [hp]
    exact Int.natCast_nonneg spare
  · rw [separated_eq_false h] at hsep
    exact absurd hsep Bool.false_ne_true

/-- The records are taken one by one. -/
theorem fits_cons (spare' : ℕ) (hhead : isHeader l.body = false)
    (hspare : (spare : ℤ) - growth key value [l] = spare')
    (hsep : separated key (l :: ls) = separated key ls) :
    Fits key value spare (l :: ls) ↔ Fits key value spare' ls := by
  have hgrow : ∀ p, growth key value (l :: p) = growth key value [l] + growth key value p := by
    intro p
    rw [growth_cons, growth_cons key value l [], growth_nil, add_zero]
  rw [Fits, Fits, recordsOf_cons hhead, hsep, hgrow]
  refine ⟨fun ⟨hall, hlast⟩ ↦ ⟨fun p hp ↦ ?_, fun h ↦ ?_⟩, fun ⟨hall, hlast⟩ ↦ ⟨fun p hp ↦ ?_,
    fun h ↦ ?_⟩⟩
  · have := hall (l :: p) ((List.prefix_cons_inj l).mpr hp)
    rw [hgrow] at this
    omega
  · have := hlast h
    omega
  · rcases List.prefix_cons_iff.mp hp with rfl | ⟨q, rfl, hq⟩
    · exact Int.natCast_nonneg spare
    · have := hall q hq
      rw [hgrow]
      omega
  · have := hlast h
    omega

/-- What becomes of the lines if they fit. -/
structure Grown (key value : CString) (sec : List Line) (tail text : List U8) : Prop where
  length : (text.length : ℤ)
    = (linesText sec ++ tail).length + growth key value (recordsOf sec)
  nil : text = [] → linesText sec ++ tail = []
  ends : separated key sec = false → endsNontrivial text
    = (!(lastReplaced key sec && (behindRecords sec).isEmpty)
      && endsNontrivial (linesText sec ++ tail))

/-- The lines are not changed. -/
theorem Grown.refl {sec : List Line} (h : recordsOf sec = []) :
    Grown key value sec tail (linesText sec ++ tail) := by
  refine ⟨?_, id, fun _ ↦ ?_⟩
  · rw [h, growth_nil, add_zero]
  · rw [lastReplaced_eq_false h, Bool.false_and, Bool.not_false, Bool.true_and]

theorem linesText_append_eq_nil (hparsed : Parsed ls tail) (h : linesText ls ++ tail = []) :
    ls = [] := by
  cases hparsed with
  | done => rfl
  | line hok =>
    have hpos := hok.length_text_pos
    have hlen := congrArg List.length h
    rw [linesText_cons, List.append_assoc, List.length_append, List.length_nil] at hlen
    omega

theorem entryText_ends (key value : List U8) :
    ∃ front, entryText key value = front ++ [LF] := by
  refine ⟨key ++ EQUALS :: ((quotechar value).toList ++ value ++ (quotechar value).toList), ?_⟩
  rw [entryText]
  simp only [List.append_assoc, List.cons_append]

/-- A newline and spaces are trivial. -/
theorem endsNontrivial_spaces (front : List U8) (h : Parsed [] tail) :
    endsNontrivial (front ++ [LF] ++ tail) = false := by
  cases h with
  | done htail =>
    have hne : [LF] ++ tail ≠ [] := List.cons_ne_nil _ _
    rw [List.append_assoc, endsNontrivial_append hne, endsNontrivial,
      List.getLast?_eq_some_getLast hne, Option.any_some, Bool.not_eq_false']
    have hmem := List.getLast_mem hne
    rcases List.mem_append.mp hmem with hc | hc
    · rw [List.mem_singleton.mp hc]
      rfl
    · rw [isTrivial, htail _ hc, Bool.true_or]

/-- Another line is left as it is, or replaced. -/
theorem Grown.cons {text done : List U8} (hparsed : Parsed ls tail)
    (hhead : isHeader l.body = false) (h : Grown key value ls tail text) (hdone : done ≠ [])
    (hlen : (done.length : ℤ) = l.text.length + growth key value [l])
    (hsep : separated key (l :: ls) = separated key ls)
    (hlast : ls = [] → text = tail ∧ endsNontrivial (done ++ tail)
      = (!isRecordOf key.1 l.body && endsNontrivial (l.text ++ tail))) :
    Grown key value (l :: ls) tail (done ++ text) := by
  refine ⟨?_, fun hnil ↦ absurd (List.append_eq_nil_iff.mp hnil).1 hdone, fun hends ↦ ?_⟩
  · have := h.length
    rw [recordsOf_cons hhead, growth_cons, linesText_cons]
    rw [growth_cons, growth_nil] at hlen
    simp only [List.length_append, Nat.cast_add] at this ⊢
    omega
  · have hrest := h.ends (hsep ▸ hends)
    rw [linesText_cons, List.append_assoc, behindRecords_cons hhead, lastReplaced_cons hhead]
    by_cases hnil : ls = []
    · obtain ⟨rfl, hend⟩ := hlast hnil
      rw [hend, hnil, if_pos (show recordsOf [] = [] from rfl)]
      exact congrArg (!· && _) (Bool.and_true _).symm
    · have hne : linesText ls ++ tail ≠ [] := fun h ↦ hnil (linesText_append_eq_nil hparsed h)
      rw [endsNontrivial_append fun htext ↦ hne (h.nil htext), endsNontrivial_append hne, hrest]
      split_ifs with hrecords
      · have hbehind := recordsOf_append ls
        rw [hrecords, List.nil_append] at hbehind
        rw [lastReplaced_eq_false hrecords, hbehind, List.isEmpty_eq_false_iff.mpr hnil]
        simp
      · rfl

/-- **The lines are replaced** if and only if they fit. -/
theorem editLines_spec (key value : CString) (hparsed : Parsed ls tail) (spare : ℕ) :
    editLines (some key) (some value) spare ls tail = none ∧ ¬Fits key value spare ls
      ∨ ∃ text, editLines (some key) (some value) spare ls tail = some text
        ∧ Fits key value spare ls ∧ Grown key value ls tail text := by
  induction hparsed generalizing spare with
  | done htail => exact .inr ⟨_, rfl, fits_of_nil rfl, .refl rfl⟩
  | @line l ls tail hok hends hparsed ih =>
    rw [editLines]
    cases hhead : isHeader l.body with
    | true =>
      have hnil := recordsOf_header ls hhead
      rw [if_pos rfl, ← List.append_assoc, ← linesText_cons]
      exact .inr ⟨_, rfl, fits_of_nil hnil, .refl hnil⟩
    | false =>
      rw [if_neg Bool.false_ne_true]
      have hopens := opens_linesText hparsed
      have hbody := List.length_pos_iff.mpr hok.body_ne
      cases hrec : isRecordOf key.1 l.body with
      | false =>
        have hsep := separated_cons_of_not ls hhead hrec
        have hgrow : growth key value [l] = 0 := by
          rw [growth_cons, hrec, if_neg Bool.false_ne_true, growth_nil, add_zero]
        have hfits : Fits key value spare (l :: ls) ↔ Fits key value spare ls :=
          fits_cons spare hhead (by rw [hgrow, sub_zero]) hsep
        rw [if_neg (by rw [wanted, Option.elim_some, hrec]; exact Bool.false_ne_true), hfits]
        rcases ih spare with ⟨hnone, hnot⟩ | ⟨text, hsome, hfit, hgrown⟩
        · exact .inl ⟨by rw [hnone]; rfl, hnot⟩
        · refine .inr ⟨l.text ++ text, by rw [hsome]; rfl, hfit, hgrown.cons hparsed hhead
            (List.ne_nil_of_length_pos hok.length_text_pos) ?_ hsep fun hnil ↦ ⟨?_, ?_⟩⟩
          · rw [hgrow, add_zero]
          · subst hnil
            exact (Option.some.inj hsome).symm
          · rw [hrec, Bool.not_false, Bool.true_and]
      | true =>
        rw [if_pos (show wanted (some key) l.body = true from hrec), editLine]
        dsimp only [Option.map_some, Option.getD_some]
        have hgrow : growth key value [l] = ((l.renewed key.1 value.1).length : ℤ) - l.old := by
          rw [growth_cons, hrec, if_pos rfl, growth_nil, add_zero]
        have htext := l.length_text
        obtain ⟨front, hnew⟩ := entryText_ends (key.1.take (keyText l.body).length) value.1
        rw [← Line.renewed] at hnew
        have hdone : l.kept ++ l.renewed key.1 value.1 ≠ [] := by
          rw [hnew]
          simp
        have hlen : ((l.kept ++ l.renewed key.1 value.1).length : ℤ)
            = l.text.length + growth key value [l] := by
          rw [hgrow, List.length_append, htext]
          omega
        cases hopen : opens (linesText ls ++ tail) with
        | true =>
          have hnil : recordsOf ls = [] := by
            cases ls with
            | nil => rfl
            | cons h hs =>
              rw [hopens] at hopen
              exact recordsOf_header hs (Bool.and_eq_true_iff.mp hopen).1
          have hrecords : recordsOf (l :: ls) = [l] := by rw [recordsOf_cons hhead, hnil]
          have hsep : separated key (l :: ls) = true := by
            rw [separated_last hhead hnil, hrec, ← hopens, hopen]
            rfl
          have hbehind := length_behindNew (linesText ls ++ tail)
          simp only [Bool.toNat_true]
          by_cases hle : (l.renewed key.1 value.1).length + 1 ≤ spare + l.old
          · rw [if_pos hle, if_pos trivial]
            refine .inr ⟨_, rfl, ⟨fun p hp ↦ ?_, fun _ ↦ ?_⟩, ⟨?_, fun h ↦ ?_, fun h ↦ ?_⟩⟩
            · rw [hrecords] at hp
              rcases List.prefix_cons_iff.mp hp with rfl | ⟨q, rfl, hq⟩
              · exact Int.natCast_nonneg spare
              · rw [List.prefix_nil.mp hq]
                omega
            · rw [hrecords]
              omega
            · have hall : (l.text ++ (linesText ls ++ tail)).length
                  = l.text.length + (linesText ls ++ tail).length := List.length_append
              rw [hrecords, linesText_cons, List.append_assoc, hall, List.length_append, hbehind,
                Nat.cast_add, hlen]
              omega
            · exact absurd (List.append_eq_nil_iff.mp h).1 hdone
            · rw [hsep] at h
              exact absurd h.symm Bool.false_ne_true
          · rw [if_neg hle]
            refine .inl ⟨rfl, fun hfit ↦ ?_⟩
            have hmore := hfit.2 hsep
            rw [hrecords] at hmore
            omega
        | false =>
          have hsep : separated key (l :: ls) = separated key ls := by
            by_cases hnil : recordsOf ls = []
            · rw [separated_eq_false hnil, separated_last hhead hnil, ← hopens, hopen,
                Bool.and_false]
            · exact separated_cons hhead hnil
          simp only [Bool.toNat_false, Nat.add_zero]
          by_cases hle : (l.renewed key.1 value.1).length ≤ spare + l.old
          · rw [if_pos hle, if_neg Bool.false_ne_true,
              fits_cons (spare + l.old - (l.renewed key.1 value.1).length) hhead
                (by rw [hgrow]; omega) hsep]
            rcases ih (spare + l.old - (l.renewed key.1 value.1).length) with
              ⟨hnone, hnot⟩ | ⟨text, hsome, hfit, hgrown⟩
            · exact .inl ⟨by rw [hnone]; rfl, hnot⟩
            · refine .inr ⟨_, by rw [hsome]; rfl, hfit, hgrown.cons hparsed hhead hdone hlen hsep
                fun hnil ↦ ⟨?_, ?_⟩⟩
              · subst hnil
                exact (Option.some.inj hsome).symm
              · subst hnil
                rw [hrec, Bool.not_true, Bool.false_and, hnew, ← List.append_assoc]
                exact endsNontrivial_spaces (l.kept ++ front) hparsed
          · rw [if_neg hle]
            refine .inl ⟨rfl, fun hfit ↦ ?_⟩
            have hone := hfit.1 [l] (by
              rw [recordsOf_cons hhead]
              exact List.prefix_append [l] (recordsOf ls))
            omega

end Lines

/-! ## The whole write -/

/-- One more character is stored than the lines grow by: a newline in front of the next header, or
behind the file. -/
def oneMore (key : CString) (content : List U8) (sec : List Line) : Bool :=
  separated key sec
    || !(lastReplaced key sec && (behindRecords sec).isEmpty) && endsNontrivial content

/-- **The block has room** for what the lines of the key grow by, from the first one up to any
other. -/
def Roomy (sect : Option CString) (key value : CString) (content : List U8) : Prop :=
  let sec := sectionLines (sect.map Subtype.val) (linesOf content)
  let spare : ℕ := 16 + entryLen sect (some key) (some value)
  (∀ p, p <+: recordsOf sec → growth key value p ≤ spare)
    ∧ growth key value (recordsOf sec) + (oneMore key content sec).toNat ≤ spare

section Write

variable {sect : Option CString} {key value : CString} {content : List U8}

theorem finishFile_ne_none_iff (text rest : List U8) :
    finishFile (text ++ rest) text.length ≠ none ↔ rest ≠ [] ∨ endsNontrivial text = false := by
  by_cases hrest : rest = []
  · subst hrest
    rw [or_iff_right (not_not.mpr rfl)]
    cases text using List.reverseRecOn with
    | nil => exact ⟨fun _ ↦ rfl, fun _ ↦ Option.some_ne_none _⟩
    | append_singleton cs c =>
      have hends : endsNontrivial (cs ++ [c]) = !isTrivial c := by
        rw [endsNontrivial, List.getLast?_append, List.getLast?_singleton]
        rfl
      rw [hends]
      cases hc : isTrivial c with
      | true =>
        have hlt : ((cs ++ [c]).rdropWhile isTrivial).length < (cs ++ [c] ++ []).length := by
          rw [List.rdropWhile_concat_pos _ _ _ hc, List.append_nil, List.length_append]
          exact Nat.lt_succ_of_le (List.rdropWhile_prefix _ _).length_le
        rw [finishFile_of_lt hlt]
        exact ⟨fun _ ↦ rfl, fun _ ↦ Option.some_ne_none _⟩
      | false =>
        rw [finishFile_of_ge]
        · exact ⟨fun h ↦ absurd rfl h, fun h ↦ absurd h.symm Bool.false_ne_true⟩
        · rw [List.rdropWhile_concat_neg _ _ _ (by rw [hc]; exact Bool.false_ne_true),
            List.append_nil]
        · exact List.concat_ne_nil c cs
  · rw [finishFile_of_ne_nil hrest]
    exact ⟨fun _ ↦ .inl hrest, fun _ ↦ Option.some_ne_none _⟩

/-- The lines do not grow if none is of the key. -/
theorem growth_eq_zero {sec : List Line} (h : anyWanted (some key) sec = false) {p : List Line}
    (hp : p <+: recordsOf sec) : growth key value p = 0 := by
  rw [anyWanted, List.takeWhile_map, List.any_map, List.any_eq_false] at h
  refine List.sum_eq_zero fun n hn ↦ ?_
  obtain ⟨l, hl, rfl⟩ := List.mem_map.mp hn
  exact if_neg (h l (hp.subset hl))

theorem roomy_of_growth {sec : List Line}
    (hsec : sectionLines (sect.map Subtype.val) (linesOf content) = sec)
    (hgrow : ∀ p, p <+: recordsOf sec → growth key value p = 0) : Roomy sect key value content := by
  rw [Roomy, hsec]
  refine ⟨fun p hp ↦ ?_, ?_⟩
  · rw [hgrow p hp]
    exact Int.natCast_nonneg _
  · have hone := (oneMore key content sec).toNat_le
    rw [hgrow _ (List.prefix_refl _)]
    omega

/-- There is room if there is no such section. -/
theorem roomy_of_not (hsect : hasSection (sect.map Subtype.val) content = false) :
    Roomy sect key value content := by
  have hnil : sectionLines (sect.map Subtype.val) (linesOf content) = [] := by
    cases sect with
    | none =>
      obtain rfl : content = [] := by simpa [hasSection] using hsect
      rfl
    | some s =>
      have hnone : ∀ l ∈ linesOf content, isHeaderLine s.1 l = false := by
        simpa [hasSection] using hsect
      rw [Option.map_some, sectionLines, List.dropWhile_eq_nil_iff.mpr, List.tail_nil]
      exact fun l hl ↦ by rw [hnone l hl]; rfl
  refine roomy_of_growth hnil fun p hp ↦ ?_
  rw [List.prefix_nil.mp hp, growth_nil]

theorem holdsAt_replicate (n : ℕ) : HoldsAt (List.replicate (n + 1) LF) 0 [LF] := by
  rw [List.replicate_succ]
  exact List.prefix_append [LF] _

/-- **A write of an entry** stays within the block if and only if it has the room. -/
theorem editBlock_insert_iff (file : Option (List U8)) :
    editBlock (content ++ List.replicate (16 + entryLen sect (some key) (some value)) LF)
      content.length file sect (some key) (some value) ≠ none ↔ Roomy sect key value content := by
  have hlen : entryLen sect (some key) (some value)
      = ((sect.map Subtype.val).getD []).length + key.1.length + value.1.length + 3 := rfl
  have hslack := holdsAt_replicate (15 + entryLen sect (some key) (some value))
  rw [Nat.add_right_comm] at hslack
  have hreplicate := List.length_replicate (n := 15 + 1 + entryLen sect (some key) (some value))
    (a := LF)
  generalize List.replicate (15 + 1 + entryLen sect (some key) (some value)) LF = slack
    at hslack hreplicate ⊢
  have hne : slack ≠ [] := List.ne_nil_of_length_pos (by omega)
  cases hsect : hasSection (sect.map Subtype.val) content with
  | false =>
    rw [editBlock_section file hslack (by omega) hsect]
    exact ⟨fun _ ↦ roomy_of_not hsect, fun _ ↦ Option.some_ne_none _⟩
  | true =>
    obtain ⟨pre, sec, tail, b, fuel, h⟩ := scanFile_some (some key)
      (replaceLine (some key) (some value)) hslack hsect
    have hroomy : Roomy sect key value content ↔ (∀ p, p <+: recordsOf sec →
        growth key value p ≤ slack.length)
        ∧ growth key value (recordsOf sec) + (oneMore key content sec).toNat ≤ slack.length := by
      rw [Roomy, h.sectionLines, hreplicate]
    cases hany : anyWanted (some key) sec with
    | false =>
      rw [editBlock_entry file h (by omega) (editLines_of_not tail hany _) hany]
      exact ⟨fun _ ↦ roomy_of_growth h.sectionLines fun p hp ↦ growth_eq_zero hany hp,
        fun _ ↦ Option.some_ne_none _⟩
    | true =>
      rcases editLines_spec key value h.parsed slack.length with
        ⟨hedit, hnot⟩ | ⟨text, hedit, hfits, hgrown⟩
      · rw [editBlock_outside file h hne hedit, hroomy]
        refine ⟨fun h ↦ absurd rfl h, fun ⟨hall, hlast⟩ ↦ absurd ⟨hall, fun hsep ↦ ?_⟩ hnot⟩
        rw [oneMore, hsep, Bool.true_or, Bool.toNat_true] at hlast
        exact hlast
      · obtain ⟨rest, hlength, hblock⟩ := editBlock_replaced file h hne hedit hany
        have hgrow := hgrown.length
        have htextlen := congrArg List.length h.text
        rw [List.length_append] at hlength htextlen
        have hsec : linesText sec ++ tail ≠ [] := by
          intro hnil
          rw [linesText_append_eq_nil h.parsed hnil] at hany
          exact absurd hany Bool.false_ne_true
        have htext : text ≠ [] := fun hnil ↦ hsec (hgrown.nil hnil)
        rw [hblock, Ne, Option.map_eq_none_iff, ← Ne, finishFile_ne_none_iff,
          endsNontrivial_append htext, hroomy, ← List.length_pos_iff]
        have hcontent : endsNontrivial content = endsNontrivial (linesText sec ++ tail) := by
          rw [h.text, endsNontrivial_append hsec]
        have hwhole := hfits.1 _ (List.prefix_refl _)
        rw [and_iff_right hfits.1, oneMore]
        cases hsep : separated key sec with
        | true =>
          have hmore := hfits.2 hsep
          rw [Bool.true_or, Bool.toNat_true]
          exact ⟨fun _ ↦ hmore, fun _ ↦ .inl (by omega)⟩
        | false =>
          rw [Bool.false_or, hcontent, ← hgrown.ends hsep]
          cases endsNontrivial text with
          | true =>
            rw [Bool.toNat_true]
            exact ⟨fun h ↦ by have := h.resolve_right (by decide); omega, fun _ ↦ .inl (by omega)⟩
          | false =>
            rw [Bool.toNat_false, Nat.cast_zero, add_zero]
            exact ⟨fun _ ↦ hwhole, fun _ ↦ .inr rfl⟩

/-- **A write stays within the block** that it has allocated, if and only if there is room for what
the lines of the key grow by. -/
theorem writeString_inside (malloc : ℕ → Bool) (file : Option (List U8))
    (sect key value : Option CString) :
    writeString malloc file sect key value ≠ none
      ↔ ∀ k v, key = some k → value = some v →
        allocates malloc ((file.getD []).length + 16 + entryLen sect key value) = true →
        Roomy sect k v (file.getD []) := by
  -- the block is as long as it takes to hold the file and the entry
  have hblock : ∀ key value : Option CString,
      editBlock (file.getD [] ++ List.replicate
        ((file.getD []).length + 16 + entryLen sect key value - (file.getD []).length) LF)
        (file.getD []).length file sect key value ≠ none
      ↔ ∀ k v, key = some k → value = some v → Roomy sect k v (file.getD []) := by
    intro key value
    rw [Nat.add_assoc, Nat.add_sub_cancel_left]
    have hdelete : key = none ∨ value = none → editBlock (file.getD [] ++ List.replicate
        (16 + entryLen sect key value) LF) (file.getD []).length file sect key value ≠ none := by
      have hslack := holdsAt_replicate (15 + entryLen sect key value)
      rw [Nat.add_right_comm] at hslack
      refine editBlock_delete file hslack ?_
      rw [List.length_replicate]
      omega
    cases key with
    | none =>
      exact ⟨fun _ k v hk ↦ absurd hk.symm (Option.some_ne_none k), fun _ ↦ hdelete (.inl rfl)⟩
    | some k =>
      cases value with
      | none =>
        exact ⟨fun _ k v _ hv ↦ absurd hv.symm (Option.some_ne_none v), fun _ ↦ hdelete (.inr rfl)⟩
      | some v =>
        rw [editBlock_insert_iff]
        exact ⟨fun h k' v' hk hv ↦ Option.some.inj hk ▸ Option.some.inj hv ▸ h,
          fun h ↦ h k v rfl rfl⟩
  rw [writeString]
  split_ifs with hflush hnofile
  · refine ⟨fun _ k v hk ↦ ?_, fun _ ↦ Option.some_ne_none _⟩
    rw [hflush.2.1] at hk
    exact nomatch hk
  · refine ⟨fun _ k v hk hv _ ↦ ?_, fun _ ↦ Option.some_ne_none _⟩
    obtain ⟨rfl, rfl | rfl | rfl⟩ := hnofile
    · exact roomy_of_not rfl
    · exact nomatch hk
    · exact nomatch hv
  · dsimp only
    split_ifs with hmalloc
    · rw [hblock]
      exact ⟨fun h k v hk hv _ ↦ h k v hk hv, fun h k v hk hv ↦ h k v hk hv hmalloc⟩
    · exact ⟨fun _ k v _ _ h ↦ absurd h hmalloc, fun _ ↦ Option.some_ne_none _⟩

end Write

/-- `"[a]\nk=\nk=\nk=\nk=\n"` -/
def REPEATED : List U8 :=
  [91#8, 97#8, 93#8, 10#8, 107#8, 61#8, 10#8, 107#8, 61#8, 10#8, 107#8, 61#8, 10#8, 107#8, 61#8,
    10#8]

/-- Four lines of the key that grow by ten characters each do not fit. -/
theorem not_writeString_inside_repeated :
    ¬∀ (malloc : ℕ → Bool) (file : Option (List U8)) (sect key value : Option CString),
      writeString malloc file sect key value ≠ none := fun h ↦
  h (fun _ ↦ true) (some REPEATED) (some ⟨[97#8], by decide⟩) (some ⟨[107#8], by decide⟩)
    (some ⟨List.replicate 10 48#8, by decide⟩) (by decide +kernel)

end Hyunjin.Ini
