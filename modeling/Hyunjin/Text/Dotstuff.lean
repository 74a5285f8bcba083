import Hyunjin.Word.Bytes
import Mathlib.Data.List.Basic

/-!
# Lines with dots

A text whose lines end with a line feed, or with a carriage return and a line feed, is sent with the
ends of lines made uniform, and with a second dot on each line that starts with one (`stuff`). What
is sent has no line of a single dot (`stuffed_stuff`), and with the second dots removed it has the
lines of the text (`upToEnd_stuff`), but for an end of the text that does not matter: a last line
end, or a dot on the last line.
-/

namespace Hyunjin.Dotstuff

def CR : U8 := 13#8

def LF : U8 := 10#8

def DOT : U8 := 46#8

/-! ## Lines -/

/-- A carriage return comes before a line feed only. -/
def LineEnds : List U8 → Prop
  | [] => True
  | c :: cs => (c = CR → cs.head? = some LF) ∧ LineEnds cs

instance decidableLineEnds : (t : List U8) → Decidable (LineEnds t)
  | [] => isTrue trivial
  | c :: cs =>
    have := decidableLineEnds cs
    inferInstanceAs (Decidable ((c = CR → cs.head? = some LF) ∧ LineEnds cs))

/-- A character is added to the first line. -/
def addFirst (c : U8) : List (List U8) → List (List U8)
  | [] => [[c]]
  | l :: ls => (c :: l) :: ls

/-- The lines of a text, the last of which is empty if the text ends with a line end. -/
def linesOf : List U8 → List (List U8)
  | [] => [[]]
  | c :: cs =>
    if c = LF then [] :: linesOf cs
    else if c = CR ∧ cs.head? = some LF then linesOf cs
    else addFirst c (linesOf cs)

theorem linesOf_LF (cs : List U8) : linesOf (LF :: cs) = [] :: linesOf cs := by
  rw [linesOf, if_pos rfl]

theorem linesOf_CR_LF (cs : List U8) : linesOf (CR :: LF :: cs) = [] :: linesOf cs := by
  rw [linesOf, if_neg (by decide), if_pos ⟨rfl, rfl⟩, linesOf_LF]

theorem linesOf_cons {c : U8} (hLF : c ≠ LF) (hCR : c ≠ CR) (cs : List U8) :
    linesOf (c :: cs) = addFirst c (linesOf cs) := by
  rw [linesOf, if_neg hLF, if_neg fun h ↦ hCR h.1]

/-- There is a first line. -/
theorem exists_linesOf (t : List U8) : ∃ l ls, linesOf t = l :: ls := by
  induction t with
  | nil => exact ⟨[], [], rfl⟩
  | cons c t ih =>
    obtain ⟨l, ls, h⟩ := ih
    rw [linesOf, h]
    split_ifs
    · exact ⟨_, _, rfl⟩
    · exact ⟨_, _, rfl⟩
    · exact ⟨_, _, rfl⟩

/-- Lines with uniform line ends between them. -/
def joinLines (ls : List (List U8)) : List U8 := [CR, LF].intercalate ls

theorem joinLines_nil_cons (t : List U8) :
    joinLines ([] :: linesOf t) = CR :: LF :: joinLines (linesOf t) := by
  obtain ⟨l, ls, h⟩ := exists_linesOf t
  rw [h, joinLines, List.intercalate_cons_cons]
  rfl

theorem joinLines_addFirst (c : U8) (t : List U8) :
    joinLines (addFirst c (linesOf t)) = c :: joinLines (linesOf t) := by
  obtain ⟨l, ls, h⟩ := exists_linesOf t
  rw [h, addFirst, joinLines, joinLines]
  cases ls with
  | nil => rfl
  | cons l' ls => rw [List.intercalate_cons_cons, List.intercalate_cons_cons]; rfl

/-- A line end between two texts. -/
theorem linesOf_append (t s : List U8) :
    linesOf (t ++ CR :: LF :: s) = linesOf t ++ linesOf s := by
  induction t with
  | nil => exact linesOf_CR_LF s
  | cons c t ih =>
    have hhead : (t ++ CR :: LF :: s).head? = some LF ↔ t.head? = some LF := by
      cases t with
      | nil => exact iff_of_false (by simp [CR, LF]) (by simp)
      | cons d t => exact Iff.rfl
    obtain ⟨l, ls, hl⟩ := exists_linesOf t
    rw [List.cons_append, linesOf, linesOf, ih]
    simp only [hhead]
    split_ifs
    · rfl
    · rfl
    · rw [hl]
      rfl

/-! ## Dots -/

/-- The text with second dots, where `start` says whether a line starts here. A dot that would be
the last line on its own is left out, and so is a last line end with a carriage return. -/
def stuff (start : Bool) : List U8 → List U8
  | [] => []
  | c :: cs =>
    if c = DOT ∧ start = true then if cs = [] then [] else DOT :: DOT :: stuff false cs
    else if c = CR then if cs = [LF] then [] else stuff start cs
    else if c = LF then CR :: LF :: stuff true cs
    else c :: stuff false cs

theorem stuff_LF (start : Bool) (cs : List U8) :
    stuff start (LF :: cs) = CR :: LF :: stuff true cs := by
  rw [stuff, if_neg (fun h ↦ absurd h.1 (by decide)), if_neg (by decide), if_pos rfl]

/-- It does not matter where a line starts if the text does not start with a dot. -/
theorem stuff_false {t : List U8} (h : LineEnds t) (hdot : t.head? ≠ some DOT) :
    stuff false t = stuff true t := by
  cases t with
  | nil => rfl
  | cons c cs =>
    have hc (start : Bool) : ¬(c = DOT ∧ start = true) := fun hand ↦ hdot (by rw [hand.1]; rfl)
    rw [stuff, stuff, if_neg (hc false), if_neg (hc true)]
    by_cases hCR : c = CR
    · obtain ⟨cs, rfl⟩ := List.head?_eq_some_iff.mp (h.1 hCR)
      rw [stuff_LF, stuff_LF]
    · rw [if_neg hCR, if_neg hCR]

/-- The second dot is removed. -/
def unstuff : List U8 → List U8
  | [] => []
  | c :: cs => if c = DOT then cs else c :: cs

/-- A line that starts with a dot starts with two. -/
def Stuffed (l : List U8) : Prop := l.head? = some DOT → [DOT, DOT] <+: l

theorem stuffed_nil : Stuffed [] := fun h ↦ nomatch h

theorem stuffed_cons {c : U8} (h : c ≠ DOT) (l : List U8) : Stuffed (c :: l) :=
  fun hhead ↦ absurd (Option.some.inj hhead) h

theorem Stuffed.ne_dot {l : List U8} (h : Stuffed l) : l ≠ [DOT] := by
  rintro rfl
  exact absurd (h rfl).length_le (by decide)

/-- What is sent has uniform line ends. -/
theorem joinLines_stuff (start : Bool) (t : List U8) :
    joinLines (linesOf (stuff start t)) = stuff start t := by
  fun_induction stuff start t with
  | case1 => rfl
  | case2 => rfl
  | case3 start c cs hdot hne ih =>
    rw [linesOf_cons (by decide) (by decide), joinLines_addFirst,
      linesOf_cons (by decide) (by decide), joinLines_addFirst, ih]
  | case4 => rfl
  | case5 start cs hdot hne ih => exact ih
  | case6 start cs hdot hCR ih => rw [linesOf_CR_LF, joinLines_nil_cons, ih]
  | case7 start c cs hdot hCR hLF ih => rw [linesOf_cons hLF hCR, joinLines_addFirst, ih]

/-- All lines are stuffed, the first one if a line starts with it. -/
def AllStuffed (start : Bool) : List (List U8) → Prop
  | [] => True
  | l :: ls => (start = true → Stuffed l) ∧ ∀ l ∈ ls, Stuffed l

theorem AllStuffed.forall {ls : List (List U8)} (h : AllStuffed true ls) : ∀ l ∈ ls, Stuffed l := by
  cases ls with
  | nil => exact fun _ h ↦ nomatch h
  | cons l ls => exact List.forall_mem_cons.mpr ⟨h.1 rfl, h.2⟩

theorem AllStuffed.nil_cons {ls : List (List U8)} (h : AllStuffed true ls) (start : Bool) :
    AllStuffed start ([] :: ls) := ⟨fun _ ↦ stuffed_nil, h.forall⟩

/-- **What is sent is stuffed.** -/
theorem stuffed_stuff (start : Bool) (t : List U8) :
    AllStuffed start (linesOf (stuff start t)) := by
  fun_induction stuff start t with
  | case1 => exact ⟨fun _ ↦ stuffed_nil, fun _ h ↦ nomatch h⟩
  | case2 => exact ⟨fun _ ↦ stuffed_nil, fun _ h ↦ nomatch h⟩
  | case3 start c cs hdot hne ih =>
    obtain ⟨l, ls, hl⟩ := exists_linesOf (stuff false cs)
    rw [linesOf_cons (by decide) (by decide), linesOf_cons (by decide) (by decide), hl]
    rw [hl] at ih
    exact ⟨fun _ _ ↦ ⟨l, rfl⟩, ih.2⟩
  | case4 => exact ⟨fun _ ↦ stuffed_nil, fun _ h ↦ nomatch h⟩
  | case5 start cs hdot hne ih => exact ih
  | case6 start cs hdot hCR ih =>
    rw [linesOf_CR_LF]
    exact ih.nil_cons start
  | case7 start c cs hdot hCR hLF ih =>
    obtain ⟨l, ls, hl⟩ := exists_linesOf (stuff false cs)
    rw [linesOf_cons hLF hCR, hl]
    rw [hl] at ih
    exact ⟨fun hstart ↦ stuffed_cons (fun h ↦ hdot ⟨h, hstart⟩) l, ih.2⟩

/-! ## The way back -/

/-- The second dots are removed, from the first line only if a line starts with it. -/
def unstuffFrom (start : Bool) : List (List U8) → List (List U8)
  | [] => []
  | l :: ls => (if start then unstuff l else l) :: ls.map unstuff

theorem unstuffFrom_true (ls : List (List U8)) : unstuffFrom true ls = ls.map unstuff := by
  cases ls <;> rfl

/-- `ls` are lines of the text `ts`, but for its last line end and a dot on its last line. -/
def UpToEnd (start : Bool) (ts ls : List (List U8)) : Prop :=
  ts = ls ∨ ts = ls ++ [[]] ∨
    ∃ front, (start = true ∨ front ≠ []) ∧ ls = front ++ [[]] ∧
      (ts = front ++ [[DOT]] ∨ ts = front ++ [[DOT], []])

theorem UpToEnd.nil_cons {ts ls : List (List U8)} (h : UpToEnd true ts ls) (start : Bool) :
    UpToEnd start ([] :: ts) ([] :: ls) := by
  rcases h with rfl | rfl | ⟨front, -, rfl, hts⟩
  · exact .inl rfl
  · exact .inr (.inl rfl)
  · refine .inr (.inr ⟨[] :: front, .inr (List.cons_ne_nil _ _), rfl, ?_⟩)
    rcases hts with rfl | rfl
    · exact .inl rfl
    · exact .inr rfl

/-- A character is added to the first lines. -/
theorem UpToEnd.addFirst {ts ls : List (List U8)} (h : UpToEnd false ts ls) (hls : ls ≠ [])
    (start : Bool) (c : U8) : UpToEnd start (addFirst c ts) (addFirst c ls) := by
  rcases h with rfl | rfl | ⟨front, hfront, rfl, hts⟩
  · exact .inl rfl
  · obtain ⟨l, ls, rfl⟩ := List.exists_cons_of_ne_nil hls
    exact .inr (.inl rfl)
  · obtain ⟨l, front, rfl⟩ := List.exists_cons_of_ne_nil (hfront.resolve_left Bool.false_ne_true)
    refine .inr (.inr ⟨(c :: l) :: front, .inr (List.cons_ne_nil _ _), rfl, ?_⟩)
    rcases hts with rfl | rfl
    · exact .inl rfl
    · exact .inr rfl

/-- **The lines of the text come back.** -/
theorem upToEnd_stuff (start : Bool) {t : List U8} (h : LineEnds t) :
    UpToEnd start (linesOf t) (unstuffFrom start (linesOf (stuff start t))) := by
  fun_induction stuff start t with
  | case1 start => cases start <;> exact .inl rfl
  | case2 start c hdot =>
    obtain ⟨rfl, rfl⟩ := hdot
    exact .inr (.inr ⟨[], .inl rfl, rfl, .inl rfl⟩)
  | case3 start c cs hdot hne ih =>
    obtain ⟨rfl, rfl⟩ := hdot
    obtain ⟨l, ls, hl⟩ := exists_linesOf (stuff false cs)
    have hrest := ih h.2
    rw [hl] at hrest
    rw [linesOf_cons (by decide) (by decide) cs, linesOf_cons (by decide) (by decide),
      linesOf_cons (by decide) (by decide), hl]
    exact hrest.addFirst (List.cons_ne_nil _ _) true DOT
  | case4 start hdot => cases start <;> exact .inr (.inl rfl)
  | case5 start cs hdot hne ih =>
    obtain ⟨cs, rfl⟩ := List.head?_eq_some_iff.mp (h.1 rfl)
    rw [linesOf_CR_LF, ← linesOf_LF]
    exact ih h.2
  | case6 start cs hdot hCR ih =>
    rw [linesOf_LF, linesOf_CR_LF]
    have hrest := (ih h.2).nil_cons start
    rw [unstuffFrom_true] at hrest
    cases start <;> exact hrest
  | case7 start c cs hdot hCR hLF ih =>
    obtain ⟨l, ls, hl⟩ := exists_linesOf (stuff false cs)
    have hrest := (ih h.2).addFirst (by rw [hl]; exact List.cons_ne_nil _ _) start c
    rw [linesOf_cons hLF hCR, linesOf_cons hLF hCR]
    rw [hl] at hrest ⊢
    cases start with
    | false => exact hrest
    | true =>
      have hc : c ≠ DOT := fun heq ↦ hdot ⟨heq, rfl⟩
      have hfirst : unstuff (c :: l) = c :: l := if_neg hc
      rw [Dotstuff.addFirst, unstuffFrom, if_pos rfl, hfirst]
      exact hrest

theorem UpToEnd.first {start : Bool} {ts ls : List (List U8)} {l : List U8}
    (h : UpToEnd start ts (l :: ls)) : (∃ rest, ts = l :: rest) ∨ start = true ∧ l = [] := by
  rcases h with rfl | rfl | ⟨front, hfront, hls, hts⟩
  · exact .inl ⟨_, rfl⟩
  · exact .inl ⟨_, rfl⟩
  · cases front with
    | nil => exact .inr ⟨hfront.resolve_right (not_not_intro rfl), (List.cons.inj hls).1⟩
    | cons l' front =>
      obtain ⟨rfl, -⟩ := List.cons.inj hls
      exact .inl (hts.elim (fun h ↦ ⟨_, h⟩) fun h ↦ ⟨_, h⟩)

/-- **A text that starts with a dot** does not come back if its first line is sent as it is. -/
theorem not_upToEnd_of_dot {cs : List U8} (h : LineEnds (DOT :: cs))
    (hstuffed : ∀ l ∈ linesOf (stuff false (DOT :: cs)), Stuffed l) :
    ¬UpToEnd true (linesOf (DOT :: cs)) ((linesOf (stuff false (DOT :: cs))).map unstuff) := by
  intro hback
  have hfirst := upToEnd_stuff false h
  have hsent : stuff false (DOT :: cs) = DOT :: stuff false cs := by
    rw [stuff, if_neg (fun h ↦ Bool.false_ne_true h.2), if_neg (by decide), if_neg (by decide)]
  obtain ⟨l, ls, hl⟩ := exists_linesOf (stuff false cs)
  have hlines : linesOf (stuff false (DOT :: cs)) = (DOT :: l) :: ls := by
    rw [hsent, linesOf_cons (by decide) (by decide), hl, addFirst]
  rw [hlines] at hstuffed hback hfirst
  have hdot := hstuffed (DOT :: l) List.mem_cons_self
  rcases hfirst.first with ⟨rest, hrest⟩ | ⟨hno, -⟩
  · rw [hrest] at hback
    rcases hback.first with ⟨rest', hrest'⟩ | ⟨-, hempty⟩
    · exact absurd (List.cons.inj hrest').1 (List.cons_ne_self DOT l)
    · have hnil : l = [] := hempty
      exact hdot.ne_dot (by rw [hnil])
  · exact Bool.false_ne_true hno

end Hyunjin.Dotstuff
