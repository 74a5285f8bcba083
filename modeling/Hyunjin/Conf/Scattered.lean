import Hyunjin.Conf.Optionlist

/-!
# Reading option lists

Whatever the string is, the reader stays within its buffer and the string, and it changes nothing
for a contest whose name is not in the string. The invariant of an entry is that the word in the
buffer, up to the first colon, is a part of the string in capitals, and that it ends where the
reader is unless a blank has been seen.

A list that has been written is read back: the name is found, and the values are those of the
tables (`optionlist_exact`).
-/

namespace Hyunjin.Conf

open Memory

variable {two : Bool} {sc : Scan} {done s : List U8}

/-! ## Any string -/

/-- What is stored behind what is held. -/
theorem stores_spec (b : List U8) (len : ℕ) (ys : List U8) (h : len + ys.length ≤ b.length) :
    ∃ b', stores b len ys = some b' ∧ b'.length = b.length
      ∧ ∀ xs, xs.length = len → Memory.Holds b xs → Memory.Holds b' (xs ++ ys) := by
  obtain ⟨rest, hrest⟩ : ∃ rest, b = b.take len ++ rest := ⟨_, (List.take_append_drop len b).symm⟩
  have htake : (b.take len).length = len := List.length_take_of_le (by omega)
  have hlen := congrArg List.length hrest
  rw [List.length_append, htake] at hlen
  have hroom : ys.length ≤ rest.length := by omega
  have hstores := stores_behind (b.take len) hroom
  rw [← hrest, htake] at hstores
  refine ⟨_, hstores, ?_, fun xs hxs hheld ↦ ?_⟩
  · simp only [List.length_append, List.length_drop, htake]
    omega
  · rw [← hxs, hheld.take_eq]
    exact List.prefix_append _ _

/-- What holds of an entry at its end. -/
structure Scan.Fits (sc : Scan) (done : List U8) : Prop where
  length : sc.buffer.length = OPTION
  contest : ∀ p ∈ sc.contest, projectGetName p <:+: done.map toupper

/-- **The invariant of an entry** of which some characters have been read. -/
structure Scan.Ok (sc : Scan) (done : List U8) : Prop extends sc.Fits done where
  len : sc.len ≤ OPTION - 1
  word : sc.kwpos = 0 → ∃ w, w <:+: done ∧ (sc.precspace = false → w <:+ done)
    ∧ w.length = sc.len ∧ Memory.Holds sc.buffer (w.map toupper)
  blank : sc.kwpos = 0 → sc.precspace = true → sc.len ≠ 0

theorem Scan.Fits.mono (h : sc.Fits done) (s : List U8) : sc.Fits (done ++ s) where
  length := h.length
  contest p hp := by
    rw [List.map_append]
    exact (h.contest p hp).trans (List.prefix_append _ _).isInfix

theorem toupper_ne_zero' {c : U8} (h : c ≠ 0#8) : toupper c ≠ 0#8 := by
  revert c
  decide

theorem zero_notMem_toupper {w : List U8} (h : 0#8 ∉ w) : 0#8 ∉ w.map toupper := by
  intro hmem
  obtain ⟨c, hc, hzero⟩ := List.mem_map.mp hmem
  exact toupper_ne_zero' (ne_of_mem_of_not_mem hc h) hzero

/-- The end of a word. -/
theorem takeWord_ok (two : Bool) (h : sc.Ok done) (hlt : sc.len < OPTION - 1) (hdone : 0#8 ∉ done)
    (s : List U8) :
    ∃ sc' go, takeWord two sc = some (sc', go) ∧ sc'.Ok (done ++ s) := by
  have hlen : sc.len < sc.buffer.length := by
    rw [h.length]
    exact hlt.trans_le (Nat.sub_le _ _)
  have hnul : 0#8 ∈ sc.buffer.set sc.len 0#8 := List.mem_set hlen _
  have hfits : ∀ {sc' : Scan}, sc'.buffer = sc.buffer.set sc.len 0#8 → sc'.contest = sc.contest →
      sc'.Fits (done ++ s) := by
    intro sc' hbuffer hcontest
    refine ⟨by rw [hbuffer, List.length_set, h.length], ?_⟩
    rw [hcontest]
    exact (h.toFits.mono s).contest
  rw [takeWord, store_of_lt hlen]
  simp only [Option.bind_eq_bind, Option.bind_some]
  by_cases hzero : sc.len = 0
  · rw [if_pos hzero]
    refine ⟨_, _, rfl, hfits rfl rfl, h.len, fun _ ↦ ⟨[], ?_, fun _ ↦ ?_, hzero.symm, holds_nil _⟩,
      fun _ hp ↦ by cases hp⟩
    · exact List.nil_infix
    · exact List.nil_suffix
  · rw [if_neg hzero, cstr, if_pos hnul]
    simp only [Option.bind_some]
    split_ifs with h₁
    · -- the name
      have hkw : sc.kwpos = 0 := by omega
      obtain ⟨w, hw, -, hwlen, hheld⟩ := h.word hkw
      cases hfind : projects.find? (projectGetName · == (sc.buffer.set sc.len 0#8).takeWhile
          (· ≠ 0#8)) with
      | none =>
        exact ⟨_, _, rfl, hfits rfl rfl, h.len, fun hk ↦ absurd hk (Nat.succ_ne_zero _),
          fun _ hp ↦ by cases hp⟩
      | some p =>
        have hname := List.find?_some hfind
        rw [beq_iff_eq] at hname
        refine ⟨_, _, rfl, ⟨by rw [List.length_set, h.length], fun q hq ↦ ?_⟩, Nat.zero_le _,
          fun hk ↦ absurd hk (Nat.succ_ne_zero _), fun _ hp ↦ by cases hp⟩
        obtain rfl := Option.some.inj hq
        have hword : cstr (sc.buffer.set sc.len 0#8) = some (w.map toupper) := by
          obtain ⟨rest, hrest⟩ := hheld
          refine cstr_of_holds ?_ (zero_notMem_toupper fun hz ↦ hdone (hw.subset hz))
          have hlen' := congrArg List.length hrest
          rw [List.length_append, List.length_map, hwlen] at hlen'
          cases rest with
          | nil =>
            rw [List.length_nil] at hlen'
            omega
          | cons x rest =>
            rw [← hrest, ← hwlen, ← List.length_map (f := toupper),
              List.set_append_right _ _ le_rfl, Nat.sub_self, List.set_cons_zero]
            exact ⟨rest, by simp⟩
        rw [cstr, if_pos hnul] at hword
        rw [hname, Option.some.inj hword, List.map_append]
        exact (hw.map toupper).trans (List.prefix_append _ _).isInfix
    all_goals
      exact ⟨_, _, rfl, hfits rfl rfl, by first | exact h.len | exact Nat.zero_le _,
        fun hk ↦ absurd hk (Nat.succ_ne_zero _), fun _ hp ↦ by cases hp⟩

/-- **One character** is read, or the entry is left. -/
theorem optionLoop_cons (two : Bool) (h : sc.Ok done) (hdone : 0#8 ∉ done) (c : U8) (cs : List U8) :
    (∃ sc', sc'.Ok (done ++ [c]) ∧ optionLoop two (c :: cs) sc = optionLoop two cs sc')
      ∨ ∃ rest sc', optionLoop two (c :: cs) sc = some (rest, sc') ∧ rest <:+ c :: cs
        ∧ (isalpha c = true → sc.len < OPTION - 1 → rest <:+ cs) ∧ sc'.Fits (done ++ [c]) := by
  have hstay : c :: cs <:+ c :: cs := List.suffix_rfl
  have hnext : cs <:+ c :: cs := List.suffix_cons c cs
  generalize hout : optionLoop two (c :: cs) sc = out
  rw [optionLoop] at hout
  by_cases hlt : sc.len < OPTION - 1
  swap
  · rw [if_neg hlt] at hout
    exact .inr ⟨_, _, hout.symm, hstay, fun _ hlt' ↦ absurd hlt' hlt, h.toFits.mono [c]⟩
  obtain ⟨b, hput, hb, hheld⟩ := stores_spec sc.buffer sc.len [c, 0#8]
    (by rw [h.length]; exact Nat.lt_sub_iff_add_lt.mp hlt)
  rw [if_pos hlt, hput] at hout
  simp only [Option.bind_eq_bind, Option.bind_some] at hout
  have hb' : b.length = OPTION := hb.trans h.length
  -- the word stays where it is
  have hword : sc.kwpos = 0 → ∃ w, w <:+: done ∧ (sc.precspace = false → w <:+ done)
      ∧ w.length = sc.len ∧ Memory.Holds b (w.map toupper ++ [c, 0#8]) := by
    intro hk
    obtain ⟨w, hw, hsuffix, hlen, hold⟩ := h.word hk
    exact ⟨w, hw, hsuffix, hlen, hheld _ (by rw [List.length_map, hlen]) hold⟩
  have hstored : ({ sc with buffer := b } : Scan).Ok done :=
    ⟨⟨hb', h.contest⟩, h.len, fun hk ↦ by
      obtain ⟨w, hw, hsuffix, hlen, hold⟩ := hword hk
      exact ⟨w, hw, hsuffix, hlen, (List.prefix_append _ _).trans hold⟩, h.blank⟩
  have hfits := hstored.toFits.mono [c]
  have hkeep : sc.kwpos ≠ 0 ∨ sc.precspace = true →
      ({ sc with buffer := b } : Scan).Ok (done ++ [c]) := by
    refine fun hgone ↦ ⟨hfits, h.len, fun hk ↦ ?_, h.blank⟩
    obtain ⟨w, hw, -, hlen, hold⟩ := hstored.word hk
    refine ⟨w, hw.trans (List.prefix_append _ _).isInfix, fun hp ↦ ?_, hlen, hold⟩
    rcases hgone with hne | hprec
    · exact absurd hk hne
    · exact absurd (hp.symm.trans hprec) Bool.false_ne_true
  by_cases hend : c = COMMA ∨ c = SEMICOLON
  · obtain ⟨sc', go, htake, hok⟩ := takeWord_ok two hstored hlt hdone [c]
    rw [if_pos hend, htake] at hout
    refine .inr ⟨_, _, hout.symm, hstay, fun hc _ ↦ ?_, hok.toFits⟩
    rcases hend with rfl | rfl <;> exact absurd hc (by decide)
  rw [if_neg hend] at hout
  by_cases hcolon : c = COLON ∨ c = EQUALS
  · obtain ⟨sc', go, htake, hok⟩ := takeWord_ok two hstored hlt hdone [c]
    rw [if_pos hcolon, htake] at hout
    cases go with
    | true => exact .inl ⟨sc', hok, hout.symm⟩
    | false => exact .inr ⟨_, _, hout.symm, hnext, fun _ _ ↦ List.suffix_rfl, hok.toFits⟩
  rw [if_neg hcolon] at hout
  by_cases hblank : c = SPACE ∨ c = TAB
  · rw [if_pos hblank] at hout
    refine .inl ⟨_, ?_, hout.symm⟩
    refine ⟨⟨hb', hfits.contest⟩, h.len, fun hk ↦ ?_, fun hk hp ↦ ?_⟩
    · obtain ⟨w, hw, hsuffix, hlen, hold⟩ := hstored.word hk
      refine ⟨w, hw.trans (List.prefix_append _ _).isInfix, fun hp ↦ ?_, hlen, hold⟩
      obtain ⟨-, hzero⟩ := Bool.or_eq_false_iff.mp hp
      rw [decide_eq_false_iff_not, not_not] at hzero
      rw [List.eq_nil_of_length_eq_zero (hlen.trans hzero)]
      exact List.nil_suffix
    · rcases Bool.or_eq_true_iff.mp hp with hp | hne
      exacts [h.blank hk hp, of_decide_eq_true hne]
  rw [if_neg hblank] at hout
  by_cases hname : sc.kwpos = 0 ∧ sc.precspace = false
  · -- one more character of the name
    obtain ⟨w, hw, hsuffix, hlen, hold⟩ := hword hname.1
    have hmap : (w.map toupper).length = sc.len := by rw [List.length_map, hlen]
    have hlen' : sc.len < (w.map toupper ++ [c, 0#8]).length := by
      rw [List.length_append, hmap]
      exact Nat.lt_add_of_pos_right Nat.two_pos
    obtain ⟨b₁, hstore, hb₁, hheld₁⟩ := hold.set hlen' (toupper c)
    rw [if_pos hname, hstore] at hout
    have hsuffix' : w ++ [c] <:+ done ++ [c] := by
      obtain ⟨front, hfront⟩ := hsuffix hname.2
      exact ⟨front, by rw [← hfront, List.append_assoc]⟩
    refine .inl ⟨_, ?_, hout.symm⟩
    refine ⟨⟨hb₁.trans hb', hfits.contest⟩, hlt, fun _ ↦ ⟨w ++ [c], hsuffix'.isInfix,
      fun _ ↦ hsuffix', ?_, ?_⟩, fun _ _ ↦ Nat.succ_ne_zero _⟩
    · rw [List.length_append, hlen, List.length_singleton]
    · rw [← hmap, List.set_append_right _ _ le_rfl, Nat.sub_self, List.set_cons_zero] at hheld₁
      rw [List.map_append]
      exact List.IsPrefix.trans ⟨[0#8], by simp⟩ hheld₁
  rw [if_neg hname] at hout
  have hgone : sc.kwpos ≠ 0 ∨ sc.precspace = true := by
    by_contra hnot
    obtain ⟨hk, hp⟩ := not_or.mp hnot
    exact hname ⟨not_not.mp hk, Bool.eq_false_iff.mpr hp⟩
  -- a digit or a sign counts if it is part of a value
  have hcount : sc.kwpos ≠ 0 →
      ({ sc with buffer := b, len := sc.len + 1 } : Scan).Ok (done ++ [c]) :=
    fun hk ↦ ⟨⟨hb', hfits.contest⟩, hlt, fun hk' ↦ absurd hk' hk, fun _ _ ↦ Nat.succ_ne_zero _⟩
  by_cases halpha : isalpha c = true
  · rw [if_pos halpha, if_pos hgone] at hout
    exact .inr ⟨_, _, hout.symm, hnext, fun _ _ ↦ List.suffix_rfl, hfits⟩
  rw [if_neg halpha] at hout
  by_cases hdigit : isdigit c = true
  · rw [if_pos hdigit] at hout
    cases hp : sc.precspace with
    | true =>
      rw [hp, if_pos rfl] at hout
      exact .inr ⟨_, _, hout.symm, hnext, fun _ _ ↦ List.suffix_rfl, ⟨hb', hfits.contest⟩⟩
    | false =>
      rw [if_neg (by rw [hp]; exact Bool.false_ne_true)] at hout
      exact .inl ⟨_, hcount (hgone.resolve_right (by rw [hp]; exact Bool.false_ne_true)), hout.symm⟩
  rw [if_neg hdigit] at hout
  by_cases hsign : c = PLUS ∨ c = DASH
  · rw [if_pos hsign] at hout
    by_cases hleave : sc.len ≠ 0 ∨ cs.head?.all (!isdigit ·) = true
    · rw [if_pos hleave] at hout
      exact .inr ⟨_, _, hout.symm, hnext, fun _ _ ↦ List.suffix_rfl, hfits⟩
    · rw [if_neg hleave] at hout
      have hlen := not_not.mp (not_or.mp hleave).1
      refine .inl ⟨_, hcount fun hk ↦ ?_, hout.symm⟩
      exact h.blank hk (hgone.resolve_left (not_not.mpr hk)) hlen
  rw [if_neg hsign] at hout
  exact .inl ⟨_, hkeep hgone, hout.symm⟩

/-- **An entry is read within the buffer**, and the contest is one that is named. -/
theorem optionLoop_ok (two : Bool) (s : List U8) {sc : Scan} {done : List U8} (h : sc.Ok done)
    (hdone : 0#8 ∉ done) (hs : 0#8 ∉ s) :
    ∃ rest sc', optionLoop two s sc = some (rest, sc') ∧ rest <:+ s ∧ sc'.Fits (done ++ s) := by
  induction s generalizing sc done with
  | nil =>
    rw [optionLoop, List.append_nil]
    by_cases hlt : sc.len < OPTION - 1
    · obtain ⟨b, hput, hb, hheld⟩ := stores_spec sc.buffer sc.len [0#8, 0#8]
        (by rw [h.length]; exact Nat.lt_sub_iff_add_lt.mp hlt)
      have hstored : ({ sc with buffer := b } : Scan).Ok done := by
        refine ⟨⟨hb.trans h.length, h.contest⟩, h.len, fun hk ↦ ?_, h.blank⟩
        obtain ⟨w, hw, hsuffix, hlen, hold⟩ := h.word hk
        exact ⟨w, hw, hsuffix, hlen,
          (List.prefix_append _ _).trans (hheld _ (by rw [List.length_map, hlen]) hold)⟩
      obtain ⟨sc', go, htake, hok⟩ := takeWord_ok two hstored hlt hdone []
      rw [List.append_nil] at hok
      rw [if_pos hlt, hput]
      simp only [Option.bind_eq_bind, Option.bind_some, htake]
      exact ⟨_, _, rfl, List.suffix_rfl, hok.toFits⟩
    · rw [if_neg hlt]
      exact ⟨_, _, rfl, List.suffix_rfl, h.toFits⟩
  | cons c cs ih =>
    have hc : 0#8 ∉ done ++ [c] := by
      rw [List.mem_append, List.mem_singleton]
      rintro (hmem | heq)
      · exact hdone hmem
      · exact hs (heq ▸ List.mem_cons_self)
    rw [← List.singleton_append, ← List.append_assoc]
    rcases optionLoop_cons two h hdone c cs with ⟨sc', hok, heq⟩ |
      ⟨rest, sc', heq, hrest, -, hfits⟩
    · obtain ⟨rest, sc'', hloop, hrest, hfits⟩ :=
        ih hok hc fun hmem ↦ hs (List.mem_cons_of_mem _ hmem)
      exact ⟨rest, sc'', heq.trans hloop, hrest.trans (List.suffix_cons c cs), hfits⟩
    · exact ⟨rest, sc', heq, hrest, hfits.mono cs⟩

/-- The contest is named in the string. -/
def Named (p : Project) (s : List U8) : Prop := projectGetName p <:+: s.map toupper

theorem Named.of_suffix {p : Project} {t : List U8} (h : Named p t) (hts : t <:+ s) : Named p s :=
  h.trans (hts.map toupper).isInfix

/-- The tables agree on the contest. -/
def Tables.SameAt (t t' : Tables) (p : Project) : Prop :=
  t.table1 p = t'.table1 p ∧ t.table2.map (· p) = t'.table2.map (· p)

theorem Tables.assign_sameAt (t : Tables) {p : Project} (hp : p ∉ sc.contest) :
    (t.assign sc).SameAt t p := by
  rw [Tables.assign]
  split
  · next q v hq hv =>
    have hne : p ≠ q := fun h ↦ hp (by rw [hq, h]; rfl)
    refine ⟨Function.update_of_ne hne _ _, ?_⟩
    dsimp only
    rw [Option.map_map]
    congr 1
    funext table2
    exact Function.update_of_ne hne _ _
  · exact ⟨rfl, rfl⟩

theorem Tables.isSome_assign (t : Tables) (sc : Scan) :
    (t.assign sc).table2.isSome = t.table2.isSome := by
  rw [Tables.assign]
  split
  · exact Option.isSome_map
  · rfl

/-- The variables at the start of an entry. -/
def Scan.start (buffer : List U8) : Scan := ⟨buffer, 0, 0, false, false, none, none, none⟩

theorem Scan.start_ok {buffer : List U8} (h : buffer.length = OPTION) :
    (Scan.start buffer).Ok [] where
  length := h
  contest p hp := by cases hp
  len := Nat.zero_le _
  word _ := ⟨[], List.nil_infix, fun _ ↦ List.suffix_rfl, rfl, holds_nil _⟩
  blank _ hp := by cases hp

/-- The first letter of an entry is taken off the string. -/
theorem optionLoop_start (two : Bool) {buffer : List U8} (h : buffer.length = OPTION) {c : U8}
    (hc : isalpha c = true) (cs : List U8) (hs : 0#8 ∉ c :: cs) :
    ∃ rest sc', optionLoop two (c :: cs) (Scan.start buffer) = some (rest, sc') ∧ rest <:+ cs
      ∧ sc'.Fits (c :: cs) := by
  have hc0 : 0#8 ∉ [] ++ [c] := fun hmem ↦ hs (by
    rw [List.mem_singleton.mp hmem]
    exact List.mem_cons_self)
  rcases optionLoop_cons two (Scan.start_ok h) List.not_mem_nil c cs with ⟨sc', hok, heq⟩ |
    ⟨rest, sc', heq, -, hrest, hfits⟩
  · obtain ⟨rest, sc'', hloop, hrest, hfits⟩ :=
      optionLoop_ok two cs hok hc0 fun hmem ↦ hs (List.mem_cons_of_mem _ hmem)
    exact ⟨rest, sc'', heq.trans hloop, hrest, hfits⟩
  · exact ⟨rest, sc', heq, hrest hc (show 0 < OPTION - 1 by decide), hfits.mono cs⟩

/-- **The list is read within the buffer**, entry by entry, and what is not named is not changed. -/
theorem scatterLoop_ok {fuel : ℕ} {s buffer : List U8} {t : Tables} (hfuel : s.length < fuel)
    (hbuffer : buffer.length = OPTION) (hs : 0#8 ∉ s) :
    ∃ t', scatterLoop fuel s buffer t = some t' ∧ ∀ p, ¬Named p s → t'.SameAt t p := by
  induction fuel generalizing s buffer t with
  | zero => exact absurd hfuel (Nat.not_lt_zero _)
  | succ fuel ih =>
    rw [scatterLoop]
    dsimp only
    split_ifs with hnil hskip
    · exact ⟨t, rfl, fun p _ ↦ ⟨rfl, rfl⟩⟩
    · exact ⟨t, rfl, fun p _ ↦ ⟨rfl, rfl⟩⟩
    · have hsuffix := s.dropWhile_suffix (!isalpha ·)
      have hhead := List.head?_dropWhile_not (!isalpha ·) s
      generalize s.dropWhile (!isalpha ·) = e at *
      cases e with
      | nil => exact absurd rfl hskip
      | cons c cs =>
        have hc : isalpha c = true := by simpa using hhead
        obtain ⟨rest, sc, hloop, hrest, hfits⟩ := optionLoop_start t.table2.isSome hbuffer hc cs
          fun hmem ↦ hs (hsuffix.subset hmem)
        have hlt := hsuffix.length_le
        rw [List.length_cons] at hlt
        have hdrop := (rest.dropWhile_suffix fun c ↦ c != COMMA && c != SEMICOLON).trans hrest
        have hle := hdrop.length_le
        obtain ⟨t', hrec, hsame⟩ := ih (t := t.assign sc) (by omega) hfits.length fun hmem ↦
          hs (hsuffix.subset (List.mem_cons_of_mem _ (hdrop.subset hmem)))
        rw [Scan.start] at hloop
        rw [hloop]
        refine ⟨t', hrec, fun p hp ↦ ?_⟩
        have hp' := hsame p fun h ↦
          hp (h.of_suffix (hdrop.trans ((List.suffix_cons c cs).trans hsuffix)))
        have hold : (t.assign sc).SameAt t p := t.assign_sameAt fun hmem ↦
          hp (Named.of_suffix (hfits.contest p hmem) hsuffix)
        exact ⟨hp'.1.trans hold.1, hp'.2.trans hold.2⟩

/-! ## Words and values -/

section Words

/-- A character of a name, or of a value that is not a sign. -/
def Plain (c : U8) : Prop :=
  c ≠ COMMA ∧ c ≠ SEMICOLON ∧ c ≠ COLON ∧ c ≠ EQUALS ∧ c ≠ SPACE ∧ c ≠ TAB

instance (c : U8) : Decidable (Plain c) := inferInstanceAs (Decidable (_ ∧ _))

/-- The word in the buffer. -/
structure Scan.Has (sc : Scan) (word : List U8) : Prop where
  length : sc.buffer.length = OPTION
  holds : Memory.Holds sc.buffer word
  len : sc.len = word.length
  prec : sc.precspace = false

variable {word : List U8}

/-- The next character is stored behind the word. -/
theorem Scan.Has.put (h : sc.Has word) (hlt : word.length < OPTION - 1) (c : U8) :
    ∃ b, stores sc.buffer sc.len [c, 0#8] = some b ∧ b.length = OPTION
      ∧ Memory.Holds b (word ++ [c, 0#8]) := by
  rw [← h.len] at hlt
  obtain ⟨b, hput, hb, hheld⟩ := stores_spec sc.buffer sc.len [c, 0#8]
    (by rw [h.length]; exact Nat.lt_sub_iff_add_lt.mp hlt)
  exact ⟨b, hput, hb.trans h.length, hheld word h.len.symm h.holds⟩

/-- **A name goes into the buffer.** -/
theorem optionLoop_name (two : Bool) (w t : List U8) (sc : Scan) (h : sc.Has word)
    (hroom : word.length + w.length ≤ OPTION - 1) (hkw : sc.kwpos = 0) (hw : ∀ c ∈ w, Plain c) :
    ∃ b len nondig, optionLoop two (w ++ t) sc = optionLoop two t
        { sc with buffer := b, len := len, havenondig := nondig }
      ∧ ({ sc with buffer := b, len := len, havenondig := nondig } : Scan).Has
        (word ++ w.map toupper) := by
  induction w generalizing sc word with
  | nil =>
    rw [List.map_nil, List.append_nil]
    exact ⟨sc.buffer, sc.len, sc.havenondig, rfl, h⟩
  | cons c w ih =>
    obtain ⟨hc₁, hc₂, hc₃, hc₄, hc₅, hc₆⟩ := hw c List.mem_cons_self
    rw [List.length_cons] at hroom
    obtain ⟨b, hput, hb, hold⟩ := h.put (by omega) c
    have hlt : sc.len < (word ++ [c, 0#8]).length := by
      rw [List.length_append, h.len]
      exact Nat.lt_add_of_pos_right Nat.two_pos
    obtain ⟨b₁, hstore, hb₁, hheld₁⟩ := hold.set hlt (toupper c)
    rw [h.len, List.set_append_right _ _ le_rfl, Nat.sub_self, List.set_cons_zero] at hheld₁
    have hhas : ({ sc with buffer := b₁, havenondig := true, len := sc.len + 1 } : Scan).Has
        (word ++ [toupper c]) :=
      ⟨hb₁.trans hb, List.IsPrefix.trans ⟨[0#8], by simp⟩ hheld₁,
        by rw [List.length_append, List.length_singleton, ← h.len], h.prec⟩
    obtain ⟨b', len, nondig, hloop, hhas'⟩ := ih _ hhas
      (by rw [List.length_append, List.length_singleton]; omega) hkw
      fun d hd ↦ hw d (List.mem_cons_of_mem _ hd)
    refine ⟨b', len, nondig, ?_, ?_⟩
    · rw [List.cons_append, optionLoop, if_pos (by rw [h.len]; omega), hput]
      simp only [Option.bind_eq_bind, Option.bind_some]
      rw [if_neg (not_or.mpr ⟨hc₁, hc₂⟩), if_neg (not_or.mpr ⟨hc₃, hc₄⟩),
        if_neg (not_or.mpr ⟨hc₅, hc₆⟩), if_pos ⟨hkw, h.prec⟩, hstore, Option.map_some,
        Option.bind_some, hloop]
    · rw [List.append_assoc] at hhas'
      exact hhas'

/-- One more character of a value. -/
theorem Scan.Has.push (h : sc.Has word) {b : List U8} (hb : b.length = OPTION) {c : U8}
    (hheld : Memory.Holds b (word ++ [c, 0#8])) :
    ({ sc with buffer := b, len := sc.len + 1 } : Scan).Has (word ++ [c]) :=
  ⟨hb, List.IsPrefix.trans ⟨[0#8], by simp⟩ hheld,
    by rw [List.length_append, List.length_singleton, ← h.len], h.prec⟩

theorem isalpha_of_isDigit {c : U8} (h : IsDigit c) : isalpha c = false := by
  rw [← isDigit_iff] at h
  revert h
  revert c
  decide

theorem plain_of_isDigit {c : U8} (h : IsDigit c) : Plain c := by
  rw [← isDigit_iff] at h
  revert h
  revert c
  decide

/-- The digits of a value go into the buffer. -/
theorem optionLoop_digits (two : Bool) (w t : List U8) (sc : Scan) (h : sc.Has word)
    (hroom : word.length + w.length ≤ OPTION - 1) (hkw : sc.kwpos ≠ 0) (hw : ∀ c ∈ w, IsDigit c) :
    ∃ b len, optionLoop two (w ++ t) sc = optionLoop two t { sc with buffer := b, len := len }
      ∧ ({ sc with buffer := b, len := len } : Scan).Has (word ++ w) := by
  induction w generalizing sc word with
  | nil =>
    rw [List.append_nil]
    exact ⟨sc.buffer, sc.len, rfl, h⟩
  | cons c w ih =>
    have hc := hw c List.mem_cons_self
    obtain ⟨hc₁, hc₂, hc₃, hc₄, hc₅, hc₆⟩ := plain_of_isDigit hc
    rw [List.length_cons] at hroom
    obtain ⟨b, hput, hb, hheld⟩ := h.put (by omega) c
    obtain ⟨b', len, hloop, hhas⟩ := ih _ (h.push hb hheld)
      (by rw [List.length_append, List.length_singleton]; omega) hkw
      fun d hd ↦ hw d (List.mem_cons_of_mem _ hd)
    refine ⟨b', len, ?_, ?_⟩
    · rw [List.cons_append, optionLoop, if_pos (by rw [h.len]; omega), hput]
      simp only [Option.bind_eq_bind, Option.bind_some]
      rw [if_neg (not_or.mpr ⟨hc₁, hc₂⟩), if_neg (not_or.mpr ⟨hc₃, hc₄⟩),
        if_neg (not_or.mpr ⟨hc₅, hc₆⟩), if_neg fun h ↦ hkw h.1,
        if_neg (by rw [isalpha_of_isDigit hc]; exact Bool.false_ne_true),
        if_pos (isDigit_iff.mpr hc), h.prec, if_neg Bool.false_ne_true]
      rw [h.prec] at hloop
      exact hloop
    · rw [List.append_assoc] at hhas
      exact hhas

/-- The word is taken from the buffer. What it is depends on the words before it. -/
theorem takeWord_has (two : Bool) (h : sc.Has word) (hlt : word.length < OPTION - 1)
    (hne : word ≠ []) (hword : 0#8 ∉ word) :
    ∃ b, b.length = OPTION
      ∧ (∀ p, sc.kwpos = 0 → projectGetName p = word → takeWord two sc = some
        (⟨b, 0, 1, false, false, some p, sc.value1, sc.value2⟩, true))
      ∧ (sc.kwpos = 1 → sc.havenondig = false → takeWord two sc = some
        (⟨b, 0, 2, false, false, sc.contest, some (atoi word), sc.value2⟩, true))
      ∧ (sc.kwpos = 2 → sc.havenondig = false → two = true → takeWord two sc = some
        (⟨b, 0, 3, false, false, sc.contest, sc.value1, some (atoi word)⟩, true))
      ∧ (sc.kwpos = 2 → two = false → takeWord two sc = some
        (⟨b, sc.len, 3, false, sc.havenondig, sc.contest, sc.value1, sc.value2⟩, false)) := by
  have hlen : sc.len < sc.buffer.length := by
    rw [h.length, h.len]
    exact hlt.trans_le (Nat.sub_le _ _)
  have hpos : sc.len ≠ 0 := by
    rw [h.len]
    exact List.length_pos_iff.mpr hne |>.ne'
  have hcstr : cstr (sc.buffer.set sc.len 0#8) = some word := by
    obtain ⟨rest, hrest⟩ := h.holds
    refine cstr_of_holds ?_ hword
    rw [← hrest, h.len] at hlen ⊢
    rw [List.length_append] at hlen
    cases rest with
    | nil => exact absurd hlen (Nat.lt_irrefl _)
    | cons x rest =>
      rw [List.set_append_right _ _ le_rfl, Nat.sub_self, List.set_cons_zero]
      exact ⟨rest, by simp⟩
  refine ⟨sc.buffer.set sc.len 0#8, by rw [List.length_set, h.length], fun p hkw hp ↦ ?_,
    fun hkw hdig ↦ ?_, fun hkw hdig htwo ↦ ?_, fun hkw htwo ↦ ?_⟩
  all_goals
    rw [takeWord, store_of_lt hlen]
    simp only [Option.bind_eq_bind, Option.bind_some]
    rw [if_neg hpos, hcstr, Option.bind_some, hkw]
  · have hfind : projects.find? (projectGetName · == word) = some p := by
      rw [← hp]
      cases p <;> decide
    rw [if_pos rfl, hfind]
  · rw [if_neg (by decide), if_pos rfl, hdig, if_neg Bool.false_ne_true]
  · rw [if_neg (by decide), if_neg (by decide), if_pos ⟨rfl, htwo⟩, hdig, if_neg Bool.false_ne_true]
  · have hthree : ¬(2 + 1 = 3 ∧ two = true) := fun h ↦ absurd (htwo.symm.trans h.2) (by decide)
    rw [if_neg (by decide), if_neg (by decide), if_neg hthree]

/-- A colon or an equals sign ends the word. -/
theorem optionLoop_break (two : Bool) (h : sc.Has word) (hlt : word.length < OPTION - 1) {c : U8}
    (hc : c = COLON ∨ c = EQUALS) (t : List U8) :
    ∃ b, ({ sc with buffer := b } : Scan).Has word ∧ optionLoop two (c :: t) sc
      = (takeWord two { sc with buffer := b }).bind fun (sc, go) ↦
        if go then optionLoop two t sc else some (t, sc) := by
  obtain ⟨b, hput, hb, hheld⟩ := h.put hlt c
  refine ⟨b, ⟨hb, (List.prefix_append _ _).trans hheld, h.len, h.prec⟩, ?_⟩
  rw [optionLoop, if_pos (by rw [h.len]; exact hlt), hput]
  simp only [Option.bind_eq_bind, Option.bind_some]
  rw [if_neg (by rcases hc with rfl | rfl <;> decide), if_pos hc]

/-- So does the end of the entry. -/
theorem optionLoop_end (two : Bool) (h : sc.Has word) (hlt : word.length < OPTION - 1)
    {t : List U8} (ht : t = [] ∨ ∃ t', t = COMMA :: t') :
    ∃ b, ({ sc with buffer := b } : Scan).Has word ∧ optionLoop two t sc
      = (takeWord two { sc with buffer := b }).bind fun (sc, _) ↦ some (t, sc) := by
  rcases ht with rfl | ⟨t, rfl⟩
  · obtain ⟨b, hput, hb, hheld⟩ := h.put hlt 0#8
    refine ⟨b, ⟨hb, (List.prefix_append _ _).trans hheld, h.len, h.prec⟩, ?_⟩
    rw [optionLoop, if_pos (by rw [h.len]; exact hlt), hput]
    simp only [Option.bind_eq_bind, Option.bind_some]
  · obtain ⟨b, hput, hb, hheld⟩ := h.put hlt COMMA
    refine ⟨b, ⟨hb, (List.prefix_append _ _).trans hheld, h.len, h.prec⟩, ?_⟩
    rw [optionLoop, if_pos (by rw [h.len]; exact hlt), hput]
    simp only [Option.bind_eq_bind, Option.bind_some]
    rw [if_pos (Or.inl trivial)]

/-! ## Numbers -/

theorem intText_cases (v : U32) : ∃ n : ℕ, n ≤ 2 ^ 31
    ∧ (intText v = decimal n ∧ v = BitVec.ofInt 32 n
      ∨ intText v = DASH :: decimal n ∧ v = BitVec.ofInt 32 (-n)) := by
  have hlo := BitVec.le_two_mul_toInt (x := v)
  have hhi := BitVec.two_mul_toInt_lt (x := v)
  refine ⟨v.toInt.natAbs, by omega, ?_⟩
  rw [intText]
  split_ifs with hneg
  · refine .inr ⟨rfl, ?_⟩
    rw [show -(v.toInt.natAbs : ℤ) = v.toInt by omega, BitVec.ofInt_toInt]
  · refine .inl ⟨rfl, ?_⟩
    rw [show (v.toInt.natAbs : ℤ) = v.toInt by omega, BitVec.ofInt_toInt]

theorem length_intText_le (v : U32) : (intText v).length ≤ 11 := by
  obtain ⟨n, hn, ⟨h, -⟩ | ⟨h, -⟩⟩ := intText_cases v
  all_goals
    have hlen := length_decimal_le (k := 10) (n := n) (by decide) (hn.trans_lt (by decide))
    rw [h]
  · omega
  · rw [List.length_cons]
    omega

theorem intText_ne_nil (v : U32) : intText v ≠ [] := by
  obtain ⟨n, -, ⟨h, -⟩ | ⟨h, -⟩⟩ := intText_cases v
  · rw [h]
    exact List.length_pos_iff.mp (length_decimal_pos n)
  · rw [h]
    exact List.cons_ne_nil _ _

theorem zero_notMem_intText (v : U32) : 0#8 ∉ intText v := by
  have hdigits : ∀ n, 0#8 ∉ decimal n := fun n h ↦ (isDigit_of_mem_decimal h).ne_zero rfl
  obtain ⟨n, -, ⟨h, -⟩ | ⟨h, -⟩⟩ := intText_cases v
  · rw [h]
    exact hdigits n
  · rw [h, List.mem_cons, not_or]
    exact ⟨by decide, hdigits n⟩

/-- **A number is read back.** -/
theorem atoi_intText (v : U32) : atoi (intText v) = v := by
  obtain ⟨n, hn, ⟨h, hv⟩ | ⟨h, hv⟩⟩ := intText_cases v
  · rw [h, atoi_decimal (by omega), hv]
  · rw [h, atoi, strtol, List.dropWhile_cons_of_neg (by decide)]
    dsimp only
    rw [if_pos rfl, takeWhile_isdigit_decimal, decimalValue_decimal,
      toLong_eq (by omega) (by omega), hv]

/-- **A value goes into the buffer.** -/
theorem optionLoop_intText (two : Bool) (v : U32) (t : List U8) (sc : Scan) (h : sc.Has [])
    (hkw : sc.kwpos ≠ 0) :
    ∃ b len, optionLoop two (intText v ++ t) sc
        = optionLoop two t { sc with buffer := b, len := len }
      ∧ ({ sc with buffer := b, len := len } : Scan).Has (intText v) := by
  have hlen := length_intText_le v
  obtain ⟨n, -, ⟨hv, -⟩ | ⟨hv, -⟩⟩ := intText_cases v
  · rw [hv] at hlen ⊢
    exact optionLoop_digits two (decimal n) t sc h
      (by rw [List.length_nil, OPTION]; omega) hkw fun _ ↦ isDigit_of_mem_decimal
  · rw [hv, List.length_cons] at hlen
    rw [hv]
    obtain ⟨b, hput, hb, hheld⟩ := h.put (by decide) DASH
    obtain ⟨b', len, hloop, hhas⟩ := optionLoop_digits two (decimal n) t _ (h.push hb hheld)
      (by rw [List.nil_append, List.length_singleton, OPTION]; omega) hkw
      fun _ ↦ isDigit_of_mem_decimal
    refine ⟨b', len, ?_, hhas⟩
    -- a digit is next
    have hnext : ¬(sc.len ≠ 0 ∨ (decimal n ++ t).head?.all (!isdigit ·) = true) := by
      obtain ⟨c, cs, hcons, hc⟩ := decimal_eq_cons n
      rw [not_or, not_not, hcons, List.cons_append, List.head?_cons, Option.all_some,
        isDigit_iff.mpr hc]
      exact ⟨h.len, Bool.false_ne_true⟩
    rw [List.cons_append, optionLoop, if_pos (by rw [h.len]; decide), hput]
    simp only [Option.bind_eq_bind, Option.bind_some]
    rw [if_neg (by decide), if_neg (by decide), if_neg (by decide), if_neg fun h ↦ hkw h.1,
      if_neg (by decide), if_neg (by decide), if_pos (Or.inr trivial), if_neg hnext]
    exact hloop

/-! ## Entries -/

theorem map_toupper_projectGetName (p : Project) :
    (projectGetName p).map toupper = projectGetName p := by
  cases p <;> decide

theorem plain_of_mem_projectGetName {p : Project} : ∀ c ∈ projectGetName p, Plain c := by
  cases p <;> decide

theorem zero_notMem_projectGetName (p : Project) : 0#8 ∉ projectGetName p := by
  cases p <;> decide

/-- The variables where a value begins. -/
theorem Scan.has_nil {b : List U8} (hb : b.length = OPTION) (kwpos : ℕ) (p : Project)
    (value1 : Option U32) :
    (⟨b, 0, kwpos, false, false, some p, value1, none⟩ : Scan).Has [] :=
  ⟨hb, holds_nil _, rfl, rfl⟩

theorem length_intText_lt (v : U32) : (intText v).length < OPTION - 1 :=
  (length_intText_le v).trans_lt (by decide)

/-- The name and the equals sign. -/
theorem optionLoop_projectGetName (two : Bool) (p : Project) {buffer : List U8}
    (hbuffer : buffer.length = OPTION) (t : List U8) :
    ∃ b, b.length = OPTION
      ∧ optionLoop two (projectGetName p ++ EQUALS :: t) (Scan.start buffer)
        = optionLoop two t ⟨b, 0, 1, false, false, some p, none, none⟩ := by
  have hname : (projectGetName p).length < OPTION - 1 :=
    (length_projectGetName_le p).trans_lt (by decide)
  have hstart : (Scan.start buffer).Has [] := ⟨hbuffer, holds_nil _, rfl, rfl⟩
  obtain ⟨b, len, nondig, hloop, hhas⟩ := optionLoop_name two (projectGetName p) (EQUALS :: t) _
    hstart (by rw [List.length_nil, Nat.zero_add]; exact hname.le) rfl plain_of_mem_projectGetName
  rw [map_toupper_projectGetName, List.nil_append] at hhas
  obtain ⟨b, hhas, hbreak⟩ := optionLoop_break two hhas hname (.inr rfl) t
  obtain ⟨b, hb, htake, -⟩ := takeWord_has two hhas hname (projectGetName_ne_nil p)
    (zero_notMem_projectGetName p)
  rw [htake p rfl rfl] at hbreak
  exact ⟨b, hb, hloop.trans hbreak⟩

/-- A value before a colon. -/
theorem optionLoop_firstValue (two : Bool) (p : Project) (v : U32) {b : List U8}
    (hb : b.length = OPTION) (t : List U8) :
    ∃ b', b'.length = OPTION
      ∧ optionLoop two (intText v ++ COLON :: t) ⟨b, 0, 1, false, false, some p, none, none⟩
        = optionLoop two t ⟨b', 0, 2, false, false, some p, some v, none⟩ := by
  obtain ⟨b, len, hloop, hhas⟩ := optionLoop_intText two v (COLON :: t) _
    (Scan.has_nil hb 1 p none) Nat.one_ne_zero
  obtain ⟨b, hhas, hbreak⟩ := optionLoop_break two hhas (length_intText_lt v) (.inl rfl) t
  obtain ⟨b, hb, -, htake, -⟩ := takeWord_has two hhas (length_intText_lt v) (intText_ne_nil v)
    (zero_notMem_intText v)
  rw [htake rfl rfl, atoi_intText] at hbreak
  exact ⟨b, hb, hloop.trans hbreak⟩

/-- An only value. -/
theorem optionLoop_onlyValue (two : Bool) (p : Project) (v : U32) {b t : List U8}
    (hb : b.length = OPTION) (ht : t = [] ∨ ∃ t', t = COMMA :: t') :
    ∃ sc, optionLoop two (intText v ++ t) ⟨b, 0, 1, false, false, some p, none, none⟩ = some (t, sc)
      ∧ sc.buffer.length = OPTION ∧ sc.contest = some p ∧ sc.value1 = some v
      ∧ sc.value2 = none := by
  obtain ⟨b, len, hloop, hhas⟩ := optionLoop_intText two v t _ (Scan.has_nil hb 1 p none)
    Nat.one_ne_zero
  obtain ⟨b, hhas, hend⟩ := optionLoop_end two hhas (length_intText_lt v) ht
  obtain ⟨b, hb, -, htake, -⟩ := takeWord_has two hhas (length_intText_lt v) (intText_ne_nil v)
    (zero_notMem_intText v)
  rw [htake rfl rfl, atoi_intText] at hend
  exact ⟨_, hloop.trans hend, hb, rfl, rfl, rfl⟩

/-- A second value. It is not taken if there is one table. -/
theorem optionLoop_secondValue (two : Bool) (p : Project) (v₁ v₂ : U32) {b t : List U8}
    (hb : b.length = OPTION) (ht : t = [] ∨ ∃ t', t = COMMA :: t') :
    ∃ sc, optionLoop two (intText v₂ ++ t) ⟨b, 0, 2, false, false, some p, some v₁, none⟩
        = some (t, sc)
      ∧ sc.buffer.length = OPTION ∧ sc.contest = some p ∧ sc.value1 = some v₁
      ∧ sc.value2 = if two then some v₂ else none := by
  obtain ⟨b, len, hloop, hhas⟩ := optionLoop_intText two v₂ t _ (Scan.has_nil hb 2 p (some v₁))
    Nat.two_pos.ne'
  obtain ⟨b, hhas, hend⟩ := optionLoop_end two hhas (length_intText_lt v₂) ht
  obtain ⟨b, hb, -, -, htaken, hleft⟩ := takeWord_has two hhas (length_intText_lt v₂)
    (intText_ne_nil v₂) (zero_notMem_intText v₂)
  cases two with
  | true =>
    rw [htaken rfl rfl rfl, atoi_intText] at hend
    exact ⟨_, hloop.trans hend, hb, rfl, rfl, rfl⟩
  | false =>
    rw [hleft rfl rfl] at hend
    exact ⟨_, hloop.trans hend, hb, rfl, rfl, rfl⟩

/-- **What is written for a contest is read** as that contest and its values. -/
theorem optionLoop_optionText (two : Bool) (table1 : Project → U32)
    (table2 : Option (Project → U32)) (p : Project) {buffer t : List U8}
    (hbuffer : buffer.length = OPTION) (ht : t = [] ∨ ∃ t', t = COMMA :: t') :
    ∃ sc, optionLoop two (optionText table1 table2 p ++ t) (Scan.start buffer) = some (t, sc)
      ∧ sc.buffer.length = OPTION ∧ sc.contest = some p ∧ sc.value1 = some (table1 p)
      ∧ sc.value2 = if two then table2.map (· p) else none := by
  cases table2 with
  | none =>
    obtain ⟨b, hb, hname⟩ := optionLoop_projectGetName two p hbuffer (intText (table1 p) ++ t)
    obtain ⟨sc, hvalue, hlen, hp, hv₁, hv₂⟩ := optionLoop_onlyValue two p (table1 p) hb ht
    refine ⟨sc, ?_, hlen, hp, hv₁, by rw [hv₂, Option.map_none, ite_self]⟩
    rw [optionText, Option.elim_none, List.append_nil, List.append_assoc, List.cons_append, hname,
      hvalue]
  | some table2 =>
    obtain ⟨b, hb, hname⟩ := optionLoop_projectGetName two p hbuffer
      (intText (table1 p) ++ COLON :: (intText (table2 p) ++ t))
    obtain ⟨b, hb, hfirst⟩ := optionLoop_firstValue two p (table1 p) hb (intText (table2 p) ++ t)
    obtain ⟨sc, hvalue, hlen, hp, hv₁, hv₂⟩ :=
      optionLoop_secondValue two p (table1 p) (table2 p) hb ht
    refine ⟨sc, ?_, hlen, hp, hv₁, hv₂⟩
    rw [optionText, Option.elim_some, List.append_assoc, List.append_assoc, List.cons_append,
      List.cons_append, hname, hfirst, hvalue]

/-- The tables that are read from the list of `table1` and `table2`. -/
def Tables.restored (t : Tables) (table1 : Project → U32) (table2 : Option (Project → U32)) :
    Tables where
  table1 := table1
  table2 := t.table2.map fun _ ↦ table2.getD table1

theorem Tables.SameAt.trans {t₁ t₂ t₃ : Tables} {p : Project} (h : t₁.SameAt t₂ p)
    (h' : t₂.SameAt t₃ p) : t₁.SameAt t₃ p :=
  ⟨h.1.trans h'.1, h.2.trans h'.2⟩

theorem Tables.eq_of_sameAt {t t' : Tables} (hsome : t.table2.isSome = t'.table2.isSome)
    (h : ∀ p, t.SameAt t' p) : t = t' := by
  obtain ⟨table1, table2⟩ := t
  obtain ⟨table1', table2'⟩ := t'
  obtain rfl : table1 = table1' := funext fun p ↦ (h p).1
  cases table2 with
  | none =>
    rw [Option.isSome_none, eq_comm, Option.isSome_eq_false_iff, Option.isNone_iff_eq_none] at hsome
    exact congrArg _ hsome.symm
  | some table2 =>
    obtain ⟨table2', rfl⟩ := Option.isSome_iff_exists.mp hsome.symm
    rw [show table2 = table2' from funext fun p ↦ Option.some.inj (h p).2]

theorem Tables.restored_congr {t t' : Tables} (h : t.table2.isSome = t'.table2.isSome)
    (table1 : Project → U32) (table2 : Option (Project → U32)) :
    t.restored table1 table2 = t'.restored table1 table2 := by
  have hmap : ∀ t : Option (Project → U32), (t.map fun _ ↦ table2.getD table1)
      = if t.isSome then some (table2.getD table1) else none := fun t ↦ by cases t <;> rfl
  rw [Tables.restored, Tables.restored, hmap, hmap, h]

/-- An entry that is read is written for its contest. -/
theorem Tables.assign_restored (t : Tables) (table1 : Project → U32)
    (table2 : Option (Project → U32)) {p : Project} (hp : sc.contest = some p)
    (hv₁ : sc.value1 = some (table1 p))
    (hv₂ : sc.value2 = if t.table2.isSome then table2.map (· p) else none) :
    (t.assign sc).SameAt (t.restored table1 table2) p := by
  rw [Tables.assign, hp, hv₁]
  refine ⟨Function.update_self _ _ _, ?_⟩
  dsimp only [Tables.restored]
  cases ht : t.table2 with
  | none => rfl
  | some old =>
    rw [hv₂, ht, Option.isSome_some, if_pos rfl]
    cases table2 <;> exact congrArg some (Function.update_self _ _ _)

/-- The end of a written list: an entry for each contest, behind a comma. -/
def restText (table1 : Project → U32) (table2 : Option (Project → U32)) (ps : List Project) :
    List U8 :=
  ps.flatMap fun p ↦ COMMA :: optionText table1 table2 p

/-- The list that is written. -/
def listText (table1 : Project → U32) (table2 : Option (Project → U32)) : List U8 :=
  (restText table1 table2 projects).tail

variable (table1 : Project → U32) (table2 : Option (Project → U32))

theorem restText_nil_or (ps : List Project) :
    restText table1 table2 ps = [] ∨ ∃ t, restText table1 table2 ps = COMMA :: t := by
  cases ps with
  | nil => exact .inl rfl
  | cons p ps => exact .inr ⟨_, List.flatMap_cons⟩

/-- **One entry** of a written list. -/
theorem scatterLoop_optionText (lead : List U8) {t buffer : List U8}
    (hlead : lead = [] ∨ lead = [COMMA]) (ht : t = [] ∨ ∃ t', t = COMMA :: t')
    (hbuffer : buffer.length = OPTION) (fuel : ℕ)
    (p : Project) (tb : Tables) :
    ∃ b tb', b.length = OPTION
      ∧ scatterLoop (fuel + 1) (lead ++ optionText table1 table2 p ++ t) buffer tb
        = scatterLoop fuel t b tb'
      ∧ tb'.SameAt (tb.restored table1 table2) p ∧ (∀ q, q ≠ p → tb'.SameAt tb q)
      ∧ tb'.table2.isSome = tb.table2.isSome := by
  obtain ⟨sc, hloop, hlen, hp, hv₁, hv₂⟩ :=
    optionLoop_optionText tb.table2.isSome table1 table2 p hbuffer ht
  refine ⟨sc.buffer, tb.assign sc, hlen, ?_, tb.assign_restored table1 table2 hp hv₁ hv₂,
    fun q hq ↦ tb.assign_sameAt fun hmem ↦ hq ?_, tb.isSome_assign sc⟩
  swap
  · rw [hp] at hmem
    exact (Option.some.inj hmem).symm
  obtain ⟨c, cs, hcons, hc⟩ : ∃ c cs, optionText table1 table2 p = c :: cs ∧ isalpha c = true := by
    rw [optionText]
    cases p <;> exact ⟨_, _, rfl, by decide⟩
  have hskip : (lead ++ optionText table1 table2 p ++ t).dropWhile (!isalpha ·)
      = optionText table1 table2 p ++ t := by
    rw [hcons]
    rcases hlead with rfl | rfl
    · rw [List.nil_append, List.cons_append, List.dropWhile_cons_of_neg (by rw [hc]; decide)]
    · rw [List.singleton_append, List.cons_append, List.dropWhile_cons_of_pos (by decide),
        List.cons_append, List.dropWhile_cons_of_neg (by rw [hc]; decide)]
  have hne : optionText table1 table2 p ++ t ≠ [] := by
    rw [hcons]
    exact List.cons_ne_nil _ _
  have hne' : lead ++ optionText table1 table2 p ++ t ≠ [] := by
    rw [List.append_assoc]
    exact List.append_ne_nil_of_right_ne_nil _ hne
  have hstay : t.dropWhile (fun c ↦ c != COMMA && c != SEMICOLON) = t := by
    rcases ht with rfl | ⟨t, rfl⟩
    · rfl
    · exact List.dropWhile_cons_of_neg (by decide)
  rw [Scan.start] at hloop
  rw [scatterLoop, if_neg hne', hskip]
  dsimp only
  rw [if_neg hne, hloop]
  simp only [Option.bind_eq_bind, Option.bind_some]
  rw [hstay]

/-- **A written list is read.** -/
theorem scatterLoop_restText (ps : List Project) {fuel : ℕ} (hfuel : ps.length < fuel)
    {buffer : List U8} (hbuffer : buffer.length = OPTION) (tb : Tables) :
    ∃ tb', scatterLoop fuel (restText table1 table2 ps) buffer tb = some tb'
      ∧ (∀ p ∈ ps, tb'.SameAt (tb.restored table1 table2) p)
      ∧ (∀ p, p ∉ ps → tb'.SameAt tb p) ∧ tb'.table2.isSome = tb.table2.isSome := by
  induction ps generalizing fuel buffer tb with
  | nil =>
    cases fuel with
    | zero => exact absurd hfuel (Nat.lt_irrefl _)
    | succ fuel =>
      exact ⟨tb, by rw [restText, List.flatMap_nil, scatterLoop, if_pos rfl],
        fun p hp ↦ absurd hp List.not_mem_nil, fun p _ ↦ ⟨rfl, rfl⟩, rfl⟩
  | cons p ps ih =>
    cases fuel with
    | zero => exact absurd hfuel (Nat.not_lt_zero _)
    | succ fuel =>
      obtain ⟨b, tb₁, hb, hstep, hp, hrest, hsome⟩ := scatterLoop_optionText table1 table2
        [COMMA] (.inr rfl) (restText_nil_or table1 table2 ps) hbuffer fuel p tb
      obtain ⟨tb', hloop, hin, hout, hsome'⟩ := ih (Nat.lt_of_succ_lt_succ hfuel) hb tb₁
      rw [Tables.restored_congr hsome] at hin
      refine ⟨tb', ?_, fun q hq ↦ ?_, fun q hq ↦ ?_, hsome'.trans hsome⟩
      · rw [restText, List.flatMap_cons, ← List.singleton_append (x := COMMA)]
        exact hstep.trans hloop
      · by_cases hqs : q ∈ ps
        · exact hin q hqs
        · obtain rfl := (List.mem_cons.mp hq).resolve_right hqs
          exact (hout q hqs).trans hp
      · obtain ⟨hne, hqs⟩ := not_or.mp (List.mem_cons.not.mp hq)
        exact (hout q hqs).trans (hrest q hne)

/-! ## Written lists -/

theorem length_optionText_le (p : Project) :
    (optionText table1 table2 p).length ≤ MAX_PROJECT_NAME_LEN + 1 + 11 + 1 + 11 := by
  have hname := length_projectGetName_le p
  have hlen₁ := length_intText_le (table1 p)
  rw [optionText, List.length_append, List.length_append, List.length_cons]
  cases table2 with
  | none =>
    rw [Option.elim_none, List.length_nil]
    omega
  | some table2 =>
    have hlen₂ := length_intText_le (table2 p)
    rw [Option.elim_some, List.length_cons]
    omega

/-- One entry is written, if there is room. -/
theorem gatherLoop_cons (front delim : List U8) {b : List U8} (hdelim : delim.length ≤ 1)
    (p : Project) (ps : List Project) (hheld : Memory.Holds b front)
    (hroom : (front ++ (delim ++ optionText table1 table2 p)).length + 1 < b.length) :
    ∃ b', b'.length = b.length
      ∧ Memory.Holds b' (front ++ (delim ++ optionText table1 table2 p) ++ [0#8])
      ∧ gatherLoop table1 table2 (p :: ps) (some b) front.length delim
        = gatherLoop table1 table2 ps (some b')
          (front ++ (delim ++ optionText table1 table2 p)).length [COMMA] := by
  have hsingle : ¬SINGLE ≤ (delim ++ optionText table1 table2 p).length := by
    have hlen := length_optionText_le table1 table2 p
    rw [MAX_PROJECT_NAME_LEN] at hlen
    rw [SINGLE, List.length_append, MAX_PROJECT_NAME_LEN]
    omega
  rw [gatherLoop, if_neg hsingle]
  generalize delim ++ optionText table1 table2 p = single at *
  rw [List.length_append] at hroom
  obtain ⟨b', hstores, hb', hheld'⟩ := stores_spec b front.length
    (single ++ [0#8]) (by rw [List.length_append, List.length_singleton]; omega)
  refine ⟨b', hb', ?_, ?_⟩
  · rw [List.append_assoc]
    exact hheld' front rfl hheld
  · rw [if_neg (by omega), if_pos (by omega), hstores, Option.bind_some, List.length_append]

theorem gatherLoop_restText (ps : List Project) {front b : List U8}
    (hheld : Memory.Holds b (front ++ [0#8]))
    (hroom : (front ++ restText table1 table2 ps).length + 1 < b.length) :
    ∃ b' n, gatherLoop table1 table2 ps (some b) front.length [COMMA] = some (some b', n)
      ∧ Memory.Holds b' (front ++ restText table1 table2 ps ++ [0#8]) := by
  induction ps generalizing front b with
  | nil =>
    rw [restText, List.flatMap_nil, List.append_nil]
    exact ⟨b, _, rfl, hheld⟩
  | cons p ps ih =>
    have hrest : front ++ restText table1 table2 (p :: ps)
        = front ++ ([COMMA] ++ optionText table1 table2 p) ++ restText table1 table2 ps := by
      rw [restText, List.flatMap_cons, ← restText, List.append_assoc, List.singleton_append]
    rw [hrest] at hroom ⊢
    have hle : (front ++ ([COMMA] ++ optionText table1 table2 p)).length + 1 < b.length := by
      rw [List.length_append] at hroom
      omega
    obtain ⟨b', hb', hheld', hstep⟩ := gatherLoop_cons table1 table2 front [COMMA] le_rfl p ps
      ((List.prefix_append _ _).trans hheld) hle
    rw [hstep]
    exact ih hheld' (by rw [hb']; exact hroom)

theorem listText_eq : listText table1 table2
    = optionText table1 table2 .RC5 ++ restText table1 table2 projects.tail := rfl

theorem zero_notMem_optionText (p : Project) : 0#8 ∉ optionText table1 table2 p := by
  rw [optionText, List.mem_append, List.mem_append, List.mem_cons, not_or, not_or, not_or]
  refine ⟨⟨zero_notMem_projectGetName p, by decide, zero_notMem_intText _⟩, ?_⟩
  cases table2 with
  | none => exact List.not_mem_nil
  | some table2 =>
    rw [Option.elim_some, List.mem_cons, not_or]
    exact ⟨by decide, zero_notMem_intText _⟩

theorem zero_notMem_listText : 0#8 ∉ listText table1 table2 := by
  rw [listText_eq, List.mem_append, not_or]
  refine ⟨zero_notMem_optionText table1 table2 _, fun hmem ↦ ?_⟩
  obtain ⟨p, -, hp⟩ := List.mem_flatMap.mp hmem
  rcases List.mem_cons.mp hp with heq | hmem
  · exact absurd heq (by decide)
  · exact zero_notMem_optionText table1 table2 p hmem

/-- **The list is written** if there is room for it. -/
theorem utilGatherOptionArraysToList_spec {b : List U8}
    (hroom : (listText table1 table2).length + 1 < b.length) :
    ∃ b' n, utilGatherOptionArraysToList (some b) table1 table2 = some (some b', n)
      ∧ cstr b' = some (listText table1 table2) := by
  have hpos : 0 < b.length := Nat.zero_lt_of_lt hroom
  have hlen : (b.set 0 0#8).length = b.length := List.length_set
  rw [listText_eq] at hroom ⊢
  obtain ⟨b₁, hb₁, hheld₁, hfirst⟩ := gatherLoop_cons table1 table2 [] []
    (Nat.zero_le _) .RC5 projects.tail (holds_nil (b.set 0 0#8)) (by
      rw [List.nil_append, List.nil_append, hlen]
      rw [List.length_append] at hroom
      omega)
  rw [List.nil_append, List.nil_append] at hheld₁ hfirst
  obtain ⟨b', n, hloop, hheld⟩ := gatherLoop_restText table1 table2
    projects.tail hheld₁ (by rw [hb₁, hlen]; exact hroom)
  refine ⟨b', n, ?_, cstr_of_holds hheld (zero_notMem_listText table1 table2)⟩
  rw [utilGatherOptionArraysToList, Option.elim_some, if_neg hpos.ne', store_of_lt hpos]
  simp only [Option.bind_eq_bind, Option.map_some, Option.bind_some]
  exact hfirst.trans hloop

theorem length_le_restText (ps : List Project) :
    ps.length ≤ (restText table1 table2 ps).length := by
  induction ps with
  | nil => exact Nat.zero_le _
  | cons p ps ih =>
    rw [restText] at ih ⊢
    rw [List.flatMap_cons, List.length_append, List.length_cons, List.length_cons]
    omega

/-- **The list is read back.** -/
theorem utilScatterOptionListToArraysEx_listText (buffer : List.Vector U8 OPTION) (t : Tables)
    (default1 default2 : Option (Project → U32)) :
    utilScatterOptionListToArraysEx buffer (listText table1 table2) t default1 default2
      = some (t.restored table1 table2) := by
  have hsome : (t.defaults default1 default2).table2.isSome = t.table2.isSome := Option.isSome_map
  rw [utilScatterOptionListToArraysEx, ← Tables.restored_congr hsome]
  generalize t.defaults default1 default2 = tb
  obtain ⟨b, tb₁, hb, hstep, hp, -, hsome₁⟩ := scatterLoop_optionText table1 table2
    [] (.inl rfl) (restText_nil_or table1 table2 projects.tail) buffer.2
    (listText table1 table2).length .RC5 tb
  have hfuel : projects.tail.length < (listText table1 table2).length := by
    have hrest := length_le_restText table1 table2 projects.tail
    have hpos := List.length_pos_iff.mpr (projectGetName_ne_nil .RC5)
    rw [listText_eq, List.length_append, optionText, List.length_append, List.length_append]
    omega
  obtain ⟨tb', hloop, hin, hout, hsome₂⟩ := scatterLoop_restText table1 table2
    projects.tail hfuel hb tb₁
  rw [List.nil_append, ← listText_eq] at hstep
  rw [Tables.restored_congr hsome₁] at hin
  rw [hstep, hloop]
  refine congrArg some (Tables.eq_of_sameAt ?_ fun p ↦ ?_)
  · rw [hsome₂, hsome₁, Tables.restored, Option.isSome_map]
  · by_cases hmem : p ∈ projects.tail
    · exact hin p hmem
    · obtain rfl : p = .RC5 := (List.mem_cons.mp (mem_projects p)).resolve_right hmem
      exact (hout _ hmem).trans hp

/-- **A written list restores the tables**, and no list changes what it does not name. -/
theorem optionlist_exact :
    (∀ (table1 : Project → U32) (table2 : Option (Project → U32)) (b : List U8),
      (listText table1 table2).length + 1 < b.length →
      ∃ b' n s, utilGatherOptionArraysToList (some b) table1 table2 = some (some b', n)
        ∧ cstr b' = some s
        ∧ ∀ buffer t default1 default2,
          utilScatterOptionListToArraysEx buffer s t default1 default2
            = some ⟨table1, t.table2.map fun _ ↦ table2.getD table1⟩)
    ∧ ∀ (buffer : List.Vector U8 OPTION) (oplist : CString) (t : Tables)
        (default1 default2 : Option (Project → U32)),
        ∃ t', utilScatterOptionListToArraysEx buffer oplist.1 t default1 default2 = some t'
          ∧ ∀ p, ¬Named p oplist.1 → t'.SameAt (t.defaults default1 default2) p := by
  refine ⟨fun table1 table2 b hroom ↦ ?_, fun buffer oplist t default1 default2 ↦
    scatterLoop_ok (Nat.lt_succ_self _) buffer.2 oplist.2⟩
  obtain ⟨b', n, hgather, hcstr⟩ := utilGatherOptionArraysToList_spec table1 table2 hroom
  exact ⟨b', n, _, hgather, hcstr, utilScatterOptionListToArraysEx_listText table1 table2⟩

theorem optionlist_exact_negative :
    (listText (fun _ ↦ BitVec.intMin 32) (some fun _ ↦ 7#32)).length + 1
        < (List.replicate 300 1#8).length
      ∧ ∃ b' n s, utilGatherOptionArraysToList (some (List.replicate 300 1#8))
          (fun _ ↦ BitVec.intMin 32) (some fun _ ↦ 7#32) = some (some b', n)
        ∧ cstr b' = some s
        ∧ ∀ buffer t default1 default2,
          utilScatterOptionListToArraysEx buffer s t default1 default2
            = some ⟨fun _ ↦ BitVec.intMin 32,
              t.table2.map fun _ ↦ (some fun _ ↦ 7#32).getD fun _ ↦ BitVec.intMin 32⟩ :=
  have hroom : (listText (fun _ ↦ BitVec.intMin 32) (some fun _ ↦ 7#32)).length + 1
      < (List.replicate 300 1#8).length := by decide +kernel
  ⟨hroom, optionlist_exact.1 _ _ _ hroom⟩

end Words

end Hyunjin.Conf
