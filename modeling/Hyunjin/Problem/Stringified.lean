import Hyunjin.Problem.Stringify

/-!
# What is written of a number

Each step of `U64stringify` keeps to its buffers. A 64-bit number has at most 20 digits and six
commas, and what is put behind them is a space, a magnitude and a NUL. What is written then takes
no more than the length the caller tells. If the number finds its room, it is written with all its
digits.
-/

namespace Hyunjin

open Memory Block

/-! ## The digits -/

theorem Block.toNat_lo {b : Block} (h : b.int < 2 ^ 32) : b.lo.toNat = b.int := by
  rw [int] at h ⊢
  omega

theorem Block.hi_eq_zero_iff (b : Block) : b.hi = 0#32 ↔ b.int < 2 ^ 32 := by
  have hlo := b.lo.isLt
  rw [← BitVec.toNat_inj, int, BitVec.toNat_ofNat]
  omega

theorem int_BILLION : BILLION.int = 10 ^ 9 := by decide

theorem u64divLong_BILLION (v : Block) :
    ∃ q r, u64divLong 65 v BILLION = some (q, r) ∧ q.int = v.int / 10 ^ 9
      ∧ r.lo.toNat = v.int % 10 ^ 9 := by
  have hne : BILLION.int ≠ 0 := by decide
  obtain ⟨hquot, hrem⟩ := int_u64divNative v hne
  rw [int_BILLION] at hquot hrem
  have hsmall : (u64divNative v BILLION).2.int < 2 ^ 32 := by
    rw [hrem]
    exact (Nat.mod_lt _ (by decide)).trans (by decide)
  exact ⟨_, _, u64divLong_eq (by decide) v BILLION, hquot, (toNat_lo hsmall).trans hrem⟩

/-- **Both ways print the same digits.** -/
theorem sprintNumber_eq (long64 : Bool) (v : Block) :
    sprintNumber long64 v = some (decimal v.int) := by
  rw [sprintNumber]
  cases long64 with
  | true => rw [if_pos rfl, toNat_setWidth_add]
  | false =>
    rw [if_neg Bool.false_ne_true]
    by_cases hhi : v.hi = 0#32
    · rw [if_neg (not_not.mpr hhi), Option.bind_eq_bind, Option.bind_some]
      dsimp only
      rw [if_pos ⟨rfl, rfl⟩, toNat_lo ((hi_eq_zero_iff v).mp hhi)]
    · obtain ⟨q, r, hdiv, hq, hr⟩ := u64divLong_BILLION v
      have hbig := not_lt.mp (mt (hi_eq_zero_iff v).mpr hhi)
      have hpos : 0 < q.int := by
        rw [hq]
        exact Nat.div_pos (le_trans (by decide) hbig) (by decide)
      rw [if_pos hhi, hdiv, Option.bind_eq_bind, Option.bind_some]
      dsimp only
      rw [if_neg (by rw [hi_lo_eq_zero_iff]; exact hpos.ne')]
      split_ifs with hqhi
      · rw [toNat_lo ((hi_eq_zero_iff q).mp hqhi), hr, decimal_append_padded (by decide) hpos
          (Nat.mod_lt _ (by decide)), hq, Nat.div_add_mod']
      · obtain ⟨h, m, hdiv', hh, hm⟩ := u64divLong_BILLION q
        have hqbig := not_lt.mp (mt (hi_eq_zero_iff q).mpr hqhi)
        have hhpos : 0 < h.int := by
          rw [hh]
          exact Nat.div_pos (le_trans (by decide) hqbig) (by decide)
        have hsmall : h.int < 2 ^ 32 := by
          have hv := v.int_lt
          rw [hh, hq, Nat.div_div_eq_div_mul]
          exact Nat.div_lt_of_lt_mul (hv.trans (by decide))
        rw [hdiv', Option.bind_some]
        dsimp only
        rw [toNat_lo hsmall, hm, decimal_append_padded (by decide) hhpos
          (Nat.mod_lt _ (by decide)), hh, Nat.div_add_mod', hr,
          decimal_append_padded (by decide) hpos (Nat.mod_lt _ (by decide)), hq, Nat.div_add_mod']

theorem length_decimal_int_le (v : Block) : (decimal v.int).length ≤ 20 :=
  length_decimal_le (by decide) (v.int_lt.trans (by decide))

/-! ## The loops -/

theorem separate_cons {n : ℕ} {c : U8} {s : List U8} (h : s ≠ []) :
    separate n (c :: s)
      = c :: if (n + 1) % 3 = 0 then COMMA :: separate (n + 1) s else separate (n + 1) s := by
  obtain ⟨d, cs, rfl⟩ := List.exists_cons_of_ne_nil h
  exact separate.eq_3 n c d cs

/-- **The loop over the digits** sets the commas. -/
theorem commaLoop_spec {numbuf s t : List U8} (hheld : Memory.Holds numbuf s) {r : ℕ} (hpos : 0 < r)
    (hr : r ≤ s.length) (len : ℕ) {w : Cursor} (hw : w.Ends t)
    (hroom : (separate len (s.take r).reverse).length + t.length ≤ w.buf.length) :
    ∃ w', commaLoop numbuf r len w = some w' ∧ w'.buf.length = w.buf.length
      ∧ w'.Ends ((separate len (s.take r).reverse).reverse ++ t) := by
  induction r generalizing len w t with
  | zero => exact absurd hpos (Nat.lt_irrefl 0)
  | succ r ih =>
    have hget : numbuf[r]? = some s[r] := by
      rw [hheld.getElem? hr, List.getElem?_eq_getElem hr]
    have htake : (s.take (r + 1)).reverse = s[r] :: (s.take r).reverse := by
      rw [List.take_succ_eq_append_getElem hr, List.reverse_append]
      rfl
    rw [htake] at hroom ⊢
    by_cases hzero : r = 0
    · subst hzero
      obtain ⟨w', hpush, hbuf, hends⟩ :=
        hw.push (by rw [List.take_zero, List.reverse_nil, separate] at hroom; grind) s[0]
      refine ⟨w', ?_, hbuf, hends⟩
      rw [commaLoop, hget, Option.bind_eq_bind, Option.bind_some, hpush]
      rfl
    · have hne : (s.take r).reverse ≠ [] := by
        rw [Ne, List.reverse_eq_nil_iff, List.take_eq_nil_iff]
        rintro (h | rfl)
        · exact hzero h
        · exact absurd hr (Nat.not_succ_le_zero r)
      rw [separate_cons hne] at hroom ⊢
      obtain ⟨w₁, hpush, hbuf, hends⟩ := hw.push (by grind) s[r]
      simp only [commaLoop, hget, hpush, Option.bind_eq_bind, Option.bind_some, if_neg hzero]
      split_ifs at hroom ⊢ with hthird
      · obtain ⟨w₂, hpush', hbuf', hends'⟩ := hends.push (by grind) COMMA
        obtain ⟨w₃, hloop, hbuf'', hends''⟩ := ih (Nat.pos_of_ne_zero hzero)
          (Nat.le_of_succ_le hr) (len + 1) hends' (by grind)
        refine ⟨w₃, ?_, by rw [hbuf'', hbuf', hbuf], ?_⟩
        · rw [hpush', Option.bind_some, hloop]
        · simpa using hends''
      · obtain ⟨w₃, hloop, hbuf'', hends''⟩ := ih (Nat.pos_of_ne_zero hzero)
          (Nat.le_of_succ_le hr) (len + 1) hends (by grind)
        exact ⟨w₃, hloop, by rw [hbuf'', hbuf], by simpa using hends''⟩

theorem findPoint_spec {numbuf t : List U8} (hheld : Memory.Holds numbuf t) (len : ℕ)
    (hlen : len < t.length) :
    ∃ k ≤ len, findPoint numbuf len = some k ∧ (k ≠ 0 → t[k]? = some COMMA) := by
  induction len with
  | zero => exact ⟨0, le_rfl, rfl, fun h ↦ absurd rfl h⟩
  | succ len ih =>
    obtain ⟨k, hk, hfind, hcomma⟩ := ih (Nat.lt_of_succ_lt hlen)
    have hget : numbuf[len + 1]? = some t[len + 1] := by
      rw [hheld.getElem? hlen, List.getElem?_eq_getElem hlen]
    rw [findPoint, hget, Option.bind_eq_bind, Option.bind_some]
    split_ifs with hc
    · exact ⟨k, hk.trans (Nat.le_succ len), hfind, hcomma⟩
    · refine ⟨len + 1, le_rfl, rfl, fun _ ↦ ?_⟩
      rw [List.getElem?_eq_getElem hlen, not_not.mp hc]

/-- The commas from a place on are counted, up to the NUL. -/
theorem countMagna_spec {numbuf t : List U8} (hheld : Memory.Holds numbuf (t ++ [0#8]))
    (hcomma : ∀ i, t[i]? = some COMMA ↔ i < t.length ∧ (t.length - i) % 4 = 0) (fuel : ℕ) {pos : ℕ}
    (hpos : pos ≤ t.length) (hmod : (t.length - pos) % 4 = 0)
    (hfuel : (t.length - pos) / 4 < fuel) (magna : ℕ) :
    countMagna numbuf fuel pos magna = some (magna + (t.length - pos) / 4) := by
  induction fuel generalizing pos magna with
  | zero => exact absurd hfuel (Nat.not_lt_zero _)
  | succ fuel ih =>
    have hget : numbuf[pos]? = (t ++ [0#8])[pos]? :=
      hheld.getElem? (by rw [List.length_append]; exact Nat.lt_succ_of_le hpos)
    rcases hpos.lt_or_eq with hlt | rfl
    · rw [List.getElem?_append_left hlt, (hcomma pos).mpr ⟨hlt, hmod⟩] at hget
      rw [countMagna, hget, Option.bind_eq_bind, Option.bind_some, if_pos rfl,
        ih (by omega) (by omega) (by omega)]
      refine congrArg some ?_
      omega
    · rw [List.getElem?_concat_length] at hget
      rw [countMagna, hget, Option.bind_eq_bind, Option.bind_some, if_neg (by decide),
        Nat.sub_self]
      rfl

theorem bumpDigit_ne_zero (carry : Bool) {c : U8} (h : c ≠ 0#8) :
    (bumpDigit carry c).1 ≠ 0#8 := by
  revert h c
  cases carry <;> decide

/-- The loop keeps the number of characters. -/
theorem roundLoop_spec {numbuf s t : List U8} (hheld : Memory.Holds numbuf s) (hs : 0#8 ∉ s) {r : ℕ}
    (hpos : 0 < r) (hr : r ≤ s.length) (carry : Bool) {w : Cursor} (hw : w.Ends t)
    (hroom : r + t.length ≤ w.buf.length) :
    ∃ w' carry' x, roundLoop numbuf r carry w = some (w', carry')
      ∧ w'.buf.length = w.buf.length ∧ w'.Ends (x ++ t) ∧ x.length = r ∧ 0#8 ∉ x := by
  induction r generalizing carry w t with
  | zero => exact absurd hpos (Nat.lt_irrefl 0)
  | succ r ih =>
    have hget : numbuf[r]? = some s[r] := by
      rw [hheld.getElem? hr, List.getElem?_eq_getElem hr]
    have hne : (bumpDigit carry s[r]).1 ≠ 0#8 :=
      bumpDigit_ne_zero carry (ne_of_mem_of_not_mem (List.getElem_mem hr) hs)
    obtain ⟨w₁, hpush, hbuf, hends⟩ := hw.push (by omega) (bumpDigit carry s[r]).1
    simp only [roundLoop, hget, hpush, Option.bind_eq_bind, Option.bind_some]
    split_ifs with hzero
    · subst hzero
      exact ⟨w₁, _, [(bumpDigit carry s[0]).1], rfl, hbuf, hends, rfl,
        fun h ↦ hne (List.mem_singleton.mp h).symm⟩
    · obtain ⟨w', carry', x, hloop, hbuf', hends', hlen, hx⟩ := ih (Nat.pos_of_ne_zero hzero)
        (Nat.le_of_succ_le hr) (bumpDigit carry s[r]).2 hends (by rw [List.length_cons]; omega)
      refine ⟨w', carry', x ++ [(bumpDigit carry s[r]).1], hloop, by rw [hbuf', hbuf], ?_, ?_, ?_⟩
      · simpa using hends'
      · rw [List.length_append, hlen, List.length_singleton]
      · rw [List.mem_append, List.mem_singleton]
        rintro (h | h)
        · exact hx h
        · exact hne h.symm

/-! ## The number and its room -/

/-- The number is cut behind the character `len`, rounded or not. -/
theorem roundNumber_spec {numbuf fmtbuf s : List U8} (hnumbuf : numbuf.length = 32)
    (hfmtbuf : fmtbuf.length = 32) (hheld : Memory.Holds numbuf (s ++ [0#8])) (hs : 0#8 ∉ s)
    (len : ℕ) (hpos : 0 < len) (hlen : len < s.length) :
    ∃ numbuf' s', roundNumber numbuf fmtbuf len = some (numbuf', len) ∧ numbuf'.length = 32
      ∧ Memory.Holds numbuf' s' ∧ s'.length = len ∧ 0#8 ∉ s' := by
  have hfront : Memory.Holds numbuf s := (List.prefix_append s _).trans hheld
  have hle : s.length + 1 ≤ 32 := by simpa [hnumbuf] using hheld.length_le
  have hget : numbuf[len]? = some s[len] := by
    rw [hfront.getElem? hlen, List.getElem?_eq_getElem hlen]
  -- whatever is not copied back, the characters in front of `len` are those of before
  have hcut : Memory.Holds numbuf (s.take len) ∧ (s.take len).length = len ∧ 0#8 ∉ s.take len :=
    ⟨(List.take_prefix len s).trans hfront, List.length_take_of_le hlen.le,
      fun h ↦ hs (List.mem_of_mem_take h)⟩
  obtain ⟨w₁, hpush, hbuf₁, hends₁⟩ := (Cursor.ends_atEnd fmtbuf).push
    (by rw [Cursor.atEnd, hfmtbuf]; decide) 0#8
  rw [Cursor.atEnd, hfmtbuf] at hbuf₁
  obtain ⟨w₂, carry, x, hloop, hbuf₂, hends₂, hx, hxnul⟩ := roundLoop_spec hfront hs hpos hlen.le
    true hends₁ (by rw [hbuf₁, List.length_singleton]; omega)
  simp only [roundNumber, hget, Option.bind_eq_bind, Option.bind_some]
  split_ifs with hfive
  · simp only [hpush, hloop, Option.bind_some]
    cases carry with
    | true =>
      obtain ⟨w₃, hpush', -⟩ := hends₂.push
        (by rw [hbuf₂, hbuf₁, List.length_append, hx, List.length_singleton]; omega) ONE
      simp only [if_true, hpush', Option.bind_some, Bool.not_true, Bool.false_eq_true, if_false]
      exact ⟨numbuf, _, rfl, hnumbuf, hcut⟩
    | false =>
      obtain ⟨numbuf', hcpy, hlen', hheld'⟩ := strcpy_of_lt (m := numbuf) (s := x) (by omega)
      simp only [Bool.false_eq_true, if_false, Option.bind_some, Bool.not_false, if_true,
        hends₂.str hxnul, hcpy, hx]
      exact ⟨numbuf', x, rfl, hlen'.trans hnumbuf, (List.prefix_append x _).trans hheld', hx, hxnul⟩
  · exact ⟨numbuf, _, rfl, hnumbuf, hcut⟩

/-- A number that is written: its characters are in the buffer, which has room for three more, and
its magnitude is in the table. -/
structure Field.Ok (f : Field) (total : ℕ) (s : List U8) : Prop where
  length_numbuf : f.numbuf.length = 32
  holds : Memory.Holds f.numbuf s
  length_eq : s.length = f.len
  not_mem : 0#8 ∉ s
  len_le : f.len + 3 ≤ 32
  magna_le : f.magna ≤ 8
  total_eq : f.buflen + f.suffixLen = total

theorem stars_spec {numbuf : List U8} (h : numbuf.length = 32) :
    ∃ numbuf', strcpy numbuf STARS = some numbuf' ∧ numbuf'.length = 32
      ∧ Memory.Holds numbuf' (STARS ++ [0#8]) := by
  obtain ⟨numbuf', hcpy, hlen, hheld⟩ := strcpy_of_lt (m := numbuf) (s := STARS)
    (by rw [h]; decide)
  exact ⟨numbuf', hcpy, hlen.trans h, hheld⟩

/-- **Scaling keeps to the buffers.** The decimal point takes the place of a comma, so that there
are three digits and a comma, or the NUL, behind it. -/
theorem scaleNumber_spec {numbuf fmtbuf t : List U8} (hnumbuf : numbuf.length = 32)
    (hfmtbuf : fmtbuf.length = 32) (hheld : Memory.Holds numbuf (t ++ [0#8])) (ht : 0#8 ∉ t)
    (hcomma : ∀ i, t[i]? = some COMMA ↔ i < t.length ∧ (t.length - i) % 4 = 0)
    (hle : t.length ≤ 26) {buflen : ℕ} (hfive : 5 ≤ buflen) (hlong : buflen < t.length)
    (suffixLen : ℕ) :
    ∃ f s, scaleNumber numbuf fmtbuf buflen suffixLen = some f
      ∧ f.Ok (buflen + suffixLen) s := by
  have hfront : Memory.Holds numbuf t := (List.prefix_append t _).trans hheld
  obtain ⟨len, hlen, hfind, hpoint⟩ := findPoint_spec hfront (buflen - 1 - 3) (by omega)
  simp only [scaleNumber, hfind, Option.bind_eq_bind, Option.bind_some]
  split_ifs with hzero
  · obtain ⟨numbuf', hcpy, hlen', hheld'⟩ := stars_spec hnumbuf
    rw [hcpy, Option.bind_some]
    exact ⟨_, STARS, rfl, hlen', (List.prefix_append _ _).trans hheld', rfl, by decide,
      by dsimp only; omega, by dsimp only; omega, by dsimp only; omega⟩
  · obtain ⟨hlt, hmod⟩ := (hcomma len).mp (hpoint hzero)
    have hmagna := countMagna_spec hheld hcomma 32 hlt.le hmod (by omega) 0
    obtain ⟨m₁, hstore, hlen₁, hheld₁⟩ := hheld.set (i := len)
      (by rw [List.length_append]; omega) DOT
    rw [List.set_append_left _ _ hlt] at hheld₁
    have hnul : 0#8 ∉ t.set len DOT := fun h ↦
      (List.mem_or_eq_of_mem_set h).elim ht (by decide)
    obtain ⟨m₂, s, hround, hlen₂, hheld₂, hs, hsnul⟩ := roundNumber_spec (hlen₁.trans hnumbuf)
      hfmtbuf hheld₁ hnul (len + 3) (by omega) (by rw [List.length_set]; omega)
    obtain ⟨m₃, hstore', hlen₃, hheld₃⟩ := hheld₂.store (by omega) 0#8
    rw [hs] at hstore'
    simp only [hmagna, hstore, hround, hstore', Option.bind_some]
    exact ⟨_, s, rfl, hlen₃.trans hlen₂, (List.prefix_append _ _).trans hheld₃, hs, hsnul,
      by dsimp only; omega, by dsimp only; omega, by dsimp only; omega⟩

/-! ## The text -/

/-- The number as the style writes it where there is room. -/
def numberText (numstrStyle : ℤ) (n : ℕ) : List U8 :=
  if numstrStyle = -1 then decimal n else commas (decimal n)

theorem commas_of_length_le {s : List U8} (hs : ∀ c ∈ s, IsDigit c) (hlen : s.length ≤ 3) :
    commas s = s := by
  rcases eq_or_ne s [] with rfl | hne
  · rfl
  · have hsub := List.filter_sublist (p := (· ≠ COMMA)) (l := commas s)
    rw [filter_commas hs] at hsub
    refine (hsub.eq_of_length ?_).symm
    rw [length_commas hne]
    omega

/-- **The commas aside, the text is the number.** -/
theorem decimalValue_numberText (numstrStyle : ℤ) (n : ℕ) :
    decimalValue ((numberText numstrStyle n).filter (· ≠ COMMA)) = n := by
  have hdigits : ∀ c ∈ decimal n, IsDigit c := fun c ↦ isDigit_of_mem_decimal
  rw [numberText]
  split_ifs with hstyle
  · have hall : (decimal n).filter (· ≠ COMMA) = decimal n :=
      List.filter_eq_self.mpr fun c hc ↦ decide_eq_true (hdigits c hc).ne_comma
    rw [hall, decimalValue_decimal]
  · rw [filter_commas hdigits, decimalValue_decimal]

theorem decimal_not_mem (n : ℕ) : 0#8 ∉ decimal n :=
  fun h ↦ (isDigit_of_mem_decimal h).ne_zero rfl

/-- **The number with its commas**, or scaled if it is too long then. -/
theorem formatNumber_spec {numbuf fmtbuf : List U8} (hnumbuf : numbuf.length = 32)
    (hfmtbuf : fmtbuf.length = 32) (v : Block)
    (hheld : Memory.Holds numbuf (decimal v.int ++ [0#8])) (lay : NumberLayout)
    (hfive : 5 ≤ lay.buflen) :
    ∃ f s, formatNumber numbuf fmtbuf (decimal v.int).length lay = some f
      ∧ f.Ok (lay.buflen + lay.suffixLen) s
      ∧ ((numberText lay.style v.int).length ≤ lay.buflen →
        f.magna = 0 ∧ f.buflen = lay.buflen ∧ s = numberText lay.style v.int) := by
  have hdigits : ∀ c ∈ decimal v.int, IsDigit c := fun c ↦ isDigit_of_mem_decimal
  have hfront : Memory.Holds numbuf (decimal v.int) := (List.prefix_append _ _).trans hheld
  have hnul := decimal_not_mem v.int
  have hshort := length_decimal_int_le v
  rw [formatNumber]
  split_ifs with hcase
  · obtain ⟨hstyle, hlen⟩ := hcase
    have hne : decimal v.int ≠ [] := List.length_pos_iff.mp (by omega)
    have htext : numberText lay.style v.int = commas (decimal v.int) := if_neg hstyle
    have hcommas := length_commas hne
    have hcnul : 0#8 ∉ commas (decimal v.int) := fun h ↦ (mem_commas h).elim hnul (by decide)
    obtain ⟨w₁, hpush, hbuf₁, hends₁⟩ := (Cursor.ends_atEnd fmtbuf).push
      (by rw [Cursor.atEnd, hfmtbuf]; decide) 0#8
    rw [Cursor.atEnd, hfmtbuf] at hbuf₁
    have htake : (decimal v.int).take (decimal v.int).length = decimal v.int := List.take_length
    have hroom : (separate 0 (decimal v.int).reverse).length = (commas (decimal v.int)).length := by
      rw [commas, List.length_reverse]
    obtain ⟨w₂, hloop, hbuf₂, hends₂⟩ := commaLoop_spec hfront (Nat.zero_lt_of_lt hlen) le_rfl 0
      hends₁ (by rw [htake, hroom, hbuf₁, List.length_singleton]; omega)
    rw [htake] at hends₂
    obtain ⟨m, hcpy, hlen', hheld'⟩ := strcpy_of_lt (m := numbuf) (s := commas (decimal v.int))
      (by omega)
    simp only [hpush, hloop, Cursor.Ends.str (s := commas (decimal v.int)) hends₂ hcnul, hcpy,
      Option.bind_eq_bind, Option.bind_some]
    rw [htext]
    split_ifs with hlong
    · obtain ⟨f, s, hscale, hok⟩ := scaleNumber_spec (hlen'.trans hnumbuf) (hbuf₂.trans hbuf₁)
        hheld' hcnul (commas_getElem? hdigits) (by omega) hfive hlong lay.suffixLen
      exact ⟨f, s, hscale, hok, fun h ↦ absurd hlong (Nat.not_lt.mpr h)⟩
    · exact ⟨_, _, rfl, ⟨hlen'.trans hnumbuf, (List.prefix_append _ _).trans hheld', rfl, hcnul,
        by dsimp only; omega, Nat.zero_le _, rfl⟩, fun _ ↦ ⟨rfl, rfl, rfl⟩⟩
  · refine ⟨_, decimal v.int, rfl, ⟨hnumbuf, hfront, rfl, hnul, by dsimp only; omega,
      Nat.zero_le _, rfl⟩, fun _ ↦ ⟨rfl, rfl, ?_⟩⟩
    rw [numberText]
    split_ifs with hstyle
    · rfl
    · exact (commas_of_length_le hdigits (by omega)).symm

/-- The space behind the number. -/
def spaceAfter (numstrStyle : ℤ) : List U8 :=
  if numstrStyle = 1 ∨ numstrStyle = 2 then [SPACE] else []

theorem magnaTab_spec {magna : ℕ} (hpos : magna ≠ 0) (hle : magna ≤ 8) :
    ∃ c, magnaTab[magna]? = some c ∧ c ≠ 0#8 := by
  interval_cases magna
  · exact absurd rfl hpos
  all_goals exact ⟨_, rfl, by decide⟩

theorem putSpace_spec {numbuf s : List U8} (hnumbuf : numbuf.length = 32)
    (hheld : Memory.Holds numbuf s) (hs : 0#8 ∉ s) (hlen : s.length + 3 ≤ 32) (style : ℤ) :
    ∃ m, putSpace numbuf s.length style = some (m, (s ++ spaceAfter style).length)
      ∧ m.length = 32 ∧ Memory.Holds m (s ++ spaceAfter style) ∧ 0#8 ∉ s ++ spaceAfter style
      ∧ (s ++ spaceAfter style).length + 2 ≤ 32 := by
  rw [putSpace, spaceAfter]
  split_ifs
  · obtain ⟨m, hstore, hlen', hheld'⟩ := hheld.store (by omega) SPACE
    rw [hstore, List.length_append, List.mem_append]
    exact ⟨m, rfl, hlen'.trans hnumbuf, hheld', fun h ↦ h.elim hs (by decide), by simpa using hlen⟩
  · rw [List.append_nil]
    exact ⟨_, rfl, hnumbuf, hheld, hs, Nat.le_of_succ_le hlen⟩

theorem putMagna_spec {numbuf s : List U8} (hnumbuf : numbuf.length = 32)
    (hheld : Memory.Holds numbuf s) (hs : 0#8 ∉ s) (hlen : s.length + 2 ≤ 32) {magna : ℕ}
    (hmagna : magna ≤ 8) :
    ∃ m s', putMagna numbuf s.length magna = some (m, s'.length) ∧ m.length = 32 ∧ Memory.Holds m s'
      ∧ 0#8 ∉ s' ∧ s'.length + 1 ≤ 32 ∧ (magna = 0 → s' = s) := by
  rw [putMagna]
  split_ifs with hzero
  · obtain ⟨c, hget, hc⟩ := magnaTab_spec hzero hmagna
    obtain ⟨m, hstore, hlen', hheld'⟩ := hheld.store (by omega) c
    refine ⟨m, s ++ [c], ?_, hlen'.trans hnumbuf, hheld', ?_, ?_, fun h ↦ absurd h hzero⟩
    · rw [hget, Option.bind_eq_bind, Option.bind_some, hstore, List.length_append]
      rfl
    · rw [List.mem_append, List.mem_singleton]
      exact fun h ↦ h.elim hs fun h ↦ hc h.symm
    · rw [List.length_append, List.length_singleton]
      exact hlen
  · exact ⟨_, s, rfl, hnumbuf, hheld, hs, Nat.le_of_succ_le hlen, fun _ ↦ rfl⟩

/-- **The space and the magnitude fit**, and the magnitude is one of the table. -/
theorem finishNumber_spec {f : Field} {total : ℕ} {s : List U8} (hok : f.Ok total s) (style : ℤ) :
    ∃ m s', finishNumber f style = some m ∧ m.length = 32 ∧ Memory.Holds m (s' ++ [0#8]) ∧ 0#8 ∉ s'
      ∧ (f.magna = 0 → s' = s ++ spaceAfter style) := by
  obtain ⟨hlen, hheld, hs, hnul, hle, hmagna, -⟩ := hok
  rw [← hs] at hle
  obtain ⟨m₁, hspace, hm₁, hheld₁, hnul₁, hle₁⟩ := putSpace_spec hlen hheld hnul hle style
  obtain ⟨m₂, s', hput, hm₂, hheld₂, hnul₂, hle₂, heq⟩ :=
    putMagna_spec hm₁ hheld₁ hnul₁ hle₁ hmagna
  obtain ⟨m₃, hstore, hm₃, hheld₃⟩ := hheld₂.store (by omega) 0#8
  refine ⟨m₃, s', ?_, hm₃.trans hm₂, hheld₃, hnul₂, heq⟩
  rw [finishNumber, ← hs, hspace, Option.bind_eq_bind, Option.bind_some]
  dsimp only
  rw [hput, Option.bind_some]
  exact hstore

/-- What is copied: the number, or the stars in its place. -/
theorem checkNumber_spec {numbuf s : List U8} (hnumbuf : numbuf.length = 32)
    (hheld : Memory.Holds numbuf (s ++ [0#8])) (hs : 0#8 ∉ s) (buflen : ℕ) :
    ∃ m x, checkNumber numbuf buflen = some m ∧ Memory.Holds m (x ++ [0#8]) ∧ 0#8 ∉ x
      ∧ (s.length ≤ buflen → x = s) := by
  rw [checkNumber, cstr_of_holds hheld hs, Option.bind_eq_bind, Option.bind_some]
  split_ifs with hlong
  · obtain ⟨m, hcpy, -, hheld'⟩ := stars_spec hnumbuf
    exact ⟨m, STARS, hcpy, hheld', by decide, fun h ↦ absurd hlong (Nat.not_lt.mpr h)⟩
  · exact ⟨numbuf, s, rfl, hheld, hs, fun _ ↦ rfl⟩

/-- **Copying keeps to the caller's buffer.** -/
theorem copyOut_spec (buffer : List U8) {numbuf s : List U8} (hnumbuf : numbuf.length = 32)
    (hheld : Memory.Holds numbuf (s ++ [0#8])) (hs : 0#8 ∉ s) (buflen : ℕ) (style : ℤ)
    {suffix : List U8} (hsuffix : 0#8 ∉ suffix)
    (hroom : buflen + (if style = 2 then suffix.length else 0) < buffer.length) :
    ∃ out text, copyOut buffer numbuf buflen style suffix = some out
      ∧ out.length = buffer.length ∧ Memory.Holds out (text ++ [0#8]) ∧ 0#8 ∉ text
      ∧ (s.length ≤ buflen → text = s ++ if style = 2 then suffix else []) := by
  obtain ⟨m, x, hcheck, hheldx, hx, hxs⟩ := checkNumber_spec hnumbuf hheld hs buflen
  obtain ⟨m₁, m₂, hcpy, hstore, hlen, hheld₂⟩ := strncpy_store (m := buffer) (s := x)
    (n := buflen) (by omega)
  have hcut : 0#8 ∉ x.take buflen := fun h ↦ hx (List.mem_of_mem_take h)
  simp only [copyOut, hcheck, cstr_of_holds hheldx hx, hcpy, hstore, Option.bind_eq_bind,
    Option.bind_some]
  have hwhole : s.length ≤ buflen → x.take buflen = s := fun h ↦ by
    rw [hxs h, List.take_of_length_le h]
  split_ifs at hroom ⊢ with hstyle
  · obtain ⟨out, hcat, hlen', hheld'⟩ := strcat_of_lt (s := suffix) hheld₂ hcut
      (by rw [hlen, List.length_take]; omega)
    refine ⟨out, _, hcat, hlen'.trans hlen, hheld', ?_, fun h ↦ by rw [hwhole h]⟩
    rw [List.mem_append]
    exact fun h ↦ h.elim hcut hsuffix
  · exact ⟨m₂, _, rfl, hlen, hheld₂, hcut, fun h ↦ by rw [hwhole h, List.append_nil]⟩

/-- The unit behind the number: only the last style has one. -/
def unitAfter (numstrStyle : ℤ) (numstrSuffix : Option CString) : List U8 :=
  if numstrStyle ≠ 2 then [] else (numstrSuffix.map Subtype.val).getD []

/-- What follows the number. -/
def restAfter (numstrStyle : ℤ) (numstrSuffix : Option CString) : List U8 :=
  spaceAfter numstrStyle ++ unitAfter numstrStyle numstrSuffix

theorem unitAfter_not_mem (numstrStyle : ℤ) (numstrSuffix : Option CString) :
    0#8 ∉ unitAfter numstrStyle numstrSuffix := by
  rw [unitAfter]
  split_ifs
  · exact List.not_mem_nil
  · cases numstrSuffix with
    | none => exact List.not_mem_nil
    | some s => exact s.2

section Layout

variable (buflen : ℕ) {numstrStyle : ℤ} {numstrSuffix : Option CString}

/-- The parts of the buffer and its NUL are no more than the buffer. -/
theorem numberLayout_le (hpos : 0 < buflen)
    (hunit : (unitAfter numstrStyle numstrSuffix).length < 2 ^ 32) :
    (numberLayout buflen numstrStyle numstrSuffix).buflen
        + (numberLayout buflen numstrStyle numstrSuffix).suffixLen < buflen
      ∧ (5 ≤ (numberLayout buflen numstrStyle numstrSuffix).buflen →
        (numberLayout buflen numstrStyle numstrSuffix).buflen
          + (numberLayout buflen numstrStyle numstrSuffix).suffixLen
          + (unitAfter numstrStyle numstrSuffix).length < buflen) := by
  simp only [numberLayout, ← unitAfter.eq_1, Nat.mod_eq_of_lt hunit]
  split_ifs <;> omega

/-- A room of five characters is all there is beside the rest. -/
theorem numberLayout_of_room (hunit : (unitAfter numstrStyle numstrSuffix).length < 2 ^ 32)
    (hroom : 5 + (restAfter numstrStyle numstrSuffix).length < buflen) :
    (numberLayout buflen numstrStyle numstrSuffix).suffixLen = (spaceAfter numstrStyle).length
      ∧ (numberLayout buflen numstrStyle numstrSuffix).buflen
        = buflen - 1 - (restAfter numstrStyle numstrSuffix).length := by
  rw [restAfter, List.length_append, spaceAfter] at hroom ⊢
  simp only [numberLayout, ← unitAfter.eq_1, Nat.mod_eq_of_lt hunit]
  split_ifs at hroom ⊢ <;>
    simp only [List.length_singleton, List.length_nil, true_and] at hroom ⊢ <;> omega

/-- The last style without a unit is the one before. -/
theorem numberLayout_style (hunit : (unitAfter numstrStyle numstrSuffix).length < 2 ^ 32) :
    (numberLayout buflen numstrStyle numstrSuffix).style = numstrStyle
      ∨ numstrStyle = 2 ∧ (numberLayout buflen numstrStyle numstrSuffix).style = 1
        ∧ unitAfter numstrStyle numstrSuffix = [] := by
  simp only [numberLayout, ← unitAfter.eq_1, Nat.mod_eq_of_lt hunit]
  split_ifs with h
  · exact .inr ⟨h.1, rfl, List.eq_nil_of_length_eq_zero h.2⟩
  · exact .inl rfl

theorem numberLayout_unit (hunit : (unitAfter numstrStyle numstrSuffix).length < 2 ^ 32) :
    (if (numberLayout buflen numstrStyle numstrSuffix).style = 2
      then (numberLayout buflen numstrStyle numstrSuffix).suffix else [])
      = unitAfter numstrStyle numstrSuffix := by
  have hsuffix : (numberLayout buflen numstrStyle numstrSuffix).suffix
      = unitAfter numstrStyle numstrSuffix := rfl
  rcases numberLayout_style buflen hunit with hstyle | ⟨-, hstyle, hnil⟩
  · rw [hstyle, hsuffix, unitAfter]
    split_ifs <;> rfl
  · rw [hstyle, if_neg (by decide), hnil]

theorem numberLayout_spaceAfter (hunit : (unitAfter numstrStyle numstrSuffix).length < 2 ^ 32) :
    spaceAfter (numberLayout buflen numstrStyle numstrSuffix).style = spaceAfter numstrStyle := by
  rcases numberLayout_style buflen hunit with hstyle | ⟨rfl, hstyle, -⟩
  · rw [hstyle]
  · rw [hstyle]
    rfl

theorem numberLayout_numberText (hunit : (unitAfter numstrStyle numstrSuffix).length < 2 ^ 32)
    (n : ℕ) :
    numberText (numberLayout buflen numstrStyle numstrSuffix).style n
      = numberText numstrStyle n := by
  rcases numberLayout_style buflen hunit with hstyle | ⟨rfl, hstyle, -⟩
  · rw [hstyle]
  · rw [hstyle]
    rfl

end Layout

/-- **Writing a number keeps to its buffers.** Whatever the number, the style, the unit and the
length of the buffer, no access leaves a buffer or the table, and the caller's buffer then holds a
string. With room for five characters beside the space and the unit, a number that fits is written
with all its digits. -/
theorem u64stringify_text (long64 : Bool) (numbuf fmtbuf : List.Vector U8 32) {buffer : List U8}
    (hpos : buffer ≠ []) (v : Block) {numstrStyle : ℤ} {numstrSuffix : Option CString}
    (hunit : (unitAfter numstrStyle numstrSuffix).length < 2 ^ 32) :
    ∃ out text, U64stringify long64 numbuf fmtbuf buffer buffer.length v numstrStyle numstrSuffix
        = some out
      ∧ out.length = buffer.length ∧ Memory.Holds out (text ++ [0#8]) ∧ 0#8 ∉ text
      ∧ (5 + (restAfter numstrStyle numstrSuffix).length < buffer.length →
        (numberText numstrStyle v.int).length + (restAfter numstrStyle numstrSuffix).length
          < buffer.length →
        text = numberText numstrStyle v.int ++ restAfter numstrStyle numstrSuffix
          ∧ decimalValue ((numberText numstrStyle v.int).filter (· ≠ COMMA)) = v.int) := by
  have hlen : 0 < buffer.length := List.length_pos_iff.mpr hpos
  obtain ⟨hle, hle'⟩ := numberLayout_le buffer.length hlen hunit
  have hroom := numberLayout_of_room buffer.length hunit
  have hunit' := numberLayout_unit buffer.length hunit
  have hspace := numberLayout_spaceAfter buffer.length hunit
  have htext := numberLayout_numberText buffer.length hunit v.int
  have hsuffix : 0#8 ∉ (numberLayout buffer.length numstrStyle numstrSuffix).suffix :=
    unitAfter_not_mem numstrStyle numstrSuffix
  have hadd : ∀ n, n + (if (numberLayout buffer.length numstrStyle numstrSuffix).style = 2
      then (numberLayout buffer.length numstrStyle numstrSuffix).suffix.length else 0)
      = n + (unitAfter numstrStyle numstrSuffix).length := by
    intro n
    rw [← hunit']
    split_ifs <;> rfl
  rw [U64stringify, if_neg hlen.ne']
  generalize numberLayout buffer.length numstrStyle numstrSuffix = lay at *
  dsimp only
  split_ifs with hfive
  · obtain ⟨m, hcpy, hm, hheld⟩ := stars_spec numbuf.2
    obtain ⟨out, text, hcopy, hout, hheldout, hnul, -⟩ := copyOut_spec buffer hm hheld
      (by decide) (lay.buflen + lay.suffixLen) 0 hsuffix (by rw [if_neg (by decide)]; exact hle)
    rw [hcpy, Option.bind_eq_bind, Option.bind_some]
    refine ⟨out, text, hcopy, hout, hheldout, hnul, fun h ↦ ?_⟩
    have := (hroom h).2
    omega
  · obtain ⟨m₁, hcpy, hm₁, hheld₁⟩ := strcpy_of_lt (m := numbuf.1) (s := decimal v.int)
      (by rw [numbuf.2]; exact (length_decimal_int_le v).trans_lt (by decide))
    obtain ⟨f, s, hformat, hok, hfits⟩ := formatNumber_spec (hm₁.trans numbuf.2) fmtbuf.2 v hheld₁
      lay (Nat.not_lt.mp hfive)
    obtain ⟨m₂, s', hfinish, hm₂, hheld₂, hnul₂, heq⟩ := finishNumber_spec hok lay.style
    obtain ⟨out, text, hcopy, hout, hheldout, hnul, hwhole⟩ := copyOut_spec buffer hm₂
      hheld₂ hnul₂ (f.buflen + f.suffixLen) lay.style hsuffix
      (by rw [hok.total_eq, hadd]; exact hle' (Nat.not_lt.mp hfive))
    simp only [sprintNumber_eq, hcpy, hformat, hfinish, Option.bind_eq_bind, Option.bind_some]
    refine ⟨out, text, hcopy, hout, hheldout, hnul, fun h hfit ↦
      ⟨?_, decimalValue_numberText numstrStyle v.int⟩⟩
    obtain ⟨hsuffixLen, hbuflen⟩ := hroom h
    obtain ⟨hmagna, -, hs⟩ := hfits (by rw [htext]; omega)
    have hs' := heq hmagna
    rw [hwhole, hunit', hs', hs, htext, hspace, List.append_assoc]
    · rfl
    · rw [hok.total_eq, hs', hs, htext, hspace, List.length_append]
      omega

/-- The buffers before anything is written. -/
def blank : List.Vector U8 32 := List.Vector.replicate 32 0#8

/-- The unit `keys`. -/
def KEYS : CString := ⟨[107#8, 101#8, 121#8, 115#8], by decide⟩

theorem u64stringify_text_keys :
    ∃ out text, U64stringify false blank blank (List.replicate 11 1#8)
        (List.replicate 11 1#8).length ⟨0#32, 7#32⟩ 2 (some KEYS) = some out
      ∧ out.length = (List.replicate 11 1#8).length ∧ Memory.Holds out (text ++ [0#8]) ∧ 0#8 ∉ text
      ∧ (5 + (restAfter 2 (some KEYS)).length < (List.replicate 11 1#8).length →
        (numberText 2 (⟨0#32, 7#32⟩ : Block).int).length + (restAfter 2 (some KEYS)).length
          < (List.replicate 11 1#8).length →
        text = numberText 2 (⟨0#32, 7#32⟩ : Block).int ++ restAfter 2 (some KEYS)
          ∧ decimalValue ((numberText 2 (⟨0#32, 7#32⟩ : Block).int).filter (· ≠ COMMA))
            = (⟨0#32, 7#32⟩ : Block).int) :=
  u64stringify_text false blank blank (by decide) ⟨0#32, 7#32⟩ (by decide)

/-- **A number that fits is not always written.** `7 keys` and a NUL are seven characters, but there
is no room for five in front of the unit. -/
theorem not_u64stringify_seven :
    (numberText 2 7 ++ restAfter 2 (some KEYS) ++ [0#8]).length = 7
      ∧ U64stringify true blank blank (List.replicate 7 1#8) 7 ⟨0#32, 7#32⟩ 2 (some KEYS)
        = some [42#8, 42#8, 0#8, 1#8, 1#8, 1#8, 1#8] := by
  decide +kernel

end Hyunjin
