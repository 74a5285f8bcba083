import Hyunjin.Word.Bytes
import Mathlib.Data.Nat.Digits.Lemmas

/-!
# Decimal numbers

The digits of a number as `%lu` prints them, and as `%09lu` does, padded with zeros. A comma is set
between the digits after every third one, counted from the last. The commas then stand where the
distance to the end is a multiple of four.
-/

namespace Hyunjin

/-! ## Digits -/

/-- The character of a digit. -/
def digitChar (d : ℕ) : U8 := BitVec.ofNat 8 (48 + d)

/-- The number as `%lu` prints it. -/
def decimal (n : ℕ) : List U8 :=
  if n = 0 then [digitChar 0] else ((Nat.digits 10 n).map digitChar).reverse

/-- The number as `%0klu` prints it. -/
def padded (k n : ℕ) : List U8 :=
  List.replicate (k - (decimal n).length) (digitChar 0) ++ decimal n

/-- What the digits are worth. -/
def decimalValue (s : List U8) : ℕ := s.foldl (fun v c ↦ 10 * v + (c.toNat - 48)) 0

/-- A decimal digit. -/
def IsDigit (c : U8) : Prop := 48 ≤ c.toNat ∧ c.toNat ≤ 57

theorem toNat_digitChar {d : ℕ} (h : d < 10) : (digitChar d).toNat = 48 + d := by
  rw [digitChar, BitVec.toNat_ofNat]
  omega

theorem isDigit_digitChar {d : ℕ} (h : d < 10) : IsDigit (digitChar d) := by
  rw [IsDigit, toNat_digitChar h]
  omega

theorem decimal_of_lt {n : ℕ} (h : n < 10) : decimal n = [digitChar n] := by
  rw [decimal]
  split_ifs with hzero
  · rw [hzero]
  · rw [Nat.digits_of_lt 10 n hzero h]
    rfl

/-- The last digit is written last. -/
theorem decimal_of_ge {n : ℕ} (h : 10 ≤ n) :
    decimal n = decimal (n / 10) ++ [digitChar (n % 10)] := by
  have hpos : 0 < n := Nat.lt_of_lt_of_le (by decide) h
  rw [decimal, if_neg hpos.ne', decimal, if_neg (Nat.div_pos h (by decide)).ne',
    Nat.digits_def' (by decide) hpos, List.map_cons, List.reverse_cons]

theorem decimal_mul_add {q d : ℕ} (hq : 0 < q) (hd : d < 10) :
    decimal (10 * q + d) = decimal q ++ [digitChar d] := by
  rw [decimal_of_ge (by omega), Nat.mul_add_div (by decide), Nat.div_eq_of_lt hd, Nat.add_zero,
    Nat.mul_add_mod, Nat.mod_eq_of_lt hd]

theorem length_decimal_le {k n : ℕ} (hk : 0 < k) (h : n < 10 ^ k) : (decimal n).length ≤ k := by
  rw [decimal]
  split_ifs with hzero
  · exact hk
  · rw [List.length_reverse, List.length_map]
    exact (Nat.digits_length_le_iff (by decide) n).mpr h

theorem length_decimal_pos (n : ℕ) : 0 < (decimal n).length := by
  rw [decimal]
  split_ifs with hzero
  · exact Nat.one_pos
  · rw [List.length_reverse, List.length_map, List.length_pos_iff]
    exact Nat.digits_ne_nil_iff_ne_zero.mpr hzero

theorem isDigit_of_mem_decimal {n : ℕ} {c : U8} (h : c ∈ decimal n) : IsDigit c := by
  rw [decimal] at h
  split_ifs at h with hzero
  · rw [List.mem_singleton.mp h]
    exact isDigit_digitChar (by decide)
  · obtain ⟨d, hd, rfl⟩ := List.mem_map.mp (List.mem_reverse.mp h)
    exact isDigit_digitChar (Nat.digits_lt_base (by decide) hd)

/-- **The digits are worth the number.** -/
theorem decimalValue_decimal (n : ℕ) : decimalValue (decimal n) = n := by
  induction n using Nat.strongRecOn with
  | _ n ih =>
    rcases Nat.lt_or_ge n 10 with hlt | hge
    · rw [decimal_of_lt hlt, decimalValue, List.foldl_cons, List.foldl_nil, toNat_digitChar hlt]
      omega
    · have hrec := ih (n / 10) (Nat.div_lt_self (by omega) (by decide))
      rw [decimalValue] at hrec
      rw [decimal_of_ge hge, decimalValue, List.foldl_append, hrec, List.foldl_cons,
        List.foldl_nil, toNat_digitChar (Nat.mod_lt n (by decide))]
      omega

/-! ## Padding -/

theorem padded_one {n : ℕ} (h : n < 10) : padded 1 n = [digitChar n] := by
  rw [padded, decimal_of_lt h]
  rfl

/-- One digit more in front is one digit less behind. -/
theorem padded_succ {k : ℕ} (hk : 0 < k) (n : ℕ) :
    padded (k + 1) n = padded k (n / 10) ++ [digitChar (n % 10)] := by
  rcases Nat.lt_or_ge n 10 with hlt | hge
  · obtain ⟨k, rfl⟩ := Nat.exists_eq_succ_of_ne_zero hk.ne'
    rw [padded, padded, decimal_of_lt hlt, Nat.div_eq_of_lt hlt, Nat.mod_eq_of_lt hlt,
      decimal_of_lt (by decide)]
    simp only [List.length_singleton, Nat.succ_eq_add_one, Nat.add_sub_cancel,
      List.replicate_succ', List.append_assoc]
  · rw [padded, padded, decimal_of_ge hge, List.length_append, List.length_singleton,
      Nat.add_sub_add_right, List.append_assoc]

/-- **A number in two parts.** The low part is padded to its full width. -/
theorem decimal_append_padded {k m n : ℕ} (hk : 0 < k) (hm : 0 < m) (hn : n < 10 ^ k) :
    decimal m ++ padded k n = decimal (m * 10 ^ k + n) := by
  induction k, hk using Nat.le_induction generalizing n with
  | base =>
    rw [padded_one (by simpa using hn), Nat.mul_comm m]
    exact (decimal_mul_add hm (by simpa using hn)).symm
  | succ k hk ih =>
    have hsplit : m * 10 ^ (k + 1) + n = 10 * (m * 10 ^ k + n / 10) + n % 10 := by
      rw [Nat.pow_succ, Nat.mul_add, Nat.add_assoc, Nat.div_add_mod]
      ring
    have hpos : 0 < m * 10 ^ k + n / 10 := Nat.add_pos_left (Nat.mul_pos hm (by positivity)) _
    rw [padded_succ hk, ← List.append_assoc, ih (by omega), hsplit,
      decimal_mul_add hpos (Nat.mod_lt n (by decide))]

/-! ## Commas -/

def COMMA : U8 := 44#8

theorem IsDigit.ne_comma {c : U8} (h : IsDigit c) : c ≠ COMMA := by
  rintro rfl
  exact absurd h.1 (by decide)

theorem IsDigit.ne_zero {c : U8} (h : IsDigit c) : c ≠ 0#8 := by
  rintro rfl
  exact absurd h.1 (by decide)

/-- The digits from the last to the first, after `n` digits. -/
def separate : ℕ → List U8 → List U8
  | _, [] => []
  | _, [c] => [c]
  | n, c :: d :: cs =>
    c :: if (n + 1) % 3 = 0 then COMMA :: separate (n + 1) (d :: cs) else separate (n + 1) (d :: cs)

/-- The digits with a comma between every three. -/
def commas (s : List U8) : List U8 := (separate 0 s.reverse).reverse

theorem length_separate (n : ℕ) (c : U8) (cs : List U8) :
    (separate n (c :: cs)).length = cs.length + 1 + (n % 3 + cs.length) / 3 := by
  induction cs generalizing n c with
  | nil =>
    rw [separate, List.length_singleton, List.length_nil]
    omega
  | cons d cs ih =>
    rw [separate, List.length_cons]
    split_ifs with hthird
    · rw [List.length_cons, ih, List.length_cons]
      omega
    · rw [ih, List.length_cons]
      omega

theorem length_commas {s : List U8} (h : s ≠ []) :
    (commas s).length = s.length + (s.length - 1) / 3 := by
  have hrev : s.reverse ≠ [] := by simpa using h
  obtain ⟨c, cs, hcs⟩ := List.exists_cons_of_ne_nil hrev
  have hlen : s.length = cs.length + 1 := by rw [← List.length_reverse, hcs, List.length_cons]
  rw [commas, List.length_reverse, hcs, length_separate, hlen]
  simp

/-- The commas are every fourth character. -/
theorem separate_getElem? (n : ℕ) {s : List U8} (hs : ∀ c ∈ s, IsDigit c) (i : ℕ) :
    (separate n s)[i]? = some COMMA ↔ i < (separate n s).length ∧ (i + n % 3) % 4 = 3 := by
  induction n, s using separate.induct generalizing i with
  | case1 n => simp [separate]
  | case2 n c =>
    have hc := (hs c List.mem_cons_self).ne_comma
    rcases i with _ | i
    · simp only [separate, List.getElem?_cons_zero, Option.some.injEq, hc, false_iff]
      omega
    · simp [separate]
  | case3 n c d cs ih =>
    have hc := (hs c List.mem_cons_self).ne_comma
    have htail := ih fun c hmem ↦ hs c (List.mem_cons_of_mem _ hmem)
    rw [separate]
    split_ifs with hthird
    · rcases i with _ | _ | i
      · simp only [List.getElem?_cons_zero, Option.some.injEq, hc, false_iff]
        omega
      · simp only [List.getElem?_cons_succ, List.getElem?_cons_zero, List.length_cons, true_iff]
        omega
      · rw [List.getElem?_cons_succ, List.getElem?_cons_succ, htail, List.length_cons,
          List.length_cons]
        omega
    · rcases i with _ | i
      · simp only [List.getElem?_cons_zero, Option.some.injEq, hc, false_iff]
        omega
      · rw [List.getElem?_cons_succ, htail, List.length_cons]
        omega

/-- **Where the commas stand.** Their distance to the end is a multiple of four. -/
theorem commas_getElem? {s : List U8} (hs : ∀ c ∈ s, IsDigit c) (i : ℕ) :
    (commas s)[i]? = some COMMA
      ↔ i < (commas s).length ∧ ((commas s).length - i) % 4 = 0 := by
  rw [commas, List.length_reverse]
  rcases Nat.lt_or_ge i (separate 0 s.reverse).length with hlt | hge
  · rw [List.getElem?_reverse hlt,
      separate_getElem? 0 (fun c hc ↦ hs c (List.mem_reverse.mp hc))]
    omega
  · rw [List.getElem?_eq_none (by rw [List.length_reverse]; exact hge)]
    simp [hge]

theorem mem_separate {n : ℕ} {s : List U8} {c : U8} (h : c ∈ separate n s) :
    c ∈ s ∨ c = COMMA := by
  induction n, s using separate.induct with
  | case1 n => exact .inl h
  | case2 n d => exact .inl h
  | case3 n c' d cs ih =>
    rw [separate] at h
    rcases List.mem_cons.mp h with rfl | h
    · exact .inl List.mem_cons_self
    · split_ifs at h with hthird
      · rcases List.mem_cons.mp h with rfl | h
        · exact .inr rfl
        · exact (ih h).imp_left (List.mem_cons_of_mem _)
      · exact (ih h).imp_left (List.mem_cons_of_mem _)

theorem mem_commas {s : List U8} {c : U8} (h : c ∈ commas s) : c ∈ s ∨ c = COMMA :=
  (mem_separate (List.mem_reverse.mp h)).imp_left List.mem_reverse.mp

theorem filter_separate (n : ℕ) {s : List U8} (hs : ∀ c ∈ s, IsDigit c) :
    (separate n s).filter (· ≠ COMMA) = s := by
  induction n, s using separate.induct with
  | case1 n => rfl
  | case2 n c => simp [separate, (hs c List.mem_cons_self).ne_comma]
  | case3 n c d cs ih =>
    have hc := (hs c List.mem_cons_self).ne_comma
    have htail := ih fun c hmem ↦ hs c (List.mem_cons_of_mem _ hmem)
    rw [separate, List.filter_cons_of_pos (by simpa using hc)]
    split_ifs with hthird
    · rw [List.filter_cons_of_neg (by simp), htail]
    · rw [htail]

/-- **The commas only separate**: without them the digits are what they were. -/
theorem filter_commas {s : List U8} (hs : ∀ c ∈ s, IsDigit c) :
    (commas s).filter (· ≠ COMMA) = s := by
  rw [commas, List.filter_reverse, filter_separate 0 fun c hc ↦ hs c (List.mem_reverse.mp hc),
    List.reverse_reverse]

end Hyunjin
