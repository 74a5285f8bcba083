import Hyunjin.Conf.Projects

/-!
# Lines from the network

What comes from the network is looked at line by line once it is known, or suspected, to be HTTP or
UUE. A line may have come only in part, and what has a control character in it is not a line.
-/

namespace Hyunjin.Net

def CR : U8 := 13#8

def LF : U8 := 10#8

def SPACE : U8 := 32#8

/-- What `__peek_netline` finds at the head of a buffer: no end of a line yet, binary data, or a
line, by its length and the characters to skip to the next. -/
inductive Netline
  | unended
  | binary
  | line (linelen skip : ℕ)
  deriving DecidableEq

/-- A carriage return after `linelen` characters. -/
def peekReturn (linelen : ℕ) : List U8 → Netline
  | [] => .unended
  | c :: _ => if c = LF then .line linelen (linelen + 2) else .line linelen (linelen + 1)

/-- `linelen` characters have been looked at. A plain `char` is signed, so the characters with the
eighth bit set count as control characters. -/
def peekFrom (linelen : ℕ) : List U8 → Netline
  | [] => .unended
  | c :: cs =>
    if c = CR then peekReturn linelen cs
    else if c = LF then .line linelen (linelen + 1)
    else if c.toInt < 0x20 then .binary
    else peekFrom (linelen + 1) cs

def peekNetline (buf : List U8) : Netline := peekFrom 0 buf

def tolower (c : U8) : U8 := if Conf.isupper c then c + 32#8 else c

/-- The copy of a line that `__peek_netline` makes, cut to the size it is given. -/
def lineBuffer (buf : List U8) (linelen size : ℕ) : List U8 :=
  (buf.take (min linelen (size - 1))).map tolower

inductive ReadMode
  | raw
  | http
  | uue
  deriving DecidableEq

/-- `HTTP/1` -/
def HTTP1 : List U8 := [72#8, 84#8, 84#8, 80#8, 47#8, 49#8]

/-- `http/1` -/
def HTTP1_LOWER : List U8 := [104#8, 116#8, 116#8, 112#8, 47#8, 49#8]

/-- `begin ` -/
def BEGIN : List U8 := [98#8, 101#8, 103#8, 105#8, 110#8, 32#8]

/-- What the head of a stream says; nothing if there is not enough of it. -/
def autoSenseHttpUue (netdata : List U8) : Option ReadMode :=
  if 6 ≤ netdata.length then
    let scratch := netdata.take 6
    if scratch = HTTP1 then some .http
    else if scratch = BEGIN then some .uue
    else if scratch.map tolower = HTTP1_LOWER then some .http
    else if scratch.map tolower = BEGIN then some .uue
    else some .raw
  else none

theorem autoSenseHttpUue_eq_none {netdata : List U8} :
    autoSenseHttpUue netdata = none ↔ netdata.length < 6 := by
  rw [autoSenseHttpUue]
  by_cases h : 6 ≤ netdata.length
  · rw [if_pos h]
    refine iff_of_false ?_ (not_lt.mpr h)
    dsimp only
    split_ifs <;> decide
  · rw [if_neg h]
    exact iff_of_true rfl (not_le.mp h)

/-! ## Lines as they are -/

/-- A character that a line can have. -/
def Printable (c : U8) : Prop := 0x20 ≤ c.toInt

instance (c : U8) : Decidable (Printable c) := inferInstanceAs (Decidable (_ ≤ _))

theorem Printable.ne_end {c : U8} (h : Printable c) : c ≠ CR ∧ c ≠ LF := by
  constructor <;> rintro rfl <;> exact absurd h (by decide)

theorem peekFrom_append {l : List U8} (hl : ∀ c ∈ l, Printable c) (n : ℕ) (t : List U8) :
    peekFrom n (l ++ t) = peekFrom (n + l.length) t := by
  induction l generalizing n with
  | nil => rfl
  | cons c l ih =>
    have hc := hl c List.mem_cons_self
    rw [List.cons_append, peekFrom, if_neg hc.ne_end.1, if_neg hc.ne_end.2, if_neg (not_lt.mpr hc),
      ih (fun d hd ↦ hl d (List.mem_cons_of_mem _ hd)), List.length_cons, Nat.add_assoc,
      Nat.add_comm 1]

/-- A line that has come. -/
theorem peekNetline_line {l : List U8} (hl : ∀ c ∈ l, Printable c) (t : List U8) :
    peekNetline (l ++ CR :: LF :: t) = .line l.length (l.length + 2) := by
  rw [peekNetline, peekFrom_append hl, Nat.zero_add, peekFrom, if_pos rfl, peekReturn, if_pos rfl]

/-- A line that has come in part. -/
theorem peekNetline_unended {l : List U8} (hl : ∀ c ∈ l, Printable c) {b : List U8}
    (hb : b <+: l ++ [CR]) : peekNetline b = .unended := by
  rw [peekNetline]
  rcases List.prefix_concat_iff.mp hb with rfl | hb
  · rw [peekFrom_append hl, peekFrom, if_pos rfl, peekReturn]
  · have h := peekFrom_append (fun c hc ↦ hl c (hb.subset hc)) 0 []
    rw [List.append_nil] at h
    rw [h, peekFrom]

/-- What is skipped is the line and its end, which are there. -/
theorem peekFrom_spec {buf : List U8} {n linelen skip : ℕ}
    (h : peekFrom n buf = .line linelen skip) :
    n ≤ linelen ∧ linelen < skip ∧ skip ≤ n + buf.length := by
  induction buf generalizing n with
  | nil => exact nomatch h
  | cons c cs ih =>
    rw [peekFrom] at h
    rw [List.length_cons]
    split_ifs at h with hcr hlf hbin
    · cases cs with
      | nil => exact nomatch h
      | cons d cs =>
        rw [peekReturn] at h
        rw [List.length_cons]
        split_ifs at h
        all_goals
          cases h
          omega
    · cases h
      omega
    · have hrest := ih h
      omega

theorem peekNetline_spec {buf : List U8} {linelen skip : ℕ}
    (h : peekNetline buf = .line linelen skip) : linelen < skip ∧ skip ≤ buf.length := by
  have hspec := peekFrom_spec h
  omega

end Hyunjin.Net
