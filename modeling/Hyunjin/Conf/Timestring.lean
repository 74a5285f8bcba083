import Hyunjin.Text.Decimal
import Hyunjin.Word.Strings
import Mathlib.Data.List.DropRight

/-!
# Time strings

A time in the configuration is `[hh:]mm[:ss]`: digits between colons, with blanks around them. The
parser accepts a first field of seven digits and others of two, and rejects hours, minutes and
seconds that are too many. An `int` that leaves its range is undefined here. Only the last sum can:
the bound on the hours leaves no more than 14 minutes and 7 seconds for the largest of them.
-/

namespace Hyunjin.Conf

open Memory

/-! ## The parser -/

def COLON : U8 := 58#8

/-- `isspace` of the C locale. -/
def isspace (c : U8) : Bool := (9#8).ule c && c.ule 13#8 || c == 32#8

def isdigit (c : U8) : Bool := (48#8).ule c && c.ule 57#8

/-- An `int` is undefined out of its range. -/
def int32 (n : ℤ) : Option ℤ := if -2 ^ 31 ≤ n ∧ n < 2 ^ 31 then some n else none

/-- What the loop over the fields comes to. -/
inductive TimeRead
  | overflow
  | rejected
  | fields (hms : ℕ → ℤ) (colcount : ℕ) (source : List U8)

def timeLoop : List U8 → (ℕ → ℤ) → (colcount fieldlen : ℕ) → TimeRead
  | [], hms, colcount, _ => .fields hms colcount []
  | c :: cs, hms, colcount, fieldlen =>
    if c = COLON then
      if 2 < colcount + 1 then .rejected else timeLoop cs hms (colcount + 1) 0
    else if isdigit c then
      if 7 < fieldlen + 1 ∨ colcount ≠ 0 ∧ 2 < fieldlen + 1 then .rejected
      else
        match (int32 (hms colcount * 10)).bind fun n ↦ int32 (n + (c.toNat - 48 : ℕ)) with
        | none => .overflow
        | some n => timeLoop cs (Function.update hms colcount n) colcount (fieldlen + 1)
    else .fields hms colcount (c :: cs)

/-- `__parse_timestring` without the compatibility flag. -/
def parseTimestring (source : List U8) : Option ℤ :=
  match timeLoop (source.dropWhile isspace) (fun _ ↦ 0) 0 0 with
  | .overflow => none
  | .rejected => some (-1)
  | .fields hms colcount source =>
    if source.dropWhile isspace ≠ [] then some (-1)
    else if colcount = 0 then int32 (hms 0 * 60)
    else if 0x7fffffff / (60 * 60) < hms 0 ∨ 59 < hms 1 ∨ 59 < hms 2 then some (-1)
    else do
      let n ← int32 (hms 0 * 60)
      let n ← int32 (n + hms 1)
      let n ← int32 (n * 60)
      int32 (n + hms 2)

/-! ## Minutes -/

/-- `"%u:%02u"` of the hours and the minutes. -/
def minutesText (minutes : ℕ) : List U8 :=
  decimal (minutes / 60) ++ COLON :: padded 2 (minutes % 60)

/-- `__readwrite_minutes`, when it writes: the entry after that. An entry that is not there is
empty. -/
def writeMinutes (minutes defaultval : ℤ) (entry : List U8) : List U8 :=
  let minutes := if minutes < 0 then defaultval else minutes
  if minutes ≠ defaultval ∨ entry ≠ [] then minutesText (BitVec.ofInt 32 minutes).toNat else entry

/-- The seconds without the time that has elapsed, if the bias is applied and the clock is read. -/
def withoutElapsed (elapsed : Option U32) (seconds : ℤ) : Option ℤ :=
  match elapsed with
  | none => some seconds
  | some tvSec =>
    if 0 < seconds then
      if seconds ≤ tvSec.toNat then some 1 else int32 (seconds - tvSec.toNat)
    else some seconds

/-- `__readwrite_minutes`, when it reads, with a buffer of 64 bytes. -/
def readMinutes (defaultval : ℤ) (elapsed : Option U32) (entry : List U8) : Option ℤ :=
  if entry ≠ [] then do
    let seconds ← parseTimestring (entry.take 63)
    if 0 ≤ seconds then do
      let seconds ← withoutElapsed elapsed seconds
      let seconds ← int32 (seconds + 59)
      some (seconds.tdiv 60) -- we only want minutes
    else some defaultval
  else some defaultval

/-! ## What a time string denotes -/

/-- A character of the fields. -/
def isField (c : U8) : Bool := c == COLON || isdigit c

/-- The fields, if there is nothing but blanks around them. -/
def timeFields (source : List U8) : Option (List (List U8)) :=
  if ((source.dropWhile isspace).dropWhile isField).all isspace then
    some (((source.dropWhile isspace).takeWhile isField).splitOn COLON)
  else none

/-- One field is minutes, two are hours and minutes, three are hours, minutes and seconds. -/
def secondsOf (fields : List (List U8)) : ℕ :=
  match fields with
  | [mm] => 60 * decimalValue mm
  | [hh, mm] => 60 * (60 * decimalValue hh + decimalValue mm)
  | [hh, mm, ss] => 60 * (60 * decimalValue hh + decimalValue mm) + decimalValue ss
  | _ => 0

/-- **The time string denotes** so many seconds. -/
def Denotes (source : List U8) (n : ℕ) : Prop :=
  ∃ fields, timeFields source = some fields ∧ fields.length ≤ 3 ∧ secondsOf fields = n

/-- The fields are not too long: seven digits for the first one and two for the others. -/
def Sized : ℕ → List (List U8) → Prop
  | col, [] => col ≤ 3
  | col, f :: fs => f.length ≤ (if col = 0 then 7 else 2) ∧ Sized (col + 1) fs

instance decidableSized : ∀ col fields, Decidable (Sized col fields)
  | col, [] => inferInstanceAs (Decidable (col ≤ 3))
  | col, f :: fs =>
    have := decidableSized (col + 1) fs
    inferInstanceAs (Decidable (f.length ≤ (if col = 0 then 7 else 2) ∧ Sized (col + 1) fs))

/-- The value of a field; a field that is not there is worth nothing. -/
def fieldValue (fields : List (List U8)) (i : ℕ) : ℕ := decimalValue (fields.getD i [])

/-- The fields are accepted. -/
def Accepted (fields : List (List U8)) : Prop :=
  Sized 0 fields ∧ (2 ≤ fields.length →
    fieldValue fields 0 ≤ 596523 ∧ fieldValue fields 1 ≤ 59 ∧ fieldValue fields 2 ≤ 59)

instance (fields : List (List U8)) : Decidable (Accepted fields) :=
  inferInstanceAs (Decidable (_ ∧ _))

/-! ## The loop -/

theorem isDigit_iff {c : U8} : isdigit c = true ↔ IsDigit c := by
  rw [isdigit, IsDigit, Bool.and_eq_true, BitVec.ule_eq_decide, BitVec.ule_eq_decide,
    decide_eq_true_iff, decide_eq_true_iff]
  rfl

theorem decimalValue_concat (s : List U8) (c : U8) :
    decimalValue (s ++ [c]) = 10 * decimalValue s + (c.toNat - 48) := by
  rw [decimalValue, List.foldl_append, List.foldl_cons, List.foldl_nil, decimalValue]

theorem decimalValue_lt {s : List U8} (h : ∀ c ∈ s, IsDigit c) :
    decimalValue s < 10 ^ s.length := by
  induction s using List.reverseRecOn with
  | nil => exact Nat.one_pos
  | append_singleton s c ih =>
    have hs := ih fun d hd ↦ h d (List.mem_append_left _ hd)
    have hc := (h c (List.mem_append_right _ List.mem_cons_self)).2
    rw [decimalValue_concat, List.length_append, List.length_singleton, Nat.pow_succ]
    omega

/-- The values of the fields, from one on. -/
def setFields (hms : ℕ → ℤ) : ℕ → List (List U8) → ℕ → ℤ
  | _, [] => hms
  | col, f :: fs => setFields (Function.update hms col (decimalValue f)) (col + 1) fs

theorem Sized.le {col : ℕ} {fields : List (List U8)} (h : Sized col fields) :
    col + fields.length ≤ 3 := by
  induction fields generalizing col with
  | nil => exact h
  | cons f fs ih =>
    have hle := ih h.2
    rw [List.length_cons]
    omega

theorem int32_of_range {n : ℤ} (hle : -2 ^ 31 ≤ n) (hlt : n < 2 ^ 31) : int32 n = some n :=
  if_pos ⟨hle, hlt⟩

/-- One more digit fits an `int`. -/
theorem int32_digit {pre : List U8} {c : U8} (hpre : ∀ d ∈ pre, IsDigit d) (hlen : pre.length ≤ 6)
    (hc : IsDigit c) :
    ((int32 ((decimalValue pre : ℤ) * 10)).bind fun n ↦ int32 (n + (c.toNat - 48 : ℕ)))
      = some ((decimalValue (pre ++ [c]) : ℕ) : ℤ) := by
  have hlt := (decimalValue_lt hpre).trans_le (Nat.pow_le_pow_right (by decide) hlen)
  obtain ⟨hge, hle⟩ := hc
  rw [int32_of_range (by omega) (by omega), Option.bind_some,
    int32_of_range (by omega) (by omega), decimalValue_concat]
  congr 1
  omega

/-- **The loop reads the fields**, or rejects them for their sizes. The digits of the field so far
are `pre`. -/
theorem timeLoop_eq (hms : ℕ → ℤ) (col : ℕ) {core rest pre : List U8}
    (hcore : ∀ c ∈ core, isField c = true) (hrest : ∀ c ∈ rest.head?, isField c = false)
    (hpre : ∀ c ∈ pre, IsDigit c) (hlen : pre.length ≤ if col = 0 then 7 else 2) (hcol : col ≤ 2)
    (hzero : ∀ i, col < i → hms i = 0) :
    timeLoop (core ++ rest) (Function.update hms col (decimalValue pre)) col pre.length
      = if Sized col ((core.splitOn COLON).modifyHead (pre ++ ·)) then
          .fields (setFields hms col ((core.splitOn COLON).modifyHead (pre ++ ·)))
            (col + (core.splitOn COLON).length - 1) rest
        else .rejected := by
  induction core generalizing pre hms col with
  | nil =>
    have hsized : Sized col [pre ++ []] := by
      rw [List.append_nil]
      exact ⟨hlen, Nat.succ_le_succ hcol⟩
    rw [List.splitOn_nil, List.modifyHead_cons, if_pos hsized, List.nil_append, List.append_nil]
    cases rest with
    | nil => rfl
    | cons c cs =>
      have hc := hrest c rfl
      rw [isField, Bool.or_eq_false_iff, beq_eq_false_iff_ne] at hc
      rw [timeLoop, if_neg hc.1, if_neg (by rw [hc.2]; exact Bool.false_ne_true)]
      rfl
  | cons c core ih =>
    have hcore' := fun d hd ↦ hcore d (List.mem_cons_of_mem c hd)
    obtain ⟨f, fs, hsplit⟩ := List.exists_cons_of_ne_nil
      (show core.splitOn COLON ≠ [] from List.splitOnP_ne_nil _ _)
    rw [List.cons_append, timeLoop, List.splitOn_cons_eq_if_modifyHead, hsplit]
    by_cases hc : c = COLON
    · -- the next field begins with nothing
      rw [if_pos hc, if_pos (beq_iff_eq.mpr hc), List.modifyHead_cons, List.append_nil]
      by_cases hmany : 2 < col + 1
      · rw [if_pos hmany, if_neg]
        intro hsized
        have hle := hsized.le
        rw [List.length_cons, List.length_cons] at hle
        omega
      · have hnext : ∀ i, col + 1 < i → Function.update hms col (decimalValue pre : ℤ) i = 0 := by
          intro i hi
          rw [Function.update_of_ne (by omega)]
          exact hzero i (by omega)
        have hupdate : Function.update (Function.update hms col (decimalValue pre : ℤ)) (col + 1)
            (decimalValue [] : ℤ) = Function.update hms col (decimalValue pre : ℤ) := by
          rw [Function.update_eq_self_iff, Function.update_of_ne (by omega)]
          exact (hzero (col + 1) (by omega)).symm
        have hrec := ih _ (col + 1) hcore' (List.forall_mem_nil _) (Nat.zero_le _) (by omega) hnext
        rw [hupdate, List.length_nil, hsplit, List.modifyHead_cons, List.nil_append] at hrec
        rw [if_neg hmany, hrec, List.length_cons, List.length_cons, List.length_cons]
        have hsized : Sized col (pre :: f :: fs) ↔ Sized (col + 1) (f :: fs) := and_iff_right hlen
        simp only [hsized]
        rw [show col + 1 + (fs.length + 1) - 1 = col + (fs.length + 1 + 1) - 1 by omega]
        rfl
    · have hdigit : isdigit c = true := by
        have := hcore c List.mem_cons_self
        rw [isField, Bool.or_eq_true, beq_iff_eq] at this
        exact this.resolve_left hc
      have hpre' : ∀ d ∈ pre ++ [c], IsDigit d := by
        intro d hd
        rcases List.mem_append.mp hd with hd | hd
        · exact hpre d hd
        · rw [List.mem_singleton.mp hd]
          exact isDigit_iff.mp hdigit
      have hne : ¬(c == COLON) = true := fun heq ↦ hc (beq_iff_eq.mp heq)
      rw [if_neg hc, if_pos hdigit, if_neg hne, List.modifyHead_cons, List.modifyHead_cons]
      by_cases hlong : 7 < pre.length + 1 ∨ col ≠ 0 ∧ 2 < pre.length + 1
      · rw [if_pos hlong, if_neg]
        rintro ⟨hle, -⟩
        rw [List.length_append, List.length_cons] at hle
        split_ifs at hle with hzero' <;> omega
      · have hlen' : (pre ++ [c]).length ≤ if col = 0 then 7 else 2 := by
          rw [List.length_append, List.length_singleton]
          split_ifs with hzero' <;> omega
        have hrec := ih hms col hcore' hpre' hlen' hcol hzero
        rw [List.length_append, List.length_singleton, hsplit, List.modifyHead_cons,
          List.append_assoc] at hrec
        rw [if_neg hlong, Function.update_self, int32_digit hpre (by omega) (isDigit_iff.mp hdigit)]
        dsimp only
        rw [Function.update_idem, hrec]
        rfl

/-! ## The value -/

/-- The fields of the digits in front of the rest are digits. -/
theorem isDigit_of_mem_splitOn {core f : List U8} (hcore : ∀ c ∈ core, isField c = true)
    (hf : f ∈ core.splitOn COLON) : ∀ c ∈ f, IsDigit c := by
  induction core generalizing f with
  | nil =>
    rw [List.splitOn_nil, List.mem_singleton] at hf
    rw [hf]
    exact List.forall_mem_nil _
  | cons c core ih =>
    have hrest : ∀ f ∈ core.splitOn COLON, ∀ d ∈ f, IsDigit d :=
      fun f hf ↦ ih (fun d hd ↦ hcore d (List.mem_cons_of_mem c hd)) hf
    rw [List.splitOn_cons_eq_if_modifyHead] at hf
    split_ifs at hf with hc
    · rcases List.mem_cons.mp hf with rfl | hf
      · exact List.forall_mem_nil _
      · exact hrest f hf
    · have hdigit : IsDigit c := by
        have := hcore c List.mem_cons_self
        rw [isField, Bool.or_eq_true] at this
        exact isDigit_iff.mp (this.resolve_left hc)
      obtain ⟨g, gs, hsplit⟩ := List.exists_cons_of_ne_nil
        (show core.splitOn COLON ≠ [] from List.splitOn_ne_nil _ _)
      rw [hsplit] at hf hrest
      rcases List.mem_cons.mp hf with rfl | hf
      · exact List.forall_mem_cons.mpr ⟨hdigit, hrest g List.mem_cons_self⟩
      · exact hrest f (List.mem_cons_of_mem g hf)

theorem int32_of_ge {n : ℤ} (h : 2 ^ 31 ≤ n) : int32 n = none :=
  if_neg fun hand ↦ absurd hand.2 (not_lt.mpr h)

/-- The sum is formed step by step. -/
theorem int32_hms {h m s : ℕ} (hh : h ≤ 596523) (hm : m ≤ 59) (hs : s ≤ 59) :
    ((int32 ((h : ℤ) * 60)).bind fun n ↦ (int32 (n + m)).bind fun n ↦
      (int32 (n * 60)).bind fun n ↦ int32 (n + s))
      = int32 ((60 * (60 * h + m) + s : ℕ) : ℤ) := by
  rw [int32_of_range (by omega) (by omega), Option.bind_some,
    int32_of_range (by omega) (by omega), Option.bind_some]
  by_cases hlt : ((h : ℤ) * 60 + m) * 60 < 2 ^ 31
  · rw [int32_of_range (by omega) hlt, Option.bind_some]
    congr 1
    push_cast
    ring
  · rw [int32_of_ge (not_lt.mp hlt), int32_of_ge (by push_cast; omega)]
    rfl

theorem setFields_eq (fields : List (List U8)) (hms : ℕ → ℤ) (col i : ℕ) :
    setFields hms col fields i
      = if col ≤ i ∧ i < col + fields.length then (fieldValue fields (i - col) : ℤ) else hms i := by
  induction fields generalizing hms col with
  | nil =>
    rw [setFields, if_neg]
    rw [List.length_nil]
    omega
  | cons f fs ih =>
    rw [setFields, ih, List.length_cons]
    by_cases hcol : i = col
    · subst hcol
      rw [if_neg (by omega), if_pos (by omega), Function.update_self, Nat.sub_self]
      rfl
    · rw [Function.update_of_ne hcol]
      by_cases hlater : col + 1 ≤ i ∧ i < col + 1 + fs.length
      · obtain ⟨k, rfl⟩ := Nat.exists_eq_add_of_le hlater.1
        rw [if_pos hlater, if_pos (by omega), Nat.add_sub_cancel_left, Nat.add_assoc,
          Nat.add_sub_cancel_left, Nat.add_comm 1]
        rfl
      · rw [if_neg hlater, if_neg (by omega)]

theorem setFields_zero (fields : List (List U8)) (i : ℕ) :
    setFields (fun _ ↦ 0) 0 fields i = fieldValue fields i := by
  rw [setFields_eq]
  split_ifs with hlt
  · rfl
  · rw [fieldValue, List.getD_eq_default _ _ (by omega)]
    rfl

theorem secondsOf_one {fields : List (List U8)} (h : fields.length = 1) :
    secondsOf fields = 60 * fieldValue fields 0 := by
  obtain ⟨mm, rfl⟩ := List.length_eq_one_iff.mp h
  rfl

theorem secondsOf_more {fields : List (List U8)} (hge : 2 ≤ fields.length)
    (hle : fields.length ≤ 3) :
    secondsOf fields
      = 60 * (60 * fieldValue fields 0 + fieldValue fields 1) + fieldValue fields 2 := by
  match fields, hge, hle with
  | [hh, mm], _, _ => rfl
  | [hh, mm, ss], _, _ => rfl
  | _ :: _ :: _ :: _ :: fs, _, hle => exact absurd hle (by simp)

/-- Fields of these sizes are values, and only the last sum may be too much. -/
theorem parse_fields {fields : List (List U8)} (hsized : Sized 0 fields) (hne : fields ≠ [])
    {hms : ℕ → ℤ} (hhms : hms = setFields (fun _ ↦ 0) 0 fields) :
    (if 0 + fields.length - 1 = 0 then int32 (hms 0 * 60)
      else if 0x7fffffff / (60 * 60) < hms 0 ∨ 59 < hms 1 ∨ 59 < hms 2 then some (-1)
      else (int32 (hms 0 * 60)).bind fun n ↦ (int32 (n + hms 1)).bind fun n ↦
        (int32 (n * 60)).bind fun n ↦ int32 (n + hms 2))
      = if Accepted fields then int32 (secondsOf fields) else some (-1) := by
  have hle := hsized.le
  have hpos := List.length_pos_iff.mpr hne
  have hbound : (0x7fffffff / (60 * 60) : ℤ) = 596523 := rfl
  rw [hhms, setFields_zero, setFields_zero, setFields_zero, hbound]
  by_cases hone : fields.length = 1
  · rw [if_pos (by omega), if_pos ⟨hsized, fun h ↦ by omega⟩, secondsOf_one hone]
    congr 1
    push_cast
    ring
  · have hacc : Accepted fields ↔ fieldValue fields 0 ≤ 596523 ∧ fieldValue fields 1 ≤ 59
        ∧ fieldValue fields 2 ≤ 59 :=
      (and_iff_right hsized).trans (forall_prop_of_true (by omega))
    rw [if_neg (by omega), secondsOf_more (by omega) (by omega)]
    by_cases hfits : Accepted fields
    · obtain ⟨hh, hm, hs⟩ := hacc.mp hfits
      rw [if_pos hfits, if_neg (by omega), int32_hms hh hm hs]
    · rw [if_neg hfits, if_pos]
      rw [hacc] at hfits
      omega

/-- **The parser** gives the seconds of the fields if it accepts them, and `-1` if not. -/
theorem parseTimestring_eq (source : List U8) :
    parseTimestring source = match timeFields source with
      | none => some (-1)
      | some fields => if Accepted fields then int32 (secondsOf fields) else some (-1) := by
  have hcore : ∀ c ∈ (source.dropWhile isspace).takeWhile isField, isField c = true :=
    fun c hc ↦ List.mem_takeWhile_imp hc
  have hrest : ∀ c ∈ ((source.dropWhile isspace).dropWhile isField).head?, isField c = false := by
    intro c hc
    have hhead := List.head?_dropWhile_not isField (source.dropWhile isspace)
    rw [Option.mem_def.mp hc] at hhead
    exact hhead
  have hloop := timeLoop_eq (fun _ ↦ 0) 0 hcore hrest (List.forall_mem_nil _)
    (Nat.zero_le _) (Nat.zero_le _) fun _ _ ↦ rfl
  rw [List.takeWhile_append_dropWhile, List.length_nil] at hloop
  have hupdate : Function.update (fun _ ↦ 0) 0 (decimalValue [] : ℤ) = fun _ : ℕ ↦ (0 : ℤ) :=
    Function.update_eq_self 0 _
  rw [hupdate] at hloop
  rw [parseTimestring, hloop, timeFields]
  generalize (source.dropWhile isspace).takeWhile isField = core at hcore ⊢
  generalize (source.dropWhile isspace).dropWhile isField = rest
  have hmodify : (core.splitOn COLON).modifyHead ([] ++ ·) = core.splitOn COLON := by
    cases core.splitOn COLON <;> rfl
  rw [hmodify]
  have hne : core.splitOn COLON ≠ [] := List.splitOn_ne_nil _ _
  generalize core.splitOn COLON = fields at hne ⊢
  have hrest : rest.dropWhile isspace ≠ [] ↔ rest.all isspace = false := by
    rw [Ne, List.dropWhile_eq_nil_iff, ← Bool.not_eq_true, List.all_eq_true]
  by_cases hsized : Sized 0 fields
  · rw [if_pos hsized]
    dsimp only
    cases hall : rest.all isspace with
    | false =>
      rw [if_pos (hrest.mpr hall)]
      rfl
    | true =>
      rw [if_neg (by rw [hrest, hall]; exact Bool.true_eq_false.mp)]
      exact parse_fields hsized hne rfl
  · rw [if_neg hsized]
    cases rest.all isspace with
    | false => rfl
    | true => exact (if_neg fun hacc ↦ hsized hacc.1).symm

/-- The parser is exact: an `int` never overflows, and the result is `-1` or what is denoted. -/
def TimestringExact (source : List U8) : Prop :=
  ∃ v, parseTimestring source = some v ∧ (v = -1 ∨ ∃ n : ℕ, Denotes source n ∧ v = n)

/-- Behind the last hour there are no more than 14 minutes and 7 seconds. -/
def TimestringFits (source : List U8) : Prop :=
  ∀ fields, timeFields source = some fields → Accepted fields → 2 ≤ fields.length →
    fieldValue fields 0 = 596523 → 60 * fieldValue fields 1 + fieldValue fields 2 ≤ 847

theorem isDigit_of_timeFields {source : List U8} {fields : List (List U8)}
    (h : timeFields source = some fields) : ∀ f ∈ fields, ∀ c ∈ f, IsDigit c := by
  rw [timeFields] at h
  split_ifs at h
  rw [← Option.some.inj h]
  exact fun f hf ↦ isDigit_of_mem_splitOn (fun c hc ↦ List.mem_takeWhile_imp hc) hf

theorem secondsOf_lt_iff {source : List U8} {fields : List (List U8)}
    (h : timeFields source = some fields) (hacc : Accepted fields) :
    secondsOf fields < 2 ^ 31 ↔ (2 ≤ fields.length → fieldValue fields 0 = 596523 →
      60 * fieldValue fields 1 + fieldValue fields 2 ≤ 847) := by
  have hle := hacc.1.le
  by_cases hmore : 2 ≤ fields.length
  · obtain ⟨hh, hm, hs⟩ := hacc.2 hmore
    rw [secondsOf_more hmore (by omega)]
    omega
  · refine iff_of_true ?_ fun h ↦ absurd h hmore
    match fields, hacc.1 with
    | [], _ => exact Nat.two_pow_pos 31
    | f :: fs, hsized =>
      have hone : (f :: fs).length = 1 := by
        rw [List.length_cons] at hmore ⊢
        omega
      have hlt := (decimalValue_lt (isDigit_of_timeFields h f List.mem_cons_self)).trans_le
        (Nat.pow_le_pow_right (by decide) (show f.length ≤ 7 from hsized.1))
      rw [secondsOf_one hone]
      exact (Nat.mul_lt_mul_of_pos_left hlt (by decide)).trans (by decide)

/-- **The parser is exact** unless the hours are the most that are permitted and the rest is more
than fits. -/
theorem timestringExact_iff (source : List U8) :
    TimestringExact source ↔ TimestringFits source := by
  rw [TimestringExact, TimestringFits, parseTimestring_eq]
  cases hfields : timeFields source with
  | none => exact ⟨fun _ fields h ↦ (nomatch h), fun _ ↦ ⟨-1, rfl, .inl rfl⟩⟩
  | some fields =>
    dsimp only
    by_cases hacc : Accepted fields
    · have hiff := secondsOf_lt_iff hfields hacc
      have hle := hacc.1.le
      rw [if_pos hacc]
      refine ⟨fun ⟨v, hv, _⟩ fields' h _ ↦ ?_, fun hfits ↦ ?_⟩
      · obtain rfl := Option.some.inj h
        rw [← hiff]
        by_contra hlt
        rw [int32_of_ge (by omega)] at hv
        exact nomatch hv
      · have hlt := hiff.mpr (hfits fields rfl hacc)
        refine ⟨secondsOf fields, int32_of_range (by omega) (by omega), .inr ⟨_, ?_, rfl⟩⟩
        exact ⟨fields, hfields, by omega, rfl⟩
    · rw [if_neg hacc]
      refine ⟨fun _ fields' h hacc' ↦ ?_, fun _ ↦ ⟨-1, rfl, .inl rfl⟩⟩
      obtain rfl := Option.some.inj h
      exact absurd hacc' hacc

/-! ## Minutes that are written -/

theorem padded_two {n : ℕ} (h : n < 100) :
    padded 2 n = [digitChar (n / 10), digitChar (n % 10)] := by
  rw [padded_succ Nat.one_pos, padded_one (by omega)]
  rfl

theorem decimalValue_padded_two {n : ℕ} (h : n < 100) : decimalValue (padded 2 n) = n := by
  rw [padded_two h, decimalValue, List.foldl_cons, List.foldl_cons, List.foldl_nil,
    toNat_digitChar (by omega), toNat_digitChar (by omega)]
  omega

theorem isDigit_of_mem_padded_two {n : ℕ} (h : n < 100) : ∀ c ∈ padded 2 n, IsDigit c := by
  rw [padded_two h]
  exact List.forall_mem_cons.mpr ⟨isDigit_digitChar (by omega),
    List.forall_mem_singleton.mpr (isDigit_digitChar (by omega))⟩

theorem ne_colon_of_isDigit {c : U8} (h : IsDigit c) : c ≠ COLON := by
  rintro rfl
  exact absurd h.2 (by decide)

theorem isspace_of_isDigit {c : U8} (h : IsDigit c) : isspace c = false := by
  obtain ⟨hge, hle⟩ := h
  rw [isspace, Bool.or_eq_false_iff, Bool.and_eq_false_iff, beq_eq_false_iff_ne,
    BitVec.ule_eq_decide, BitVec.ule_eq_decide, decide_eq_false_iff_not, decide_eq_false_iff_not]
  refine ⟨.inr fun h ↦ ?_, ?_⟩
  · have : c.toNat ≤ 13 := h
    omega
  · rintro rfl
    exact absurd hge (by decide)

/-- Two numbers with a colon between them are two fields. -/
theorem timeFields_pair {f g : List U8} (hf : ∀ c ∈ f, IsDigit c) (hg : ∀ c ∈ g, IsDigit c)
    (hne : f ≠ []) : timeFields (f ++ COLON :: g) = some [f, g] := by
  obtain ⟨d, ds, rfl⟩ := List.exists_cons_of_ne_nil hne
  have hspace : (d :: ds ++ COLON :: g).dropWhile isspace = d :: ds ++ COLON :: g :=
    List.dropWhile_cons_of_neg (by
      rw [isspace_of_isDigit (hf d List.mem_cons_self)]
      exact Bool.false_ne_true)
  have hfield : ∀ c ∈ d :: ds ++ COLON :: g, isField c = true := by
    intro c hc
    rw [isField, Bool.or_eq_true]
    rcases List.mem_append.mp hc with hc | hc
    · exact .inr (isDigit_iff.mpr (hf c hc))
    · rcases List.mem_cons.mp hc with rfl | hc
      · exact .inl rfl
      · exact .inr (isDigit_iff.mpr (hg c hc))
  rw [timeFields, hspace, List.dropWhile_eq_nil_iff.mpr hfield,
    List.takeWhile_eq_self_iff.mpr hfield, if_pos List.all_nil,
    List.splitOn_append_cons_self_of_not_mem fun h ↦ ne_colon_of_isDigit (hf _ h) rfl,
    List.splitOn_eq_singleton fun h ↦ ne_colon_of_isDigit (hg _ h) rfl]

/-- **Minutes are parsed** as they were printed. -/
theorem parseTimestring_minutesText {u : ℕ} (h : 60 * u < 2 ^ 31) :
    parseTimestring (minutesText u) = some ((60 * u : ℕ) : ℤ) := by
  have hmin : u % 60 < 100 := (Nat.mod_lt u (by decide)).trans (by decide)
  have hfields := timeFields_pair (fun c hc ↦ isDigit_of_mem_decimal (n := u / 60) hc)
    (isDigit_of_mem_padded_two hmin) (List.ne_nil_of_length_pos (length_decimal_pos _))
  have hacc : Accepted [decimal (u / 60), padded 2 (u % 60)] := by
    refine ⟨⟨length_decimal_le (by decide) (show u / 60 < 10 ^ 7 by omega), ?_, ?_⟩, fun _ ↦ ?_⟩
    · rw [padded_two hmin]
      exact Nat.le_refl 2
    · decide
    · have h0 : fieldValue [decimal (u / 60), padded 2 (u % 60)] 0 = u / 60 :=
        decimalValue_decimal _
      have h1 : fieldValue [decimal (u / 60), padded 2 (u % 60)] 1 = u % 60 :=
        decimalValue_padded_two hmin
      have h2 : fieldValue [decimal (u / 60), padded 2 (u % 60)] 2 = 0 := rfl
      omega
  have hsecs : secondsOf [decimal (u / 60), padded 2 (u % 60)] = 60 * u := by
    rw [secondsOf, decimalValue_decimal, decimalValue_padded_two hmin]
    omega
  rw [parseTimestring_eq, minutesText, hfields]
  dsimp only
  rw [if_pos hacc, hsecs, int32_of_range (by omega) (by omega)]

/-- **What is written is read**, as long as the seconds can be rounded up. -/
theorem readMinutes_writeMinutes_iff {minutes : ℤ} (defaultval : ℤ) (entry : List U8)
    (hle : 0 ≤ minutes) (hlt : 60 * minutes < 2 ^ 31) :
    readMinutes defaultval none (writeMinutes minutes defaultval entry) = some minutes
      ↔ 60 * minutes + 59 < 2 ^ 31 ∨ minutes = defaultval ∧ entry = [] := by
  obtain ⟨u, rfl⟩ := Int.eq_ofNat_of_zero_le hle
  rw [writeMinutes, if_neg (not_lt.mpr hle)]
  by_cases hwrite : (u : ℤ) ≠ defaultval ∨ entry ≠ []
  · have htext : minutesText u ≠ [] := by
      rw [minutesText]
      exact List.append_ne_nil_of_right_ne_nil _ (List.cons_ne_nil _ _)
    have hlen : (minutesText u).length ≤ 63 := by
      have hhours := length_decimal_le (k := 7) (n := u / 60) (by decide) (by omega)
      rw [minutesText, List.length_append, List.length_cons, padded_two
        ((Nat.mod_lt u (by decide)).trans (by decide))]
      simp only [List.length_cons, List.length_nil]
      omega
    have hint : (BitVec.ofInt 32 (u : ℤ)).toNat = u := by
      rw [BitVec.toNat_ofInt]
      omega
    rw [if_pos hwrite, hint, readMinutes, if_pos htext, List.take_of_length_le hlen,
      parseTimestring_minutesText (by omega), Option.bind_eq_bind, Option.bind_some,
      if_pos (Int.natCast_nonneg _), withoutElapsed, Option.bind_some]
    by_cases hround : (60 * u : ℕ) + (59 : ℤ) < 2 ^ 31
    · rw [int32_of_range (by omega) hround, Option.bind_some]
      refine iff_of_true (congrArg some ?_) (.inl (by push_cast at hround; omega))
      rw [Int.tdiv_eq_ediv_of_nonneg (by omega)]
      omega
    · rw [int32_of_ge (not_lt.mp hround)]
      refine iff_of_false (fun h ↦ nomatch h) ?_
      rintro (h | ⟨h, h'⟩)
      · push_cast at hround
        omega
      · exact hwrite.elim (· h) (· h')
  · obtain ⟨hdefault, hentry⟩ := not_or.mp hwrite
    rw [not_not] at hdefault hentry
    rw [if_neg hwrite, hentry, hdefault]
    exact iff_of_true rfl (.inr ⟨rfl, rfl⟩)

/-- **Times are exact** unless the hours are the most that are permitted and the rest is more than
fits, and minutes are read as they were written unless their seconds cannot be rounded up. -/
theorem timestrings_exact (source : CString) (minutes defaultval : ℤ) (entry : List U8)
    (hle : 0 ≤ minutes) (hlt : 60 * minutes < 2 ^ 31) :
    (TimestringExact source.1 ↔ TimestringFits source.1)
      ∧ (readMinutes defaultval none (writeMinutes minutes defaultval entry) = some minutes
        ↔ 60 * minutes + 59 < 2 ^ 31 ∨ minutes = defaultval ∧ entry = []) :=
  ⟨timestringExact_iff source.1, readMinutes_writeMinutes_iff defaultval entry hle hlt⟩

/-- `"596523:59:59"` -/
def LASTHOUR : CString :=
  ⟨[53#8, 57#8, 54#8, 53#8, 50#8, 51#8, 58#8, 53#8, 57#8, 58#8, 53#8, 57#8], by decide⟩

theorem timestrings_exact_hour : readMinutes 0 none (writeMinutes 90 0 []) = some 90 :=
  (timestrings_exact LASTHOUR 90 0 [] (by decide) (by decide)).2.mpr (.inl (by decide))

/-- The seconds of the last hour overflow. -/
theorem not_timestringExact_lasthour : ¬∀ source : CString, TimestringExact source.1 := by
  intro h
  obtain ⟨v, hv, -⟩ := h LASTHOUR
  have hnone : parseTimestring LASTHOUR.1 = none := by decide +kernel
  rw [hnone] at hv
  exact nomatch hv

end Hyunjin.Conf
