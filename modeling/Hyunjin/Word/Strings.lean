import Hyunjin.Word.Bytes
import Hyunjin.Word.Memory

/-!
# Strings in memory

A string is a list of characters without a NUL, and a block of memory holds it when the block begins
with its characters and a NUL. The functions of the C library are undefined, `none`, where they
would leave a block. A string can also be laid out from its end, in front of a cursor that moves
down.
-/

namespace Hyunjin.Memory

/-- A string: it has no NUL among its characters. -/
abbrev CString : Type := {s : List U8 // 0#8 ∉ s}

/-! ## The C library -/

/-- The string a block holds: up to its first NUL, which has to exist. -/
def cstr (m : List U8) : Option (List U8) :=
  if 0#8 ∈ m then some (m.takeWhile (· ≠ 0#8)) else none

def strcpy (m s : List U8) : Option (List U8) :=
  if s.length < m.length then some (s ++ 0#8 :: m.drop (s.length + 1)) else none

/-- Exactly `n` characters are written: the string is cut, or filled up with NULs. -/
def strncpy (m s : List U8) (n : ℕ) : Option (List U8) :=
  if n ≤ m.length then some ((s.take n).rightpad n 0#8 ++ m.drop n) else none

def strcat (m s : List U8) : Option (List U8) := do
  let t ← cstr m
  if t.length + s.length < m.length then
    some (t ++ (s ++ 0#8 :: m.drop (t.length + s.length + 1)))
  else none

/-! ## What is held -/

section Holds

variable {α : Type*} {m xs : List α}

theorem Holds.length_le (h : Holds m xs) : xs.length ≤ m.length := List.IsPrefix.length_le h

theorem Holds.getElem? (h : Holds m xs) {i : ℕ} (hi : i < xs.length) : m[i]? = xs[i]? := by
  obtain ⟨rest, rfl⟩ := h
  exact List.getElem?_append_left hi

/-- A store into what is held changes it there. -/
theorem Holds.set (h : Holds m xs) {i : ℕ} (hi : i < xs.length) (x : α) :
    ∃ m', Memory.store m i x = some m' ∧ m'.length = m.length ∧ Holds m' (xs.set i x) := by
  refine ⟨_, store_of_lt (hi.trans_le h.length_le) x, List.length_set, ?_⟩
  obtain ⟨rest, rfl⟩ := h
  rw [List.set_append_left _ _ hi]
  exact List.prefix_append _ _

end Holds

variable {m s : List U8}

theorem cstr_of_holds (h : Holds m (s ++ [0#8])) (hs : 0#8 ∉ s) : cstr m = some s := by
  obtain ⟨rest, rfl⟩ := h
  rw [cstr, if_pos (by simp), List.append_assoc, List.takeWhile_append_of_pos]
  · simp
  · intro c hc
    exact decide_eq_true (ne_of_mem_of_not_mem hc hs)

/-- A string is cut by a NUL. -/
theorem Holds.cut {i : ℕ} (h : Holds m (s ++ [0#8])) (hi : i < s.length) :
    ∃ m', Memory.store m i 0#8 = some m' ∧ m'.length = m.length ∧ Holds m' (s.take i ++ [0#8]) := by
  have hlt : i < (s ++ [0#8]).length := by
    rw [List.length_append]
    exact Nat.lt_add_right _ hi
  obtain ⟨m', hstore, hlen, hheld⟩ := h.set hlt 0#8
  refine ⟨m', hstore, hlen, List.IsPrefix.trans ?_ hheld⟩
  rw [List.set_append_left _ _ hi, List.set_eq_take_append_cons_drop, if_pos hi, List.append_assoc]
  exact (List.prefix_append_right_inj _).mpr ⟨_, rfl⟩

/-- A text is stored behind what is held. -/
theorem Holds.stores {t : List U8} (h : Holds m s) (hle : s.length + t.length ≤ m.length) :
    ∃ m', Memory.stores m s.length t = some m' ∧ m'.length = m.length ∧ Holds m' (s ++ t) := by
  obtain ⟨rest, rfl⟩ := h
  rw [List.length_append] at hle
  refine ⟨_, stores_behind s (by omega), ?_, List.prefix_append _ _⟩
  simp only [List.length_append, List.length_drop]
  omega

theorem strcpy_of_lt (h : s.length < m.length) :
    ∃ m', strcpy m s = some m' ∧ m'.length = m.length ∧ Holds m' (s ++ [0#8]) := by
  refine ⟨_, if_pos h, ?_, m.drop (s.length + 1), by simp⟩
  simp only [List.length_append, List.length_cons, List.length_drop]
  omega

/-- The cut string is held, with a NUL behind it, once a NUL is stored behind the `n` characters. -/
theorem strncpy_store {n : ℕ} (hn : n < m.length) :
    ∃ m' m'', strncpy m s n = some m' ∧ store m' n 0#8 = some m'' ∧ m''.length = m.length
      ∧ Holds m'' (s.take n ++ [0#8]) := by
  have hcut : (s.take n).length ≤ n := List.length_take_le n s
  have hpad : ((s.take n).rightpad n 0#8).length = n := by
    rw [List.length_rightpad]
    omega
  have hheld : Holds ((s.take n).rightpad n 0#8 ++ m.drop n) ((s.take n).rightpad n 0#8) :=
    List.prefix_append _ _
  have hlen : ((s.take n).rightpad n 0#8 ++ m.drop n).length = m.length := by
    rw [List.length_append, hpad, List.length_drop]
    omega
  obtain ⟨m'', hstore, hlen'', hheld''⟩ := hheld.store (by rw [hlen, hpad]; exact hn) 0#8
  rw [hpad] at hstore
  refine ⟨_, m'', if_pos hn.le, hstore, hlen''.trans hlen, List.IsPrefix.trans ?_ hheld''⟩
  rw [List.rightpad, List.append_assoc, ← List.replicate_succ', List.replicate_succ]
  exact (List.prefix_append_right_inj _).mpr ⟨_, rfl⟩

theorem strcat_of_lt {t : List U8} (ht : Holds m (t ++ [0#8])) (hnul : 0#8 ∉ t)
    (hlt : t.length + s.length < m.length) :
    ∃ m', strcat m s = some m' ∧ m'.length = m.length ∧ Holds m' (t ++ s ++ [0#8]) := by
  rw [strcat, cstr_of_holds ht hnul]
  refine ⟨_, if_pos hlt, ?_, m.drop (t.length + s.length + 1), by simp⟩
  simp only [List.length_append, List.length_cons, List.length_drop]
  omega

/-! ## From the end -/

/-- A buffer that is filled from its end, and where it has come to. -/
structure Cursor where
  buf : List U8
  w : ℕ

/-- `w = &buf[sizeof(buf)]` -/
def Cursor.atEnd (buf : List U8) : Cursor := ⟨buf, buf.length⟩

/-- `*--w = c` -/
def Cursor.push (cur : Cursor) (c : U8) : Option Cursor :=
  if cur.w = 0 then none
  else (store cur.buf (cur.w - 1) c).map fun buf ↦ ⟨buf, cur.w - 1⟩

/-- The string at the cursor. -/
def Cursor.str (cur : Cursor) : Option (List U8) := cstr (cur.buf.drop cur.w)

/-- What lies between the cursor and the end. -/
structure Cursor.Ends (cur : Cursor) (s : List U8) : Prop where
  drop_eq : cur.buf.drop cur.w = s
  length_eq : cur.w + s.length = cur.buf.length

theorem Cursor.ends_atEnd (buf : List U8) : (Cursor.atEnd buf).Ends [] :=
  ⟨List.drop_length, rfl⟩

theorem Cursor.Ends.push {cur : Cursor} (h : cur.Ends s) (hlt : s.length < cur.buf.length)
    (c : U8) :
    ∃ cur', cur.push c = some cur' ∧ cur'.buf.length = cur.buf.length ∧ cur'.Ends (c :: s) := by
  obtain ⟨buf, w⟩ := cur
  obtain ⟨rfl, hlen⟩ := h
  dsimp only at hlen hlt ⊢
  obtain ⟨w, rfl⟩ := Nat.exists_eq_succ_of_ne_zero (n := w) (by omega)
  have hw : w < buf.length := by omega
  refine ⟨⟨buf.set w c, w⟩, ?_, List.length_set, ?_, ?_⟩
  · rw [Cursor.push, if_neg (Nat.succ_ne_zero w)]
    exact congrArg (Option.map _) (store_of_lt hw c)
  · dsimp only
    rw [List.drop_eq_getElem_cons (by rw [List.length_set]; exact hw), List.getElem_set_self,
      List.drop_set_of_lt (Nat.lt_succ_self w)]
  · dsimp only
    rw [List.length_cons, List.length_set]
    omega

theorem Cursor.Ends.str {cur : Cursor} (h : cur.Ends (s ++ [0#8])) (hs : 0#8 ∉ s) :
    cur.str = some s :=
  cstr_of_holds ⟨[], by rw [h.drop_eq, List.append_nil]⟩ hs

end Hyunjin.Memory
