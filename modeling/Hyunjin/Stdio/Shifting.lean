import Hyunjin.Run.Loops
import Hyunjin.Stdio.Disk

/-!
# Moving the rest of a file down

A file is moved down in blocks, within itself: a block is read where it is, and written where it
goes. The cursor that writes stays behind the one that reads, so what is read next is still what it
was, and in the end the file starts with what was to be moved.
-/

namespace Hyunjin.Stdio

/-- A file with the place to read from and the place to write to. -/
structure Cursors where
  file : List U8
  source : ℕ
  target : ℕ

namespace Cursors

/-- The block that is read next. -/
def block (size : ℕ) (c : Cursors) : List U8 := (c.file.drop c.source).take size

def atEnd (size : ℕ) (c : Cursors) : Bool := c.block size = []

/-- A block is moved. -/
def move (size : ℕ) (c : Cursors) : Option Cursors := some
  { file := splice c.file c.target (c.block size)
    source := c.source + (c.block size).length
    target := c.target + (c.block size).length }

/-- A part of `bs` from `start` on has been moved, and what comes after it is still in its place. -/
structure Moving (bs : List U8) (start : ℕ) (c : Cursors) : Prop where
  source_eq : c.source = start + c.target
  source_le : c.source ≤ bs.length
  moved : c.file.take c.target = (bs.drop start).take c.target
  rest : c.file.drop c.source = bs.drop c.source

theorem moving_start {bs : List U8} {start : ℕ} (h : start ≤ bs.length) :
    Moving bs start ⟨bs, start, 0⟩ := ⟨rfl, h, rfl, rfl⟩

theorem Moving.block_eq {bs : List U8} {start : ℕ} {c : Cursors} (h : Moving bs start c)
    (size : ℕ) : c.block size = (bs.drop c.source).take size := by
  rw [block, h.rest]

theorem Moving.source_eq_of_atEnd {bs : List U8} {start : ℕ} {c : Cursors} (h : Moving bs start c)
    {size : ℕ} (hsize : 0 < size) (hend : c.atEnd size = true) : c.source = bs.length := by
  rw [atEnd, h.block_eq, decide_eq_true_eq, List.take_eq_nil_iff, List.drop_eq_nil_iff] at hend
  have hle := h.source_le
  omega

/-- A write within a file. -/
theorem splice_of_le {bs data : List U8} {p : ℕ} (h : p + data.length ≤ bs.length) :
    splice bs p data = bs.take p ++ data ++ bs.drop (p + data.length) := by
  rw [splice, Nat.sub_eq_zero_of_le (by omega), List.replicate_zero, List.append_nil]

/-- **A block is read as it was**, and moved. -/
theorem Moving.move {bs : List U8} {start size : ℕ} {c : Cursors} (h : Moving bs start c)
    (hgoing : c.atEnd size = false) :
    ∃ t, c.move size = some t ∧ Moving bs start t ∧
      bs.length - t.source < bs.length - c.source := by
  obtain ⟨b, hb⟩ : ∃ b, b = c.block size := ⟨_, rfl⟩
  have hne : b ≠ [] := by
    rw [hb]
    exact of_decide_eq_false hgoing
  have hread : b = (bs.drop c.source).take b.length := by
    rw [hb, h.block_eq, List.length_take, List.take_eq_take_iff]
    omega
  have hpos := List.length_pos_iff.mpr hne
  have hlen : c.source + b.length ≤ bs.length := by
    have hle := congrArg List.length hread
    rw [List.length_take, List.length_drop] at hle
    omega
  have hfile : c.file.length = bs.length := by
    have hrest := congrArg List.length h.rest
    rw [List.length_drop, List.length_drop] at hrest
    omega
  have hbehind : c.target ≤ c.source := h.source_eq ▸ Nat.le_add_left _ _
  have hsplice : splice c.file c.target b =
      c.file.take c.target ++ b ++ c.file.drop (c.target + b.length) :=
    splice_of_le (by omega)
  have hhead : (c.file.take c.target ++ b).length = c.target + b.length := by
    rw [List.length_append, List.length_take]
    omega
  refine ⟨_, rfl, ⟨?_, ?_, ?_, ?_⟩, ?_⟩
  · rw [← hb, h.source_eq, Nat.add_assoc]
  · rwa [← hb]
  · rw [← hb, hsplice, List.take_left' hhead, h.moved, List.take_add, List.drop_drop,
      ← h.source_eq, ← hread]
  · have hskip : c.target + b.length + (c.source + b.length - (c.target + b.length)) =
        c.source + b.length := by
      omega
    have hover : (c.file.take c.target ++ b).length ≤ c.source + b.length := by
      omega
    rw [← hb, hsplice]
    dsimp only
    rw [List.drop_append, List.drop_of_length_le hover, List.nil_append, hhead, List.drop_drop,
      hskip, ← List.drop_drop, h.rest, List.drop_drop]
  · rw [← hb]
    dsimp only
    omega

/-- **The rest of a file is moved to its start**, and the place to write to is its end. -/
theorem exists_moved {bs : List U8} {start size : ℕ} (hsize : 0 < size)
    (hstart : start ≤ bs.length) :
    ∃ c, Run.whileLoop (atEnd size) (move size) (bs.length + 1) ⟨bs, start, 0⟩ = some c ∧
      c.file.take c.target = bs.drop start := by
  obtain ⟨c, hloop, hmoving, hend⟩ := Run.exists_whileLoop_eq (Moving bs start)
    (fun c ↦ bs.length - c.source) (fun c hc hgoing ↦ hc.move hgoing) (moving_start hstart)
    (Nat.lt_succ_of_le (Nat.sub_le _ _))
  refine ⟨c, hloop, ?_⟩
  rw [hmoving.moved, List.take_of_length_le]
  have hsource := hmoving.source_eq_of_atEnd hsize hend
  have hsum := hmoving.source_eq
  rw [List.length_drop]
  omega

end Cursors

end Hyunjin.Stdio
