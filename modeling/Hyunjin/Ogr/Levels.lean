import Hyunjin.Ogr.State
import Hyunjin.Ruler.Golomb
import Mathlib.Tactic.Ring

/-!
# What the levels say

With the marks `m` below level `d` and the mark of `d` moved to `p`, the bitmaps of the level are
determined: `dist` holds the distances among the marks below, `list` those from `p` to them, and bit
`k` of `comp` says that `p + k + 1` is blocked. `OgrLevel.Shows` and `OgrLevel.Lists` state this,
and the two operations on a level, a move by any number of places and the push to the next level,
keep it. The list of the last level is not kept, since no level is pushed from there.

A limit depends on the marks below its level only; `OgrState.rulerLimit` is that function of them.
-/

namespace Hyunjin

open Ruler

/-! ## Distances and limits of a ruler -/

instance (m : ℕ → ℤ) (n : ℕ) (d : ℤ) : Decidable (IsDistance m n d) :=
  decidable_of_iff (∃ b < n, ∃ a < b, m b - m a = d)
    ⟨fun ⟨b, hb, a, hab, hd⟩ ↦ ⟨a, b, hab, hb, hd⟩, fun ⟨a, b, hab, hb, hd⟩ ↦ ⟨b, hb, a, hab, hd⟩⟩

/-- The leading distance bits of the first `d` marks. -/
def distWord (m : ℕ → ℤ) (d : ℕ) : U32 :=
  (BitVec.ofBoolListBE ((List.range 32).map fun k : ℕ ↦ decide (IsDistance m d (k + 1)))).cast
    (by simp)

theorem getMsbD_distWord (m : ℕ → ℤ) (d : ℕ) {k : ℕ} (hk : k < 32) :
    (distWord m d).getMsbD k = decide (IsDistance m d (k + 1)) := by
  rw [distWord, BitVec.getMsbD_cast, BitVec.getMsbD_ofBoolListBE]
  simp [hk]

theorem distWord_congr {m m' : ℕ → ℤ} {d : ℕ} (heq : ∀ i < d, m i = m' i) :
    distWord m d = distWord m' d := by
  refine BitVec.eq_of_getMsbD_eq fun k hk ↦ ?_
  rw [getMsbD_distWord _ _ hk, getMsbD_distWord _ _ hk, decide_eq_decide]
  exact ⟨fun h ↦ h.congr heq, fun h ↦ h.congr fun i hi ↦ (heq i hi).symm⟩

/-- The limit that the search has for mark `d` of a ruler. -/
def OgrState.rulerLimit (o : OgrState) (pchoose : ℕ → U16) (m : ℕ → ℤ) (d : ℕ) : ℤ :=
  if d = 0 then 0 else o.limitFrom pchoose (distWord m d) (m o.halfDepth) d

/-- The half mark matters beyond the half depth only. -/
theorem OgrState.limitFrom_congr (o : OgrState) (pchoose : ℕ → U16) (dist0 : U32) {half half' : ℤ}
    {depth : ℕ} (h : o.halfDepth < depth → half = half') :
    o.limitFrom pchoose dist0 half depth = o.limitFrom pchoose dist0 half' depth := by
  by_cases hhalf : o.halfDepth < depth
  · rw [h hhalf]
  · simp only [limitFrom, hhalf, false_and, if_false]

theorem OgrState.rulerLimit_congr (o : OgrState) (pchoose : ℕ → U16) {m m' : ℕ → ℤ} {d : ℕ}
    (heq : ∀ i < d, m i = m' i) : o.rulerLimit pchoose m d = o.rulerLimit pchoose m' d := by
  rw [rulerLimit, rulerLimit, distWord_congr heq, o.limitFrom_congr pchoose _ (heq o.halfDepth)]

theorem OgrState.rulerLimit_le_choose (o : OgrState) (pchoose : ℕ → U16) (m : ℕ → ℤ) (d : ℕ) :
    o.rulerLimit pchoose m d ≤ choose pchoose (distWord m d) d := by
  rw [rulerLimit]
  split_ifs with hd
  · exact Int.natCast_nonneg _
  · simp only [limitFrom]
    split_ifs with hhalf hdepth hlt hlt
    · exact hlt.le
    · exact le_rfl
    · exact hlt.le
    · exact le_rfl
    · exact le_rfl

/-! ## Bitmaps of a level -/

/-- The mark of a level has moved by `s` places. -/
structure OgrLevel.Moved (lev lev' : OgrLevel) (newbit : Bool) (s : ℕ) : Prop where
  dist : lev'.dist = lev.dist
  comp : ∀ k, lev'.comp.bit k = lev.comp.bit (k + s)
  list : ∀ k < 256, lev'.list.bit k =
    if k < s then newbit && decide (k + 1 = s) else lev.list.bit (k - s)
  mark : lev'.mark = lev.mark
  limit : lev'.limit = lev.limit

/-- The distances below level `d`, and what is blocked ahead of `p`. -/
structure OgrLevel.Shows (lev : OgrLevel) (m : ℕ → ℤ) (d : ℕ) (p : ℤ) : Prop where
  dist : ∀ k < 256, lev.dist.bit k = true ↔ IsDistance m d (k + 1)
  comp : ∀ k : ℕ, lev.comp.bit k = true ↔ Blocked 256 m d (p + (k + 1))

/-- The distances from `p` to the marks below level `d`. -/
def OgrLevel.Lists (lev : OgrLevel) (m : ℕ → ℤ) (d : ℕ) (p : ℤ) : Prop :=
  ∀ k < 256, lev.list.bit k = true ↔ ∃ j < d, p - m j = k + 1

namespace OgrLevel

variable {lev lev' lev'' : OgrLevel} {newbit : Bool} {s : ℕ} {m m' : ℕ → ℤ} {d : ℕ} {p : ℤ}

theorem moved_compLeftListRight (lev : OgrLevel) (newbit : Bool) (hs : 0 < s) (hs' : s < 32) :
    lev.Moved (lev.compLeftListRight newbit s) newbit s where
  dist := rfl
  comp := BMap.bit_compLeft _ hs'
  list := fun _ hk ↦ BMap.bit_listRight _ _ hs hs' hk
  mark := rfl
  limit := rfl

theorem moved_compLeftListRightWord (lev : OgrLevel) (newbit : Bool) :
    lev.Moved (lev.compLeftListRightWord newbit) newbit 32 where
  dist := rfl
  comp := BMap.bit_compLeftWord _
  list := fun _ hk ↦ BMap.bit_listRightWord _ _ hk
  mark := rfl
  limit := rfl

/-- Two moves are one; the new bit goes in with the first. -/
theorem Moved.trans {t : ℕ} (h : lev.Moved lev' newbit s) (hs : 0 < s)
    (h' : lev'.Moved lev'' false t) : lev.Moved lev'' newbit (s + t) where
  dist := h'.dist.trans h.dist
  comp k := by rw [h'.comp, h.comp, Nat.add_assoc, Nat.add_comm t s]
  list k hk := by
    rw [h'.list k hk]
    by_cases hkt : k < t
    · rw [if_pos hkt, if_pos (by omega), Bool.false_and, decide_eq_false (by omega), Bool.and_false]
    · rw [if_neg hkt, h.list _ (by omega)]
      by_cases hks : k - t < s
      · rw [if_pos hks, if_pos (by omega)]
        congr 2
        exact propext (by omega)
      · rw [if_neg hks, if_neg (by omega), Nat.sub_sub, Nat.add_comm t s]
  mark := h'.mark.trans h.mark
  limit := h'.limit.trans h.limit

theorem Shows.congr (h : lev.Shows m d p) (heq : ∀ i < d, m i = m' i) : lev.Shows m' d p where
  dist k hk := (h.dist k hk).trans
    ⟨fun h ↦ h.congr heq, fun h ↦ h.congr fun i hi ↦ (heq i hi).symm⟩
  comp k := (h.comp k).trans ⟨fun h ↦ h.congr heq, fun h ↦ h.congr fun i hi ↦ (heq i hi).symm⟩

theorem Lists.congr (h : lev.Lists m d p) (heq : ∀ i < d, m i = m' i) : lev.Lists m' d p := by
  intro k hk
  rw [h k hk]
  exact exists_congr fun j ↦ and_congr_right fun hj ↦ by rw [heq j hj]

/-- **Moving a mark** keeps what its level shows. -/
theorem Shows.moved (h : lev.Shows m d p) (hmove : lev.Moved lev' newbit s) :
    lev'.Shows m d (p + s) where
  dist k hk := by
    rw [hmove.dist]
    exact h.dist k hk
  comp k := by
    rw [hmove.comp, h.comp]
    push_cast
    rw [show p + (k + s + 1) = p + s + (k + 1) by ring]

/-- Moving a mark keeps what its level lists, if the new bit says that it comes from the mark
before. -/
theorem Lists.moved (h : lev.Lists m d p) (hmove : lev.Moved lev' newbit s)
    (hnew : newbit = true ↔ ∃ j < d, m j = p) (hle : ∀ j < d, m j ≤ p) :
    lev'.Lists m d (p + s) := by
  intro k hk
  rw [hmove.list k hk]
  by_cases hks : k < s
  · rw [if_pos hks, Bool.and_eq_true, hnew, decide_eq_true_eq]
    constructor
    · rintro ⟨⟨j, hj, hp⟩, hs⟩
      exact ⟨j, hj, by omega⟩
    · rintro ⟨j, hj, hd⟩
      have := hle j hj
      exact ⟨⟨j, hj, by omega⟩, by omega⟩
  · rw [if_neg hks, h _ (by omega)]
    exact exists_congr fun j ↦ and_congr_right fun _ ↦ by omega

/-- **The next level** shows what is known with the mark placed. -/
theorem Shows.push (h : lev.Shows m d p) (hlist : lev.Lists m d p) (hp : m d = p)
    (lev2 : OgrLevel) : (lev.pushLevelUpdateState lev2).Shows m (d + 1) p := by
  have hdist : ∀ k < 256, (lev.dist.or lev.list).bit k = true ↔ IsDistance m (d + 1) (k + 1) := by
    intro k hk
    rw [BMap.bit_or, Bool.or_eq_true, h.dist k hk, hlist k hk, isDistance_succ, hp]
  refine ⟨hdist, fun k ↦ ?_⟩
  have hlast : p + (k + 1) - m d = k + 1 := by rw [hp, add_sub_cancel_left]
  rw [pushLevelUpdateState, BMap.bit_or, Bool.or_eq_true, h.comp, blocked_succ, hlast]
  refine or_congr Iff.rfl ?_
  rcases Nat.lt_or_ge k 256 with hk | hk
  · rw [hdist k hk]
    exact (and_iff_right (by omega)).symm
  · -- a distance too long for the bitmap blocks nothing
    rw [BMap.bit_of_ge _ hk]
    exact ⟨fun h ↦ (nomatch h), fun ⟨hle, _⟩ ↦ by omega⟩

theorem Lists.push (h : lev.Lists m d p) (hp : m d = p) (lev2 : OgrLevel) :
    (lev.pushLevelUpdateState lev2).Lists m (d + 1) p := by
  intro k hk
  rw [show (lev.pushLevelUpdateState lev2).list = lev.list from rfl, h k hk]
  constructor
  · rintro ⟨j, hj, hd⟩
    exact ⟨j, hj.trans d.lt_succ_self, hd⟩
  · rintro ⟨j, hj, hd⟩
    rcases Nat.lt_succ_iff_lt_or_eq.mp hj with hlt | rfl
    · exact ⟨j, hlt, hd⟩
    · omega

theorem Shows.dist_w0 (h : lev.Shows m d p) : lev.dist.w0 = distWord m d := by
  refine BitVec.eq_of_getMsbD_eq fun k hk ↦ ?_
  rw [BMap.getMsbD_w0 _ hk, getMsbD_distWord _ _ hk, Bool.eq_iff_iff, decide_eq_true_eq]
  exact h.dist k (by omega)

/-- The bitmaps are determined by what they say. -/
theorem Shows.ext (h : lev.Shows m d p) (h' : lev'.Shows m d p) :
    lev.dist = lev'.dist ∧ lev.comp = lev'.comp :=
  ⟨BMap.ext_bit fun k hk ↦ by rw [Bool.eq_iff_iff, h.dist k hk, h'.dist k hk],
    BMap.ext_bit fun k _ ↦ by rw [Bool.eq_iff_iff, h.comp k, h'.comp k]⟩

theorem Lists.ext (h : lev.Lists m d p) (h' : lev'.Lists m d p) : lev.list = lev'.list :=
  BMap.ext_bit fun k hk ↦ by rw [Bool.eq_iff_iff, h k hk, h' k hk]

end OgrLevel

end Hyunjin
