import Mathlib.Data.List.Nodup

/-!
# Tickets under reusable handles

A desk issues tickets under handles. A ticket is withdrawn by its handle or it is served; either
way the handle is free for another ticket. A history lists what has happened, newest first, and
tells which ticket is held under each handle. Tickets are numbered in the order in which they are
issued, so that two tickets issued under one handle are told apart.

A history is *lawful* if a handle is issued only while it is free, if what is done for a handle is
what the ticket held under it asks for, and if no ticket that is due at the last reading of the
clock has a higher rank than the one that is served.
-/

namespace Hyunjin.Tickets

/-- What happens at the desk: `R` are the tickets, `T` the times and `C` what is done for them. -/
inductive Event (H R T C : Type*) where
  | read (t : T)
  | issued (h : H) (r : R)
  | withdrawn (h : H)
  | served (h : H) (c : C)

variable {H R T C : Type*} [DecidableEq H]

/-- The number of tickets issued. -/
def issues : List (Event H R T C) → ℕ
  | [] => 0
  | .issued _ _ :: es => issues es + 1
  | .read _ :: es | .withdrawn _ :: es | .served _ _ :: es => issues es

/-- The ticket held under a handle, with its number. -/
def held : List (Event H R T C) → H → Option (ℕ × R)
  | [], _ => none
  | .read _ :: es, h => held es h
  | .issued g r :: es, h => if h = g then some (issues es, r) else held es h
  | .withdrawn g :: es, h | .served g _ :: es, h => if h = g then none else held es h

/-- The numbers of the tickets that have been served. -/
def servedNumbers : List (Event H R T C) → List ℕ
  | [] => []
  | .served h _ :: es => ((held es h).map Prod.fst).toList ++ servedNumbers es
  | .read _ :: es | .issued _ _ :: es | .withdrawn _ :: es => servedNumbers es

/-- The last reading of the clock. -/
def lastRead : List (Event H R T C) → Option T
  | [] => none
  | .read t :: _ => some t
  | .issued _ _ :: es | .withdrawn _ :: es | .served _ _ :: es => lastRead es

/-- The rules of a desk. -/
structure Rules (R T C : Type*) where
  /-- The ticket bears the time at which it is issued. -/
  issuedAt : R → T → Prop
  /-- What is done at a time is what the ticket asks for. -/
  serves : R → T → C → Prop
  due : R → T → Prop
  rank : R → ℕ

/-- **Lawful histories.** -/
def Lawful (rules : Rules R T C) : List (Event H R T C) → Prop
  | [] => True
  | .issued h r :: es =>
    held es h = none ∧ (∃ t, lastRead es = some t ∧ rules.issuedAt r t) ∧ Lawful rules es
  | .served h c :: es =>
    (∃ n r t, held es h = some (n, r) ∧ lastRead es = some t ∧ rules.serves r t c
      ∧ ∀ g m q, held es g = some (m, q) → rules.due q t → rules.rank q ≤ rules.rank r)
    ∧ Lawful rules es
  | .read _ :: es | .withdrawn _ :: es => Lawful rules es

variable {es : List (Event H R T C)} {h g : H} {n : ℕ} {r q : R}

theorem held_lt (hheld : held es h = some (n, r)) : n < issues es := by
  induction es with
  | nil => cases hheld
  | cons e es ih =>
    cases e with
    | read t => exact ih hheld
    | issued g r' =>
      rw [held] at hheld
      split_ifs at hheld with hg
      · cases hheld
        exact Nat.lt_succ_self _
      · exact Nat.lt_succ_of_lt (ih hheld)
    | withdrawn g =>
      rw [held] at hheld
      split_ifs at hheld with hg
      exact ih hheld
    | served g c =>
      rw [held] at hheld
      split_ifs at hheld with hg
      exact ih hheld

/-- No two handles hold one ticket. -/
theorem held_injective (hh : held es h = some (n, r)) (hg : held es g = some (n, q)) : h = g := by
  induction es with
  | nil => cases hh
  | cons e es ih =>
    cases e with
    | read t => exact ih hh hg
    | issued k r' =>
      rw [held] at hh hg
      split_ifs at hh hg with h₁ h₂ h₂
      · rw [h₁, h₂]
      · cases hh
        exact absurd (held_lt hg) (Nat.lt_irrefl _)
      · cases hg
        exact absurd (held_lt hh) (Nat.lt_irrefl _)
      · exact ih hh hg
    | withdrawn k =>
      rw [held] at hh hg
      split_ifs at hh hg
      exact ih hh hg
    | served k c =>
      rw [held] at hh hg
      split_ifs at hh hg
      exact ih hh hg

theorem mem_servedNumbers_served {c : C} :
    n ∈ servedNumbers (.served h c :: es)
      ↔ (∃ r, held es h = some (n, r)) ∨ n ∈ servedNumbers es := by
  rw [servedNumbers, List.mem_append, Option.mem_toList, Option.map_eq_some_iff]
  refine or_congr_left ⟨fun ⟨q, hq, hn⟩ ↦ ⟨q.2, ?_⟩, fun ⟨r, hr⟩ ↦ ⟨(n, r), hr, rfl⟩⟩
  rw [hq, ← hn]

theorem servedNumbers_lt (hn : n ∈ servedNumbers es) : n < issues es := by
  induction es with
  | nil => cases hn
  | cons e es ih =>
    cases e with
    | read t => exact ih hn
    | issued k r' => exact Nat.lt_succ_of_lt (ih hn)
    | withdrawn k => exact ih hn
    | served k c =>
      rcases mem_servedNumbers_served.mp hn with ⟨r, hr⟩ | hn
      · exact (held_lt hr : n < issues es)
      · exact ih hn

/-- A ticket that is held has not been served. -/
theorem not_served_of_held (hheld : held es h = some (n, r)) : n ∉ servedNumbers es := by
  induction es with
  | nil => cases hheld
  | cons e es ih =>
    cases e with
    | read t => exact ih hheld
    | issued k r' =>
      rw [held] at hheld
      split_ifs at hheld with hk
      · cases hheld
        exact fun hn ↦ Nat.lt_irrefl (issues es) (servedNumbers_lt hn)
      · exact ih hheld
    | withdrawn k =>
      rw [held] at hheld
      split_ifs at hheld with hk
      exact ih hheld
    | served k c =>
      rw [held] at hheld
      split_ifs at hheld with hk
      rintro hn
      rcases mem_servedNumbers_served.mp hn with ⟨r', hr'⟩ | hn
      · exact hk (held_injective hheld hr')
      · exact ih hheld hn

/-- **No ticket is served twice.** -/
theorem servedNumbers_nodup (es : List (Event H R T C)) : (servedNumbers es).Nodup := by
  induction es with
  | nil => exact List.nodup_nil
  | cons e es ih =>
    cases e with
    | read t => exact ih
    | issued k r' => exact ih
    | withdrawn k => exact ih
    | served k c =>
      rw [servedNumbers]
      cases hk : held es k with
      | none => exact ih
      | some q => exact List.nodup_cons.mpr ⟨not_served_of_held hk, ih⟩

end Hyunjin.Tickets
