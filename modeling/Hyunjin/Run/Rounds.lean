import Mathlib.Order.WellFounded

/-!
# Loops, round by round

A loop goes through rounds until one of them ends it. What is said of a loop without a bound is said
of the states in which its rounds start, `Reaches`. A promise that the rounds keep only on some
condition is compared with that condition all along the loop in `forall_reaches_iff`, where the
invariant that makes the two agree need only survive the rounds that meet the condition; and the
loop ends if such rounds make it smaller.
-/

namespace Hyunjin.Rounds

variable {σ ε : Type*}

section Loop

variable (round : σ → Option ε × σ)

/-- The rounds of a loop, one for each unit of fuel; `none` if it is still going on. -/
def iterate : ℕ → σ → Option (ε × σ)
  | 0, _ => none
  | fuel + 1, s =>
    match round s with
    | (some e, t) => some (e, t)
    | (none, t) => iterate fuel t

/-- A round of the loop that is entered in the first state starts in the second. -/
inductive Reaches : σ → σ → Prop
  | start (s : σ) : Reaches s s
  | next {s t : σ} (hgoes : (round s).1 = none) (hrest : Reaches (round s).2 t) : Reaches s t

end Loop

variable {round : σ → Option ε × σ} {s t : σ}

theorem iterate_succ_of_none (h : (round s).1 = none) (fuel : ℕ) :
    iterate round (fuel + 1) s = iterate round fuel (round s).2 := by
  rw [iterate]
  rcases hround : round s with ⟨_ | e, t⟩
  · rfl
  · rw [hround] at h
    exact nomatch h

theorem iterate_succ_of_some {e : ε} (h : (round s).1 = some e) (fuel : ℕ) :
    iterate round (fuel + 1) s = some (e, (round s).2) := by
  rw [iterate]
  rcases hround : round s with ⟨_ | e', t⟩
  · rw [hround] at h
    exact nomatch h
  · rw [hround] at h
    rw [Option.some.inj h]

/-- A loop that ends has gone through a round that ends it. -/
theorem exists_reaches_of_iterate {fuel : ℕ} {e : ε} (h : iterate round fuel s = some (e, t)) :
    ∃ u, Reaches round s u ∧ round u = (some e, t) := by
  induction fuel generalizing s with
  | zero => exact nomatch h
  | succ fuel ih =>
    rcases hround : (round s).1 with _ | e'
    · rw [iterate_succ_of_none hround] at h
      obtain ⟨u, hu, hend⟩ := ih h
      exact ⟨u, .next hround hu, hend⟩
    · rw [iterate_succ_of_some hround] at h
      obtain ⟨rfl, rfl⟩ := Prod.mk.inj (Option.some.inj h)
      exact ⟨s, .start s, Prod.ext hround rfl⟩

section Condition

variable {inv allowed : σ → Prop}

/-- **A promise is kept all along** a loop if and only if its condition holds all along. -/
theorem forall_reaches_iff {good : σ → Prop} (hiff : ∀ s, inv s → (good s ↔ allowed s))
    (hkeep : ∀ s, inv s → allowed s → (round s).1 = none → inv (round s).2) (hs : inv s) :
    (∀ t, Reaches round s t → good t) ↔ ∀ t, Reaches round s t → allowed t := by
  constructor
  · intro hgood t ht
    induction ht with
    | start s => exact (hiff s hs).mp (hgood s (.start s))
    | @next s t hgoes hrest ih =>
      have hallowed := (hiff s hs).mp (hgood s (.start s))
      exact ih (hkeep s hs hallowed hgoes) fun u hu ↦ hgood u (.next hgoes hu)
  · intro hallowed t ht
    induction ht with
    | start s => exact (hiff s hs).mpr (hallowed s (.start s))
    | @next s t hgoes hrest ih =>
      exact ih (hkeep s hs (hallowed s (.start s)) hgoes) fun u hu ↦ hallowed u (.next hgoes hu)

/-- **A loop ends** if its rounds make it smaller. -/
theorem exists_iterate {β : Type*} [Preorder β] [WellFoundedLT β] (rank : σ → β)
    (hkeep : ∀ s, inv s → allowed s → (round s).1 = none → inv (round s).2)
    (hrank : ∀ s, inv s → allowed s → (round s).1 = none → rank (round s).2 < rank s) (hs : inv s)
    (hall : ∀ t, Reaches round s t → allowed t) : ∃ fuel, (iterate round fuel s).isSome := by
  induction hr : rank s using WellFoundedLT.induction generalizing s with
  | ind r ih =>
    subst hr
    rcases hround : (round s).1 with _ | e
    · have hallowed := hall s (.start s)
      obtain ⟨fuel, hfuel⟩ := ih _ (hrank s hs hallowed hround) (hkeep s hs hallowed hround)
        (fun t ht ↦ hall t (.next hround ht)) rfl
      exact ⟨fuel + 1, by rwa [iterate_succ_of_none hround]⟩
    · exact ⟨1, by rw [iterate_succ_of_some hround, Option.isSome_some]⟩

end Condition

end Hyunjin.Rounds
