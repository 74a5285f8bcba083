import Mathlib.Logic.Function.Iterate
import Mathlib.Data.List.Basic

/-!
# Bounded linear search with partial matches

A search walks the orbit `k, next k, next (next k), …` for at most `n` candidates. Each candidate is
a miss, a near match, which is recorded and passed over, or a hit, which is recorded and ends the
search where it stands. A program that performs such a search in another order of computation
(batches, lanes, restarts from a saved cursor) is correct when its outcome is the one of `search`.

## Splitting a search

`search_add` is the rule that makes batching possible: a search of `m + n` candidates is a search of
`m` followed, unless that one stopped at a hit, by a search of `n` from where it left the cursor.
-/

namespace Hyunjin.Search

/-- What one candidate turned out to be. -/
inductive Verdict
  | miss
  | near
  | hit
  deriving DecidableEq, Repr

/-- The candidates passed over, the cursor, every candidate that matched at least in part, in order,
and whether the last of them was a hit. -/
structure Outcome (κ : Type*) where
  steps : ℕ
  cursor : κ
  matched : List κ
  found : Bool
  deriving DecidableEq, Repr

variable {κ : Type*} (test : κ → Verdict) (next : κ → κ)

namespace Outcome

/-- The outcome of passing over `k` before a search with outcome `r`. -/
def passing (v : Verdict) (k : κ) (r : Outcome κ) : Outcome κ :=
  { r with
    steps := r.steps + 1
    matched := if v = .miss then r.matched else k :: r.matched }

/-- Continue with `f` from the cursor, unless the search has ended at a hit. -/
def andThen (r : Outcome κ) (f : κ → Outcome κ) : Outcome κ :=
  if r.found then r
  else
    { steps := r.steps + (f r.cursor).steps
      cursor := (f r.cursor).cursor
      matched := r.matched ++ (f r.cursor).matched
      found := (f r.cursor).found }

theorem andThen_of_found {r : Outcome κ} (h : r.found = true) (f : κ → Outcome κ) :
    r.andThen f = r := if_pos h

theorem found_andThen_eq_false {r : Outcome κ} {f : κ → Outcome κ} :
    (r.andThen f).found = false ↔ r.found = false ∧ (f r.cursor).found = false := by
  rcases hr : r.found with _ | _ <;> simp [andThen, hr]

theorem passing_andThen (v : Verdict) (k : κ) (r : Outcome κ) (f : κ → Outcome κ) :
    (passing v k r).andThen f = passing v k (r.andThen f) := by
  by_cases hr : r.found = true
  · rw [andThen_of_found hr, andThen_of_found (by simpa [passing] using hr)]
  · by_cases hv : v = .miss <;> simp [passing, andThen, hr, hv] <;> omega

end Outcome

/-! ## The search -/

/-- Search the first `n` candidates from `k`. -/
def search : ℕ → κ → Outcome κ
  | 0, k => ⟨0, k, [], false⟩
  | n + 1, k =>
    if test k = .hit then ⟨0, k, [k], true⟩
    else (search n (next k)).passing (test k) k

/-- The candidates that are looked at, in order. -/
def tested : ℕ → κ → List κ
  | 0, _ => []
  | n + 1, k => if test k = .hit then [k] else k :: tested n (next k)

@[simp] theorem search_zero (k : κ) : search test next 0 k = ⟨0, k, [], false⟩ := rfl

variable {test next}

theorem head?_tested {n : ℕ} (hn : 0 < n) (k : κ) : (tested test next n k).head? = some k := by
  cases n with
  | zero => exact absurd hn (Nat.lt_irrefl 0)
  | succ n =>
    rw [tested]
    split_ifs <;> rfl

theorem search_succ_hit {k : κ} (h : test k = .hit) (n : ℕ) :
    search test next (n + 1) k = ⟨0, k, [k], true⟩ := if_pos h

theorem search_succ_of_ne {k : κ} (h : test k ≠ .hit) (n : ℕ) :
    search test next (n + 1) k = (search test next n (next k)).passing (test k) k := if_neg h

/-- **A search splits at every point.** -/
theorem search_add (m n : ℕ) (k : κ) :
    search test next (m + n) k = (search test next m k).andThen (search test next n) := by
  induction m generalizing k with
  | zero => simp [Outcome.andThen]
  | succ m ih =>
    rw [Nat.add_right_comm]
    by_cases h : test k = .hit
    · rw [search_succ_hit h, search_succ_hit h, Outcome.andThen_of_found rfl]
    · rw [search_succ_of_ne h, search_succ_of_ne h, ih, Outcome.passing_andThen]

theorem search_one_miss {k : κ} (h : test k = .miss) :
    search test next 1 k = ⟨1, next k, [], false⟩ := by
  simp [search, Outcome.passing, h]

theorem search_one_near {k : κ} (h : test k = .near) :
    search test next 1 k = ⟨1, next k, [k], false⟩ := by
  simp [search, Outcome.passing, h]

theorem cursor_search (n : ℕ) (k : κ) :
    (search test next n k).cursor = next^[(search test next n k).steps] k := by
  induction n generalizing k with
  | zero => rfl
  | succ n ih =>
    by_cases h : test k = .hit
    · rw [search_succ_hit h]
      rfl
    · rw [search_succ_of_ne h, Outcome.passing, Function.iterate_succ_apply]
      exact ih (next k)

theorem steps_search_le (n : ℕ) (k : κ) : (search test next n k).steps ≤ n := by
  induction n generalizing k with
  | zero => exact Nat.le_refl 0
  | succ n ih =>
    by_cases h : test k = .hit
    · rw [search_succ_hit h]
      exact Nat.zero_le _
    · rw [search_succ_of_ne h]
      exact Nat.succ_le_succ (ih (next k))

/-- Every recorded match was passed over, or is the hit. -/
theorem length_matched_le (n : ℕ) (k : κ) : (search test next n k).matched.length ≤ n := by
  induction n generalizing k with
  | zero => exact Nat.le_refl 0
  | succ n ih =>
    have hn := ih (next k)
    by_cases h : test k = .hit
    · rw [search_succ_hit h]
      simp
    · rw [search_succ_of_ne h, Outcome.passing]
      split_ifs
      · exact Nat.le_succ_of_le hn
      · exact Nat.succ_le_succ hn

/-- Whatever matched lies on the orbit. -/
theorem exists_of_mem_matched {n : ℕ} {k c : κ} (h : c ∈ (search test next n k).matched) :
    ∃ i, c = next^[i] k := by
  induction n generalizing k with
  | zero => cases h
  | succ n ih =>
    by_cases hk : test k = .hit
    · rw [search_succ_hit hk, List.mem_singleton] at h
      exact ⟨0, h⟩
    · rw [search_succ_of_ne hk, Outcome.passing] at h
      have hcases : c = k ∨ c ∈ (search test next n (next k)).matched := by
        split_ifs at h
        · exact Or.inr h
        · exact List.mem_cons.mp h
      rcases hcases with rfl | h
      · exact ⟨0, rfl⟩
      · obtain ⟨i, hi⟩ := ih h
        exact ⟨i + 1, by rw [hi, Function.iterate_succ_apply]⟩

/-- Nothing is recorded exactly when every candidate is a miss. -/
theorem matched_eq_nil_iff {n : ℕ} {k : κ} :
    (search test next n k).matched = [] ↔ ∀ i < n, test (next^[i] k) = .miss := by
  induction n generalizing k with
  | zero => simp
  | succ n ih =>
    rw [Nat.forall_lt_succ_left, Function.iterate_zero_apply]
    simp only [Function.iterate_succ_apply]
    by_cases hk : test k = .hit
    · rw [search_succ_hit hk, hk]
      simp
    · rw [search_succ_of_ne hk, Outcome.passing, ← ih]
      split_ifs with hmiss
      · exact (and_iff_right hmiss).symm
      · exact iff_of_false nofun fun h ↦ hmiss h.1

theorem steps_of_not_found {n : ℕ} {k : κ} (h : (search test next n k).found = false) :
    (search test next n k).steps = n := by
  induction n generalizing k with
  | zero => rfl
  | succ n ih =>
    by_cases hk : test k = .hit
    · rw [search_succ_hit hk] at h
      exact absurd h Bool.true_eq_false.mp
    · rw [search_succ_of_ne hk] at h ⊢
      exact congrArg (· + 1) (ih h)

/-- The candidates looked at are those passed over, and the hit. -/
theorem tested_eq (n : ℕ) (k : κ) : tested test next n k =
    (List.range ((search test next n k).steps + (search test next n k).found.toNat)).map
      (next^[·] k) := by
  induction n generalizing k with
  | zero => rfl
  | succ n ih =>
    by_cases hk : test k = .hit
    · rw [search_succ_hit hk, tested, if_pos hk]
      rfl
    · rw [search_succ_of_ne hk, tested, if_neg hk, ih, Outcome.passing]
      simp only [Nat.add_right_comm _ 1, List.range_succ_eq_map, List.map_cons, List.map_map]
      rfl

/-- **A search stops at the first hit.** Nothing before the cursor is a hit, and the search is
successful exactly when the cursor is one and lies within bounds. -/
theorem test_of_lt_steps {n : ℕ} {k : κ} {i : ℕ} (hi : i < (search test next n k).steps) :
    test (next^[i] k) ≠ .hit := by
  induction n generalizing k i with
  | zero => exact absurd hi (Nat.not_lt_zero i)
  | succ n ih =>
    by_cases hk : test k = .hit
    · rw [search_succ_hit hk] at hi
      exact absurd hi (Nat.not_lt_zero i)
    · rw [search_succ_of_ne hk, Outcome.passing] at hi
      cases i with
      | zero => exact hk
      | succ i =>
        rw [Function.iterate_succ_apply]
        exact ih (Nat.lt_of_succ_lt_succ hi)

theorem found_iff_cursor {n : ℕ} {k : κ} : (search test next n k).found = true ↔
    (search test next n k).steps < n ∧ test (search test next n k).cursor = .hit := by
  induction n generalizing k with
  | zero => simp
  | succ n ih =>
    by_cases hk : test k = .hit
    · rw [search_succ_hit hk]
      exact ⟨fun _ ↦ ⟨Nat.succ_pos n, hk⟩, fun _ ↦ rfl⟩
    · rw [search_succ_of_ne hk]
      simp only [Outcome.passing, Nat.add_lt_add_iff_right]
      exact ih

/-- A search is successful exactly when one of its candidates is a hit. -/
theorem found_iff_exists {n : ℕ} {k : κ} :
    (search test next n k).found = true ↔ ∃ i < n, test (next^[i] k) = .hit := by
  constructor
  · intro h
    obtain ⟨hlt, hhit⟩ := found_iff_cursor.mp h
    exact ⟨_, hlt, by rwa [cursor_search] at hhit⟩
  · rintro ⟨i, hi, hhit⟩
    by_contra hf
    have hsteps := steps_of_not_found (Bool.not_eq_true _ ▸ hf)
    exact test_of_lt_steps (hsteps ▸ hi) hhit

end Hyunjin.Search
