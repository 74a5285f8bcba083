import Mathlib.Data.List.Induction
import Mathlib.Data.List.TakeWhile

/-!
# The latest answer

Some inputs of a run answer a question, and the last answer stands until the next one. A source of
answers may also fail for good, after which nothing that it says counts any more.
-/

namespace Hyunjin.Run

variable {ι β : Type*}

section Latest

variable (answer : ι → Option β) (b : β)

/-- The last answer among the inputs, or `b` if there is none. -/
def latest (inputs : List ι) : β := inputs.foldl (fun b i ↦ (answer i).getD b) b

@[simp]
theorem latest_nil : latest answer b [] = b := rfl

theorem latest_concat (inputs : List ι) (i : ι) :
    latest answer b (inputs ++ [i]) = (answer i).getD (latest answer b inputs) := by
  rw [latest, latest, List.foldl_append]
  rfl

/-- Inputs that do not answer make no difference. -/
theorem latest_append_of_none {inputs more : List ι} (h : ∀ i ∈ more, answer i = none) :
    latest answer b (inputs ++ more) = latest answer b inputs := by
  induction more using List.reverseRecOn with
  | nil => rw [List.append_nil]
  | append_singleton more i ih =>
    have hi := h i (List.mem_append_right _ (List.mem_singleton_self i))
    rw [← List.append_assoc, latest_concat, hi]
    exact ih fun j hj ↦ h j (List.mem_append_left _ hj)

end Latest

section Failing

variable (ok : ι → Bool)

/-- The inputs up to the first that is not ok. -/
theorem takeWhile_concat (inputs : List ι) (i : ι) :
    (inputs ++ [i]).takeWhile ok =
      if inputs.all ok then inputs ++ if ok i then [i] else [] else inputs.takeWhile ok := by
  induction inputs with
  | nil => cases h : ok i <;> simp [h]
  | cons j inputs ih =>
    rw [List.cons_append, List.takeWhile_cons, List.takeWhile_cons, List.all_cons, ih]
    cases ok j with
    | false => rfl
    | true => cases inputs.all ok <;> rfl

theorem takeWhile_of_all {inputs : List ι} (h : inputs.all ok = true) :
    inputs.takeWhile ok = inputs :=
  List.takeWhile_eq_self_iff.mpr (List.all_eq_true.mp h)

end Failing

end Hyunjin.Run
