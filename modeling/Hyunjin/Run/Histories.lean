import Mathlib.Data.List.Induction

/-!
# Runs and what has come before

A run takes one input after the other. What a state should be is often a matter of all the inputs
before it; then a run is good in every state exactly if each of its inputs is one that a good state
stays good with.
-/

namespace Hyunjin.Run

variable {σ ι : Type*} {step : σ → ι → σ} {init : σ}

variable (step init) in
/-- Every state of the run is good, for the inputs before it. -/
def Throughout (good : List ι → σ → Prop) (inputs : List ι) : Prop :=
  ∀ past, past <+: inputs → good past (past.foldl step init)

/-- Every input is allowed after the inputs before it. -/
def EachAllowed (allowed : List ι → ι → Prop) (inputs : List ι) : Prop :=
  ∀ past i, past ++ [i] <+: inputs → allowed past i

/-- **A run is good throughout** exactly if every input is allowed. -/
theorem throughout_iff {good : List ι → σ → Prop} {allowed : List ι → ι → Prop}
    (hinit : good [] init)
    (hstep : ∀ past i s, good past s → (good (past ++ [i]) (step s i) ↔ allowed past i))
    (inputs : List ι) : Throughout step init good inputs ↔ EachAllowed allowed inputs := by
  constructor
  · intro h past i hpast
    have hnext := h (past ++ [i]) hpast
    rw [List.foldl_append] at hnext
    exact (hstep past i _ (h past ((List.prefix_append past [i]).trans hpast))).mp hnext
  · intro h past hpast
    induction past using List.reverseRecOn with
    | nil => exact hinit
    | append_singleton past i ih =>
      rw [List.foldl_append]
      exact (hstep past i _ (ih ((List.prefix_append past [i]).trans hpast))).mpr (h past i hpast)

/-- The same, for a step that is looked at only in the states that the run comes to. -/
theorem throughout_iff_of_reached {good : List ι → σ → Prop} {allowed : List ι → ι → Prop}
    (hinit : good [] init)
    (hstep : ∀ past i, good past (past.foldl step init) →
      (good (past ++ [i]) (step (past.foldl step init) i) ↔ allowed past i))
    (inputs : List ι) : Throughout step init good inputs ↔ EachAllowed allowed inputs := by
  have hgood : Throughout step init (fun past s ↦ s = past.foldl step init ∧ good past s) inputs ↔
      EachAllowed allowed inputs := by
    apply throughout_iff ⟨rfl, hinit⟩
    rintro past i s ⟨rfl, hpast⟩
    rw [← hstep past i hpast, List.foldl_append]
    exact and_iff_right rfl
  rw [← hgood]
  exact ⟨fun h past hpast ↦ ⟨rfl, h past hpast⟩, fun h past hpast ↦ (h past hpast).2⟩

/-! ## Records -/

section Record

variable {β : Type*} (mark : List ι → ι → List β)

/-- What is written down in a run; each input may be marked by what has come before. -/
def record (inputs : List ι) : List β :=
  (inputs.foldl (fun q i ↦ (q.1 ++ [i], q.2 ++ mark q.1 i)) ([], [])).2

@[simp]
theorem record_nil : record mark [] = [] := rfl

theorem record_concat (inputs : List ι) (i : ι) :
    record mark (inputs ++ [i]) = record mark inputs ++ mark inputs i := by
  have hpast : ∀ inputs : List ι,
      (inputs.foldl (fun q i ↦ (q.1 ++ [i], q.2 ++ mark q.1 i)) ([], [])).1 = inputs := by
    intro inputs
    induction inputs using List.reverseRecOn with
    | nil => rfl
    | append_singleton inputs i ih =>
      rw [List.foldl_append, List.foldl_cons, List.foldl_nil, ih]
  rw [record, record, List.foldl_append, List.foldl_cons, List.foldl_nil, hpast]

end Record

end Hyunjin.Run
