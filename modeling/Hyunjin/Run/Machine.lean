import Mathlib.Algebra.Group.Basic
import Mathlib.Data.List.Forall2

/-!
# Runs of a machine

A machine answers each input with an output and a next state. The rules here carry facts about one
step to whole runs: an invariant, a ledger that balances what goes in and out against what is held,
and a simulation between two machines. Each is stated for runs all of whose steps are *guarded*,
since a program often keeps its promises only for calls that meet some condition in the state they
find.
-/

namespace Hyunjin.Run

variable {ι σ τ ρ : Type*}

section Machine

variable (step : ι → σ → ρ × σ)

/-- The state after a run. -/
def final : List ι → σ → σ
  | [], s => s
  | i :: is, s => final is (step i s).2

/-- The outputs of a run. -/
def outputs : List ι → σ → List ρ
  | [], _ => []
  | i :: is, s => (step i s).1 :: outputs is (step i s).2

/-- Every step of a run meets the guard in the state it finds. -/
def Guarded (guard : ι → σ → Prop) : List ι → σ → Prop
  | [], _ => True
  | i :: is, s => guard i s ∧ Guarded guard is (step i s).2

/-- The sum over a run of an amount read off each input and its output. -/
def total {M : Type*} [AddCommMonoid M] (amount : ι → ρ → M) : List ι → σ → M
  | [], _ => 0
  | i :: is, s => amount i (step i s).1 + total amount is (step i s).2

theorem final_append (is js : List ι) (s : σ) :
    final step (is ++ js) s = final step js (final step is s) := by
  induction is generalizing s with
  | nil => rfl
  | cons i is ih => exact ih _

theorem outputs_append (is js : List ι) (s : σ) :
    outputs step (is ++ js) s = outputs step is s ++ outputs step js (final step is s) := by
  induction is generalizing s with
  | nil => rfl
  | cons i is ih => exact congrArg (_ :: ·) (ih _)

variable {step} {guard : ι → σ → Prop} {inv : σ → Prop}

/-- An invariant of guarded steps holds after every guarded run. -/
theorem invariant (hstep : ∀ i s, inv s → guard i s → inv (step i s).2) {is : List ι} {s : σ}
    (hs : inv s) (hrun : Guarded step guard is s) : inv (final step is s) := by
  induction is generalizing s with
  | nil => exact hs
  | cons i is ih => exact ih (hstep i s hs hrun.1) hrun.2

/-- What every guarded step does from the invariant on, it does all along a guarded run. -/
theorem Guarded.mono {good : ι → σ → Prop}
    (hstep : ∀ i s, inv s → guard i s → good i s ∧ inv (step i s).2) {is : List ι} {s : σ}
    (hs : inv s) (hrun : Guarded step guard is s) : Guarded step good is s := by
  induction is generalizing s with
  | nil => trivial
  | cons i is ih =>
    obtain ⟨hgood, hnext⟩ := hstep i s hs hrun.1
    exact ⟨hgood, ih hnext hrun.2⟩

/-- **Two guards that agree on the invariant** hold of the same runs, as long as one of them keeps
the invariant. -/
theorem guarded_congr {good allowed : ι → σ → Prop} {valid : ι → Prop}
    (hiff : ∀ i s, valid i → inv s → (good i s ↔ allowed i s))
    (hstep : ∀ i s, valid i → inv s → allowed i s → inv (step i s).2) {is : List ι} {s : σ}
    (hvalid : ∀ i ∈ is, valid i) (hs : inv s) :
    Guarded step good is s ↔ Guarded step allowed is s := by
  induction is generalizing s with
  | nil => exact Iff.rfl
  | cons i is ih =>
    have hi := hvalid i List.mem_cons_self
    have hrest := fun j hj ↦ hvalid j (List.mem_cons_of_mem i hj)
    rw [Guarded, Guarded, hiff i s hi hs]
    exact and_congr_right fun hallowed ↦ ih hrest (hstep i s hi hs hallowed)

/-- **If every step balances, so does the run**: what went out and what is still held is what was
held and what came in. -/
theorem ledger {M : Type*} [AddCommMonoid M] {held : σ → M} {lost gained : ι → ρ → M}
    (hinv : ∀ i s, inv s → guard i s → inv (step i s).2)
    (hstep : ∀ i s, inv s → guard i s →
      lost i (step i s).1 + held (step i s).2 = held s + gained i (step i s).1)
    {is : List ι} {s : σ} (hs : inv s) (hrun : Guarded step guard is s) :
    total step lost is s + held (final step is s) = held s + total step gained is s := by
  induction is generalizing s with
  | nil => rw [total, total, final, zero_add, add_zero]
  | cons i is ih =>
    rw [total, total, final, add_assoc, ih (hinv i s hs hrun.1) hrun.2, ← add_assoc,
      hstep i s hs hrun.1, add_assoc]

end Machine

/-- **A simulation carries over to runs.** The two machines give related outputs all along. -/
theorem simulation {ρ' : Type*} {step : ι → σ → ρ × σ} {step' : ι → τ → ρ' × τ}
    {guard : ι → σ → Prop} {rel : σ → τ → Prop} {match' : ρ → ρ' → Prop}
    (hstep : ∀ i s t, rel s t → guard i s →
      match' (step i s).1 (step' i t).1 ∧ rel (step i s).2 (step' i t).2)
    {is : List ι} {s : σ} {t : τ} (hst : rel s t) (hrun : Guarded step guard is s) :
    List.Forall₂ match' (outputs step is s) (outputs step' is t) ∧
      rel (final step is s) (final step' is t) := by
  induction is generalizing s t with
  | nil => exact ⟨List.Forall₂.nil, hst⟩
  | cons i is ih =>
    obtain ⟨hout, hnext⟩ := hstep i s t hst hrun.1
    obtain ⟨houts, hfinal⟩ := ih hnext hrun.2
    exact ⟨List.Forall₂.cons hout houts, hfinal⟩

end Hyunjin.Run
