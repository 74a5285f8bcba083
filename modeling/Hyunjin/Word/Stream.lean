import Mathlib.Logic.Function.Iterate
import Mathlib.Data.List.Basic

/-!
# Running-key streams

A stream cipher that treats one word at a time under a key which is stepped after each word. Nothing
is assumed of the words, the keys or the two word maps but that, under every key, one undoes the
other; then the two streams undo each other whatever the key schedule is.
-/

namespace Hyunjin.Keystream

variable {κ α β : Type*}

/-- Apply `f` to each word under the key of its position. -/
def keyed (f : κ → α → β) (step : κ → κ) : κ → List α → List β
  | _, [] => []
  | K, x :: xs => f K x :: keyed f step (step K) xs

@[simp] theorem keyed_nil (f : κ → α → β) (step : κ → κ) (K : κ) : keyed f step K [] = [] := rfl

@[simp] theorem keyed_cons (f : κ → α → β) (step : κ → κ) (K : κ) (x : α) (xs : List α) :
    keyed f step K (x :: xs) = f K x :: keyed f step (step K) xs := rfl

@[simp] theorem length_keyed (f : κ → α → β) (step : κ → κ) (K : κ) (xs : List α) :
    (keyed f step K xs).length = xs.length := by
  induction xs generalizing K with
  | nil => rfl
  | cons x xs ih => rw [keyed_cons, List.length_cons, ih, List.length_cons]

/-- After a prefix the key has been stepped once for each of its words. -/
theorem keyed_append (f : κ → α → β) (step : κ → κ) (K : κ) (xs ys : List α) :
    keyed f step K (xs ++ ys) = keyed f step K xs ++ keyed f step (step^[xs.length] K) ys := by
  induction xs generalizing K with
  | nil => rfl
  | cons x xs ih =>
    rw [List.cons_append, keyed_cons, ih, keyed_cons, List.cons_append, List.length_cons,
      Function.iterate_succ_apply]

/-- **Word maps that undo each other give streams that do.** -/
theorem keyed_keyed {f : κ → α → β} {g : κ → β → α} (h : ∀ K x, g K (f K x) = x) (step : κ → κ)
    (K : κ) (xs : List α) : keyed g step K (keyed f step K xs) = xs := by
  induction xs generalizing K with
  | nil => rfl
  | cons x xs ih => rw [keyed_cons, keyed_cons, h, ih]

end Hyunjin.Keystream
