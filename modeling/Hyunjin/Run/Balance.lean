import Mathlib.Algebra.Group.Basic
import Mathlib.Algebra.Group.Nat.Defs

/-!
# Balances

A process holds things, takes things in and gives things out. It is balanced if what was held and
what came in is what went out and what is held now. Balanced steps may follow each other, and stand
beside each other; so a long run of a process in many parts is balanced if each step of each part
is.
-/

namespace Hyunjin.Run

variable {M : Type*} [AddCommMonoid M]

/-- What was held and what came in is what went out and what is held now. -/
def Balances (held ins outs held' : M) : Prop := held + ins = outs + held'

namespace Balances

variable {held held' held'' ins ins' outs outs' other other' : M}

/-- Nothing happens. -/
theorem refl (held : M) : Balances held 0 0 held := add_comm held 0

/-- One step after another. -/
theorem trans (h : Balances held ins outs held') (h' : Balances held' ins' outs' held'') :
    Balances held (ins + ins') (outs + outs') held'' := by
  unfold Balances at *
  calc held + (ins + ins') = outs + held' + ins' := by rw [← add_assoc, h]
    _ = outs + outs' + held'' := by rw [add_assoc, h', ← add_assoc]

/-- One part beside another. -/
theorem add (h : Balances held ins outs held') (h' : Balances other ins' outs' other') :
    Balances (held + other) (ins + ins') (outs + outs') (held' + other') := by
  unfold Balances at *
  rw [add_add_add_comm, h, h', add_add_add_comm]

/-- A part that nothing happens to. -/
theorem add_right (h : Balances held ins outs held') (other : M) :
    Balances (held + other) ins outs (held' + other) := by
  have hadd := h.add (refl other)
  rw [add_zero, add_zero] at hadd
  exact hadd

/-- A process that began with nothing. -/
theorem of_zero (h : Balances 0 ins outs held) : ins = outs + held :=
  (zero_add ins).symm.trans h

end Balances

end Hyunjin.Run
