import Hyunjin.Core.Agreement
import Hyunjin.Problem.State
import Hyunjin.Run.Machine

/-!
# Running a problem

A cruncher runs its problem in time slices. `problemRun` turns the slice into a number of keys, has
the core test them, compares the core's key with a reference key that it advances itself, and counts
the keys into the packet. A slice ends in one of three ways: a key was found, the block is done, or
there is more to do.

An error of the core, or a disagreement about the key, leaves the problem as it was.
-/

namespace Hyunjin

open Search

/-! ## The length of a slice -/

/-- The number of keys the core is to test: the time slice, cut at the end of the block when it
would overrun it by a carry of the low counter, and rounded up to whole units. -/
def keysToCheck (iterations keysdone : Block) (keystocheck : U32) : U32 :=
  let n :=
    if iterations.hi - keysdone.hi ≤ 1#32 ∧ keysdone.lo + keystocheck < keystocheck then
      iterations.lo - keysdone.lo
    else keystocheck
  if n < MINIMUM_ITERATIONS then MINIMUM_ITERATIONS
  else if n % MINIMUM_ITERATIONS ≠ 0#32 then
    n + (MINIMUM_ITERATIONS - n % MINIMUM_ITERATIONS)
  else n

/-- Rounding up can wrap, but sixteen divides `2³²` as it does the unit, and the unit does not. -/
private theorem units_mod {n : ℕ} (hdvd : 48 ∣ n) (hpos : 0 < n) (hlt : n < 2 ^ 32 * 2) :
    16 ∣ n % 2 ^ 32 ∧ 0 < n % 2 ^ 32 := by
  have h16 : 16 ∣ n := Nat.dvd_trans (Nat.dvd_mul_right 16 3) hdvd
  refine ⟨(Nat.dvd_mod_iff (Nat.dvd_mul_right 16 (2 ^ 28))).mpr h16, Nat.pos_of_ne_zero ?_⟩
  intro hzero
  obtain ⟨d, rfl⟩ := Nat.dvd_of_mod_eq_zero hzero
  have hd : d = 1 := Nat.le_antisymm (Nat.le_of_lt_succ (Nat.lt_of_mul_lt_mul_left hlt))
    (Nat.pos_of_mul_pos_left hpos)
  rw [hd] at hdvd
  exact absurd hdvd (by decide)

private theorem keysToCheck_spec (iterations keysdone : Block) (n : U32) :
    16 ∣ (keysToCheck iterations keysdone n).toNat ∧
      0 < (keysToCheck iterations keysdone n).toNat := by
  have hmin : MINIMUM_ITERATIONS.toNat = 48 := rfl
  rw [keysToCheck]
  generalize (if iterations.hi - keysdone.hi ≤ 1#32 ∧ keysdone.lo + n < n then
    iterations.lo - keysdone.lo else n) = m
  have hm := m.isLt
  by_cases hsmall : m < MINIMUM_ITERATIONS
  · rw [if_pos hsmall, hmin]
    decide
  · have hlarge : 48 ≤ m.toNat := by
      rw [BitVec.lt_def, hmin] at hsmall
      exact Nat.le_of_not_lt hsmall
    have hmod : (m % MINIMUM_ITERATIONS).toNat = m.toNat % 48 := by rw [BitVec.toNat_umod, hmin]
    have hsame : m.toNat % 2 ^ 32 = m.toNat := Nat.mod_eq_of_lt hm
    rw [if_neg hsmall]
    by_cases hround : m % MINIMUM_ITERATIONS = 0#32
    · rw [hround] at hmod
      rw [if_neg (not_not.mpr hround), ← hsame]
      exact units_mod (Nat.dvd_of_mod_eq_zero hmod.symm) (by omega) (by omega)
    · have hle : m % MINIMUM_ITERATIONS ≤ MINIMUM_ITERATIONS := by
        rw [BitVec.le_def, hmod, hmin]
        omega
      rw [if_pos hround, BitVec.toNat_add, BitVec.toNat_sub_of_le hle, hmod, hmin]
      exact units_mod (by omega) (by omega) (by omega)

theorem dvd_keysToCheck (iterations keysdone : Block) (n : U32) :
    16 ∣ (keysToCheck iterations keysdone n).toNat := (keysToCheck_spec iterations keysdone n).1

theorem keysToCheck_pos (iterations keysdone : Block) (n : U32) :
    0 < (keysToCheck iterations keysdone n).toNat := (keysToCheck_spec iterations keysdone n).2

/-! ## The run -/

/-- Count `n` keys, and take over the check block of the core. -/
def BigCrypto.count (b : BigCrypto) (n : U32) (check : CheckBlock) : BigCrypto :=
  { b with
    keysdone := addKeysdone b.keysdone n
    check := ⟨check.count, switchRC572Format check.key⟩ }

/-- The number of keys that a problem has the core test in a slice. -/
def Problem.keysToCheck (p : Problem) (n : U32) : U32 :=
  Hyunjin.keysToCheck p.contestwork.iterations p.contestwork.keysdone n

/-- Run the core once: the result code, the keys checked, and the problem, or `none` for an
error. -/
def runRC572 (core : Core) (p : Problem) (keyschecked : U32) :
    Option (Resultcode × U32 × Problem) :=
  let r := core p.unitwork (p.keysToCheck keyschecked)
  match r.rescode with
  | none => none
  | some rescode =>
    let refL0 := incrementKey p.refL0 r.iterations
    if refL0 ≠ r.work.L0 ∧ rescode ≠ .found then none
    else
      let b := p.contestwork.count r.iterations r.work.check
      let p := { p with contestwork := b, unitwork := r.work, refL0 := refL0 }
      if rescode = .found then
        let b := { b with key := advanceKey b.key b.keysdone }
        some (.found, r.iterations, { p with contestwork := b })
      else if b.Done then some (.nothing, r.iterations, p)
      else some (.working, r.iterations, p)

/-- Run a problem for its time slice, unless it is finished. -/
def problemRun (core : Core) (p : Problem) : Option Resultcode × Problem :=
  if p.initialized = false then (none, p)
  else if p.lastResultcode = some .working then
    match runRC572 core p p.tslice with
    | none => (none, p)
    | some (resultcode, iterations, q) =>
      (some resultcode, { q with tslice := iterations, lastResultcode := some resultcode })
  else (p.lastResultcode, p)

/-- The keys that a run has the core test, in order. -/
def testedKeys (p : Problem) : List Key72 :=
  if p.initialized = true ∧ p.lastResultcode = some .working then
    tested p.unitwork.verdict refKeyStep (p.keysToCheck p.tslice).toNat p.unitwork.L0
  else []

/-- What a slice shows: the return value of the run, and the keys tested. -/
structure SliceReport where
  rescode : Option Resultcode
  tested : List Key72
  deriving DecidableEq

/-- The cruncher sets the time slice and runs the problem. -/
def runSlice (core : Core) (tslice : U32) (p : Problem) : SliceReport × Problem :=
  let p := { p with tslice := tslice }
  let r := problemRun core p
  (⟨r.1, testedKeys p⟩, r.2)

end Hyunjin
