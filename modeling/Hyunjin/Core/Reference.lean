import Hyunjin.Core.RC5
import Mathlib.Data.Finset.Card

/-!
# The reference core

`rc572UnitFuncAnsiRef` tests one key at a time from `L0`, counting partial matches into the check
block as it goes, and stops at the first exact match. It is the bounded search of `Search.Linear`
over the orbit of `refKeyStep`, reported through `coreReturn`; every other core is compared with
that report.
-/

namespace Hyunjin

open Word Search

/-- The result codes of `ccoreio.h`. -/
inductive Resultcode
  | working
  | nothing
  | found
  deriving DecidableEq, Repr

/-- What a core call leaves behind: its return value (`none` is the negative error code), the unit
work, and `*iterations`. -/
structure CoreReturn where
  rescode : Option Resultcode
  work : RC572UnitWork
  iterations : U32
  deriving DecidableEq, Repr

/-- `++check.count` and a new check key for every match. -/
def CheckBlock.noteMatches (c : CheckBlock) (keys : List Key72) : CheckBlock :=
  keys.foldl (fun c key ↦ ⟨c.count + 1#32, key⟩) c

/-- The report a search outcome deserves. -/
def coreReturn (w : RC572UnitWork) (r : Outcome Key72) : CoreReturn where
  rescode := some (if r.found then .found else .nothing)
  work := { w with L0 := r.cursor, check := w.check.noteMatches r.matched }
  iterations := BitVec.ofNat 32 r.steps

/-! ## The loop -/

/-- The loop `while (kiter--)`. -/
def ansiRefLoop (iterations : U32) : ℕ → RC572UnitWork → CoreReturn
  | 0, w => ⟨some .nothing, w, iterations⟩
  | kiter + 1, w =>
    let c := refEncrypt w.plain w.L0
    if c.lo = w.cypher.lo then
      let w := { w with check := ⟨w.check.count + 1#32, w.L0⟩ }
      if c.hi = w.cypher.hi then
        ⟨some .found, w, iterations - BitVec.ofNat 32 (kiter + 1)⟩
      else ansiRefLoop iterations kiter { w with L0 := refKeyStep w.L0 }
    else ansiRefLoop iterations kiter { w with L0 := refKeyStep w.L0 }

def rc572UnitFuncAnsiRef (w : RC572UnitWork) (iterations : U32) : CoreReturn :=
  ansiRefLoop iterations iterations.toNat w

/-! ## The loop is a search -/

theorem verdict_eq_hit {plain cypher : Block} {key : Key72} :
    verdict plain cypher key = .hit ↔ (refEncrypt plain key).lo = cypher.lo ∧
      (refEncrypt plain key).hi = cypher.hi := by
  simp only [verdict]
  split_ifs <;> simp_all

theorem verdict_eq_miss {plain cypher : Block} {key : Key72} :
    verdict plain cypher key = .miss ↔ (refEncrypt plain key).lo ≠ cypher.lo := by
  simp only [verdict]
  split_ifs <;> simp_all

private theorem ansiRefLoop_eq (iterations : U32) (n : ℕ) (w : RC572UnitWork) :
    ansiRefLoop iterations n w =
      let r := search w.verdict refKeyStep n w.L0
      { coreReturn w r with
        iterations := if r.found then iterations - BitVec.ofNat 32 n + BitVec.ofNat 32 r.steps
          else iterations } := by
  induction n generalizing w with
  | zero => simp [ansiRefLoop, coreReturn, CheckBlock.noteMatches]
  | succ n ih =>
    have hcount (s : ℕ) : iterations - BitVec.ofNat 32 (n + 1) + BitVec.ofNat 32 (s + 1)
        = iterations - BitVec.ofNat 32 n + BitVec.ofNat 32 s := by
      rw [BitVec.ofNat_add, BitVec.ofNat_add]
      grind
    by_cases hlo : (refEncrypt w.plain w.L0).lo = w.cypher.lo
    · by_cases hhi : (refEncrypt w.plain w.L0).hi = w.cypher.hi
      · have hhit : w.verdict w.L0 = .hit := verdict_eq_hit.mpr ⟨hlo, hhi⟩
        simp [ansiRefLoop, hlo, hhi, search_succ_hit hhit, coreReturn, CheckBlock.noteMatches]
      · have hne : w.verdict w.L0 ≠ .hit := fun h ↦ hhi (verdict_eq_hit.mp h).2
        have hmiss : w.verdict w.L0 ≠ .miss := fun h ↦ verdict_eq_miss.mp h hlo
        rw [ansiRefLoop, if_pos hlo, if_neg hhi, ih, search_succ_of_ne hne]
        simp only [coreReturn, Outcome.passing, hcount, if_neg hmiss]
        rfl
    · have hmiss : w.verdict w.L0 = .miss := verdict_eq_miss.mpr hlo
      have hne : w.verdict w.L0 ≠ .hit := by rw [hmiss]; exact Verdict.noConfusion
      rw [ansiRefLoop, if_neg hlo, ih, search_succ_of_ne hne]
      simp only [coreReturn, Outcome.passing, hcount, if_pos hmiss]
      rfl

/-- **The reference core reports the search of the first `iterations` keys from `L0`.** -/
theorem rc572UnitFuncAnsiRef_eq (w : RC572UnitWork) (iterations : U32) :
    rc572UnitFuncAnsiRef w iterations =
      coreReturn w (search w.verdict refKeyStep iterations.toNat w.L0) := by
  rw [rc572UnitFuncAnsiRef, ansiRefLoop_eq]
  rcases hr : (search w.verdict refKeyStep iterations.toNat w.L0).found with _ | _
  · simp only [coreReturn, hr, steps_of_not_found hr, BitVec.ofNat_toNat, BitVec.setWidth_eq]
    rfl
  · simp [coreReturn, hr]

/-! ## Cyphertexts that no key gives -/

/-- A function takes less than `n + 1` values on the first `n` numbers. -/
private theorem exists_le_forall_ne (f : ℕ → ℕ) (n : ℕ) : ∃ m ≤ n, ∀ i < n, f i ≠ m := by
  have hcard : ((Finset.range n).image f).card < (Finset.range (n + 1)).card := by
    rw [Finset.card_range, Nat.lt_succ_iff]
    exact Finset.card_image_le.trans_eq (Finset.card_range n)
  obtain ⟨m, hm, hmiss⟩ := Finset.exists_mem_notMem_of_card_lt_card hcard
  refine ⟨m, Nat.lt_succ_iff.mp (Finset.mem_range.mp hm), ?_⟩
  intro i hi heq
  exact hmiss (Finset.mem_image.mpr ⟨i, Finset.mem_range.mpr hi, heq⟩)

/-- Some word is the high half of none of the first `n` cyphertexts: there are more words than
keys. -/
theorem exists_unmatched (plain : Block) (k : Key72) {n : ℕ} (hn : n < 2 ^ 32) :
    ∃ hi : U32, ∀ i < n, (refEncrypt plain (refKeyStep^[i] k)).hi ≠ hi := by
  obtain ⟨m, hm, hmiss⟩ :=
    exists_le_forall_ne (fun i ↦ (refEncrypt plain (refKeyStep^[i] k)).hi.toNat) n
  refine ⟨BitVec.ofNat 32 m, ?_⟩
  intro i hi heq
  apply hmiss i hi
  rw [heq, BitVec.toNat_ofNat, Nat.mod_eq_of_lt (by omega)]

/-- Some block is none of the first `n` cyphertexts: there are more blocks than keys. -/
theorem exists_unmatched_block (plain : Block) (k : Key72) {n : ℕ} (hn : n < 2 ^ 64) :
    ∃ cypher : Block, ∀ i < n, verdict plain cypher (refKeyStep^[i] k) ≠ .hit := by
  obtain ⟨m, hm, hmiss⟩ := exists_le_forall_ne (fun i ↦
    2 ^ 32 * (refEncrypt plain (refKeyStep^[i] k)).hi.toNat
      + (refEncrypt plain (refKeyStep^[i] k)).lo.toNat) n
  refine ⟨⟨BitVec.ofNat 32 (m / 2 ^ 32), BitVec.ofNat 32 m⟩, ?_⟩
  intro i hi hhit
  obtain ⟨hlo, hhi⟩ := verdict_eq_hit.mp hhit
  apply hmiss i hi
  simp only [hlo, hhi, BitVec.toNat_ofNat]
  omega

end Hyunjin
