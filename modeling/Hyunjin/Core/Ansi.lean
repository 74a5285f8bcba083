import Hyunjin.Core.Reference

/-!
# The pipelined ANSI cores

`rc572UnitFuncAnsi2` and `rc572UnitFuncAnsi4` encrypt with two and four keys in a round of their
loop. The statements for the pipes are interleaved in the source, but no pipe reads what another one
writes, so a pipe is an ordinary function of its key (`ansiEncrypt`). The key expansion is unrolled:
each `rotlBlock` takes the accumulators of `refMix` from the table and key words it wrote last.

The keys of a round share `mid` and `lo` and have consecutive `hi`, without a carry, which is right
when the first `hi` is a byte and a multiple of the number of pipes. The one thing a pipelined core
does otherwise than the reference core is what it leaves in `L0` at an exact match: the first key of
the round, not the key of the pipe that matched (`groupStart`).
-/

namespace Hyunjin

open Word Search
open scoped Table

/-! ## One pipe -/

/-- The table and the key words of one pipe. -/
structure AnsiPipe where
  S : Vector U32 26
  L : Vector U32 3

/-- The assignments to `L` and the `KEY_INIT`s. -/
def ansiKeyInit (key : Key72) : AnsiPipe where
  S := Vector.ofFn fun i ↦ RC5_P + BitVec.ofNat 32 i * RC5_Q
  L := ⟨#[key.lo, key.mid, key.hi], Table.size_words key⟩

/-- The first step of the expansion, where both accumulators are zero. -/
def rotlFirst (p : AnsiPipe) : AnsiPipe :=
  let s := ROTL3 (getElem p.S 0 Table.zero_lt)
  { S := p.S.set 0 s Table.zero_lt
    L := p.L.set 0 (ROTL (getElem p.L 0 Table.words_pos + s) s) Table.words_pos }

/-- `ROTL_BLOCK(i,j)`, and `ROTL_BLOCK_i0_j1` and `ROTL_BLOCK_i0_j2` at `i = 0`: the index before
the first is the last one. -/
def rotlBlock (p : AnsiPipe) (b : Fin 26 × Fin 3) : AnsiPipe :=
  let l := getElem p.L (b.2 - 1) (Table.snd_sub_lt b)
  let s := ROTL3 (getElem p.S b.1 (Table.fst_lt b) +
    (getElem p.S (b.1 - 1) (Table.fst_sub_lt b) + l))
  { S := p.S.set b.1 s (Table.fst_lt b)
    L := p.L.set b.2 (ROTL (getElem p.L b.2 (Table.snd_lt b) + (s + l)) (s + l))
      (Table.snd_lt b) }

/-- The blocks after the first step, in the order in which they are written out. -/
def rotlBlocks : List (Fin 26 × Fin 3) :=
  [(1, 1), (2, 2), (3, 0), (4, 1), (5, 2), (6, 0), (7, 1), (8, 2), (9, 0), (10, 1), (11, 2),
    (12, 0), (13, 1), (14, 2), (15, 0), (16, 1), (17, 2), (18, 0), (19, 1), (20, 2), (21, 0),
    (22, 1), (23, 2), (24, 0), (25, 1),
    (0, 2), (1, 0), (2, 1), (3, 2), (4, 0), (5, 1), (6, 2), (7, 0), (8, 1), (9, 2), (10, 0),
    (11, 1), (12, 2), (13, 0), (14, 1), (15, 2), (16, 0), (17, 1), (18, 2), (19, 0), (20, 1),
    (21, 2), (22, 0), (23, 1), (24, 2), (25, 0),
    (0, 1), (1, 2), (2, 0), (3, 1), (4, 2), (5, 0), (6, 1), (7, 2), (8, 0), (9, 1), (10, 2),
    (11, 0), (12, 1), (13, 2), (14, 0), (15, 1), (16, 2), (17, 0), (18, 1), (19, 2), (20, 0),
    (21, 1), (22, 2), (23, 0), (24, 1), (25, 2)]

def ansiExpand (key : Key72) : Vector U32 26 :=
  (rotlBlocks.foldl rotlBlock (rotlFirst (ansiKeyInit key))).S

/-- `FINAL_BLOCK` has the text of the reference core's round. -/
def finalBlock (S : Vector U32 26) : Block → Fin 12 → Block := refRound S

def ansiEncrypt (plain : Block) (key : Key72) : Block :=
  let S := ansiExpand key
  (List.finRange 12).foldl (finalBlock S) ⟨plain.hi + getElem S 1 Table.one_lt,
    plain.lo + getElem S 0 Table.zero_lt⟩

/-! ## The cores -/

/-- The key of pipe `k` in a round that starts at `L0`. -/
def pipeKey (L0 : Key72) (k : ℕ) : Key72 := { L0 with hi := L0.hi + BitVec.ofNat 32 k }

/-- The comparisons at the end of a round, pipe by pipe. `kiter` is the down-counter after its
decrement and `next` what follows when no pipe matches exactly. -/
def ansiCompare (pipes : ℕ) (iterations : U32) (kiter : ℕ) (next : RC572UnitWork → CoreReturn) :
    List ℕ → RC572UnitWork → CoreReturn
  | [], w => next w
  | k :: ks, w =>
    let c := ansiEncrypt w.plain (pipeKey w.L0 k)
    if c.lo = w.cypher.lo then
      let w := { w with check := ⟨w.check.count + 1#32, pipeKey w.L0 k⟩ }
      if c.hi = w.cypher.hi then
        ⟨some .found, w, iterations -
          ((BitVec.ofNat 32 kiter + 1#32) * BitVec.ofNat 32 pipes - BitVec.ofNat 32 k)⟩
      else ansiCompare pipes iterations kiter next ks w
    else ansiCompare pipes iterations kiter next ks w

/-- The key step of a pipelined core: the reference core's, but `hi` moves on by a whole round. -/
def ansiKeyStep (pipes : ℕ) (key : Key72) : Key72 :=
  let hi := (key.hi + BitVec.ofNat 32 pipes) &&& 0x000000FF#32
  if hi = 0#32 then
    let mid := key.mid + 0x01000000#32
    if mid &&& 0xFF000000#32 = 0#32 then
      let mid := (mid + 0x00010000#32) &&& 0x00FFFFFF#32
      if mid &&& 0x00FF0000#32 = 0#32 then
        let mid := (mid + 0x00000100#32) &&& 0x0000FFFF#32
        if mid &&& 0x0000FF00#32 = 0#32 then
          let mid := (mid + 0x00000001#32) &&& 0x000000FF#32
          if mid = 0#32 then
            let lo := key.lo + 0x01000000#32
            if lo &&& 0xFF000000#32 = 0#32 then
              let lo := (lo + 0x00010000#32) &&& 0x00FFFFFF#32
              if lo &&& 0x00FF0000#32 = 0#32 then
                let lo := (lo + 0x00000100#32) &&& 0x0000FFFF#32
                if lo &&& 0x0000FF00#32 = 0#32 then
                  ⟨hi, mid, (lo + 0x00000001#32) &&& 0x000000FF#32⟩
                else ⟨hi, mid, lo⟩
              else ⟨hi, mid, lo⟩
            else ⟨hi, mid, lo⟩
          else ⟨hi, mid, key.lo⟩
        else ⟨hi, mid, key.lo⟩
      else ⟨hi, mid, key.lo⟩
    else ⟨hi, mid, key.lo⟩
  else ⟨hi, key.mid, key.lo⟩

/-- The loop `while (kiter--)` of a pipelined core. -/
def ansiLoop (pipes : ℕ) (iterations : U32) : ℕ → RC572UnitWork → CoreReturn
  | 0, w => ⟨some .nothing, w, iterations⟩
  | kiter + 1, w =>
    ansiCompare pipes iterations kiter
      (fun w ↦ ansiLoop pipes iterations kiter { w with L0 := ansiKeyStep pipes w.L0 })
      (List.range pipes) w

def rc572UnitFuncAnsi2 (w : RC572UnitWork) (iterations : U32) : CoreReturn :=
  ansiLoop 2 iterations (iterations / 2#32).toNat w

def rc572UnitFuncAnsi4 (w : RC572UnitWork) (iterations : U32) : CoreReturn :=
  ansiLoop 4 iterations (iterations / 4#32).toNat w

/-! ## A pipe encrypts as the reference core does -/

/-- A pipe that has come as far as a schedule: the accumulators are the words written last. -/
private structure AnsiPipe.Follows (p : AnsiPipe) (s : Schedule) : Prop where
  S : p.S = s.S
  L : p.L = s.L
  A : s.A = s.S[s.i - 1]
  B : s.B = s.L[s.j - 1]

private theorem fin26_add_sub (i : Fin 26) : i + 1 - 1 = i := by
  revert i
  decide

private theorem fin3_add_sub (j : Fin 3) : j + 1 - 1 = j := by
  revert j
  decide

/-- Writing at the cursor puts the new accumulator just behind the next cursor. -/
private theorem follows_mixed (S : Vector U32 26) (L : Vector U32 3) (A B : U32) (i : Fin 26)
    (j : Fin 3) : AnsiPipe.Follows ⟨S.set i A, L.set j B⟩
      { S := S.set i A, L := L.set j B, A := A, B := B, i := i + 1, j := j + 1 } where
  S := rfl
  L := rfl
  A := by
    simp only [fin26_add_sub]
    exact (Vector.getElem_set_self i.isLt).symm
  B := by
    simp only [fin3_add_sub]
    exact (Vector.getElem_set_self j.isLt).symm

private theorem AnsiPipe.Follows.rotlBlock {p : AnsiPipe} {s : Schedule} (h : p.Follows s) :
    (Hyunjin.rotlBlock p (s.i, s.j)).Follows (refMix s) := by
  obtain ⟨S, L⟩ := p
  obtain ⟨hS, hL, hA, hB⟩ := h
  simp only at hS hL
  subst hS hL
  simp only [Hyunjin.rotlBlock, refMix, ← hA, ← hB]
  exact follows_mixed _ _ _ _ _ _

private theorem follows_rotlFirst (key : Key72) : (rotlFirst (ansiKeyInit key)).Follows
    (refMix ⟨refTable, #v[key.lo, key.mid, key.hi], 0, 0, 0, 0⟩) := by
  have htable : Vector.ofFn (fun i : Fin 26 ↦ RC5_P + BitVec.ofNat 32 i * RC5_Q) = refTable :=
    hyTable_eq
  have hzero (x : U32) : x + 0 = x := BitVec.add_zero x
  simp only [rotlFirst, ansiKeyInit, htable, refMix, hzero]
  exact follows_mixed _ _ _ _ 0 0

/-- The cursors of `n` steps of `refMix`. -/
private def cursors : ℕ → Fin 26 → Fin 3 → List (Fin 26 × Fin 3)
  | 0, _, _ => []
  | n + 1, i, j => (i, j) :: cursors n (i + 1) (j + 1)

private theorem rotlBlocks_eq : rotlBlocks = cursors 77 1 1 := by decide

private theorem follows_foldl (n : ℕ) {p : AnsiPipe} {s : Schedule} (h : p.Follows s)
    {i : Fin 26} {j : Fin 3} (hi : s.i = i) (hj : s.j = j) :
    ((cursors n i j).foldl rotlBlock p).Follows (refMix^[n] s) := by
  induction n generalizing p s i j with
  | zero => exact h
  | succ n ih =>
    subst hi hj
    exact ih h.rotlBlock rfl rfl

theorem ansiExpand_eq (key : Key72) : ansiExpand key = refExpand key := by
  have hsteps : 3 * 26 = 77 + 1 := rfl
  rw [ansiExpand, refExpand, rotlBlocks_eq, hsteps, Function.iterate_succ_apply]
  exact (follows_foldl 77 (follows_rotlFirst key) rfl rfl).S

/-- **A pipe and the reference core encrypt alike.** -/
theorem ansiEncrypt_eq (plain : Block) (key : Key72) :
    ansiEncrypt plain key = refEncrypt plain key := by
  simp only [ansiEncrypt, refEncrypt, ansiExpand_eq, finalBlock]

/-! ## The keys of a round -/

/-- The first key of the round in which `key` is tested. -/
def groupStart (pipes : ℕ) (key : Key72) : Key72 :=
  { key with hi := key.hi - key.hi % BitVec.ofNat 32 pipes }

/-- A key at which a round may start. -/
private structure RoundStart (pipes : ℕ) (key : Key72) : Prop where
  valid : key.Valid
  dvd : pipes ∣ key.hi.toNat

private theorem refKeyStep_of_lt {k : Key72} (h : k.hi.toNat + 1 < 256) :
    refKeyStep k = { k with hi := k.hi + 0x01#32 } := by
  have hsum : (k.hi + 0x01#32).toNat = k.hi.toNat + 1 := by
    rw [BitVec.toNat_add, BitVec.toNat_ofNat]
    omega
  have hmask : (k.hi + 0x01#32) &&& 0x000000FF#32 = k.hi + 0x01#32 := by
    refine BitVec.eq_of_toNat_eq ?_
    rw [BitVec.toNat_and, hsum]
    exact (Nat.and_two_pow_sub_one_eq_mod _ 8).trans (Nat.mod_eq_of_lt h)
  have hne : k.hi + 0x01#32 ≠ 0#32 := by
    intro h0
    rw [h0] at hsum
    exact Nat.succ_ne_zero _ hsum.symm
  simp only [refKeyStep, hmask, if_neg hne]

/-- The keys of a round are consecutive: there is no carry while `hi` stays a byte. -/
private theorem iterate_refKeyStep {k : Key72} {i : ℕ} (h : k.hi.toNat + i < 256) :
    refKeyStep^[i] k = pipeKey k i := by
  induction i with
  | zero => simp [pipeKey]
  | succ i ih =>
    have hhi : (pipeKey k i).hi.toNat = k.hi.toNat + i := by
      rw [pipeKey, BitVec.toNat_add, BitVec.toNat_ofNat]
      omega
    rw [Function.iterate_succ_apply', ih (by omega), refKeyStep_of_lt (by omega)]
    simp only [pipeKey, BitVec.ofNat_add, BitVec.add_assoc]

section Round

variable {n : ℕ} (hn : n ∣ 256)

include hn

private theorem RoundStart.add_lt {k : Key72} (hk : RoundStart n k) {i : ℕ} (hi : i < n) :
    k.hi.toNat + i < 256 := by
  obtain ⟨a, ha⟩ := hk.dvd
  obtain ⟨b, hb⟩ := hn
  have hlt : k.hi.toNat < 256 := hk.valid
  have hab : a < b := Nat.lt_of_mul_lt_mul_left (a := n) (by omega)
  have hle : n * (a + 1) ≤ n * b := Nat.mul_le_mul_left n hab
  rw [Nat.mul_succ] at hle
  omega

private theorem RoundStart.pipeKey_eq {k : Key72} (hk : RoundStart n k) {i : ℕ} (hi : i < n) :
    pipeKey k i = refKeyStep^[i] k :=
  (iterate_refKeyStep (hk.add_lt hn hi)).symm

/-- Any key of the round leads back to its first. -/
private theorem RoundStart.groupStart_iterate {k : Key72} (hk : RoundStart n k) {i : ℕ}
    (hi : i < n) : groupStart n (refKeyStep^[i] k) = k := by
  have hle : n ≤ 256 := Nat.le_of_dvd (by decide) hn
  have hlt := hk.add_lt hn hi
  have hsum : (k.hi + BitVec.ofNat 32 i).toNat = k.hi.toNat + i := by
    rw [BitVec.toNat_add, BitVec.toNat_ofNat]
    omega
  have hmod : ((k.hi + BitVec.ofNat 32 i) % BitVec.ofNat 32 n) = BitVec.ofNat 32 i := by
    refine BitVec.eq_of_toNat_eq ?_
    rw [BitVec.toNat_umod, hsum, BitVec.toNat_ofNat, BitVec.toNat_ofNat,
      Nat.mod_eq_of_lt (b := 2 ^ 32) (by omega), Nat.mod_eq_of_lt (b := 2 ^ 32) (by omega),
      Nat.add_mod, Nat.mod_eq_zero_of_dvd hk.dvd, Nat.zero_add, Nat.mod_mod, Nat.mod_eq_of_lt hi]
  rw [← hk.pipeKey_eq hn hi, groupStart, pipeKey, hmod, BitVec.add_sub_cancel]

private theorem ansiKeyStep_eq (hpos : 0 < n) {k : Key72} (hk : RoundStart n k) :
    ansiKeyStep n k = refKeyStep^[n] k := by
  obtain ⟨m, rfl⟩ := Nat.exists_eq_succ_of_ne_zero hpos.ne'
  have hhi : k.hi + BitVec.ofNat 32 (m + 1) = k.hi + BitVec.ofNat 32 m + 0x01#32 := by
    rw [BitVec.ofNat_add, BitVec.add_assoc]
  rw [Function.iterate_succ_apply', ← hk.pipeKey_eq hn m.lt_succ_self]
  simp only [ansiKeyStep, Nat.succ_eq_add_one, hhi]
  rfl

private theorem RoundStart.next {k : Key72} (hk : RoundStart n k) :
    RoundStart n (ansiKeyStep n k) := by
  have hhi : (ansiKeyStep n k).hi = (k.hi + BitVec.ofNat 32 n) &&& 0x000000FF#32 := by
    simp only [ansiKeyStep]
    split_ifs <;> rfl
  have hle : n ≤ 256 := Nat.le_of_dvd (by decide) hn
  have hlt : k.hi.toNat < 256 := hk.valid
  have hval : (ansiKeyStep n k).hi.toNat = (k.hi.toNat + n) % 256 := by
    rw [hhi, BitVec.toNat_and]
    refine (Nat.and_two_pow_sub_one_eq_mod _ 8).trans ?_
    rw [BitVec.toNat_add, BitVec.toNat_ofNat]
    omega
  constructor
  · rw [Key72.Valid, hval]
    exact Nat.mod_lt _ (by decide)
  · rw [hval]
    exact (Nat.dvd_mod_iff hn).mpr (Nat.dvd_add hk.dvd (Nat.dvd_refl n))

private theorem RoundStart.iterate (hpos : 0 < n) {k : Key72} (hk : RoundStart n k) (m : ℕ) :
    RoundStart n (refKeyStep^[n * m] k) := by
  induction m with
  | zero => exact hk
  | succ m ih =>
    rw [Nat.mul_succ, Nat.add_comm, Function.iterate_add_apply, ← ansiKeyStep_eq hn hpos ih]
    exact ih.next hn

end Round

/-! ## A pipelined core is a search -/

/-- The comparisons of a round report the search of its keys, with `L0` left where the round
began. -/
private theorem ansiCompare_eq {pipes : ℕ} (hp : pipes ∣ 256) (iterations : U32) (kiter : ℕ)
    (next : RC572UnitWork → CoreReturn) (n a : ℕ) (w : RC572UnitWork) (hL0 : RoundStart pipes w.L0)
    (ha : a + n ≤ pipes) :
    ansiCompare pipes iterations kiter next (List.range' a n) w =
      let r := search w.verdict refKeyStep n (refKeyStep^[a] w.L0)
      let w := { w with check := w.check.noteMatches r.matched }
      if r.found then ⟨some .found, w, iterations -
        ((BitVec.ofNat 32 kiter + 1#32) * BitVec.ofNat 32 pipes - BitVec.ofNat 32 (a + r.steps))⟩
      else next w := by
  induction n generalizing a w with
  | zero => simp [ansiCompare, CheckBlock.noteMatches]
  | succ n ih =>
    have hkey := hL0.pipeKey_eq hp (i := a) (by omega)
    have hnext : refKeyStep (refKeyStep^[a] w.L0) = refKeyStep^[a + 1] w.L0 :=
      (Function.iterate_succ_apply' ..).symm
    rw [List.range'_succ, ansiCompare, hkey, ansiEncrypt_eq]
    by_cases hlo : (refEncrypt w.plain (refKeyStep^[a] w.L0)).lo = w.cypher.lo
    · by_cases hhi : (refEncrypt w.plain (refKeyStep^[a] w.L0)).hi = w.cypher.hi
      · have hhit : w.verdict (refKeyStep^[a] w.L0) = .hit := verdict_eq_hit.mpr ⟨hlo, hhi⟩
        simp only [if_pos hlo, if_pos hhi, search_succ_hit hhit]
        rfl
      · have hne : w.verdict (refKeyStep^[a] w.L0) ≠ .hit := fun h ↦ hhi (verdict_eq_hit.mp h).2
        have hmiss : w.verdict (refKeyStep^[a] w.L0) ≠ .miss := fun h ↦ verdict_eq_miss.mp h hlo
        have hrest := ih (a + 1) { w with check := ⟨w.check.count + 1#32, refKeyStep^[a] w.L0⟩ } hL0
          (by omega)
        rw [if_pos hlo, if_neg hhi, hrest, search_succ_of_ne hne, hnext]
        simp only [Outcome.passing, if_neg hmiss, Nat.add_right_comm a 1, Nat.add_assoc]
        rfl
    · have hmiss : w.verdict (refKeyStep^[a] w.L0) = .miss := verdict_eq_miss.mpr hlo
      have hne : w.verdict (refKeyStep^[a] w.L0) ≠ .hit := by rw [hmiss]; exact Verdict.noConfusion
      rw [if_neg hlo, ih (a + 1) _ hL0 (by omega), search_succ_of_ne hne, hnext]
      simp only [Outcome.passing, if_pos hmiss, Nat.add_right_comm a 1, Nat.add_assoc]

/-- What a pipelined core reports of a search: `coreReturn`, but for `L0`. -/
private def pipedReturn (pipes : ℕ) (w : RC572UnitWork) (r : Outcome Key72) : CoreReturn :=
  { coreReturn w r with work := { (coreReturn w r).work with L0 := groupStart pipes r.cursor } }

private theorem ansiLoop_eq {pipes : ℕ} (hp : pipes ∣ 256) (iterations : U32) (kiter : ℕ)
    (w : RC572UnitWork) (hL0 : RoundStart pipes w.L0) :
    ansiLoop pipes iterations kiter w =
      let r := search w.verdict refKeyStep (pipes * kiter) w.L0
      { pipedReturn pipes w r with
        iterations := if r.found then
            iterations - BitVec.ofNat 32 (pipes * kiter) + BitVec.ofNat 32 r.steps
          else iterations } := by
  have hpos : 0 < pipes := Nat.pos_of_dvd_of_pos hp (by decide)
  induction kiter generalizing w with
  | zero =>
    have hstart : groupStart pipes w.L0 = w.L0 := hL0.groupStart_iterate hp hpos (i := 0)
    simp [ansiLoop, pipedReturn, coreReturn, CheckBlock.noteMatches, hstart]
  | succ kiter ih =>
    have hcount : (BitVec.ofNat 32 kiter + 1#32) * BitVec.ofNat 32 pipes
        = BitVec.ofNat 32 (pipes + pipes * kiter) := by
      rw [BitVec.ofNat_add, BitVec.ofNat_mul]
      grind
    rw [ansiLoop, List.range_eq_range', ansiCompare_eq hp _ _ _ _ _ _ hL0 (Nat.zero_add _).le,
      Nat.mul_succ, Nat.add_comm _ pipes, search_add, hcount]
    simp only [Function.iterate_zero_apply, Nat.zero_add]
    have hcursor : (search w.verdict refKeyStep pipes w.L0).cursor = refKeyStep^[_] w.L0 :=
      cursor_search pipes w.L0
    generalize hr : search w.verdict refKeyStep pipes w.L0 = r at hcursor ⊢
    rcases hf : r.found with _ | _
    · have hsteps : r.steps = pipes := by
        rw [← hr]
        exact steps_of_not_found (hr ▸ hf)
      rw [hsteps, ← ansiKeyStep_eq hp hpos hL0] at hcursor
      have hadd (s : ℕ) : iterations - BitVec.ofNat 32 (pipes + pipes * kiter)
          + BitVec.ofNat 32 (pipes + s)
          = iterations - BitVec.ofNat 32 (pipes * kiter) + BitVec.ofNat 32 s := by
        rw [BitVec.ofNat_add, BitVec.ofNat_add]
        grind
      rw [if_neg Bool.false_ne_true, ih _ (hL0.next hp), Outcome.andThen, hf, hsteps, hcursor]
      simp only [pipedReturn, coreReturn, CheckBlock.noteMatches, Bool.false_eq_true, if_false,
        List.foldl_append, hadd]
      rfl
    · have hlt : r.steps < pipes := by
        rw [← hr]
        exact (found_iff_cursor.mp (hr ▸ hf)).1
      have hstart : groupStart pipes r.cursor = w.L0 := by
        rw [hcursor]
        exact hL0.groupStart_iterate hp hlt
      rw [if_pos rfl, Outcome.andThen_of_found hf, hf, if_pos rfl, pipedReturn, hstart]
      simp only [coreReturn, hf, if_true]
      congr 1
      grind

/-- **A pipelined core reports the search of the first `iterations` keys from `L0`,** when these are
whole rounds. -/
private theorem ansiLoop_whole {pipes : ℕ} (hp : pipes ∣ 256) {iterations : U32}
    (hiter : pipes ∣ iterations.toNat) {w : RC572UnitWork} (hL0 : RoundStart pipes w.L0) :
    ansiLoop pipes iterations (iterations.toNat / pipes) w =
      pipedReturn pipes w (search w.verdict refKeyStep iterations.toNat w.L0) := by
  rw [ansiLoop_eq hp _ _ _ hL0, Nat.mul_div_cancel' hiter]
  generalize hr : search w.verdict refKeyStep iterations.toNat w.L0 = r
  rcases hf : r.found with _ | _
  · have hsteps : r.steps = iterations.toNat := by
      rw [← hr]
      exact steps_of_not_found (hr ▸ hf)
    simp only [pipedReturn, coreReturn, hf, hsteps, BitVec.ofNat_toNat, BitVec.setWidth_eq]
    rfl
  · simp [pipedReturn, coreReturn, hf]

/-! ## The cores agree -/

/-- A pipelined core's report beside the reference core's. They are the same, but at an exact match
the pipelined core leaves in `L0` the first key of the round in which the match is. -/
structure SameReport (pipes : ℕ) (r ref : CoreReturn) : Prop where
  rescode : r.rescode = ref.rescode
  iterations : r.iterations = ref.iterations
  check : r.work.check = ref.work.check
  blocks : r.work.plain = ref.work.plain ∧ r.work.cypher = ref.work.cypher
  L0 : r.work.L0 =
    if ref.rescode = some .found then groupStart pipes ref.work.L0 else ref.work.L0

private theorem sameReport_pipedReturn {pipes : ℕ} (hp : pipes ∣ 256) {iterations : U32}
    (hiter : pipes ∣ iterations.toNat) {w : RC572UnitWork} (hL0 : RoundStart pipes w.L0) :
    SameReport pipes
      (pipedReturn pipes w (search w.verdict refKeyStep iterations.toNat w.L0))
      (rc572UnitFuncAnsiRef w iterations) := by
  rw [rc572UnitFuncAnsiRef_eq]
  refine ⟨rfl, rfl, rfl, ⟨rfl, rfl⟩, ?_⟩
  have hpos : 0 < pipes := Nat.pos_of_dvd_of_pos hp (by decide)
  have hcursor : (search w.verdict refKeyStep iterations.toNat w.L0).cursor
      = refKeyStep^[_] w.L0 := cursor_search iterations.toNat w.L0
  obtain ⟨m, hm⟩ := hiter
  generalize hr : search w.verdict refKeyStep iterations.toNat w.L0 = r at hcursor ⊢
  rcases hf : r.found with _ | _
  · -- without a match the cursor has gone by whole rounds
    have hsteps : r.steps = pipes * m := by
      rw [← hr, ← hm]
      exact steps_of_not_found (hr ▸ hf)
    have hstart : RoundStart pipes r.cursor := by
      rw [hcursor, hsteps]
      exact hL0.iterate hp hpos m
    simp only [pipedReturn, coreReturn, hf, Bool.false_eq_true, if_false]
    exact hstart.groupStart_iterate hp hpos (i := 0)
  · simp only [pipedReturn, coreReturn, hf, if_true]

private theorem dvd_of_umod_eq_zero {x : U32} {n : ℕ} (hn : n < 2 ^ 32)
    (h : x % BitVec.ofNat 32 n = 0#32) : n ∣ x.toNat := by
  have hval := congrArg BitVec.toNat h
  rw [BitVec.toNat_umod, BitVec.toNat_ofNat, Nat.mod_eq_of_lt hn] at hval
  exact Nat.dvd_of_mod_eq_zero hval

/-- **The pipelined cores report what the reference core reports,** from any key whose `hi` is a
byte and starts a round, for any number of whole rounds. -/
theorem sameReport_ansi (w : RC572UnitWork) (iterations : U32) (hbyte : w.L0.hi ≤ 0xff#32) :
    (w.L0.hi % 4#32 = 0#32 → iterations % 4#32 = 0#32 →
      SameReport 4 (rc572UnitFuncAnsi4 w iterations) (rc572UnitFuncAnsiRef w iterations)) ∧
    (w.L0.hi % 2#32 = 0#32 → iterations % 2#32 = 0#32 →
      SameReport 2 (rc572UnitFuncAnsi2 w iterations) (rc572UnitFuncAnsiRef w iterations)) := by
  have hvalid : w.L0.Valid := Nat.lt_succ_of_le (BitVec.le_def.mp hbyte)
  constructor
  · intro hhi hiter
    have hL0 : RoundStart 4 w.L0 := ⟨hvalid, dvd_of_umod_eq_zero (by decide) hhi⟩
    have hwhole : 4 ∣ iterations.toNat := dvd_of_umod_eq_zero (by decide) hiter
    rw [rc572UnitFuncAnsi4, BitVec.toNat_udiv]
    exact ansiLoop_whole (by decide) hwhole hL0 ▸ sameReport_pipedReturn (by decide) hwhole hL0
  · intro hhi hiter
    have hL0 : RoundStart 2 w.L0 := ⟨hvalid, dvd_of_umod_eq_zero (by decide) hhi⟩
    have hwhole : 2 ∣ iterations.toNat := dvd_of_umod_eq_zero (by decide) hiter
    rw [rc572UnitFuncAnsi2, BitVec.toNat_udiv]
    exact ansiLoop_whole (by decide) hwhole hL0 ▸ sameReport_pipedReturn (by decide) hwhole hL0

/-- The block of the self-test, whose key has `hi = 0x85`, searched from the round before it. -/
def selfTestRound : RC572UnitWork where
  plain := ⟨0x2FF17AF3#32, 0x3F3CA653#32⟩
  cypher := ⟨0x2FB7852A#32, 0x562D285A#32⟩
  L0 := ⟨0x84#32, 0xFEE1D4C0#32, 0x53030CC9#32⟩
  check := ⟨0#32, ⟨0#32, 0#32, 0#32⟩⟩

theorem sameReport_ansi_selfTest :
    SameReport 4 (rc572UnitFuncAnsi4 selfTestRound 4#32) (rc572UnitFuncAnsiRef selfTestRound 4#32) ∧
    SameReport 2 (rc572UnitFuncAnsi2 selfTestRound 4#32)
      (rc572UnitFuncAnsiRef selfTestRound 4#32) := by
  have h := sameReport_ansi selfTestRound 4#32 (by decide)
  exact ⟨h.1 (by decide) (by decide), h.2 (by decide) (by decide)⟩

/-- A pipelined core leaves exactly what the reference core leaves. -/
def LeavesTheSame (pipes : ℕ) (core : RC572UnitWork → U32 → CoreReturn) : Prop :=
  ∀ (w : RC572UnitWork) (iterations : U32), w.L0.hi ≤ 0xff#32 →
    w.L0.hi % BitVec.ofNat 32 pipes = 0#32 → 0#32 < iterations →
    iterations % BitVec.ofNat 32 pipes = 0#32 →
    (core w iterations).rescode = (rc572UnitFuncAnsiRef w iterations).rescode ∧
    (core w iterations).iterations = (rc572UnitFuncAnsiRef w iterations).iterations ∧
    (core w iterations).work.L0 = (rc572UnitFuncAnsiRef w iterations).work.L0 ∧
    (core w iterations).work.check = (rc572UnitFuncAnsiRef w iterations).work.check

/-- The match is in the second pipe: the reference core stops at it, a pipelined core at the first
key of the round. -/
theorem not_leavesTheSame_ansi :
    ¬LeavesTheSame 4 rc572UnitFuncAnsi4 ∧ ¬LeavesTheSame 2 rc572UnitFuncAnsi2 := by
  constructor
  · intro h
    have hL0 := (h selfTestRound 4#32 (by decide) (by decide) (by decide) (by decide)).2.2.1
    exact absurd hL0 (by decide +kernel)
  · intro h
    have hL0 := (h selfTestRound 4#32 (by decide) (by decide) (by decide) (by decide)).2.2.1
    exact absurd hL0 (by decide +kernel)

end Hyunjin
