import Hyunjin.Problem.Resume

/-!
# The winning key

When the core reports a match, the run counts the keys and puts the key at which the core stopped
into the packet. It does not take it from the core, but adds the count to the key of the packet once
more (`advanceKey`), with carries of its own, without the mask that a load puts on the top word, and
with a count of 64 bits. The carries are right (`int_advanceKey`). The key is that of the core as
long as neither the count nor the key runs over (`winnerOk_iff`).
-/

namespace Hyunjin

/-- The key of the packet is `n` keys after offset `keysdone`, and the one that the core holds. -/
structure WinnerOk (p q : Problem) (n : ℕ) : Prop where
  int : q.contestwork.key.int =
    (p.contestwork.key.int + p.contestwork.keysdone.int + n) % 2 ^ 72
  hi : q.contestwork.key.hi.toNat ≤ 0xFF
  unmangled : q.contestwork.key = switchRC572Format q.unitwork.L0

/-- A problem after a run in which the core has found a key. -/
def Problem.won (p : Problem) (r : CoreReturn) : Problem :=
  let b := p.contestwork.count r.iterations r.work.check
  { p with
    contestwork := { b with key := advanceKey b.key b.keysdone }
    unitwork := r.work
    refL0 := incrementKey p.refL0 r.iterations }

/-- A match is taken over without the comparison of the reference key. -/
theorem runRC572_of_found {core : Core} {p : Problem} {requested : U32}
    (hfound : (core p.unitwork (p.keysToCheck requested)).rescode = some .found) :
    runRC572 core p requested =
      some (.found, (core p.unitwork (p.keysToCheck requested)).iterations,
        p.won (core p.unitwork (p.keysToCheck requested))) := by
  simp only [runRC572, hfound, ne_eq, not_true_eq_false, and_false, if_false, if_true]
  rfl

/-- **The winning key is right exactly if** neither the count nor the key runs over. -/
theorem winnerOk_iff {core : Core} {p : Problem} {requested : U32}
    (hkey : p.contestwork.key.hi.toNat ≤ 0xFF)
    (hL0 : p.unitwork.L0 = switchRC572Format
      (Key72.ofInt ((p.contestwork.key.int + p.contestwork.keysdone.int) % 2 ^ 72)))
    (hfound : (core p.unitwork (p.keysToCheck requested)).rescode = some .found)
    (hleft : (core p.unitwork (p.keysToCheck requested)).work.L0 =
      refKeyStep^[(core p.unitwork (p.keysToCheck requested)).iterations.toNat] p.unitwork.L0) :
    ∃ n q, runRC572 core p requested = some (.found, n, q) ∧
      n = (core p.unitwork (p.keysToCheck requested)).iterations ∧
      (WinnerOk p q n.toNat ↔
        p.contestwork.keysdone.int + n.toNat < 2 ^ 64 ∧
          p.contestwork.key.int + p.contestwork.keysdone.int + n.toNat < 2 ^ 72) := by
  refine ⟨_, _, runRC572_of_found hfound, rfl, ?_⟩
  generalize core p.unitwork (p.keysToCheck requested) = r at hleft
  have hlt := Key72.int_lt (k := p.contestwork.key) (Nat.lt_succ_of_le hkey)
  have hdone := p.contestwork.keysdone.int_lt
  have hn := r.iterations.isLt
  -- the key that is stored, and the one that the core holds
  have hstored : (p.won r).contestwork.key.int =
      p.contestwork.key.int + (p.contestwork.keysdone.int + r.iterations.toNat) % 2 ^ 64 := by
    change (advanceKey p.contestwork.key (addKeysdone p.contestwork.keysdone r.iterations)).int = _
    rw [int_advanceKey, int_addKeysdone]
    omega
  have hvalid := valid_switchRC572Format
    (Key72.ofInt ((p.contestwork.key.int + p.contestwork.keysdone.int) % 2 ^ 72))
  have hheld : (switchRC572Format (p.won r).unitwork.L0).int =
      (p.contestwork.key.int + p.contestwork.keysdone.int + r.iterations.toNat) % 2 ^ 72 := by
    change (switchRC572Format r.work.L0).int = _
    rw [hleft, hL0, int_switchRC572Format (valid_iterate_refKeyStep hvalid _),
      index_iterate_refKeyStep hvalid, index_switchRC572Format, Key72.int_ofInt (by omega)]
    omega
  constructor
  · rintro ⟨hint, hhi, -⟩
    have hstored' := Key72.int_lt (k := (p.won r).contestwork.key) (Nat.lt_succ_of_le hhi)
    omega
  · rintro ⟨hcount, hsum⟩
    rw [Nat.mod_eq_of_lt hcount] at hstored
    have hint : (p.won r).contestwork.key.int =
        (p.contestwork.key.int + p.contestwork.keysdone.int + r.iterations.toNat) % 2 ^ 72 := by
      omega
    refine ⟨hint, ?_, Key72.int_inj (hint.trans hheld.symm)⟩
    rw [Key72.int] at hstored
    omega

/-- The fourth key of the self-test's block, found by the reference core. -/
theorem winnerOk_iff_selftest :
    let p := problemAlloc.load ⟨5#32, 17#32, 4⟩ selftestWork false 48#32
    ∃ n q, runRC572 rc572UnitFuncAnsiRef p 48#32 = some (.found, n, q) ∧
      WinnerOk p q n.toNat := by
  intro p
  have hreport : (rc572UnitFuncAnsiRef p.unitwork (p.keysToCheck 48#32)).rescode = some .found ∧
      (rc572UnitFuncAnsiRef p.unitwork (p.keysToCheck 48#32)).work.L0 =
        refKeyStep^[(rc572UnitFuncAnsiRef p.unitwork (p.keysToCheck 48#32)).iterations.toNat]
          p.unitwork.L0 ∧
      (rc572UnitFuncAnsiRef p.unitwork (p.keysToCheck 48#32)).iterations = 3#32 := by
    decide +kernel
  obtain ⟨n, q, hrun, hn, hok⟩ :=
    winnerOk_iff (p := p) (by decide) (by decide) hreport.1 hreport.2.1
  refine ⟨n, q, hrun, hok.mpr ?_⟩
  rw [hn, hreport.2.2]
  decide

/-- A block that starts at the last key but one, with a match two keys on, at key zero. -/
def lastKeysWork : BigCrypto :=
  { selftestWork with
    key := ⟨0xFF#32, 0xFFFFFFFF#32, 0xFFFFFFFE#32⟩
    plain := ⟨0#32, 0#32⟩
    cypher := ⟨0x24D4719E#32, 0x2C8D153C#32⟩ }

/-- **The key that is stored is not masked**: past the last key its top word is `0x100`. -/
theorem not_winnerOk_past_last_key : ¬∀ (core : Core) (p : Problem) (requested : U32),
    p.contestwork.key.hi.toNat ≤ 0xFF →
    p.unitwork.L0 = switchRC572Format
      (Key72.ofInt ((p.contestwork.key.int + p.contestwork.keysdone.int) % 2 ^ 72)) →
    (core p.unitwork (p.keysToCheck requested)).rescode = some .found →
    (core p.unitwork (p.keysToCheck requested)).work.L0 =
      refKeyStep^[(core p.unitwork (p.keysToCheck requested)).iterations.toNat] p.unitwork.L0 →
    ∀ n q, runRC572 core p requested = some (.found, n, q) → WinnerOk p q n.toNat := by
  intro h
  have hreport : ∃ n q, runRC572 rc572UnitFuncAnsiRef
      (problemAlloc.load ⟨5#32, 17#32, 4⟩ lastKeysWork false 48#32) 48#32 = some (.found, n, q) ∧
        q.contestwork.key.hi = 0x100#32 := by
    have hrun : (runRC572 rc572UnitFuncAnsiRef
        (problemAlloc.load ⟨5#32, 17#32, 4⟩ lastKeysWork false 48#32) 48#32).map (fun r ↦
          (r.1, r.2.2.contestwork.key.hi)) = some (.found, 0x100#32) := by decide +kernel
    obtain ⟨⟨code, n, q⟩, hq, hcode⟩ := Option.map_eq_some_iff.mp hrun
    obtain ⟨rfl, hhi⟩ := Prod.mk.inj hcode
    exact ⟨n, q, hq, hhi⟩
  obtain ⟨n, q, hq, hhi⟩ := hreport
  have hle := (h rc572UnitFuncAnsiRef _ 48#32 (by decide) (by decide) (by decide +kernel)
    (by decide +kernel) n q hq).hi
  rw [hhi] at hle
  exact absurd hle (by decide)

end Hyunjin
