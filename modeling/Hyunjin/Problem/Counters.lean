import Hyunjin.Core.Launches
import Hyunjin.Problem.Resume

/-!
# The three counters of a run

Three counters tell how far a problem has come: the cursor of the core, the client's reference key,
and the 64-bit count in the packet. They are advanced by different code. `AtOffset` says that all
three stand at the same place of the block, and a slice moves that place by the number of keys
tested.

The place is a natural number. The cursor follows it modulo `2⁷²` and the count modulo `2⁶⁴`, so
they part company when the count wraps. It does not if the packet has keys left when it is loaded
and ends a whole word before `2⁶⁴` (`AtOffset.run`). A packet that is loaded with the count
near its end can wrap it whatever its length.
-/

namespace Hyunjin

open Search

/-! ## Offsets -/

/-- `n` keys of a packet from offset `a` on, as the core has them. -/
def BigCrypto.keysFrom (b : BigCrypto) (a n : ℕ) : List Key72 :=
  (List.range' a n).map fun i ↦ switchRC572Format (Key72.ofInt ((b.key.int + i) % 2 ^ 72))

theorem BigCrypto.keysFrom_append (b : BigCrypto) (a m n : ℕ) :
    b.keysFrom a m ++ b.keysFrom (a + m) n = b.keysFrom a (m + n) := by
  rw [keysFrom, keysFrom, keysFrom, ← List.map_append, List.range'_append_1]

/-- No key comes up twice in fewer than `2⁷²`. -/
theorem BigCrypto.nodup_keysFrom (b : BigCrypto) (a : ℕ) {n : ℕ} (hn : n ≤ 2 ^ 72) :
    (b.keysFrom a n).Nodup := by
  refine List.Nodup.map_on ?_ List.nodup_range'
  intro i hi j hj heq
  rw [List.mem_range'_1] at hi hj
  have hindex := congrArg Key72.index heq
  have hlt (i : ℕ) : (b.key.int + i) % 2 ^ 72 < 2 ^ 72 := Nat.mod_lt _ (Nat.two_pow_pos 72)
  rw [index_switchRC572Format, index_switchRC572Format, Key72.int_ofInt (hlt i),
    Key72.int_ofInt (hlt j), Nat.mod_mod, Nat.mod_mod] at hindex
  omega

/-- The cursor, the reference key and the counter of a problem stand at offset `N` of the packet
`b`. -/
structure AtOffset (b : BigCrypto) (N : ℕ) (p : Problem) : Prop where
  inStep : p.InStep
  L0 : p.unitwork.L0 = refKeyStep^[N] (switchRC572Format b.key)
  keysdone : p.contestwork.keysdone.int = N % 2 ^ 64
  iterations : p.contestwork.iterations = b.iterations

theorem Loaded.atOffset {host : Host} {sel : Selcore} {b : BigCrypto} {p : Problem}
    (h : Loaded host sel b p) : AtOffset b b.keysdone.int p := by
  refine ⟨h.consistent.inStep, ?_, ?_, ?_⟩
  · rw [h.consistent.unitwork, h.contestwork, L0_unitworkOf]
  · rw [h.contestwork, Nat.mod_eq_of_lt b.keysdone.int_lt]
  · rw [h.contestwork]

/-- A slice moves the problem by the keys it has passed over. -/
theorem AtOffset.after {b : BigCrypto} {N : ℕ} {p : Problem} (h : AtOffset b N p) (n : U32) :
    AtOffset b (N + (p.slice n).steps) (p.after (p.slice n)) := by
  have hcursor : (p.slice n).cursor = refKeyStep^[(p.slice n).steps] p.unitwork.L0 :=
    cursor_search ..
  have hsteps : (p.slice n).steps < 2 ^ 32 :=
    (steps_search_le ..).trans_lt (p.keysToCheck n).isLt
  refine ⟨⟨h.inStep.initialized, rfl, valid_cursor_search h.inStep.valid_L0 _ _⟩, ?_, ?_, ?_⟩
  · have hL0 : (p.after (p.slice n)).unitwork.L0 = (p.slice n).cursor := rfl
    rw [hL0, hcursor, h.L0, ← Function.iterate_add_apply, Nat.add_comm]
  · rw [keysdone_after, int_addKeysdone, h.keysdone, BitVec.toNat_ofNat, Nat.mod_eq_of_lt hsteps,
      Nat.mod_add_mod]
  · rw [iterations_after, h.iterations]

/-- The keys that a slice tests are those it passes over, and the match. -/
theorem AtOffset.testedKeys {b : BigCrypto} {N : ℕ} {p : Problem} (h : AtOffset b N p)
    (hwork : p.lastResultcode = some .working) (core : Core) (n : U32) :
    (runSlice core n p).1.tested =
      b.keysFrom N ((p.slice n).steps + (p.slice n).found.toNat) := by
  have hreport : (runSlice core n p).1.tested = tested p.unitwork.verdict refKeyStep
      (p.keysToCheck n).toNat p.unitwork.L0 := if_pos ⟨h.inStep.initialized, hwork⟩
  have hkey (i : ℕ) : refKeyStep^[i] p.unitwork.L0 =
      switchRC572Format (Key72.ofInt ((b.key.int + (N + i)) % 2 ^ 72)) := by
    rw [h.L0, ← Function.iterate_add_apply, Nat.add_comm i, iterate_switchRC572Format]
  rw [hreport, tested_eq, BigCrypto.keysFrom, List.range'_eq_map_range, List.map_map]
  exact List.map_congr_left fun i _ ↦ hkey i

/-- **The launches of the CUDA core test the keys of the slice** in their order, and no others
unless a key is found. Then they test those behind it up to the end of the last launch as well. -/
theorem testedKeys_prefix_launches {cuda : Cuda} (hc : cuda.Faithful) {p : Problem} (hp : p.InStep)
    (hwork : p.lastResultcode = some .working) : ∃ mem,
      let n := (p.keysToCheck p.tslice).toNat
      let r := passLoopLog cuda p.unitwork.plain p.unitwork.cypher
        (clampThreads HYUNJIN_BLOCK_SIZE_DEFAULT) n 0 0 p.unitwork.L0 mem (.start p.unitwork.L0)
      hyunjinR72Run cuda p.unitwork.plain p.unitwork.cypher p.unitwork.L0 n 0
          HYUNJIN_BLOCK_SIZE_DEFAULT = r.1 ∧
        testedKeys p <+: r.2.flatMap Launch.testedKeys ∧
        ((p.slice p.tslice).found = false → r.2.flatMap Launch.testedKeys = testedKeys p) := by
  obtain ⟨mem, hmem⟩ := hyunjinR72Run_eq_passLoopLog hc p.unitwork.plain p.unitwork.cypher
    p.unitwork.L0 (p.keysToCheck p.tslice).toNat 0 HYUNJIN_BLOCK_SIZE_DEFAULT
  have hpipe : HYUNJIN_PIPELINE ∣ (p.keysToCheck p.tslice).toNat :=
    Nat.dvd_trans (by decide : HYUNJIN_PIPELINE ∣ 16) (dvd_keysToCheck ..)
  have htested : Hyunjin.testedKeys p = tested (verdict p.unitwork.plain p.unitwork.cypher)
      refKeyStep (p.keysToCheck p.tslice).toNat p.unitwork.L0 := if_pos ⟨hp.initialized, hwork⟩
  rw [Int.toNat_natCast] at hmem
  rw [htested]
  exact ⟨mem, hmem, tested_prefix_passLoopLog hc _ _ hp.valid_L0 _ hpipe mem⟩

/-- The offset is below `2⁶⁴`, and inside the block as long as there is work. -/
def Inside (b : BigCrypto) (N : ℕ) (p : Problem) : Prop :=
  N < 2 ^ 64 ∧ (p.lastResultcode = some .working → N < b.iterations.int)

/-! ## Runs -/

/-- A finished problem is only asked for its result. -/
theorem report_finished {core : Core} {p : Problem} (hinit : p.initialized = true)
    (h : p.lastResultcode ≠ some .working) (n : U32) :
    (runSlice core n p).1 = ⟨p.lastResultcode, []⟩ := by
  simp [runSlice, problemRun, testedKeys, hinit, h]

theorem reports_finished {core : Core} {p : Problem} (hinit : p.initialized = true)
    (h : p.lastResultcode ≠ some .working) {ns : List U32} {r : SliceReport}
    (hr : r ∈ Run.outputs (runSlice core) ns p) : r = ⟨p.lastResultcode, []⟩ := by
  induction ns generalizing p with
  | nil => cases hr
  | cons n ns ih =>
    rw [Run.outputs, List.mem_cons, report_finished hinit h, runSlice_finished h] at hr
    rcases hr with hr | hr
    · exact hr
    · exact ih (p := { p with tslice := n }) hinit h hr

/-- A finished problem stays finished. -/
theorem working_of_final {core : Core} {ns : List U32} {p : Problem}
    (h : (Run.final (runSlice core) ns p).lastResultcode = some .working) :
    p.lastResultcode = some .working := by
  by_contra hnot
  exact hnot ((sameWork_finished hnot ns).lastResultcode.trans h)

section Run

variable {core : Core} (hcore : core.Faithful)

include hcore

/-- What a call of the core leaves: a match, a block without a match, or work. -/
theorem lastResultcode_runSlice {p : Problem} (hp : p.InStep)
    (hwork : p.lastResultcode = some .working) (n : U32) :
    (runSlice core n p).2.lastResultcode = some (if (p.slice n).found then .found
      else if (runSlice core n p).2.contestwork.Done then .nothing else .working) := by
  rw [(runSlice_spec hcore hp hwork n).1, lastResultcode_after]

theorem working_runSlice_iff {p : Problem} (hp : p.InStep)
    (hwork : p.lastResultcode = some .working) (n : U32) :
    (runSlice core n p).2.lastResultcode = some .working ↔
      (runSlice core n p).2.lastResultcode ≠ some .found ∧
        ¬(runSlice core n p).2.contestwork.Done := by
  rw [lastResultcode_runSlice hcore hp hwork n]
  by_cases hdone : (runSlice core n p).2.contestwork.Done <;> cases (p.slice n).found <;>
    simp [hdone]

theorem nothing_runSlice_iff {p : Problem} (hp : p.InStep)
    (hwork : p.lastResultcode = some .working) (n : U32) :
    (runSlice core n p).2.lastResultcode = some .nothing ↔
      (runSlice core n p).2.lastResultcode ≠ some .found ∧
        (runSlice core n p).2.contestwork.Done := by
  rw [lastResultcode_runSlice hcore hp hwork n]
  by_cases hdone : (runSlice core n p).2.contestwork.Done <;> cases (p.slice n).found <;>
    simp [hdone]

/-- One slice is not rejected, and it ends in a match or moves the problem. -/
theorem AtOffset.runSlice {b : BigCrypto} {N : ℕ} {p : Problem} (h : AtOffset b N p)
    (hcode : p.lastResultcode ≠ none) (n : U32) :
    let r := (runSlice core n p).1
    let q := (runSlice core n p).2
    r.rescode = q.lastResultcode ∧ q.initialized = true ∧ q.lastResultcode ≠ none ∧
      (q.lastResultcode ≠ some .found → ∃ m, AtOffset b (N + m) q ∧ r.tested = b.keysFrom N m ∧
        (b.iterations.int + 2 ^ 32 ≤ 2 ^ 64 → Inside b N p → Inside b (N + m) q)) := by
  intro r q
  by_cases hwork : p.lastResultcode = some .working
  · obtain ⟨hq, hr⟩ := runSlice_spec hcore h.inStep hwork n
    have hlast : q.lastResultcode = _ := lastResultcode_runSlice hcore h.inStep hwork n
    have hafter := h.after n
    rw [← hq] at hr hafter
    refine ⟨hr, hafter.inStep.initialized, ?_, ?_⟩
    · rw [hlast]
      exact Option.some_ne_none _
    · intro hne
      have hfound : (p.slice n).found = false := by
        by_contra hfound
        rw [hlast, if_pos (Bool.eq_true_of_not_eq_false hfound)] at hne
        exact hne rfl
      have htested := h.testedKeys hwork core n
      rw [hfound] at htested
      refine ⟨(p.slice n).steps, hafter, htested, ?_⟩
      rintro hsmall ⟨-, hinside⟩
      have hlt := hinside hwork
      have hsteps : (p.slice n).steps < 2 ^ 32 :=
        (steps_search_le ..).trans_lt (p.keysToCheck n).isLt
      have hbound : N + (p.slice n).steps < 2 ^ 64 := by omega
      refine ⟨hbound, fun hwork' ↦ ?_⟩
      obtain ⟨-, hdone⟩ := (working_runSlice_iff hcore h.inStep hwork n).mp hwork'
      rw [BigCrypto.done_iff, hafter.keysdone, hafter.iterations, Nat.mod_eq_of_lt hbound] at hdone
      exact Nat.lt_of_not_le hdone
  · have hq : q = { p with tslice := n } := runSlice_finished hwork n
    have hr : r = ⟨p.lastResultcode, []⟩ := report_finished h.inStep.initialized hwork n
    rw [hr, hq]
    refine ⟨rfl, h.inStep.initialized, hcode, fun _ ↦ ⟨0, ?_, rfl, fun _ hinside ↦ hinside⟩⟩
    obtain ⟨⟨hinit, href, hvalid⟩, hL0, hdone, hiter⟩ := h
    exact ⟨⟨hinit, href, hvalid⟩, hL0, hdone, hiter⟩

/-- **No slice of a run is rejected, and a run without a match tests one stretch of keys.** -/
theorem AtOffset.run {b : BigCrypto} {N : ℕ} {p : Problem} (h : AtOffset b N p)
    (hcode : p.lastResultcode ≠ none) (ns : List U32) :
    let reports := Run.outputs (Hyunjin.runSlice core) ns p
    let q := Run.final (Hyunjin.runSlice core) ns p
    (∀ r ∈ reports, r.rescode ≠ none) ∧
      (q.lastResultcode ≠ some .found →
        ∃ m, AtOffset b (N + m) q ∧ reports.flatMap SliceReport.tested = b.keysFrom N m ∧
          (b.iterations.int + 2 ^ 32 ≤ 2 ^ 64 → Inside b N p → Inside b (N + m) q)) := by
  induction ns generalizing N p with
  | nil => exact ⟨nofun, fun _ ↦ ⟨0, h, rfl, fun _ hinside ↦ hinside⟩⟩
  | cons n ns ih =>
    obtain ⟨hr, hinit, hcode', hmoved⟩ := h.runSlice hcore hcode n
    set p' := (Hyunjin.runSlice core n p).2 with hp'
    intro reports q
    have hreports : reports = (Hyunjin.runSlice core n p).1 ::
      Run.outputs (Hyunjin.runSlice core) ns p' := rfl
    have hq : q = Run.final (Hyunjin.runSlice core) ns p' := rfl
    by_cases hfound : p'.lastResultcode = some .found
    · have hend : p'.lastResultcode ≠ some .working := by
        rw [hfound]
        decide
      refine ⟨?_, fun hne ↦ absurd ?_ hne⟩
      · intro r hmem
        rw [hreports, List.mem_cons] at hmem
        rcases hmem with rfl | hmem
        · rwa [hr]
        · rwa [reports_finished hinit hend hmem]
      · rw [hq, ← (sameWork_finished hend ns).lastResultcode, hfound]
    · obtain ⟨m, hat, htested, hstay⟩ := hmoved hfound
      obtain ⟨hall, hlast⟩ := ih hat hcode'
      refine ⟨?_, ?_⟩
      · intro r hmem
        rw [hreports, List.mem_cons] at hmem
        rcases hmem with rfl | hmem
        · rwa [hr]
        · exact hall r hmem
      · intro hne
        obtain ⟨m', hat', htested', hstay'⟩ := hlast hne
        rw [Nat.add_assoc] at hat' hstay'
        refine ⟨m + m', hat', ?_, fun hsmall hinside ↦ hstay' hsmall (hstay hsmall hinside)⟩
        rw [hreports, List.flatMap_cons, htested, htested', BigCrypto.keysFrom_append]

/-- **A call of the core is made exactly as long as no earlier one has found a match or reached the
end of the block.** -/
theorem AtOffset.working_iff {b : BigCrypto} {N : ℕ} {p : Problem} (h : AtOffset b N p)
    (hwork : p.lastResultcode = some .working) (ns : List U32) :
    (Run.final (Hyunjin.runSlice core) ns p).lastResultcode = some .working ↔
      ∀ ms, ms <+: ns → ms ≠ [] →
        (Run.final (Hyunjin.runSlice core) ms p).lastResultcode ≠ some .found ∧
          ¬(Run.final (Hyunjin.runSlice core) ms p).contestwork.Done := by
  induction ns generalizing N p with
  | nil =>
    refine iff_of_true hwork fun ms hms hne ↦ absurd ?_ hne
    exact List.prefix_nil.mp hms
  | cons n ns ih =>
    have hfirst := working_runSlice_iff hcore h.inStep hwork n
    obtain ⟨-, -, -, hmoved⟩ := h.runSlice hcore (by rw [hwork]; exact Option.some_ne_none _) n
    constructor
    · intro hfinal ms hms hne
      have hwork' := working_of_final (p := (Hyunjin.runSlice core n p).2) hfinal
      obtain ⟨hfound, hdone⟩ := hfirst.mp hwork'
      obtain ⟨m, hat, -⟩ := hmoved hfound
      cases ms with
      | nil => exact absurd rfl hne
      | cons n' ms =>
        obtain ⟨rfl, hrest⟩ := List.cons_prefix_cons.mp hms
        by_cases hnil : ms = []
        · rw [hnil]
          exact ⟨hfound, hdone⟩
        · exact (ih hat hwork').mp hfinal ms hrest hnil
    · intro hall
      have hone : [n] <+: n :: ns := List.cons_prefix_cons.mpr ⟨rfl, List.nil_prefix⟩
      obtain ⟨hfound, hdone⟩ := hall [n] hone (List.cons_ne_nil n [])
      have hwork' := hfirst.mpr ⟨hfound, hdone⟩
      obtain ⟨m, hat, -⟩ := hmoved hfound
      refine (ih hat hwork').mpr fun ms hms _ ↦ ?_
      exact hall (n :: ms) (List.cons_prefix_cons.mpr ⟨rfl, hms⟩) (List.cons_ne_nil n ms)

end Run

/-! ## The three counters -/

/-- **The three counters stay in step.** No call of the core is rejected. After every call that did
not report a match the cursor and the reference key are the mangled key at the place reached, the
counter has that place modulo `2⁶⁴`, and the keys tested since the load are those from the place of
the load up to it, each once. A call is made as long as none has found a match or counted the block
to its end, and it reports an end without a match exactly when it counts the block to its end and
finds none. If the packet had keys left and ends a whole word before `2⁶⁴`, the counter has the
place itself. -/
theorem counters_in_step {cuda : Cuda} (hc : cuda.Faithful) {host : Host} {work : ContestWork}
    {tslice : U32} {expected : Provenance} {q p₀ : Problem}
    (hload : problemLoadState host work tslice expected q = (0, p₀)) (ns : List U32) :
    let run := runSlice (rc572UnitFuncHyunjin cuda)
    let b := p₀.contestwork
    let p := Run.final run ns p₀
    (∀ r ∈ Run.outputs run ns p₀, r.rescode ≠ none) ∧
      (p.lastResultcode ≠ some .found → ∃ N,
        b.keysdone.int ≤ N ∧ p.contestwork.keysdone.int = N % 2 ^ 64 ∧
        p.unitwork.L0 = switchRC572Format (Key72.ofInt ((b.key.int + N) % 2 ^ 72)) ∧
        p.refL0 = p.unitwork.L0 ∧
        (Run.outputs run ns p₀).flatMap SliceReport.tested =
          b.keysFrom b.keysdone.int (N - b.keysdone.int) ∧
        (b.keysdone.int < b.iterations.int → b.iterations.int + 2 ^ 32 ≤ 2 ^ 64 → N < 2 ^ 64 ∧
          ((Run.outputs run ns p₀).flatMap SliceReport.tested).Nodup)) ∧
      (p.lastResultcode = some .working ↔ ∀ ms, ms <+: ns → ms ≠ [] →
        (Run.final run ms p₀).lastResultcode ≠ some .found ∧
          (Run.final run ms p₀).contestwork.keysdone.int < b.iterations.int) ∧
      (p.lastResultcode = some .working → ∀ n, ((run n p).1.rescode = some .nothing ↔
        (run n p).1.rescode ≠ some .found ∧
          b.iterations.int ≤ (run n p).2.contestwork.keysdone.int)) := by
  intro run b p
  have hcore := faithful_hyunjin hc
  obtain ⟨sel, -, hloaded⟩ := loaded_of_eq hload
  have hself : Loaded host sel b
    p₀ := ⟨hloaded.consistent, hloaded.working, rfl, hloaded.provenance⟩
  have hstart := hself.atOffset
  have hcode : p₀.lastResultcode ≠ none := by
    rw [hself.working]
    exact Option.some_ne_none _
  obtain ⟨hall, hlast⟩ := hstart.run hcore hcode ns
  refine ⟨hall, ?_, ?_, ?_⟩
  · intro hne
    obtain ⟨m, hat, htested, hstay⟩ := hlast hne
    refine ⟨b.keysdone.int + m, Nat.le_add_right _ _, hat.keysdone, ?_, hat.inStep.refL0, ?_, ?_⟩
    · rw [hat.L0, iterate_switchRC572Format]
    · rw [Nat.add_sub_cancel_left]
      exact htested
    · intro hbegun hsmall
      obtain ⟨hlt, -⟩ := hstay hsmall ⟨b.keysdone.int_lt, fun _ ↦ hbegun⟩
      refine ⟨hlt, ?_⟩
      rw [htested]
      exact b.nodup_keysFrom _ (by omega)
  · rw [hstart.working_iff hcore hself.working ns]
    refine forall_congr' fun ms ↦ forall₂_congr fun _ _ ↦ and_congr_right fun hne ↦ ?_
    obtain ⟨m, hat, -⟩ := (hstart.run hcore hcode ms).2 hne
    rw [BigCrypto.done_iff, hat.iterations]
    exact Nat.not_le
  · intro hwork n
    have hne : p.lastResultcode ≠ some .found := by
      rw [hwork]
      decide
    obtain ⟨m, hat, -⟩ := hlast hne
    obtain ⟨hr, -, -, hmoved⟩ := hat.runSlice hcore (by rw [hwork]; exact Option.some_ne_none _) n
    rw [hr, nothing_runSlice_iff hcore hat.inStep hwork n]
    refine and_congr_right fun hne' ↦ ?_
    obtain ⟨m', hat', -⟩ := hmoved hne'
    rw [BigCrypto.done_iff, hat'.iterations]

/-- Two slices of the self-test's block. -/
theorem counters_in_step_selftest :
    ∃ p, problemLoadState amd64Host (selftestWork.toWork (0#32, 0#32)) 48#32
        (amd64Host.provenance ⟨5#32, 17#32, 4⟩) problemAlloc = (0, p) ∧
      ∀ r ∈ Run.outputs (runSlice (rc572UnitFuncHyunjin Cuda.sequential)) [48#32, 96#32] p,
        r.rescode ≠ none := by
  obtain ⟨p, hload, -⟩ := exists_load ready_amd64Host (selftestWork.toWork (0#32, 0#32)) (by decide)
    (by decide) 48#32 (amd64Host.provenance ⟨5#32, 17#32, 4⟩) (q := problemAlloc) rfl
  exact ⟨p, hload, (counters_in_step Cuda.faithful_sequential hload [48#32, 96#32]).1⟩

/-- A short block with a count that is almost `2⁶⁴`. -/
def overrunWork (cypher : Block) : BigCrypto :=
  { wrappingWork cypher with iterations := ⟨1#32, 0#32⟩ }

/-- **A count that is past the end of the block can wrap.** Afterwards the core does not stand at
the place that the counter says. -/
theorem counters_part :
    ∃ cypher p₀, (overrunWork cypher).iterations.int + 2 ^ 32 ≤ 2 ^ 64 ∧
      problemLoadState amd64Host ((overrunWork cypher).toWork (0#32, 0#32)) 1#32
        (amd64Host.provenance ⟨5#32, 17#32, 4⟩) problemAlloc = (0, p₀) ∧
      let r := runSlice (rc572UnitFuncHyunjin Cuda.sequential) 1#32 p₀
      r.1.rescode = some .working ∧
        r.2.unitwork.L0 ≠ switchRC572Format (Key72.ofInt
          (((overrunWork cypher).key.int + r.2.contestwork.keysdone.int) % 2 ^ 72)) := by
  obtain ⟨cypher, hmiss⟩ := exists_wrappingWork
  have hcore := faithful_hyunjin Cuda.faithful_sequential
  have hvalid : (⟨0#32, 0#32, 1#32⟩ : Key72).Valid := Nat.two_pow_pos 8
  have hne : (⟨0#32, 0#32, 1#32⟩ : Key72) ≠ ⟨0#32, 0#32, 0#32⟩ := by decide
  have hsmall : (⟨1#32, 0#32⟩ : Block).int + 2 ^ 32 ≤ 2 ^ 64 := by decide
  obtain ⟨p₀, hload, hloaded⟩ := exists_load ready_amd64Host
    ((overrunWork cypher).toWork (0#32, 0#32)) hvalid (fun h ↦ hne h.1) 1#32
    (amd64Host.provenance ⟨5#32, 17#32, 4⟩) (q := problemAlloc) rfl
  rw [BigCrypto.resumed_self, BigCrypto.ofWork_toWork] at hloaded
  have hat := hloaded.atOffset
  have hkeys : p₀.keysToCheck 1#32 = 48#32 := by
    have hval : keysToCheck ⟨1#32, 0#32⟩ ⟨0xFFFFFFFF#32, 0xFFFFFFE0#32⟩ 1#32 = 48#32 := by decide
    rw [Problem.keysToCheck, hloaded.contestwork]
    exact hval
  have hfound : (p₀.slice 1#32).found = false := by
    refine Bool.eq_false_iff.mpr fun hfound ↦ ?_
    obtain ⟨i, hi, hhit⟩ := found_iff_exists.mp hfound
    rw [hkeys] at hi
    rw [hloaded.consistent.unitwork, hloaded.contestwork] at hhit
    exact hmiss i hi hhit
  have hsteps : (p₀.slice 1#32).steps = 48 := by
    rw [steps_slice hfound, hkeys]
    rfl
  obtain ⟨hq, hr⟩ := runSlice_spec hcore hloaded.consistent.inStep hloaded.working 1#32
  have hafter := hat.after 1#32
  rw [← hq, hsteps] at hafter
  have hplace : (overrunWork cypher).keysdone.int + 48 = 2 ^ 64 + 16 := by
    have hval : (⟨0xFFFFFFFF#32, 0xFFFFFFE0#32⟩ : Block).int + 48 = 2 ^ 64 + 16 := by decide
    exact hval
  have hwrapped : (2 ^ 64 + 16) % 2 ^ 64 = 16 := by decide
  have hcount := hafter.keysdone
  rw [hplace, hwrapped] at hcount
  refine ⟨cypher, p₀, hsmall, hload, ?_, ?_⟩
  · have hwork := (working_runSlice_iff hcore hloaded.consistent.inStep hloaded.working 1#32).mpr
    rw [hr, ← hq]
    refine hwork ⟨?_, ?_⟩
    · rw [hq, lastResultcode_after, hfound, if_neg Bool.false_ne_true]
      split_ifs <;> decide
    · have hlt : ¬(⟨1#32, 0#32⟩ : Block).int ≤ 16 := by decide
      rw [BigCrypto.done_iff, hcount, hafter.iterations]
      exact hlt
  · intro hL0
    have hindex := congrArg Key72.index (hafter.L0.symm.trans hL0)
    have hkey : (overrunWork cypher).key.int = 1 := by
      have hval : (⟨0#32, 0#32, 1#32⟩ : Key72).int = 1 := by decide
      exact hval
    have hdiffer : ¬(1 % 2 ^ 72 + (2 ^ 64 + 16)) % 2 ^ 72 = (1 + 16) % 2 ^ 72 % 2 ^ 72 := by decide
    rw [hplace, hcount, index_iterate_refKeyStep (valid_switchRC572Format _),
      index_switchRC572Format, index_switchRC572Format, hkey, Key72.int_ofInt (by decide)] at hindex
    exact hdiffer hindex

end Hyunjin
