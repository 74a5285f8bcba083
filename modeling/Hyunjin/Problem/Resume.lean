import Hyunjin.Problem.Slice

/-!
# Resuming work in progress

A problem that is saved in progress and loaded again by the same client goes on as if nothing had
happened. By `Consistent` the packet determines the unit work, so the reloaded problem has the same
work as the one that was saved (`SameWork`), and a slice depends on nothing else.

The load refuses one packet by its contents, the dummy packet. It empties the check block of another
client's packet only if keys of it are counted as done. And once the 64-bit counter has wrapped, the
packet does not tell any more where the core stands.
-/

namespace Hyunjin

open Search

/-! ## The same work -/

/-- Two problems that agree in all that a slice depends on. -/
structure SameWork (p q : Problem) : Prop where
  initialized : p.initialized = q.initialized
  lastResultcode : p.lastResultcode = q.lastResultcode
  contestwork : p.contestwork = q.contestwork
  unitwork : p.unitwork = q.unitwork
  refL0 : p.refL0 = q.refL0

theorem SameWork.refl (p : Problem) : SameWork p p := ⟨rfl, rfl, rfl, rfl, rfl⟩

theorem SameWork.trans {p q r : Problem} (h : SameWork p q) (h' : SameWork q r) : SameWork p r :=
  ⟨h.1.trans h'.1, h.2.trans h'.2, h.3.trans h'.3, h.4.trans h'.4, h.5.trans h'.5⟩

/-- The same work in the same slice gives the same report and the same work. -/
theorem SameWork.runSlice {p q : Problem} (h : SameWork p q) (core : Core) (n : U32) :
    (runSlice core n p).1 = (runSlice core n q).1 ∧
      SameWork (runSlice core n p).2 (runSlice core n q).2 := by
  obtain ⟨initialized, lastResultcode, contestwork, unused, unitwork, refL0, startkeys, wasReset,
    clientCpu, coresel, tslice⟩ := p
  obtain ⟨hinit, hcode, hcontest, hunit, href⟩ := h
  simp only at hinit hcode hcontest hunit href
  subst hinit hcode hcontest hunit href
  simp only [Hyunjin.runSlice, problemRun, runRC572, testedKeys, Problem.keysToCheck]
  by_cases hinit : q.initialized = false
  · simp only [hinit, if_true]
    exact ⟨trivial, rfl, rfl, rfl, rfl, rfl⟩
  by_cases hwork : q.lastResultcode = some .working
  swap
  · simp only [hinit, hwork, if_false]
    exact ⟨rfl, rfl, rfl, rfl, rfl, rfl⟩
  simp only [hinit, hwork, if_true]
  generalize core q.unitwork _ = r
  rcases r.rescode with _ | rescode
  · exact ⟨rfl, rfl, rfl, rfl, rfl, rfl⟩
  · dsimp only
    split_ifs <;> exact ⟨rfl, rfl, rfl, rfl, rfl, rfl⟩

/-- The same work gives the same reports and the same work over a whole run. -/
theorem SameWork.run {p q : Problem} (h : SameWork p q) (core : Core) (ns : List U32) :
    Run.outputs (Hyunjin.runSlice core) ns p = Run.outputs (Hyunjin.runSlice core) ns q ∧
      SameWork (Run.final (Hyunjin.runSlice core) ns p)
        (Run.final (Hyunjin.runSlice core) ns q) := by
  induction ns generalizing p q with
  | nil => exact ⟨rfl, h⟩
  | cons n ns ih =>
    obtain ⟨hout, hnext⟩ := h.runSlice core n
    obtain ⟨houts, hfinal⟩ := ih hnext
    refine ⟨?_, hfinal⟩
    rw [Run.outputs, Run.outputs, hout, houts]

/-- A finished problem keeps its work. -/
theorem sameWork_finished {core : Core} {p : Problem} (h : p.lastResultcode ≠ some .working)
    (ns : List U32) : SameWork p (Run.final (Hyunjin.runSlice core) ns p) := by
  induction ns generalizing p with
  | nil => exact SameWork.refl p
  | cons n ns ih =>
    rw [Run.final, runSlice_finished h]
    have hstep : SameWork p { p with tslice := n } := ⟨rfl, rfl, rfl, rfl, rfl⟩
    exact hstep.trans (ih h)

/-! ## Loaded problems -/

/-- The provenance that a problem is saved with. -/
def Problem.provenance (p : Problem) (host : Host) : Provenance :=
  ⟨p.clientCpu, p.coresel, host.os, host.build⟩

/-- A problem that has just been loaded with the work `b`. -/
structure Loaded (host : Host) (sel : Selcore) (b : BigCrypto) (p : Problem) : Prop where
  consistent : p.Consistent
  working : p.lastResultcode = some .working
  contestwork : p.contestwork = b
  provenance : p.provenance host = host.provenance sel

/-- What a successful load has made. -/
theorem loaded_of_eq {host : Host} {work : ContestWork} {tslice : U32} {expected : Provenance}
    {q p : Problem} (h : problemLoadState host work tslice expected q = (0, p)) :
    ∃ sel, host.Ready sel ∧
      Loaded host sel ((BigCrypto.ofWork work).resumed (host.provenance sel) expected) p := by
  rw [problemLoadState_eq_zero, internalLoadState_eq_ok] at h
  obtain ⟨-, hkey, hdummy, sel, hready, rfl⟩ := h
  refine ⟨sel, hready, ⟨rfl, rfl, rfl, ?_, ?_⟩, rfl, rfl, rfl⟩
  · rw [Problem.load, BigCrypto.key_resumed]
    exact hkey
  · rw [Problem.load, BigCrypto.isDummy_resumed]
    exact hdummy

theorem Host.Ready.unique {host : Host} {sel sel' : Selcore} (h : host.Ready sel)
    (h' : host.Ready sel') : sel = sel' :=
  Option.some_inj.mp (h.selcore.symm.trans h'.selcore)

theorem exists_load {host : Host} {sel : Selcore} (hready : host.Ready sel) (work : ContestWork)
    (hkey : (BigCrypto.ofWork work).key.Valid) (hdummy : ¬(BigCrypto.ofWork work).IsDummy)
    (tslice : U32) (expected : Provenance) {q : Problem} (hq : q.initialized = false) :
    ∃ p, problemLoadState host work tslice expected q = (0, p) ∧
      Loaded host sel ((BigCrypto.ofWork work).resumed (host.provenance sel) expected) p := by
  obtain ⟨p, hp⟩ : ∃ p, problemLoadState host work tslice expected q = (0, p) := by
    refine ⟨_, problemLoadState_eq_zero.mpr (internalLoadState_eq_ok.mpr
      ⟨hq, hkey, hdummy, sel, hready, rfl⟩)⟩
  obtain ⟨sel', hready', hloaded⟩ := loaded_of_eq hp
  exact ⟨p, hp, hready'.unique hready ▸ hloaded⟩

theorem Loaded.sound {host : Host} {sel : Selcore} {b : BigCrypto} {p : Problem}
    (h : Loaded host sel b p) : p.Sound := by
  rw [Problem.Sound, h.working]
  exact h.consistent

theorem Loaded.L0 {host : Host} {sel : Selcore} {b : BigCrypto} {p : Problem}
    (h : Loaded host sel b p) : p.unitwork.L0 =
      switchRC572Format (Key72.ofInt ((b.key.int + b.keysdone.int) % 2 ^ 72)) := by
  rw [h.consistent.unitwork, h.contestwork, L0_unitworkOf, iterate_switchRC572Format]

/-- The work determines the loaded problem. -/
theorem Loaded.sameWork {host host' : Host} {sel sel' : Selcore} {b : BigCrypto} {p q : Problem}
    (hp : Loaded host sel b p) (hq : Loaded host' sel' b q) : SameWork p q := by
  have hunit : p.unitwork = q.unitwork := by
    rw [hp.consistent.unitwork, hq.consistent.unitwork, hp.contestwork, hq.contestwork]
  refine ⟨?_, hp.working.trans hq.working.symm, hp.contestwork.trans hq.contestwork.symm, hunit, ?_⟩
  · rw [hp.consistent.initialized, hq.consistent.initialized]
  · rw [hp.consistent.refL0, hq.consistent.refL0, hunit]

/-- A run does not move a problem to another core. -/
theorem provenance_run {core : Core} (host : Host) (ns : List U32) (p : Problem) :
    (Run.final (runSlice core) ns p).provenance host = p.provenance host := by
  have hstep (n : U32) (p : Problem) : (runSlice core n p).2.provenance host
    = p.provenance host := by
    simp only [runSlice, problemRun, runRC572]
    generalize core p.unitwork _ = r
    rcases r.rescode with _ | rescode <;> dsimp only <;> split_ifs <;> rfl
  induction ns generalizing p with
  | nil => rfl
  | cons n ns ih => rw [Run.final, ih, hstep]

/-! ## Resuming -/

/-- **A consistent problem at work comes back from its packet.** -/
theorem exists_reload {host : Host} {sel : Selcore} (hready : host.Ready sel) {p : Problem}
    (hp : p.Consistent) (hwork : p.lastResultcode = some .working)
    (hprov : p.provenance host = host.provenance sel) (dopurge : Bool) (tslice : U32) {q : Problem}
    (hq : q.initialized = false) :
    ∃ work q', (problemRetrieveState p dopurge).1 = (some .working, some work) ∧
      problemLoadState host work tslice (p.provenance host) q = (0, q') ∧ SameWork p q' := by
  obtain ⟨q', hload, hloaded⟩ := exists_load hready (p.contestwork.toWork p.unused)
    (by simpa using hp.valid) (by simpa using hp.not_dummy) tslice (p.provenance host) hq
  rw [hprov, BigCrypto.resumed_self, BigCrypto.ofWork_toWork] at hloaded
  refine ⟨_, q', ?_, hload, ?_⟩
  · rw [problemRetrieveState, if_neg (by simp [hp.initialized]), hwork]
  · have hself : Loaded host sel p.contestwork p := ⟨hp, hwork, rfl, hprov⟩
    exact hself.sameWork hloaded

/-- However the run of a problem is split, saving it in progress and loading it again shows in
nothing: neither in the reports, which include the keys tested, nor in the packet and the result
code at the end. The slices before the save must not wrap the counter. -/
def Problem.Resumable (p : Problem) (core : Core) (host : Host) : Prop :=
  ∀ (ns₁ ns₂ : List U32) (dopurge : Bool) (tslice : U32) (q : Problem),
    Run.Guarded (runSlice core) Unwrapped ns₁ p →
    let p₁ := Run.final (runSlice core) ns₁ p
    let whole := Run.final (runSlice core) (ns₁ ++ ns₂) p
    p₁.lastResultcode = some .working → q.initialized = false →
    ∃ work p₂, (problemRetrieveState p₁ dopurge).1 = (some .working, some work) ∧
      problemLoadState host work tslice (p₁.provenance host) q = (0, p₂) ∧
      Run.outputs (runSlice core) (ns₁ ++ ns₂) p =
        Run.outputs (runSlice core) ns₁ p ++ Run.outputs (runSlice core) ns₂ p₂ ∧
      whole.contestwork = (Run.final (runSlice core) ns₂ p₂).contestwork ∧
      whole.lastResultcode = (Run.final (runSlice core) ns₂ p₂).lastResultcode

theorem Loaded.resumable {core : Core} (hcore : core.Faithful) {host : Host} {sel : Selcore}
    (hready : host.Ready sel) {b : BigCrypto} {p : Problem} (h : Loaded host sel b p) :
    p.Resumable core host := by
  intro ns₁ ns₂ dopurge tslice q hrun p₁ whole hwork hq
  have hcons : p₁.Consistent := by
    have hsound := sound_run hcore h.sound hrun
    rw [Problem.Sound, hwork] at hsound
    exact hsound
  have hprov : p₁.provenance host = host.provenance sel :=
    (provenance_run host ns₁ p).trans h.provenance
  obtain ⟨work, p₂, hsaved, hreload, hsame⟩ :=
    exists_reload hready hcons hwork hprov dopurge tslice hq
  obtain ⟨houts, hfinal⟩ := hsame.run core ns₂
  have hwhole : whole = Run.final (runSlice core) ns₂ p₁ := Run.final_append ..
  refine ⟨work, p₂, hsaved, hreload, ?_, ?_, ?_⟩
  · rw [Run.outputs_append, houts]
  · rw [hwhole]
    exact hfinal.contestwork
  · rw [hwhole]
    exact hfinal.lastResultcode

/-- **Loading and resuming.** A client that can load RC5-72 loads every packet whose key is in
range, but for the dummy packet. The core starts on the mangled form of `key + keysdone`. When the
packet is another client's work in progress, it starts on the mangled key, with a count of zero and
an empty check block. Either way the problem can be saved and loaded again at any time, and the
counter does not wrap in a block that ends a whole word before `2⁶⁴`. -/
theorem load_resume {core : Core} (hcore : core.Faithful) {host : Host} {sel : Selcore}
    (hready : host.Ready sel) (work : ContestWork)
    (hkey : (BigCrypto.ofWork work).key.hi.toNat ≤ 0xFF)
    (hdummy : ¬(BigCrypto.ofWork work).IsDummy) (expected : Provenance) (tslice : U32) (q : Problem)
    (hq : q.initialized = false) :
    let b := BigCrypto.ofWork work
    ∃ p, problemLoadState host work tslice expected q = (0, p) ∧
      (b.keysdone.int = 0 ∨ expected = host.provenance sel → p.contestwork = b ∧
        p.unitwork.L0 =
          switchRC572Format (Key72.ofInt ((b.key.int + b.keysdone.int) % 2 ^ 72))) ∧
      (b.keysdone.int ≠ 0 → expected ≠ host.provenance sel → p.contestwork = b.restart ∧
        p.unitwork.L0 = switchRC572Format b.key ∧
        p.unitwork.check = ⟨0#32, ⟨0#32, 0#32, 0#32⟩⟩) ∧
      p.Resumable core host ∧
      (b.keysdone.int < b.iterations.int → b.iterations.int + 2 ^ 32 ≤ 2 ^ 64 →
        ∀ ns : List U32, Run.Guarded (runSlice core) Unwrapped ns p) := by
  intro b
  have hvalid : b.key.Valid := Nat.lt_succ_of_le hkey
  obtain ⟨p, hload, hloaded⟩ := exists_load hready work hvalid hdummy tslice expected hq
  refine ⟨p, hload, ?_, ?_, hloaded.resumable hcore hready, ?_⟩
  · intro hown
    have hresumed : b.resumed (host.provenance sel) expected = b := by
      rw [BigCrypto.resumed, if_neg]
      rintro ⟨hdone, hother⟩
      exact hown.elim hdone hother
    refine ⟨hloaded.contestwork.trans hresumed, ?_⟩
    rw [hloaded.L0, hresumed]
  · intro hdone hother
    have hresumed : b.resumed (host.provenance sel) expected = b.restart := by
      rw [BigCrypto.resumed, if_pos ⟨hdone, hother⟩]
    have hwork : p.contestwork = b.restart := hloaded.contestwork.trans hresumed
    have hunit : p.unitwork = unitworkOf b.restart := by
      rw [hloaded.consistent.unitwork, hwork]
    have hzero : switchRC572Format ⟨0#32, 0#32, 0#32⟩ = ⟨0#32, 0#32, 0#32⟩ := by decide
    refine ⟨hwork, ?_, ?_⟩
    · rw [hunit, L0_unitworkOf]
      rfl
    · rw [hunit, unitworkOf, BigCrypto.restart, hzero]
  · intro hlt hsmall ns
    have hiter : p.contestwork.iterations = b.iterations := by
      rw [hloaded.contestwork, BigCrypto.iterations_resumed]
    have hbegun : p.Begun := by
      intro _
      rw [hiter, hloaded.contestwork]
      exact (BigCrypto.keysdone_resumed_le ..).trans_lt hlt
    exact guarded_of_iterations_le hcore hloaded.sound hbegun (hiter ▸ hsmall) ns

/-! ### Instances -/

/-- A client for Linux on AMD64 that has selected the CUDA core. -/
def amd64Host : Host where
  loadPermitted := true
  selcore := some ⟨5#32, 17#32, 4⟩
  os := 4#32
  build := 91140523#32

/-- A block of `2³²` keys of which the fourth is the one looked for. -/
def selftestWork : BigCrypto where
  key := ⟨0xC9#32, 0x0C0353C0#32, 0xD4E1FE82#32⟩
  iv := ⟨0#32, 0#32⟩
  plain := ⟨0x2FF17AF3#32, 0x3F3CA653#32⟩
  cypher := ⟨0x2FB7852A#32, 0x562D285A#32⟩
  keysdone := ⟨0#32, 0#32⟩
  iterations := ⟨1#32, 0#32⟩
  randomsubspace := 0xFFFF#32
  check := ⟨0#32, ⟨0#32, 0#32, 0#32⟩⟩

theorem ready_amd64Host : amd64Host.Ready ⟨5#32, 17#32, 4⟩ := ⟨rfl, rfl, rfl⟩

/-- Work in progress of the same client, loaded, saved at once, and resumed. -/
theorem load_resume_selftest :
    let b := { selftestWork with keysdone := ⟨0#32, 48#32⟩ }
    ∃ p, problemLoadState amd64Host (b.toWork (0#32, 0#32)) 0x10000#32
        (amd64Host.provenance ⟨5#32, 17#32, 4⟩) problemAlloc = (0, p) ∧
      p.unitwork.L0 = switchRC572Format ⟨0xC9#32, 0x0C0353C0#32, 0xD4E1FEB2#32⟩ ∧
      ∃ work p₂, (problemRetrieveState p false).1 = (some .working, some work) ∧
        problemLoadState amd64Host work 0x10000#32 (p.provenance amd64Host) problemAlloc = (0, p₂) ∧
        Run.outputs (runSlice rc572UnitFuncAnsiRef) [48#32, 96#32] p =
          Run.outputs (runSlice rc572UnitFuncAnsiRef) [48#32, 96#32] p₂ := by
  intro b
  obtain ⟨p, hload, hown, -, hresume, -⟩ := load_resume faithful_ansiRef ready_amd64Host
    (b.toWork (0#32, 0#32)) (by decide) (by decide) (amd64Host.provenance ⟨5#32, 17#32, 4⟩)
    0x10000#32 problemAlloc rfl
  obtain ⟨hwork, hL0⟩ := hown (Or.inr rfl)
  have hworking : p.lastResultcode = some .working := by
    obtain ⟨sel, -, hloaded⟩ := loaded_of_eq hload
    exact hloaded.working
  obtain ⟨work, p₂, hsaved, hreload, houts, -⟩ :=
    hresume [] [48#32, 96#32] false 0x10000#32 problemAlloc trivial hworking rfl
  exact ⟨p, hload, hL0.trans (by decide), work, p₂, hsaved, hreload, houts⟩

/-- A block of almost `2⁶⁴` keys with 32 left to count. -/
def wrappingWork (cypher : Block) : BigCrypto where
  key := ⟨0#32, 0#32, 1#32⟩
  iv := ⟨0#32, 0#32⟩
  plain := ⟨0#32, 0#32⟩
  cypher := cypher
  keysdone := ⟨0xFFFFFFFF#32, 0xFFFFFFE0#32⟩
  iterations := ⟨0xFFFFFFFF#32, 0xFFFFFFFF#32⟩
  randomsubspace := 0xFFFF#32
  check := ⟨0#32, ⟨0#32, 0#32, 0#32⟩⟩

/-- Some such block has no match in its next unit. -/
theorem exists_wrappingWork : ∃ cypher, ∀ i < 48, (unitworkOf (wrappingWork cypher)).verdict
    (refKeyStep^[i] (unitworkOf (wrappingWork cypher)).L0) ≠ .hit := by
  have hsmall : 48 < 2 ^ 32 := by decide
  obtain ⟨hi, hunmatched⟩ := exists_unmatched (unitworkOf (wrappingWork ⟨0#32, 0#32⟩)).plain
    (unitworkOf (wrappingWork ⟨0#32, 0#32⟩)).L0 hsmall
  refine ⟨⟨hi, 0#32⟩, ?_⟩
  intro i hi hhit
  exact hunmatched i hi (verdict_eq_hit.mp hhit).2

/-- A slice begins with the key the core stands on. -/
theorem head?_testedKeys {p : Problem} (hinit : p.initialized = true)
    (hwork : p.lastResultcode = some .working) (core : Core) (n : U32) :
    (runSlice core n p).1.tested.head? = some p.unitwork.L0 := by
  have hreport : (runSlice core n p).1.tested = testedKeys { p with tslice := n } := rfl
  rw [hreport, testedKeys, if_pos ⟨hinit, hwork⟩]
  exact head?_tested (keysToCheck_pos ..) _

/-- One slice of the wrapping work counts sixteen keys and leaves the core `2⁶⁴ + 16` keys from the
start. -/
private theorem wrapping_slice {core : Core} (hcore : core.Faithful) {host : Host} {sel : Selcore}
    {cypher : Block} {p : Problem} (hloaded : Loaded host sel (wrappingWork cypher) p)
    (hmiss : ∀ i < 48, (unitworkOf (wrappingWork cypher)).verdict
      (refKeyStep^[i] (unitworkOf (wrappingWork cypher)).L0) ≠ .hit) :
    let p₁ := (runSlice core 1#32 p).2
    p₁.initialized = true ∧ p₁.lastResultcode = some .working ∧
      p₁.contestwork.key = ⟨0#32, 0#32, 1#32⟩ ∧ p₁.contestwork.keysdone = ⟨0#32, 16#32⟩ ∧
      p₁.unitwork.L0 = refKeyStep^[2 ^ 64 + 16] (switchRC572Format ⟨0#32, 0#32, 1#32⟩) := by
  intro p₁
  have hp := hloaded.consistent
  have hcontest := hloaded.contestwork
  have hkeys : p.keysToCheck 1#32 = 48#32 := by
    have hval : keysToCheck ⟨0xFFFFFFFF#32, 0xFFFFFFFF#32⟩ ⟨0xFFFFFFFF#32, 0xFFFFFFE0#32⟩ 1#32 =
      48#32 := by decide
    rw [Problem.keysToCheck, hcontest]
    exact hval
  have hfound : (p.slice 1#32).found = false := by
    refine Bool.eq_false_iff.mpr fun hfound ↦ ?_
    obtain ⟨i, hi, hhit⟩ := found_iff_exists.mp hfound
    rw [hkeys] at hi
    rw [hp.unitwork, hcontest] at hhit
    exact hmiss i hi hhit
  have hsteps : (p.slice 1#32).steps = 48 := by
    rw [steps_slice hfound, hkeys]
    rfl
  have hp₁ : p₁ = p.after (p.slice 1#32) := runSlice_eq hcore hp hloaded.working 1#32
  have hkeysdone : p₁.contestwork.keysdone = ⟨0#32, 16#32⟩ := by
    have hval : addKeysdone ⟨0xFFFFFFFF#32, 0xFFFFFFE0#32⟩ (BitVec.ofNat 32 48) =
      ⟨0#32, 16#32⟩ := by decide
    rw [hp₁, keysdone_after, hsteps, hcontest]
    exact hval
  refine ⟨?_, ?_, ?_, hkeysdone, ?_⟩
  · rw [hp₁]
    exact hp.initialized
  · have hlt : ¬(⟨0xFFFFFFFF#32, 0xFFFFFFFF#32⟩ : Block).int ≤ (⟨0#32, 16#32⟩ : Block).int := by
      decide
    have hdone : ¬p₁.contestwork.Done := by
      rw [BigCrypto.done_iff, hkeysdone, hp₁, iterations_after, hcontest]
      exact hlt
    rw [hp₁, lastResultcode_after, hfound, if_neg Bool.false_ne_true, ← hp₁, if_neg hdone]
  · rw [hp₁, key_after, hfound, if_neg Bool.false_ne_true, hcontest]
    rfl
  · have hcursor : p₁.unitwork.L0 = refKeyStep^[48] p.unitwork.L0 := by
      rw [hp₁, ← hsteps]
      exact cursor_search ..
    have hplace : (⟨0xFFFFFFFF#32, 0xFFFFFFE0#32⟩ : Block).int + 48 = 2 ^ 64 + 16 := by decide
    have hcount : (wrappingWork cypher).keysdone = ⟨0xFFFFFFFF#32, 0xFFFFFFE0#32⟩ := rfl
    rw [hcursor, iterate_L0 hp, hcontest, hcount, hplace, wrappingWork]

/-- After the counter has wrapped, the reloaded problem tests other keys than the one that was
saved. -/
theorem wrapped_resume {core : Core} (hcore : core.Faithful) :
    ∃ cypher p p₂ work,
      (wrappingWork cypher).keysdone.int < (wrappingWork cypher).iterations.int ∧
      problemLoadState amd64Host ((wrappingWork cypher).toWork (0#32, 0#32)) 1#32
        (amd64Host.provenance ⟨5#32, 17#32, 4⟩) problemAlloc = (0, p) ∧
      (problemRetrieveState (runSlice core 1#32 p).2 false).1 = (some .working, some work) ∧
      problemLoadState amd64Host work 1#32 ((runSlice core 1#32 p).2.provenance amd64Host)
        problemAlloc = (0, p₂) ∧
      (runSlice core 1#32 (runSlice core 1#32 p).2).1.tested ≠
        (runSlice core 1#32 p₂).1.tested := by
  obtain ⟨cypher, hmiss⟩ := exists_wrappingWork
  have hvalid : (⟨0#32, 0#32, 1#32⟩ : Key72).Valid := Nat.two_pow_pos 8
  have hne : (⟨0#32, 0#32, 1#32⟩ : Key72) ≠ ⟨0#32, 0#32, 0#32⟩ := by decide
  obtain ⟨p, hload, hloaded⟩ := exists_load ready_amd64Host
    ((wrappingWork cypher).toWork (0#32, 0#32)) hvalid (fun h ↦ hne h.1) 1#32
    (amd64Host.provenance ⟨5#32, 17#32, 4⟩) (q := problemAlloc) rfl
  rw [BigCrypto.resumed_self, BigCrypto.ofWork_toWork] at hloaded
  obtain ⟨hinit, hwork, hkey, hkeysdone, hL0⟩ := wrapping_slice hcore hloaded hmiss
  have hprov : (runSlice core 1#32 p).2.provenance amd64Host =
      amd64Host.provenance ⟨5#32, 17#32, 4⟩ :=
    (provenance_run amd64Host [1#32] p).trans hloaded.provenance
  set p₁ := (runSlice core 1#32 p).2
  obtain ⟨p₂, hreload, hloaded₂⟩ := exists_load ready_amd64Host
    (p₁.contestwork.toWork p₁.unused) (by rwa [BigCrypto.ofWork_toWork, hkey])
    (fun h ↦ hne (hkey.symm.trans h.1)) 1#32 (p₁.provenance amd64Host) (q := problemAlloc) rfl
  rw [hprov, BigCrypto.resumed_self, BigCrypto.ofWork_toWork] at hloaded₂
  have hbegun : (⟨0xFFFFFFFF#32, 0xFFFFFFE0#32⟩ : Block).int <
    (⟨0xFFFFFFFF#32, 0xFFFFFFFF#32⟩ : Block).int := by decide
  refine ⟨cypher, p, p₂, p₁.contestwork.toWork p₁.unused, hbegun, hload, ?_, hreload, ?_⟩
  · rw [problemRetrieveState, hinit, hwork]
    rfl
  · intro htested
    have hhead := congrArg List.head? htested
    rw [head?_testedKeys hinit hwork,
      head?_testedKeys hloaded₂.consistent.initialized hloaded₂.working, Option.some_inj] at hhead
    have hindex := congrArg Key72.index hhead
    have hvalid := valid_switchRC572Format ⟨0#32, 0#32, 1#32⟩
    have hdiffer : ¬((⟨0#32, 0#32, 1#32⟩ : Key72).int % 2 ^ 72 + (2 ^ 64 + 16)) % 2 ^ 72 =
      ((⟨0#32, 0#32, 1#32⟩ : Key72).int % 2 ^ 72 + (⟨0#32, 16#32⟩ : Block).int) % 2 ^ 72 := by
        decide
    rw [hL0, hloaded₂.consistent.unitwork, L0_unitworkOf, hloaded₂.contestwork, hkeysdone, hkey,
      index_iterate_refKeyStep hvalid, index_iterate_refKeyStep hvalid,
      index_switchRC572Format] at hindex
    exact hdiffer hindex

def dummyWork : BigCrypto :=
  { selftestWork with key := ⟨0#32, 0#32, 0#32⟩, iterations := ⟨5120#32, 0#32⟩ }

/-- A block that was found to match at its first key and saved in progress. -/
def checkedWork : BigCrypto := { selftestWork with check := ⟨1#32, selftestWork.key⟩ }

/-- **Three things that loading and resuming do not do.** The dummy packet is not loaded. The check
block of another client's packet is not emptied when no key is counted as done. And when the counter
wraps before the save, other keys are tested after it. -/
theorem load_resume_limits :
    (dummyWork.key.hi.toNat ≤ 0xFF ∧ dummyWork.keysdone.int < dummyWork.iterations.int ∧
      problemLoadState amd64Host (dummyWork.toWork (0#32, 0#32)) 0x10000#32
        (amd64Host.provenance ⟨5#32, 17#32, 4⟩) problemAlloc = (-1, problemAlloc)) ∧
    (checkedWork.key.hi.toNat ≤ 0xFF ∧ checkedWork.keysdone.int < checkedWork.iterations.int ∧
      ∃ p, problemLoadState amd64Host (checkedWork.toWork (0#32, 0#32)) 0x10000#32
        ⟨0#32, 0#32, 0#32, 0#32⟩ problemAlloc = (0, p) ∧ p.unitwork.check.count = 1#32) ∧
    ∃ cypher p p₂ work,
      (wrappingWork cypher).keysdone.int < (wrappingWork cypher).iterations.int ∧
      problemLoadState amd64Host ((wrappingWork cypher).toWork (0#32, 0#32)) 1#32
        (amd64Host.provenance ⟨5#32, 17#32, 4⟩) problemAlloc = (0, p) ∧
      (problemRetrieveState (runSlice rc572UnitFuncAnsiRef 1#32 p).2 false).1 =
        (some .working, some work) ∧
      problemLoadState amd64Host work 1#32
        ((runSlice rc572UnitFuncAnsiRef 1#32 p).2.provenance amd64Host) problemAlloc = (0, p₂) ∧
      (runSlice rc572UnitFuncAnsiRef 1#32 (runSlice rc572UnitFuncAnsiRef 1#32 p).2).1.tested ≠
        (runSlice rc572UnitFuncAnsiRef 1#32 p₂).1.tested := by
  refine ⟨⟨by decide, by decide, by decide⟩, ⟨by decide, by decide, ?_⟩,
    wrapped_resume faithful_ansiRef⟩
  exact ⟨_, rfl, rfl⟩

end Hyunjin
