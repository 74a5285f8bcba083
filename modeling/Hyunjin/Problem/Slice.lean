import Hyunjin.Problem.Run

/-!
# Slices and runs of slices

Between slices the unit work of a problem is the one that its packet asks for (`Consistent`). That
is what makes a packet a complete record of a problem. On a faithful core a slice is a search, and
`runSlice_eq` says what it makes of the problem. A slice without a match keeps the invariant as long
as the 64-bit counter does not wrap. A match breaks it: the key in the packet is advanced to the
match, and the counter is left as it is. `Sound` says what is left then, so that it holds after
every run.
-/

namespace Hyunjin

open Search

/-! ## The invariant -/

/-- The unit work is the one the packet asks for, and the packet can be loaded. -/
structure Problem.Consistent (p : Problem) : Prop where
  initialized : p.initialized = true
  unitwork : p.unitwork = unitworkOf p.contestwork
  refL0 : p.refL0 = p.unitwork.L0
  valid : p.contestwork.key.Valid
  not_dummy : ¬p.contestwork.IsDummy

theorem Problem.Consistent.valid_L0 {p : Problem} (hp : p.Consistent) : p.unitwork.L0.Valid := by
  rw [hp.unitwork, unitworkOf]
  exact valid_switchRC572Format _

/-- The core and the reference key stand at the same 72-bit key. -/
structure Problem.InStep (p : Problem) : Prop where
  initialized : p.initialized = true
  refL0 : p.refL0 = p.unitwork.L0
  valid_L0 : p.unitwork.L0.Valid

theorem Problem.Consistent.inStep {p : Problem} (hp : p.Consistent) : p.InStep :=
  ⟨hp.initialized, hp.refL0, hp.valid_L0⟩

/-- A problem after a slice in which the core reported the search outcome `r`. -/
def Problem.after (p : Problem) (r : Outcome Key72) : Problem :=
  let check := p.unitwork.check.noteMatches r.matched
  let b := p.contestwork.count (BitVec.ofNat 32 r.steps) check
  { p with
    contestwork := if r.found then { b with key := advanceKey b.key b.keysdone } else b
    unitwork := { p.unitwork with L0 := r.cursor, check := check }
    refL0 := r.cursor
    tslice := BitVec.ofNat 32 r.steps
    lastResultcode := some (if r.found then .found else if b.Done then .nothing else .working) }

section After

variable (p : Problem) (r : Outcome Key72)

@[simp] theorem iterations_after :
    (p.after r).contestwork.iterations = p.contestwork.iterations := by
  simp only [Problem.after, BigCrypto.count]
  split_ifs <;> rfl

@[simp] theorem keysdone_after : (p.after r).contestwork.keysdone =
    addKeysdone p.contestwork.keysdone (BitVec.ofNat 32 r.steps) := by
  simp only [Problem.after, BigCrypto.count]
  split_ifs <;> rfl

theorem key_after : (p.after r).contestwork.key =
    if r.found then advanceKey p.contestwork.key (p.after r).contestwork.keysdone
    else p.contestwork.key := by
  rw [keysdone_after]
  simp only [Problem.after, BigCrypto.count]
  split_ifs <;> rfl

theorem lastResultcode_after : (p.after r).lastResultcode =
    some (if r.found then .found else if (p.after r).contestwork.Done then .nothing
      else .working) := by
  rcases hfound : r.found with _ | _ <;> simp [Problem.after, hfound]

theorem not_done_of_working (h : (p.after r).lastResultcode = some .working) :
    ¬(p.after r).contestwork.Done := by
  intro hdone
  rw [lastResultcode_after, if_pos hdone] at h
  split_ifs at h <;> exact absurd h (by decide)

end After

/-- The search that a slice asks of the core. -/
def Problem.slice (p : Problem) (n : U32) : Outcome Key72 :=
  search p.unitwork.verdict refKeyStep (p.keysToCheck n).toNat p.unitwork.L0

/-- **What a slice does** to a problem that is worked on by a faithful core, and what it returns. -/
theorem runSlice_spec {core : Core} (hcore : core.Faithful) {p : Problem} (hp : p.InStep)
    (hwork : p.lastResultcode = some .working) (n : U32) :
    (runSlice core n p).2 = p.after (p.slice n) ∧
      (runSlice core n p).1.rescode = (p.after (p.slice n)).lastResultcode := by
  have hpipe : HYUNJIN_PIPELINE ∣ (p.keysToCheck n).toNat :=
    Nat.dvd_trans ⟨4, rfl⟩ (dvd_keysToCheck ..)
  have hreturn : core p.unitwork (p.keysToCheck n) = coreReturn p.unitwork (p.slice n) :=
    hcore _ _ hp.valid_L0 hpipe
  rw [Problem.keysToCheck] at hreturn
  have hsteps : (p.slice n).steps < 2 ^ 32 :=
    Nat.lt_of_le_of_lt (steps_search_le ..) (p.keysToCheck n).isLt
  have hstepsNat : (BitVec.ofNat 32 (p.slice n).steps).toNat = (p.slice n).steps := by
    rw [BitVec.toNat_ofNat, Nat.mod_eq_of_lt hsteps]
  have hcursor : incrementKey p.refL0 (BitVec.ofNat 32 (p.slice n).steps) = (p.slice n).cursor := by
    rw [hp.refL0, incrementKey_eq_iterate hp.valid_L0, hstepsNat, Problem.slice, cursor_search]
  set b := p.contestwork.count (BitVec.ofNat 32 (p.slice n).steps)
    (p.unitwork.check.noteMatches (p.slice n).matched) with hb
  -- the reference key agrees with the core's, so the comparison never fails
  simp only [runSlice, problemRun, runRC572, Problem.keysToCheck, hp.initialized, hwork, hreturn,
    coreReturn, hcursor, ← hb, Bool.true_eq_false, if_true, if_false]
  rcases hfound : (p.slice n).found with _ | _
  · by_cases hdone : b.Done
    · simp [Problem.after, hp.initialized, hfound, ← hb, hdone]
    · simp [Problem.after, hp.initialized, hfound, ← hb, hdone]
  · simp [Problem.after, hp.initialized, hfound, ← hb]

theorem runSlice_eq {core : Core} (hcore : core.Faithful) {p : Problem} (hp : p.Consistent)
    (hwork : p.lastResultcode = some .working) (n : U32) :
    (runSlice core n p).2 = p.after (p.slice n) := (runSlice_spec hcore hp.inStep hwork n).1

/-! ### What a slice keeps -/

theorem CheckBlock.valid_noteMatches {c : CheckBlock} (hc : c.key.Valid) {keys : List Key72}
    (hkeys : ∀ k ∈ keys, k.Valid) : (c.noteMatches keys).key.Valid := by
  rw [noteMatches_eq]
  rcases hlast : keys.getLast? with _ | k
  · exact hc
  · exact hkeys k (List.mem_of_getLast? hlast)

/-- The core's check block comes back from the packet as it was. -/
theorem switch_check {p : Problem} (hp : p.Consistent) (n : U32) :
    switchRC572Format (switchRC572Format
      (p.unitwork.check.noteMatches (p.slice n).matched).key) =
        (p.unitwork.check.noteMatches (p.slice n).matched).key := by
  apply switchRC572Format_switchRC572Format
  apply CheckBlock.valid_noteMatches
  · rw [hp.unitwork, unitworkOf]
    exact valid_switchRC572Format _
  · intro k hk
    obtain ⟨i, rfl⟩ := exists_of_mem_matched hk
    exact valid_iterate_refKeyStep hp.valid_L0 i

/-- The keys of a slice that finds nothing. -/
theorem steps_slice {p : Problem} {n : U32} (hfound : (p.slice n).found = false) :
    (p.slice n).steps = (p.keysToCheck n).toNat := steps_of_not_found hfound

theorem slice_le (p : Problem) (n : U32) :
    (p.slice n).steps ≤ (p.keysToCheck n).toNat := steps_search_le ..

theorem int_keysdone_after {p : Problem} {n : U32}
    (hwrap : p.contestwork.keysdone.int + (p.keysToCheck n).toNat < 2 ^ 64) :
    (p.after (p.slice n)).contestwork.keysdone.int =
      p.contestwork.keysdone.int + (p.slice n).steps := by
  have hle := slice_le p n
  have hlt := (p.keysToCheck n).isLt
  rw [keysdone_after, int_addKeysdone, BitVec.toNat_ofNat,
    Nat.mod_eq_of_lt (b := 2 ^ 32) (by omega),
    Nat.mod_eq_of_lt (by omega)]

/-- **A slice without a match keeps the invariant** while the counter does not wrap. -/
theorem consistent_after {p : Problem} (hp : p.Consistent) {n : U32}
    (hfound : (p.slice n).found = false)
    (hwrap : p.contestwork.keysdone.int + (p.keysToCheck n).toNat < 2 ^ 64) :
    (p.after (p.slice n)).Consistent := by
  have hkeysdone := int_keysdone_after hwrap
  have hL0 : (p.slice n).cursor = switchRC572Format (startKey p.contestwork.key
      (p.after (p.slice n)).contestwork.keysdone) := by
    have hcursor : (p.slice n).cursor = refKeyStep^[(p.slice n).steps] p.unitwork.L0 :=
      cursor_search ..
    rw [hcursor, hp.unitwork, unitworkOf]
    apply Key72.index_inj (valid_iterate_refKeyStep (valid_switchRC572Format _) _)
      (valid_switchRC572Format _)
    rw [index_iterate_refKeyStep (valid_switchRC572Format _), index_switchRC572Format,
      index_switchRC572Format, int_startKey, int_startKey, hkeysdone]
    omega
  have hswitch := switch_check hp n
  refine ⟨hp.initialized, ?_, rfl, ?_, ?_⟩
  · have hplain := congrArg RC572UnitWork.plain hp.unitwork
    have hcypher := congrArg RC572UnitWork.cypher hp.unitwork
    simp only [Problem.after, BigCrypto.count, hfound, Bool.false_eq_true, if_false] at hL0 ⊢
    simp only [unitworkOf, RC572UnitWork.mk.injEq, hswitch]
    exact ⟨hplain, hcypher, hL0, trivial⟩
  · simp only [Problem.after, hfound, Bool.false_eq_true, if_false]
    exact hp.valid
  · simp only [Problem.after, hfound, Bool.false_eq_true, if_false]
    exact hp.not_dummy

/-! ## What a packet looks for -/

/-- What a mangled key turns out to be for a packet. -/
def BigCrypto.verdict (b : BigCrypto) : Key72 → Verdict := (unitworkOf b).verdict

/-- The key `i` places after the one in the packet is the key looked for. -/
def BigCrypto.Matches (b : BigCrypto) (i : ℕ) : Prop :=
  b.verdict (refKeyStep^[i] (switchRC572Format b.key)) = .hit

instance (b : BigCrypto) (i : ℕ) : Decidable (b.Matches i) := inferInstanceAs (Decidable (_ = _))

/-- The core starts `keysdone` places after the key in the packet. -/
theorem L0_unitworkOf (b : BigCrypto) :
    (unitworkOf b).L0 = refKeyStep^[b.keysdone.int] (switchRC572Format b.key) := by
  have hvalid := valid_switchRC572Format b.key
  rw [unitworkOf]
  apply Key72.index_inj (valid_switchRC572Format _) (valid_iterate_refKeyStep hvalid _)
  rw [index_switchRC572Format, int_startKey, index_iterate_refKeyStep hvalid,
    index_switchRC572Format, Nat.mod_mod, Nat.mod_add_mod]

theorem iterate_L0 {p : Problem} (hp : p.Consistent) (i : ℕ) :
    refKeyStep^[i] p.unitwork.L0 =
      refKeyStep^[p.contestwork.keysdone.int + i] (switchRC572Format p.contestwork.key) := by
  rw [hp.unitwork, L0_unitworkOf, Nat.add_comm, Function.iterate_add_apply]

/-- The key that a run reports is, mangled, the key the search stopped at. -/
theorem switch_advanceKey {key : Key72} (hkey : key.Valid) (keysdone : Block) :
    switchRC572Format (advanceKey key keysdone) =
      refKeyStep^[keysdone.int] (switchRC572Format key) := by
  have hvalid := valid_switchRC572Format key
  have hint := Key72.int_lt hkey
  have hdone := keysdone.int_lt
  apply Key72.index_inj (valid_switchRC572Format _) (valid_iterate_refKeyStep hvalid _)
  rw [index_switchRC572Format, int_advanceKey, index_iterate_refKeyStep hvalid,
    index_switchRC572Format]
  omega

theorem verdict_unitwork {p : Problem} (hp : p.Consistent) :
    p.unitwork.verdict = p.contestwork.verdict := by
  rw [hp.unitwork, BigCrypto.verdict]

theorem verdict_after (p : Problem) (r : Outcome Key72) :
    (p.after r).contestwork.verdict = p.contestwork.verdict := by
  simp only [Problem.after, BigCrypto.count]
  split_ifs <;> rfl

/-! ## The invariant of all runs -/

/-- What is known of a problem that was loaded and run. -/
def Problem.Sound (p : Problem) : Prop :=
  match p.lastResultcode with
  | some .working => p.Consistent
  | some .nothing => p.Consistent ∧ p.contestwork.Done
  | some .found => p.initialized = true ∧ p.contestwork.Matches 0 ∧ ¬p.contestwork.IsDummy ∧
      (p.contestwork.keysdone.int = 0 → p.contestwork.key.Valid)
  | none => False

/-- The slice does not carry the 64-bit counter of a problem at work past its end. -/
def Unwrapped (n : U32) (p : Problem) : Prop :=
  p.lastResultcode = some .working →
    p.contestwork.keysdone.int + (p.keysToCheck n).toNat < 2 ^ 64

/-- A finished problem is not run. -/
theorem runSlice_finished {core : Core} {p : Problem} (h : p.lastResultcode ≠ some .working)
    (n : U32) : (runSlice core n p).2 = { p with tslice := n } := by
  simp only [runSlice, problemRun, if_neg h]
  split_ifs <;> rfl

theorem sound_after_found {p : Problem} (hp : p.Consistent) {n : U32}
    (hfound : (p.slice n).found = true)
    (hwrap : p.contestwork.keysdone.int + (p.keysToCheck n).toNat < 2 ^ 64) :
    (p.after (p.slice n)).Sound := by
  have hkeysdone := int_keysdone_after hwrap
  have hkey : (p.after (p.slice n)).contestwork.key =
      advanceKey p.contestwork.key (p.after (p.slice n)).contestwork.keysdone := by
    rw [key_after, if_pos hfound]
  have hint : (p.after (p.slice n)).contestwork.key.int =
      p.contestwork.key.int + (p.after (p.slice n)).contestwork.keysdone.int := by
    have hlt := Key72.int_lt hp.valid
    rw [hkey, int_advanceKey, Nat.mod_eq_of_lt]
    have hdone := (p.after (p.slice n)).contestwork.keysdone.int_lt
    omega
  rw [Problem.Sound, lastResultcode_after, if_pos hfound]
  refine ⟨hp.initialized, ?_, ?_, ?_⟩
  · obtain ⟨-, hhit⟩ := found_iff_cursor.mp hfound
    have hcursor : (p.slice n).cursor = refKeyStep^[(p.slice n).steps] p.unitwork.L0 :=
      cursor_search ..
    rw [BigCrypto.Matches, Function.iterate_zero_apply, hkey, switch_advanceKey hp.valid, hkeysdone,
      ← iterate_L0 hp, ← hcursor, verdict_after, ← verdict_unitwork hp]
    exact hhit
  -- a key of zero is not one that was advanced
  · rintro ⟨hzero, hiter⟩
    have hnone : p.contestwork.key.int + (p.after (p.slice n)).contestwork.keysdone.int = 0 := by
      rw [← hint, hzero]
      rfl
    refine hp.not_dummy ⟨Key72.int_inj ?_, ?_⟩
    · exact Nat.eq_zero_of_add_eq_zero_right hnone
    · rw [← hiter, iterations_after]
  · intro hzero
    have hsame : (p.after (p.slice n)).contestwork.key = p.contestwork.key := by
      apply Key72.int_inj
      rw [hint, hzero, Nat.add_zero]
    rw [hsame]
    exact hp.valid

theorem sound_runSlice {core : Core} (hcore : core.Faithful) {p : Problem} (hp : p.Sound)
    {n : U32} (hwrap : Unwrapped n p) : (runSlice core n p).2.Sound := by
  by_cases hwork : p.lastResultcode = some .working
  · have hcons : p.Consistent := by
      rw [Problem.Sound, hwork] at hp
      exact hp
    rw [runSlice_eq hcore hcons hwork]
    rcases hfound : (p.slice n).found with _ | _
    · have hafter := consistent_after hcons hfound (hwrap hwork)
      have hcode := lastResultcode_after p (p.slice n)
      rw [hfound, if_neg Bool.false_ne_true] at hcode
      rw [Problem.Sound, hcode]
      split_ifs with hdone
      · exact ⟨hafter, hdone⟩
      · exact hafter
    · exact sound_after_found hcons hfound (hwrap hwork)
  · rw [runSlice_finished hwork, Problem.Sound]
    rw [Problem.Sound] at hp
    rcases hcode : p.lastResultcode with _ | _ | _ | _ <;> rw [hcode] at hp
    · exact hp.elim
    · exact absurd hcode hwork
    · exact ⟨⟨hp.1.initialized, hp.1.unitwork, hp.1.refL0, hp.1.valid, hp.1.not_dummy⟩, hp.2⟩
    · exact hp

/-- **What is known of a problem stays known** over every run of slices that do not wrap the
counter. -/
theorem sound_run {core : Core} (hcore : core.Faithful) {p : Problem} (hp : p.Sound)
    {ns : List U32} (hrun : Run.Guarded (runSlice core) Unwrapped ns p) :
    (Run.final (runSlice core) ns p).Sound := by
  have hstep : ∀ (n : U32) (p : Problem), p.Sound → Unwrapped n p →
      (runSlice core n p).2.Sound := fun n p hp hwrap ↦ sound_runSlice hcore hp hwrap
  have hfinal := Run.invariant hstep hp hrun
  exact hfinal

/-- A problem at work has keys left. -/
def Problem.Begun (p : Problem) : Prop :=
  p.lastResultcode = some .working → p.contestwork.keysdone.int < p.contestwork.iterations.int

/-- A block that ends a whole word before `2⁶⁴` never wraps the counter. -/
theorem guarded_of_iterations_le {core : Core} (hcore : core.Faithful) {p : Problem} (hp : p.Sound)
    (hbegun : p.Begun) (hsmall : p.contestwork.iterations.int + 2 ^ 32 ≤ 2 ^ 64) (ns : List U32) :
    Run.Guarded (runSlice core) Unwrapped ns p := by
  induction ns generalizing p with
  | nil => trivial
  | cons n ns ih =>
    have hwrap : Unwrapped n p := by
      intro hwork
      have hlt := hbegun hwork
      have hn := (p.keysToCheck n).isLt
      omega
    have hnext := sound_runSlice hcore hp hwrap
    refine ⟨hwrap, ?_⟩
    by_cases hwork : p.lastResultcode = some .working
    · rw [Problem.Sound, hwork] at hp
      rw [runSlice_eq hcore hp hwork] at hnext ⊢
      refine ih hnext ?_ ?_
      · intro hagain
        exact Nat.lt_of_not_le fun hle ↦
          not_done_of_working p _ hagain ((BigCrypto.done_iff _).mpr hle)
      · rw [iterations_after]
        exact hsmall
    · rw [runSlice_finished hwork] at hnext ⊢
      exact ih hnext (fun hagain ↦ absurd hagain hwork) hsmall

end Hyunjin
