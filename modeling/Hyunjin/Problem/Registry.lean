import Hyunjin.Problem.Calls
import Hyunjin.Run.Machine

/-!
# The count of loaded problems

Problems are allocated, loaded, run, retrieved and freed, one call after the other, and the counts
of loaded problems are meant to follow: a load counts up, and a retrieve that purges counts down.
`Registry.CountsRight` says that they are right. A call to free a problem does not look whether it
is loaded; if it is, it stays in the counts for good, as when a self-test is interrupted
(`not_countsRight_interrupted`). As long as every problem is purged before it is freed the counts
are right after any calls (`countsRight_of_paired`).

A load or a retrieve that goes out of range has no result, and nothing is said of what comes after
it.
-/

namespace Hyunjin

/-! ## Calls -/

/-- The problems by their numbers, with `none` for those that have been freed, and the globals. -/
structure Registry where
  problems : List (Option AnyProblem)
  globals : Globals

def Registry.initial (ini : Option U32) : Registry := ⟨[], .initial ini⟩

/-- The problem of a number, if it has been allocated and not freed. -/
def Registry.problem (r : Registry) (i : ℕ) : Option AnyProblem := (r.problems[i]?).join

/-- Calls on problems. An allocation may fail for want of memory. -/
inductive ProblemCall
  | alloc (succeeds : Bool)
  | load (i : ℕ) (loader : Loader) (requested : Requested) (contest iterations : U32)
      (expected : Provenance)
  | run (i : ℕ) (core : AnyProblem → Option CoreRun)
  | retrieve (i : ℕ) (wanted dopurge : Bool)
  | free (i : ℕ)

/-- A call; without a problem it does nothing. -/
def Registry.call (r : Registry) : ProblemCall → Option Registry
  | .alloc succeeds =>
    some (if succeeds then { r with problems := r.problems ++ [some .alloc] } else r)
  | .load i loader requested contest iterations expected =>
    match r.problem i with
    | none => some r
    | some p =>
      (p.load loader requested contest iterations expected r.globals).map fun (_, p, g) ↦
        ⟨r.problems.set i (some p), g⟩
  | .run i core =>
    match r.problem i with
    | none => some r
    | some p => some { r with problems := r.problems.set i (some (p.run core)) }
  | .retrieve i wanted dopurge =>
    match r.problem i with
    | none => some r
    | some p =>
      (p.retrieve wanted dopurge r.globals).map fun (_, p, g) ↦
        ⟨r.problems.set i (some p), g⟩
  | .free i =>
    match r.problem i with
    | none => some r
    | some _ => some { r with problems := r.problems.set i none }

/-- A call as a step of a machine, which stops where a call goes out of range. -/
def registryStep (call : ProblemCall) (r : Option Registry) : Unit × Option Registry :=
  ((), r.bind fun r ↦ r.call call)

/-! ## The counts -/

/-- The slot holds a problem that is loaded, of a contest that satisfies `P`. -/
def loadedIn (P : U32 → Bool) (slot : Option AnyProblem) : Bool :=
  slot.any fun p ↦ p.initialized && P p.contest

/-- The number of loaded problems of a contest. -/
def Registry.count (r : Registry) (contest : U32) : ℕ :=
  r.problems.countP (loadedIn (· == contest))

/-- The contests there are. -/
def contests : List U32 := (List.range CONTEST_COUNT.toNat).map (BitVec.ofNat 32)

/-- **The counts are right**, and stand for problems that a purge can count down. -/
structure Registry.CountsRight (r : Registry) : Prop where
  count : ∀ c ∈ contests, (r.globals.loadedProblems c).toNat = r.count c
  total : (r.globals.loadedProblems CONTEST_COUNT).toNat = (contests.map r.count).sum
  no_wrap : ∀ p, some p ∈ r.problems → p.initialized = true →
    r.globals.loadedProblems p.contest ≠ 0#32 ∧ r.globals.loadedProblems CONTEST_COUNT ≠ 0#32

/-- A problem is freed only when it has been purged, and the total does not run over. -/
def Paired : ProblemCall → Option Registry → Prop
  | .free i, some r => ∀ p, r.problem i = some p → p.initialized = false
  | .load .., some r => r.problems.countP (loadedIn fun _ ↦ true) < 2 ^ 32 - 1
  | _, _ => True

/-! ## What a call does to the counts -/

/-- A run leaves the problem loaded, and its contest. -/
theorem AnyProblem.run_keeps (p : AnyProblem) (core : AnyProblem → Option CoreRun) :
    (p.run core).initialized = p.initialized ∧ (p.run core).contest = p.contest := by
  simp only [run]
  split_ifs
  · exact ⟨rfl, rfl⟩
  · cases core { p with started := true } <;> exact ⟨rfl, rfl⟩
  · exact ⟨rfl, rfl⟩

/-- A retrieve leaves the problem loaded, or purges it and counts it out. -/
theorem AnyProblem.retrieve_cases {p q : AnyProblem} {wanted dopurge : Bool} {g g' : Globals}
    {back : Retrieved} (h : p.retrieve wanted dopurge g = some (back, q, g')) :
    (q.initialized = p.initialized ∧ q.contest = p.contest ∧ g' = g) ∨
    (p.initialized = true ∧ q.initialized = false ∧ g' = g.countPurged p.contest) := by
  rw [retrieve] at h
  by_cases hempty : p.initialized = false
  · rw [if_pos hempty] at h
    cases h
    exact .inl ⟨rfl, rfl, rfl⟩
  · rw [if_neg hempty] at h
    obtain ⟨p', hp', h⟩ := Option.map_eq_some_iff.mp h
    have hkeeps : p'.initialized = p.initialized ∧ p'.contest = p.contest := by
      cases wanted with
      | false =>
        cases hp'
        exact ⟨rfl, rfl⟩
      | true =>
        obtain ⟨hinit, hcontest, -⟩ := AnyProblem.getresult_keeps hp'
        exact ⟨hinit, hcontest⟩
    cases dopurge with
    | false =>
      cases h
      exact .inl ⟨hkeeps.1, hkeeps.2, rfl⟩
    | true =>
      cases h
      exact .inr ⟨(Bool.not_eq_false _).mp hempty, rfl, by rw [hkeeps.2]⟩

/-- Replacing a slot, as it counts. -/
private theorem countP_replace {α : Type*} {l : List α} {i : ℕ} {x y : α} (Q : α → Bool)
    (h : l[i]? = some x) :
    (l.set i y).countP Q + (Q x).toNat = l.countP Q + (Q y).toNat := by
  obtain ⟨hi, rfl⟩ := List.getElem?_eq_some_iff.mp h
  have hpos : Q l[i] = true → 0 < l.countP Q := fun hq ↦
    List.countP_pos_iff.mpr ⟨l[i], List.getElem_mem hi, hq⟩
  rw [List.countP_set hi]
  cases hx : Q l[i] <;> cases hy : Q y <;> simp <;> grind

/-- The counts stand for the problems that are loaded, which are of the contests there are. -/
structure Registry.Counted (r : Registry) : Prop where
  contest : ∀ p, some p ∈ r.problems → p.initialized = true →
    p.contest = RC5_72 ∨ p.contest = OGR_NG
  count : ∀ c, c ≠ CONTEST_COUNT → (r.globals.loadedProblems c).toNat = r.count c
  total : (r.globals.loadedProblems CONTEST_COUNT).toNat =
    r.problems.countP (loadedIn fun _ ↦ true)

namespace Registry

variable {r : Registry} {i : ℕ} {p q : AnyProblem} {g : Globals}

theorem problem_eq_some : r.problem i = some p ↔ r.problems[i]? = some (some p) := by
  rw [problem, Option.join_eq_some_iff]

/-- A slot changes, and the globals with it. -/
private theorem Counted.replace (h : r.Counted) (hp : r.problem i = some p)
    {slot : Option AnyProblem}
    (hcontest : ∀ q, slot = some q → q.initialized = true →
      q.contest = RC5_72 ∨ q.contest = OGR_NG)
    (hcount : ∀ c, c ≠ CONTEST_COUNT → (g.loadedProblems c).toNat +
      (loadedIn (· == c) (some p)).toNat = (r.globals.loadedProblems c).toNat +
        (loadedIn (· == c) slot).toNat)
    (htotal : (g.loadedProblems CONTEST_COUNT).toNat + (loadedIn (fun _ ↦ true) (some p)).toNat =
      (r.globals.loadedProblems CONTEST_COUNT).toNat + (loadedIn (fun _ ↦ true) slot).toNat) :
    Counted ⟨r.problems.set i slot, g⟩ := by
  have hslot := problem_eq_some.mp hp
  refine ⟨fun q hq hinit ↦ ?_, fun c hc ↦ ?_, ?_⟩
  · rcases List.mem_or_eq_of_mem_set hq with hold | hnew
    · exact h.contest q hold hinit
    · exact hcontest q hnew.symm hinit
  · change (g.loadedProblems c).toNat = (r.problems.set i slot).countP (loadedIn (· == c))
    have hset := countP_replace (y := slot) (loadedIn (· == c)) hslot
    have hold : _ = r.problems.countP (loadedIn (· == c)) := h.count c hc
    have hnew := hcount c hc
    omega
  · change (g.loadedProblems CONTEST_COUNT).toNat =
      (r.problems.set i slot).countP (loadedIn fun _ ↦ true)
    have hset := countP_replace (y := slot) (loadedIn fun _ ↦ true) hslot
    have hold := h.total
    omega

/-- The problem changes, but not whether it is loaded, nor its contest. -/
private theorem Counted.keep (h : r.Counted) (hp : r.problem i = some p)
    (hinit : q.initialized = p.initialized) (hcontest : q.contest = p.contest)
    (hg : g.loadedProblems = r.globals.loadedProblems) :
    Counted ⟨r.problems.set i (some q), g⟩ := by
  have hmem := List.mem_of_getElem? (problem_eq_some.mp hp)
  have hsame (P : U32 → Bool) : loadedIn P (some q) = loadedIn P (some p) := by
    rw [loadedIn, loadedIn, Option.any_some, Option.any_some, hinit, hcontest]
  refine h.replace hp (fun q' hq' hloaded ↦ ?_) (fun c _ ↦ ?_) ?_
  · cases hq'
    rw [hcontest]
    exact h.contest p hmem (hinit.symm.trans hloaded)
  · rw [hg, hsame]
  · rw [hg, hsame]

/-- A problem is loaded. -/
private theorem Counted.loaded (h : r.Counted) (hp : r.problem i = some p)
    (hempty : p.initialized = false) (hinit : q.initialized = true)
    (hcontest : q.contest = RC5_72 ∨ q.contest = OGR_NG)
    (hg : g.loadedProblems = (r.globals.countLoaded q.contest).loadedProblems)
    (hroom : r.problems.countP (loadedIn fun _ ↦ true) < 2 ^ 32 - 1) :
    Counted ⟨r.problems.set i (some q), g⟩ := by
  have hold (P : U32 → Bool) : loadedIn P (some p) = false := by
    rw [loadedIn, Option.any_some, hempty, Bool.false_and]
  have hnew (P : U32 → Bool) : loadedIn P (some q) = P q.contest := by
    rw [loadedIn, Option.any_some, hinit, Bool.true_and]
  have hne : q.contest ≠ CONTEST_COUNT := by
    rcases hcontest with hc | hc <;> rw [hc] <;> decide
  have hle : r.count q.contest ≤ r.problems.countP (loadedIn fun _ ↦ true) := by
    refine List.countP_mono_left fun slot _ hslot ↦ ?_
    cases slot with
    | none => exact hslot
    | some p =>
      simp only [loadedIn, Option.any_some, Bool.and_eq_true] at hslot ⊢
      exact ⟨hslot.1, trivial⟩
  have hc := h.count q.contest hne
  have ht := h.total
  refine h.replace hp (fun q' hq' _ ↦ ?_) (fun c hc' ↦ ?_) ?_
  · cases hq'
    exact hcontest
  · rw [hold, hnew, hg, Globals.countLoaded]
    dsimp only
    rw [Function.update_of_ne hc']
    by_cases hqc : q.contest = c
    · subst hqc
      rw [Function.update_self, BitVec.toNat_add_of_lt (by simp; omega)]
      simp
    · rw [Function.update_of_ne (Ne.symm hqc), beq_eq_false_iff_ne.mpr hqc]
  · rw [hold, hnew, hg, Globals.countLoaded]
    dsimp only
    rw [Function.update_self, Function.update_of_ne hne.symm,
      BitVec.toNat_add_of_lt (by simp; omega)]
    simp

/-- A loaded problem is counted, by its contest and in total. -/
private theorem Counted.pos (h : r.Counted) (hmem : some p ∈ r.problems)
    (hinit : p.initialized = true) : 0 < (r.globals.loadedProblems p.contest).toNat ∧
      0 < (r.globals.loadedProblems CONTEST_COUNT).toNat := by
  have hne : p.contest ≠ CONTEST_COUNT := by
    rcases h.contest p hmem hinit with hc | hc <;> rw [hc] <;> decide
  rw [h.count _ hne, h.total]
  refine ⟨List.countP_pos_iff.mpr ⟨_, hmem, ?_⟩, List.countP_pos_iff.mpr ⟨_, hmem, ?_⟩⟩
  · rw [loadedIn, Option.any_some, hinit, Bool.true_and]
    exact beq_self_eq_true p.contest
  · rw [loadedIn, Option.any_some, hinit, Bool.true_and]

/-- A loaded problem is purged. -/
private theorem Counted.purged (h : r.Counted) (hp : r.problem i = some p)
    (hinit : p.initialized = true) (hempty : q.initialized = false)
    (hg : g.loadedProblems = (r.globals.countPurged p.contest).loadedProblems) :
    Counted ⟨r.problems.set i (some q), g⟩ := by
  have hold (P : U32 → Bool) : loadedIn P (some p) = P p.contest := by
    rw [loadedIn, Option.any_some, hinit, Bool.true_and]
  have hnew (P : U32 → Bool) : loadedIn P (some q) = false := by
    rw [loadedIn, Option.any_some, hempty, Bool.false_and]
  have hmem := List.mem_of_getElem? (problem_eq_some.mp hp)
  obtain ⟨hpos, hpos'⟩ := h.pos hmem hinit
  have hne : p.contest ≠ CONTEST_COUNT := by
    rcases h.contest p hmem hinit with hc | hc <;> rw [hc] <;> decide
  have hone {x : U32} (hx : 0 < x.toNat) : (x - 1#32).toNat + 1 = x.toNat := by
    have hle : 1#32 ≤ x := BitVec.le_def.mpr hx
    rw [BitVec.toNat_sub_of_le hle]
    exact Nat.sub_add_cancel hx
  refine h.replace hp (fun q' hq' hloaded ↦ ?_) (fun c hc' ↦ ?_) ?_
  · cases hq'
    exact absurd (hempty.symm.trans hloaded) Bool.false_ne_true
  · rw [hold, hnew, hg, Globals.countPurged]
    dsimp only
    rw [Function.update_of_ne hc']
    by_cases hpc : p.contest = c
    · subst hpc
      rw [Function.update_self, beq_self_eq_true]
      exact hone hpos
    · rw [Function.update_of_ne (Ne.symm hpc), beq_eq_false_iff_ne.mpr hpc]
  · rw [hold, hnew, hg, Globals.countPurged]
    dsimp only
    rw [Function.update_self, Function.update_of_ne hne.symm]
    exact hone hpos'

/-- **A call** keeps the counts, if it is paired. -/
theorem Counted.call {r' : Registry} {c : ProblemCall} (h : r.Counted) (hpaired : Paired c (some r))
    (hcall : r.call c = some r') : r'.Counted := by
  cases c with
  | alloc succeeds =>
    rw [Registry.call] at hcall
    cases hcall
    cases succeeds with
    | false => exact h
    | true =>
      have hnew (P : U32 → Bool) : loadedIn P (some .alloc) = false := rfl
      refine ⟨fun p hp hinit ↦ ?_, fun c hc ↦ ?_, ?_⟩
      · rcases List.mem_append.mp hp with hold | hnew
        · exact h.contest p hold hinit
        · cases List.mem_singleton.mp hnew
          exact absurd hinit Bool.false_ne_true
      · have hold : _ = r.problems.countP (loadedIn (· == c)) := h.count c hc
        simpa [Registry.count, hnew] using hold
      · simpa [hnew] using h.total
  | load i loader requested contest iterations expected =>
    rw [Registry.call] at hcall
    rcases hp : r.problem i with _ | p
    · -- a call for a problem that is not there does nothing
      rw [hp] at hcall
      cases hcall
      exact h
    rw [hp] at hcall
    obtain ⟨⟨code, p', g'⟩, hload, rfl⟩ := Option.map_eq_some_iff.mp hcall
    obtain ⟨⟨res, g''⟩, hinternal, hres⟩ := Option.map_eq_some_iff.mp hload
    have hloads := AnyProblem.loads_of_internalLoad hinternal
    cases hloads with
    | refused e =>
      cases hres
      exact h.keep hp rfl rfl rfl
    | rejected isRC572 empty ready found bad =>
      cases hres
      exact h.keep hp rfl rfl (Globals.loadedProblems_setRandomSubspace ..)
    | loaded permitted empty initialized sameContest notStarted counted =>
      cases hres
      exact h.loaded hp empty initialized (by rwa [sameContest]) (by rwa [sameContest]) hpaired
  | run i core =>
    rw [Registry.call] at hcall
    rcases hp : r.problem i with _ | p
    · rw [hp] at hcall
      cases hcall
      exact h
    rw [hp] at hcall
    cases hcall
    obtain ⟨hinit, hcontest⟩ := p.run_keeps core
    exact h.keep hp hinit hcontest rfl
  | retrieve i wanted dopurge =>
    rw [Registry.call] at hcall
    rcases hp : r.problem i with _ | p
    · rw [hp] at hcall
      cases hcall
      exact h
    rw [hp] at hcall
    obtain ⟨⟨back, q, g⟩, hretrieve, rfl⟩ := Option.map_eq_some_iff.mp hcall
    rcases AnyProblem.retrieve_cases hretrieve with
      ⟨hinit, hcontest, hg⟩ | ⟨hloaded, hempty, hg⟩
    · exact h.keep hp hinit hcontest (congrArg Globals.loadedProblems hg)
    · exact h.purged hp hloaded hempty (congrArg Globals.loadedProblems hg)
  | free i =>
    rw [Registry.call] at hcall
    rcases hp : r.problem i with _ | p
    · rw [hp] at hcall
      cases hcall
      exact h
    rw [hp] at hcall
    cases hcall
    -- only a problem that was purged may be freed, and it is counted nowhere
    have hold (P : U32 → Bool) : loadedIn P (some p) = false := by
      rw [loadedIn, Option.any_some, hpaired p hp, Bool.false_and]
    refine h.replace hp (fun q hq ↦ absurd hq.symm (Option.some_ne_none q)) (fun c _ ↦ ?_) ?_
    · rw [hold]
      rfl
    · rw [hold]
      rfl

private theorem countP_split {slots : List (Option AnyProblem)}
    (h : ∀ p, some p ∈ slots → p.initialized = true → p.contest = RC5_72 ∨ p.contest = OGR_NG) :
    slots.countP (loadedIn fun _ ↦ true) =
      slots.countP (loadedIn (· == OGR_NG)) + slots.countP (loadedIn (· == RC5_72)) := by
  induction slots with
  | nil => rfl
  | cons slot slots ih =>
    have hrest := ih fun p hp ↦ h p (List.mem_cons_of_mem _ hp)
    have hslot : (loadedIn (fun _ ↦ true) slot).toNat =
        (loadedIn (· == OGR_NG) slot).toNat + (loadedIn (· == RC5_72) slot).toNat := by
      rcases slot with _ | p
      · rfl
      · simp only [loadedIn, Option.any_some]
        cases hinit : p.initialized with
        | false => rfl
        | true =>
          rcases h p List.mem_cons_self hinit with hc | hc <;> rw [hc] <;> decide
    have hcons (Q : Option AnyProblem → Bool) :
        (slot :: slots).countP Q = slots.countP Q + (Q slot).toNat := by
      rw [List.countP_cons]
      cases Q slot <;> rfl
    rw [hcons, hcons, hcons]
    omega

/-- Counts that stand for the problems are right. -/
theorem Counted.countsRight (h : r.Counted) : r.CountsRight := by
  have hother (c : U32) (hrc5 : c ≠ RC5_72) (hogr : c ≠ OGR_NG) : r.count c = 0 := by
    rw [Registry.count, List.countP_eq_zero]
    intro slot hslot hloaded
    cases slot with
    | none => exact absurd hloaded Bool.false_ne_true
    | some p =>
      rw [loadedIn, Option.any_some, Bool.and_eq_true, beq_iff_eq] at hloaded
      obtain ⟨hinit, rfl⟩ := hloaded
      exact (h.contest p hslot hinit).elim hrc5 hogr
  have hsplit : r.problems.countP (loadedIn fun _ ↦ true) = r.count OGR_NG + r.count RC5_72 :=
    countP_split h.contest
  refine ⟨fun c hc ↦ h.count c ?_, ?_, fun p hp hinit ↦ ?_⟩
  · rintro rfl
    exact absurd hc (by decide)
  · rw [h.total, hsplit]
    have hcontests : contests = [0#32, 1#32, 2#32, 3#32, OGR_NG, RC5_72, 6#32] := by decide
    simp only [hcontests, List.map_cons, List.map_nil, List.sum_cons, List.sum_nil]
    rw [hother 0#32 (by decide) (by decide), hother 1#32 (by decide) (by decide),
      hother 2#32 (by decide) (by decide), hother 3#32 (by decide) (by decide),
      hother 6#32 (by decide) (by decide)]
    omega
  · obtain ⟨hpos, hpos'⟩ := h.pos hp hinit
    exact ⟨fun h0 ↦ by rw [h0] at hpos; exact absurd hpos (by decide),
      fun h0 ↦ by rw [h0] at hpos'; exact absurd hpos' (by decide)⟩

end Registry

/-- A problem that is loaded must not be freed: the counts keep it. -/
theorem Registry.Counted.not_countsRight_free {r : Registry} {i : ℕ} {p : AnyProblem}
    (h : r.Counted) (hp : r.problem i = some p) (hinit : p.initialized = true) :
    ¬Registry.CountsRight { r with problems := r.problems.set i none } := by
  intro hright
  have hc := h.contest p (List.mem_of_getElem? (problem_eq_some.mp hp)) hinit
  have hmem : p.contest ∈ contests := by rcases hc with hc | hc <;> rw [hc] <;> decide
  have hne : p.contest ≠ CONTEST_COUNT := by rcases hc with hc | hc <;> rw [hc] <;> decide
  have hbefore := h.count _ hne
  have hafter := hright.count _ hmem
  have hset := countP_replace (y := none) (loadedIn (· == p.contest)) (problem_eq_some.mp hp)
  have hloaded : loadedIn (· == p.contest) (some p) = true := by
    rw [loadedIn, Option.any_some, hinit, Bool.true_and]
    exact beq_self_eq_true p.contest
  change (r.globals.loadedProblems p.contest).toNat =
    (r.problems.set i none).countP (loadedIn (· == p.contest)) at hafter
  rw [Registry.count] at hbefore
  rw [hloaded, show loadedIn (· == p.contest) none = false from rfl] at hset
  simp only [Bool.toNat_true, Bool.toNat_false] at hset
  omega

/-! ## Runs -/

/-- **The counts are right after any calls**, as long as every problem is purged before it is
freed. -/
theorem countsRight_of_paired {calls : List ProblemCall} {ini : Option U32} {r : Registry}
    (hpaired : Run.Guarded registryStep Paired calls (some (.initial ini)))
    (hfinal : Run.final registryStep calls (some (.initial ini)) = some r) : r.CountsRight := by
  let inv (s : Option Registry) : Prop := ∀ r, s = some r → r.Counted
  have hstep : ∀ c s, inv s → Paired c s → inv (registryStep c s).2 := by
    intro c s hs hguard r' hr'
    obtain ⟨r, rfl, hcall⟩ := Option.bind_eq_some_iff.mp hr'
    exact (hs r rfl).call hguard hcall
  have hinitial : inv (some (.initial ini)) := by
    rintro r hr
    cases hr
    exact ⟨fun p hp ↦ absurd hp List.not_mem_nil, fun c _ ↦ rfl, rfl⟩
  exact (Run.invariant hstep hinitial hpaired r hfinal).countsRight

/-- A load of the self-test's block. -/
def loadSelftest : ProblemCall :=
  .load 0 cudaLoader (.packet (selftestWork.toWork (0#32, 0#32))) RC5_72 48#32
    ⟨0#32, 0#32, 0#32, 0#32⟩

/-- A problem that is loaded, purged and freed. -/
theorem countsRight_of_paired_purged : ∃ r, Run.final registryStep
      [.alloc true, loadSelftest, .retrieve 0 true true, .free 0] (some (.initial none)) = some r ∧
    r.CountsRight := by
  have hpurged : ((Run.final registryStep [.alloc true, loadSelftest, .retrieve 0 true true]
      (some (.initial none))).map fun r ↦ (r.problem 0).map AnyProblem.initialized) =
        some (some false) := by
    decide +kernel
  obtain ⟨r, hr, hempty⟩ := Option.map_eq_some_iff.mp hpurged
  obtain ⟨p, hp, hinit⟩ := Option.map_eq_some_iff.mp hempty
  have hfree : Paired (.free 0) (some r) := by
    intro q hq
    cases hp.symm.trans hq
    exact hinit
  have hfinal : Run.final registryStep [.alloc true, loadSelftest, .retrieve 0 true true, .free 0]
      (some (.initial none)) = (some r).bind fun r ↦ r.call (.free 0) := by
    rw [← hr]
    rfl
  rw [Option.bind_some, Registry.call, hp] at hfinal
  rw [← hr] at hfree
  have hroom : Paired loadSelftest (some ⟨[some .alloc], .initial none⟩) :=
    show 0 < 2 ^ 32 - 1 by decide
  have hpaired : Run.Guarded registryStep Paired
      [.alloc true, loadSelftest, .retrieve 0 true true, .free 0] (some (.initial none)) :=
    ⟨trivial, hroom, trivial, hfree, trivial⟩
  exact ⟨_, hfinal, countsRight_of_paired hpaired hfinal⟩

/-- A self-test that is interrupted frees its problem as it is. -/
def interrupted : List ProblemCall := [.alloc true, loadSelftest, .free 0]

/-- **A problem that is freed while it is loaded** stays in the counts. -/
theorem not_countsRight_interrupted : ¬∀ (calls : List ProblemCall) (ini : Option U32)
    (r : Registry), Run.final registryStep calls (some (.initial ini)) = some r →
      r.CountsRight := by
  intro h
  have hrun : (Run.final registryStep interrupted (some (.initial none))).map (fun r ↦
      (r.globals.loadedProblems RC5_72, r.count RC5_72)) = some (1#32, 0) := by
    decide +kernel
  obtain ⟨r, hfinal, hcounts⟩ := Option.map_eq_some_iff.mp hrun
  obtain ⟨hloaded, hcount⟩ := Prod.mk.inj hcounts
  have hright := (h interrupted none r hfinal).count RC5_72 (by decide)
  rw [hloaded, hcount] at hright
  exact absurd hright (by decide)

end Hyunjin
