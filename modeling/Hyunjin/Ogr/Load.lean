import Hyunjin.Ogr.Create
import Hyunjin.Problem.State

/-!
# Loading an OGR-NG packet

The fields of a packet are whatever the buffer has them to be, and the loader indexes arrays with
them. Here every access to an array says which place it is at, and a load that comes to an access
out of range has no result: what the program does from there on is not defined. `ogrCreateChecked`
is `ogrCreate` with its accesses, and agrees with it as long as the length table is read in range
(`ogrCreateChecked_eq`); the depth of the stub is checked before anything else is indexed with it.

The loader itself is less careful. It writes the last difference of a combined stub that is
restarted, and reads the differences around the end of the stub for the permille, by the length that
the packet has. `isSome_problemLoadOgr_iff` is the condition on the packet under which all accesses
are in range.
-/

namespace Hyunjin

/-! ## Accesses in range -/

/-- The place of index `i` in an array of `size` elements, if it is in range. -/
def place (size : ℕ) (i : ℤ) : Option ℕ := if 0 ≤ i ∧ i < size then some i.toNat else none

theorem place_natCast {size i : ℕ} (h : i < size) : place size i = some i :=
  if_pos ⟨Int.natCast_nonneg i, Int.ofNat_lt.mpr h⟩

theorem isSome_place {size : ℕ} {i : ℤ} : (place size i).isSome ↔ 0 ≤ i ∧ i < size := by
  rw [place]
  split_ifs with h
  · exact iff_of_true rfl h
  · exact iff_of_false Bool.false_ne_true h

/-! ## Creating a state -/

def OGR_MAXDEPTH : ℕ := OGR_NG_MAX + 1

def CHOOSE_DIST_BITS : ℕ := 16

def CHOOSE_MARKS : ℕ := 16

def ogrngChooseBits : ℕ := 16

def ogrngChooseMarks : ℕ := 16

def CORE_E_INTERNAL : ℤ := -4

def ogrInit : ℤ :=
  if CHOOSE_DIST_BITS ≠ ogrngChooseBits ∨ CHOOSE_MARKS ≠ ogrngChooseMarks then CORE_E_INTERNAL
  else CORE_S_OK

/-- The size of a table of limits. -/
def limitElems : ℕ := 32 <<< CHOOSE_DIST_BITS

/-- The index that `choose` reads a table of limits at. -/
def chooseIndex (dist0 : U32) (seg : ℕ) : ℤ := ((dist0 >>> 16).toNat * 32 + seg : ℕ)

/-- `createLoop` with its accesses. The limit of the current level is a local variable there. -/
def createLoopChecked (o : OgrState) (pchoose : ℕ → U16) (diffs : Vector U16 28) :
    ℕ → ℕ → ℤ → Bool → (ℕ → OgrLevel) → Option (Except ℤ (ℕ → OgrLevel))
  | 0, _, _, _, levels => some (.ok levels)
  | left + 1, depth, mark, newbit, levels =>
    (place OGR_STUB_MAX ((depth : ℤ) - 1)).bind fun i ↦
    let s := ((diffs[i]?).getD 0#16).toNat
    let mark := mark + s
    if (levels depth).limit < mark then some (.error CORE_E_STUB)
    else
      (place OGR_MAXDEPTH depth).bind fun depth ↦
      match stubMove s (levels depth) newbit with
      | none => some (.error CORE_E_STUB)
      | some lev =>
        (place OGR_MAXDEPTH (depth + 1 : ℕ)).bind fun next ↦
        let levels := o.pushLevel pchoose levels depth lev mark
        (place limitElems (chooseIndex (levels next).dist.w0 next)).bind fun _ ↦
        (if o.halfDepth < next ∧ next ≤ o.halfDepth2 then place OGR_MAXDEPTH o.halfDepth
          else some 0).bind fun _ ↦
        let levels := Function.update levels next { levels next with mark := mark }
        createLoopChecked o pchoose diffs left next mark true levels

/-- `ogrCreate` with its accesses. -/
def ogrCreateChecked (pchoose : ℕ → U16) (cacheHealthy : Bool) (workstub : OgrWorkStub)
    (lastSegment : ℤ) : Option (Except ℤ OgrState) :=
  let o := initialState workstub
  (place OGR.length ((o.maxdepth : ℤ) - 1)).bind fun _ ↦
  if o.maxdepth < OGR_NG_MIN ∨ OGR_NG_MAX < o.maxdepth then some (.error CORE_E_FORMAT)
  else if cacheHealthy = false then some (.error CORE_E_CORRUPTED)
  else
    (place OGR_MAXDEPTH 1).bind fun _ ↦
    (place (OGR_NG_MAX - OGR_NG_MIN + 1) ((o.maxdepth : ℤ) - OGR_NG_MIN)).bind fun _ ↦
    let n := workstub.placed
    if OGR_STUB_MAX ≤ n then some (.error CORE_E_FORMAT)
    else
      (place limitElems (chooseIndex 0#32 1)).bind fun _ ↦
      let levels := Function.update o.levels 1 { o.levels 1 with limit := choose pchoose 0#32 1 }
      (createLoopChecked o pchoose workstub.stub.diffs n 1 0 (1 < o.maxdepthm1) levels).map fun
        | .error e => .error e
        | .ok levels =>
          let startdepth := workstub.stub.length.toNat
          .ok { o with
            levels := levels
            depth := n
            startdepth := startdepth
            stopdepth := if lastSegment ≠ 0 then (startdepth : ℤ) - 1 else startdepth }

variable {pchoose : ℕ → U16}

private theorem chooseIndex_place (dist0 : U32) {seg : ℕ} (hseg : seg < 32) :
    ∃ i, place limitElems (chooseIndex dist0 seg) = some i := by
  have hword : (dist0 >>> 16).toNat < 2 ^ 16 := by
    rw [BitVec.toNat_ushiftRight, Nat.shiftRight_eq_div_pow]
    have := dist0.isLt
    omega
  refine ⟨_, place_natCast ?_⟩
  calc (dist0 >>> 16).toNat * 32 + seg
    _ < 2 ^ 16 * 32 := by omega
    _ = limitElems := rfl

/-- **The accesses of the loop** are in range for a stub of less than `OGR_STUB_MAX` marks. -/
theorem createLoopChecked_eq (o : OgrState) (hhalf : o.halfDepth < OGR_MAXDEPTH)
    (diffs : Vector U16 28)
    {left depth : ℕ} (hpos : 0 < depth) (hle : depth + left ≤ OGR_STUB_MAX) (mark : ℤ)
      (newbit : Bool)
    (levels : ℕ → OgrLevel) : createLoopChecked o pchoose diffs left depth mark newbit levels =
      some (createLoop o pchoose diffs left depth mark newbit levels) := by
  induction left generalizing depth mark newbit levels with
  | zero => rfl
  | succ left ih =>
    have hdiff : place OGR_STUB_MAX ((depth : ℤ) - 1) = some (depth - 1) := by
      rw [show (depth : ℤ) - 1 = ((depth - 1 : ℕ) : ℤ) by omega]
      exact place_natCast (by omega)
    have hmax : OGR_MAXDEPTH = OGR_STUB_MAX + 1 := rfl
    have hdepth : place OGR_MAXDEPTH depth = some depth := place_natCast (by omega)
    have hnext : place OGR_MAXDEPTH ((depth + 1 : ℕ) : ℤ) = some (depth + 1) :=
      place_natCast (by omega)
    have hhere : place OGR_MAXDEPTH o.halfDepth = some o.halfDepth := place_natCast hhalf
    rw [createLoopChecked, createLoop, hdiff, Option.bind_some]
    dsimp only
    generalize ((diffs[depth - 1]?).getD 0#16).toNat = t
    by_cases hlimit : (levels depth).limit < mark + t
    · rw [if_pos hlimit, if_pos hlimit]
    · rw [if_neg hlimit, if_neg hlimit, hdepth, Option.bind_some]
      rcases stubMove t (levels depth) newbit with _ | lev
      · rfl
      · obtain ⟨i, hi⟩ := chooseIndex_place
          (o.pushLevel pchoose levels depth lev (mark + t) (depth + 1)).dist.w0
          (by have : OGR_STUB_MAX = 28 := rfl; omega : depth + 1 < 32)
        dsimp only
        have hmid : ∃ j, (if o.halfDepth < depth + 1 ∧ depth + 1 ≤ o.halfDepth2 then
            place OGR_MAXDEPTH o.halfDepth else some 0) = some j := by
          rw [hhere]
          split_ifs
          · exact ⟨_, rfl⟩
          · exact ⟨_, rfl⟩
        obtain ⟨j, hj⟩ := hmid
        rw [hnext, Option.bind_some, hi, Option.bind_some, hj, Option.bind_some]
        exact ih (Nat.succ_pos depth) (by omega) _ _ _

theorem halfDepth_lt (workstub : OgrWorkStub) (hmax : workstub.stub.marks.toNat ≤ OGR_NG_MAX) :
    (initialState workstub).halfDepth < OGR_MAXDEPTH := by
  have hmax' : workstub.stub.marks.toNat ≤ 28 := hmax
  have hdepth : OGR_MAXDEPTH = 29 := rfl
  dsimp only [initialState]
  omega

/-- **The accesses of `ogrCreate`** are in range if that of the length table is. -/
theorem ogrCreateChecked_eq (cacheHealthy : Bool) (workstub : OgrWorkStub) (lastSegment : ℤ) :
    ogrCreateChecked pchoose cacheHealthy workstub lastSegment =
      if 0 < workstub.stub.marks.toNat ∧ workstub.stub.marks.toNat ≤ OGR.length then
        some (ogrCreate pchoose cacheHealthy workstub lastSegment)
      else none := by
  have hmaxdepth : (initialState workstub).maxdepth = workstub.stub.marks.toNat := rfl
  have hlength : OGR.length = 29 := rfl
  simp only [ogrCreateChecked, ogrCreate, hmaxdepth]
  by_cases hmarks : 0 < workstub.stub.marks.toNat ∧ workstub.stub.marks.toNat ≤ OGR.length
  · have htable : place OGR.length ((workstub.stub.marks.toNat : ℤ) - 1) =
        some (workstub.stub.marks.toNat - 1) := by
      rw [show (workstub.stub.marks.toNat : ℤ) - 1
        = ((workstub.stub.marks.toNat - 1 : ℕ) : ℤ) by omega]
      exact place_natCast (by omega)
    rw [if_pos hmarks, htable, Option.bind_some]
    by_cases hrange : workstub.stub.marks.toNat < OGR_NG_MIN ∨ OGR_NG_MAX
      < workstub.stub.marks.toNat
    · rw [if_pos hrange, if_pos hrange]
    obtain ⟨hmin, hmax⟩ := not_or.mp hrange
    rw [if_neg hrange, if_neg hrange]
    by_cases hcache : cacheHealthy = false
    · rw [if_pos hcache, if_pos hcache]
    have hlimits : place (OGR_NG_MAX - OGR_NG_MIN + 1)
      ((workstub.stub.marks.toNat : ℤ) - OGR_NG_MIN) =
        some (workstub.stub.marks.toNat - OGR_NG_MIN) := by
      rw [← Int.ofNat_sub (not_lt.mp hmin)]
      exact place_natCast (by omega)
    have hfirst : place OGR_MAXDEPTH 1 = some 1 := rfl
    rw [if_neg hcache, if_neg hcache, hfirst, Option.bind_some, hlimits, Option.bind_some]
    by_cases hplaced : OGR_STUB_MAX ≤ workstub.placed
    · rw [if_pos hplaced, if_pos hplaced]
    obtain ⟨i, hi⟩ := chooseIndex_place 0#32 (by decide : 1 < 32)
    rw [if_neg hplaced, if_neg hplaced, hi, Option.bind_some]
    refine (congrArg (Option.map _)
      (createLoopChecked_eq _ (halfDepth_lt workstub (not_lt.mp hmax)) _
      Nat.one_pos (by omega) _ _ _)).trans ?_
    generalize createLoop (initialState workstub) pchoose workstub.stub.diffs = loop
    cases loop workstub.placed 1 0 (decide (1 < (initialState workstub).maxdepthm1)) _ with
    | error e => rfl
    | ok levels => rfl
  · have htable : place OGR.length ((workstub.stub.marks.toNat : ℤ) - 1) = none := by
      rw [← Option.not_isSome_iff_eq_none, isSome_place]
      omega
    rw [if_neg hmarks, htable]
    rfl

/-! ## The loader -/

/-- The work of an OGR-NG packet. -/
structure OgrWork where
  workstub : OgrWorkStub
  nodes : Block
  deriving DecidableEq

/-- A problem with OGR-NG work. -/
structure OgrProblem where
  initialized : Bool
  lastResultcode : Option Resultcode
  contestwork : OgrWork
  coreMembuffer : OgrState
  startkeys : Block
  startpermille : ℕ
  wasReset : Bool
  clientCpu : U32
  coresel : U32
  tslice : U32

/-- Work that another client has begun is restarted; of a combined stub the last difference is
restored. -/
def OgrWork.restart (work : OgrWork) : Option OgrWork :=
  let workstub := { work.workstub with worklength := work.workstub.stub.length }
  if workstub.collapsed ≠ 0#16 then
    (place OGR_STUB_MAX ((workstub.stub.length.toNat : ℤ) - 1)).map fun i ↦
    { workstub := { workstub with
        stub := { workstub.stub with
          diffs := workstub.stub.diffs.setIfInBounds i workstub.collapsed } }
      nodes := ⟨0#32, 0#32⟩ }
  else some { workstub := workstub, nodes := ⟨0#32, 0#32⟩ }

/-- The permille from the first two differences that the core changes. -/
def computePermille (workstub : OgrWorkStub) : Option ℕ :=
  if workstub.stub.length < workstub.worklength then
    let index : ℤ := (if workstub.collapsed ≠ 0#16 then -1 else 0) + workstub.stub.length.toNat
    (place OGR_STUB_MAX index).bind fun i ↦
    (place OGR_STUB_MAX (index + 1)).map fun j ↦
    stubDiff workstub.stub.diffs i * 10 + stubDiff workstub.stub.diffs j / 10
  else some 0

/-- The guts of a load. The caches of limits are those of `ogr_check_cache` and `precomp_limits`, by
the number of marks. -/
def internalLoadOgr (host : Host) (checkCache : ℕ → Bool) (precompLimits : ℕ → ℕ → U16)
    (work : OgrWork) (iterations : U32) (expected : Provenance) (p : OgrProblem) :
    Option (Except LoadError OgrProblem) :=
  if p.initialized then some (.error .retry)
  else if host.loadPermitted = false then some (.error .retry)
  else
    match host.selcore with
    | none => some (.error .abort)
    | some sel =>
      let wasReset := (work.nodes.hi ≠ 0#32 ∨ work.nodes.lo ≠ 0#32) ∧
        (sel.clientCpu ≠ expected.cpu ∨ sel.coresel ≠ expected.core ∨ host.os ≠ expected.os ∨
          host.build ≠ expected.build)
      (if wasReset then work.restart else some work).bind fun work ↦
      if ogrInit ≠ CORE_S_OK then some (.error .retry)
      else
        let marks := work.workstub.stub.marks.toNat
        (ogrCreateChecked (precompLimits marks) (checkCache marks) work.workstub
          work.workstub.collapsed.toNat).bind fun
        | .error _ => some (.error .retry)
        | .ok core =>
          let begun := work.workstub.stub.length < work.workstub.worklength
          (if begun then computePermille work.workstub else some 0).map fun permille ↦
          .ok
            { p with
              initialized := true
              lastResultcode := some .working
              contestwork := work
              coreMembuffer := core
              startkeys := if begun then work.nodes else ⟨0#32, 0#32⟩
              startpermille := permille
              wasReset := wasReset
              clientCpu := sel.clientCpu
              coresel := sel.coresel
              tslice := iterations }

/-- Load an OGR-NG packet. The problem is written back only on success. -/
def problemLoadOgr (host : Host) (checkCache : ℕ → Bool) (precompLimits : ℕ → ℕ → U16)
    (work : OgrWork) (iterations : U32) (expected : Provenance) (p : OgrProblem) :
    Option (ℤ × OgrProblem) :=
  (internalLoadOgr host checkCache precompLimits work iterations expected p).map fun
    | .error e => (e.code, p)
    | .ok q => (0, q)

/-! ## When the accesses are in range -/

/-- Work in progress of another client, as the loader tells by what the packet comes with. -/
def OgrWork.Foreign (work : OgrWork) (own expected : Provenance) : Prop :=
  (work.nodes.hi ≠ 0#32 ∨ work.nodes.lo ≠ 0#32) ∧
    (own.cpu ≠ expected.cpu ∨ own.core ≠ expected.core ∨ own.os ≠ expected.os ∨
      own.build ≠ expected.build)

instance (work : OgrWork) (own expected : Provenance) : Decidable (work.Foreign own expected) :=
  inferInstanceAs (Decidable (_ ∧ _))

/-- The fields of a packet for which the loader stays in range. -/
structure OgrWorkStub.InRange (workstub : OgrWorkStub) (checkCache : ℕ → Bool)
    (precompLimits : ℕ → ℕ → U16) (foreign : Prop) : Prop where
  marks : 0 < workstub.stub.marks.toNat ∧ workstub.stub.marks.toNat ≤ OGR.length
  restart : foreign → workstub.collapsed ≠ 0#16 →
    0 < workstub.stub.length.toNat ∧ workstub.stub.length.toNat ≤ OGR_STUB_MAX
  permille : ¬foreign → workstub.collapsed ≠ 0#16 → workstub.stub.length = 0#16 →
    0#16 < workstub.worklength → ¬workstub.Accepted (precompLimits workstub.stub.marks.toNat)
      (checkCache workstub.stub.marks.toNat)

variable {host : Host} {checkCache : ℕ → Bool} {precompLimits : ℕ → ℕ → U16} {work work' : OgrWork}
  {workstub : OgrWorkStub} {iterations : U32} {expected : Provenance} {p : OgrProblem}

/-- A restart writes in range, and leaves no work before the end of the stub. -/
private theorem restart_eq_none_or (work : OgrWork) :
    (work.restart = none ∧ work.workstub.collapsed ≠ 0#16 ∧
      ¬(0 < work.workstub.stub.length.toNat ∧ work.workstub.stub.length.toNat ≤ OGR_STUB_MAX)) ∨
    (∃ work', work.restart = some work' ∧
      work'.workstub.stub.marks = work.workstub.stub.marks ∧
      work'.workstub.worklength = work'.workstub.stub.length ∧
      (work.workstub.collapsed ≠ 0#16 →
        0 < work.workstub.stub.length.toNat ∧ work.workstub.stub.length.toNat ≤ OGR_STUB_MAX)) := by
  rw [OgrWork.restart]
  by_cases hcollapsed : work.workstub.collapsed ≠ 0#16
  · rw [if_pos hcollapsed]
    rcases hplace : place OGR_STUB_MAX ((work.workstub.stub.length.toNat : ℤ) - 1) with _ | i
    · have hrange := isSome_place.not.mp (Option.not_isSome_iff_eq_none.mpr hplace)
      exact .inl ⟨rfl, hcollapsed, by omega⟩
    · have hrange := isSome_place.mp (Option.isSome_of_eq_some hplace)
      exact .inr ⟨_, rfl, rfl, rfl, fun _ ↦ by omega⟩
  · rw [if_neg hcollapsed]
    exact .inr ⟨_, rfl, rfl, rfl, fun h ↦ absurd h hcollapsed⟩

/-- The permille of a stub that has been accepted reads in range, unless it begins before the
stub. -/
private theorem isSome_computePermille (h : workstub.placed < OGR_STUB_MAX) :
    (computePermille workstub).isSome ↔
      (workstub.collapsed ≠ 0#16 → workstub.stub.length = 0#16 → ¬0#16 < workstub.worklength) := by
  have hwork : workstub.worklength.toNat < OGR_STUB_MAX := (le_max_left ..).trans_lt h
  have hzero : workstub.stub.length = 0#16 ↔ workstub.stub.length.toNat = 0 := by
    rw [← BitVec.toNat_inj]
    rfl
  have hpos : 0#16 < workstub.worklength ↔ 0 < workstub.worklength.toNat := BitVec.lt_def
  have hbegun : workstub.stub.length < workstub.worklength ↔
      workstub.stub.length.toNat < workstub.worklength.toNat := BitVec.lt_def
  rw [computePermille, hzero, hpos]
  by_cases hlt : workstub.stub.length < workstub.worklength
  · have hlt' := hbegun.mp hlt
    rw [if_pos hlt]
    dsimp only
    have hboth (a b : ℤ) (f : ℕ → ℕ → ℕ) :
        ((place OGR_STUB_MAX a).bind fun i ↦ (place OGR_STUB_MAX b).map (f i)).isSome ↔
          (place OGR_STUB_MAX a).isSome ∧ (place OGR_STUB_MAX b).isSome := by
      cases place OGR_STUB_MAX a <;> cases place OGR_STUB_MAX b <;> simp
    rw [hboth, isSome_place, isSome_place]
    by_cases hcollapsed : workstub.collapsed ≠ 0#16
    · rw [if_pos hcollapsed]
      constructor
      · rintro ⟨⟨hge, -⟩, -⟩ - hlength
        omega
      · intro hpos
        have := hpos hcollapsed
        omega
    · rw [if_neg hcollapsed]
      refine iff_of_true ⟨?_, ?_⟩ fun h ↦ absurd h hcollapsed
      · omega
      · omega
  · rw [if_neg hlt]
    have hge := hbegun.not.mp hlt
    exact iff_of_true rfl fun _ _ _ ↦ by omega

/-- What comes after the restart. -/
private theorem isSome_create_permille {β : Type*} (work : OgrWork) (f : OgrState → ℕ → β) (e : β) :
    ((ogrCreateChecked (precompLimits work.workstub.stub.marks.toNat)
        (checkCache work.workstub.stub.marks.toNat) work.workstub
        work.workstub.collapsed.toNat).bind fun
      | .error _ => some e
      | .ok core => (if work.workstub.stub.length < work.workstub.worklength then
          computePermille work.workstub else some 0).map (f core)).isSome ↔
      work.workstub.InRange checkCache precompLimits False := by
  have hpermille : (if work.workstub.stub.length < work.workstub.worklength then
      computePermille work.workstub else some 0) = computePermille work.workstub := by
    rw [computePermille]
    split_ifs <;> rfl
  rw [ogrCreateChecked_eq, hpermille]
  by_cases hmarks : 0 < work.workstub.stub.marks.toNat ∧ work.workstub.stub.marks.toNat ≤ OGR.length
  · rw [if_pos hmarks, Option.bind_some]
    have haccepted : (∃ o, ogrCreate (precompLimits work.workstub.stub.marks.toNat)
        (checkCache work.workstub.stub.marks.toNat) work.workstub work.workstub.collapsed.toNat
          = .ok o) ↔
          work.workstub.Accepted (precompLimits work.workstub.stub.marks.toNat)
            (checkCache work.workstub.stub.marks.toNat) := ogrCreate_isOk_iff
    rcases hcreate : ogrCreate (precompLimits work.workstub.stub.marks.toNat)
      (checkCache work.workstub.stub.marks.toNat) work.workstub work.workstub.collapsed.toNat with
        _ | core
    · rw [hcreate] at haccepted
      refine iff_of_true rfl ⟨hmarks, False.elim, fun _ _ _ _ h ↦ ?_⟩
      exact nomatch haccepted.mpr h
    · rw [hcreate] at haccepted
      have hstub := haccepted.mp ⟨core, rfl⟩
      dsimp only
      rw [Option.isSome_map, isSome_computePermille hstub.placed]
      constructor
      · intro h
        exact ⟨hmarks, False.elim,
          fun _ hcollapsed hlength hwork ↦ absurd hwork (h hcollapsed hlength)⟩
      · intro h hcollapsed hlength hwork
        exact h.permille not_false hcollapsed hlength hwork hstub
  · rw [if_neg hmarks, Option.bind_none]
    exact iff_of_false Bool.false_ne_true fun h ↦ hmarks h.marks

/-- **When a load is in range**, for every packet and every provenance. -/
theorem isSome_problemLoadOgr_iff :
    (problemLoadOgr host checkCache precompLimits work iterations expected p).isSome ↔
      ∀ sel, p.initialized = false → host.loadPermitted = true → host.selcore = some sel →
        work.workstub.InRange checkCache precompLimits
          (work.Foreign (host.provenance sel) expected) := by
  rw [problemLoadOgr, Option.isSome_map, internalLoadOgr]
  by_cases hinit : p.initialized = true
  · rw [if_pos hinit]
    exact iff_of_true rfl fun _ hfree ↦ absurd (hinit.symm.trans hfree) (by decide)
  rw [if_neg hinit]
  by_cases hpermit : host.loadPermitted = false
  · rw [if_pos hpermit]
    exact iff_of_true rfl fun _ _ hyes ↦ absurd (hpermit.symm.trans hyes) (by decide)
  rw [if_neg hpermit]
  rcases hsel : host.selcore with _ | sel
  · exact iff_of_true rfl fun _ _ _ hsome ↦ nomatch hsome
  have hone : (∀ sel', p.initialized = false → host.loadPermitted = true → some sel = some sel' →
      work.workstub.InRange checkCache precompLimits
        (work.Foreign (host.provenance sel') expected)) ↔
      work.workstub.InRange checkCache precompLimits
        (work.Foreign (host.provenance sel) expected) :=
    ⟨fun h ↦ h sel ((Bool.not_eq_true _).mp hinit) ((Bool.not_eq_false _).mp hpermit) rfl,
      fun h sel' _ _ heq ↦ Option.some.inj heq ▸ h⟩
  rw [hone]
  have hinit' : ¬ogrInit ≠ CORE_S_OK := by decide
  simp only [hinit', if_false]
  by_cases hforeign : work.Foreign (host.provenance sel) expected
  · have hreset : (work.nodes.hi ≠ 0#32 ∨ work.nodes.lo ≠ 0#32) ∧
        (sel.clientCpu ≠ expected.cpu ∨ sel.coresel ≠ expected.core ∨ host.os ≠ expected.os ∨
          host.build ≠ expected.build) := hforeign
    rw [if_pos hreset]
    rcases restart_eq_none_or work with ⟨hnone, hcollapsed, hlength⟩ |
      ⟨work', hsome, hmarks, hwork, hlength⟩
    · rw [hnone, Option.bind_none]
      exact iff_of_false Bool.false_ne_true fun h ↦ hlength (h.restart hforeign hcollapsed)
    · rw [hsome, Option.bind_some, isSome_create_permille]
      constructor
      · intro h
        exact ⟨hmarks ▸ h.marks, fun _ ↦ hlength, fun hno ↦ absurd hforeign hno⟩
      · intro h
        refine ⟨hmarks ▸ h.marks, False.elim, fun _ _ hzero hpos ↦ ?_⟩
        rw [hwork, hzero] at hpos
        exact absurd hpos (by decide)
  · have hreset : ¬((work.nodes.hi ≠ 0#32 ∨ work.nodes.lo ≠ 0#32) ∧
        (sel.clientCpu ≠ expected.cpu ∨ sel.coresel ≠ expected.core ∨ host.os ≠ expected.os ∨
          host.build ≠ expected.build)) := hforeign
    rw [if_neg hreset, Option.bind_some, isSome_create_permille]
    constructor
    · intro h
      exact ⟨h.marks, fun hyes ↦ absurd hyes hforeign, fun _ ↦ h.permille not_false⟩
    · intro h
      exact ⟨h.marks, False.elim, fun _ ↦ h.permille hforeign⟩

/-- A combined stub that has no marks, with work in progress. -/
def lengthlessWork : OgrWork where
  workstub :=
    { stub := ⟨25#16, 0#16, Vector.replicate 28 0#16⟩
      worklength := 1#16
      collapsed := 7#16 }
  nodes := ⟨0#32, 1#32⟩

/-- **A packet without a length** has its last difference restored before the first. -/
theorem not_isSome_of_no_length :
    ¬∀ (host : Host) (checkCache : ℕ → Bool) (precompLimits : ℕ → ℕ → U16) (work : OgrWork)
      (iterations : U32) (expected : Provenance) (p : OgrProblem),
      (problemLoadOgr host checkCache precompLimits work iterations expected p).isSome := by
  intro hall
  have hload := hall ⟨true, some ⟨0#32, 0#32, 1⟩, 0#32, 0#32⟩ (fun _ ↦ true) (fun _ _ ↦ 0#16)
    lengthlessWork 0#32 ⟨0#32, 0#32, 0#32, 1#32⟩
    { initialized := false
      lastResultcode := none
      contestwork := lengthlessWork
      coreMembuffer := initialState lengthlessWork.workstub
      startkeys := ⟨0#32, 0#32⟩
      startpermille := 0
      wasReset := false
      clientCpu := 0#32
      coresel := 0#32
      tslice := 0#32 }
  exact absurd hload (by decide +kernel)

end Hyunjin
