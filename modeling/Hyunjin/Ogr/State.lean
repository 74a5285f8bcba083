import Hyunjin.Ogr.Bitmap
import Mathlib.Logic.Function.Basic

/-!
# The OGR-NG core

The core looks for rulers of `maxdepth` marks that extend a stub. Level `d` holds the place of mark
`d` and three bitmaps: `list`, the distances from it to the marks before; `dist`, all distances
among the marks before; and `comp`, what is blocked ahead of it. `ogrCreate` sets the levels up from
a stub, `ogrCycle256` searches until a ruler is complete, the budget of nodes is spent or nothing is
left, and `ogrGetresult` exports the marks as a stub again.

The table of limits is a parameter, a flat array as in the source, and so is the verdict of
`ogr_check_cache` on it. The bitmaps are those of the 32-bit core. `comp0` and `dist0` are always
the first words of the current level, and are read off there. Levels and limits have no bounds here,
and a stub is not restored outside of its differences; the loops have no bound in the source either,
so they take fuel.
-/

namespace Hyunjin

/-! ## Data -/

def OGR : List ℕ :=
  [0, 1, 3, 6, 11, 17, 25, 34, 44, 55,
    72, 85, 106, 127, 151, 177, 199, 216, 246, 283,
    333, 356, 372, 425, 480, 492, 553, 585, 623]

def OGR_STUB_MAX : ℕ := 28

def OGR_NG_MIN : ℕ := 21

def OGR_NG_MAX : ℕ := 28

def OGRNG_BITMAPS_LENGTH : ℤ := 256

def CORE_S_OK : ℤ := 0

def CORE_S_CONTINUE : ℤ := 1

def CORE_S_SUCCESS : ℤ := 2

def CORE_E_STUB : ℤ := -2

def CORE_E_FORMAT : ℤ := -3

def CORE_E_CORRUPTED : ℤ := -5

structure OgrStub where
  marks : U16
  length : U16
  diffs : Vector U16 28
  deriving DecidableEq

structure OgrWorkStub where
  stub : OgrStub
  worklength : U16
  collapsed : U16
  deriving DecidableEq

structure OgrLevel where
  list : BMap
  dist : BMap
  comp : BMap
  mark : ℤ
  limit : ℤ
  deriving DecidableEq

def OgrLevel.zero : OgrLevel := ⟨.zero, .zero, .zero, 0, 0⟩

structure OgrState where
  max : ℤ
  maxdepth : ℕ
  maxdepthm1 : ℕ
  halfDepth : ℕ
  halfDepth2 : ℕ
  startdepth : ℕ
  stopdepth : ℤ
  depth : ℤ
  levels : ℕ → OgrLevel

/-- The entry of the table for the leading distance bits and a segment. -/
def choose (pchoose : ℕ → U16) (dist0 : U32) (seg : ℕ) : ℤ :=
  (pchoose ((dist0 >>> 16).toNat * 32 + seg)).toNat

/-! ## Levels -/

namespace OgrLevel

def compLeftListRight (lev : OgrLevel) (newbit : Bool) (s : ℕ) : OgrLevel :=
  { lev with list := lev.list.listRight newbit s, comp := lev.comp.compLeft s }

def compLeftListRightWord (lev : OgrLevel) (newbit : Bool) : OgrLevel :=
  { lev with list := lev.list.listRightWord newbit, comp := lev.comp.compLeftWord }

/-- The bitmaps of the next level. -/
def pushLevelUpdateState (lev lev2 : OgrLevel) : OgrLevel :=
  { lev2 with
    list := lev.list
    dist := lev.dist.or lev.list
    comp := lev.comp.or (lev.dist.or lev.list) }

end OgrLevel

/-- The maximum position at a depth, which is bounded by half the ruler at the middle depths. -/
def OgrState.limitFrom (o : OgrState) (pchoose : ℕ → U16) (dist0 : U32) (halfMark : ℤ)
    (depth : ℕ) : ℤ :=
  let limit := choose pchoose dist0 depth
  if o.halfDepth < depth ∧ depth ≤ o.halfDepth2 then
    let temp := o.max - 1 - halfMark
    let temp := if depth < o.halfDepth2 then temp - lookupFirstblank dist0 else temp
    if temp < limit then temp else limit
  else limit

def OgrState.limitAt (o : OgrState) (pchoose : ℕ → U16) (levels : ℕ → OgrLevel) (depth : ℕ) : ℤ :=
  o.limitFrom pchoose (levels depth).dist.w0 (levels o.halfDepth).mark depth

/-- The mark of a level is placed at `mark`, and the next level is set up. -/
def OgrState.pushLevel (o : OgrState) (pchoose : ℕ → U16) (levels : ℕ → OgrLevel) (depth : ℕ)
    (lev : OgrLevel) (mark : ℤ) : ℕ → OgrLevel :=
  let lev := { lev with mark := mark }
  let levels := Function.update levels depth lev
  let lev2 := lev.pushLevelUpdateState (levels (depth + 1))
  let levels := Function.update levels (depth + 1) lev2
  Function.update levels (depth + 1) { lev2 with limit := o.limitAt pchoose levels (depth + 1) }

/-! ## Creating a state -/

/-- Move over whole words; `none` if the place is taken. -/
def stubWords : ℕ → ℕ → OgrLevel → Bool → Option (ℕ × OgrLevel × Bool)
  | 0, s, lev, newbit => some (s, lev, newbit)
  | fuel + 1, s, lev, newbit =>
    if 32 ≤ s then
      if s = 32 ∧ lev.comp.w0 &&& 1#32 ≠ 0#32 then none
      else stubWords fuel (s - 32) (lev.compLeftListRightWord newbit) false
    else some (s, lev, newbit)

/-- Move the mark of a level by a difference of the stub. -/
def stubMove (s : ℕ) (lev : OgrLevel) (newbit : Bool) : Option OgrLevel :=
  match stubWords s s lev newbit with
  | none => none
  | some (s, lev, newbit) =>
    if 0 < s then
      if lev.comp.w0 &&& (1#32 <<< (32 - s)) ≠ 0#32 then none
      else some (lev.compLeftListRight newbit s)
    else some lev

/-- Place the next `left` marks of the stub from `depth` on. -/
def createLoop (o : OgrState) (pchoose : ℕ → U16) (diffs : Vector U16 28) :
    ℕ → ℕ → ℤ → Bool → (ℕ → OgrLevel) → Except ℤ (ℕ → OgrLevel)
  | 0, _, _, _, levels => .ok levels
  | left + 1, depth, mark, newbit, levels =>
    let s := ((diffs[depth - 1]?).getD 0#16).toNat
    let mark := mark + s
    if (levels depth).limit < mark then .error CORE_E_STUB
    else
      match stubMove s (levels depth) newbit with
      | none => .error CORE_E_STUB
      | some lev =>
        let levels := o.pushLevel pchoose levels depth lev mark
        let levels := Function.update levels (depth + 1) { levels (depth + 1) with mark := mark }
        createLoop o pchoose diffs left (depth + 1) mark true levels

/-- The state before the stub is placed. -/
def initialState (workstub : OgrWorkStub) : OgrState :=
  let maxdepth := workstub.stub.marks.toNat
  let maxdepthm1 := maxdepth - 1
  let midsegSize := 2 - maxdepthm1 % 2
  let halfDepth := (maxdepthm1 - midsegSize) / 2
  { max := OGR.getD maxdepthm1 0
    maxdepth := maxdepth
    maxdepthm1 := maxdepthm1
    halfDepth := halfDepth
    halfDepth2 := halfDepth + midsegSize
    startdepth := 0
    stopdepth := 0
    depth := 0
    levels := fun _ ↦ .zero }

/-- The marks of the stub that are placed: the longer of stub and work. -/
def OgrWorkStub.placed (workstub : OgrWorkStub) : ℕ :=
  max workstub.worklength.toNat workstub.stub.length.toNat

def ogrCreate (pchoose : ℕ → U16) (cacheHealthy : Bool) (workstub : OgrWorkStub)
    (lastSegment : ℤ) : Except ℤ OgrState :=
  let o := initialState workstub
  if o.maxdepth < OGR_NG_MIN ∨ OGR_NG_MAX < o.maxdepth then .error CORE_E_FORMAT
  else if cacheHealthy = false then .error CORE_E_CORRUPTED
  else
    let n := workstub.placed
    if OGR_STUB_MAX ≤ n then .error CORE_E_FORMAT
    else
      let levels := Function.update o.levels 1 { o.levels 1 with limit := choose pchoose 0#32 1 }
      match createLoop o pchoose workstub.stub.diffs n 1 0 (1 < o.maxdepthm1) levels with
      | .error e => .error e
      | .ok levels =>
        let startdepth := workstub.stub.length.toNat
        .ok { o with
          levels := levels
          depth := n
          startdepth := startdepth
          stopdepth := if lastSegment ≠ 0 then (startdepth : ℤ) - 1 else startdepth }

/-! ## The search -/

/-- The variables of `ogr_cycle_256`. -/
structure CycleState where
  levels : ℕ → OgrLevel
  depth : ℕ
  mark : ℤ
  limit : ℤ
  newbit : Bool
  nodes : ℤ

namespace CycleState

/-- Move the mark to the next place that is not blocked, or over a word that is all blocked. -/
inductive Move
  | limit
  | skip (s : CycleState)
  | place (s : CycleState)

def move (s : CycleState) : Move :=
  let lev := s.levels s.depth
  if lev.comp.w0 < ~~~1#32 then
    let j := lookupFirstblank lev.comp.w0
    if s.limit < s.mark + j then .limit
    else
      .place { s with
        levels := Function.update s.levels s.depth (lev.compLeftListRight s.newbit j)
        mark := s.mark + j
        newbit := false }
  else if s.limit < s.mark + 32 then .limit
  else
    let s' := { s with
      levels := Function.update s.levels s.depth (lev.compLeftListRightWord s.newbit)
      mark := s.mark + 32
      newbit := false }
    if lev.comp.w0 = ~~~0#32 then .skip s' else .place s'

/-- `lev->mark = mark`. -/
def setMark (s : CycleState) : CycleState :=
  { s with levels := Function.update s.levels s.depth { s.levels s.depth with mark := s.mark } }

/-- Go on to the next level. -/
def push (o : OgrState) (pchoose : ℕ → U16) (s : CycleState) : CycleState :=
  let levels := o.pushLevel pchoose s.levels s.depth (s.levels s.depth) s.mark
  { levels := levels
    depth := s.depth + 1
    mark := s.mark
    limit := (levels (s.depth + 1)).limit
    newbit := true
    nodes := s.nodes - 1 }

/-- What a step comes to: the search goes on, or ends at a depth. -/
inductive Step
  | next (s : CycleState)
  | exit (depth : ℤ) (s : CycleState)

/-- Go back to the level before. Nothing of it is used if the search is over. -/
def pop (o : OgrState) (s : CycleState) : Step :=
  let depth : ℤ := s.depth - 1
  if o.stopdepth < depth then
    let lev := s.levels depth.toNat
    .next { s with depth := depth.toNat, mark := lev.mark, limit := lev.limit, newbit := false }
  else .exit depth s

def step (o : OgrState) (pchoose : ℕ → U16) (s : CycleState) : Step :=
  match s.move with
  | .limit => s.pop o
  | .skip s => .next s
  | .place s =>
    if s.depth = o.maxdepthm1 then .exit s.depth s.setMark
    else
      let s := s.push o pchoose
      if s.nodes ≤ 0 then .exit s.depth s.setMark else .next s

def loop (o : OgrState) (pchoose : ℕ → U16) : ℕ → CycleState → Option (ℤ × CycleState)
  | 0, _ => none
  | fuel + 1, s =>
    match s.step o pchoose with
    | .exit depth s => some (depth, s)
    | .next s => loop o pchoose fuel s

/-- The variables when the search is taken up. -/
def start (o : OgrState) (nodes : ℤ) : CycleState :=
  let depth := o.depth.toNat
  let lev := o.levels depth
  { levels := o.levels
    depth := depth
    mark := lev.mark
    limit := lev.limit
    newbit := depth < o.maxdepthm1
    nodes := nodes }

end CycleState

/-- Search with a budget of nodes; the result is the depth, the nodes spent and the levels. -/
def ogrCycle256 (pchoose : ℕ → U16) (fuel : ℕ) (o : OgrState) (nodes : ℤ) :
    Option (ℤ × ℤ × (ℕ → OgrLevel)) :=
  (CycleState.loop o pchoose fuel (.start o nodes)).map fun (depth, s) ↦
    (depth, nodes - s.nodes, s.levels)

/-! ## Rulers found -/

/-- The distances from mark `i` that are longer than the bitmaps and not longer than half the ruler
are noted in `diffs`; `none` if one is noted already. -/
def foundOneInner (max : ℤ) (levels : ℕ → OgrLevel) (marksI : ℤ) :
    List ℕ → (ℕ → U32) → Option (ℕ → U32)
  | [], diffs => some diffs
  | j :: js, diffs =>
    let diff := marksI - (levels j).mark
    if diff ≤ OGRNG_BITMAPS_LENGTH then some diffs
    else if diff + diff ≤ max then
      let mask := 1#32 <<< (diff.toNat % 32)
      let i := diff.toNat / 32 - 8
      if diffs i &&& mask ≠ 0#32 then none
      else foundOneInner max levels marksI js (Function.update diffs i (diffs i ||| mask))
    else foundOneInner max levels marksI js diffs

def foundOneOuter (max : ℤ) (levels : ℕ → OgrLevel) : List ℕ → (ℕ → U32) → Option (ℕ → U32)
  | [], diffs => some diffs
  | i :: is, diffs =>
    match foundOneInner max levels (levels i).mark (List.range i) diffs with
    | none => none
    | some diffs => foundOneOuter max levels is diffs

/-- Whether a ruler that has been found is Golomb. -/
def foundOne (o : OgrState) : ℤ :=
  match foundOneOuter o.max o.levels (List.range' 1 o.maxdepthm1) (fun _ ↦ 0#32) with
  | none => 0
  | some _ => -1

/-- The rounds of `ogr_cycle_entry`: rulers found that are not Golomb are passed over. -/
def entryLoop (pchoose : ℕ → U16) (fuel : ℕ) (pnodes : ℤ) :
    ℕ → ℤ → OgrState → Option (ℤ × ℤ × OgrState)
  | 0, _, _ => none
  | rounds + 1, nodesDone, o =>
    match ogrCycle256 pchoose fuel o (pnodes - nodesDone) with
    | none => none
    | some (depth, nodes, levels) =>
      let o := { o with depth := depth, levels := levels }
      if depth = o.maxdepthm1 ∧ nodes ≠ pnodes - nodesDone then
        if 2 * OGRNG_BITMAPS_LENGTH < (levels depth.toNat).mark ∧ foundOne o = 0 then
          entryLoop pchoose fuel pnodes rounds (nodesDone + nodes) o
        else
          some (CORE_S_SUCCESS, nodesDone + nodes, { o with depth := o.stopdepth - 1 })
      else if depth ≤ o.stopdepth then
        some (CORE_S_OK, nodesDone + nodes, { o with depth := depth - 1 })
      else some (CORE_S_CONTINUE, nodesDone + nodes, { o with depth := depth - 1 })

/-- Search with a budget of nodes: the result code, the nodes spent and the state. -/
def ogrCycleEntry (pchoose : ℕ → U16) (fuel : ℕ) (o : OgrState) (pnodes : ℤ) :
    Option (ℤ × ℤ × OgrState) :=
  entryLoop pchoose fuel pnodes fuel 0 { o with depth := o.depth + 1 }

/-! ## Exporting a state -/

/-- What is exported, before combined stubs are restored. -/
def OgrState.exported (o : OgrState) (workstub : OgrWorkStub) : OgrWorkStub :=
  let diffs := Vector.ofFn fun i : Fin 28 ↦
    BitVec.ofInt 16 ((o.levels (i.val + 1)).mark - (o.levels i.val).mark)
  let worklength := BitVec.ofInt 16 o.depth
  let worklength := if BitVec.ofNat 16 OGR_STUB_MAX < worklength then BitVec.ofNat 16 OGR_STUB_MAX
    else worklength
  let length := BitVec.ofNat 16 o.startdepth
  { workstub with
    stub := { marks := BitVec.ofNat 16 o.maxdepth, length := length, diffs := diffs }
    worklength := worklength }

/-- The last difference of the stub is overwritten; `none` if that is outside of the array. -/
def OgrStub.restore (stub : OgrStub) (collapsed : U16) : Option OgrStub :=
  if h : 0 < stub.length.toNat ∧ stub.length.toNat ≤ 28 then
    some { stub with diffs := stub.diffs.set (stub.length.toNat - 1) collapsed (by omega) }
  else none

/-- Export a state. Combined stubs are restored to their initial definition. -/
def ogrGetresult (o : OgrState) (workstub : OgrWorkStub) : Option OgrWorkStub :=
  let workstub := o.exported workstub
  if o.depth < o.stopdepth ∧ 0#16 < workstub.collapsed then
    (workstub.stub.restore workstub.collapsed).map fun stub ↦ { workstub with stub := stub }
  else some workstub

theorem ogrGetresult_of_le {o : OgrState} (h : o.stopdepth ≤ o.depth) (workstub : OgrWorkStub) :
    ogrGetresult o workstub = some (o.exported workstub) :=
  if_neg fun hrestore ↦ absurd hrestore.1 (not_lt.mpr h)

theorem exists_ogrGetresult {o : OgrState} {workstub : OgrWorkStub}
    (h : workstub.collapsed = 0#16 ∨ 0 < o.startdepth ∧ o.startdepth ≤ OGR_STUB_MAX) :
    ∃ result, ogrGetresult o workstub = some result := by
  rw [ogrGetresult]
  split_ifs with hrestore
  · rcases h with hzero | hlength
    · have hcollapsed : 0#16 < workstub.collapsed := hrestore.2
      rw [hzero] at hcollapsed
      exact absurd hcollapsed (by decide)
    · have hstart : (o.exported workstub).stub.length.toNat = o.startdepth :=
        Nat.mod_eq_of_lt (hlength.2.trans_lt (by decide))
      rw [← hstart, OGR_STUB_MAX] at hlength
      rw [OgrStub.restore, dif_pos hlength]
      exact ⟨_, rfl⟩
  · exact ⟨_, rfl⟩

/-- Of the work stub that is overwritten only `collapsed` matters. -/
theorem ogrGetresult_congr {o : OgrState} {workstub workstub' : OgrWorkStub}
    (h : workstub.collapsed = workstub'.collapsed) :
    ogrGetresult o workstub = ogrGetresult o workstub' := by
  have hexported : o.exported workstub = o.exported workstub' :=
    congrArg (OgrWorkStub.mk _ _) h
  rw [ogrGetresult, ogrGetresult, hexported]

theorem collapsed_ogrGetresult {o : OgrState} {workstub result : OgrWorkStub}
    (h : ogrGetresult o workstub = some result) : result.collapsed = workstub.collapsed := by
  rw [ogrGetresult] at h
  split_ifs at h
  · obtain ⟨stub, -, rfl⟩ := Option.map_eq_some_iff.mp h
    rfl
  · obtain rfl := Option.some.inj h
    rfl

/-- Restoring a stub keeps the lengths. -/
theorem length_ogrGetresult {o : OgrState} {workstub result : OgrWorkStub}
    (h : ogrGetresult o workstub = some result) :
    result.stub.length = (o.exported workstub).stub.length ∧
      result.worklength = (o.exported workstub).worklength := by
  rw [ogrGetresult] at h
  split_ifs at h
  · obtain ⟨stub, hstub, rfl⟩ := Option.map_eq_some_iff.mp h
    rw [OgrStub.restore] at hstub
    split_ifs at hstub
    obtain rfl := Option.some.inj hstub
    exact ⟨rfl, rfl⟩
  · obtain rfl := Option.some.inj h
    exact ⟨rfl, rfl⟩

end Hyunjin
