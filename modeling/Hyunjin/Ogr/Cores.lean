import Hyunjin.Ogr.Bitmap64
import Hyunjin.Ogr.State

/-!
# The 64-bit cores

The code base is compiled with a set of macros for the bitmaps, and there are two of them for words
of 64 bits. The memory-based macros keep the bitmaps of all levels in memory, where a level that the
search goes back to is found as it was left. The register-based macros keep those of the current
level in registers; of a level that is left they store `list` and `comp`, and get `dist` back by
clearing the bits of `list`.

`OgrMacros` is a set of macros, and the code base is translated once over it. What is outside of the
bitmaps is the `skeleton` of a state. It is all that `found_one` and `ogr_getresult` read, so these
are the functions of the 32-bit core.

Before level 0 there is no level. A search whose `stopdepth` is -1 goes back there at its very end,
and reads and saves what is no level; here it has no result.
-/

namespace Hyunjin

/-! ## Data -/

structure OgrLevel64 where
  list : BMap64
  dist : BMap64
  comp : BMap64
  mark : ℤ
  limit : ℤ
  deriving DecidableEq

def OgrLevel64.zero : OgrLevel64 := ⟨.zero, .zero, .zero, 0, 0⟩

structure OgrState64 where
  max : ℤ
  maxdepth : ℕ
  maxdepthm1 : ℕ
  halfDepth : ℕ
  halfDepth2 : ℕ
  startdepth : ℕ
  stopdepth : ℤ
  depth : ℤ
  levels : ℕ → OgrLevel64

/-- Everything but the bitmaps. -/
def OgrState64.skeleton (o : OgrState64) : OgrState where
  max := o.max
  maxdepth := o.maxdepth
  maxdepthm1 := o.maxdepthm1
  halfDepth := o.halfDepth
  halfDepth2 := o.halfDepth2
  startdepth := o.startdepth
  stopdepth := o.stopdepth
  depth := o.depth
  levels := fun i ↦
    { OgrLevel.zero with
      mark := (o.levels i).mark
      limit := (o.levels i).limit }

def choose64 (pchoose : ℕ → U16) (dist0 : U64) (seg : ℕ) : ℤ :=
  (pchoose ((dist0 >>> 48).toNat * 32 + seg)).toNat

/-- The maximum position at a depth. -/
def OgrState64.limitFrom (o : OgrState64) (pchoose : ℕ → U16) (dist0 : U64) (halfMark : ℤ)
    (depth : ℕ) : ℤ :=
  let limit := choose64 pchoose dist0 depth
  if o.halfDepth < depth ∧ depth ≤ o.halfDepth2 then
    let temp := o.max - 1 - halfMark
    let temp := if depth < o.halfDepth2 then temp - lookupFirstblank64 dist0 else temp
    if temp < limit then temp else limit
  else limit

/-! ## Macros -/

/-- A set of macros, with the local variables that `SETUP_TOP_STATE` declares. -/
structure OgrMacros (R : Type) where
  setupTopState : OgrLevel64 → Bool → R
  comp0 : R → U64
  dist0 : R → U64
  compLeftListRight : R → OgrLevel64 → ℕ → R × OgrLevel64
  compLeftListRightWord : R → OgrLevel64 → R × OgrLevel64
  pushLevelUpdateState : R → OgrLevel64 → OgrLevel64 → R × OgrLevel64 × OgrLevel64
  popLevel : R → OgrLevel64 → R
  saveFinalState : R → OgrLevel64 → OgrLevel64

/-- The local variables of the memory-based macros. -/
structure MemoryVars where
  comp0 : U64
  dist0 : U64
  newbit : Bool

/-- **The memory-based macros.** `dist0` is not set up, and is not read before a level has been
pushed. -/
def memoryMacros : OgrMacros MemoryVars where
  setupTopState lev newbit := ⟨lev.comp.w0, 0#64, newbit⟩
  comp0 := MemoryVars.comp0
  dist0 := MemoryVars.dist0
  compLeftListRight v lev s :=
    let ss := 64 - s
    let list : BMap64 :=
      { w3 := (lev.list.w3 >>> s) ||| (lev.list.w2 <<< ss)
        w2 := (lev.list.w2 >>> s) ||| (lev.list.w1 <<< ss)
        w1 := (lev.list.w1 >>> s) ||| (lev.list.w0 <<< ss)
        w0 := (lev.list.w0 >>> s) ||| (BMap64.bitWord v.newbit <<< ss) }
    let comp0 := (v.comp0 <<< s) ||| (lev.comp.w1 >>> ss)
    let comp : BMap64 :=
      { w0 := comp0
        w1 := (lev.comp.w1 <<< s) ||| (lev.comp.w2 >>> ss)
        w2 := (lev.comp.w2 <<< s) ||| (lev.comp.w3 >>> ss)
        w3 := lev.comp.w3 <<< s }
    ({ v with comp0 := comp0, newbit := false }, { lev with list := list, comp := comp })
  compLeftListRightWord v lev :=
    let comp : BMap64 := ⟨lev.comp.w1, lev.comp.w2, lev.comp.w3, 0#64⟩
    let list : BMap64 := ⟨BMap64.bitWord v.newbit, lev.list.w0, lev.list.w1, lev.list.w2⟩
    ({ v with comp0 := lev.comp.w1, newbit := false }, { lev with list := list, comp := comp })
  pushLevelUpdateState v lev lev2 :=
    let dist0 := lev.dist.w0 ||| lev.list.w0
    let comp0 := v.comp0 ||| dist0
    let dist : BMap64 :=
      { w0 := dist0
        w1 := lev.list.w1 ||| lev.dist.w1
        w2 := lev.list.w2 ||| lev.dist.w2
        w3 := lev.list.w3 ||| lev.dist.w3 }
    let comp : BMap64 :=
      { w0 := comp0
        w1 := lev.comp.w1 ||| dist.w1
        w2 := lev.comp.w2 ||| dist.w2
        w3 := lev.comp.w3 ||| dist.w3 }
    (⟨comp0, dist0, true⟩, lev, { lev2 with list := lev.list, dist := dist, comp := comp })
  popLevel v lev := { v with comp0 := lev.comp.w0, newbit := false }
  saveFinalState _ lev := lev

/-- The local variables of the register-based macros. -/
structure RegisterVars where
  comp : BMap64
  list : BMap64
  dist : BMap64
  newbit : Bool

/-- **The register-based macros.** A level that is pushed does not have its `dist` stored. -/
def registerMacros : OgrMacros RegisterVars where
  setupTopState lev newbit := ⟨lev.comp, lev.list, lev.dist, newbit⟩
  comp0 v := v.comp.w0
  dist0 v := v.dist.w0
  compLeftListRight v lev s :=
    let ss := 64 - s
    let comp0 := v.comp.w0 <<< s
    let temp1 := BMap64.bitWord v.newbit <<< ss
    let temp2 := v.list.w0 <<< ss
    let list0 := (v.list.w0 >>> s) ||| temp1
    let temp1 := v.list.w1 <<< ss
    let list1 := (v.list.w1 >>> s) ||| temp2
    let temp2 := v.list.w2 <<< ss
    let list2 := (v.list.w2 >>> s) ||| temp1
    let temp1 := v.comp.w1 >>> ss
    let list3 := (v.list.w3 >>> s) ||| temp2
    let temp2 := v.comp.w2 >>> ss
    let comp0 := comp0 ||| temp1
    let temp1 := v.comp.w3 >>> ss
    let comp1 := (v.comp.w1 <<< s) ||| temp2
    let comp3 := v.comp.w3 <<< s
    let comp2 := (v.comp.w2 <<< s) ||| temp1
    ({ v with
        comp := ⟨comp0, comp1, comp2, comp3⟩
        list := ⟨list0, list1, list2, list3⟩
        newbit := false }, lev)
  compLeftListRightWord v lev :=
    ({ v with
        comp := ⟨v.comp.w1, v.comp.w2, v.comp.w3, 0#64⟩
        list := ⟨BMap64.bitWord v.newbit, v.list.w0, v.list.w1, v.list.w2⟩
        newbit := false }, lev)
  pushLevelUpdateState v lev lev2 :=
    let dist := v.dist.or v.list
    ({ v with dist := dist, comp := v.comp.or dist, newbit := true },
      { lev with list := v.list, comp := v.comp }, lev2)
  popLevel v lev :=
    { comp := lev.comp, list := lev.list, dist := v.dist.andNot lev.list, newbit := false }
  saveFinalState v lev := { lev with list := v.list, dist := v.dist, comp := v.comp }

variable {R : Type}

/-! ## Creating a state -/

/-- The mark of a level is placed at `mark`, and the next level is set up. -/
def OgrMacros.pushLevel (m : OgrMacros R) (o : OgrState64) (pchoose : ℕ → U16) (vars : R)
    (levels : ℕ → OgrLevel64) (depth : ℕ) (lev : OgrLevel64) (mark : ℤ) :
    R × ℤ × (ℕ → OgrLevel64) :=
  let lev := { lev with mark := mark }
  let (vars, lev, lev2) := m.pushLevelUpdateState vars lev (levels (depth + 1))
  let levels := Function.update (Function.update levels depth lev) (depth + 1) lev2
  let limit := o.limitFrom pchoose (m.dist0 vars) (levels o.halfDepth).mark (depth + 1)
  (vars, limit, Function.update levels (depth + 1) { lev2 with limit := limit })

/-- Move over whole words; `none` if the place is taken. -/
def stubWords64 (m : OgrMacros R) : ℕ → ℕ → R → OgrLevel64 → Option (ℕ × R × OgrLevel64)
  | 0, s, vars, lev => some (s, vars, lev)
  | fuel + 1, s, vars, lev =>
    if 64 ≤ s then
      if s = 64 ∧ m.comp0 vars &&& 1#64 ≠ 0#64 then none
      else
        let (vars, lev) := m.compLeftListRightWord vars lev
        stubWords64 m fuel (s - 64) vars lev
    else some (s, vars, lev)

/-- Move the mark of a level by a difference of the stub. -/
def stubMove64 (m : OgrMacros R) (s : ℕ) (vars : R) (lev : OgrLevel64) :
    Option (R × OgrLevel64) :=
  match stubWords64 m s s vars lev with
  | none => none
  | some (s, vars, lev) =>
    if 0 < s then
      if m.comp0 vars &&& (1#64 <<< (64 - s)) ≠ 0#64 then none
      else some (m.compLeftListRight vars lev s)
    else some (vars, lev)

/-- Place the next `left` marks of the stub from `depth` on. -/
def createLoop64 (m : OgrMacros R) (o : OgrState64) (pchoose : ℕ → U16) (diffs : Vector U16 28) :
    ℕ → ℕ → ℤ → ℤ → R → (ℕ → OgrLevel64) → Except ℤ (ℕ → OgrLevel64)
  | 0, depth, _, _, vars, levels =>
    .ok (Function.update levels depth (m.saveFinalState vars (levels depth)))
  | left + 1, depth, mark, limit, vars, levels =>
    let s := ((diffs[depth - 1]?).getD 0#16).toNat
    let mark := mark + s
    if limit < mark then .error CORE_E_STUB
    else
      match stubMove64 m s vars (levels depth) with
      | none => .error CORE_E_STUB
      | some (vars, lev) =>
        let (vars, limit, levels) := m.pushLevel o pchoose vars levels depth lev mark
        let levels := Function.update levels (depth + 1) { levels (depth + 1) with mark := mark }
        createLoop64 m o pchoose diffs left (depth + 1) mark limit vars levels

/-- The state before the stub is placed. -/
def initialState64 (workstub : OgrWorkStub) : OgrState64 :=
  let o := initialState workstub
  { max := o.max
    maxdepth := o.maxdepth
    maxdepthm1 := o.maxdepthm1
    halfDepth := o.halfDepth
    halfDepth2 := o.halfDepth2
    startdepth := o.startdepth
    stopdepth := o.stopdepth
    depth := o.depth
    levels := fun _ ↦ .zero }

def ogrCreate64 (m : OgrMacros R) (pchoose : ℕ → U16) (cacheHealthy : Bool)
    (workstub : OgrWorkStub) (lastSegment : ℤ) : Except ℤ OgrState64 :=
  let o := initialState64 workstub
  if o.maxdepth < OGR_NG_MIN ∨ OGR_NG_MAX < o.maxdepth then .error CORE_E_FORMAT
  else if cacheHealthy = false then .error CORE_E_CORRUPTED
  else
    let vars := m.setupTopState (o.levels 1) (decide (1 < o.maxdepthm1))
    let n := workstub.placed
    if OGR_STUB_MAX ≤ n then .error CORE_E_FORMAT
    else
      let limit := choose64 pchoose 0#64 1
      let levels := Function.update o.levels 1 { o.levels 1 with limit := limit }
      match createLoop64 m o pchoose workstub.stub.diffs n 1 0 limit vars levels with
      | .error e => .error e
      | .ok levels =>
        let startdepth := workstub.stub.length.toNat
        .ok { o with
          levels := levels
          depth := n
          startdepth := startdepth
          stopdepth := if lastSegment ≠ 0 then (startdepth : ℤ) - 1 else startdepth }

/-! ## The search -/

/-- The variables of `ogr_cycle_256`. -/
structure CycleState64 (R : Type) where
  levels : ℕ → OgrLevel64
  depth : ℕ
  mark : ℤ
  limit : ℤ
  vars : R
  nodes : ℤ

namespace CycleState64

/-- Move the mark to the next place that is not blocked, or over a word that is all blocked. -/
inductive Move (R : Type)
  | limit
  | skip (s : CycleState64 R)
  | place (s : CycleState64 R)

def move (m : OgrMacros R) (s : CycleState64 R) : Move R :=
  let lev := s.levels s.depth
  let comp0 := m.comp0 s.vars
  if comp0 < ~~~1#64 then
    let j := lookupFirstblank64 comp0
    if s.limit < s.mark + j then .limit
    else
      let (vars, lev) := m.compLeftListRight s.vars lev j
      .place { s with
        levels := Function.update s.levels s.depth lev
        mark := s.mark + j
        vars := vars }
  else if s.limit < s.mark + 64 then .limit
  else
    let (vars, lev) := m.compLeftListRightWord s.vars lev
    let s' := { s with
      levels := Function.update s.levels s.depth lev
      mark := s.mark + 64
      vars := vars }
    if comp0 = ~~~0#64 then .skip s' else .place s'

/-- Go on to the next level. -/
def push (m : OgrMacros R) (o : OgrState64) (pchoose : ℕ → U16) (s : CycleState64 R) :
    CycleState64 R :=
  let (vars, limit, levels) :=
    m.pushLevel o pchoose s.vars s.levels s.depth (s.levels s.depth) s.mark
  { levels := levels
    depth := s.depth + 1
    mark := s.mark
    limit := limit
    vars := vars
    nodes := s.nodes - 1 }

/-- `lev->mark = mark`. -/
def setMark (s : CycleState64 R) : CycleState64 R :=
  { s with levels := Function.update s.levels s.depth { s.levels s.depth with mark := s.mark } }

/-- `SAVE_FINAL_STATE`. -/
def save (m : OgrMacros R) (s : CycleState64 R) : CycleState64 R :=
  { s with
    levels := Function.update s.levels s.depth (m.saveFinalState s.vars (s.levels s.depth)) }

/-- What a step comes to: the search goes on, ends at a depth, or leaves the levels. -/
inductive Step (R : Type)
  | next (s : CycleState64 R)
  | exit (depth : ℤ) (s : CycleState64 R)
  | outside

/-- Go back to the level before. -/
def pop (m : OgrMacros R) (o : OgrState64) (s : CycleState64 R) : Step R :=
  match s.depth with
  | 0 => .outside
  | depth + 1 =>
    let lev := s.levels depth
    let s := { s with depth := depth, vars := m.popLevel s.vars lev }
    if o.stopdepth < depth then .next { s with mark := lev.mark, limit := lev.limit }
    else .exit depth (s.save m)

def step (m : OgrMacros R) (o : OgrState64) (pchoose : ℕ → U16) (s : CycleState64 R) : Step R :=
  match s.move m with
  | .limit => s.pop m o
  | .skip s => .next s
  | .place s =>
    if s.depth = o.maxdepthm1 then .exit s.depth (s.setMark.save m)
    else
      let s := s.push m o pchoose
      if s.nodes ≤ 0 then .exit s.depth (s.setMark.save m) else .next s

def loop (m : OgrMacros R) (o : OgrState64) (pchoose : ℕ → U16) :
    ℕ → CycleState64 R → Option (ℤ × CycleState64 R)
  | 0, _ => none
  | fuel + 1, s =>
    match s.step m o pchoose with
    | .exit depth s => some (depth, s)
    | .next s => loop m o pchoose fuel s
    | .outside => none

/-- The variables when the search is taken up. -/
def start (m : OgrMacros R) (o : OgrState64) (nodes : ℤ) : CycleState64 R :=
  let depth := o.depth.toNat
  let lev := o.levels depth
  { levels := o.levels
    depth := depth
    mark := lev.mark
    limit := lev.limit
    vars := m.setupTopState lev (decide (depth < o.maxdepthm1))
    nodes := nodes }

end CycleState64

/-- Search with a budget of nodes; the result is the depth, the nodes spent and the levels. -/
def ogrCycle256Core64 (m : OgrMacros R) (pchoose : ℕ → U16) (fuel : ℕ) (o : OgrState64)
    (nodes : ℤ) : Option (ℤ × ℤ × (ℕ → OgrLevel64)) :=
  (CycleState64.loop m o pchoose fuel (.start m o nodes)).map fun (depth, s) ↦
    (depth, nodes - s.nodes, s.levels)

/-- The rounds of `ogr_cycle_entry`: rulers found that are not Golomb are passed over. -/
def entryLoop64 (m : OgrMacros R) (pchoose : ℕ → U16) (fuel : ℕ) (pnodes : ℤ) :
    ℕ → ℤ → OgrState64 → Option (ℤ × ℤ × OgrState64)
  | 0, _, _ => none
  | rounds + 1, nodesDone, o =>
    match ogrCycle256Core64 m pchoose fuel o (pnodes - nodesDone) with
    | none => none
    | some (depth, nodes, levels) =>
      let o := { o with depth := depth, levels := levels }
      if depth = o.maxdepthm1 ∧ nodes ≠ pnodes - nodesDone then
        if 2 * OGRNG_BITMAPS_LENGTH < (levels depth.toNat).mark ∧ foundOne o.skeleton = 0 then
          entryLoop64 m pchoose fuel pnodes rounds (nodesDone + nodes) o
        else
          some (CORE_S_SUCCESS, nodesDone + nodes, { o with depth := o.stopdepth - 1 })
      else if depth ≤ o.stopdepth then
        some (CORE_S_OK, nodesDone + nodes, { o with depth := depth - 1 })
      else some (CORE_S_CONTINUE, nodesDone + nodes, { o with depth := depth - 1 })

/-- Search with a budget of nodes: the result code, the nodes spent and the state. -/
def ogrCycleEntry64 (m : OgrMacros R) (pchoose : ℕ → U16) (fuel : ℕ) (o : OgrState64)
    (pnodes : ℤ) : Option (ℤ × ℤ × OgrState64) :=
  entryLoop64 m pchoose fuel pnodes fuel 0 { o with depth := o.depth + 1 }

def ogrGetresult64 (o : OgrState64) (workstub : OgrWorkStub) : Option OgrWorkStub :=
  ogrGetresult o.skeleton workstub

end Hyunjin
