import Hyunjin.Buffer.Record
import Hyunjin.Core.Reference
import Hyunjin.Key.Mangle

/-!
# Problems

A `Problem` is an RC5-72 packet on a cruncher. It holds the packet's work, the unit work that the
core runs on, and a reference key that is advanced beside the core's own. `problemLoadState` makes
one from a packet and `problemRetrieveState` gives the packet back.

The unit work is a function of the packet's work, `unitworkOf`: the core starts on the mangled form
of `key + keysdone`. The load computes that sum with 32-bit carries (`startKey`), in another order
than the run does when it has found a key (`advanceKey`); both are addition on the integer value of
a key.

Work comes with the provenance of the client that last had it. Work in progress from another client
is started again from its first key.

What is left out: random and benchmark work, the random subspace, timers, rates and the permille
counters, the core's memory, other contests, and the hand-over between threads.
-/

namespace Hyunjin

open Word

/-! ## Counters -/

/-- The integer in two words. -/
def Block.int (b : Block) : ℕ := 2 ^ 32 * b.hi.toNat + b.lo.toNat

theorem Block.int_lt (b : Block) : b.int < 2 ^ 64 := by
  have hh := b.hi.isLt
  have hl := b.lo.isLt
  simp only [int]
  omega

theorem Block.int_eq_zero {b : Block} : b.int = 0 ↔ b = ⟨0#32, 0#32⟩ := by
  constructor
  · intro h
    obtain ⟨hi, lo⟩ := b
    simp only [int] at h
    have hh : hi = 0#32 := BitVec.eq_of_toNat_eq (by simp only [BitVec.toNat_ofNat]; omega)
    have hl : lo = 0#32 := BitVec.eq_of_toNat_eq (by simp only [BitVec.toNat_ofNat]; omega)
    rw [hh, hl]
  · rintro rfl
    rfl

/-- Count `n` more keys. -/
def addKeysdone (keysdone : Block) (n : U32) : Block :=
  let lo := keysdone.lo + n
  ⟨if lo < n then keysdone.hi + 1#32 else keysdone.hi, lo⟩

theorem int_addKeysdone (keysdone : Block) (n : U32) :
    (addKeysdone keysdone n).int = (keysdone.int + n.toNat) % 2 ^ 64 := by
  have hh := keysdone.hi.isLt; have hl := keysdone.lo.isLt; have hn := n.isLt
  simp only [addKeysdone, add_lt_iff, Block.int]
  split_ifs <;> simp only [BitVec.toNat_add, BitVec.toNat_ofNat] <;> omega

/-! ## Keys at an offset -/

/-- The key a load starts from. -/
def startKey (key : Key72) (keysdone : Block) : Key72 :=
  let mid := key.mid + keysdone.hi
  let hi := if mid < keysdone.hi then key.hi + 1#32 else key.hi
  let L0 := Key72.addLo ⟨hi, mid, key.lo⟩ keysdone.lo
  { L0 with hi := L0.hi &&& 0xFF#32 }

/-- The key a run reports as found. Its top word is not masked. -/
def advanceKey (key : Key72) (keysdone : Block) : Key72 :=
  let lo := key.lo + keysdone.lo
  let carry := lo < key.lo
  let mid := if carry then key.mid + 1#32 else key.mid
  let keymid := if carry then key.mid + 1#32 else key.mid
  let hi := if carry ∧ mid = 0#32 then key.hi + 1#32 else key.hi
  let mid := mid + keysdone.hi
  ⟨if mid < keymid then hi + 1#32 else hi, mid, lo⟩

theorem int_startKey (key : Key72) (keysdone : Block) :
    (startKey key keysdone).int = (key.int + keysdone.int) % 2 ^ 72 := by
  have hh := key.hi.isLt; have hm := key.mid.isLt; have hl := key.lo.isLt
  have hkh := keysdone.hi.isLt; have hkl := keysdone.lo.isLt
  have hmask (k : Key72) : Key72.int { k with hi := k.hi &&& 0xFF#32 } = k.int % 2 ^ 72 := by
    have hm := k.mid.isLt; have hl := k.lo.isLt
    simp only [Key72.int, BitVec.toNat_and, BitVec.toNat_ofNat]
    rw [show 0xFF % 2 ^ 32 = 2 ^ 8 - 1 from rfl, Nat.and_two_pow_sub_one_eq_mod]
    omega
  rw [startKey, hmask, Key72.int_addLo]
  simp only [add_lt_iff, Key72.int, Block.int]
  split_ifs <;> simp only [BitVec.toNat_add, BitVec.toNat_ofNat] <;> omega

theorem int_advanceKey (key : Key72) (keysdone : Block) :
    (advanceKey key keysdone).int = (key.int + keysdone.int) % 2 ^ 96 := by
  have hh := key.hi.isLt; have hm := key.mid.isLt; have hl := key.lo.isLt
  have hkh := keysdone.hi.isLt; have hkl := keysdone.lo.isLt
  have hzero : key.mid + 1#32 = 0#32 ↔ key.mid.toNat = 2 ^ 32 - 1 := by
    rw [← BitVec.toNat_inj, BitVec.toNat_add]
    simp only [BitVec.toNat_ofNat]
    omega
  have hlo : key.lo + keysdone.lo < key.lo ↔ 2 ^ 32 ≤ key.lo.toNat + keysdone.lo.toNat := by
    rw [BitVec.add_comm, add_lt_iff, Nat.add_comm]
  have hmid (x : U32) : x + keysdone.hi < x ↔ 2 ^ 32 ≤ x.toNat + keysdone.hi.toNat := by
    rw [BitVec.add_comm, add_lt_iff, Nat.add_comm]
  simp only [advanceKey, hlo, hmid]
  by_cases hcarry : 2 ^ 32 ≤ key.lo.toNat + keysdone.lo.toNat
  · simp only [hcarry, if_true, true_and, hzero, Key72.int, Block.int]
    split_ifs <;> simp only [BitVec.toNat_add, BitVec.toNat_ofNat] at * <;> omega
  · simp only [hcarry, if_false, false_and, Key72.int, Block.int]
    split_ifs <;> simp only [BitVec.toNat_add, BitVec.toNat_ofNat] <;> omega

/-! ## The work of a packet -/

/-- The work union as RC5-72 has it, without its last two words. -/
structure BigCrypto where
  key : Key72
  iv : Block
  plain : Block
  cypher : Block
  keysdone : Block
  iterations : Block
  randomsubspace : U32
  check : CheckBlock
  deriving DecidableEq

namespace BigCrypto

def ofWork (work : ContestWork) : BigCrypto :=
  let word (i : ℕ) : U32 := work.val.getD i 0#32
  { key := ⟨word 0, word 1, word 2⟩
    iv := ⟨word 3, word 4⟩
    plain := ⟨word 5, word 6⟩
    cypher := ⟨word 7, word 8⟩
    keysdone := ⟨word 9, word 10⟩
    iterations := ⟨word 11, word 12⟩
    randomsubspace := word 13
    check := ⟨word 14, ⟨word 15, word 16, word 17⟩⟩ }

/-- The work union with two words that do not belong to RC5-72. -/
def toWork (b : BigCrypto) (unused : U32 × U32) : ContestWork :=
  ⟨[b.key.hi, b.key.mid, b.key.lo, b.iv.hi, b.iv.lo, b.plain.hi, b.plain.lo, b.cypher.hi,
    b.cypher.lo, b.keysdone.hi, b.keysdone.lo, b.iterations.hi, b.iterations.lo, b.randomsubspace,
    b.check.count, b.check.key.hi, b.check.key.mid, b.check.key.lo, unused.1, unused.2], rfl⟩

@[simp] theorem ofWork_toWork (b : BigCrypto) (unused : U32 × U32) :
    ofWork (b.toWork unused) = b := rfl

/-- The packet that a load discards as a dummy. -/
def IsDummy (b : BigCrypto) : Prop := b.key = ⟨0#32, 0#32, 0#32⟩ ∧ b.iterations = ⟨5120#32, 0#32⟩

instance (b : BigCrypto) : Decidable b.IsDummy := inferInstanceAs (Decidable (_ ∧ _))

/-- The block has been searched to its end. -/
def Done (b : BigCrypto) : Prop :=
  b.iterations.hi < b.keysdone.hi ∨
    (b.keysdone.hi = b.iterations.hi ∧ b.iterations.lo ≤ b.keysdone.lo)

instance (b : BigCrypto) : Decidable b.Done := inferInstanceAs (Decidable (_ ∨ _))

theorem done_iff (b : BigCrypto) : b.Done ↔ b.iterations.int ≤ b.keysdone.int := by
  have hil := b.iterations.lo.isLt
  have hkl := b.keysdone.lo.isLt
  rw [Done, BitVec.lt_def, BitVec.le_def, ← BitVec.toNat_inj, Block.int, Block.int]
  omega

/-- The block from its beginning: what is left of work that another client has begun. -/
def restart (b : BigCrypto) : BigCrypto :=
  { b with
    keysdone := ⟨0#32, 0#32⟩
    check := ⟨0#32, ⟨0#32, 0#32, 0#32⟩⟩ }

end BigCrypto

/-- The unit work a load prepares for the core. -/
def unitworkOf (b : BigCrypto) : RC572UnitWork where
  plain := ⟨b.plain.hi ^^^ b.iv.hi, b.plain.lo ^^^ b.iv.lo⟩
  cypher := b.cypher
  L0 := switchRC572Format (startKey b.key b.keysdone)
  check := ⟨b.check.count, switchRC572Format b.check.key⟩

/-! ## Problems -/

/-- A problem. The last result code is `none` when it is negative. -/
structure Problem where
  initialized : Bool
  lastResultcode : Option Resultcode
  contestwork : BigCrypto
  unused : U32 × U32
  unitwork : RC572UnitWork
  refL0 : Key72
  startkeys : Block
  wasReset : Bool
  clientCpu : U32
  coresel : U32
  tslice : U32
  deriving DecidableEq

/-- A new problem is all zero, and a zero result code is `RESULT_WORKING`. -/
def problemAlloc : Problem :=
  let zero : Block := ⟨0#32, 0#32⟩
  let key : Key72 := ⟨0#32, 0#32, 0#32⟩
  { initialized := false
    lastResultcode := some .working
    contestwork := ⟨key, zero, zero, zero, zero, zero, 0#32, ⟨0#32, key⟩⟩
    unused := (0#32, 0#32)
    unitwork := ⟨zero, zero, key, ⟨0#32, key⟩⟩
    refL0 := key
    startkeys := zero
    wasReset := false
    clientCpu := 0#32
    coresel := 0#32
    tslice := 0#32 }

/-- The client that last had a packet. -/
structure Provenance where
  cpu : U32
  core : U32
  os : U32
  build : U32
  deriving DecidableEq

/-- The core that `selcoreSelectCore` selects. -/
structure Selcore where
  coresel : U32
  clientCpu : U32
  pipelineCount : ℕ

/-- The client that loads: whether it may, the core it selects, if any, and what it was built as. -/
structure Host where
  loadPermitted : Bool
  selcore : Option Selcore
  os : U32
  build : U32

def MINIMUM_ITERATIONS : U32 := 48#32

/-! ## Loading -/

/-- The fields a successful load sets. -/
def Problem.load (p : Problem) (sel : Selcore) (b : BigCrypto) (wasReset : Bool)
    (iterations : U32) : Problem :=
  { p with
    initialized := true
    lastResultcode := some .working
    contestwork := b
    unitwork := unitworkOf b
    refL0 := (unitworkOf b).L0
    startkeys := b.keysdone
    wasReset := wasReset
    clientCpu := sel.clientCpu
    coresel := sel.coresel
    tslice := iterations }

/-- The errors of a load: try another packet, or give up. -/
inductive LoadError
  | retry
  | abort
  deriving DecidableEq

def LoadError.code : LoadError → ℤ
  | retry => -1
  | abort => -2

/-- The guts of a load, on a copy of the problem. -/
def internalLoadState (host : Host) (work : ContestWork) (iterations : U32) (expected : Provenance)
    (p : Problem) : Except LoadError Problem :=
  if p.initialized then .error .retry
  else if host.loadPermitted = false then .error .retry
  else
    match host.selcore with
    | none => .error .abort
    | some sel =>
      if MINIMUM_ITERATIONS.toNat % sel.pipelineCount ≠ 0 then .error .abort
      else
        let b := BigCrypto.ofWork work
        let wasReset := (b.keysdone.lo ≠ 0#32 ∨ b.keysdone.hi ≠ 0#32) ∧
          (sel.clientCpu ≠ expected.cpu ∨ sel.coresel ≠ expected.core ∨ host.os ≠ expected.os ∨
            host.build ≠ expected.build)
        let b := if wasReset then b.restart else b
        if 0xFF#32 < b.key.hi then .error .retry
        else if b.IsDummy then .error .retry
        else .ok (p.load sel b wasReset iterations)

/-- Load a packet. The problem is written back only on success. -/
def problemLoadState (host : Host) (work : ContestWork) (iterations : U32) (expected : Provenance)
    (p : Problem) : ℤ × Problem :=
  match internalLoadState host work iterations expected p with
  | .error e => (e.code, p)
  | .ok q => (0, q)

/-! ### What a load does -/

/-- A client that loads RC5-72 onto the core `sel`. -/
structure Host.Ready (host : Host) (sel : Selcore) : Prop where
  loadPermitted : host.loadPermitted = true
  selcore : host.selcore = some sel
  pipelineCount : MINIMUM_ITERATIONS.toNat % sel.pipelineCount = 0

/-- The provenance of what a client saves. -/
def Host.provenance (host : Host) (sel : Selcore) : Provenance :=
  ⟨sel.clientCpu, sel.coresel, host.os, host.build⟩

/-- The work a client goes on with: its own as it stands, another's from the beginning. -/
def BigCrypto.resumed (b : BigCrypto) (own expected : Provenance) : BigCrypto :=
  if b.keysdone.int ≠ 0 ∧ expected ≠ own then b.restart else b

@[simp] theorem BigCrypto.resumed_self (b : BigCrypto) (own : Provenance) :
    b.resumed own own = b := by
  rw [resumed, if_neg]
  rintro ⟨-, hne⟩
  exact hne rfl

@[simp] theorem BigCrypto.key_resumed (b : BigCrypto) (own expected : Provenance) :
    (b.resumed own expected).key = b.key := by
  rw [resumed]
  split_ifs <;> rfl

@[simp] theorem BigCrypto.iterations_resumed (b : BigCrypto) (own expected : Provenance) :
    (b.resumed own expected).iterations = b.iterations := by
  rw [resumed]
  split_ifs <;> rfl

theorem BigCrypto.keysdone_resumed_le (b : BigCrypto) (own expected : Provenance) :
    (b.resumed own expected).keysdone.int ≤ b.keysdone.int := by
  rw [resumed]
  split_ifs
  · exact Nat.zero_le _
  · exact Nat.le_refl _

@[simp] theorem BigCrypto.isDummy_resumed (b : BigCrypto) (own expected : Provenance) :
    (b.resumed own expected).IsDummy ↔ b.IsDummy := by
  rw [resumed]
  split_ifs <;> rfl

/-- The comparisons by which a load tells its own work in progress from another client's. -/
private theorem moved_iff (b : BigCrypto) (host : Host) (sel : Selcore) (expected : Provenance) :
    ((b.keysdone.lo ≠ 0#32 ∨ b.keysdone.hi ≠ 0#32) ∧
      (sel.clientCpu ≠ expected.cpu ∨ sel.coresel ≠ expected.core ∨ host.os ≠ expected.os ∨
        host.build ≠ expected.build)) ↔
      b.keysdone.int ≠ 0 ∧ expected ≠ host.provenance sel := by
  have hzero : (b.keysdone.lo ≠ 0#32 ∨ b.keysdone.hi ≠ 0#32) ↔ b.keysdone.int ≠ 0 := by
    rw [ne_eq, ne_eq, ne_eq, Block.int_eq_zero, ← not_and_or, not_iff_not]
    obtain ⟨hi, lo⟩ := b.keysdone
    rw [Block.mk.injEq, and_comm]
  have hsame : expected = host.provenance sel ↔ sel.clientCpu = expected.cpu ∧
      sel.coresel = expected.core ∧ host.os = expected.os ∧ host.build = expected.build := by
    obtain ⟨cpu, core, os, build⟩ := expected
    rw [Host.provenance, Provenance.mk.injEq]
    simp only [eq_comm]
  rw [hzero, ne_eq expected, hsame]
  simp only [ne_eq, not_and_or]

/-- **When a load succeeds, and what it makes.** -/
theorem internalLoadState_eq_ok {host : Host} {work : ContestWork} {iterations : U32}
    {expected : Provenance} {p q : Problem} :
    internalLoadState host work iterations expected p = .ok q ↔
      p.initialized = false ∧ (BigCrypto.ofWork work).key.Valid ∧ ¬(BigCrypto.ofWork work).IsDummy ∧
        ∃ sel, host.Ready sel ∧
          q = p.load sel ((BigCrypto.ofWork work).resumed (host.provenance sel) expected)
            (decide ((BigCrypto.ofWork work).keysdone.int ≠ 0 ∧ expected ≠ host.provenance sel))
            iterations := by
  have herr {e : LoadError} : (Except.error e : Except LoadError Problem) ≠ .ok q := nofun
  have hkey (b : BigCrypto) : 0xFF#32 < b.key.hi ↔ ¬b.key.Valid := by
    rw [BitVec.lt_def, Key72.Valid, BitVec.toNat_ofNat]
    omega
  rw [internalLoadState]
  rcases hinit : p.initialized with _ | _
  swap
  · simp
  rcases hpermit : host.loadPermitted with _ | _
  · simp only [Bool.false_eq_true, if_false, if_true, true_and]
    refine iff_of_false herr ?_
    rintro ⟨-, -, sel, hready, -⟩
    exact absurd (hpermit.symm.trans hready.loadPermitted) Bool.false_ne_true
  rcases hsel : host.selcore with _ | sel
  · simp only [Bool.false_eq_true, Bool.true_eq_false, if_false, true_and]
    refine iff_of_false herr ?_
    rintro ⟨-, -, sel, hready, -⟩
    exact absurd (hsel.symm.trans hready.selcore) fun h ↦ by cases h
  have hown {sel' : Selcore} (hready : host.Ready sel') : sel' = sel :=
    Option.some_inj.mp (hready.selcore.symm.trans hsel)
  simp only [Bool.false_eq_true, Bool.true_eq_false, if_false, true_and]
  by_cases hpipe : MINIMUM_ITERATIONS.toNat % sel.pipelineCount = 0
  swap
  · rw [if_pos hpipe]
    refine iff_of_false herr ?_
    rintro ⟨-, -, sel', hready, -⟩
    exact hpipe (hown hready ▸ hready.pipelineCount)
  have hready : host.Ready sel := ⟨hpermit, hsel, hpipe⟩
  simp only [not_not.mpr hpipe, if_false, moved_iff, ← BigCrypto.resumed.eq_1, hkey,
    BigCrypto.key_resumed, BigCrypto.isDummy_resumed]
  by_cases hvalid : (BigCrypto.ofWork work).key.Valid
  swap
  · rw [if_pos hvalid]
    exact iff_of_false herr fun h ↦ hvalid h.1
  rw [if_neg (not_not.mpr hvalid)]
  by_cases hdummy : (BigCrypto.ofWork work).IsDummy
  · rw [if_pos hdummy]
    exact iff_of_false herr fun h ↦ h.2.1 hdummy
  rw [if_neg hdummy, Except.ok.injEq]
  constructor
  · rintro rfl
    exact ⟨hvalid, hdummy, sel, hready, rfl⟩
  · rintro ⟨-, -, sel', hready', rfl⟩
    rw [hown hready']

theorem problemLoadState_eq_zero {host : Host} {work : ContestWork} {iterations : U32}
    {expected : Provenance} {p q : Problem} :
    problemLoadState host work iterations expected p = (0, q) ↔
      internalLoadState host work iterations expected p = .ok q := by
  rw [problemLoadState]
  rcases internalLoadState host work iterations expected p with e | p'
  · have hcode : e.code ≠ 0 := by cases e <;> decide
    refine iff_of_false ?_ nofun
    intro h
    exact hcode (congrArg Prod.fst h)
  · rw [Prod.mk.injEq, Except.ok.injEq]
    exact and_iff_right rfl

/-! ## Retrieving -/

/-- Give the packet back, with the last result code, and purge the problem if asked to. -/
def problemRetrieveState (p : Problem) (dopurge : Bool) :
    (Option Resultcode × Option ContestWork) × Problem :=
  if p.initialized = false then ((none, none), p)
  else
    ((p.lastResultcode, some (p.contestwork.toWork p.unused)),
      if dopurge then { p with initialized := false } else p)

/-- Whether a problem is loaded: zero if not, positive if it is finished, and negative otherwise. -/
def problemIsInitialized (p : Problem) : ℤ :=
  if p.initialized then
    match p.lastResultcode with
    | some .nothing => 1
    | some .found => 2
    | some .working => -1
    | none => -1
  else 0

end Hyunjin
