import Hyunjin.Problem.Resume
import Mathlib.Data.List.TakeWhile

/-!
# Checkpoints

`CheckpointAction` writes every initialized problem to the checkpoint file as work in progress,
whatever its last result code is, with the provenance of the client. A recovered record is loaded
like any other packet and run to the end.

That is right for a problem at work. For one that is finished the loader makes work of a packet that
has none left. A block that ended with nothing has more keys tested, beyond its end. And in a block
that ended with a match the key has been advanced to the match while the counter stays, so the
recovered problem starts as far behind the match as the match lies behind the block's first key.

## Runs to the end

`keysToFinish` is the number of keys that a list of slices tests when nothing matches, or `none` if
it leaves the block unfinished. By then the run is one search of that many keys (`final_of_finish`).
How a record travels between files is the concern of the buffers; here it is packed and unpacked in
the format of every file it passes.
-/

namespace Hyunjin

open Search

/-! ## Runs to the end -/

/-- The number of keys tested by slices that find nothing and complete the block. -/
def keysToFinish (iterations : Block) : List U32 → Block → Option ℕ
  | [], _ => none
  | n :: ns, keysdone =>
    let k := keysToCheck iterations keysdone n
    let keysdone := addKeysdone keysdone k
    if iterations.int ≤ keysdone.int then some k.toNat
    else (keysToFinish iterations ns keysdone).map (k.toNat + ·)

theorem keysToFinish_pos {iterations keysdone : Block} {ns : List U32} {T : ℕ}
    (h : keysToFinish iterations ns keysdone = some T) : 0 < T := by
  cases ns with
  | nil => cases h
  | cons n ns =>
    have hpos := keysToCheck_pos iterations keysdone n
    simp only [keysToFinish] at h
    split_ifs at h
    · rwa [← Option.some_inj.mp h]
    · obtain ⟨T', -, rfl⟩ := Option.map_eq_some_iff.mp h
      exact Nat.add_pos_left hpos T'

/-- As many slices as there are keys left complete a block that does not come near `2⁶⁴`. -/
theorem exists_keysToFinish {iterations keysdone : Block}
    (hsmall : iterations.int + 2 ^ 32 ≤ 2 ^ 64) (hbegun : keysdone.int < iterations.int)
    {ns : List U32} (hlen : iterations.int ≤ keysdone.int + ns.length) :
    ∃ T, keysToFinish iterations ns keysdone = some T ∧ keysdone.int + T < 2 ^ 64 := by
  induction ns generalizing keysdone with
  | nil =>
    rw [List.length_nil] at hlen
    omega
  | cons n ns ih =>
    have hlt := (keysToCheck iterations keysdone n).isLt
    have hpos := keysToCheck_pos iterations keysdone n
    have hnext : (addKeysdone keysdone (keysToCheck iterations keysdone n)).int =
        keysdone.int + (keysToCheck iterations keysdone n).toNat := by
      rw [int_addKeysdone, Nat.mod_eq_of_lt (by omega)]
    rw [List.length_cons] at hlen
    by_cases hdone : iterations.int ≤
        (addKeysdone keysdone (keysToCheck iterations keysdone n)).int
    · exact ⟨_, if_pos hdone, by omega⟩
    · obtain ⟨T, hT, hbound⟩ := ih (Nat.lt_of_not_le hdone) (by omega)
      refine ⟨(keysToCheck iterations keysdone n).toNat + T, ?_, by omega⟩
      simp only [keysToFinish, if_neg hdone, hT, Option.map_some]

/-- The search of the next `T` keys of a problem. -/
def Problem.rest (p : Problem) (T : ℕ) : Outcome Key72 :=
  search p.unitwork.verdict refKeyStep T p.unitwork.L0

/-- Where a run that is one search with outcome `r` has left the problem. -/
structure Ends (p : Problem) (r : Outcome Key72) (q : Problem) : Prop where
  lastResultcode : q.lastResultcode = some (if r.found then .found else .nothing)
  iterations : q.contestwork.iterations = p.contestwork.iterations
  keysdone : q.contestwork.keysdone.int = p.contestwork.keysdone.int + r.steps
  key : q.contestwork.key =
    if r.found then advanceKey p.contestwork.key q.contestwork.keysdone else p.contestwork.key

theorem Ends.sameWork {p q q' : Problem} {r : Outcome Key72} (h : Ends p r q)
    (hsame : SameWork q q') : Ends p r q' := by
  obtain ⟨hcode, hiter, hdone, hkey⟩ := h
  rw [hsame.lastResultcode] at hcode
  rw [hsame.contestwork] at hiter hdone hkey
  exact ⟨hcode, hiter, hdone, hkey⟩

/-- A slice that finds a match, or completes the block, is the end. -/
theorem ends_after {p : Problem} {n : U32}
    (hend : (p.slice n).found = true ∨ (p.after (p.slice n)).contestwork.Done)
    (hwrap : p.contestwork.keysdone.int + (p.keysToCheck n).toNat < 2 ^ 64) :
    Ends p (p.slice n) (p.after (p.slice n)) where
  lastResultcode := by
    rw [lastResultcode_after]
    rcases hend with hfound | hdone
    · rw [if_pos hfound, if_pos hfound]
    · rw [if_pos hdone]
  iterations := iterations_after ..
  keysdone := int_keysdone_after hwrap
  key := key_after ..

/-- What follows a slice without a match follows the whole. -/
theorem Ends.of_after {p q : Problem} {n : U32}
    (hfound : (p.slice n).found = false)
    (hwrap : p.contestwork.keysdone.int + (p.keysToCheck n).toNat < 2 ^ 64) {T : ℕ}
    (h : Ends (p.after (p.slice n)) ((p.after (p.slice n)).rest T) q) :
    Ends p (p.rest ((p.keysToCheck n).toNat + T)) q := by
  have hsplit : p.rest ((p.keysToCheck n).toNat + T) =
      (p.slice n).andThen (search p.unitwork.verdict refKeyStep T) := search_add ..
  have hnext : (p.after (p.slice n)).rest T =
      search p.unitwork.verdict refKeyStep T (p.slice n).cursor := rfl
  have hkey : (p.after (p.slice n)).contestwork.key = p.contestwork.key := by
    rw [key_after, hfound, if_neg Bool.false_ne_true]
  obtain ⟨hcode, hiter, hdone, hkeyq⟩ := h
  rw [hnext] at hcode hdone hkeyq
  rw [hkey] at hkeyq
  rw [hsplit, Outcome.andThen, hfound, if_neg Bool.false_ne_true]
  refine ⟨hcode, hiter.trans (iterations_after ..), ?_, hkeyq⟩
  rw [hdone, int_keysdone_after hwrap, Nat.add_assoc]

/-- **A run to the end is one search.** -/
theorem final_of_finish {core : Core} (hcore : core.Faithful) {p : Problem} (hp : p.Consistent)
    (hwork : p.lastResultcode = some .working) {ns : List U32} {T : ℕ}
    (hT : keysToFinish p.contestwork.iterations ns p.contestwork.keysdone = some T)
    (hwrap : p.contestwork.keysdone.int + T < 2 ^ 64) :
    Ends p (p.rest T) (Run.final (runSlice core) ns p) := by
  induction ns generalizing p T with
  | nil => cases hT
  | cons n ns ih =>
    have hfold : keysToCheck p.contestwork.iterations p.contestwork.keysdone n = p.keysToCheck n :=
      rfl
    -- a slice without a match counts all its keys
    have hcount (hfound : (p.slice n).found = false) :
        (p.after (p.slice n)).contestwork.keysdone =
          addKeysdone p.contestwork.keysdone (p.keysToCheck n) := by
      rw [keysdone_after, steps_slice hfound, BitVec.ofNat_toNat, BitVec.setWidth_eq]
    have hdone_iff (hfound : (p.slice n).found = false) :
        (p.after (p.slice n)).contestwork.Done ↔ p.contestwork.iterations.int ≤
          (addKeysdone p.contestwork.keysdone (p.keysToCheck n)).int := by
      rw [BigCrypto.done_iff, iterations_after, hcount hfound]
    have hfinished {r : Outcome Key72} (h : Ends p r (p.after (p.slice n))) :
        Ends p r (Run.final (runSlice core) ns (p.after (p.slice n))) := by
      refine h.sameWork (sameWork_finished ?_ ns)
      rw [h.lastResultcode]
      split_ifs <;> decide
    simp only [keysToFinish, hfold] at hT
    rw [Run.final, runSlice_eq hcore hp hwork n]
    split_ifs at hT with hdone
    · rw [← Option.some_inj.mp hT] at hwrap ⊢
      refine hfinished (ends_after ?_ hwrap)
      rcases hfound : (p.slice n).found with _ | _
      · exact Or.inr ((hdone_iff hfound).mpr hdone)
      · exact Or.inl rfl
    · obtain ⟨T', hT', rfl⟩ := Option.map_eq_some_iff.mp hT
      have hslicewrap : p.contestwork.keysdone.int + (p.keysToCheck n).toNat < 2 ^ 64 := by omega
      rcases hfound : (p.slice n).found with _ | _
      · have hnext : (p.after (p.slice n)).lastResultcode = some .working := by
          rw [lastResultcode_after, hfound, if_neg Bool.false_ne_true,
            if_neg (mt (hdone_iff hfound).mp hdone)]
        have hint := int_keysdone_after hslicewrap
        rw [steps_slice hfound] at hint
        refine Ends.of_after hfound hslicewrap
          (ih (consistent_after hp hfound hslicewrap) hnext ?_ ?_)
        · rw [iterations_after, hcount hfound]
          exact hT'
        · omega
      · have hsplit : p.rest ((p.keysToCheck n).toNat + T') = p.slice n := by
          rw [Problem.rest, search_add]
          exact Outcome.andThen_of_found hfound _
        rw [hsplit]
        exact hfinished (ends_after (Or.inl hfound) hslicewrap)

/-! ## Records -/

/-- The string in a buffer of characters, up to the first NUL. -/
def cstring (bs : List U8) : List U8 := bs.takeWhile (· ≠ 0#8)

/-- `strncpy` into a record's id, and the NUL that is forced after it. -/
def copyId (id : List U8) : Bytes 64 :=
  nulTerminate ⟨(cstring id ++ List.replicate 64 0#8).take 64, by simp⟩

/-- The record that a refresh writes for a problem. -/
def checkpointRecord (host : Host) (clientId : List U8) (p : Problem) : Option WorkRecord :=
  if problemIsInitialized p = 0 then none
  else
    match (problemRetrieveState p false).1 with
    | (some _, some work) =>
      some
        { work := work
          resultcode := RESULT_WORKING
          id := copyId clientId
          contest := RC5_72
          cpu := p.clientCpu
          os := host.os
          build := host.build
          core := p.coresel }
    | _ => none

/-- A record written to a file and read back, in the Moo format or the stock one. -/
def throughFile (r : WorkRecord) (moo : Bool) : WorkRecord :=
  if moo then mooUnpackRecord (mooPackRecord r) else stockUnpackRecord (stockPackRecord r)

/-- The provenance a load is told to expect: the record's, if the id is the client's or the default
one, and else none. -/
def expectedProvenance (clientId : List U8) (r : WorkRecord) : Provenance :=
  let defaultId : List U8 := "rc5@distributed.net".toList.map fun c ↦ BitVec.ofNat 8 c.toNat
  if cstring r.id.val = defaultId ∨ (cstring r.id.val).take 63 = (cstring clientId).take 63 then
    ⟨r.cpu, r.core, r.os, r.build⟩
  else ⟨0#32, 0#32, 0#32, 0#32⟩

/-- Load a record from the buffers. -/
def loadRecord (host : Host) (clientId : List U8) (r : WorkRecord) (tslice : U32) (q : Problem) :
    ℤ × Problem :=
  problemLoadState host r.work tslice (expectedProvenance clientId r) q

/-- A record as a refresh writes it survives any number of files. -/
theorem foldl_throughFile {r : WorkRecord} (hcontest : r.contest = RC5_72)
    (hcode : r.resultcode = RESULT_WORKING) (hid : nulTerminate r.id = r.id) (files : List Bool) :
    files.foldl throughFile r = r := by
  have hsame : { r with id := nulTerminate r.id } = r := by rw [hid]
  induction files with
  | nil => rfl
  | cons moo files ih =>
    have hstep : throughFile r moo = r := by
      cases moo with
      | false => rw [throughFile, if_neg Bool.false_ne_true, stockUnpack_pack (Or.inl hcontest),
        hsame]
      | true => rw [throughFile, if_pos rfl, mooUnpack_pack hcontest, hid, ← hcode]
    rw [List.foldl_cons, hstep, ih]

/-- The client knows its own id again. -/
theorem take_cstring_copyId (id : List U8) :
    (cstring (copyId id).val).take 63 = (cstring id).take 63 := by
  have hnonzero : ∀ b ∈ (cstring id).take 63, (decide (b ≠ 0#8)) = true := by
    intro b hb
    have hmem : b ∈ id.takeWhile (· ≠ 0#8) := List.mem_of_mem_take hb
    have himp := List.mem_takeWhile_imp hmem
    exact himp
  have hval : (copyId id).val = (cstring id).take 63 ++
      List.replicate (64 - ((cstring id).take 63).length) 0#8 := by
    refine List.ext_getElem (by simp [copyId, nulTerminate]) fun i hi hi' ↦ ?_
    have hlt : i < 64 := (copyId id).property ▸ hi
    simp only [copyId, nulTerminate, List.getElem_set, List.getElem_take, List.getElem_append,
      List.getElem_replicate, List.length_take]
    split_ifs <;> first | rfl | omega
  have hzero (n : ℕ) : (List.replicate n (0#8 : U8)).takeWhile (· ≠ 0#8) = [] := by
    cases n <;> rfl
  rw [hval, cstring, List.takeWhile_append_of_pos hnonzero, hzero, List.append_nil, List.take_take,
    Nat.min_self]

/-- **A refresh writes every problem that is at work or finished**, and the record comes back with
the work and the provenance of the problem. -/
theorem recovered_record (host : Host) {p : Problem}
    (hinit : p.initialized = true) {code : Resultcode}
    (hcode : p.lastResultcode = some code) (clientId : List U8) (files : List Bool) :
    ∃ r, checkpointRecord host clientId p = some r ∧
      (files.foldl throughFile r).work = p.contestwork.toWork p.unused ∧
      expectedProvenance clientId (files.foldl throughFile r) = p.provenance host := by
  have hloaded : problemIsInitialized p ≠ 0 := by
    rw [problemIsInitialized, if_pos hinit, hcode]
    cases code <;> decide
  have hstate : (problemRetrieveState p false).1 =
      (some code, some (p.contestwork.toWork p.unused)) := by
    rw [problemRetrieveState, if_neg (by simp [hinit]), hcode]
  refine ⟨_, by rw [checkpointRecord, if_neg hloaded, hstate], ?_⟩
  rw [foldl_throughFile rfl rfl (nulTerminate_nulTerminate _)]
  refine ⟨rfl, ?_⟩
  rw [expectedProvenance, if_pos (Or.inr (take_cstring_copyId clientId))]
  rfl

/-! ## Results -/

/-- The result of a finished problem. -/
inductive Answer
  | found (key : Key72)
  | nothing
  deriving DecidableEq

/-- The result a problem shows, `none` while it is at work. -/
def Problem.answer (p : Problem) : Option Answer :=
  match p.lastResultcode with
  | some .found => some (.found p.contestwork.key)
  | some .nothing => some .nothing
  | _ => none

/-- The result of a problem, where a key counts only if it lies inside the block. -/
def Problem.blockAnswer (p : Problem) : Option Answer :=
  match p.lastResultcode with
  | some .found =>
    if p.contestwork.keysdone.int < p.contestwork.iterations.int then
      some (.found p.contestwork.key)
    else some .nothing
  | some .nothing => some .nothing
  | _ => none

theorem SameWork.answer {p q : Problem} (h : SameWork p q) : p.answer = q.answer := by
  rw [Problem.answer, Problem.answer, h.lastResultcode, h.contestwork]

theorem SameWork.blockAnswer {p q : Problem} (h : SameWork p q) : p.blockAnswer
    = q.blockAnswer := by
  rw [Problem.blockAnswer, Problem.blockAnswer, h.lastResultcode, h.contestwork]

/-- The problem is written by a refresh, and the record, recovered through some files, can be loaded
and ends after the slices `ns` with the result that the original problem has after them. -/
def Preserved (core : Core) (host : Host) (clientId : List U8) (files : List Bool) (tslice : U32)
    (q : Problem) (ns : List U32) (p : Problem) : Prop :=
  ∃ r p₂, checkpointRecord host clientId p = some r ∧
    loadRecord host clientId (files.foldl throughFile r) tslice q = (0, p₂) ∧
    (Run.final (runSlice core) ns p₂).answer = (Run.final (runSlice core) ns p).blockAnswer

/-- When a checkpoint preserves the result, if `T` keys are tested after the recovery. A problem
without a match needs one inside the rest of the block, or none in what is tested. A match is kept
at the first key of a block, or beyond the end of the block if the loader takes the key it was
advanced to and no other match follows. -/
def Problem.Preservable (p : Problem) (T : ℕ) : Prop :=
  let b := p.contestwork
  let d := b.keysdone.int
  if p.lastResultcode = some .found then
    (d = 0 ∧ 0 < b.iterations.int) ∨
      (b.iterations.int ≤ d ∧ b.key.hi.toNat ≤ 0xFF ∧ ∀ i, d ≤ i → i < d + T → ¬b.Matches i)
  else
    (∃ i, d ≤ i ∧ i < b.iterations.int ∧ b.Matches i) ∨ ∀ i, d ≤ i → i < d + T → ¬b.Matches i

section Rest

variable {p : Problem} (hp : p.Consistent) {T : ℕ}

include hp

/-- The keys of the search, by their offset from the key in the packet. -/
theorem verdict_rest (i : ℕ) : p.unitwork.verdict (refKeyStep^[i] p.unitwork.L0) = .hit ↔
    p.contestwork.Matches (p.contestwork.keysdone.int + i) := by
  rw [iterate_L0 hp, verdict_unitwork hp]
  rfl

/-- A problem finds something exactly when some key from the counter on matches. -/
theorem found_iff_matches : (p.rest T).found = true ↔
    ∃ i, p.contestwork.keysdone.int ≤ i ∧ i < p.contestwork.keysdone.int + T ∧
      p.contestwork.Matches i := by
  rw [Problem.rest, found_iff_exists]
  constructor
  · rintro ⟨i, hi, hhit⟩
    exact ⟨_, Nat.le_add_right _ i, Nat.add_lt_add_left hi _, (verdict_rest hp i).mp hhit⟩
  · rintro ⟨i, hle, hlt, hhit⟩
    obtain ⟨j, rfl⟩ := Nat.exists_eq_add_of_le hle
    exact ⟨j, Nat.lt_of_add_lt_add_left hlt, (verdict_rest hp j).mpr hhit⟩

/-- It stops at the first match. -/
theorem not_matches_of_lt_steps {i : ℕ} (hle : p.contestwork.keysdone.int ≤ i)
    (hlt : i < p.contestwork.keysdone.int + (p.rest T).steps) : ¬p.contestwork.Matches i := by
  obtain ⟨j, rfl⟩ := Nat.exists_eq_add_of_le hle
  have hmiss := test_of_lt_steps (Nat.lt_of_add_lt_add_left hlt)
  exact fun hhit ↦ hmiss ((verdict_rest hp j).mpr hhit)

theorem matches_of_found (hfound : (p.rest T).found = true) :
    p.contestwork.Matches (p.contestwork.keysdone.int + (p.rest T).steps) := by
  obtain ⟨-, hhit⟩ := found_iff_cursor.mp hfound
  rw [cursor_search] at hhit
  exact (verdict_rest hp _).mp hhit

/-- A problem finds nothing, or something before `limit`. -/
theorem found_before_iff (limit : ℕ) :
    ((p.rest T).found = true → p.contestwork.keysdone.int + (p.rest T).steps < limit) ↔
      (∃ i, p.contestwork.keysdone.int ≤ i ∧ i < limit ∧ p.contestwork.Matches i) ∨
        ∀ i, p.contestwork.keysdone.int ≤ i → i < p.contestwork.keysdone.int + T →
          ¬p.contestwork.Matches i := by
  constructor
  · intro hinside
    by_cases hfound : (p.rest T).found = true
    · exact Or.inl ⟨_, Nat.le_add_right _ _, hinside hfound, matches_of_found hp hfound⟩
    · refine Or.inr fun i hle hlt hhit ↦ hfound ?_
      exact (found_iff_matches hp).mpr ⟨i, hle, hlt, hhit⟩
  · rintro (⟨i, hle, hlt, hhit⟩ | hnone) hfound
    · refine Nat.lt_of_not_le fun hge ↦ ?_
      exact not_matches_of_lt_steps hp hle (hlt.trans_le hge) hhit
    · obtain ⟨i, hle, hlt, hhit⟩ := (found_iff_matches hp).mp hfound
      exact absurd hhit (hnone i hle hlt)

end Rest

/-! ## When a checkpoint preserves the result -/

private theorem answer_eq_iff {found inside : Prop} [Decidable found] [Decidable inside]
    (key : Key72) :
    some (if found then Answer.found key else .nothing) =
      some (if found ∧ inside then .found key else .nothing) ↔ (found → inside) := by
  by_cases hfound : found <;> by_cases hinside : inside <;> simp [hfound, hinside]

theorem Ends.answer {p q : Problem} {r : Outcome Key72} (h : Ends p r q) :
    q.answer = some (if r.found then .found q.contestwork.key else .nothing) := by
  rw [Problem.answer, h.lastResultcode]
  cases r.found <;> rfl

theorem Ends.blockAnswer {p q : Problem} {r : Outcome Key72} (h : Ends p r q) :
    q.blockAnswer = some (if r.found ∧
      p.contestwork.keysdone.int + r.steps < p.contestwork.iterations.int then
        .found q.contestwork.key else .nothing) := by
  rw [Problem.blockAnswer, h.lastResultcode, h.keysdone, h.iterations]
  cases r.found with
  | false => simp
  | true => simp only [if_true, true_and]; split_ifs <;> rfl

/-- What is left to show once the record has been written, recovered and loaded. -/
theorem preserved_iff {core : Core} {host : Host} {sel : Selcore} (hready : host.Ready sel)
    {p : Problem} (hinit : p.initialized = true) {code : Resultcode}
    (hcode : p.lastResultcode = some code) (hdummy : ¬p.contestwork.IsDummy)
    (hprov : p.provenance host = host.provenance sel) (clientId : List U8) (files : List Bool)
    (tslice : U32) {q : Problem} (hq : q.initialized = false) (ns : List U32) :
    Preserved core host clientId files tslice q ns p ↔ p.contestwork.key.Valid ∧
      ∀ p₂, Loaded host sel p.contestwork p₂ →
        (Run.final (runSlice core) ns p₂).answer
          = (Run.final (runSlice core) ns p).blockAnswer := by
  obtain ⟨r, hr, hwork, hexpected⟩ := recovered_record host hinit hcode clientId files
  have hload : loadRecord host clientId (files.foldl throughFile r) tslice q =
      problemLoadState host (p.contestwork.toWork p.unused) tslice (p.provenance host) q := by
    rw [loadRecord, hwork, hexpected]
  constructor
  · rintro ⟨r', p₂, hr', hload', hanswer⟩
    obtain rfl := Option.some_inj.mp (hr.symm.trans hr')
    rw [hload] at hload'
    obtain ⟨sel', hready', hloaded⟩ := loaded_of_eq hload'
    rw [BigCrypto.ofWork_toWork, hready'.unique hready, hprov, BigCrypto.resumed_self] at hloaded
    refine ⟨hloaded.contestwork ▸ hloaded.consistent.valid, ?_⟩
    intro p₃ hloaded₃
    have hsame := ((hloaded₃.sameWork hloaded).run core ns).2
    rw [hsame.answer]
    exact hanswer
  · rintro ⟨hvalid, hanswer⟩
    obtain ⟨p₂, hload', hloaded⟩ := exists_load hready (p.contestwork.toWork p.unused)
      hvalid hdummy tslice (p.provenance host) hq
    rw [hprov, BigCrypto.resumed_self, BigCrypto.ofWork_toWork] at hloaded
    exact ⟨r, p₂, hr, hload.trans hload', hanswer p₂ hloaded⟩

/-- The recovered problem of one that has ended with a match starts behind the match. -/
private theorem answer_of_matched {core : Core}
    (hcore : core.Faithful) {host : Host} {sel : Selcore}
    {p : Problem} {ns : List U32} {T : ℕ}
    (hT : keysToFinish p.contestwork.iterations ns p.contestwork.keysdone = some T)
    (hwrap : p.contestwork.keysdone.int + T < 2 ^ 64) (hcode : p.lastResultcode = some .found)
    (hmatch : p.contestwork.Matches 0) {p₂ : Problem} (hloaded : Loaded host sel p.contestwork p₂) :
    (Run.final (runSlice core) ns p₂).answer = (Run.final (runSlice core) ns p).blockAnswer ↔
      (p.contestwork.keysdone.int = 0 ∧ 0 < p.contestwork.iterations.int) ∨
        (p.contestwork.iterations.int ≤ p.contestwork.keysdone.int ∧
          ∀ i, p.contestwork.keysdone.int ≤ i → i < p.contestwork.keysdone.int + T →
            ¬p.contestwork.Matches i) := by
  have hcons := hloaded.consistent
  have hcontest := hloaded.contestwork
  have hends : Ends p₂ (p₂.rest T) (Run.final (runSlice core) ns p₂) :=
    final_of_finish hcore hcons hloaded.working (by rw [hcontest]; exact hT)
      (by rw [hcontest]; exact hwrap)
  have hsame : SameWork p (Run.final (runSlice core) ns p) :=
    sameWork_finished (by rw [hcode]; decide) ns
  rw [← hsame.blockAnswer, Problem.blockAnswer, hcode, hends.answer]
  rw [← hcontest] at hmatch hwrap ⊢
  have hfound := found_iff_matches (T := T) hcons
  by_cases hinside : p₂.contestwork.keysdone.int < p₂.contestwork.iterations.int
  · -- inside the block the same key must come out, and it does only where it went in
    have hkey (hf : (p₂.rest T).found = true) :
        (Run.final (runSlice core) ns p₂).contestwork.key.int =
          p₂.contestwork.key.int + (p₂.contestwork.keysdone.int + (p₂.rest T).steps) := by
      have hlt := Key72.int_lt hcons.valid
      have hle : (p₂.rest T).steps ≤ T := steps_search_le ..
      rw [hends.key, if_pos hf, int_advanceKey, hends.keysdone, Nat.mod_eq_of_lt]
      omega
    simp only [if_pos hinside, Option.some_inj]
    constructor
    · intro hanswer
      have hf : (p₂.rest T).found = true := by
        by_contra hf
        rw [if_neg hf] at hanswer
        cases hanswer
      rw [if_pos hf, Answer.found.injEq] at hanswer
      have hint := hkey hf
      rw [hanswer] at hint
      exact Or.inl ⟨by omega, by omega⟩
    · rintro (⟨hzero, -⟩ | ⟨hge, -⟩)
      · have hpos := keysToFinish_pos hT
        have hf : (p₂.rest T).found = true :=
          hfound.mpr ⟨0, by omega, by omega, hmatch⟩
        have hsteps : (p₂.rest T).steps = 0 := by
          by_contra hne
          exact not_matches_of_lt_steps hcons (T := T) (i := 0) (by omega) (by omega) hmatch
        rw [if_pos hf, Answer.found.injEq]
        apply Key72.int_inj
        rw [hkey hf, hzero, hsteps]
        rfl
      · exact absurd hinside (Nat.not_lt_of_le hge)
  · have hnotpos : ¬(p₂.contestwork.keysdone.int = 0 ∧ 0 < p₂.contestwork.iterations.int) := by
      omega
    have hnone : (∀ i, p₂.contestwork.keysdone.int ≤ i → i < p₂.contestwork.keysdone.int + T →
        ¬p₂.contestwork.Matches i) ↔ ¬(p₂.rest T).found = true := by
      rw [hfound]
      simp only [not_exists, not_and]
    rw [or_iff_right hnotpos, and_iff_right (Nat.le_of_not_lt hinside), hnone]
    simp only [if_neg hinside, Option.some_inj]
    split_ifs with hf
    · exact iff_of_false nofun (not_not.mpr hf)
    · exact iff_of_true rfl hf

section Preservation

variable {core : Core} (hcore : core.Faithful) {host : Host} {sel : Selcore}
  (hready : host.Ready sel) {p : Problem} (hprov : p.provenance host = host.provenance sel)
  (clientId : List U8) (files : List Bool) (tslice : U32) {q : Problem}
  (hq : q.initialized = false) {ns : List U32} {T : ℕ}
  (hT : keysToFinish p.contestwork.iterations ns p.contestwork.keysdone = some T)
  (hwrap : p.contestwork.keysdone.int + T < 2 ^ 64)

include hcore hready hprov hq hT hwrap

/-- The recovered problem of one that has found nothing does what the original would do from
here. -/
theorem preserved_unmatched (hp : p.Consistent)
    (hcode : p.lastResultcode = some .working ∨
      p.lastResultcode = some .nothing ∧ p.contestwork.Done) :
    Preserved core host clientId files tslice q ns p ↔ p.Preservable T := by
  obtain ⟨p₂, hp₂⟩ : ∃ p₂, p₂ = { p with lastResultcode := some .working } := ⟨_, rfl⟩
  have hcons : p₂.Consistent := by
    rw [hp₂]
    exact ⟨hp.initialized, hp.unitwork, hp.refL0, hp.valid, hp.not_dummy⟩
  have hloaded : Loaded host sel p.contestwork p₂ :=
    ⟨hcons, by rw [hp₂], by rw [hp₂], by rw [hp₂]; exact hprov⟩
  have hends : Ends p (p.rest T) (Run.final (runSlice core) ns p₂) := by
    have hT₂ : keysToFinish p₂.contestwork.iterations ns p₂.contestwork.keysdone = some T := by
      rw [hloaded.contestwork]
      exact hT
    have hrun := final_of_finish hcore hcons hloaded.working hT₂
      (by rw [hloaded.contestwork]; exact hwrap)
    rw [hp₂] at hrun ⊢
    exact ⟨hrun.lastResultcode, hrun.iterations, hrun.keysdone, hrun.key⟩
  have hbefore := found_before_iff (T := T) hp p.contestwork.iterations.int
  have hone : Preserved core host clientId files tslice q ns p ↔
      (Run.final (runSlice core) ns p₂).answer = (Run.final (runSlice core) ns p).blockAnswer := by
    obtain ⟨code, hsome⟩ : ∃ code, p.lastResultcode = some code := by
      rcases hcode with h | ⟨h, -⟩ <;> exact ⟨_, h⟩
    rw [preserved_iff hready hp.initialized hsome hp.not_dummy hprov clientId files tslice hq ns,
      and_iff_right hp.valid]
    constructor
    · intro hall
      exact hall p₂ hloaded
    · intro hanswer p₃ hloaded₃
      rw [((hloaded₃.sameWork hloaded).run core ns).2.answer]
      exact hanswer
  -- a match beyond the end of the block is none, wherever the original stopped
  have hcross : (Run.final (runSlice core) ns p₂).answer
    = (Run.final (runSlice core) ns p).blockAnswer ↔
      ((p.rest T).found = true →
        p.contestwork.keysdone.int + (p.rest T).steps < p.contestwork.iterations.int) := by
    rcases hcode with hwork | ⟨hnothing, hdone⟩
    · have hsame : p₂ = p := by rw [hp₂, ← hwork]
      rw [hsame] at hends ⊢
      rw [hends.answer, hends.blockAnswer, answer_eq_iff]
    · have hsame : SameWork p (Run.final (runSlice core) ns p) :=
        sameWork_finished (by rw [hnothing]; decide) ns
      have hnone : p.blockAnswer = some .nothing := by rw [Problem.blockAnswer, hnothing]
      have hbeyond : ¬((p.rest T).found = true ∧
          p.contestwork.keysdone.int + (p.rest T).steps < p.contestwork.iterations.int) := by
        rintro ⟨-, hlt⟩
        rw [BigCrypto.done_iff] at hdone
        omega
      rw [← hsame.blockAnswer, hnone, hends.answer,
        ← answer_eq_iff (Run.final (runSlice core) ns p₂).contestwork.key, if_neg hbeyond]
  rw [hone, hcross, hbefore, Problem.Preservable, if_neg]
  rcases hcode with h | ⟨h, -⟩ <;> rw [h] <;> decide

theorem preserved_matched (hp : p.Sound) (hcode : p.lastResultcode = some .found) :
    Preserved core host clientId files tslice q ns p ↔ p.Preservable T := by
  rw [Problem.Sound, hcode] at hp
  obtain ⟨hinit, hmatch, hdummy, hzero⟩ := hp
  have hanswer {p₂ : Problem} (hloaded : Loaded host sel p.contestwork p₂) :=
    answer_of_matched hcore hT hwrap hcode hmatch hloaded
  have hkey : p.contestwork.key.hi.toNat ≤ 0xFF ↔ p.contestwork.key.Valid := by
    rw [Key72.Valid]
    exact Nat.lt_succ_iff.symm
  rw [preserved_iff hready hinit hcode hdummy hprov clientId files tslice hq ns,
    Problem.Preservable,
    if_pos hcode, hkey]
  constructor
  · rintro ⟨hvalid, hall⟩
    obtain ⟨p₂, -, hloaded⟩ := exists_load hready (p.contestwork.toWork p.unused) hvalid hdummy
      tslice (p.provenance host) hq
    rw [hprov, BigCrypto.resumed_self, BigCrypto.ofWork_toWork] at hloaded
    rcases (hanswer hloaded).mp (hall p₂ hloaded) with hfirst | ⟨hbeyond, hnone⟩
    · exact Or.inl hfirst
    · exact Or.inr ⟨hbeyond, hvalid, hnone⟩
  · rintro (hfirst | ⟨hbeyond, hvalid, hnone⟩)
    · exact ⟨hzero hfirst.1, fun p₂ hloaded ↦ (hanswer hloaded).mpr (Or.inl hfirst)⟩
    · exact ⟨hvalid, fun p₂ hloaded ↦ (hanswer hloaded).mpr (Or.inr ⟨hbeyond, hnone⟩)⟩

end Preservation

/-- **When a checkpoint preserves the result**, for every state that a loaded problem can reach
without wrapping its counter, and every way to run the recovered problem to its end. -/
theorem checkpoint_preserves_iff {core : Core} (hcore : core.Faithful) {host : Host}
    {work : ContestWork} {tslice : U32} {expected : Provenance} {q₀ p₀ : Problem}
    (hload : problemLoadState host work tslice expected q₀ = (0, p₀)) {ns₁ : List U32}
    (hrun : Run.Guarded (runSlice core) Unwrapped ns₁ p₀) (clientId : List U8) (files : List Bool)
    (tslice' : U32) {q : Problem} (hq : q.initialized = false) {ns : List U32} {T : ℕ} :
    let p := Run.final (runSlice core) ns₁ p₀
    keysToFinish p.contestwork.iterations ns p.contestwork.keysdone = some T →
      p.contestwork.keysdone.int + T < 2 ^ 64 →
        (Preserved core host clientId files tslice' q ns p ↔ p.Preservable T) := by
  intro p hT hwrap
  obtain ⟨sel, hready, hloaded⟩ := loaded_of_eq hload
  have hsound : p.Sound := sound_run hcore hloaded.sound hrun
  have hprov : p.provenance host = host.provenance sel :=
    (provenance_run host ns₁ p₀).trans hloaded.provenance
  by_cases hfound : p.lastResultcode = some .found
  · exact preserved_matched hcore hready hprov clientId files tslice' hq hT hwrap hsound hfound
  · rw [Problem.Sound] at hsound
    rcases hcode : p.lastResultcode with _ | _ | _ | _ <;> rw [hcode] at hsound
    · exact hsound.elim
    · exact preserved_unmatched hcore hready hprov clientId files tslice' hq hT hwrap hsound
        (Or.inl hcode)
    · exact preserved_unmatched hcore hready hprov clientId files tslice' hq hT hwrap hsound.1
        (Or.inr ⟨hcode, hsound.2⟩)
    · exact absurd hcode hfound

/-- A short block at its beginning, with a match inside, is preserved. -/
theorem checkpoint_preserves_iff_selftest :
    let b : BigCrypto := { selftestWork with iterations := ⟨0#32, 48#32⟩ }
    ∃ p, problemLoadState amd64Host (b.toWork (0#32, 0#32)) 48#32
        (amd64Host.provenance ⟨5#32, 17#32, 4⟩) problemAlloc = (0, p) ∧
      Preserved rc572UnitFuncAnsiRef amd64Host [] [true, false] 48#32 problemAlloc [48#32] p := by
  intro b
  obtain ⟨p, hload, hloaded⟩ := exists_load ready_amd64Host (b.toWork (0#32, 0#32)) (by decide)
    (by decide) 48#32 (amd64Host.provenance ⟨5#32, 17#32, 4⟩) (q := problemAlloc) rfl
  rw [BigCrypto.resumed_self, BigCrypto.ofWork_toWork] at hloaded
  have hT : keysToFinish b.iterations [48#32] b.keysdone = some 48 := by decide
  have hwrap : b.keysdone.int + 48 < 2 ^ 64 := by decide
  have hmatch : b.Matches 3 := by decide +kernel
  rw [← hloaded.contestwork] at hT hwrap hmatch
  have hbegin : p.contestwork.keysdone.int = 0 ∧ p.contestwork.iterations.int = 48 := by
    rw [hloaded.contestwork]
    decide
  have hrun : Run.Guarded (runSlice rc572UnitFuncAnsiRef) Unwrapped [] p := trivial
  refine ⟨p, hload, (checkpoint_preserves_iff faithful_ansiRef hload hrun [] [true, false] 48#32
    rfl hT
    hwrap).mpr ?_⟩
  have hcode : (Run.final (runSlice rc572UnitFuncAnsiRef) [] p).lastResultcode ≠ some .found := by
    rw [Run.final, hloaded.working]
    decide
  rw [Problem.Preservable, if_neg hcode]
  refine Or.inl ⟨3, ?_, ?_, hmatch⟩
  · rw [Run.final, hbegin.1]
    exact Nat.zero_le 3
  · rw [Run.final, hbegin.2]
    decide

/-- **A match is lost.** The fourth key of a block of `2³²` keys is found in the first slice. The
record of a refresh at this point, recovered and loaded, does not lead to it again, however the
recovered problem is run to its end, and there are ways to do so. -/
theorem checkpoint_loses_match :
    ∃ p₀, problemLoadState amd64Host (selftestWork.toWork (0#32, 0#32)) 48#32
        (amd64Host.provenance ⟨5#32, 17#32, 4⟩) problemAlloc = (0, p₀) ∧
      let p := Run.final (runSlice rc572UnitFuncAnsiRef) [48#32] p₀
      p.lastResultcode = some .found ∧
      p.contestwork.keysdone.int = 3 ∧ p.contestwork.iterations.int = 2 ^ 32 ∧
      (∃ ns T, keysToFinish p.contestwork.iterations ns p.contestwork.keysdone = some T ∧
        p.contestwork.keysdone.int + T < 2 ^ 64) ∧
      ∀ ns T, keysToFinish p.contestwork.iterations ns p.contestwork.keysdone = some T →
        p.contestwork.keysdone.int + T < 2 ^ 64 →
          ∀ clientId files tslice,
            ¬Preserved rc572UnitFuncAnsiRef amd64Host clientId files tslice problemAlloc ns p := by
  have hready := ready_amd64Host
  obtain ⟨p₀, hload, hloaded⟩ := exists_load hready (selftestWork.toWork (0#32, 0#32))
    (by decide) (by decide) 48#32 (amd64Host.provenance ⟨5#32, 17#32, 4⟩) (q := problemAlloc) rfl
  rw [BigCrypto.resumed_self, BigCrypto.ofWork_toWork] at hloaded
  have hsearch : (search (unitworkOf selftestWork).verdict refKeyStep 48
      (unitworkOf selftestWork).L0).found = true
        ∧ (search (unitworkOf selftestWork).verdict refKeyStep
        48 (unitworkOf selftestWork).L0).steps = 3 := by decide +kernel
  have hkeys : keysToCheck selftestWork.iterations selftestWork.keysdone 48#32 = 48#32 := by decide
  have hslice : (p₀.slice 48#32).found = true ∧ (p₀.slice 48#32).steps = 3 := by
    rw [Problem.slice, Problem.keysToCheck, hloaded.consistent.unitwork, hloaded.contestwork, hkeys]
    exact hsearch
  refine ⟨p₀, hload, ?_⟩
  intro p
  have hp : p = p₀.after (p₀.slice 48#32) :=
    runSlice_eq faithful_ansiRef hloaded.consistent hloaded.working 48#32
  have hcode : p.lastResultcode = some .found := by
    rw [hp, lastResultcode_after, if_pos hslice.1]
  have hwrap₀ : p₀.contestwork.keysdone.int + (p₀.keysToCheck 48#32).toNat < 2 ^ 64 := by
    rw [Problem.keysToCheck, hloaded.contestwork, hkeys]
    decide
  have hdone : p.contestwork.keysdone.int = 3 := by
    rw [hp, int_keysdone_after hwrap₀, hloaded.contestwork, hslice.2]
    rfl
  have hiter : p.contestwork.iterations.int = 2 ^ 32 := by
    rw [hp, iterations_after, hloaded.contestwork]
    rfl
  have hsound : p.Sound := by
    rw [hp]
    exact sound_after_found hloaded.consistent hslice.1 hwrap₀
  have hprov : p.provenance amd64Host = amd64Host.provenance ⟨5#32, 17#32, 4⟩ :=
    (provenance_run amd64Host [48#32] p₀).trans hloaded.provenance
  refine ⟨hcode, hdone, hiter, ?_, ?_⟩
  · have hlen : p.contestwork.iterations.int ≤
        p.contestwork.keysdone.int + (List.replicate (2 ^ 32) 48#32).length := by
      rw [List.length_replicate, hiter]
      exact Nat.le_add_left _ _
    obtain ⟨T, hT, hwrap⟩ := exists_keysToFinish (by rw [hiter]; decide)
      (by rw [hiter, hdone]; decide) hlen
    exact ⟨_, T, hT, hwrap⟩
  · intro ns T hT hwrap clientId files tslice hpreserved
    have hpreservable := (preserved_matched faithful_ansiRef hready hprov clientId files tslice
      rfl hT
      hwrap hsound hcode).mp hpreserved
    rw [Problem.Preservable, if_pos hcode, hdone, hiter] at hpreservable
    rcases hpreservable with ⟨hzero, -⟩ | ⟨hle, -⟩
    · exact absurd hzero (by decide)
    · exact absurd hle (by decide)

end Hyunjin
