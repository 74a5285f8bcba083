import Hyunjin.Problem.Checkpoint
import Hyunjin.Problem.Counters

/-!
# The life of a block

A block is searched in slices. In between it may be put away as work in progress, in an input buffer
when it is unloaded or in a checkpoint, pass through any number of files, and be taken up again, by
the same client or by another one with another core. A client goes on where its own work stands, and
begins another's from the first key.

However that goes, no key is left out (`block_searched`): a block is finished without a match only
when all of its keys have been tested and none matches, and a match is the first one from where the
search began. A client that gets back its own work tests no key twice (`block_searched_once`).
-/

namespace Hyunjin

open Search

/-- A client that can load RC5-72, and its core. -/
structure Worker where
  host : Host
  sel : Selcore
  ready : host.Ready sel
  id : List U8
  core : Core
  faithful : core.Faithful

/-- A packet of RC5-72 that the loader takes, with keys left, that ends a whole word before
`2⁶⁴`. -/
structure Assignment where
  record : WorkRecord
  contest : record.contest = RC5_72
  valid : (BigCrypto.ofWork record.work).key.Valid
  not_dummy : ¬(BigCrypto.ofWork record.work).IsDummy
  begun : (BigCrypto.ofWork record.work).keysdone.int <
    (BigCrypto.ofWork record.work).iterations.int
  small : (BigCrypto.ofWork record.work).iterations.int + 2 ^ 32 ≤ 2 ^ 64

def Assignment.block (a : Assignment) : BigCrypto := BigCrypto.ofWork a.record.work

/-- A problem that nothing is loaded into. -/
abbrev FreeProblem : Type := {q : Problem // q.initialized = false}

/-- A block on its way: who has it, the problem it is loaded into, and the keys tested so far. -/
structure Life where
  worker : Worker
  problem : Problem
  tested : List Key72

/-- What happens to a block: a slice of it is run, or it is put away, passes through files, and is
taken up by the next client. -/
inductive Stage
  | slice (requested : U32)
  | handOn (files : List Bool) (next : Worker) (tslice : U32) (q : FreeProblem)

/-- A client loads a record. A block that cannot be loaded is lost. -/
def takeUp (w : Worker) (r : WorkRecord) (tslice : U32) (q : FreeProblem) (tested : List Key72) :
    Option Life :=
  let (code, p) := loadRecord w.host w.id r tslice q.val
  if code = 0 then some ⟨w, p, tested⟩ else none

/-- One stage. A block that is finished goes out to the keyserver and is not taken up again. -/
def Stage.run : Stage → Life → Option Life
  | slice requested, l =>
    let (report, p) := runSlice l.worker.core requested l.problem
    some ⟨l.worker, p, l.tested ++ report.tested⟩
  | handOn files next tslice q, l =>
    -- for work in progress an unload writes the record that a refresh writes
    if l.problem.lastResultcode = some .working then
      (checkpointRecord l.worker.host l.worker.id l.problem).bind fun r ↦
        takeUp next (files.foldl throughFile r) tslice q l.tested
    else some l

/-- The life of a block, from the client that takes it up first. -/
def lifeOf (a : Assignment) (w : Worker) (tslice : U32) (q : FreeProblem) (stages : List Stage) :
    Option Life :=
  stages.foldl (fun l stage ↦ l.bind stage.run) (takeUp w a.record tslice q [])

/-- The search of a block from offset `s` on, after earlier tests, has come to offset `N`. -/
def SearchedFrom (b : BigCrypto) (s : ℕ) (earlier : List Key72) (l : Life) : Prop :=
  ∃ N, s ≤ N ∧ l.problem.contestwork.keysdone.int = N ∧ (∀ i, s ≤ i → i < N → ¬b.Matches i) ∧
    match l.problem.lastResultcode with
    | some .working => N < b.iterations.int ∧ l.tested = earlier ++ b.keysFrom s (N - s)
    | some .nothing => b.iterations.int ≤ N ∧ l.tested = earlier ++ b.keysFrom s (N - s)
    | some .found => b.Matches N ∧ l.problem.contestwork.key.int = b.key.int + N ∧
        l.tested = earlier ++ b.keysFrom s (N - s + 1)
    | none => False

/-- The search began where the packet stood, or at the first key of all if the work was begun
again. -/
def Searched (b : BigCrypto) (l : Life) : Prop :=
  ∃ s earlier, (s = b.keysdone.int ∧ earlier = [] ∨ s = 0) ∧ SearchedFrom b s earlier l

/-- The stage leaves the block with the client `w`. -/
def Stage.By (w : Worker) : Stage → Prop
  | slice _ => True
  | handOn _ next _ _ => next = w

/-- The keys of one search are tested once each. -/
theorem SearchedFrom.nodup {b : BigCrypto} {s : ℕ} {l : Life} (h : SearchedFrom b s [] l) :
    l.tested.Nodup := by
  obtain ⟨N, -, hkeysdone, -, hcode⟩ := h
  have hlt : N < 2 ^ 64 := hkeysdone ▸ Block.int_lt _
  obtain ⟨m, hm, htested⟩ : ∃ m, m ≤ 2 ^ 64 ∧ l.tested = b.keysFrom s m := by
    rcases hres : l.problem.lastResultcode with _ | _ | _ | _ <;> rw [hres] at hcode
    · exact hcode.elim
    · exact ⟨N - s, by omega, hcode.2⟩
    · exact ⟨N - s, by omega, hcode.2⟩
    · exact ⟨N - s + 1, by omega, hcode.2.2⟩
  rw [htested]
  exact b.nodup_keysFrom s (hm.trans (by decide))

/-! ## Blocks at work -/

/-- A block at work, searched from offset `s` on, at offset `N`. -/
structure AtWork (b : BigCrypto) (s N : ℕ) (earlier : List Key72) (l : Life) : Prop where
  consistent : l.problem.Consistent
  provenance : l.problem.provenance l.worker.host = l.worker.host.provenance l.worker.sel
  working : l.problem.lastResultcode = some .working
  key : l.problem.contestwork.key = b.key
  verdict : l.problem.contestwork.verdict = b.verdict
  iterations : l.problem.contestwork.iterations = b.iterations
  keysdone : l.problem.contestwork.keysdone.int = N
  left : N < b.iterations.int
  le : s ≤ N
  unmatched : ∀ i, s ≤ i → i < N → ¬b.Matches i
  tested : l.tested = earlier ++ b.keysFrom s (N - s)

theorem AtWork.searchedFrom {b : BigCrypto} {s N : ℕ} {earlier : List Key72} {l : Life}
    (h : AtWork b s N earlier l) : SearchedFrom b s earlier l := by
  refine ⟨N, h.le, h.keysdone, h.unmatched, ?_⟩
  rw [h.working]
  exact ⟨h.left, h.tested⟩

/-- A block is at work, or finished. -/
def Going (b : BigCrypto) (s : ℕ) (earlier : List Key72) (l : Life) : Prop :=
  (∃ N, AtWork b s N earlier l) ∨
    l.problem.lastResultcode ≠ some .working ∧ SearchedFrom b s earlier l

theorem Going.searchedFrom {b : BigCrypto} {s : ℕ} {earlier : List Key72} {l : Life}
    (h : Going b s earlier l) : SearchedFrom b s earlier l := by
  rcases h with ⟨N, hwork⟩ | ⟨-, hsearched⟩
  · exact hwork.searchedFrom
  · exact hsearched

/-! ## Taking up -/

theorem exists_takeUp (w : Worker) {r : WorkRecord} {b : BigCrypto}
    (hwork : BigCrypto.ofWork r.work = b) (hvalid : b.key.Valid) (hdummy : ¬b.IsDummy)
    (tslice : U32) (q : FreeProblem) (tested : List Key72) :
    ∃ p, takeUp w r tslice q tested = some ⟨w, p, tested⟩ ∧
      Loaded w.host w.sel
        (b.resumed (w.host.provenance w.sel) (expectedProvenance w.id r)) p := by
  subst hwork
  obtain ⟨p, hload, hloaded⟩ := exists_load w.ready r.work hvalid hdummy tslice
    (expectedProvenance w.id r) q.property
  refine ⟨p, ?_, hloaded⟩
  rw [takeUp, loadRecord, hload]
  exact if_pos rfl

/-- What a client knows again, and what is not begun, is gone on with. -/
theorem resumed_eq_self {b : BigCrypto} {own expected : Provenance}
    (h : expected = own ∨ b.keysdone.int = 0) : b.resumed own expected = b := by
  rw [BigCrypto.resumed, if_neg]
  rintro ⟨hbegun, hother⟩
  exact h.elim hother hbegun

section Taken

variable {w : Worker} {b c : BigCrypto} {p : Problem} {s : ℕ} {earlier tested : List Key72}
  (hkey : c.key = b.key) (hverdict : c.verdict = b.verdict)
  (hiter : c.iterations = b.iterations) (hleft : c.keysdone.int < b.iterations.int)
  (hle : s ≤ c.keysdone.int) (hunmatched : ∀ i, s ≤ i → i < c.keysdone.int → ¬b.Matches i)
  (htested : tested = earlier ++ b.keysFrom s (c.keysdone.int - s))

include hkey hverdict hiter hleft hle hunmatched htested

/-- What is known of the work is known of the loaded problem. -/
theorem atWork_of_loaded (hloaded : Loaded w.host w.sel c p) :
    AtWork b s c.keysdone.int earlier ⟨w, p, tested⟩ := by
  refine ⟨hloaded.consistent, hloaded.provenance, hloaded.working, ?_, ?_, ?_, ?_, hleft, hle,
    hunmatched, htested⟩ <;> rw [hloaded.contestwork]
  all_goals assumption

/-- Work that is begun again is searched from its first key on. -/
theorem going_of_loaded {own expected : Provenance}
    (hloaded : Loaded w.host w.sel (c.resumed own expected) p) :
    ∃ s' earlier', (s' = s ∧ earlier' = earlier ∨ s' = 0) ∧ Going b s' earlier' ⟨w, p, tested⟩ := by
  rw [BigCrypto.resumed] at hloaded
  split_ifs at hloaded
  · -- all that was tested so far counts as earlier
    refine ⟨0, tested, Or.inr rfl, Or.inl ⟨_, atWork_of_loaded (c := c.restart) hkey hverdict hiter
      ((Nat.zero_le _).trans_lt hleft) le_rfl ?_ (List.append_nil tested).symm hloaded⟩⟩
    intro i _ hi
    exact absurd hi (Nat.not_lt_zero i)
  · exact ⟨s, earlier, Or.inl ⟨rfl, rfl⟩, Or.inl ⟨_, atWork_of_loaded hkey hverdict hiter hleft hle
      hunmatched htested hloaded⟩⟩

end Taken

/-! ## One stage -/

/-- A block at work looks for what its packet looks for. -/
theorem AtWork.matches_iff {b : BigCrypto} {s N : ℕ} {earlier : List Key72} {l : Life}
    (h : AtWork b s N earlier l) (i : ℕ) : l.problem.contestwork.Matches i ↔ b.Matches i := by
  rw [BigCrypto.Matches, BigCrypto.Matches, h.verdict, h.key]

theorem AtWork.atOffset {b : BigCrypto} {s N : ℕ} {earlier : List Key72} {l : Life}
    (h : AtWork b s N earlier l) : AtOffset b N l.problem := by
  refine ⟨h.consistent.inStep, ?_, ?_, h.iterations⟩
  · rw [h.consistent.unitwork, L0_unitworkOf, h.key, h.keysdone]
  · rw [← h.keysdone, Nat.mod_eq_of_lt (Block.int_lt _)]

/-- The keys passed over by the next slice, after those tested before. -/
theorem keysFrom_tested (b : BigCrypto) {s N : ℕ} (hle : s ≤ N) (m : ℕ) :
    b.keysFrom s (N - s) ++ b.keysFrom N m = b.keysFrom s (N + m - s) := by
  obtain ⟨k, rfl⟩ := Nat.exists_eq_add_of_le hle
  rw [Nat.add_sub_cancel_left, Nat.add_assoc, Nat.add_sub_cancel_left, BigCrypto.keysFrom_append]

section Slice

variable {b : BigCrypto} {s N : ℕ} {earlier : List Key72} {l : Life} (h : AtWork b s N earlier l)
  (n : U32)

include h

/-- The whole word at the end of the count is more than a slice can overshoot the block. -/
theorem AtWork.unwrapped (hsmall : b.iterations.int + 2 ^ 32 ≤ 2 ^ 64) :
    l.problem.contestwork.keysdone.int + (l.problem.keysToCheck n).toNat < 2 ^ 64 := by
  have hleft := h.left
  have hlt := (l.problem.keysToCheck n).isLt
  rw [h.keysdone]
  omega

/-- No key that a slice passes over matches. -/
theorem AtWork.not_matches_slice {i : ℕ} (hs : s ≤ i) (hi : i < N + (l.problem.slice n).steps) :
    ¬b.Matches i := by
  intro hmatch
  by_cases hiN : i < N
  · exact h.unmatched i hs hiN hmatch
  · refine not_matches_of_lt_steps h.consistent (T := (l.problem.keysToCheck n).toNat) ?_ ?_
      ((h.matches_iff i).mpr hmatch)
    · rw [h.keysdone]
      exact Nat.le_of_not_lt hiN
    · rw [h.keysdone]
      exact hi

/-- A slice goes on with the stretch of keys tested; the key of a match is tested, not passed. -/
theorem AtWork.run_slice : (Stage.slice n).run l = some ⟨l.worker, l.problem.after
    (l.problem.slice n), earlier ++ b.keysFrom s
      (N + ((l.problem.slice n).steps + (l.problem.slice n).found.toNat) - s)⟩ := by
  have hq := runSlice_eq l.worker.faithful h.consistent h.working n
  have htested := h.atOffset.testedKeys h.working l.worker.core n
  rw [Stage.run]
  simp only [hq, htested, h.tested, List.append_assoc, keysFrom_tested b h.le]

end Slice

/-- A slice finds the first match, or passes over keys of which none matches. -/
theorem going_slice {a : Assignment} {s N : ℕ} {earlier : List Key72} {l : Life}
    (h : AtWork a.block s N earlier l) (n : U32) :
    ∃ l', (Stage.slice n).run l = some l' ∧ l'.worker = l.worker ∧ Going a.block s earlier l' := by
  refine ⟨_, h.run_slice n, rfl, ?_⟩
  set p := l.problem
  have hcons : p.Consistent := h.consistent
  have hwrap := h.unwrapped n a.small
  have hcount := int_keysdone_after hwrap
  rw [h.keysdone] at hcount
  have hle : s ≤ N + (p.slice n).steps := h.le.trans (Nat.le_add_right _ _)
  have hunmatched : ∀ i, s ≤ i → i < N + (p.slice n).steps → ¬a.block.Matches i :=
    fun _ hs hi ↦ h.not_matches_slice n hs hi
  have hcode := lastResultcode_after p (p.slice n)
  cases hfound : (p.slice n).found with
  | true =>
    rw [hfound, if_pos rfl] at hcode
    refine Or.inr ⟨?_, _, hle, hcount, hunmatched, ?_⟩
    · rw [hcode]
      decide
    · rw [hcode]
      refine ⟨?_, ?_, ?_⟩
      · have hmatch := matches_of_found hcons (T := (p.keysToCheck n).toNat) hfound
        rw [h.keysdone] at hmatch
        exact (h.matches_iff _).mp hmatch
      · -- the key is advanced modulo `2⁹⁶`, out of reach of 72 bits and a count of 64
        have hlt := Key72.int_lt hcons.valid
        have hlt' := Block.int_lt (p.after (p.slice n)).contestwork.keysdone
        rw [key_after, if_pos hfound, int_advanceKey, Nat.mod_eq_of_lt (by omega), h.key, hcount]
      · rw [Bool.toNat_true, ← Nat.add_assoc, Nat.sub_add_comm hle]
  | false =>
    rw [hfound, if_neg Bool.false_ne_true] at hcode
    rw [Bool.toNat_false, Nat.add_zero]
    have hiter : (p.after (p.slice n)).contestwork.iterations = a.block.iterations :=
      (iterations_after ..).trans h.iterations
    by_cases hdone : (p.after (p.slice n)).contestwork.Done
    · rw [if_pos hdone] at hcode
      refine Or.inr ⟨?_, _, hle, hcount, hunmatched, ?_⟩
      · rw [hcode]
        decide
      · rw [hcode]
        rw [BigCrypto.done_iff, hiter, hcount] at hdone
        exact ⟨hdone, rfl⟩
    · rw [if_neg hdone] at hcode
      rw [BigCrypto.done_iff, hiter, hcount] at hdone
      refine Or.inl ⟨_, consistent_after hcons hfound hwrap, h.provenance, hcode, ?_,
        (verdict_after ..).trans h.verdict, hiter, hcount, Nat.lt_of_not_le hdone, hle, hunmatched,
        rfl⟩
      rw [key_after, hfound, if_neg Bool.false_ne_true]
      exact h.key

section HandOn

variable {b : BigCrypto} {s N : ℕ} {earlier : List Key72} {l : Life} (h : AtWork b s N earlier l)
  (files : List Bool) (next : Worker) (tslice : U32) (q : FreeProblem)

include h

/-- What is put away at work is taken up with the work and the provenance that it had. -/
theorem exists_handOn : ∃ r p,
    (Stage.handOn files next tslice q).run l = some ⟨next, p, l.tested⟩ ∧
      Loaded next.host next.sel (l.problem.contestwork.resumed (next.host.provenance next.sel)
        (expectedProvenance next.id r)) p ∧
      expectedProvenance l.worker.id r = l.worker.host.provenance l.worker.sel := by
  obtain ⟨r, hr, hwork, hprov⟩ := recovered_record l.worker.host h.consistent.initialized h.working
    l.worker.id files
  have hback : BigCrypto.ofWork (files.foldl throughFile r).work = l.problem.contestwork := by
    rw [hwork, BigCrypto.ofWork_toWork]
  obtain ⟨p, htake, hloaded⟩ := exists_takeUp next hback h.consistent.valid h.consistent.not_dummy
    tslice q l.tested
  refine ⟨files.foldl throughFile r, p, ?_, hloaded, hprov.trans h.provenance⟩
  rw [Stage.run, if_pos h.working, hr, Option.bind_some, htake]

/-- A block that is put away comes back where it stood, or is begun again. -/
theorem going_handOn : ∃ l' s' earlier', (Stage.handOn files next tslice q).run l = some l' ∧
    (s' = s ∧ earlier' = earlier ∨ s' = 0) ∧ Going b s' earlier' l' := by
  obtain ⟨r, p, hrun, hloaded, -⟩ := exists_handOn h files next tslice q
  obtain ⟨s', earlier', hstart, hgoing⟩ := going_of_loaded h.key h.verdict h.iterations
    (h.keysdone ▸ h.left) (h.keysdone ▸ h.le) (h.keysdone ▸ h.unmatched) (h.keysdone ▸ h.tested)
    hloaded
  exact ⟨_, s', earlier', hrun, hstart, hgoing⟩

/-- To the client that put it away it comes back where it stood. -/
theorem going_handOn_own (hnext : next = l.worker) :
    ∃ l', (Stage.handOn files next tslice q).run l = some l' ∧ l'.worker = l.worker ∧
      Going b s earlier l' := by
  subst hnext
  -- it is told to expect its own provenance, so the work is not begun again
  obtain ⟨r, p, hrun, hloaded, hprov⟩ := exists_handOn h files l.worker tslice q
  rw [hprov, BigCrypto.resumed_self] at hloaded
  exact ⟨_, hrun, rfl, Or.inl ⟨_, atWork_of_loaded h.key h.verdict h.iterations
    (h.keysdone ▸ h.left) (h.keysdone ▸ h.le) (h.keysdone ▸ h.unmatched) (h.keysdone ▸ h.tested)
    hloaded⟩⟩

end HandOn

/-- A finished block is left as it is. -/
theorem going_finished {b : BigCrypto} {s : ℕ} {earlier : List Key72} {l : Life}
    (hend : l.problem.lastResultcode ≠ some .working) (h : SearchedFrom b s earlier l)
    (stage : Stage) :
    ∃ l', stage.run l = some l' ∧ l'.worker = l.worker ∧ Going b s earlier l' := by
  cases stage with
  | slice n =>
    -- a run sets the time slice first, and does nothing else
    obtain ⟨w, p, keys⟩ := l
    have hkeys : (runSlice w.core n p).1.tested = [] := if_neg fun hrun ↦ hend hrun.2
    refine ⟨⟨w, { p with tslice := n }, keys⟩, ?_, rfl, Or.inr ⟨hend, h⟩⟩
    rw [Stage.run]
    simp only [runSlice_finished hend, hkeys, List.append_nil]
  | handOn files next tslice q =>
    exact ⟨l, if_neg hend, rfl, Or.inr ⟨hend, h⟩⟩

section Stage

variable {a : Assignment} {s : ℕ} {earlier : List Key72} {l : Life}

theorem Going.run (h : Going a.block s earlier l) (stage : Stage) :
    ∃ l' s' earlier', stage.run l = some l' ∧ (s' = s ∧ earlier' = earlier ∨ s' = 0) ∧
      Going a.block s' earlier' l' := by
  rcases h with ⟨N, hwork⟩ | ⟨hend, hsearched⟩
  · cases stage with
    | slice n =>
      obtain ⟨l', hrun, -, hgoing⟩ := going_slice hwork n
      exact ⟨l', s, earlier, hrun, Or.inl ⟨rfl, rfl⟩, hgoing⟩
    | handOn files next tslice q => exact going_handOn hwork files next tslice q
  · obtain ⟨l', hrun, -, hgoing⟩ := going_finished hend hsearched stage
    exact ⟨l', s, earlier, hrun, Or.inl ⟨rfl, rfl⟩, hgoing⟩

/-- With one client the search is never begun again. -/
theorem Going.run_own (h : Going a.block s earlier l) {stage : Stage} (hown : stage.By l.worker) :
    ∃ l', stage.run l = some l' ∧ l'.worker = l.worker ∧ Going a.block s earlier l' := by
  rcases h with ⟨N, hwork⟩ | ⟨hend, hsearched⟩
  · cases stage with
    | slice n => exact going_slice hwork n
    | handOn files next tslice q => exact going_handOn_own hwork files next tslice q hown
  · exact going_finished hend hsearched stage

end Stage

/-! ## Whole lives -/

section Lives

variable (a : Assignment) (w : Worker) (tslice : U32) (q : FreeProblem)

/-- The packet is taken up where it stands, or begun again. -/
theorem going_takeUp : ∃ l s earlier, takeUp w a.record tslice q [] = some l ∧
    (s = a.block.keysdone.int ∧ earlier = [] ∨ s = 0) ∧ Going a.block s earlier l := by
  obtain ⟨p, htake, hloaded⟩ := exists_takeUp w (b := a.block) rfl a.valid a.not_dummy tslice q []
  have htested : ([] : List Key72) = [] ++ a.block.keysFrom a.block.keysdone.int
      (a.block.keysdone.int - a.block.keysdone.int) := by
    rw [Nat.sub_self]
    rfl
  obtain ⟨s, earlier, hstart, hgoing⟩ := going_of_loaded rfl rfl rfl a.begun le_rfl
    (fun _ hs hi ↦ absurd hi (Nat.not_lt.mpr hs)) htested hloaded
  exact ⟨_, s, earlier, htake, hstart, hgoing⟩

theorem exists_lifeOf (stages : List Stage) : ∃ l s earlier, lifeOf a w tslice q stages = some l ∧
    (s = a.block.keysdone.int ∧ earlier = [] ∨ s = 0) ∧ Going a.block s earlier l := by
  -- on the last stage, which acts on what the others have left
  induction stages using List.reverseRecOn with
  | nil => exact going_takeUp a w tslice q
  | append_singleton stages stage ih =>
    obtain ⟨l, s, earlier, hlife, hstart, hgoing⟩ := ih
    obtain ⟨l', s', earlier', hrun, hstart', hgoing'⟩ := hgoing.run stage
    refine ⟨l', s', earlier', ?_, ?_, hgoing'⟩
    · rw [lifeOf] at hlife ⊢
      rw [List.foldl_concat, hlife, Option.bind_some, hrun]
    · rcases hstart' with ⟨rfl, rfl⟩ | hzero
      · exact hstart
      · exact Or.inr hzero

theorem exists_lifeOf_own (hrecord : expectedProvenance w.id a.record = w.host.provenance w.sel ∨
      a.block.keysdone.int = 0) (stages : List Stage) (hown : ∀ stage ∈ stages, stage.By w) :
    ∃ l, lifeOf a w tslice q stages = some l ∧ l.worker = w ∧
      Going a.block a.block.keysdone.int [] l := by
  induction stages using List.reverseRecOn with
  | nil =>
    obtain ⟨p, htake, hloaded⟩ := exists_takeUp w (b := a.block) rfl a.valid a.not_dummy tslice q []
    rw [resumed_eq_self hrecord] at hloaded
    exact ⟨_, htake, rfl, Or.inl ⟨_, atWork_of_loaded rfl rfl rfl a.begun le_rfl
      (fun _ hs hi ↦ absurd hi (Nat.not_lt.mpr hs)) (by rw [Nat.sub_self]; rfl) hloaded⟩⟩
  | append_singleton stages stage ih =>
    obtain ⟨l, hlife, rfl, hgoing⟩ := ih fun stage hmem ↦ hown stage (List.mem_append_left _ hmem)
    obtain ⟨l', hrun, hworker, hgoing'⟩ :=
      hgoing.run_own (hown stage (List.mem_append_right _ (List.mem_singleton_self stage)))
    refine ⟨l', ?_, hworker, hgoing'⟩
    rw [lifeOf] at hlife ⊢
    rw [List.foldl_concat, hlife, Option.bind_some, hrun]

/-- **However a block is sliced, put away and taken up again, it is not lost, and no key of it is
left out**: without a match it is finished only when every key from where the search began has been
tested, and a match is the first one. -/
theorem block_searched (stages : List Stage) :
    ∃ l, lifeOf a w tslice q stages = some l ∧ Searched a.block l := by
  obtain ⟨l, s, earlier, hlife, hstart, hgoing⟩ := exists_lifeOf a w tslice q stages
  exact ⟨l, hlife, s, earlier, hstart, hgoing.searchedFrom⟩

/-- **With one client no key is tested twice**: a packet of its own, or one that is not begun, is
searched from where it stands to its end, however often it is put away. -/
theorem block_searched_once (hrecord : expectedProvenance w.id a.record = w.host.provenance w.sel ∨
      a.block.keysdone.int = 0) (stages : List Stage) (hown : ∀ stage ∈ stages, stage.By w) :
    ∃ l, lifeOf a w tslice q stages = some l ∧
      SearchedFrom a.block a.block.keysdone.int [] l ∧ l.tested.Nodup := by
  obtain ⟨l, hlife, -, hgoing⟩ := exists_lifeOf_own a w tslice q hrecord stages hown
  exact ⟨l, hlife, hgoing.searchedFrom, hgoing.searchedFrom.nodup⟩

end Lives

/-- The first packet of the self test. -/
def selftestAssignment : Assignment where
  record :=
    { work := selftestWork.toWork (0#32, 0#32)
      resultcode := RESULT_WORKING
      id := copyId []
      contest := RC5_72
      cpu := 0#32
      os := 0#32
      build := 0#32
      core := 0#32 }
  contest := rfl
  valid := by decide
  not_dummy := by decide
  begun := by decide
  small := by decide

def selftestWorker : Worker :=
  ⟨amd64Host, _, ready_amd64Host, [], rc572UnitFuncAnsiRef, faithful_ansiRef⟩

/-- The packet of the self test is put away, read through a file of either format, and run. -/
theorem block_searched_selftest : ∃ l,
    lifeOf selftestAssignment selftestWorker 48#32 ⟨problemAlloc, rfl⟩
        [.handOn [true, false] selftestWorker 48#32 ⟨problemAlloc, rfl⟩, .slice 48#32] = some l ∧
      Searched selftestAssignment.block l :=
  block_searched selftestAssignment selftestWorker 48#32 ⟨problemAlloc, rfl⟩ _

theorem block_searched_once_selftest : ∃ l,
    lifeOf selftestAssignment selftestWorker 48#32 ⟨problemAlloc, rfl⟩
        [.handOn [true, false] selftestWorker 48#32 ⟨problemAlloc, rfl⟩, .slice 48#32] = some l ∧
      SearchedFrom selftestAssignment.block selftestAssignment.block.keysdone.int [] l ∧
      l.tested.Nodup := by
  refine block_searched_once selftestAssignment selftestWorker 48#32 ⟨problemAlloc, rfl⟩
    (Or.inr (by decide)) _ ?_
  intro stage hmem
  rw [List.mem_cons, List.mem_singleton] at hmem
  rcases hmem with rfl | rfl
  · rfl
  · trivial
end Hyunjin
