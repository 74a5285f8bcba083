import Hyunjin.Buffer.FetchRound
import Mathlib.Data.Prod.Lex

/-!
# What a fetch does

`Fetches` is what a fetch is to do, whatever the buffers hold: it ends, the report on progress does
not divide by zero, and every round of the loop over the packets is safe. By `fetches_iff` it does
so if and only if every round that it comes to finds what it needs. The fetch gets on with every
step: either there is a contest less to see to, or the remote buffer holds a packet less, or, where
packets go back where they came from, the fetch is a round closer to giving up.
-/

namespace Hyunjin

open Word Stdio Slots

/-! ## What is promised -/

/-- The step from this state goes through a round of the loop over the packets. -/
def FetchState.InRound (e : Fetching) (s : FetchState) (l : FetchLoop) : Prop :=
  s.loop = some l ∧ l.lefttotransSu ≠ 0 ∧ (s.checkExitRequest e).1 = false

structure StepSafe (e : Fetching) (s : FetchState) : Prop where
  divides : (fetchStep e s).1 ≠ some .divisionByZero
  round : ∀ l, s.InRound e l → RoundSafe e s.contest l s.buffers

/-- The fetch ends, and does what it is to do on the way. -/
def Fetches (e : Fetching) (exits : List Bool) (w : Buffers) : Prop :=
  (∃ fuel, (bufferFetchFile e fuel exits w).isSome) ∧
    ∀ s, Rounds.Reaches (fetchStep e) (.start w exits) s → StepSafe e s

def StepAllowed (e : Fetching) (s : FetchState) : Prop :=
  ∀ l, s.InRound e l → RoundAllowed e s.contest l s.buffers

variable {e : Fetching}

/-! ## One step -/

/-- What holds of the fetch at the start of a step. -/
structure FetchInv (e : Fetching) (s : FetchState) : Prop where
  readable : AllReadable e s.buffers
  loop : ∀ l, s.loop = some l → s.contest < CONTEST_COUNT ∧
    e.remoteFilename s.contest = some l.remoteFile ∧ LoopInv e.client s.contest l s.buffers

section InRound

variable {s : FetchState} {l l' : FetchLoop} {round : FetchRound} {w' : Buffers}
  (hin : s.InRound e l) (hround : fetchRound e s.contest l s.buffers = (round, l', w'))

private theorem checkExitRequest_same (e : Fetching) (s : FetchState) :
    (s.checkExitRequest e).2.contest = s.contest ∧
      (s.checkExitRequest e).2.buffers = s.buffers := by
  rw [FetchState.checkExitRequest]
  split_ifs <;> exact ⟨rfl, rfl⟩

include hin hround

/-- A round that ends the loop over the packets. -/
private theorem step_break (hbreak : round ≠ .satisfied ∧ ∀ data, round ≠ .retrieved data) : ∃ t,
    fetchStep e s = (none, t) ∧ t.loop = none ∧ t.contest = s.contest + 1#32 ∧ t.buffers = w' := by
  obtain ⟨hloop, hleft, hexit⟩ := hin
  obtain ⟨hcontest, hbuffers⟩ := checkExitRequest_same e s
  have hstep : fetchStep e s = fetchPacket e l s := by rw [fetchStep, hloop]
  rcases hcheck : s.checkExitRequest e with ⟨exit, s₁⟩
  rw [hcheck] at hexit hcontest hbuffers
  dsimp only at hexit hcontest hbuffers
  simp only [hstep, fetchPacket, if_neg hleft, hcheck, hexit, Bool.false_eq_true, if_false,
    hcontest, hbuffers, hround]
  rcases round with _ | _ | _ | _ | _ | _ | data
  · exact absurd rfl hbreak.1
  all_goals first
    | exact absurd rfl (hbreak.2 data)
    | exact ⟨_, rfl, rfl, rfl, rfl⟩

/-- A round that goes on to report progress. -/
private theorem step_stay (hstay : round = .satisfied ∨ ∃ data, round = .retrieved data) : ∃ t,
    fetchStep e s =
      (if l'.projtransPkts ≠ 0 ∧ l'.totrans = 0 then some .divisionByZero else none, t) ∧
      (¬(l'.projtransPkts ≠ 0 ∧ l'.totrans = 0) →
        t.loop = some l' ∧ t.contest = s.contest ∧ t.buffers = w') := by
  obtain ⟨hloop, hleft, hexit⟩ := hin
  obtain ⟨hcontest, hbuffers⟩ := checkExitRequest_same e s
  have hstep : fetchStep e s = fetchPacket e l s := by rw [fetchStep, hloop]
  rcases hcheck : s.checkExitRequest e with ⟨exit, s₁⟩
  rw [hcheck] at hexit hcontest hbuffers
  dsimp only at hexit hcontest hbuffers
  simp only [hstep, fetchPacket, if_neg hleft, hcheck, hexit, Bool.false_eq_true, if_false,
    hcontest, hbuffers, hround]
  rcases hstay with rfl | ⟨data, rfl⟩ <;> dsimp only <;> split_ifs with hcrash
  · exact ⟨_, rfl, fun h ↦ absurd hcrash h⟩
  · exact ⟨_, rfl, fun _ ↦ ⟨rfl, rfl, rfl⟩⟩
  · exact ⟨_, rfl, fun h ↦ absurd hcrash h⟩
  · exact ⟨_, rfl, fun _ ↦ ⟨rfl, rfl, rfl⟩⟩

end InRound

/-- A step that does not go through a round does not divide. -/
private theorem step_outside {s : FetchState} (hout : ∀ l, ¬s.InRound e l) :
    (∃ transferred t, fetchStep e s = (some (.return transferred), t)) ∨
    (∃ t, fetchStep e s = (none, t) ∧ t.buffers = s.buffers ∧
      ((t.loop = none ∧ t.contest = s.contest + 1#32 ∧
        (s.loop = none → s.contest < CONTEST_COUNT)) ∨
      (s.loop = none ∧ s.contest < CONTEST_COUNT ∧ t.contest = s.contest ∧
        ∃ remoteFile, e.remoteFilename s.contest = some remoteFile ∧
          t.loop = some (.start remoteFile)))) := by
  obtain ⟨hcontest, hbuffers⟩ := checkExitRequest_same e s
  rcases hloop : s.loop with _ | l
  · rw [show fetchStep e s = fetchContest e s by rw [fetchStep, hloop], fetchContest]
    by_cases hend : s.failed = true ∨ ¬s.contest < CONTEST_COUNT
    · rw [if_pos hend]
      exact Or.inl ⟨_, _, rfl⟩
    · obtain ⟨-, hlt⟩ := not_or.mp hend
      rw [not_not] at hlt
      rw [if_neg hend]
      rcases hcheck : s.checkExitRequest e with ⟨exit, s₁⟩
      rw [hcheck] at hcontest hbuffers
      dsimp only at hcontest hbuffers ⊢
      split_ifs
      · exact Or.inr ⟨_, rfl, rfl, Or.inl ⟨rfl, rfl, fun _ ↦ hlt⟩⟩
      · exact Or.inl ⟨_, _, rfl⟩
      · exact Or.inr ⟨_, rfl, hbuffers, Or.inl ⟨rfl, congrArg (· + 1#32) hcontest, fun _ ↦ hlt⟩⟩
      · rw [hcontest]
        rcases hremote : e.remoteFilename s.contest with _ | remoteFile
        · exact Or.inr ⟨_, rfl, hbuffers,
            Or.inl ⟨rfl, congrArg (· + 1#32) hcontest, fun _ ↦ hlt⟩⟩
        · exact Or.inr ⟨_, rfl, hbuffers, Or.inr ⟨rfl, hlt, rfl, remoteFile, rfl, rfl⟩⟩
  · right
    rw [show fetchStep e s = fetchPacket e l s by rw [fetchStep, hloop], fetchPacket]
    by_cases hleft : l.lefttotransSu = 0
    · rw [if_pos hleft]
      exact ⟨_, rfl, rfl, Or.inl ⟨rfl, rfl, fun h ↦ nomatch h⟩⟩
    · rw [if_neg hleft]
      have hexit : (s.checkExitRequest e).1 = true :=
        Bool.eq_true_of_not_eq_false fun h ↦ hout l ⟨hloop, hleft, h⟩
      rcases hcheck : s.checkExitRequest e with ⟨exit, s₁⟩
      rw [hcheck] at hcontest hbuffers hexit
      dsimp only at hcontest hbuffers hexit ⊢
      rw [if_pos hexit]
      exact ⟨_, rfl, hbuffers, Or.inl ⟨rfl, congrArg (· + 1#32) hcontest, fun h ↦ nomatch h⟩⟩

/-- How a fetch goes on: with the next contest, with the packets of this one, or with the next
round, for which nothing or less is left to do. -/
inductive Goes (e : Fetching) (s : FetchState) : FetchState → Prop
  | next {t : FetchState} (hw : AllReadable e t.buffers) (hloop : t.loop = none)
    (hcontest : t.contest = s.contest + 1#32) (hlt : s.contest < CONTEST_COUNT) : Goes e s t
  | enter {t : FetchState} {remoteFile : Filename} (hw : AllReadable e t.buffers)
    (hnone : s.loop = none) (hloop : t.loop = some (.start remoteFile))
    (hcontest : t.contest = s.contest) (hlt : s.contest < CONTEST_COUNT)
    (hremote : e.remoteFilename s.contest = some remoteFile) : Goes e s t
  | stay {t : FetchState} {l l' : FetchLoop} (hw : AllReadable e t.buffers)
    (hsome : s.loop = some l) (hleft : l.lefttotransSu ≠ 0) (hloop : t.loop = some l')
    (hcontest : t.contest = s.contest) (hlt : s.contest < CONTEST_COUNT)
    (hremote : e.remoteFilename s.contest = some l.remoteFile)
    (hfile : l'.remoteFile = l.remoteFile) (hinv : LoopInv e.client s.contest l' t.buffers)
    (hless : l'.lefttotransSu = 0 ∨
      (if Apart e.client l.remoteFile then
        (remotePackets l' t.buffers).length < (remotePackets l s.buffers).length
      else l.projtransPkts < 4 ∧ l'.projtransPkts = l.projtransPkts + 1)) : Goes e s t

theorem Goes.inv {s t : FetchState} (h : Goes e s t) : FetchInv e t := by
  cases h with
  | next hw hloop hcontest hlt =>
    refine ⟨hw, fun l hl ↦ ?_⟩
    rw [hloop] at hl
    exact nomatch hl
  | enter hw hnone hloop hcontest hlt hremote =>
    refine ⟨hw, fun l hl ↦ ?_⟩
    rw [hloop] at hl
    obtain rfl := Option.some.inj hl
    rw [hcontest]
    exact ⟨hlt, hremote, fun _ ↦ ⟨rfl, rfl⟩, fun h ↦ absurd rfl h, fun h ↦ absurd rfl h,
      fun h ↦ absurd rfl h⟩
  | stay hw hsome hleft hloop hcontest hlt hremote hfile hinv hless =>
    refine ⟨hw, fun l hl ↦ ?_⟩
    rw [hloop] at hl
    obtain rfl := Option.some.inj hl
    rw [hcontest, hfile]
    exact ⟨hlt, hremote, hinv⟩

/-- What is left of a fetch: contests, and rounds of the loop over the packets. Where that puts back
what it takes, it gives up after the fifth. -/
def FetchState.rank (e : Fetching) (s : FetchState) : ℕ ×ₗ ℕ :=
  toLex (2 * (CONTEST_COUNT.toNat - s.contest.toNat) + (if s.loop = none then 1 else 0),
    match s.loop with
    | none => 0
    | some l =>
      if l.lefttotransSu = 0 then 0
      else if Apart e.client l.remoteFile then (remotePackets l s.buffers).length + 1
      else 5 - l.projtransPkts + 1)

/-- The fetch gets on with every step. -/
theorem Goes.rank_lt {s t : FetchState} (h : Goes e s t) : t.rank e < s.rank e := by
  have hseven : CONTEST_COUNT.toNat = 7 := rfl
  rw [FetchState.rank, FetchState.rank, Prod.Lex.toLex_lt_toLex]
  cases h with
  | next hw hloop hcontest hlt =>
    left
    have hlt' : s.contest.toNat < 7 := hlt
    have hsucc : (s.contest + 1#32).toNat = s.contest.toNat + 1 := by
      rw [BitVec.toNat_add]
      exact Nat.mod_eq_of_lt (by have : (1#32).toNat = 1 := rfl; omega)
    rw [hloop, hcontest, hsucc, hseven, if_pos rfl]
    split_ifs <;> omega
  | enter hw hnone hloop hcontest hlt hremote =>
    left
    rw [hloop, hcontest, hnone, if_pos rfl, if_neg (Option.some_ne_none _)]
    exact Nat.lt_succ_self _
  | @stay l l' hw hsome hleft hloop hcontest hlt hremote hfile hinv hless =>
    right
    rw [hloop, hcontest, hsome, if_neg (Option.some_ne_none _), if_neg (Option.some_ne_none _)]
    refine ⟨rfl, ?_⟩
    dsimp only
    rw [if_neg hleft, hfile]
    by_cases hapart : Apart e.client l.remoteFile
    · simp only [if_pos hapart] at hless ⊢
      split_ifs <;> omega
    · simp only [if_neg hapart] at hless ⊢
      split_ifs <;> omega

section Step

variable {s : FetchState} (hs : FetchInv e s)

include hs

/-- **A step is safe** if and only if the round it goes through, if any, finds what it needs. -/
private theorem stepSafe_iff : StepSafe e s ↔ StepAllowed e s := by
  by_cases hin : ∃ l, s.InRound e l
  · obtain ⟨l, hin⟩ := hin
    obtain ⟨-, hremote, hinv⟩ := hs.loop l hin.1
    have honly {l' : FetchLoop} (h : s.InRound e l') : l' = l :=
      Option.some.inj (h.1.symm.trans hin.1)
    have hallowed : StepAllowed e s ↔ RoundAllowed e s.contest l s.buffers :=
      ⟨fun h ↦ h l hin, fun h l' hin' ↦ honly hin' ▸ h⟩
    have hdivides : (fetchStep e s).1 ≠ some .divisionByZero ↔
        Reports (fetchRound e s.contest l s.buffers) := by
      rcases hround : fetchRound e s.contest l s.buffers with ⟨round, l', w'⟩
      by_cases hstay : round = .satisfied ∨ ∃ data, round = .retrieved data
      · obtain ⟨t, ht, -⟩ := step_stay hin hround hstay
        rw [ht, Reports, forall_prop_of_true hstay]
        dsimp only
        split_ifs with hcrash
        · exact iff_of_false (fun h ↦ h rfl) (fun h ↦ h hcrash)
        · exact iff_of_true (fun h ↦ by cases h) hcrash
      · obtain ⟨hsatisfied, hretrieved⟩ := not_or.mp hstay
        obtain ⟨t, ht, -⟩ := step_break hin hround ⟨hsatisfied, not_exists.mp hretrieved⟩
        rw [ht]
        exact iff_of_true (fun h ↦ by cases h)
          (reports_break ⟨hsatisfied, not_exists.mp hretrieved⟩)
    rw [hallowed, ← round_iff hs.readable hremote hinv, ← hdivides]
    exact ⟨fun h ↦ ⟨h.divides, h.round l hin⟩, fun h ↦ ⟨h.1, fun l' hin' ↦ honly hin' ▸ h.2⟩⟩
  · rw [not_exists] at hin
    refine iff_of_true ⟨fun h ↦ ?_, fun l hl ↦ absurd hl (hin l)⟩ fun l hl ↦ absurd hl (hin l)
    rcases step_outside hin with ⟨transferred, t, ht⟩ | ⟨t, ht, -⟩
    · rw [ht] at h
      cases h
    · rw [ht] at h
      cases h

/-- **How a step goes on** if it goes through no round, or through one that finds what it needs. -/
private theorem goes_of_allowed (hallowed : StepAllowed e s) (hgoes : (fetchStep e s).1 = none) :
    Goes e s (fetchStep e s).2 := by
  by_cases hin : ∃ l, s.InRound e l
  · obtain ⟨l, hin⟩ := hin
    obtain ⟨hlt, hremote, hinv⟩ := hs.loop l hin.1
    have hnext := round_goes hs.readable hremote hinv (hallowed l hin)
    rcases hround : fetchRound e s.contest l s.buffers with ⟨round, l', w'⟩
    simp only [hround] at hnext
    obtain ⟨hw, hbreak | ⟨hstay, hfile, hinv', hless⟩⟩ := hnext
    · obtain ⟨t, ht, hloop, hcontest, hbuffers⟩ := step_break hin hround hbreak
      rw [ht]
      exact .next (hbuffers ▸ hw) hloop hcontest hlt
    · obtain ⟨t, ht, hstays⟩ := step_stay hin hround hstay
      rw [ht] at hgoes ⊢
      have hcrash : ¬(l'.projtransPkts ≠ 0 ∧ l'.totrans = 0) := by
        intro hcrash
        dsimp only at hgoes
        rw [if_pos hcrash] at hgoes
        exact nomatch hgoes
      obtain ⟨hloop, hcontest, hbuffers⟩ := hstays hcrash
      refine .stay (hbuffers ▸ hw) hin.1 hin.2.1 hloop hcontest hlt hremote hfile ?_ ?_
      · rw [hbuffers]
        exact hinv'
      · rw [hbuffers]
        exact hless
  · rw [not_exists] at hin
    rcases step_outside hin with ⟨transferred, t, ht⟩ |
      ⟨t, ht, hbuffers, ⟨hloop, hcontest, hlt⟩ | ⟨hnone, hlt, hcontest, remoteFile, hremote, hloop⟩⟩
    · rw [ht] at hgoes
      exact nomatch hgoes
    · rw [ht]
      refine .next (hbuffers ▸ hs.readable) hloop hcontest ?_
      rcases hsome : s.loop with _ | l
      · exact hlt hsome
      · exact (hs.loop l hsome).1
    · rw [ht]
      exact .enter (hbuffers ▸ hs.readable) hnone hloop hcontest hlt hremote

end Step

/-! ## The fetch -/

private theorem fetchInv_start {w : Buffers} (hw : AllReadable e w) (exits : List Bool) :
    FetchInv e (.start w exits) := ⟨hw, fun _ h ↦ nomatch h⟩

/-- **When a fetch does what it is to do.** Every round that it comes to finds what it needs. -/
theorem fetches_iff (e : Fetching) (exits : List Bool) (w : Buffers) (hw : AllReadable e w) :
    Fetches e exits w ↔
      ∀ s, Rounds.Reaches (fetchStep e) (.start w exits) s → StepAllowed e s := by
  have hkeep : ∀ s, FetchInv e s → StepAllowed e s → (fetchStep e s).1 = none →
      FetchInv e (fetchStep e s).2 :=
    fun s hs hallowed hgoes ↦ (goes_of_allowed hs hallowed hgoes).inv
  have hsafe := Rounds.forall_reaches_iff (fun s hs ↦ stepSafe_iff hs) hkeep
    (fetchInv_start hw exits)
  rw [Fetches, hsafe, and_iff_right_iff_imp]
  exact Rounds.exists_iterate (FetchState.rank e) hkeep
    (fun s hs hallowed hgoes ↦ (goes_of_allowed hs hallowed hgoes).rank_lt)
    (fetchInv_start hw exits)

/-- A client that fetches RC5-72 from a remote buffer. -/
def remoteFetching : Fetching where
  client := defaultClient
  breakPending := false
  unsupported := fun contest ↦ contest ≠ RC5_72
  loaderflagsMap := fun _ ↦ false
  remoteFilename := fun _ ↦ some "remote.r72".toList
  clientGetInThreshold := fun _ ↦ 2400#32
  getThresholdLimit := fun _ ↦ 1000#32
  problemCountLoaded := fun _ ↦ 1
  numcpu := 1
  getNumberOfDetectedProcessors := 1

/-- The remote buffer holds a single packet, and there is no other file. -/
def remoteBuffers (data : WorkRecord) : Buffers :=
  ⟨Function.update (fun _ ↦ none) "remote.r72".toList (some (singlePacketFile data)), false,
    fun _ _ ↦ ⟨[], 0⟩⟩

private theorem allReadable_remoteBuffers (data : WorkRecord) :
    AllReadable remoteFetching (remoteBuffers data) := by
  have hread (filename : Filename) : Readable ((remoteBuffers data).files filename) := by
    by_cases hname : filename = "remote.r72".toList
    · have hfile : (remoteBuffers data).files filename = some (MooFile.single data).bytes := by
        simp only [remoteBuffers, hname, Function.update_self, MooFile.bytes_single]
      rw [hfile]
      exact ⟨true, _, .moo (.single data)⟩
    · have hfile : (remoteBuffers data).files filename = none := by
        simp only [remoteBuffers, Function.update_of_ne hname]
      rw [hfile]
      exact ⟨false, _, fileHolds_nil rfl⟩
  exact ⟨fun contest _ ↦ hread _, fun contest remoteFile _ ↦ hread remoteFile⟩

/-- A packet so large that a hundred times its size is 4 when 32 bits are left of it. -/
def oversizedRecord : WorkRecord :=
  { emptyRecord with
    work := ⟨List.replicate 11 0#32 ++ 0x28F5C29#32 :: List.replicate 8 0#32, rfl⟩ }

/-- The packet is the last one, so nothing more is wanted, and what has been retrieved is less than
a stats unit. -/
private theorem not_stepSafe_oversized : ∃ s,
    Rounds.Reaches (fetchStep remoteFetching) (.start (remoteBuffers oversizedRecord) []) s ∧
      ¬StepSafe remoteFetching s := by
  have hcrash : (bufferFetchFile remoteFetching 9 [] (remoteBuffers oversizedRecord)).map Prod.fst
      = some .divisionByZero := by decide +kernel
  obtain ⟨⟨_, t⟩, hend, rfl⟩ := Option.map_eq_some_iff.mp hcrash
  obtain ⟨s, hs, hstep⟩ := Rounds.exists_reaches_of_iterate hend
  exact ⟨s, hs, fun hsafe ↦ hsafe.divides (congrArg Prod.fst hstep)⟩

/-- The fetch of an oversized packet comes to a round that does not meet the condition. -/
theorem fetches_iff_oversized :
    ¬∀ s, Rounds.Reaches (fetchStep remoteFetching) (.start (remoteBuffers oversizedRecord) []) s →
      StepAllowed remoteFetching s := by
  refine (fetches_iff _ _ _ (allReadable_remoteBuffers oversizedRecord)).not.mp ?_
  obtain ⟨s, hs, hcrash⟩ := not_stepSafe_oversized
  exact fun hfetches ↦ hcrash (hfetches.2 s hs)

/-- **A fetch divides by zero.** -/
theorem not_fetches_oversized : AllReadable remoteFetching (remoteBuffers oversizedRecord) ∧
    ¬Fetches remoteFetching [] (remoteBuffers oversizedRecord) := by
  obtain ⟨s, hs, hcrash⟩ := not_stepSafe_oversized
  exact ⟨allReadable_remoteBuffers oversizedRecord, fun hfetches ↦ hcrash (hfetches.2 s hs)⟩

end Hyunjin
