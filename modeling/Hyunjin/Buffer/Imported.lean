import Hyunjin.Buffer.Stored

/-!
# When an import loses records

`BufferImportFileRecords` takes a record out of the source before it puts it into the buffer it
belongs to. A record that cannot be put goes back into the source, and the import ends without
truncating it. But an import that ends because nothing could be read truncates the source whenever
something has been recovered before, whether or not there is more in it; and one that finds the
source not getting smaller drops the record in hand.

If the source is itself the buffer, its records go round: with a single record the import never
ends unless a call fails, with more it drops the second one it takes. And a put that reports success
may have spoiled the buffer. `keepsImport_iff` says when none of this happens.
-/

namespace Hyunjin

open Word Stdio Slots

variable {client : Client} {source : Filename}

/-! ## What an import accounts for -/

/-- What has been saved in memory or in a file other than the source. -/
def Importing.elsewhere (client : Client) (source : Filename) (s : Importing) :
    Multiset WorkRecord :=
  (s.saved.filter fun r ↦ client.nodiskbuffers = true ∨ client.bufferOf r ≠ source :
    List WorkRecord)

/-- What has been saved elsewhere and what the source still holds. -/
def Importing.accounted (client : Client) (source : Filename) (s : Importing) :
    Multiset WorkRecord :=
  s.elsewhere client source + recordsIn ((s.buffers.files source).getD [])

/-- No record of the source is lost. The buffers have gained what is reported to have been saved,
every record that was in the source has been saved elsewhere or is still there, and the source is
without contents only if all of them have been saved. -/
structure NoneLost (client : Client) (source : Filename) (w : Buffers) (s : Importing) : Prop where
  gained : Gained client source s.saved w s.buffers
  kept : recordsIn ((w.files source).getD []) ≤ s.accounted client source
  truncated : (s.buffers.files source).getD [] = [] →
    recordsIn ((w.files source).getD []) ≤ s.elsewhere client source

/-- An import ends, and no record is lost. -/
def KeepsImport (client : Client) (source : Filename) (w : Buffers) (faults : List Bool) : Prop :=
  ∃ fuel rc s', bufferImportFileRecords client source fuel ⟨w, faults, []⟩ = some (rc, s') ∧
    NoneLost client source w s'

theorem recordsIn_nil : recordsIn [] = 0 := rfl

/-- The loop of an import ends and accounts for all that was accounted for. -/
def LoopKeeps (client : Client) (source : Filename) (last : ℕ) (s : Importing) : Prop :=
  ∃ fuel errs s', importLoop client source fuel last s = some (errs, s') ∧
    s.accounted client source ≤ (s'.finish source errs).accounted client source

/-- However the loop of an import ends, the buffers have gained what is reported. -/
def LoopGains (client : Client) (source : Filename) (s : Importing) : Prop :=
  ∀ fuel res, importLoop client source fuel 0 s = some res →
    Gained client source res.2.saved s.buffers (res.2.finish source res.1).buffers

theorem elsewhere_congr {s s' : Importing} (h : s.saved = s'.saved) :
    s.elsewhere client source = s'.elsewhere client source := by
  rw [Importing.elsewhere, Importing.elsewhere, h]

/-- Records of the import go into one buffer. -/
theorem elsewhere_eq {s : Importing} (h : ∀ r ∈ s.saved, FromMoo r) :
    s.elsewhere client source =
      if Apart client source then (s.saved : Multiset WorkRecord) else 0 := by
  have hbuffer {r : WorkRecord} (hr : r ∈ s.saved) :
      (client.nodiskbuffers = true ∨ client.bufferOf r ≠ source) ↔ Apart client source := by
    rw [bufferOf_eq ⟨(h r hr).contest, (h r hr).state⟩]
    exact or_congr_right ne_comm
  rw [Importing.elsewhere]
  split_ifs with hapart
  · rw [List.filter_eq_self.mpr fun r hr ↦ decide_eq_true ((hbuffer hr).mpr hapart)]
  · rw [List.filter_eq_nil_iff.mpr fun r hr h ↦ hapart ((hbuffer hr).mp (of_decide_eq_true h))]
    rfl

theorem LoopKeeps.ends {last : ℕ} {s : Importing} (h : LoopKeeps client source last s) :
    ∃ fuel res, importLoop client source fuel last s = some res :=
  let ⟨fuel, _, _, hloop, _⟩ := h
  ⟨fuel, _, hloop⟩

theorem keepsImport_iff_loop {w : Buffers} {faults : List Bool} {bs : List U8}
    (hbs : w.files source = some bs) : KeepsImport client source w faults ↔
      LoopKeeps client source 0 ⟨w, faults, []⟩ ∧ LoopGains client source ⟨w, faults, []⟩ := by
  have hbefore : (⟨w, faults, []⟩ : Importing).accounted client source
      = recordsIn ((w.files source).getD []) := zero_add _
  rw [KeepsImport, LoopKeeps, hbefore]
  constructor
  · rintro ⟨fuel, rc, s', himport, hnone⟩
    rw [bufferImportFileRecords, hbs] at himport
    obtain ⟨⟨errs, s₁⟩, hloop, heq⟩ := Option.map_eq_some_iff.mp himport
    obtain ⟨-, rfl⟩ := Prod.mk.inj heq
    refine ⟨⟨fuel, errs, s₁, hloop, hnone.kept⟩, fun fuel' res hloop' ↦ ?_⟩
    obtain rfl := importLoop_unique hloop hloop'
    rw [← saved_finish s₁ errs]
    exact hnone.gained
  · rintro ⟨⟨fuel, errs, s₁, hloop, hkept⟩, hgains⟩
    refine ⟨fuel, s₁.recovered.toNat, s₁.finish source errs, ?_, ?_, hkept, fun hempty ↦ ?_⟩
    · rw [bufferImportFileRecords, hbs]
      simp only [hloop, Option.map_some]
    · rw [saved_finish s₁ errs]
      exact hgains fuel _ hloop
    · rwa [Importing.accounted, hempty, recordsIn_nil, add_zero] at hkept

/-- A round that stops decides the import. -/
theorem loopKeeps_of_stop {last : ℕ} {s s₁ : Importing} {errs : Bool}
    (h : importRound client source last s = (.stop errs, s₁)) : LoopKeeps client source last s ↔
      s.accounted client source ≤ (s₁.finish source errs).accounted client source := by
  constructor
  · rintro ⟨fuel, errs', s', hloop, hkept⟩
    rcases fuel with _ | fuel
    · exact nomatch hloop
    · rw [importLoop, h] at hloop
      obtain ⟨rfl, rfl⟩ := Prod.mk.inj (Option.some.inj hloop)
      exact hkept
  · intro hkept
    refine ⟨1, errs, s₁, ?_, hkept⟩
    rw [importLoop, h]

/-- A round that goes on and accounts for everything leaves it to the others. -/
theorem loopKeeps_of_next {last remaining : ℕ} {s s₁ : Importing}
    (h : importRound client source last s = (.next remaining, s₁))
    (haccounted : s₁.accounted client source = s.accounted client source) :
    LoopKeeps client source last s ↔ LoopKeeps client source remaining s₁ := by
  rw [LoopKeeps, LoopKeeps, haccounted]
  constructor
  · rintro ⟨fuel, errs, s', hloop, hkept⟩
    rcases fuel with _ | fuel
    · exact nomatch hloop
    · rw [importLoop, h] at hloop
      exact ⟨fuel, errs, s', hloop, hkept⟩
  · rintro ⟨fuel, errs, s', hloop, hkept⟩
    refine ⟨fuel + 1, errs, s', ?_, hkept⟩
    rw [importLoop, h]
    exact hloop

/-! ## One round of an import -/

section Round

variable {last : ℕ} {s : Importing} {bs : List U8}

private theorem fails_eq (s : Importing) : s.fails = s.faults.getD 0 false := by
  rw [Importing.fails]
  cases s.faults <;> rfl

/-- The counter is an unsigned int. -/
private theorem recovered_pos_iff (s : Importing) :
    0#32 < s.recovered ↔ ¬2 ^ 32 ∣ s.saved.length := by
  rw [BitVec.lt_def, Importing.recovered, BitVec.toNat_ofNat, BitVec.toNat_ofNat]
  omega

/-- **A round that stops** keeps what the source held if it is still there, which it is not after
an import that ends without an error once something has been recovered. -/
private theorem loopKeeps_stop_iff {s₁ : Importing} {errs : Bool} {bs₁ : List U8}
    (h : importRound client source last s = (.stop errs, s₁))
    (hbs : s.buffers.files source = some bs) (hbs₁ : s₁.buffers.files source = some bs₁)
    (hsaved : s₁.saved = s.saved) : LoopKeeps client source last s ↔
      recordsIn bs ≤ recordsIn (if 0#32 < s.recovered ∧ errs = false then [] else bs₁) := by
  have helsewhere : (s₁.finish source errs).elsewhere client source
      = s.elsewhere client source := 
      elsewhere_congr ((saved_finish s₁ errs).trans hsaved)
  have hfile : ((s₁.finish source errs).buffers.files source).getD []
      = if 0#32 < s.recovered ∧ errs = false then [] else bs₁ := by
    rw [Importing.finish, Importing.recovered, hsaved, ← Importing.recovered]
    split_ifs
    · exact zap_file s₁
    · rw [hbs₁]
      rfl
  rw [loopKeeps_of_stop h, Importing.accounted, Importing.accounted, helsewhere, hfile, hbs]
  exact Multiset.add_le_add_iff_left

/-- A get that fails ends the import; the source is truncated if anything has been recovered. -/
private theorem loopKeeps_of_fails (hbs : s.buffers.files source = some bs)
    (hfails : s.fails = true) :
    LoopKeeps client source last s ↔ 2 ^ 32 ∣ s.saved.length ∨ recordsIn bs = 0 := by
  have hget : s.get source = (⟨-1, none, some 0⟩, s.tick) := by
    rw [Importing.get, hfails]
    rfl
  have hround : importRound client source last s = (.stop false, s.tick) := by
    rw [importRound_of_failed (by rw [hget]; simp), hget]
  rw [loopKeeps_stop_iff hround hbs hbs rfl]
  by_cases hnothing : 2 ^ 32 ∣ s.saved.length
  · rw [if_neg fun h ↦ (recovered_pos_iff s).mp h.1 hnothing]
    exact iff_of_true le_rfl (Or.inl hnothing)
  · rw [if_pos ⟨(recovered_pos_iff s).mpr hnothing, rfl⟩, recordsIn_nil, Multiset.le_zero,
      or_iff_right hnothing]

/-- A get that finds no record counted ends the import; records beyond the count are lost then. -/
private theorem loopKeeps_of_none (hbs : s.buffers.files source = some bs)
    (hmoo : isMooFile bs = true) (hfails : s.fails = false)
    (hcounted : (countedRecords bs).length = 0) :
    LoopKeeps client source last s ↔ CountCovers bs := by
  rcases importingGet hbs hmoo hfails with ⟨-, hrc, bs₁, hbs₁, hcases⟩ |
    ⟨pkt, bs', hmore, -⟩
  · obtain ⟨extra, hsplit, hcovers⟩ := recordsIn_moo hmoo
    rw [List.length_eq_zero_iff.mp hcounted, Multiset.coe_nil, zero_add] at hsplit
    rw [loopKeeps_stop_iff (importRound_of_failed hrc) hbs hbs₁ (saved_get s), ← hcovers, hsplit]
    rcases hcases with rfl | ⟨rfl, hcovered⟩
    · rw [ite_self, recordsIn_nil, Multiset.le_zero]
    · obtain rfl : extra = 0 := hcovers.mpr hcovered
      exact iff_of_true (Multiset.zero_le _) rfl
  · rw [hmore.counted] at hcounted
    exact nomatch hcounted

section Got

variable {pkt : Packet} {bs' : List U8} {remaining : ℕ}

/-- The state after a record has been taken. -/
private def taken (source : Filename) (s : Importing) (bs' : List U8) : Importing :=
  s.tick.close source (healthy (some bs') true)

/-- The state after a record has been put and has been reported to be saved. -/
private def saving (put : ℤ × Importing) (data : WorkRecord) : Importing :=
  { put.2 with saved := put.2.saved ++ [data] }

/-- A record that is put leaves it to the next round. -/
private theorem importRound_of_put
    (hget : s.get source = (⟨0, some (mooUnpackRecord pkt), some remaining⟩, taken source s bs'))
    (hlast : ¬(last ≠ 0 ∧ last ≤ remaining)) {put : ℤ × Importing}
    (hput : (taken source s bs').put client (mooUnpackRecord pkt) = put) (hdone : 0 < put.1) :
    importRound client source last s
      = (.next remaining, saving put (mooUnpackRecord pkt)) := by
  rw [importRound_of_get hget, if_neg hlast, hput, if_pos hdone]
  rfl

variable (hbs : s.buffers.files source = some bs) (hmore : OneMore (mooUnpackRecord pkt) bs' bs)
  (hget : s.get source = (⟨0, some (mooUnpackRecord pkt), some remaining⟩, taken source s bs'))

include hbs hmore hget

/-- A source that is not getting smaller loses the record in hand. -/
private theorem not_loopKeeps_of_stuck (hlast : last ≠ 0 ∧ last ≤ remaining) :
    ¬LoopKeeps client source last s := by
  have hround : importRound client source last s = (.stop true, taken source s bs') := by
    rw [importRound_of_get hget, if_pos hlast]
  rw [loopKeeps_stop_iff hround hbs (Buffers.files_close_self ..) rfl, hmore.records,
    if_neg fun h ↦ Bool.noConfusion h.2]
  exact (Multiset.lt_cons_self ..).not_ge

/-- A record that cannot be put is kept exactly if it can be put back. -/
private theorem loopKeeps_of_refused (hlast : ¬(last ≠ 0 ∧ last ≤ remaining))
    (hblank : HasBlank bs') {put : ℤ × Importing}
    (hput : (taken source s bs').put client (mooUnpackRecord pkt) = put) (hrefused : ¬0 < put.1)
    (hfile : put.2.buffers.files source = some bs') (hsaved : put.2.saved = s.saved) :
    LoopKeeps client source last s ↔ put.2.fails = false := by
  have hround : importRound client source last s
      = (.stop true, put.2.resave source (mooUnpackRecord pkt)) := by
    rw [importRound_of_get hget, if_neg hlast, hput, if_neg hrefused]
  have hstate : put.2.buffers.atFile source = healthy (some bs') put.2.buffers.mooOutputMode := by
    rw [Buffers.atFile, hfile]
    rfl
  rcases hfails : put.2.fails with _ | _
  · obtain ⟨bs'', hback, hresave⟩ :=
      put_hasBlank hmore.moo hblank pkt put.2.buffers.mooOutputMode false BUFFER_FLAGS_NONE
    have hresaved : put.2.resave source (mooUnpackRecord pkt)
        = put.2.tick.close source (healthy (some bs'') true) := by
      rw [Importing.resave, hfails, hstate, hresave]
      rfl
    rw [hresaved] at hround
    rw [loopKeeps_stop_iff hround hbs (Buffers.files_close_self ..) hsaved,
      if_neg fun h ↦ Bool.noConfusion h.2]
    refine iff_of_true ?_ rfl
    rw [hback.records, hmore.records]
  · have hresaved : put.2.resave source (mooUnpackRecord pkt) = put.2.tick := by
      rw [Importing.resave, hfails]
      rfl
    rw [hresaved] at hround
    rw [loopKeeps_stop_iff hround hbs hfile hsaved, if_neg fun h ↦ Bool.noConfusion h.2,
      hmore.records]
    exact iff_of_false (Multiset.lt_cons_self ..).not_ge fun h ↦ Bool.noConfusion h

end Got

end Round

/-! ## The rounds of an import -/

/-- The next `n` rounds of an import save a record each. -/
def Saves (client : Client) (w : Buffers) (faults : List Bool) (n : ℕ) : Prop :=
  ∀ i < n, faults.getD (2 * i) false = false ∧ faults.getD (2 * i + 1) false = false ∧
    Takes client w i

/-- After `n` rounds an import takes a record that cannot be put, and puts it back. -/
def Resaves (client : Client) (w : Buffers) (faults : List Bool) (n : ℕ) : Prop :=
  Saves client w faults n ∧ faults.getD (2 * n) false = false ∧
    (faults.getD (2 * n + 1) false = true ∨ ¬Takes client w n) ∧
    faults.getD (2 * n + 2) false = false

section Rounds

variable {w w' : Buffers} {faults : List Bool}

private theorem getD_tail (faults : List Bool) (i : ℕ) :
    faults.tail.getD i false = faults.getD (i + 1) false := by
  rw [List.getD_eq_getElem?_getD, List.getD_eq_getElem?_getD, List.getElem?_tail]

private theorem getD_tail_tail (faults : List Bool) (i : ℕ) :
    faults.tail.tail.getD i false = faults.getD (i + 2) false := by
  rw [getD_tail, getD_tail]

theorem saves_zero : Saves client w faults 0 := fun _ hi ↦ absurd hi (Nat.not_lt_zero _)

theorem saves_succ (h0 : faults.getD 0 false = false) (h1 : faults.getD 1 false = false)
    (htakes : Takes client w 0) (hlater : ∀ k, Takes client w' k ↔ Takes client w (k + 1)) {n : ℕ} :
    Saves client w faults (n + 1) ↔ Saves client w' faults.tail.tail n := by
  simp only [Saves, getD_tail_tail, hlater]
  constructor
  · exact fun h i hi ↦ h (i + 1) (Nat.succ_lt_succ hi)
  · intro h i hi
    rcases i with _ | i
    · exact ⟨h0, h1, htakes⟩
    · exact h i (Nat.lt_of_succ_lt_succ hi)

theorem resaves_succ (h0 : faults.getD 0 false = false) (h1 : faults.getD 1 false = false)
    (htakes : Takes client w 0) (hlater : ∀ k, Takes client w' k ↔ Takes client w (k + 1)) {n : ℕ} :
    Resaves client w faults (n + 1) ↔ Resaves client w' faults.tail.tail n := by
  rw [Resaves, Resaves, saves_succ h0 h1 htakes hlater, hlater, getD_tail_tail, getD_tail_tail,
    getD_tail_tail]
  rfl

/-- What the buffer takes is the same after a record has been taken from the source. -/
private theorem takes_taken {s : Importing} {bs bs' : List U8}
    (hbs : s.buffers.files source = some bs) (hmoo : isMooFile bs = true)
    (hmoo' : isMooFile bs' = true) (k : ℕ) :
    Takes client (taken source s bs').buffers k ↔ Takes client s.buffers k := by
  rw [Takes, Takes]
  by_cases hdisk : client.nodiskbuffers = false
  · rw [if_pos hdisk, if_pos hdisk, accepts_iff true, accepts_iff true]
    refine and_congr_right fun _ ↦ ?_
    by_cases hsame : source = client.filename RC5_72 false
    · rw [← hsame, hbs, taken, Importing.close, Buffers.files_close_self]
      exact iff_of_true (eitherFormat_moo hmoo' true) (eitherFormat_moo hmoo true)
    · rw [taken, Importing.close, Buffers.files_close_of_ne _ _ (Ne.symm hsame)]
      rfl
  · rw [if_neg hdisk, if_neg hdisk]
    rfl

/-- What a round leaves to the next that has put the record `r`. -/
private structure GoesOn (client : Client) (source : Filename) (s s' : Importing)
    (bs bs' : List U8) (r : WorkRecord) : Prop where
  fromMoo : FromMoo r
  saved : s'.saved = s.saved ++ [r]
  puts : Puts client source [r] s.buffers s'.buffers
  faults : s'.faults = s.faults.tail.tail
  takes : ∀ k, Takes client s'.buffers k ↔ Takes client s.buffers (k + 1)
  file : s'.buffers.files source = some bs'
  moo : isMooFile bs' = true
  covers : CountCovers bs' ↔ CountCovers bs
  accounted : s'.accounted client source = s.accounted client source
  apart : Apart client source → countedRecords bs = r :: countedRecords bs'
  same : ¬Apart client source → (countedRecords bs').length = (countedRecords bs).length

/-- A record that is put counts as saved elsewhere unless it went back into the source. -/
private theorem elsewhere_saving {s : Importing} {put : ℤ × Importing} {data : WorkRecord}
    (hsaved : put.2.saved = s.saved) (hdata : IsRC5Work data) :
    (saving put data).elsewhere client source =
      if Apart client source then data ::ₘ s.elsewhere client source
      else s.elsewhere client source := by
  have hbuffer : (client.nodiskbuffers = true ∨ client.bufferOf data ≠ source) ↔
      Apart client source := by
    rw [bufferOf_eq hdata]
    exact or_congr_right ne_comm
  have hone : [data].filter (fun r ↦ client.nodiskbuffers = true ∨ client.bufferOf r ≠ source)
      = if Apart client source then [data] else [] := by
    rw [List.filter_singleton]
    simp only [hbuffer, Bool.cond_decide]
  rw [Importing.elsewhere, Importing.elsewhere, saving, hsaved, List.filter_append, hone,
    ← Multiset.coe_add]
  split_ifs
  · rw [Multiset.coe_singleton, add_comm, Multiset.singleton_add]
  · exact add_zero _

/-- **A round with a record to take.** The record cannot be put, and then what matters is whether it
can be put back; or it is put, and the import goes on. -/
private theorem loopKeeps_round {last n : ℕ} {s : Importing} {bs : List U8}
    (hbs : s.buffers.files source = some bs) (hmoo : isMooFile bs = true)
    (hcounted : (countedRecords bs).length = n + 1) (h0 : s.faults.getD 0 false = false)
    (hlast : ¬(last ≠ 0 ∧ last ≤ n)) :
    ((s.faults.getD 1 false = true ∨ ¬Takes client s.buffers 0) ∧
      (LoopKeeps client source last s ↔ s.faults.getD 2 false = false) ∧
      ∃ s', importRound client source last s = (.stop true, s') ∧ s'.saved = s.saved ∧
        Puts client source [] s.buffers s'.buffers) ∨
    (s.faults.getD 1 false = false ∧ Takes client s.buffers 0 ∧
      ∃ s' bs' r, importRound client source last s = (.next n, s') ∧
        GoesOn client source s s' bs bs' r) := by
  have hfails : s.fails = false := (fails_eq s).trans h0
  rcases importingGet hbs hmoo hfails with ⟨hzero, -⟩ | ⟨pkt, bs', hmore, hblank, hlist, hget⟩
  · rw [hcounted] at hzero
    exact nomatch hzero
  have hcounted' : (countedRecords bs').length = n :=
    Nat.succ_inj.mp (hmore.counted.symm.trans hcounted)
  rw [hcounted'] at hget
  have hfile₁ : (taken source s bs').buffers.files source = some bs' := Buffers.files_close_self ..
  have hfails₁ : (taken source s bs').fails = s.faults.getD 1 false := by
    rw [fails_eq]
    exact getD_tail s.faults 0
  have htaken : Puts client source [] s.buffers (taken source s bs').buffers := puts_close _
  obtain ⟨hsaved, hfaults, hcases⟩ := importingPut_cases hfile₁ rfl hmore.moo hblank pkt
  rw [hfails₁] at hcases
  simp only [takes_taken hbs hmoo hmore.moo] at hcases
  rcases hcases with ⟨hrefused, hwhy, hputs, hfile⟩ |
    ⟨hdone, hworks, htakes, hlater, hputs, hfile⟩
  · -- the record is put back into the source, or it is lost
    left
    set put := (taken source s bs').put client (mooUnpackRecord pkt) with hput
    refine ⟨hwhy, ?_, put.2.resave source (mooUnpackRecord pkt), ?_,
      (saved_resave put.2 _).trans hsaved, (htaken.trans hputs).trans (puts_resave put.2 _)⟩
    · rw [loopKeeps_of_refused hbs hmore hget hlast hblank rfl hrefused hfile hsaved, fails_eq,
        hfaults]
      exact iff_of_eq (congrArg (· = false) (getD_tail_tail s.faults 0))
    · rw [importRound_of_get hget, if_neg hlast]
      exact if_neg hrefused
  · right
    set put := (taken source s bs').put client (mooUnpackRecord pkt) with hput
    set s' := saving put (mooUnpackRecord pkt) with hs'
    have helsewhere := @elsewhere_saving client source _ _ _ hsaved (isRC5Work_mooUnpack pkt)
    have hstart : (taken source s bs').elsewhere client source
      = s.elsewhere client source := elsewhere_congr rfl
    obtain ⟨bs₁, hfile', hmoo', hcovers, haccounted, hapart, hsame⟩ : ∃ bs₁,
        s'.buffers.files source = some bs₁ ∧ isMooFile bs₁ = true ∧
        (CountCovers bs₁ ↔ CountCovers bs) ∧
        s'.accounted client source = s.accounted client source ∧
        (Apart client source → countedRecords bs = mooUnpackRecord pkt :: countedRecords bs₁) ∧
        (¬Apart client source → (countedRecords bs₁).length = (countedRecords bs).length) := by
      -- the source is left without the record, or it is itself the buffer and has it again
      rcases hfile with ⟨hapart, hfile⟩ | ⟨hsame, bs'', hback, hfile⟩
      · refine ⟨bs', hfile, hmore.moo, hmore.covers.symm, ?_, fun _ ↦ hlist,
          fun h ↦ absurd hapart h⟩
        have hfile' : s'.buffers.files source = some bs' := hfile
        rw [Importing.accounted, Importing.accounted, helsewhere, if_pos hapart, hbs, hfile',
          hstart, Option.getD_some, Option.getD_some, hmore.records, Multiset.cons_add,
          Multiset.add_cons]
      · refine ⟨bs'', hfile, hback.moo', hback.covers.trans hmore.covers.symm, ?_,
          fun h ↦ absurd h hsame, fun _ ↦ hback.counted.trans hmore.counted.symm⟩
        have hfile' : s'.buffers.files source = some bs'' := hfile
        rw [Importing.accounted, Importing.accounted, helsewhere, if_neg hsame, hbs, hfile',
          hstart, Option.getD_some, Option.getD_some, hback.records, hmore.records]
    refine ⟨hworks, htakes, s', bs₁, mooUnpackRecord pkt, importRound_of_put hget hlast rfl hdone,
      ⟨fromMoo_mooUnpack pkt, ?_, htaken.trans hputs, hfaults, hlater, hfile', hmoo', hcovers,
        haccounted, hapart, hsame⟩⟩
    exact congrArg (· ++ [mooUnpackRecord pkt]) hsaved

private theorem not_saves_succ {n : ℕ}
    (h : faults.getD 0 false = true ∨ faults.getD 1 false = true ∨
    ¬Takes client w 0) : ¬Saves client w faults (n + 1) := by
  intro hsaves
  obtain ⟨h0, h1, htakes⟩ := hsaves 0 (Nat.succ_pos n)
  rcases h with h | h | h
  · exact Bool.noConfusion (h0.symm.trans h)
  · exact Bool.noConfusion (h1.symm.trans h)
  · exact h htakes

/-- Only a first record that cannot be put may be put back, if the first one cannot be put. -/
private theorem resaves_iff_of_refused {k : ℕ} (h0 : faults.getD 0 false = false)
    (hwhy : faults.getD 1 false = true ∨ ¬Takes client w 0) :
    Resaves client w faults k ↔ k = 0 ∧ faults.getD 2 false = false := by
  rcases k with _ | k
  · exact ⟨fun h ↦ ⟨rfl, h.2.2.2⟩, fun h ↦ ⟨saves_zero, h0, hwhy, h.2⟩⟩
  · exact iff_of_false (fun h ↦ not_saves_succ (Or.inr hwhy) h.1) fun h ↦ Nat.succ_ne_zero k h.1

/-- Nothing is put back if the first get fails. -/
private theorem not_resaves_of_fails {k : ℕ} (h0 : faults.getD 0 false = true) :
    ¬Resaves client w faults k := by
  rintro ⟨hsaves, hget, -⟩
  rcases k with _ | k
  · exact Bool.noConfusion (hget.symm.trans h0)
  · exact not_saves_succ (Or.inl h0) hsaves

/-- Nothing is put back by a round that saves its record. -/
private theorem not_resaves_zero (h1 : faults.getD 1 false = false) (htakes : Takes client w 0) :
    ¬Resaves client w faults 0 := by
  rintro ⟨-, -, hput | hfull, -⟩
  · exact Bool.noConfusion (h1.symm.trans hput)
  · exact hfull htakes

/-- The last round of an import, in which no record is counted any more. -/
private theorem loopKeeps_last {last : ℕ} {s : Importing} {bs : List U8}
    (hbs : s.buffers.files source = some bs) (hmoo : isMooFile bs = true)
    (hcounted : (countedRecords bs).length = 0) : LoopKeeps client source last s ↔
      (2 ^ 32 ∣ s.saved.length ∧ s.faults.getD 0 false = true) ∨ CountCovers bs := by
  obtain ⟨extra, hsplit, hcovers⟩ := recordsIn_moo hmoo
  rw [List.length_eq_zero_iff.mp hcounted, Multiset.coe_nil, zero_add] at hsplit
  rcases h0 : s.faults.getD 0 false with _ | _
  · rw [loopKeeps_of_none hbs hmoo ((fails_eq s).trans h0) hcounted]
    simp
  · rw [loopKeeps_of_fails hbs ((fails_eq s).trans h0), hsplit, hcovers, and_iff_left rfl]

/-- A get that fails while records are counted ends well only if the counter is zero. -/
private theorem loopKeeps_of_fails_counted {last n : ℕ} {s : Importing} {bs : List U8}
    (hbs : s.buffers.files source = some bs) (hmoo : isMooFile bs = true)
    (hcounted : (countedRecords bs).length = n + 1) (h0 : s.faults.getD 0 false = true) :
    LoopKeeps client source last s ↔ 2 ^ 32 ∣ s.saved.length := by
  obtain ⟨extra, hsplit, -⟩ := recordsIn_moo hmoo
  have hsome : recordsIn bs ≠ 0 := by
    intro hnone
    have hcard := congrArg Multiset.card (hsplit.symm.trans hnone)
    rw [Multiset.card_add, Multiset.coe_card, hcounted, Multiset.card_zero] at hcard
    omega
  rw [loopKeeps_of_fails hbs ((fails_eq s).trans h0), or_iff_left hsome]

private theorem length_saved {s s' : Importing} {r : WorkRecord}
    (h : s'.saved = s.saved ++ [r]) : s'.saved.length = s.saved.length + 1 := by
  rw [h, List.length_append, List.length_singleton]

/-- The counter does not wrap while fewer than `2 ^ 32` records have been saved. -/
private theorem dvd_length_iff {s : Importing} (h : s.saved.length < 2 ^ 32) :
    2 ^ 32 ∣ s.saved.length ↔ s.saved = [] := by
  rw [← List.length_eq_zero_iff]
  omega

/-- **An import out of a source of its own**, by induction on the records counted. -/
private theorem loopKeeps_apart (hapart : Apart client source) {n last : ℕ} {s : Importing}
    {bs : List U8} (hbs : s.buffers.files source = some bs) (hmoo : isMooFile bs = true)
    (hcounted : (countedRecords bs).length = n) (hlast : last = 0 ∨ n ≤ last)
    (hfew : s.saved.length + n < 2 ^ 32) :
    LoopKeeps client source last s ↔ (s.saved = [] ∧ s.faults.getD 0 false = true) ∨
      (Saves client s.buffers s.faults n ∧ CountCovers bs) ∨
      ∃ k < n, Resaves client s.buffers s.faults k := by
  induction n generalizing last s bs with
  | zero =>
    rw [loopKeeps_last hbs hmoo hcounted, dvd_length_iff (by omega)]
    simp [saves_zero]
  | succ n ih =>
    rcases h0 : s.faults.getD 0 false with _ | _
    · have hlast' : ¬(last ≠ 0 ∧ last ≤ n) := by omega
      rcases loopKeeps_round hbs hmoo hcounted h0 hlast' with
        ⟨hwhy, hkeeps, -⟩ | ⟨h1, htakes, s', bs', r, hround, hnext⟩
      · rw [hkeeps]
        simp only [resaves_iff_of_refused h0 hwhy, not_saves_succ (Or.inr hwhy)]
        simp
      · have hcounted' : (countedRecords bs').length = n := by
          rw [hnext.apart hapart, List.length_cons] at hcounted
          exact Nat.succ_inj.mp hcounted
        have hlen := length_saved hnext.saved
        rw [loopKeeps_of_next hround hnext.accounted,
          ih hnext.file hnext.moo hcounted' (Or.inr (Nat.le_refl n)) (by omega), hnext.covers,
          saves_succ h0 h1 htakes hnext.takes, hnext.faults]
        have hback : (∃ k < n + 1, Resaves client s.buffers s.faults k) ↔
            ∃ k < n, Resaves client s'.buffers s.faults.tail.tail k := by
          constructor
          · rintro ⟨_ | k, hk, h⟩
            · exact absurd h (not_resaves_zero h1 htakes)
            · exact ⟨k, Nat.lt_of_succ_lt_succ hk, (resaves_succ h0 h1 htakes hnext.takes).mp h⟩
          · rintro ⟨k, hk, h⟩
            exact ⟨k + 1, Nat.succ_lt_succ hk, (resaves_succ h0 h1 htakes hnext.takes).mpr h⟩
        rw [hback]
        simp [hnext.saved]
    · rw [loopKeeps_of_fails_counted hbs hmoo hcounted h0, dvd_length_iff (by omega)]
      simp [not_resaves_of_fails h0, not_saves_succ (Or.inl h0)]

section Same

variable {last : ℕ} {s : Importing} {bs : List U8}

/-- After `k` rounds that save a record each, a get fails while the counter is zero. -/
def FailsUncounted (client : Client) (w : Buffers) (faults : List Bool) (saved k : ℕ) : Prop :=
  Saves client w faults k ∧ faults.getD (2 * k) false = true ∧ 2 ^ 32 ∣ saved + k

private theorem failsUncounted_succ {w w' : Buffers} {faults : List Bool}
    (h0 : faults.getD 0 false = false) (h1 : faults.getD 1 false = false)
    (htakes : Takes client w 0) (hlater : ∀ k, Takes client w' k ↔ Takes client w (k + 1))
    {saved k : ℕ} : FailsUncounted client w faults saved (k + 1) ↔
      FailsUncounted client w' faults.tail.tail (saved + 1) k := by
  rw [FailsUncounted, FailsUncounted, saves_succ h0 h1 htakes hlater, getD_tail_tail,
    Nat.add_right_comm, Nat.add_assoc]
  rfl

/-- **An import of one record into the source itself** goes on until a call fails, and then ends
well only if it is the put of the record that fails, or a get while the counter is zero. -/
private theorem loopKeeps_same_one (hsame : ¬Apart client source)
    (hbs : s.buffers.files source = some bs) (hmoo : isMooFile bs = true)
    (hcounted : (countedRecords bs).length = 0 + 1) :
    LoopKeeps client source 0 s ↔
      (∃ k, FailsUncounted client s.buffers s.faults s.saved.length k) ∨
      ∃ k, Resaves client s.buffers s.faults k := by
  have hlast : ¬(0 ≠ 0 ∧ 0 ≤ 0) := fun h ↦ h.1 rfl
  constructor
  · -- the one record is got and put again and again, until an operation fails
    rintro ⟨fuel, errs, s₁, hloop, hkept⟩
    induction fuel generalizing s bs with
    | zero => exact nomatch hloop
    | succ fuel ih =>
      have hkeeps : LoopKeeps client source 0 s := ⟨fuel + 1, errs, s₁, hloop, hkept⟩
      rcases h0 : s.faults.getD 0 false with _ | _
      · rcases loopKeeps_round hbs hmoo hcounted h0 hlast with
          ⟨hwhy, hiff, -⟩ | ⟨h1, htakes, s', bs', r, hround, hnext⟩
        · exact Or.inr ⟨0, (resaves_iff_of_refused h0 hwhy).mpr ⟨rfl, hiff.mp hkeeps⟩⟩
        · rw [importLoop, hround] at hloop
          rw [← hnext.accounted] at hkept
          have hrest := ih hnext.file hnext.moo ((hnext.same hsame).trans hcounted) hloop hkept
          rw [hnext.faults, length_saved hnext.saved] at hrest
          rcases hrest with ⟨k, hk⟩ | ⟨k, hk⟩
          · exact Or.inl ⟨k + 1, (failsUncounted_succ h0 h1 htakes hnext.takes).mpr hk⟩
          · exact Or.inr ⟨k + 1, (resaves_succ h0 h1 htakes hnext.takes).mpr hk⟩
      · exact Or.inl ⟨0, saves_zero, h0,
          (loopKeeps_of_fails_counted hbs hmoo hcounted h0).mp hkeeps⟩
  · have hstep {k : ℕ} (hk : FailsUncounted client s.buffers s.faults s.saved.length k ∨
        Resaves client s.buffers s.faults k) : LoopKeeps client source 0 s := by
      induction k generalizing s bs with
      | zero =>
        rcases hk with ⟨-, h0, hdvd⟩ | hk
        · exact (loopKeeps_of_fails_counted hbs hmoo hcounted h0).mpr hdvd
        · have h0 : s.faults.getD 0 false = false := hk.2.1
          rcases loopKeeps_round hbs hmoo hcounted h0 hlast with ⟨-, hiff, -⟩ | ⟨h1, htakes, -⟩
          · exact hiff.mpr hk.2.2.2
          · exact absurd hk (not_resaves_zero h1 htakes)
      | succ k ih =>
        have hsaves : Saves client s.buffers s.faults (k + 1) := hk.elim And.left And.left
        have h0 : s.faults.getD 0 false = false := (hsaves 0 (Nat.succ_pos k)).1
        rcases loopKeeps_round hbs hmoo hcounted h0 hlast with
          ⟨hwhy, -⟩ | ⟨h1, htakes, s', bs', r, hround, hnext⟩
        · exact absurd hsaves (not_saves_succ (Or.inr hwhy))
        · refine (loopKeeps_of_next hround hnext.accounted).mpr
            (ih hnext.file hnext.moo ((hnext.same hsame).trans hcounted) ?_)
          rw [hnext.faults, length_saved hnext.saved]
          exact hk.imp (failsUncounted_succ h0 h1 htakes hnext.takes).mp
            (resaves_succ h0 h1 htakes hnext.takes).mp
    rintro (⟨k, hk⟩ | ⟨k, hk⟩)
    · exact hstep (Or.inl hk)
    · exact hstep (Or.inr hk)

/-- **An import of several records into the source itself** drops the second one that it takes. -/
private theorem loopKeeps_same_many (hsame : ¬Apart client source) {n : ℕ}
    (hbs : s.buffers.files source = some bs) (hmoo : isMooFile bs = true)
    (hcounted : (countedRecords bs).length = n + 1 + 1) (hnothing : s.saved = []) :
    LoopKeeps client source 0 s ↔
      s.faults.getD 0 false = true ∨ Resaves client s.buffers s.faults 0 := by
  have hlast : ¬(0 ≠ 0 ∧ 0 ≤ n + 1) := fun h ↦ h.1 rfl
  rcases h0 : s.faults.getD 0 false with _ | _
  · rcases loopKeeps_round hbs hmoo hcounted h0 hlast with
      ⟨hwhy, hiff, -⟩ | ⟨h1, htakes, s', bs', r, hround, hnext⟩
    · rw [hiff, resaves_iff_of_refused h0 hwhy]
      simp
    · have hcounted' : (countedRecords bs').length = n + 1 + 1 := (hnext.same hsame).trans hcounted
      have hlost : ¬LoopKeeps client source (n + 1) s' := by
        rcases h2 : s'.faults.getD 0 false with _ | _
        · rcases importingGet hnext.file hnext.moo ((fails_eq s').trans h2) with
            ⟨hzero, -⟩ | ⟨pkt, bs₂, hmore, -, -, hget⟩
          · rw [hcounted'] at hzero
            exact nomatch hzero
          · have hremaining : (countedRecords bs₂).length = n + 1 :=
              Nat.succ_inj.mp (hmore.counted.symm.trans hcounted')
            rw [hremaining] at hget
            exact not_loopKeeps_of_stuck hnext.file hmore hget ⟨Nat.succ_ne_zero n, Nat.le_refl _⟩
        · have hone : s'.saved.length = 1 := by rw [length_saved hnext.saved, hnothing]; rfl
          rw [loopKeeps_of_fails_counted hnext.file hnext.moo hcounted' h2, hone]
          decide
      rw [loopKeeps_of_next hround hnext.accounted]
      refine iff_of_false hlost ?_
      rintro (h | h)
      · exact Bool.noConfusion h
      · exact not_resaves_zero h1 htakes h
  · rw [loopKeeps_of_fails_counted hbs hmoo hcounted h0, hnothing]
    exact iff_of_true (Nat.dvd_zero _) (Or.inl rfl)

end Same

/-! ## What the buffers gain -/

/-- A round that stops puts nothing. -/
private theorem puts_of_stop {last : ℕ} {s s' : Importing} {errs : Bool} {bs : List U8}
    (hbs : s.buffers.files source = some bs) (hmoo : isMooFile bs = true)
    (h : importRound client source last s = (.stop errs, s')) :
    s'.saved = s.saved ∧ Puts client source [] s.buffers s'.buffers := by
  by_cases hrc : (s.get source).1.rc = 0
  · have hfails : s.fails = false := by
      rcases hfails : s.fails with _ | _
      · rfl
      · rw [Importing.get, hfails] at hrc
        cases hrc
    rcases importingGet hbs hmoo hfails with ⟨-, hfailed, -⟩ | ⟨pkt, bs', hmore, hblank, -, hget⟩
    · exact absurd hrc hfailed
    · have hfile₁ : (taken source s bs').buffers.files source = some bs' :=
        Buffers.files_close_self ..
      have htaken : Puts client source [] s.buffers (taken source s bs').buffers := puts_close _
      obtain ⟨hsaved, -, hcases⟩ :=
        @importingPut_cases client source _ _ hfile₁ rfl hmore.moo hblank pkt
      rw [importRound_of_get hget] at h
      split_ifs at h with hlast hdone
      · rw [← (Prod.mk.inj h).2]
        exact ⟨rfl, htaken⟩
      · cases (Prod.mk.inj h).1
      · rcases hcases with ⟨-, -, hputs, -⟩ | ⟨hpos, -⟩
        · rw [← (Prod.mk.inj h).2]
          exact ⟨(saved_resave _ _).trans hsaved, (htaken.trans hputs).trans (puts_resave _ _)⟩
        · exact absurd hpos hdone
  · rw [importRound_of_failed hrc] at h
    rw [← (Prod.mk.inj h).2]
    exact ⟨saved_get s, puts_get s⟩

/-- Why a round goes on. -/
private theorem goesOn_of_next {last remaining : ℕ} {s s' : Importing} {bs : List U8}
    (hbs : s.buffers.files source = some bs) (hmoo : isMooFile bs = true)
    (h : importRound client source last s = (.next remaining, s')) :
    s.faults.getD 0 false = false ∧ s.faults.getD 1 false = false ∧ Takes client s.buffers 0 ∧
      (countedRecords bs).length = remaining + 1 ∧
      ∃ bs' r, GoesOn client source s s' bs bs' r := by
  have hrc : (s.get source).1.rc = 0 := by
    by_contra hfailed
    rw [importRound_of_failed hfailed] at h
    cases (Prod.mk.inj h).1
  have hfails : s.fails = false := by
    rcases hfails : s.fails with _ | _
    · rfl
    · rw [Importing.get, hfails] at hrc
      cases hrc
  rcases importingGet hbs hmoo hfails with ⟨-, hfailed, -⟩ | ⟨pkt, bs', hmore, -, -, hget⟩
  · exact absurd hrc hfailed
  · have hlast : ¬(last ≠ 0 ∧ last ≤ (countedRecords bs').length) := by
      intro hlast
      rw [importRound_of_get hget, if_pos hlast] at h
      cases (Prod.mk.inj h).1
    have h0 : s.faults.getD 0 false = false := (fails_eq s).symm.trans hfails
    rcases @loopKeeps_round client source _ _ _ _ hbs hmoo hmore.counted h0 hlast with
      ⟨-, -, s₁, hround, -⟩ | ⟨h1, htakes, s₁, bs₁, r, hround, hnext⟩
    · cases (Prod.mk.inj (h.symm.trans hround)).1
    · obtain ⟨hsame, rfl⟩ := Prod.mk.inj (h.symm.trans hround)
      injection hsame with hremaining
      exact ⟨h0, h1, htakes, hremaining ▸ hmore.counted, bs₁, r, hnext⟩

/-- **What an import puts**, however it ends, and from a source of its own how much: as many of the
records counted as there are rounds that save a record each. -/
theorem importLoop_puts {fuel last : ℕ} {s : Importing} {bs : List U8}
    (hbs : s.buffers.files source = some bs) (hmoo : isMooFile bs = true)
    (hlast : Apart client source → last = 0 ∨ (countedRecords bs).length ≤ last)
    {res : Bool × Importing} (h : importLoop client source fuel last s = some res) : ∃ rs,
    res.2.saved = s.saved ++ rs ∧ Puts client source rs s.buffers res.2.buffers ∧
      (∀ r ∈ rs, FromMoo r) ∧ (rs ≠ [] → Takes client s.buffers 0) ∧
      (Apart client source → rs <+: countedRecords bs ∧
        Saves client s.buffers s.faults rs.length ∧
        (rs.length < (countedRecords bs).length →
          ¬Saves client s.buffers s.faults (rs.length + 1))) := by
  induction fuel generalizing last s bs with
  | zero => cases h
  | succ fuel ih =>
    rw [importLoop] at h
    rcases hround : importRound client source last s with ⟨errs | remaining, s'⟩
    · rw [hround] at h
      obtain rfl := Option.some.inj h
      obtain ⟨hsaved, hputs⟩ := puts_of_stop hbs hmoo hround
      refine ⟨[], hsaved.trans (List.append_nil _).symm, hputs,
        fun _ hr ↦ absurd hr List.not_mem_nil, fun hne ↦ absurd rfl hne,
        fun hapart ↦ ⟨List.nil_prefix, saves_zero, fun hlt hsaves ↦ ?_⟩⟩
      -- a record is counted, and nothing is in the way of saving it
      obtain ⟨n, hn⟩ := Nat.exists_eq_succ_of_ne_zero (Nat.pos_iff_ne_zero.mp hlt)
      obtain ⟨h0, h1, htakes⟩ := hsaves 0 Nat.one_pos
      have hlast' : ¬(last ≠ 0 ∧ last ≤ n) := by
        have := hlast hapart
        omega
      rcases @loopKeeps_round client source _ _ _ _ hbs hmoo hn h0 hlast' with
        ⟨hput | hfull, -⟩ | ⟨-, -, s₁, bs', r, hnext, -⟩
      · exact Bool.noConfusion (h1.symm.trans hput)
      · exact hfull htakes
      · cases (Prod.mk.inj (hround.symm.trans hnext)).1
    · rw [hround] at h
      obtain ⟨h0, h1, htakes, hcount, bs', r, hnext⟩ := goesOn_of_next hbs hmoo hround
      have hlast' (hapart : Apart client source) :
          remaining = 0 ∨ (countedRecords bs').length ≤ remaining := by
        rw [hnext.apart hapart, List.length_cons] at hcount
        omega
      obtain ⟨rs, hsaved, hputs, hmore, -, hfront⟩ := ih hnext.file hnext.moo hlast' h
      refine ⟨r :: rs, ?_, hnext.puts.trans hputs, ?_, fun _ ↦ htakes, fun hapart ↦ ?_⟩
      · rw [hsaved, hnext.saved, List.append_assoc, List.singleton_append]
      · rw [List.forall_mem_cons]
        exact ⟨hnext.fromMoo, hmore⟩
      · obtain ⟨hpre, hsaves, hmost⟩ := hfront hapart
        rw [hnext.apart hapart, List.length_cons, List.length_cons,
          saves_succ h0 h1 htakes hnext.takes, saves_succ h0 h1 htakes hnext.takes, ← hnext.faults]
        exact ⟨(List.cons_prefix_cons).mpr ⟨rfl, hpre⟩, hsaves,
          fun hlt ↦ hmost (Nat.lt_of_succ_lt_succ hlt)⟩

/-- **When the buffers gain what is reported**, however the import ends: whatever of the records
counted is put finds its place. -/
theorem loopGains_iff {s : Importing} {bs : List U8} (hsaved : s.saved = [])
    (hbs : s.buffers.files source = some bs) (hmoo : isMooFile bs = true)
    (hends : ∃ fuel res, importLoop client source fuel 0 s = some res) :
    LoopGains client source s ↔ (client.nodiskbuffers = false → Apart client source →
      ∀ k ≤ (countedRecords bs).length, Saves client s.buffers s.faults k →
        AllPlaced ((countedRecords bs).take k)
          (s.buffers.files (client.filename RC5_72 false))) := by
  obtain ⟨fuel, res, hres⟩ := hends
  have hzero : Apart client source → 0 = 0 ∨ (countedRecords bs).length ≤ 0 := fun _ ↦ Or.inl rfl
  obtain ⟨rs, hall, hputs, hmoo', htakes, hmost⟩ := importLoop_puts hbs hmoo hzero hres
  rw [hsaved, List.nil_append] at hall
  -- the loop has one end, so it is enough to look at this one
  have honly : LoopGains client source s ↔ Gained client source rs s.buffers
      (res.2.finish source res.1).buffers := by
    rw [← hall]
    refine ⟨fun h ↦ h fuel res hres, fun h fuel' res' hres' ↦ ?_⟩
    obtain rfl := importLoop_unique hres hres'
    exact h
  have hputs' := hputs.trans (puts_finish res.2 res.1)
  rw [List.append_nil] at hputs'
  have hformat (hdisk : client.nodiskbuffers = false) (hne : rs ≠ []) :
      EitherFormat (healthy (s.buffers.files (client.filename RC5_72 false)) true) := by
    have haccepts := htakes hne
    rw [Takes, if_pos hdisk] at haccepts
    exact ((accepts_iff true).mp haccepts).2
  rw [honly, gained_iff hputs' hmoo' hformat]
  refine forall_congr' fun hdisk ↦ ?_
  have hapart : source ≠ client.filename RC5_72 false ↔ Apart client source := by
    rw [Apart, hdisk]
    simp
  rw [hapart]
  refine forall_congr' fun hfrom ↦ ?_
  obtain ⟨hfront, hsaves, hno⟩ := hmost hfrom
  have hrs := List.prefix_iff_eq_take.mp hfront
  constructor
  · intro hplaced k hk hsavesk
    have hle : k ≤ rs.length := by
      by_contra hlt
      exact hno (by omega) fun i hi ↦ hsavesk i (by omega)
    have hpre : (countedRecords bs).take k <+: (countedRecords bs).take rs.length :=
      List.take_prefix_take_left hle
    rw [← hrs] at hpre
    exact hplaced.of_prefix hpre
  · intro h
    rw [hrs]
    exact h _ hfront.length_le hsaves

end Rounds

/-! ## When an import keeps every record -/

/-- The import of a source accounts for every record. The source is not a Moo file, or the first get
fails; or all it holds is counted, and nothing is or every record is saved elsewhere; or the import
comes to a record that cannot be put and is put back. An import into the source itself gets past the
first record only if it is the only one. It then takes that again and again, and a get may also fail
when the counter has just wrapped to zero. -/
def AccountsFor (client : Client) (source : Filename) (w : Buffers) (faults : List Bool) : Prop :=
  let bs := (w.files source).getD []
  let n := (countedRecords bs).length
  isMooFile bs = false ∨ faults.getD 0 false = true ∨
    ((n = 0 ∨ Apart client source ∧ Saves client w faults n) ∧ CountCovers bs) ∨
    (∃ k, (k < n ∧ (k = 0 ∨ Apart client source) ∨ n = 1 ∧ ¬Apart client source) ∧
      Resaves client w faults k) ∨
    (n = 1 ∧ ¬Apart client source ∧ ∃ k, FailsUncounted client w faults 0 k)

/-- The records of a source are safe: the import accounts for them, and those that it puts into the
input buffer on disk all find their place there. -/
structure ImportSafe (client : Client) (source : Filename) (w : Buffers) (faults : List Bool) :
    Prop where
  accounts : AccountsFor client source w faults
  places : client.nodiskbuffers = false → Apart client source →
    ∀ k ≤ (countedRecords ((w.files source).getD [])).length, Saves client w faults k →
      AllPlaced ((countedRecords ((w.files source).getD [])).take k)
        (w.files (client.filename RC5_72 false))

/-- The counter of an import that ends while records are counted has not wrapped. -/
private theorem length_countedRecords_lt (bs : List U8) : (countedRecords bs).length < 2 ^ 32 := by
  have hcount := packetCount_le bs
  have hle : (countedRecords bs).length ≤ packetCount bs := by
    rw [length_countedRecords, contents, Multiset.coe_card]
    exact (List.length_filter_le ..).trans (List.length_take_le ..)
  omega

/-- The loop over a Moo file keeps every record exactly if the import accounts for them. -/
theorem loopKeeps_iff {w : Buffers} {faults : List Bool} {bs : List U8}
    (hbs : w.files source = some bs) (hmoo : isMooFile bs = true) :
    LoopKeeps client source 0 ⟨w, faults, []⟩ ↔ AccountsFor client source w faults := by
  rw [AccountsFor, hbs, Option.getD_some]
  have hnot : (true = false) ↔ False := by decide
  rw [hmoo, hnot, false_or]
  by_cases hapart : Apart client source
  · have hfew : ([] : List WorkRecord).length + (countedRecords bs).length < 2 ^ 32 := by
      rw [List.length_nil, Nat.zero_add]
      exact length_countedRecords_lt bs
    rw [loopKeeps_apart hapart hbs hmoo rfl (Or.inl rfl) hfew]
    have hzero (h : (countedRecords bs).length = 0) :
        Saves client w faults (countedRecords bs).length := h ▸ saves_zero
    constructor
    · rintro (⟨-, h0⟩ | ⟨hsaves, hcovers⟩ | ⟨k, hk, hback⟩)
      · exact Or.inl h0
      · exact Or.inr (Or.inl ⟨Or.inr ⟨hapart, hsaves⟩, hcovers⟩)
      · exact Or.inr (Or.inr (Or.inl ⟨k, Or.inl ⟨hk, Or.inr hapart⟩, hback⟩))
    · rintro (h0 | ⟨hnone | ⟨-, hsaves⟩, hcovers⟩ | ⟨k, ⟨hk, -⟩ | ⟨-, hsame⟩, hback⟩ |
        ⟨-, hsame, -⟩)
      · exact Or.inl ⟨rfl, h0⟩
      · exact Or.inr (Or.inl ⟨hzero hnone, hcovers⟩)
      · exact Or.inr (Or.inl ⟨hsaves, hcovers⟩)
      · exact Or.inr (Or.inr ⟨k, hk, hback⟩)
      · exact absurd hapart hsame
      · exact absurd hapart hsame
  · rcases hcounted : (countedRecords bs).length with _ | _ | n
    · rw [loopKeeps_last hbs hmoo hcounted]
      simp [hapart]
    · rw [loopKeeps_same_one hapart hbs hmoo hcounted]
      have hfirst : faults.getD 0 false = true → FailsUncounted client w faults 0 0 :=
        fun h0 ↦ ⟨saves_zero, h0, Nat.dvd_zero _⟩
      constructor
      · rintro (h | ⟨k, h⟩)
        · exact Or.inr (Or.inr (Or.inr ⟨rfl, hapart, h⟩))
        · exact Or.inr (Or.inr (Or.inl ⟨k, Or.inr ⟨rfl, hapart⟩, h⟩))
      · rintro (h0 | ⟨hnone | ⟨hfrom, -⟩, -⟩ | ⟨k, -, h⟩ | ⟨-, -, h⟩)
        · exact Or.inl ⟨0, hfirst h0⟩
        · exact nomatch hnone
        · exact absurd hfrom hapart
        · exact Or.inr ⟨k, h⟩
        · exact Or.inl h
    · rw [loopKeeps_same_many hapart hbs hmoo hcounted rfl]
      simp [hapart]

/-- A file that is not a Moo file is left alone. -/
theorem importRound_stock {s : Importing} {bs : List U8}
    (hbs : s.buffers.files source = some bs) (hstock : isMooFile bs = false) {last : ℕ} :
    ∃ s', importRound client source last s = (.stop false, s') ∧ s'.saved = s.saved ∧
      s'.buffers.files source = some bs ∧ Puts client source [] s.buffers s'.buffers := by
  have hrefused : (-1 : ℤ) ≠ 0 := by decide
  refine ⟨(s.get source).2, importRound_of_failed ?_, saved_get s, ?_, puts_get s⟩
  · rcases hfails : s.fails with _ | _
    · have hsome : isMooFile ((s.buffers.files source).getD []) = false := by rw [hbs]; exact hstock
      have hget := get_remote hsome s.buffers.mooOutputMode
      rw [Importing.get, hfails]
      exact (congrArg (·.1.rc) hget).trans_ne hrefused
    · rw [Importing.get, hfails]
      exact hrefused
  · rcases hfails : s.fails with _ | _
    · have hsome : isMooFile ((s.buffers.files source).getD []) = false := by rw [hbs]; exact hstock
      have hget := get_remote hsome s.buffers.mooOutputMode
      rw [Importing.get, hfails]
      refine (Buffers.files_close_self ..).trans ?_
      exact (congrArg (·.2.disk.file) hget).trans hbs
    · rw [Importing.get, hfails]
      exact hbs

/-- There is nothing to put from a file that is not a Moo file. -/
private theorem importSafe_of_stock {w : Buffers} {faults : List Bool}
    (hstock : isMooFile ((w.files source).getD []) = false) :
    ImportSafe client source w faults where
  accounts := Or.inl hstock
  places _ _ k hk _ := by
    have hnone : countedRecords ((w.files source).getD []) = [] := by
      rw [countedRecords, packetCount_stock hstock]
      rfl
    rw [hnone, List.take_nil]
    trivial

theorem gained_nil {w w' : Buffers} (h : Puts client source [] w w') :
    Gained client source [] w w' :=
  (gained_iff h (fun _ hr ↦ absurd hr List.not_mem_nil) fun _ hne ↦ absurd rfl hne).mpr
    fun _ _ ↦ trivial

/-- A Moo file with two records, as a source for the client's empty buffers. -/
def twoRecords : MooFile :=
  .ofSlots [mooPackRecord emptyRecord, mooPackRecord emptyRecord] (by simp)

def twoRecordsBuffers : Buffers :=
  ⟨Function.update (fun _ ↦ none) "import".toList (some twoRecords.bytes), false, fun _ _ ↦ ⟨[], 0⟩⟩

end Hyunjin
