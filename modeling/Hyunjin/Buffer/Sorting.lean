import Hyunjin.Buffer.Holding
import Hyunjin.Search.Drain

/-!
# Sorting a buffer while searching it

`GetBufferRecord` takes records out of a buffer until one belongs there, and saves the others where
they do belong. The search goes on while records are left, but the figure it goes by is not what it
takes it for: a stock file counts the records of the contest of the record just taken, not of the
one that is wanted. A record of another contest that is the last of its kind ends the search, even
if wanted records come after it.

`sorts_iff` says when a search does all it should: it ends, finds a record if there is one, and
every record it takes out on the way is afterwards in the buffer where it belongs.
-/

namespace Hyunjin

open Word Stdio Slots Run Drain

/-! ## Which file is which -/

/-- The extension of a buffer file. -/
private def extension (contest : U32) : List Char :=
  ((projectGetFileExtension contest).take 3).map Char.toLower

private theorem filename_split (client : Client) (isOut : Bool) : ∃ stem : List Char,
    ∀ contest, client.filename contest isOut = stem ++ extension contest := ⟨_, fun _ ↦ rfl⟩

private theorem extension_inj : ∀ i j : Fin 7, extension (BitVec.ofFin (i.castLE (by decide)))
    = extension (BitVec.ofFin (j.castLE (by decide))) → i = j := by
  decide +kernel

private theorem length_extension : ∀ i : Fin 7,
    (extension (BitVec.ofFin (i.castLE (by decide)))).length = 3 := by
  decide +kernel

private theorem exists_fin {contest : U32} (h : contest < CONTEST_COUNT) :
    ∃ i : Fin 7, contest = BitVec.ofFin (i.castLE (by decide)) :=
  ⟨⟨contest.toNat, h⟩, rfl⟩

/-- The in and out buffers of a client are told apart. -/
structure TellsApart (client : Client) : Prop where
  limits : checkBuffLimits client = true
  files : client.nodiskbuffers = false →
    client.filename RC5_72 false ≠ client.filename RC5_72 true

/-- Different buffers are in different files. -/
theorem TellsApart.filename_inj {client : Client} (h : TellsApart client)
    (hdisk : client.nodiskbuffers = false) {contest contest' : U32} (hc : contest < CONTEST_COUNT)
    (hc' : contest' < CONTEST_COUNT) {isOut isOut' : Bool}
    (heq : client.filename contest isOut = client.filename contest' isOut') :
    contest = contest' ∧ isOut = isOut' := by
  obtain ⟨stem, hstem⟩ := filename_split client isOut
  obtain ⟨stem', hstem'⟩ := filename_split client isOut'
  obtain ⟨i, rfl⟩ := exists_fin hc
  obtain ⟨j, rfl⟩ := exists_fin hc'
  rw [hstem, hstem'] at heq
  obtain ⟨hleft, hright⟩ :=
    List.append_inj' heq ((length_extension i).trans (length_extension j).symm)
  refine ⟨by rw [extension_inj i j hright], ?_⟩
  have hsame : client.filename RC5_72 isOut = client.filename RC5_72 isOut' := by
    rw [hstem, hstem', hleft]
  by_contra hne
  cases isOut <;> cases isOut'
  · exact hne rfl
  · exact h.files hdisk hsame
  · exact h.files hdisk hsame.symm
  · exact hne rfl

/-! ## What the buffers hold -/

/-- The records of a buffer in the order in which gets take them. -/
def held (client : Client) (w : Buffers) (contest : U32) (isOut : Bool) : List WorkRecord :=
  if client.nodiskbuffers = false then heldIn ((w.files (client.filename contest isOut)).getD [])
  else (w.membufftable contest isOut).buff.reverse

/-- A buffer is in order: on disk, its file can be read. -/
def Ordered (client : Client) (w : Buffers) (contest : U32) (isOut : Bool) : Prop :=
  client.nodiskbuffers = false → Readable (w.files (client.filename contest isOut))

/-- Whether a buffer is a Moo file. -/
def inMoo (client : Client) (w : Buffers) (contest : U32) (isOut : Bool) : Bool :=
  !client.nodiskbuffers && isMooFile ((w.files (client.filename contest isOut)).getD [])

/-- A buffer is the same in both states. -/
structure SameAt (client : Client) (contest : U32) (isOut : Bool) (t w : Buffers) : Prop where
  file : w.files (client.filename contest isOut) = t.files (client.filename contest isOut)
  mem : w.membufftable contest isOut = t.membufftable contest isOut

section SameAt

variable {client : Client} {contest : U32} {isOut : Bool} {t w : Buffers}
  (h : SameAt client contest isOut t w)

include h

theorem SameAt.held : held client w contest isOut = held client t contest isOut := by
  rw [Hyunjin.held, Hyunjin.held, h.file, h.mem]

theorem SameAt.ordered : Ordered client w contest isOut ↔ Ordered client t contest isOut := by
  rw [Ordered, Ordered, h.file]

theorem SameAt.inMoo : inMoo client w contest isOut = inMoo client t contest isOut := by
  rw [Hyunjin.inMoo, Hyunjin.inMoo, h.file]

end SameAt

/-- The states agree on all buffers but one. The flag may be behind in the second if that buffer is
a Moo file, which has yet to be seen. -/
structure Beside (client : Client) (contest : U32) (isOut : Bool) (t w : Buffers) : Prop where
  files : ∀ filename, filename ≠ client.filename contest isOut → w.files filename = t.files filename
  mem : ∀ c d, (c, d) ≠ (contest, isOut) → w.membufftable c d = t.membufftable c d
  mode : (w.mooOutputMode || inMoo client w contest isOut) = t.mooOutputMode

/-! ## Saving -/

/-- Save a record where it belongs. -/
def save (client : Client) (r : WorkRecord) (w : Buffers) : PutReturn × Buffers :=
  putInto client r.contest (r.resultcode ≠ RESULT_WORKING) r false w

/-- The buffer where a record belongs takes it: the file does, or there is room in memory. -/
def FindsPlace (client : Client) (r : WorkRecord) (w : Buffers) : Prop :=
  if client.nodiskbuffers = false then
    FileTakes (w.atFile (client.filename r.contest (r.resultcode ≠ RESULT_WORKING))) r
  else
    let m := w.membufftable r.contest (r.resultcode ≠ RESULT_WORKING)
    m.buff.length < m.maxcount ∨ (m.buff.length = m.maxcount ∧ m.maxcount < MEMBUFF_COUNT_MAX)

theorem belongs_iff {r : WorkRecord} {contest : U32} {isOut : Bool} :
    Belongs r contest isOut ↔
      r.contest = contest ∧ decide (r.resultcode ≠ RESULT_WORKING) = isOut := by
  rw [Belongs]
  cases isOut <;> simp

theorem belongs_own (r : WorkRecord) :
    Belongs r r.contest (decide (r.resultcode ≠ RESULT_WORKING)) := belongs_iff.mpr ⟨rfl, rfl⟩

theorem Supported.lt {r : WorkRecord} (h : Supported r) : r.contest < CONTEST_COUNT := by
  rcases h.contest with h | h <;> rw [h] <;> decide

section Save

variable {client : Client} {r : WorkRecord} {w : Buffers}

private theorem save_disk (hdisk : client.nodiskbuffers = false) : (save client r w).2 =
    w.close (client.filename r.contest (r.resultcode ≠ RESULT_WORKING))
      (bufferPutFileRecord (healthy (w.files (client.filename r.contest
        (r.resultcode ≠ RESULT_WORKING))) w.mooOutputMode) r false BUFFER_FLAGS_NONE).2 := by
  rw [save, putInto, if_pos hdisk]
  rfl

private theorem save_mem (hmem : ¬client.nodiskbuffers = false) : (save client r w).2 =
    w.setMemBuff r.contest (r.resultcode ≠ RESULT_WORKING) (bufferPutMemRecord
      (w.membufftable r.contest (r.resultcode ≠ RESULT_WORKING)) r).2 := by
  rw [save, putInto, if_neg hmem]

private theorem setMemBuff_self (w : Buffers) (contest : U32) (isOut : Bool) (m : MemBuff) :
    (w.setMemBuff contest isOut m).membufftable contest isOut = m := by
  simp [Buffers.setMemBuff]

private theorem setMemBuff_of_ne (w : Buffers) {contest c : U32} {isOut d : Bool}
    (h : (c, d) ≠ (contest, isOut)) (m : MemBuff) :
    (w.setMemBuff contest isOut m).membufftable c d = w.membufftable c d := by
  by_cases hc : c = contest
  · subst hc
    have hd : d ≠ isOut := fun hd ↦ h (by rw [hd])
    simp [Buffers.setMemBuff, hd]
  · simp [Buffers.setMemBuff, hc]

/-- What a memory buffer does with a record. -/
private theorem buff_put (m : MemBuff) (r : WorkRecord) : (bufferPutMemRecord m r).2.buff =
    if m.buff.length < m.maxcount ∨ (m.buff.length = m.maxcount ∧ m.maxcount < MEMBUFF_COUNT_MAX)
    then m.buff ++ [r] else m.buff := by
  simp only [bufferPutMemRecord]
  by_cases hgrow : m.buff.length = m.maxcount ∧ m.maxcount < MEMBUFF_COUNT_MAX
  · have hlt : m.buff.length < m.maxcount + MEMBUFF_STEPS := by rw [MEMBUFF_STEPS]; omega
    simp only [if_pos hgrow, if_pos hlt, if_pos (Or.inr hgrow)]
  · simp only [if_neg hgrow, or_iff_left hgrow]
    split_ifs <;> rfl

/-- A save leaves the other buffers as they are. -/
theorem save_elsewhere (hclient : TellsApart client) (hr : r.contest < CONTEST_COUNT)
    {contest : U32} (hcontest : contest < CONTEST_COUNT) {isOut : Bool}
    (h : ¬Belongs r contest isOut) : SameAt client contest isOut w (save client r w).2 := by
  rw [belongs_iff] at h
  by_cases hdisk : client.nodiskbuffers = false
  · rw [save_disk hdisk]
    refine ⟨w.files_close_of_ne _ fun heq ↦ h ?_, rfl⟩
    obtain ⟨hc, hd⟩ := hclient.filename_inj hdisk hcontest hr heq
    exact ⟨hc.symm, hd.symm⟩
  · rw [save_mem hdisk]
    refine ⟨rfl, setMemBuff_of_ne w (fun heq ↦ h ?_) _⟩
    obtain ⟨hc, hd⟩ := Prod.mk.inj heq
    exact ⟨hc.symm, hd.symm⟩

/-- **A save adds the record** to the buffer where it belongs, if that takes it. -/
theorem held_save (hr : Supported r) (hstored : client.nodiskbuffers = false → r.stored = r)
    {contest : U32} {isOut : Bool} (hbelongs : Belongs r contest isOut)
    (hw : Ordered client w contest isOut) (hfits : FindsPlace client r w) :
    Ordered client (save client r w).2 contest isOut ∧
      (held client (save client r w).2 contest isOut : Multiset WorkRecord)
        = r ::ₘ held client w contest isOut := by
  obtain ⟨rfl, rfl⟩ := belongs_iff.mp hbelongs
  rw [FindsPlace] at hfits
  by_cases hdisk : client.nodiskbuffers = false
  · rw [if_pos hdisk] at hfits
    obtain ⟨moo, file, rs, mode, hfile, hrs, hput⟩ := (hw hdisk).holds.put hr hfits
    rw [hstored hdisk] at hrs
    rw [save_disk hdisk, hput, Ordered, held, held, if_pos hdisk, if_pos hdisk,
      Buffers.files_close_self]
    exact ⟨fun _ ↦ ⟨moo, rs, hfile⟩, by rw [healthy_disk, hfile.heldIn, hrs]⟩
  · rw [if_neg hdisk] at hfits
    refine ⟨fun h ↦ absurd h hdisk, ?_⟩
    rw [save_mem hdisk, held, held, if_neg hdisk, if_neg hdisk, setMemBuff_self, buff_put,
      if_pos hfits, List.reverse_append]
    rfl

end Save

/-! ## Runs of saves -/

/-- After the saves every buffer holds in addition the records that belong there. -/
def SavesAll (client : Client) (rs : List WorkRecord) (w : Buffers) : Prop :=
  ∀ c < CONTEST_COUNT, ∀ d, Ordered client (final (save client) rs w) c d ∧
    (held client (final (save client) rs w) c d : Multiset WorkRecord)
      = held client w c d + (rs.filter (Belongs · c d) : Multiset WorkRecord)

section Saves

variable {client : Client}

private theorem saves_one (hclient : TellsApart client) {r : WorkRecord} (hr : Supported r)
    (hstored : client.nodiskbuffers = false → r.stored = r) {w : Buffers}
    (hw : ∀ c < CONTEST_COUNT, ∀ d, Ordered client w c d) (hfits : FindsPlace client r w) :
    ∀ c < CONTEST_COUNT, ∀ d, Ordered client (save client r w).2 c d ∧
      ∀ rs : List WorkRecord, held client (save client r w).2 c d
          + (rs.filter (Belongs · c d) : Multiset WorkRecord)
        = held client w c d + ((r :: rs).filter (Belongs · c d) : Multiset WorkRecord) := by
  intro c hc d
  by_cases hbelongs : Belongs r c d
  · obtain ⟨hordered, hheld⟩ := held_save hr hstored hbelongs (hw c hc d) hfits
    refine ⟨hordered, fun rs ↦ ?_⟩
    rw [hheld, List.filter_cons_of_pos (by simpa using hbelongs), ← Multiset.cons_coe,
      Multiset.cons_add, Multiset.add_cons]
  · have hsame := save_elsewhere (w := w) hclient hr.lt hc hbelongs
    refine ⟨hsame.ordered.mpr (hw c hc d), fun rs ↦ ?_⟩
    rw [hsame.held, List.filter_cons_of_neg (by simpa using hbelongs)]

/-- A spoiled file stays spoiled. -/
private theorem spoiled_final (hdisk : client.nodiskbuffers = false) {r : WorkRecord}
    {filename : Filename} (rs : List WorkRecord) {w : Buffers} {bs : List U8}
    (hfile : w.files filename = some bs) (h : Spoiled r bs) :
    ∃ bs', (final (save client) rs w).files filename = some bs' ∧ Spoiled r bs' := by
  induction rs generalizing w bs with
  | nil => exact ⟨bs, hfile, h⟩
  | cons x rs ih =>
    rw [final, save_disk hdisk]
    by_cases hname : filename = client.filename x.contest (x.resultcode ≠ RESULT_WORKING)
    · subst hname
      rw [hfile, h.put]
      exact ih (Buffers.files_close_self ..) (h.mooPutBytes x)
    · exact ih ((w.files_close_of_ne _ hname).trans hfile) h

private theorem length_save_le (hmem : ¬client.nodiskbuffers = false) (r : WorkRecord) (w : Buffers)
    (c : U32) (d : Bool) : ((save client r w).2.membufftable c d).buff.length ≤
      (w.membufftable c d).buff.length + ([r].filter (Belongs · c d)).length := by
  rw [save_mem hmem]
  by_cases hbelongs : Belongs r c d
  · obtain ⟨rfl, rfl⟩ := belongs_iff.mp hbelongs
    rw [setMemBuff_self, buff_put, List.filter_cons_of_pos (by simpa using hbelongs)]
    split_ifs <;> simp
  · have hne : (c, d) ≠ (r.contest, decide (r.resultcode ≠ RESULT_WORKING)) := fun heq ↦
      hbelongs (belongs_iff.mpr (by
        obtain ⟨hc, hd⟩ := Prod.mk.inj heq
        exact ⟨hc.symm, hd.symm⟩))
    rw [setMemBuff_of_ne w hne]
    exact Nat.le_add_right _ _

private theorem length_final_le (hmem : ¬client.nodiskbuffers = false) (rs : List WorkRecord)
    (w : Buffers) (c : U32) (d : Bool) :
    ((final (save client) rs w).membufftable c d).buff.length ≤
      (w.membufftable c d).buff.length + (rs.filter (Belongs · c d)).length := by
  induction rs generalizing w with
  | nil => exact le_rfl
  | cons r rs ih =>
    have hsplit : (r :: rs).filter (Belongs · c d)
        = [r].filter (Belongs · c d) ++ rs.filter (Belongs · c d) :=
      List.filter_append [r] rs
    rw [hsplit, List.length_append, ← Nat.add_assoc]
    exact (ih _).trans (Nat.add_le_add_right (length_save_le hmem r w c d) _)

/-- **A record that is not taken is missed** in the end, whatever is saved after it. -/
private theorem not_savesAll {r : WorkRecord} (hr : r.contest < CONTEST_COUNT) {w : Buffers}
    (hw : ∀ c < CONTEST_COUNT, ∀ d, Ordered client w c d) (h : ¬FindsPlace client r w)
    (rs : List WorkRecord) : ¬SavesAll client (r :: rs) w := by
  intro hall
  obtain ⟨hordered, hheld⟩ := hall r.contest hr (decide (r.resultcode ≠ RESULT_WORKING))
  rw [List.filter_cons_of_pos (by simpa using belongs_own r), final] at hheld
  rw [final] at hordered
  rw [FindsPlace] at h
  by_cases hdisk : client.nodiskbuffers = false
  · rw [if_pos hdisk] at h
    obtain ⟨bs, hspoiled, hput⟩ := spoiled_of_not_takes (hw _ hr _ hdisk) h
    have hfile : (save client r w).2.files (client.filename r.contest
        (r.resultcode ≠ RESULT_WORKING)) = some bs := by
      rw [save_disk hdisk, hput]
      exact Buffers.files_close_self ..
    obtain ⟨bs', hfile', hspoiled'⟩ := spoiled_final hdisk rs hfile hspoiled
    have hread := hordered hdisk
    rw [hfile'] at hread
    have hmem : r ∈ (held client (final (save client) rs (save client r w).2) r.contest
        (decide (r.resultcode ≠ RESULT_WORKING)) : Multiset WorkRecord) := by
      rw [hheld]
      simp
    rw [held, if_pos hdisk, hfile'] at hmem
    exact hspoiled'.contest_ne hread (Multiset.mem_coe.mp hmem) rfl
  · rw [if_neg hdisk] at h
    have hlen := congrArg Multiset.card hheld
    have hle := length_final_le hdisk rs (save client r w).2 r.contest
      (decide (r.resultcode ≠ RESULT_WORKING))
    rw [save_mem hdisk, setMemBuff_self, buff_put, if_neg h] at hle
    simp only [held, if_neg hdisk, Multiset.coe_card, Multiset.card_add, List.length_reverse,
      List.length_cons, save_mem hdisk] at hlen hle
    omega

/-- **When a run of saves stores everything**: each record in turn is taken where it belongs. -/
theorem savesAll_iff (hclient : TellsApart client) {rs : List WorkRecord}
    (hrs : ∀ r ∈ rs, Supported r ∧ (client.nodiskbuffers = false → r.stored = r)) {w : Buffers}
    (hw : ∀ c < CONTEST_COUNT, ∀ d, Ordered client w c d) :
    SavesAll client rs w ↔ Guarded (save client) (FindsPlace client) rs w := by
  induction rs generalizing w with
  | nil =>
    refine iff_of_true (fun c hc d ↦ ⟨hw c hc d, ?_⟩) trivial
    rw [final, List.filter_nil, Multiset.coe_nil, add_zero]
  | cons r rs ih =>
    rw [List.forall_mem_cons] at hrs
    rw [Guarded]
    by_cases hfits : FindsPlace client r w
    · have hone := saves_one hclient hrs.1.1 hrs.1.2 hw hfits
      rw [and_iff_right hfits, ← ih hrs.2 fun c hc d ↦ (hone c hc d).1]
      refine forall_congr' fun c ↦ forall_congr' fun hc ↦ forall_congr' fun d ↦ ?_
      rw [(hone c hc d).2 rs, final]
    · exact iff_of_false (not_savesAll hrs.1.1.lt hw hfits rs) fun h ↦ hfits h.1

end Saves

/-! ## The search -/

/-- The number of records that a get reports as left: on disk those of the contest of the record
taken, in memory all of them. -/
def left (client : Client) (r : WorkRecord) (rs : List WorkRecord) : ℕ :=
  if client.nodiskbuffers = false then (rs.filter (·.contest = r.contest)).length else rs.length

/-- What a search of a buffer is after. -/
abbrev Wanted (contest : U32) (isOut : Bool) (r : WorkRecord) : Prop := Belongs r contest isOut

section Search

variable {client : Client} {contest : U32} {isOut : Bool} {t w : Buffers}

/-- The state after a get, compared with the one `t` in which there was none. -/
structure AfterGet (client : Client) (contest : U32) (isOut : Bool) (t w' : Buffers)
    (rs : List WorkRecord) : Prop where
  ordered : Ordered client w' contest isOut
  held : held client w' contest isOut = rs
  beside : Beside client contest isOut t w'
  mode : w'.mooOutputMode = t.mooOutputMode

private theorem getFrom_disk (hdisk : client.nodiskbuffers = false) :
    getFrom client contest isOut w =
      let filename := client.filename contest isOut
      let got := bufferGetFileRecord (healthy (w.files filename) w.mooOutputMode) true
        BUFFER_FLAGS_NONE
      (got.1, w.close filename got.2) := by
  rw [getFrom, if_pos hdisk]
  rfl

private theorem getFrom_mem (hmem : ¬client.nodiskbuffers = false) :
    getFrom client contest isOut w =
      let got := bufferGetMemRecord (w.membufftable contest isOut)
      (got.1, w.setMemBuff contest isOut got.2) := by
  rw [getFrom, if_neg hmem]

private theorem afterGet_close (hdisk : client.nodiskbuffers = false)
    (hbeside : Beside client contest isOut t w) {moo moo' : Bool}
    (hmoo : inMoo client w contest isOut = moo) (hle : moo' = true → moo = true)
    {file : Option (List U8)} {rs : List WorkRecord} (hfile : FileHolds moo' file rs) :
    AfterGet client contest isOut t
      (w.close (client.filename contest isOut) (healthy file (w.mooOutputMode || moo))) rs := by
  have hmode := hbeside.mode
  rw [hmoo] at hmode
  refine ⟨fun _ ↦ ?_, ?_, ⟨fun filename hne ↦ ?_, hbeside.mem, ?_⟩, hmode⟩
  · rw [Buffers.files_close_self]
    exact ⟨moo', rs, hfile⟩
  · rw [held, if_pos hdisk, Buffers.files_close_self, healthy_disk, hfile.heldIn]
  · exact (w.files_close_of_ne _ hne).trans (hbeside.files filename hne)
  · rw [inMoo, Buffers.files_close_self, healthy_disk, hfile.isMooFile, hdisk]
    rw [← hmode]
    show ((w.mooOutputMode || moo) || (true && moo')) = (w.mooOutputMode || moo)
    rcases moo' with _ | _
    · rw [Bool.and_false, Bool.or_false]
    · rw [hle rfl, Bool.or_true, Bool.true_or]

private theorem afterGet_setMemBuff (hmem : ¬client.nodiskbuffers = false)
    (hbeside : Beside client contest isOut t w) (m : MemBuff) :
    AfterGet client contest isOut t (w.setMemBuff contest isOut m) m.buff.reverse := by
  have hmoo (w : Buffers) : inMoo client w contest isOut = false := by
    rw [inMoo, (Bool.not_eq_false _).mp hmem]
    rfl
  have hmode := hbeside.mode
  rw [hmoo, Bool.or_false] at hmode
  refine ⟨fun h ↦ absurd h hmem, ?_, ⟨hbeside.files, fun c d hne ↦ ?_, ?_⟩, hmode⟩
  · rw [held, if_neg hmem, setMemBuff_self]
  · exact (setMemBuff_of_ne w hne m).trans (hbeside.mem c d hne)
  · rw [hmoo, Bool.or_false]
    exact hmode

/-- A get from a buffer that holds nothing. -/
theorem getFrom_nil (hw : Ordered client w contest isOut)
    (hheld : held client w contest isOut = []) (hbeside : Beside client contest isOut t w) :
    ∃ w', getFrom client contest isOut w = (⟨1, none, some 0⟩, w') ∧
      AfterGet client contest isOut t w' [] := by
  by_cases hdisk : client.nodiskbuffers = false
  · have hmoo : inMoo client w contest isOut
        = isMooFile ((w.files (client.filename contest isOut)).getD []) := by
      rw [inMoo, hdisk]
      rfl
    have hholds := (hw hdisk).holds
    rw [held, if_pos hdisk] at hheld
    rw [hheld] at hholds
    rw [getFrom_disk hdisk]
    simp only [hholds.get_nil]
    exact ⟨_, rfl, afterGet_close hdisk hbeside hmoo Bool.noConfusion (fileHolds_nil rfl)⟩
  · rw [held, if_neg hdisk, List.reverse_eq_nil_iff] at hheld
    rw [getFrom_mem hdisk, bufferGetMemRecord, hheld]
    refine ⟨_, rfl, ?_⟩
    have := afterGet_setMemBuff hdisk hbeside (w.membufftable contest isOut)
    rwa [hheld] at this

/-- **A get takes the first record of a buffer.** -/
theorem getFrom_cons {r : WorkRecord} {rs : List WorkRecord} (hw : Ordered client w contest isOut)
    (hheld : held client w contest isOut = r :: rs)
    (hbeside : Beside client contest isOut t w) :
    ∃ w', getFrom client contest isOut w
        = (⟨0, some (r.asRead (inMoo client w contest isOut)), some (left client r rs)⟩, w') ∧
      AfterGet client contest isOut t w' rs ∧
      inMoo client w' contest isOut = inMoo client w contest isOut := by
  by_cases hdisk : client.nodiskbuffers = false
  · have hmoo : inMoo client w contest isOut
        = isMooFile ((w.files (client.filename contest isOut)).getD []) := by
      rw [inMoo, hdisk]
      rfl
    have hholds := (hw hdisk).holds
    rw [held, if_pos hdisk] at hheld
    rw [hheld, ← hmoo] at hholds
    obtain ⟨file, hfile, hget⟩ := hholds.get_cons w.mooOutputMode
    rw [getFrom_disk hdisk, left, if_pos hdisk]
    simp only [hget]
    refine ⟨_, rfl, afterGet_close hdisk hbeside rfl id hfile, ?_⟩
    rw [inMoo, Buffers.files_close_self, healthy_disk, hfile.isMooFile, hdisk]
    rfl
  · rw [held, if_neg hdisk, List.reverse_eq_cons_iff] at hheld
    have hmoo (w : Buffers) : inMoo client w contest isOut = false := by
      rw [inMoo, (Bool.not_eq_false _).mp hdisk]
      rfl
    have hlast : (w.membufftable contest isOut).buff.getLast? = some r := by
      rw [hheld, List.getLast?_concat]
    have hdrop : (w.membufftable contest isOut).buff.dropLast.reverse = rs := by
      rw [hheld, List.dropLast_concat, List.reverse_reverse]
    have hlen : (w.membufftable contest isOut).buff.length - 1 = rs.length := by simp [hheld]
    refine ⟨w.setMemBuff contest isOut ⟨(w.membufftable contest isOut).buff.dropLast,
      (w.membufftable contest isOut).maxcount⟩, ?_, ?_, (hmoo _).trans (hmoo w).symm⟩
    · rw [getFrom_mem hdisk, bufferGetMemRecord, hlast, left, if_neg hdisk, hmoo w]
      simp only [hlen]
      rfl
    · rw [← hdrop]
      exact afterGet_setMemBuff hdisk hbeside _

/-- A save into another buffer keeps the comparison. -/
theorem Beside.save (hbeside : Beside client contest isOut t w) (hclient : TellsApart client)
    (hcontest : contest < CONTEST_COUNT) {r : WorkRecord} (hr : r.contest < CONTEST_COUNT)
    (h : ¬Belongs r contest isOut) (hmode : w.mooOutputMode = t.mooOutputMode) :
    Beside client contest isOut (save client r t).2 (save client r w).2 := by
  have hmoo := (save_elsewhere (w := w) hclient hr hcontest h).inMoo
  have hset := hbeside.mode
  rw [hmode] at hset
  by_cases hdisk : client.nodiskbuffers = false
  · have hname : client.filename r.contest (r.resultcode ≠ RESULT_WORKING)
        ≠ client.filename contest isOut := fun heq ↦
      h (belongs_iff.mpr (hclient.filename_inj hdisk hr hcontest heq))
    rw [save_disk hdisk] at hmoo
    rw [save_disk hdisk, save_disk hdisk, hmode, ← hbeside.files _ hname]
    rw [hmode] at hmoo
    refine ⟨fun filename hne ↦ ?_, hbeside.mem, ?_⟩
    · by_cases hsame : filename = client.filename r.contest (r.resultcode ≠ RESULT_WORKING)
      · rw [hsame, Buffers.files_close_self, Buffers.files_close_self]
      · rw [w.files_close_of_ne _ hsame, t.files_close_of_ne _ hsame, hbeside.files _ hne]
    · rw [hmoo]
      -- a Moo file has been seen by now, and the flag stays set
      rcases hin : inMoo client w contest isOut with _ | _
      · exact Bool.or_false _
      · rw [hin, Bool.or_true] at hset
        rw [Bool.or_true]
        exact (put_mode (s := healthy _ _) hset.symm r false BUFFER_FLAGS_NONE).symm
  · have hne : (r.contest, decide (r.resultcode ≠ RESULT_WORKING)) ≠ (contest, isOut) := fun heq ↦
      h (belongs_iff.mpr (Prod.mk.inj heq))
    rw [save_mem hdisk] at hmoo
    rw [save_mem hdisk, save_mem hdisk, ← hbeside.mem _ _ hne]
    refine ⟨hbeside.files, fun c d hcd ↦ ?_, ?_⟩
    · by_cases hsame : (c, d) = (r.contest, decide (r.resultcode ≠ RESULT_WORKING))
      · obtain ⟨rfl, rfl⟩ := Prod.mk.inj hsame
        rw [setMemBuff_self, setMemBuff_self]
      · rw [setMemBuff_of_ne w hsame, setMemBuff_of_ne t hsame, hbeside.mem c d hcd]
    · rw [hmoo]
      exact hmode.symm ▸ hset

variable (client) in
theorem left_map (moo : Bool) (r : WorkRecord) (rs : List WorkRecord) :
    left client (r.asRead moo) (rs.map (WorkRecord.asRead moo)) = left client r rs := by
  have hcontest (r : WorkRecord) : (r.asRead moo).contest = r.contest := by cases moo <;> rfl
  rw [left, left, List.filter_map, List.length_map, List.length_map]
  simp only [Function.comp_def, hcontest]

/-- A round of the search on a buffer that holds nothing. -/
theorem getRound_nil (hw : Ordered client w contest isOut)
    (hheld : held client w contest isOut = []) (hbeside : Beside client contest isOut t w) :
    ∃ w', getRound client contest isOut w = (.return (-1) none, w') ∧
      AfterGet client contest isOut t w' [] := by
  obtain ⟨w', hget, hafter⟩ := getFrom_nil hw hheld hbeside
  exact ⟨w', by simp only [getRound, hget], hafter⟩

/-- **A round of the search** returns the first record if it belongs here, and saves it
otherwise. -/
theorem getRound_cons {r : WorkRecord} {rs : List WorkRecord} (hr : Supported r) {moo : Bool}
    (hmoo : inMoo client w contest isOut = moo) (hw : Ordered client w contest isOut)
    (hheld : held client w contest isOut = r :: rs)
    (hbeside : Beside client contest isOut t w) :
    ∃ w', getRound client contest isOut w =
        (if Belongs (r.asRead moo) contest isOut then
          (.return (left client r rs) (some (r.asRead moo)), w')
        else (.continue (left client r rs), (save client (r.asRead moo) w').2)) ∧
      AfterGet client contest isOut t w' rs ∧ inMoo client w' contest isOut = moo := by
  obtain ⟨w', hget, hafter, hmoo'⟩ := getFrom_cons hw hheld hbeside
  rw [hmoo] at hget
  refine ⟨w', ?_, hafter, hmoo'.trans hmoo⟩
  have hasRead := hr.asRead moo
  simp only [getRound, hget, Option.getD_some, if_neg (not_not.mpr hasRead.lt),
    if_neg (not_not.mpr hasRead.state)]
  rfl

/-- How a search ends, in terms of the records `rs` in the buffer and of the state `t` before it. -/
structure SearchEnd (client : Client) (contest : U32) (isOut moo : Bool) (rs : List WorkRecord)
    (t : Buffers) (count : ℤ) (w' : Buffers) : Prop where
  count : count < 0 ↔
    found (Wanted contest isOut) (left client) (rs.map (WorkRecord.asRead moo)) = none
  ordered : Ordered client w' contest isOut
  taken : ∃ taken, rs = taken ++ held client w' contest isOut ∧
    taken.map (WorkRecord.asRead moo)
      = discarded (Wanted contest isOut) (left client) (rs.map (WorkRecord.asRead moo)) ++
        (found (Wanted contest isOut) (left client) (rs.map (WorkRecord.asRead moo))).toList
  beside : Beside client contest isOut (final (save client)
    (discarded (Wanted contest isOut) (left client) (rs.map (WorkRecord.asRead moo))) t) w'

/-- **What the search does**, whatever the buffers hold: it drains the buffer, and saves what it
discards. -/
theorem getLoop_drain (hclient : TellsApart client) (hcontest : contest < CONTEST_COUNT)
    {rs : List WorkRecord} (hrs : ∀ r ∈ rs, Supported r) {moo : Bool}
    (hmoo : inMoo client w contest isOut = moo) (hw : Ordered client w contest isOut)
    (hheld : held client w contest isOut = rs) (hbeside : Beside client contest isOut t w) :
    ∃ count w', SearchEnd client contest isOut moo rs t count w' ∧ ∀ fuel > rs.length,
      getLoop client contest isOut false fuel [] w = (some (count,
        found (Wanted contest isOut) (left client) (rs.map (WorkRecord.asRead moo))), w') := by
  induction rs generalizing t w with
  | nil =>
    obtain ⟨w', hround, hafter⟩ := getRound_nil hw hheld hbeside
    refine ⟨-1, w', ⟨by simp [found], hafter.ordered, ⟨[], by rw [hafter.held]; rfl, rfl⟩,
      hafter.beside⟩, fun fuel hfuel ↦ ?_⟩
    obtain ⟨fuel, rfl⟩ : ∃ k, fuel = k + 1 := ⟨fuel - 1, by omega⟩
    simp only [getLoop, hround]
    rfl
  | cons r rs ih =>
    rw [List.forall_mem_cons] at hrs
    obtain ⟨w₁, hround, hafter, hmoo₁⟩ := getRound_cons hrs.1 hmoo hw hheld hbeside
    rw [List.map_cons]
    by_cases hwant : Wanted contest isOut (r.asRead moo)
    · -- the record is returned
      rw [if_pos hwant] at hround
      refine ⟨left client r rs, w₁, ⟨?_, hafter.ordered, ⟨[r], ?_, ?_⟩, ?_⟩, fun fuel hfuel ↦ ?_⟩
      · rw [List.map_cons, found_of_want _ hwant]
        exact iff_of_false (by omega) (by simp)
      · rw [hafter.held]
        rfl
      · rw [List.map_cons, List.map_cons, discarded_of_want _ hwant, found_of_want _ hwant]
        rfl
      · rw [List.map_cons, discarded_of_want _ hwant]
        exact hafter.beside
      · obtain ⟨fuel, rfl⟩ : ∃ k, fuel = k + 1 := ⟨fuel - 1, by omega⟩
        simp only [getLoop, hround, found_of_want _ hwant]
    · rw [if_neg hwant] at hround
      have hlt := (hrs.1.asRead moo).lt
      have hsame := save_elsewhere (w := w₁) hclient hlt hcontest hwant
      have hsaved := hafter.beside.save hclient hcontest hlt hwant hafter.mode
      by_cases hzero : left client r rs = 0
      · -- the search gives up
        have hzero' := (left_map client moo r rs).trans hzero
        refine ⟨-1, _, ⟨?_, hsame.ordered.mpr hafter.ordered, ⟨[r], ?_, ?_⟩, ?_⟩,
          fun fuel hfuel ↦ ?_⟩
        · rw [List.map_cons, found_of_none_left hwant hzero']
          exact iff_of_true (by decide) rfl
        · rw [hsame.held, hafter.held]
          rfl
        · rw [List.map_cons, List.map_cons, discarded_of_none_left hwant hzero',
            found_of_none_left hwant hzero']
          rfl
        · rw [List.map_cons, discarded_of_none_left hwant hzero']
          exact hsaved
        · obtain ⟨fuel, rfl⟩ : ∃ k, fuel = k + 1 := ⟨fuel - 1, by omega⟩
          simp only [getLoop, hround, found_of_none_left hwant hzero', hzero]
          rfl
      · -- the search goes on
        have hzero' := mt (left_map client moo r rs).symm.trans hzero
        obtain ⟨count, w', hend, hloop⟩ := ih hrs.2 (hsame.inMoo.trans hmoo₁)
          (hsame.ordered.mpr hafter.ordered) (hsame.held.trans hafter.held) hsaved
        obtain ⟨taken, hsplit, htaken⟩ := hend.taken
        refine ⟨count, w', ⟨?_, hend.ordered, ⟨r :: taken, ?_, ?_⟩, ?_⟩, fun fuel hfuel ↦ ?_⟩
        · rw [List.map_cons, found_of_left hwant hzero']
          exact hend.count
        · exact congrArg (r :: ·) hsplit
        · rw [List.map_cons, List.map_cons, discarded_of_left hwant hzero',
            found_of_left hwant hzero', htaken]
          rfl
        · rw [List.map_cons, discarded_of_left hwant hzero']
          exact hend.beside
        · obtain ⟨fuel, rfl⟩ : ∃ k, fuel = k + 1 := ⟨fuel - 1, by omega⟩
          rw [List.length_cons] at hfuel
          simp only [getLoop, hround, found_of_left hwant hzero', hzero, List.headD_nil,
            Bool.false_eq_true, and_false, if_false, List.tail_nil]
          exact hloop fuel (by omega)

end Search

end Hyunjin
