import Hyunjin.Buffer.Sorting

/-!
# When a search sorts a buffer

A search should return a record if the buffer holds one of those asked for, and every other record
that it takes out should end up where it belongs. `sorts_iff` gives the conditions: no record of
another contest that is the last of its kind stands before the first record asked for, what is
taken out of a Moo file is stored there as work in progress, and the buffers that get something take
it. In memory only the last can fail.

Which records are lost otherwise is a matter of counting. What is taken out of a Moo file with a
result cannot be found in any output buffer afterwards, since it was saved as work in progress.
-/

namespace Hyunjin

open Word Stdio Slots Run Drain

/-! ## What a search should do -/

/-- A search ended as it should. It failed only if the buffer holds no record that belongs there,
and each record that it took out on the way is in the buffer where that belongs. -/
structure Sorted (client : Client) (contest : U32) (isOut : Bool) (w : Buffers) (count : ℤ)
    (data : Option WorkRecord) (w' : Buffers) : Prop where
  found : 0 ≤ count → ∃ r, data = some r ∧ Belongs r contest isOut
  failed : count < 0 → data = none ∧ ∀ r ∈ held client w contest isOut, ¬Belongs r contest isOut
  moved : ∃ moved : Multiset WorkRecord, (∀ r ∈ moved, ¬Belongs r contest isOut) ∧
    (held client w contest isOut : Multiset WorkRecord)
      = moved + (data.toList : Multiset WorkRecord) + held client w' contest isOut ∧
    ∀ c < CONTEST_COUNT, ∀ d, (c, d) ≠ (contest, isOut) →
      (held client w' c d : Multiset WorkRecord)
        = held client w c d + moved.filter (Belongs · c d)
  ordered : ∀ c < CONTEST_COUNT, ∀ d, Ordered client w' c d

/-- The search ends, and as it should. -/
def Sorts (client : Client) (contest : U32) (isOut : Bool) (w : Buffers) : Prop :=
  ∃ n count data w', Sorted client contest isOut w count data w' ∧
    ∀ fuel ≥ n, getBufferRecord client contest isOut fuel [] w = (some (count, data), w')

/-! ## What it takes -/

/-- The records of a buffer as gets make them. -/
def reads (client : Client) (w : Buffers) (contest : U32) (isOut : Bool) : List WorkRecord :=
  (held client w contest isOut).map (WorkRecord.asRead (inMoo client w contest isOut))

/-- The state once the buffer has been seen to be a Moo file, if it is one. -/
def seen (client : Client) (w : Buffers) (contest : U32) (isOut : Bool) : Buffers :=
  { w with mooOutputMode := w.mooOutputMode || inMoo client w contest isOut }

/-- What a search takes out of a Moo file, the first record or all of them, is stored as work in
progress. -/
def GivesWork (client : Client) (contest : U32) (isOut : Bool) (w : Buffers) : Prop :=
  inMoo client w contest isOut = true →
    ∀ r ∈ if contest = RC5_72 ∧ isOut = false then (held client w contest isOut).take 1
      else held client w contest isOut, r.resultcode = RESULT_WORKING

/-- The conditions under which a search ends as it should. -/
structure Sortable (client : Client) (contest : U32) (isOut : Bool) (w : Buffers) : Prop where
  /-- On disk, behind the first record that is wanted there is one of every other contest that
  occurs in front of it. -/
  covered : client.nodiskbuffers = false → Covered (Wanted contest isOut) WorkRecord.contest contest
    (held client w contest isOut)
  givesWork : GivesWork client contest isOut w
  /-- Each record that is taken out and is not wanted is taken where it belongs. -/
  fits : Guarded (save client) (FindsPlace client)
    (discarded (Wanted contest isOut) (left client) (reads client w contest isOut))
    (seen client w contest isOut)

section Sorts

variable {client : Client} {contest : U32} {isOut : Bool} {w : Buffers}

private theorem reads_cons {r : WorkRecord} {rs : List WorkRecord}
    (h : held client w contest isOut = r :: rs) :
    reads client w contest isOut = r.asRead (inMoo client w contest isOut) ::
      rs.map (WorkRecord.asRead (inMoo client w contest isOut)) := by
  rw [reads, h, List.map_cons]

private theorem beside_seen :
    Beside client contest isOut (seen client w contest isOut) w :=
  ⟨fun _ _ ↦ rfl, fun _ _ _ ↦ rfl, rfl⟩

variable (client contest isOut w) in
private theorem sameAt_seen (c : U32) (d : Bool) :
    SameAt client c d w (seen client w contest isOut) := ⟨rfl, rfl⟩

/-- Saves leave a buffer alone where none of the records belongs. -/
private theorem sameAt_final (hclient : TellsApart client) {c : U32} (hc : c < CONTEST_COUNT)
    {d : Bool} {rs : List WorkRecord} (hrs : ∀ r ∈ rs, r.contest < CONTEST_COUNT ∧ ¬Belongs r c d)
    (t : Buffers) : SameAt client c d t (final (save client) rs t) := by
  induction rs generalizing t with
  | nil => exact ⟨rfl, rfl⟩
  | cons r rs ih =>
    rw [List.forall_mem_cons] at hrs
    have hone := save_elsewhere (w := t) hclient hrs.1.1 hc hrs.1.2
    have hrest := ih hrs.2 (save client r t).2
    exact ⟨hrest.file.trans hone.file, hrest.mem.trans hone.mem⟩

/-- The other buffers after a search are what the saves made of them. -/
private theorem held_beside (hclient : TellsApart client) (hcontest : contest < CONTEST_COUNT)
    {t w' : Buffers} (h : Beside client contest isOut t w') {c : U32} (hc : c < CONTEST_COUNT)
    {d : Bool} (hne : (c, d) ≠ (contest, isOut)) :
    held client w' c d = held client t c d ∧ (Ordered client w' c d ↔ Ordered client t c d) := by
  by_cases hdisk : client.nodiskbuffers = false
  · have hname : client.filename c d ≠ client.filename contest isOut := by
      intro heq
      obtain ⟨rfl, rfl⟩ := hclient.filename_inj hdisk hc hcontest heq
      exact hne rfl
    have hsame : SameAt client c d t w' := ⟨h.files _ hname, h.mem c d hne⟩
    exact ⟨hsame.held, hsame.ordered⟩
  · refine ⟨by rw [held, held, if_neg hdisk, if_neg hdisk, h.mem c d hne], ?_⟩
    exact iff_of_true (fun hd ↦ absurd hd hdisk) fun hd ↦ absurd hd hdisk

variable (hclient : TellsApart client) (hcontest : contest < CONTEST_COUNT)
  (hordered : ∀ c < CONTEST_COUNT, ∀ d, Ordered client w c d)
  (hsupported : ∀ r ∈ held client w contest isOut, Supported r)

include hclient hcontest hordered hsupported

/-- How the search of this buffer ends. -/
private theorem exists_searchEnd : ∃ count w',
    SearchEnd client contest isOut (inMoo client w contest isOut) (held client w contest isOut)
      (seen client w contest isOut) count w' ∧
    (Sorts client contest isOut w ↔ Sorted client contest isOut w count
      (found (Wanted contest isOut) (left client) (reads client w contest isOut)) w') := by
  obtain ⟨count, w', hend, hloop⟩ := getLoop_drain hclient hcontest hsupported rfl
    (hordered contest hcontest isOut) rfl beside_seen
  have hrun (fuel : ℕ) (hfuel : fuel ≥ (held client w contest isOut).length + 1) :
      getBufferRecord client contest isOut fuel [] w = (some (count,
        found (Wanted contest isOut) (left client) (reads client w contest isOut)), w') := by
    rw [getBufferRecord, if_neg (by rw [hclient.limits]; decide), if_neg (not_not.mpr hcontest)]
    exact hloop fuel hfuel
  refine ⟨count, w', hend, ?_, fun hsorted ↦ ⟨_, count, _, w', hsorted, hrun⟩⟩
  rintro ⟨n, count₁, data₁, w₁, hsorted, hrun₁⟩
  have hboth := (hrun₁ (n + (held client w contest isOut).length + 1) (by omega)).symm.trans
    (hrun _ (by omega))
  obtain ⟨hout, rfl⟩ := Prod.mk.inj hboth
  obtain ⟨rfl, rfl⟩ := Prod.mk.inj (Option.some.inj hout)
  exact hsorted

omit hclient in
/-- The records that are discarded go to other buffers, and are stored there as they are. -/
private theorem discarded_storable :
    ∀ r ∈ discarded (Wanted contest isOut) (left client) (reads client w contest isOut),
      Supported r ∧ (client.nodiskbuffers = false → r.stored = r) := by
  intro r hr
  have hmem : r ∈ reads client w contest isOut := by
    rw [← discarded_append (Wanted contest isOut) (left client) (reads client w contest isOut)]
    exact List.mem_append_left _ (List.mem_append_left _ hr)
  obtain ⟨x, hx, rfl⟩ := List.mem_map.mp hmem
  refine ⟨(hsupported x hx).asRead _, fun hdisk ↦ ?_⟩
  have hholds := (hordered contest hcontest isOut hdisk).holds
  rw [held, if_pos hdisk] at hx
  rw [inMoo, hdisk]
  exact hholds.stored_eq hx

/-- **The records that are discarded are all stored** exactly if each in turn is taken. -/
private theorem stored_iff_fits {w' : Buffers} (hbeside : Beside client contest isOut
    (final (save client) (discarded (Wanted contest isOut) (left client)
      (reads client w contest isOut)) (seen client w contest isOut)) w') :
    (∀ c < CONTEST_COUNT, ∀ d, (c, d) ≠ (contest, isOut) → Ordered client w' c d ∧
      (held client w' c d : Multiset WorkRecord) = held client w c d +
        ((discarded (Wanted contest isOut) (left client) (reads client w contest isOut)).filter
          (Belongs · c d) : Multiset WorkRecord)) ↔
    Guarded (save client) (FindsPlace client) (discarded (Wanted contest isOut) (left client)
      (reads client w contest isOut)) (seen client w contest isOut) := by
  have hstorable := discarded_storable hcontest hordered hsupported
  have hseen := sameAt_seen client contest isOut w
  rw [← savesAll_iff hclient hstorable fun c hc d ↦ (hseen c d).ordered.mpr (hordered c hc d)]
  refine forall_congr' fun c ↦ forall_congr' fun hc ↦ forall_congr' fun d ↦ ?_
  rw [(hseen c d).held]
  by_cases hne : (c, d) = (contest, isOut)
  · -- nothing that is discarded belongs into the buffer itself
    obtain ⟨rfl, rfl⟩ := Prod.mk.inj hne
    have hnot : ∀ r ∈ discarded (Wanted c d) (left client) (reads client w c d),
        ¬Wanted c d r := fun r hr ↦ not_want_of_discarded hr
    have hsame := sameAt_final hclient hc (fun r hr ↦ ⟨(hstorable r hr).1.lt, hnot r hr⟩)
      (seen client w c d)
    refine iff_of_true (fun h ↦ absurd rfl h) ⟨hsame.ordered.mpr ((hseen c d).ordered.mpr
      (hordered c hc d)), ?_⟩
    rw [hsame.held, (hseen c d).held,
      List.filter_eq_nil_iff.mpr fun r hr ↦ by simpa using hnot r hr, Multiset.coe_nil, add_zero]
  · obtain ⟨hheld, hiff⟩ := held_beside hclient hcontest hbeside hc hne
    rw [hheld, hiff]
    exact ⟨fun h ↦ h hne, fun h _ ↦ h⟩

/-! ## Moo files -/

section Moo

omit hclient hcontest hordered hsupported

variable (hmoo : inMoo client w contest isOut = true)

include hmoo

private theorem contest_of_inMoo {r : WorkRecord} (hr : r ∈ held client w contest isOut) :
    r.contest = RC5_72 := by
  rw [inMoo, Bool.and_eq_true, Bool.not_eq_true'] at hmoo
  rw [held, if_pos hmoo.1] at hr
  exact contest_of_heldIn hmoo.2 hr

private theorem disk_of_inMoo : client.nodiskbuffers = false := by
  rw [inMoo, Bool.and_eq_true, Bool.not_eq_true'] at hmoo
  exact hmoo.1

/-- Every record of a Moo file is read as RC5-72 work in progress. -/
private theorem belongs_reads {r : WorkRecord} (hr : r ∈ reads client w contest isOut) {c : U32}
    {d : Bool} : Belongs r c d ↔ c = RC5_72 ∧ d = false := by
  obtain ⟨x, hx, rfl⟩ := List.mem_map.mp hr
  have hrc5 : x.contest = RC5_72 := contest_of_inMoo hmoo hx
  have hcontest : (x.asRead true).contest = RC5_72 := hrc5
  have hstate : (x.asRead true).resultcode = RESULT_WORKING := rfl
  rw [hmoo, belongs_iff, hcontest, hstate]
  exact and_congr eq_comm (by simp [eq_comm])

/-- A search of a Moo file for something it does not hold empties it. -/
private theorem discarded_reads (h : ¬(contest = RC5_72 ∧ isOut = false)) :
    discarded (Wanted contest isOut) (left client) (reads client w contest isOut)
      = reads client w contest isOut := by
  refine discarded_eq_self (fun r hr hwant ↦ h ((belongs_reads hmoo hr).mp hwant)) ?_
  intro r hr rs hrs hzero
  have hrc5 {x : WorkRecord} (hx : x ∈ reads client w contest isOut) : x.contest = RC5_72 :=
    ((belongs_reads hmoo hx).mpr ⟨rfl, rfl⟩).1
  rw [left, if_pos (disk_of_inMoo hmoo), List.length_eq_zero_iff, List.filter_eq_nil_iff] at hzero
  refine List.eq_nil_iff_forall_not_mem.mpr fun x hx ↦ hzero x hx ?_
  exact decide_eq_true ((hrc5 (hrs hx)).trans (hrc5 hr).symm)

private theorem covered_of_inMoo :
    Covered (Wanted contest isOut) WorkRecord.contest contest (held client w contest isOut) := by
  intro front a back has ha _ b hb
  left
  have hmem (x : WorkRecord) (hx : x ∈ front ++ a :: back) : x.contest = RC5_72 :=
    contest_of_inMoo hmoo (has ▸ hx)
  rw [hmem b (List.mem_append_left _ hb), ← hmem a (by simp)]
  exact ha.1

end Moo

/-! ## The conditions -/

omit hclient hcontest hordered hsupported in
/-- The search gives up only if nothing is wanted exactly if the buffer is covered. -/
private theorem complete_iff (hmoo : inMoo client w contest isOut = false) :
    Complete (Wanted contest isOut) (left client) (reads client w contest isOut) ↔
      (client.nodiskbuffers = false → Covered (Wanted contest isOut) WorkRecord.contest contest
        (held client w contest isOut)) := by
  have hreads : reads client w contest isOut = held client w contest isOut := by
    rw [reads, hmoo]
    exact List.map_id _
  rw [hreads]
  by_cases hdisk : client.nodiskbuffers = false
  · rw [forall_prop_of_true hdisk]
    refine complete_iff_covered (fun r hr ↦ hr.1) (fun r rs ↦ ?_) _
    rw [left, if_pos hdisk, List.length_eq_zero_iff, List.filter_eq_nil_iff]
    simp
  · refine iff_of_true (complete_of_told (fun r rs hzero ↦ ?_) _) fun h ↦ absurd h hdisk
    rwa [left, if_neg hdisk, List.length_eq_zero_iff] at hzero

omit hclient hcontest hordered hsupported in
/-- What is taken out is read as it is stored. -/
private theorem asRead_taken (hwork : GivesWork client contest isOut w)
    {taken rest : List WorkRecord} (hsplit : held client w contest isOut = taken ++ rest)
    (htaken : taken.map (WorkRecord.asRead (inMoo client w contest isOut))
      = discarded (Wanted contest isOut) (left client) (reads client w contest isOut) ++
        (found (Wanted contest isOut) (left client) (reads client w contest isOut)).toList) :
    taken = discarded (Wanted contest isOut) (left client) (reads client w contest isOut) ++
      (found (Wanted contest isOut) (left client) (reads client w contest isOut)).toList := by
  rw [← htaken]
  rcases hmoo : inMoo client w contest isOut with _ | _
  · exact (List.map_id _).symm
  · have hstate : ∀ r ∈ taken, r.resultcode = RESULT_WORKING := by
      have hwork := hwork hmoo
      split_ifs at hwork with hin
      · -- the first record is wanted, so no other is taken out
        have hnone : discarded (Wanted contest isOut) (left client) (reads client w contest isOut)
            = [] := by
          rcases hreads : reads client w contest isOut with _ | ⟨r, rs⟩
          · rfl
          · have hr : r ∈ reads client w contest isOut := by rw [hreads]; exact List.mem_cons_self
            have hwant : Wanted contest isOut r := (belongs_reads hmoo hr).mpr hin
            exact discarded_of_want _ hwant
        have hlen : taken.length ≤ 1 := by
          have := congrArg List.length htaken
          rw [hnone, List.nil_append, List.length_map] at this
          rw [this]
          rcases found (Wanted contest isOut) (left client) (reads client w contest isOut)
            with _ | _ <;> simp
        rcases taken with _ | ⟨r, _ | ⟨x, taken⟩⟩
        · exact fun r hr ↦ absurd hr List.not_mem_nil
        · rw [hsplit] at hwork
          simpa using hwork
        · exact absurd hlen (by simp)
      · exact fun r hr ↦ hwork r (hsplit ▸ List.mem_append_left _ hr)
    refine (List.map_id _).symm.trans (List.map_congr_left fun r hr ↦ ?_)
    exact congrArg (fun code ↦ { r with resultcode := code }) (hstate r hr)

/-- A finished record in a Moo file is missed afterwards, if it is taken out. -/
private theorem givesWork_of_sorted {count : ℤ} {w' : Buffers}
    (hend : SearchEnd client contest isOut (inMoo client w contest isOut)
      (held client w contest isOut) (seen client w contest isOut) count w')
    (h : Sorted client contest isOut w count
      (found (Wanted contest isOut) (left client) (reads client w contest isOut)) w') :
    GivesWork client contest isOut w := by
  intro hmoo
  obtain ⟨taken, hsplit, (htaken : _ = discarded (Wanted contest isOut) (left client)
    (reads client w contest isOut) ++ (found (Wanted contest isOut) (left client)
      (reads client w contest isOut)).toList)⟩ := hend.taken
  obtain ⟨moved, hnot, hheld, hothers⟩ := h.moved
  split_ifs with hin
  · rcases hrs : held client w contest isOut with _ | ⟨r, rs⟩
    · exact fun r hr ↦ absurd hr List.not_mem_nil
    · -- only the first record is taken out, so it is the one that is returned
      have hreads := reads_cons hrs
      have hwant : Wanted contest isOut (r.asRead (inMoo client w contest isOut)) :=
        (belongs_reads hmoo (by rw [hreads]; exact List.mem_cons_self)).mpr hin
      rw [hreads, discarded_of_want _ hwant, found_of_want _ hwant] at htaken
      rw [hreads, found_of_want _ hwant] at hheld
      obtain ⟨x, rfl⟩ : ∃ x, taken = [x] := by
        have hlen := congrArg List.length htaken
        rw [List.length_map] at hlen
        exact List.length_eq_one_iff.mp hlen
      rw [hsplit, ← Multiset.coe_add] at hheld
      have hone := add_right_cancel hheld
      have hzero : moved = 0 := by
        have hlen := congrArg Multiset.card hone
        rw [Multiset.card_add, Multiset.coe_card, Multiset.coe_card] at hlen
        exact Multiset.card_eq_zero.mp (by simpa using hlen)
      rw [hzero, zero_add] at hone
      have hx : x = r.asRead (inMoo client w contest isOut) := by simpa using hone
      have hr : r = x := (List.cons.inj (hrs.symm.trans hsplit)).1
      rw [List.take_succ_cons, List.take_zero]
      refine List.forall_mem_singleton.mpr ?_
      rw [hr, hx, hmoo]
      rfl
  · -- all records are taken out and saved as work in progress
    have hdiscarded := discarded_reads hmoo hin
    have hempty := discarded_append (Wanted contest isOut) (left client)
      (reads client w contest isOut)
    rw [hdiscarded, List.append_assoc, List.append_right_eq_self, List.append_eq_nil_iff] at hempty
    rw [hdiscarded, hempty.1, List.append_nil] at htaken
    have hnil : held client w' contest isOut = [] := by
      have hlen := congrArg List.length htaken
      rw [List.length_map, reads, List.length_map] at hlen
      have hcard := congrArg List.length hsplit
      rw [List.length_append] at hcard
      exact List.length_eq_zero_iff.mp (by omega)
    rw [hempty.1, hnil, Multiset.coe_nil, add_zero, add_zero] at hheld
    intro r hr
    by_contra hcode
    have hmem : r ∈ moved := by rw [← hheld]; exact Multiset.mem_coe.mpr hr
    have hbelongs : Belongs r RC5_72 true :=
      belongs_iff.mpr ⟨contest_of_inMoo hmoo hr, decide_eq_true hcode⟩
    by_cases hsource : ((RC5_72, true) : U32 × Bool) = (contest, isOut)
    · obtain ⟨rfl, rfl⟩ := Prod.mk.inj hsource
      exact hnot r hmem hbelongs
    · have hlt : RC5_72 < CONTEST_COUNT := by decide
      have hstorable := discarded_storable hcontest hordered hsupported
      rw [hdiscarded] at hstorable
      have hbeside : Beside client contest isOut (final (save client)
          (reads client w contest isOut) (seen client w contest isOut)) w' := by
        rw [← hdiscarded]
        exact hend.beside
      have hsame := sameAt_final hclient hlt (d := true) (fun x hx ↦ ⟨(hstorable x hx).1.lt,
        fun hb ↦ Bool.noConfusion ((belongs_reads hmoo hx).mp hb).2⟩)
        (seen client w contest isOut)
      have hkept := hothers RC5_72 hlt true hsource
      rw [(held_beside hclient hcontest hbeside hlt hsource).1, hsame.held,
        (sameAt_seen client contest isOut w RC5_72 true).held] at hkept
      have hfilter : moved.filter (Belongs · RC5_72 true) = 0 := by simpa using hkept
      exact absurd hbelongs (Multiset.filter_eq_nil.mp hfilter r hmem)

omit hclient hcontest hordered hsupported in
/-- Under the conditions, a search that finds nothing leaves nothing that belongs. -/
private theorem none_belongs (h : Sortable client contest isOut w)
    (hnone : found (Wanted contest isOut) (left client) (reads client w contest isOut) = none) :
    ∀ r ∈ held client w contest isOut, ¬Belongs r contest isOut := by
  rcases hmoo : inMoo client w contest isOut with _ | _
  · intro r hr
    have hread : r ∈ reads client w contest isOut := by
      rw [reads, hmoo]
      exact List.mem_map_of_mem hr
    exact (complete_iff hmoo).mpr h.covered hnone r hread
  · intro r hr hbelongs
    have hwork := h.givesWork hmoo
    split_ifs at hwork with hin
    · rcases hrs : held client w contest isOut with _ | ⟨x, xs⟩
      · rw [hrs] at hr
        exact absurd hr List.not_mem_nil
      · have hwant : Wanted contest isOut (x.asRead (inMoo client w contest isOut)) :=
          (belongs_reads hmoo (by rw [reads_cons hrs]; exact List.mem_cons_self)).mpr hin
        rw [reads_cons hrs, found_of_want _ hwant] at hnone
        exact nomatch hnone
    · refine hin ⟨hbelongs.1.symm.trans (contest_of_inMoo hmoo hr), ?_⟩
      rw [← (belongs_iff.mp hbelongs).2]
      exact decide_eq_false (not_not.mpr (hwork r hr))

/-- **When a search ends as it should.** -/
theorem sorts_iff_sortable : Sorts client contest isOut w ↔ Sortable client contest isOut w := by
  obtain ⟨count, w', hend, hsorts⟩ := exists_searchEnd hclient hcontest hordered hsupported
  have hfits := stored_iff_fits hclient hcontest hordered hsupported hend.beside
  obtain ⟨taken, hsplit, htaken⟩ := hend.taken
  rw [hsorts]
  constructor
  · intro hsorted
    have hwork := givesWork_of_sorted hclient hcontest hordered hsupported hend hsorted
    obtain ⟨moved, hnot, hheld, hothers⟩ := hsorted.moved
    have hmoved : moved = (discarded (Wanted contest isOut) (left client)
        (reads client w contest isOut) : Multiset WorkRecord) := by
      rw [hsplit, asRead_taken hwork hsplit htaken, ← Multiset.coe_add, ← Multiset.coe_add]
        at hheld
      exact (add_right_cancel (add_right_cancel hheld)).symm
    refine ⟨?_, hwork, hfits.mp fun c hc d hne ↦ ⟨hsorted.ordered c hc d, ?_⟩⟩
    · rcases hmoo : inMoo client w contest isOut with _ | _
      · refine (complete_iff hmoo).mp fun hnone r hr ↦ ?_
        obtain ⟨x, hx, rfl⟩ := List.mem_map.mp hr
        rw [hmoo]
        exact (hsorted.failed (hend.count.mpr hnone)).2 x hx
      · exact fun _ ↦ covered_of_inMoo hmoo
    · rw [hothers c hc d hne, hmoved, Multiset.filter_coe]
  · intro h
    have hall := hfits.mpr h.fits
    have htaken' := asRead_taken h.givesWork hsplit htaken
    refine ⟨fun hcount ↦ ?_, fun hcount ↦ ?_, ⟨(discarded (Wanted contest isOut) (left client)
      (reads client w contest isOut) : Multiset WorkRecord), fun r hr ↦ ?_, ?_,
      fun c hc d hne ↦ ?_⟩, fun c hc d ↦ ?_⟩
    · rcases hfound : found (Wanted contest isOut) (left client) (reads client w contest isOut)
        with _ | r
      · exact absurd (hend.count.mpr hfound) (not_lt.mpr hcount)
      · have hwant : Wanted contest isOut r := want_of_found hfound
        exact ⟨r, rfl, hwant⟩
    · exact ⟨hend.count.mp hcount, none_belongs h (hend.count.mp hcount)⟩
    · have hnot : ¬Wanted contest isOut r := not_want_of_discarded (Multiset.mem_coe.mp hr)
      exact hnot
    · conv_lhs => rw [hsplit, htaken', ← Multiset.coe_add, ← Multiset.coe_add]
    · rw [(hall c hc d hne).2, Multiset.filter_coe]
    · by_cases hne : (c, d) = (contest, isOut)
      · obtain ⟨rfl, rfl⟩ := Prod.mk.inj hne
        exact hend.ordered
      · exact (hall c hc d hne).1

end Sorts

/-- **When a search of a buffer ends as it should.** A contest that is out of range is refused at
once, and no buffer holds a record of it. -/
theorem sorts_iff {client : Client} (hclient : TellsApart client) (contest : U32) (isOut : Bool)
    {w : Buffers} (hordered : ∀ c < CONTEST_COUNT, ∀ d, Ordered client w c d)
    (hsupported : ∀ r ∈ held client w contest isOut, Supported r) :
    Sorts client contest isOut w ↔
      (contest < CONTEST_COUNT → Sortable client contest isOut w) := by
  by_cases hcontest : contest < CONTEST_COUNT
  · rw [forall_prop_of_true hcontest]
    exact sorts_iff_sortable hclient hcontest hordered hsupported
  · refine iff_of_true ⟨0, -1, none, w, ⟨fun h ↦ absurd h (by decide), fun _ ↦ ⟨rfl, ?_⟩,
      ⟨0, fun r hr ↦ absurd hr (Multiset.notMem_zero r), ?_, fun c _ d _ ↦ ?_⟩, hordered⟩,
      fun fuel _ ↦ ?_⟩ fun h ↦ absurd h hcontest
    · intro r hr hbelongs
      exact hcontest (hbelongs.1 ▸ (hsupported r hr).lt)
    · rw [Option.toList_none, Multiset.coe_nil, zero_add, zero_add]
    · rw [Multiset.filter_zero, add_zero]
    · rw [getBufferRecord, if_neg (by rw [hclient.limits]; decide), if_pos hcontest]

/-! ## Two buffers -/

/-- An OGR-NG work unit in progress, with nothing but the contest filled in. -/
def ogrRecord : WorkRecord := { emptyRecord with contest := OGR_NG }

/-- The state in which the only file is the RC5-72 input buffer with the given records. -/
def inBuffer (rs : List WorkRecord) : Buffers where
  files := Function.update (fun _ ↦ none) (defaultClient.filename RC5_72 false)
    (some (joined (rs.map stockPackRecord)))
  mooOutputMode := false
  membufftable _ _ := ⟨[], 0⟩

private theorem files_inBuffer_self (rs : List WorkRecord) :
    (inBuffer rs).files (defaultClient.filename RC5_72 false)
      = some (joined (rs.map stockPackRecord)) := by
  simp only [inBuffer, Function.update_self]

private theorem files_inBuffer_of_ne (rs : List WorkRecord) {filename : Filename}
    (h : filename ≠ defaultClient.filename RC5_72 false) : (inBuffer rs).files filename = none := by
  simp only [inBuffer, Function.update_of_ne h]

private theorem tellsApart_default : TellsApart defaultClient :=
  ⟨by decide +kernel, fun _ ↦ by decide +kernel⟩

private theorem disk_default : defaultClient.nodiskbuffers = false := rfl

private theorem storable_empty : Supported emptyRecord ∧ emptyRecord.stored = emptyRecord :=
  ⟨⟨Or.inl rfl, Or.inl rfl, by decide +kernel⟩, by decide +kernel⟩

private theorem storable_ogr : Supported ogrRecord ∧ ogrRecord.stored = ogrRecord :=
  ⟨⟨Or.inr rfl, Or.inl rfl, by decide +kernel⟩, by decide +kernel⟩

section InBuffer

variable {rs : List WorkRecord} (hrs : ∀ r ∈ rs, Supported r ∧ r.stored = r)

include hrs

private theorem holds_inBuffer :
    FileHolds false ((inBuffer rs).files (defaultClient.filename RC5_72 false)) rs := by
  have hstock : isMooFile (joined (rs.map stockPackRecord)) = false := by
    rcases rs with _ | ⟨r, rs⟩
    · rfl
    · rw [List.map_cons, isMooFile_joined_cons]
      exact (hrs r List.mem_cons_self).1.image
  have hfull : full blankBody (rs.map stockPackRecord) = rs.map stockPackRecord :=
    List.filter_eq_self.mpr fun c hc ↦ by
      obtain ⟨r, hr, rfl⟩ := List.mem_map.mp hc
      exact decide_eq_true (stockPackRecord_ne_blank (hrs r hr).1.contest)
  have hread : (full blankBody (rs.map stockPackRecord)).map stockUnpackRecord = rs := by
    rw [hfull, List.map_map]
    refine (List.map_congr_left fun r hr ↦ ?_).trans (List.map_id rs)
    exact (stockUnpack_pack (hrs r hr).1.contest).trans (hrs r hr).2
  have hholds : FileHolds false (some (joined (rs.map stockPackRecord))) _ := .stock rfl hstock
  rw [hread] at hholds
  rwa [files_inBuffer_self]

private theorem held_inBuffer : held defaultClient (inBuffer rs) RC5_72 false = rs := by
  rw [held, if_pos disk_default]
  exact (holds_inBuffer hrs).heldIn

private theorem ordered_inBuffer (c : U32) (d : Bool) :
    Ordered defaultClient (inBuffer rs) c d := by
  intro _
  by_cases hname : defaultClient.filename c d = defaultClient.filename RC5_72 false
  · rw [hname]
    exact ⟨false, rs, holds_inBuffer hrs⟩
  · rw [files_inBuffer_of_ne rs hname]
    exact ⟨false, _, fileHolds_nil rfl⟩

end InBuffer

/-- A foreign record that is followed by another does not end the search. -/
theorem sorts_iff_followed :
    Sorts defaultClient RC5_72 false (inBuffer [ogrRecord, emptyRecord, ogrRecord]) := by
  have hrs : ∀ r ∈ [ogrRecord, emptyRecord, ogrRecord], Supported r ∧ r.stored = r :=
    List.forall_mem_cons.mpr ⟨storable_ogr, List.forall_mem_cons.mpr ⟨storable_empty,
      List.forall_mem_singleton.mpr storable_ogr⟩⟩
  have hheld := held_inBuffer hrs
  have hmoo : inMoo defaultClient (inBuffer [ogrRecord, emptyRecord, ogrRecord]) RC5_72 false
      = false := (holds_inBuffer hrs).isMooFile
  refine (sorts_iff tellsApart_default RC5_72 false (fun c _ d ↦ ordered_inBuffer hrs c d)
    (hheld.symm ▸ fun r hr ↦ (hrs r hr).1)).mpr fun _ ↦ ⟨fun _ ↦ ?_, fun h ↦ ?_, ?_⟩
  · rw [hheld]
    rintro (_ | ⟨x, front⟩) a back has hwant hfront
    · exact fun b hb ↦ absurd hb List.not_mem_nil
    · obtain ⟨rfl, htail⟩ := List.cons.inj has
      rcases front with _ | ⟨y, front⟩
      · obtain ⟨rfl, rfl⟩ := List.cons.inj htail
        exact List.forall_mem_singleton.mpr
          (Or.inr ⟨ogrRecord, List.mem_singleton_self ogrRecord, rfl⟩)
      · obtain ⟨rfl, -⟩ := List.cons.inj htail
        exact absurd (by decide) (hfront emptyRecord (by simp))
  · cases hmoo.symm.trans h
  · have hout : discarded (Wanted RC5_72 false) (left defaultClient)
        [ogrRecord, emptyRecord, ogrRecord] = [ogrRecord] := by
      rw [discarded_of_left (by decide) (by decide), discarded_of_want _ (by decide)]
    rw [reads, hheld, hmoo, show [ogrRecord, emptyRecord, ogrRecord].map (WorkRecord.asRead false)
      = [ogrRecord, emptyRecord, ogrRecord] from rfl, hout]
    refine ⟨?_, trivial⟩
    have hname : defaultClient.filename ogrRecord.contest (ogrRecord.resultcode ≠ RESULT_WORKING)
        ≠ defaultClient.filename RC5_72 false := by decide +kernel
    rw [FindsPlace, if_pos disk_default, FileTakes, TakesMoo]
    rintro (h | ⟨h, -⟩)
    · rw [Buffers.atFile, Disk.bytes, seen, files_inBuffer_of_ne _ hname] at h
      cases h
    · rw [Buffers.atFile, seen, hmoo] at h
      cases h

/-- **A record of another contest hides the rest of the buffer**: the search gives up on a file
with an OGR-NG record in front of an RC5-72 one. -/
theorem not_sorts_hidden :
    ¬Sorts defaultClient RC5_72 false (inBuffer [ogrRecord, emptyRecord]) := by
  have hrs : ∀ r ∈ [ogrRecord, emptyRecord], Supported r ∧ r.stored = r :=
    List.forall_mem_cons.mpr ⟨storable_ogr, List.forall_mem_singleton.mpr storable_empty⟩
  have hheld := held_inBuffer hrs
  rw [sorts_iff_sortable tellsApart_default (by decide) (fun c _ d ↦ ordered_inBuffer hrs c d)
    (hheld.symm ▸ fun r hr ↦ (hrs r hr).1)]
  intro h
  have hcovered := h.covered rfl
  rw [hheld] at hcovered
  rcases hcovered [ogrRecord] emptyRecord [] rfl (by decide) (by decide) ogrRecord
    List.mem_cons_self with h | ⟨c, hc, -⟩
  · exact absurd h (by decide)
  · exact absurd hc List.not_mem_nil

end Hyunjin
