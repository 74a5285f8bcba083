import Hyunjin.Ogr.Calls
import Hyunjin.Ogr.Stubstr
import Mathlib.Data.List.DropRight

/-!
# The stubs that can be shown

The buffer that the text of a stub is put together in has 80 characters, and nothing looks at how
long the text becomes. For the stubs that are handed out it is long enough. The loader accepts more:
a stub of 27 differences, 20 of them of two digits, that is marked as combined.
-/

namespace Hyunjin.Stubstr

open Memory

variable {stub : OgrWorkStub} {maxdiff : ℤ}

/-! ## What is printed -/

theorem diffAt_of_lt {i : ℕ} (h : i < OGR_STUB_MAX) :
    diffAt stub i = some (stubDiff stub.stub.diffs i) := by
  rw [diffAt, place_natCast h, Option.map_some]

theorem zero_notMem_decimal (n : ℕ) : 0#8 ∉ decimal n := fun h ↦
  (isDigit_of_mem_decimal h).ne_zero rfl

theorem appends_decimal (n : ℕ) : Appends (strcat · (decimal n)) (decimal n) :=
  appends_strcat (zero_notMem_decimal n)

theorem dashed_cons_cons (d d' : ℕ) (ds : List ℕ) :
    dashed (d :: d' :: ds) = decimal d ++ DASH :: dashed (d' :: ds) := by
  rw [dashed, dashed, List.flatMap_cons, List.cons_append]

theorem dashed_map_range' (f : ℕ → ℕ) (i n : ℕ) :
    dashed ((List.range' i (n + 1 + 1)).map f)
      = decimal (f i) ++ DASH :: dashed ((List.range' (i + 1) (n + 1)).map f) := by
  rw [List.range'_succ, List.map_cons, List.range'_succ, List.map_cons, dashed_cons_cons]

theorem appends_starText : Appends (fun buf ↦
    if maxdiff = 0 ∧ stub.collapsed ≠ 0#16 then strcat buf [STAR] else some buf)
    (starText stub maxdiff) := by
  rw [starText]
  split_ifs with h
  · exact appends_strcat (by decide)
  · exact appends_nil

/-- **The differences of the stub** are printed, the last of a combined stub as it was. -/
theorem appends_stubLoop (hlen : stub.stub.length.toNat ≤ OGR_STUB_MAX) (n i : ℕ)
    (hi : i + (n + 1) = stub.stub.length.toNat) :
    Appends (stubLoop stub maxdiff (List.range' i (n + 1)))
      (dashed ((List.range' i (n + 1)).map (handedOut stub)) ++ starText stub maxdiff) := by
  induction n generalizing i with
  | zero =>
    have hloop : stubLoop stub maxdiff (List.range' i (0 + 1)) = fun buf ↦
        (strcat buf (decimal (handedOut stub i))).bind fun buf ↦
          if maxdiff = 0 ∧ stub.collapsed ≠ 0#16 then strcat buf [STAR] else some buf := by
      funext buf
      rw [List.range'_succ, List.range'_zero, stubLoop, diffAt_of_lt (by omega)]
      simp only [Option.bind_eq_bind, Option.bind_some, stubMarker, stubLoop,
        if_neg (show ¬i + 1 < stub.stub.length.toNat by omega), Option.bind_fun_some]
      rfl
    rw [hloop, List.range'_succ, List.range'_zero, List.map_singleton, dashed, List.flatMap_nil,
      List.append_nil]
    exact (appends_decimal _).bind appends_starText
  | succ n ih =>
    have hloop : stubLoop stub maxdiff (List.range' i (n + 1 + 1)) = fun buf ↦
        (strcat buf (decimal (handedOut stub i))).bind fun buf ↦
          (strcat buf [DASH]).bind (stubLoop stub maxdiff (List.range' (i + 1) (n + 1))) := by
      funext buf
      rw [List.range'_succ, stubLoop, diffAt_of_lt (by omega)]
      simp only [Option.bind_eq_bind, Option.bind_some, stubMarker,
        if_pos (show i + 1 < stub.stub.length.toNat by omega)]
      rfl
    rw [hloop, dashed_map_range', List.append_assoc, List.cons_append,
      ← List.singleton_append (x := DASH)]
    refine (appends_decimal _).bind ((appends_strcat (by decide)).bind ?_)
    exact ih (i + 1) (by omega)

/-- The differences of the work behind the first. -/
theorem appends_workLoop {is : List ℕ} (hlen : ∀ i ∈ is, stub.stub.length.toNat < i)
    (hmax : ∀ i ∈ is, i < OGR_STUB_MAX) :
    Appends (workLoop stub is)
      (is.flatMap fun i ↦ DASH :: decimal (stubDiff stub.stub.diffs i)) := by
  induction is with
  | nil => exact appends_nil
  | cons i is ih =>
    have hloop : workLoop stub (i :: is) = fun buf ↦
        (strcat buf [DASH]).bind fun buf ↦
          (strcat buf (decimal (stubDiff stub.stub.diffs i))).bind (workLoop stub is) := by
      funext buf
      rw [workLoop, diffAt_of_lt (hmax i List.mem_cons_self), workMarker,
        if_pos (hlen i List.mem_cons_self)]
      simp only [Option.bind_eq_bind, Option.bind_some]
    rw [hloop, List.flatMap_cons, List.cons_append, ← List.singleton_append (x := DASH)]
    refine (appends_strcat (by decide)).bind ((appends_decimal _).bind (ih ?_ ?_))
    · exact fun j hj ↦ hlen j (List.mem_cons_of_mem _ hj)
    · exact fun j hj ↦ hmax j (List.mem_cons_of_mem _ hj)

/-- The work is gone through from the end of the stub on. -/
theorem workPlaces_spec (stub : OgrWorkStub) (maxdiff : ℤ) :
    workPlaces stub maxdiff = [] ∨ ∃ is, workPlaces stub maxdiff = stub.stub.length.toNat :: is
      ∧ (∀ i ∈ is, stub.stub.length.toNat < i ∧ i < stub.worklength.toNat)
      ∧ stub.stub.length.toNat < stub.worklength.toNat := by
  rw [workPlaces]
  cases hn : stub.worklength.toNat - stub.stub.length.toNat with
  | zero => exact .inl rfl
  | succ n =>
    rw [List.range'_succ]
    by_cases hlt : (stub.stub.length.toNat : ℤ) < maxdiff
    · rw [List.takeWhile_cons_of_pos (by rwa [decide_eq_true_eq])]
      refine .inr ⟨_, rfl, fun i hi ↦ ?_, by omega⟩
      have hmem := List.mem_range'_1.mp ((List.takeWhile_prefix _).subset hi)
      omega
    · rw [List.takeWhile_cons_of_neg (by rwa [decide_eq_true_eq])]
      exact .inl rfl

/-- **The work that has been done** is printed. -/
theorem appends_workText (hlen : stub.stub.length.toNat ≤ OGR_STUB_MAX)
    (hwork : stub.worklength.toNat ≤ OGR_STUB_MAX) :
    Appends (workText stub maxdiff) (progressText stub maxdiff) := by
  have hcurrent : Appends (currentDiff stub) (currentText stub) := by
    have hlt : stub.stub.length.toNat - 1 < OGR_STUB_MAX := by
      have : OGR_STUB_MAX = 28 := rfl
      omega
    have hdiff : currentDiff stub = fun buf ↦ if stub.collapsed ≠ 0#16 then
        strcat buf (AT :: decimal (stubDiff stub.stub.diffs (stub.stub.length.toNat - 1)))
        else some buf := by
      funext buf
      rw [currentDiff, diffAt_of_lt hlt, Option.bind_some]
    rw [hdiff, currentText]
    split_ifs with hcollapsed
    · refine appends_strcat (List.mem_cons.not.mpr (not_or.mpr ⟨by decide, ?_⟩))
      exact zero_notMem_decimal _
    · exact appends_nil
  have hloop : Appends (workLoop stub (workPlaces stub maxdiff))
      (dashed ((workPlaces stub maxdiff).map (stubDiff stub.stub.diffs))) := by
    rcases workPlaces_spec stub maxdiff with hnil | ⟨is, hcons, his, hlt⟩
    · rw [hnil]
      exact appends_nil
    · rw [hcons, List.map_cons, dashed, List.flatMap_map]
      have hfirst : workLoop stub (stub.stub.length.toNat :: is) = fun buf ↦
          (strcat buf (decimal (stubDiff stub.stub.diffs stub.stub.length.toNat))).bind
            (workLoop stub is) := by
        funext buf
        rw [workLoop, workMarker, if_neg (lt_irrefl _), diffAt_of_lt (hlt.trans_le hwork)]
        simp only [Option.bind_eq_bind, Option.bind_some]
      rw [hfirst]
      exact (appends_decimal _).bind (appends_workLoop (fun i hi ↦ (his i hi).1)
        fun i hi ↦ (his i hi).2.trans_le hwork)
  have htext : workText stub maxdiff = fun buf ↦
      if 0 < maxdiff ∧ stub.stub.length < stub.worklength then
        (currentDiff stub buf).bind fun buf ↦
          (strcat buf [PLUS]).bind (workLoop stub (workPlaces stub maxdiff))
      else some buf := by
    funext buf
    rw [workText]
    rfl
  rw [htext, progressText]
  split_ifs with hshown
  · rw [← List.singleton_append (x := PLUS)]
    exact hcurrent.bind ((appends_strcat (by decide)).bind hloop)
  · exact appends_nil

/-- **What is printed** is the text of the stub, if it fits. -/
theorem printStub_spec (hlen : stub.stub.length.toNat ≤ OGR_STUB_MAX)
    (hwork : stub.worklength.toNat ≤ OGR_STUB_MAX) (scratch : List U8) :
    ((stubText stub maxdiff).length < scratch.length →
        ∃ buf, printStub scratch stub maxdiff = some buf
          ∧ cstr buf = some (stubText stub maxdiff))
      ∧ (scratch.length ≤ (stubText stub maxdiff).length →
        printStub scratch stub maxdiff = none) := by
  have hnul : 0#8 ∉ decimal stub.stub.marks.toNat ++ [SLASH] := by
    rw [List.mem_append, not_or]
    exact ⟨zero_notMem_decimal _, by decide⟩
  rw [printStub, if_neg (not_lt.mpr hlen)]
  simp only [Option.bind_eq_bind]
  have happends : ∀ g s, Appends g s →
      stubText stub maxdiff = decimal stub.stub.marks.toNat ++ [SLASH] ++ s →
      ((stubText stub maxdiff).length < scratch.length →
        ∃ buf, (strcpy scratch (decimal stub.stub.marks.toNat ++ [SLASH])).bind g = some buf
          ∧ cstr buf = some (stubText stub maxdiff))
      ∧ (scratch.length ≤ (stubText stub maxdiff).length →
        (strcpy scratch (decimal stub.stub.marks.toNat ++ [SLASH])).bind g = none) := by
    intro g s hg htext
    rw [htext]
    refine ⟨fun hlt ↦ ?_, (hg.strcpy hnul scratch).2⟩
    obtain ⟨buf, hbuf, -, hcstr⟩ := (hg.strcpy hnul scratch).1 hlt
    exact ⟨buf, hbuf, hcstr⟩
  by_cases hzero : stub.stub.length = 0#16
  · refine happends _ [DASH] ?_ ?_
    · simp only [hzero, BitVec.toNat_ofNat, Nat.zero_mod, if_true]
      exact appends_strcat (by decide)
    · rw [stubText, if_pos hzero, List.append_assoc, List.singleton_append]
  · have hpos : stub.stub.length.toNat ≠ 0 := fun h ↦ hzero (BitVec.eq_of_toNat_eq h)
    obtain ⟨n, hn⟩ := Nat.exists_eq_succ_of_ne_zero hpos
    refine happends _ (dashed ((List.range stub.stub.length.toNat).map (handedOut stub))
      ++ starText stub maxdiff ++ progressText stub maxdiff) ?_ ?_
    · simp only [if_neg hpos]
      refine Appends.bind ?_ (appends_workText hlen hwork)
      rw [List.range_eq_range', hn]
      exact appends_stubLoop hlen n 0 (by omega)
    · rw [stubText, if_neg hzero, List.append_assoc (decimal _), List.singleton_append]

/-! ## How long the text is -/

/-- The characters of a number. -/
def digits (n : ℕ) : ℕ := (decimal n).length

/-- The characters of numbers with dashes between them. -/
def dashedWidth (ds : List ℕ) : ℕ := (ds.map digits).sum + (ds.length - 1)

/-- The characters behind the differences of the stub. -/
def progressWidth (stub : OgrWorkStub) (maxdiff : ℤ) : ℕ :=
  if 0 < maxdiff ∧ stub.stub.length < stub.worklength then
    (if stub.collapsed ≠ 0#16 then
      digits (stubDiff stub.stub.diffs (stub.stub.length.toNat - 1)) + 1 else 0)
    + dashedWidth ((workPlaces stub maxdiff).map (stubDiff stub.stub.diffs)) + 1
  else 0

/-- **The characters that a stub takes**, by its marks and differences. -/
def stubWidth (stub : OgrWorkStub) (maxdiff : ℤ) : ℕ :=
  digits stub.stub.marks.toNat + 1 +
    if stub.stub.length = 0#16 then 1
    else
      dashedWidth ((List.range stub.stub.length.toNat).map (handedOut stub))
        + (if maxdiff = 0 ∧ stub.collapsed ≠ 0#16 then 1 else 0) + progressWidth stub maxdiff

theorem length_dashed (ds : List ℕ) : (dashed ds).length = dashedWidth ds := by
  cases ds with
  | nil => rfl
  | cons d ds =>
    have hrest : (ds.flatMap fun d ↦ DASH :: decimal d).length
        = (ds.map digits).sum + ds.length := by
      induction ds with
      | nil => rfl
      | cons d ds ih =>
        rw [List.flatMap_cons, List.length_append, ih, List.length_cons, List.map_cons,
          List.sum_cons, List.length_cons, digits]
        omega
    rw [dashed, dashedWidth, List.length_append, hrest, List.map_cons, List.sum_cons,
      List.length_cons, Nat.add_sub_cancel, digits, Nat.add_assoc]

theorem length_progressText (stub : OgrWorkStub) (maxdiff : ℤ) :
    (progressText stub maxdiff).length = progressWidth stub maxdiff := by
  rw [progressText, progressWidth]
  split_ifs with hshown hcollapsed
  · rw [currentText, if_pos hcollapsed, List.length_append, List.length_cons, List.length_cons,
      length_dashed, digits]
    omega
  · rw [currentText, if_neg hcollapsed, List.length_append, List.length_cons, List.length_nil,
      length_dashed]
    omega
  · rfl

theorem length_stubText (stub : OgrWorkStub) (maxdiff : ℤ) :
    (stubText stub maxdiff).length = stubWidth stub maxdiff := by
  rw [stubText, stubWidth, List.length_append, List.length_cons, digits, starText]
  split_ifs
  · rw [List.length_singleton]
  · rw [List.length_append, List.length_append, length_dashed, length_progressText,
      List.length_singleton]
    omega
  · rw [List.length_append, List.length_append, length_dashed, length_progressText,
      List.length_nil]
    omega

/-! ## The stubs of a problem -/

/-- The work stub of a problem and the state of its core: as they are loaded, when the core goes on
and when the work is exported. -/
inductive Comes (precompLimits : ℕ → ℕ → U16) : OgrWorkStub → OgrState → Prop
  | load {host checkCache work iterations expected p q}
      (loaded : problemLoadOgr host checkCache precompLimits work iterations expected p
        = some (0, q)) : Comes precompLimits q.contestwork.workstub q.coreMembuffer
  | run {stub o fuel pnodes code spent o'} (comes : Comes precompLimits stub o)
      (cycle : ogrCycleEntry (precompLimits stub.stub.marks.toNat) fuel o pnodes
        = some (code, spent, o')) : Comes precompLimits stub o'
  | retrieve {stub o result} (comes : Comes precompLimits stub o)
      (getresult : ogrGetresult o stub = some result) : Comes precompLimits result o

variable {precompLimits : ℕ → ℕ → U16} {o o' : OgrState} {pchoose : ℕ → U16}

theorem startdepth_entryLoop {fuel rounds : ℕ} {pnodes nodesDone code spent : ℤ}
    (h : entryLoop pchoose fuel pnodes rounds nodesDone o = some (code, spent, o')) :
    o'.startdepth = o.startdepth := by
  induction rounds generalizing nodesDone o with
  | zero => cases h
  | succ rounds ih =>
    rw [entryLoop] at h
    split at h
    · cases h
    · dsimp only at h
      split_ifs at h
      · have hrest := ih h
        exact hrest
      all_goals
        obtain ⟨-, -, rfl⟩ := Option.some.inj h |> Prod.mk.inj |>.imp_right Prod.mk.inj
        rfl

/-- What is loaded has been accepted. -/
theorem accepted_of_load {host : Host} {checkCache : ℕ → Bool} {work : OgrWork} {iterations : U32}
    {expected : Provenance} {p q : OgrProblem}
    (h : problemLoadOgr host checkCache precompLimits work iterations expected p = some (0, q)) :
    q.contestwork.workstub.placed < OGR_STUB_MAX
      ∧ q.coreMembuffer.startdepth = q.contestwork.workstub.stub.length.toNat := by
  rw [problemLoadOgr, Option.map_eq_some_iff] at h
  obtain ⟨r, hr, hq⟩ := h
  cases r with
  | error e => cases e <;> cases hq
  | ok q' =>
    obtain rfl : q' = q := congrArg Prod.snd hq
    have herror : ∀ e : LoadError, some (Except.error e) ≠ some (Except.ok q') := fun e h ↦
      by cases Option.some.inj h
    rw [internalLoadOgr] at hr
    split at hr
    · exact absurd hr (herror _)
    split at hr
    · exact absurd hr (herror _)
    split at hr
    · exact absurd hr (herror _)
    · obtain ⟨work', -, hr⟩ := Option.bind_eq_some_iff.mp hr
      split at hr
      · exact absurd hr (herror _)
      obtain ⟨core, hcore, hr⟩ := Option.bind_eq_some_iff.mp hr
      cases core with
      | error e => exact absurd hr (herror _)
      | ok core =>
        dsimp only at hr
        obtain ⟨permille, -, hq⟩ := Option.map_eq_some_iff.mp hr
        obtain rfl := Except.ok.inj hq
        rw [ogrCreateChecked_eq] at hcore
        split_ifs at hcore
        obtain ⟨-, -, -, hplaced, levels, -, hcreated⟩ :=
          ogrCreate_eq_ok_iff.mp (Option.some.inj hcore)
        exact ⟨hplaced, by rw [← hcreated]; rfl⟩

/-- **The lengths of a stub** are within its differences. -/
theorem Comes.lengths {stub : OgrWorkStub} (h : Comes precompLimits stub o) :
    stub.stub.length.toNat < OGR_STUB_MAX ∧ stub.worklength.toNat ≤ OGR_STUB_MAX
      ∧ o.startdepth = stub.stub.length.toNat := by
  induction h with
  | load loaded =>
    obtain ⟨hplaced, hstart⟩ := accepted_of_load loaded
    rw [OgrWorkStub.placed, max_lt_iff] at hplaced
    exact ⟨hplaced.2, hplaced.1.le, hstart⟩
  | run comes cycle ih =>
    obtain ⟨hlen, hwork, hstart⟩ := ih
    rw [ogrCycleEntry] at cycle
    exact ⟨hlen, hwork, (startdepth_entryLoop cycle).trans hstart⟩
  | @retrieve stub o result comes getresult ih =>
    obtain ⟨hlen, -, hstart⟩ := ih
    obtain ⟨hlength, hwork⟩ := length_ogrGetresult getresult
    have hresult : result.stub.length.toNat = o.startdepth := by
      rw [hlength, OgrState.exported]
      refine Nat.mod_eq_of_lt ?_
      rw [hstart]
      exact hlen.trans (by decide)
    refine ⟨by rw [hresult, hstart]; exact hlen, ?_, hresult.symm⟩
    rw [hwork, OgrState.exported]
    dsimp only
    split_ifs with hcut
    · exact le_rfl
    · exact not_lt.mp hcut

/-! ## What is shown -/

/-- A stub is shown in whatever buffer there is, as far as it goes. -/
def Displays (stub : OgrWorkStub) (maxdiff : ℤ) : Prop :=
  ∀ (scratch : List.Vector U8 BUF) (buffer : List U8) (bufflen : ℕ), bufflen ≤ buffer.length →
    ∃ buffer', ogrngStubstr scratch (some buffer) bufflen (some stub) maxdiff = some (some buffer')
      ∧ buffer'.length = buffer.length ∧ buffer'.drop bufflen = buffer.drop bufflen
      ∧ (0 < bufflen → cstr buffer' = some ((stubText stub maxdiff).take (bufflen - 1)))

theorem zero_notMem_stubText_take {n : ℕ} {buf : List U8}
    (h : cstr buf = some (stubText stub maxdiff)) : 0#8 ∉ (stubText stub maxdiff).take n := by
  rw [cstr] at h
  split_ifs at h
  intro hmem
  rw [← Option.some.inj h] at hmem
  have hne := List.mem_takeWhile_imp (List.take_subset _ _ hmem)
  rw [decide_eq_true_eq] at hne
  exact hne rfl

/-- A text that fits is copied to the caller. -/
theorem displays_of_printed (h : ∀ scratch : List.Vector U8 BUF,
    ∃ buf, printStub scratch.1 stub maxdiff = some buf
      ∧ cstr buf = some (stubText stub maxdiff)) : Displays stub maxdiff := by
  intro scratch buffer bufflen hle
  obtain ⟨buf, hbuf, htext⟩ := h scratch
  rw [ogrngStubstr]
  by_cases hzero : bufflen = 0
  · rw [if_pos hzero]
    exact ⟨buffer, rfl, rfl, rfl, fun hpos ↦ absurd hzero hpos.ne'⟩
  have hpos : 0 < buffer.length := by omega
  rw [if_neg hzero, hbuf, store_of_lt hpos]
  simp only [Option.bind_eq_bind, Option.bind_some]
  by_cases hone : 1 < bufflen
  · obtain ⟨m', m'', hcopy, hstore, hlen, hdrop, hheld⟩ := strncpy_cut (m := buffer.set 0 0#8)
      (s := stubText stub maxdiff) (n := bufflen - 1) (by rw [List.length_set]; omega)
    rw [Nat.sub_add_cancel hone.le] at hcopy hdrop
    rw [if_pos hone, htext, Option.bind_some, hcopy, Option.bind_some, hstore]
    refine ⟨m'', rfl, hlen.trans List.length_set, hdrop.trans ?_, fun _ ↦
      cstr_of_holds hheld (zero_notMem_stubText_take htext)⟩
    exact List.drop_set_of_lt (by omega)
  · obtain rfl : bufflen = 1 := by omega
    rw [if_neg hone]
    refine ⟨_, rfl, List.length_set, List.drop_set_of_lt Nat.one_pos, fun _ ↦ ?_⟩
    rw [Nat.sub_self, List.take_zero]
    refine cstr_of_holds ?_ List.not_mem_nil
    cases buffer with
    | nil => exact absurd hpos (Nat.lt_irrefl _)
    | cons c buffer => exact ⟨buffer, rfl⟩

/-- A text that does not fit is written out of range. -/
theorem not_displays_of_long (hlen : stub.stub.length.toNat ≤ OGR_STUB_MAX)
    (hwork : stub.worklength.toNat ≤ OGR_STUB_MAX) (hlong : BUF ≤ stubWidth stub maxdiff) :
    ¬Displays stub maxdiff := by
  intro hdisplays
  let scratch : List.Vector U8 BUF := ⟨List.replicate BUF 0#8, List.length_replicate⟩
  obtain ⟨buffer, hshown, -⟩ := hdisplays scratch [0#8] 1 le_rfl
  have hnone : printStub scratch.1 stub maxdiff = none := by
    refine (printStub_spec hlen hwork scratch.1).2 ?_
    rw [scratch.2, length_stubText]
    exact hlong
  rw [ogrngStubstr, if_neg Nat.one_ne_zero, hnone] at hshown
  exact nomatch hshown

/-- **A stub of a problem is shown exactly if its text fits** the buffer it is put together in. -/
theorem displays_iff (h : Comes precompLimits stub o) (maxdiff : ℤ) :
    Displays stub maxdiff ↔ stubWidth stub maxdiff < BUF := by
  obtain ⟨hlen, hwork, -⟩ := h.lengths
  refine ⟨fun hdisplays ↦ not_le.mp fun hlong ↦ not_displays_of_long hlen.le hwork hlong hdisplays,
    fun hfits ↦ displays_of_printed fun scratch ↦ ?_⟩
  refine (printStub_spec hlen.le hwork scratch.1).1 ?_
  rw [scratch.2, length_stubText]
  exact hfits

/-- The limits of 28 marks that are looked up for `longWork`. -/
def longLimits : List (ℕ × U16) :=
  [(1, 32#16), (2, 93#16), (262147, 105#16), (262724, 160#16), (262725, 213#16), (262726, 229#16),
    (262727, 252#16), (263752, 267#16), (263753, 277#16), (265802, 284#16), (265803, 286#16),
    (1314380, 289#16), (1510989, 291#16), (1510990, 409#16), (1510991, 434#16), (1510992, 456#16),
    (1519185, 464#16), (1519218, 480#16), (1519219, 499#16), (1551988, 505#16), (1552117, 519#16),
    (1552374, 532#16), (1552375, 541#16), (1552376, 559#16), (1552377, 576#16), (1552378, 583#16),
    (1568763, 585#16)]

/-- A combined stub of 27 differences. -/
def longWork : OgrWork where
  workstub :=
    { OgrWorkStub.ofDiffs 28 27 27 [0, 3, 12, 26, 25, 29, 11, 36, 10, 68, 1, 4, 17, 53, 35, 8, 16,
        28, 6, 14, 13, 71, 18, 19, 23, 7, 32] with collapsed := 65535#16 }
  nodes := ⟨0#32, 0#32⟩

/-- A problem with nothing in it. -/
def emptyProblem : OgrProblem where
  initialized := false
  lastResultcode := none
  contestwork := longWork
  coreMembuffer := initialState longWork.workstub
  startkeys := ⟨0#32, 0#32⟩
  startpermille := 0
  wasReset := false
  clientCpu := 0#32
  coresel := 0#32
  tslice := 0#32

def loadLong : Option (ℤ × OgrProblem) :=
  problemLoadOgr ⟨true, some ⟨0#32, 0#32, 1⟩, 0#32, 0#32⟩ (fun _ ↦ true)
    (fun _ i ↦ (longLimits.lookup i).getD 0#16) longWork 0#32 ⟨0#32, 0#32, 0#32, 0#32⟩ emptyProblem

theorem comes_longWork :
    ∃ o, Comes (fun _ i ↦ (longLimits.lookup i).getD 0#16) longWork.workstub o := by
  have hload : loadLong.map (fun r ↦ (r.1, r.2.contestwork)) = some (0, longWork) := by
    decide +kernel
  obtain ⟨⟨code, q⟩, hq, hr⟩ := Option.map_eq_some_iff.mp hload
  obtain ⟨rfl, hwork⟩ := Prod.mk.inj hr
  have hcomes := Comes.load hq
  dsimp only at hwork
  rw [hwork] at hcomes
  exact ⟨_, hcomes⟩

theorem displays_iff_longWork : Displays longWork.workstub 10 := by
  obtain ⟨o, ho⟩ := comes_longWork
  have hfits : stubWidth longWork.workstub 10 < BUF := by decide +kernel
  exact (displays_iff ho 10).mpr hfits

/-- **A stub that is accepted** has a text of 80 characters, and its NUL is out of range. -/
theorem not_displays_longWork : ¬∀ (precompLimits : ℕ → ℕ → U16) (stub : OgrWorkStub)
    (o : OgrState), Comes precompLimits stub o →
      ∀ maxdiff, maxdiff = 0 ∨ maxdiff = 10 → Displays stub maxdiff := by
  intro h
  obtain ⟨o, ho⟩ := comes_longWork
  have hlong : BUF ≤ stubWidth longWork.workstub 0 := by decide +kernel
  exact not_displays_of_long (by decide) (by decide) hlong (h _ _ _ ho 0 (.inl rfl))

end Hyunjin.Stubstr
