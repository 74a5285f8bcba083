import Hyunjin.Ogr.Checkpoint

/-!
# Time slices

However the nodes are dealt out to the calls, the search goes on from turn to turn as if there were
one call: calls whose budgets are spent come to what one call with all their nodes comes to
(`Search.single`), down to the limits that the levels beyond keep. So two searches from one state
place their rulers in the same order, stop alike after the same number of nodes, and end alike.

What is exported beyond the work does depend on the slices: `ogrGetresult` writes out all levels,
and a level that has been left for good keeps the mark of the last call that stopped there. And with
a stub that leaves no mark to be searched, the flag for the pending mark is not what it was when the
call stopped, so the search itself depends on them.
-/

namespace Hyunjin

open CycleState

variable {o o' o'' : OgrState} {pchoose : ℕ → U16} {log log' : List (List ℤ)}
  {total total' code code' : ℤ} {workstub : OgrWorkStub}

/-! ## What slices should not change -/

/-- What two searches that have stopped agree on. -/
structure SameStop (o o' : OgrState) : Prop where
  depth : o.depth = o'.depth
  marks : ∀ i : ℕ, (i : ℤ) ≤ o.depth + 1 → marks o.levels i = marks o'.levels i
  limits : ∀ i : ℕ, (o.levels i).limit = (o'.levels i).limit

/-- All of the work that a search is taken up from. -/
structure OgrWorkStub.SameWork (w w' : OgrWorkStub) : Prop where
  marks : w.stub.marks = w'.stub.marks
  length : w.stub.length = w'.stub.length
  worklength : w.worklength = w'.worklength
  collapsed : w.collapsed = w'.collapsed
  diffs : ∀ i < w.placed, stubDiff w.stub.diffs i = stubDiff w'.stub.diffs i

/-- **Slices make no difference** to a search from `o`, whose work is exported the `same`. -/
structure SliceIndependent (same : OgrWorkStub → OgrWorkStub → Prop) (pchoose : ℕ → U16)
    (workstub : OgrWorkStub) (o : OgrState) : Prop where
  returns : ∀ pnodes, 0 < pnodes →
    ∃ fuel code spent o', ogrCycleEntry pchoose fuel o pnodes = some (code, spent, o')
  order : ∀ log total code o' log' total' code' o'', Search pchoose o log total code o' →
    Search pchoose o log' total' code' o'' → log <+: log' ∨ log' <+: log
  stops : ∀ log total o' log' o'', Search pchoose o log total CORE_S_CONTINUE o' →
    Search pchoose o log' total CORE_S_CONTINUE o'' → log = log' ∧ SameStop o' o'' ∧
      ∃ result result', ogrGetresult o' workstub = some result ∧
        ogrGetresult o'' workstub = some result' ∧ same result result'
  ends : ∀ log total code o' log' total' code' o'', code ≠ CORE_S_CONTINUE →
    code' ≠ CORE_S_CONTINUE → Search pchoose o log total code o' →
    Search pchoose o log' total' code' o'' →
      code = code' ∧ log = log' ∧ total = total' ∧ SameEnd code o' o''

/-- The states that calls from `o` come to, as long as they continue. -/
def SearchedTo (pchoose : ℕ → U16) (o o' : OgrState) : Prop :=
  o' = o ∨ ∃ log total, Search pchoose o log total CORE_S_CONTINUE o'

/-! ## All calls as one -/

/-- **Calls whose budgets are spent** come to what one call with all their nodes comes to. -/
private theorem Search.single (hsearch : Search pchoose o log total code o') (h : o.Going)
    (hcode : code = CORE_S_CONTINUE) : ∃ depth levels depth' s,
      o' = { o with depth := depth, levels := levels } ∧
      Logs o pchoose (resume o total) log (CORE_S_CONTINUE, depth', s) ∧
      ∀ nodes, Alike o .univ (resume { o with depth := depth, levels := levels } nodes)
        (resume { o with depth := depth', levels := s.levels } nodes) := by
  induction hsearch with
  | last pos call visits =>
    subst hcode
    obtain ⟨depth, s, hlogs, -, rfl⟩ := logs_of_call call visits
    obtain ⟨-, -, rfl, -⟩ := h.call pos call visits
    exact ⟨depth, s.levels, depth, s, rfl, hlogs, fun nodes ↦ Alike.refl _ _ _⟩
  | @more o fuel pnodes log spent o₁ log' total code o'' pos call visits rest ih =>
    obtain ⟨⟨depth₁, levels₁, rfl⟩, hgoing, rfl, hfollow⟩ := h.call pos call visits
    obtain ⟨depth, levels, depth', s, rfl, hlogs, halike⟩ := ih hgoing hcode
    subst hcode
    obtain ⟨-, -, htotal, -⟩ := rest.follows hgoing rfl
    -- the first call, with the nodes of all calls
    obtain ⟨t, hfirst, ht, hnodes⟩ := hfollow (resume o (spent + total))
      (fun nodes ↦ alike_resume_resume o .univ nodes _) (lt_add_of_pos_right spent htotal)
    have hnodes' : (resume { o with depth := depth₁, levels := levels₁ } total).nodes = t.nodes :=
      (hnodes.trans (add_sub_cancel_left spent total)).symm
    -- and the rest of them
    have hlive : (resume { o with depth := depth₁, levels := levels₁ } total).Live o := by
      obtain ⟨hstop, hle, hpos⟩ := hgoing.live total htotal
      exact ⟨hstop, hle, hpos⟩
    obtain ⟨u, hrest, hends, -⟩ := (ht total).logs (logs_static.mp hlogs)
      hlive hnodes'.le h.min h.last fun _ ↦ hnodes'
    refine ⟨depth, levels, depth', u, rfl, hfirst _ _ hrest, fun nodes ↦ ?_⟩
    exact (alike_static.mp (halike nodes)).trans (hends.resume rfl nodes)

/-- **Two searches that stop after the same number of nodes** have placed the same rulers and go on
alike. -/
private theorem Search.alike_of_total (hsearch : Search pchoose o log total CORE_S_CONTINUE o')
    (hsearch' : Search pchoose o log' total CORE_S_CONTINUE o'') (h : o.Going) :
    log = log' ∧ ∀ nodes, Alike o .univ (resume o' nodes) (resume o'' nodes) := by
  obtain ⟨depth, levels, depth₁, s, rfl, hlogs, halike⟩ := hsearch.single h rfl
  obtain ⟨depth', levels', depth₁', s', rfl, hlogs', halike'⟩ := hsearch'.single h rfl
  obtain ⟨rfl, hend⟩ := hlogs.unique hlogs'
  cases hend
  exact ⟨rfl, fun nodes ↦ (halike nodes).trans (halike' nodes).symm⟩

/-! ## Where a search stops -/

section

variable {d d' : ℕ} {depth depth' : ℤ} {levels levels' : ℕ → OgrLevel}

/-- States that go alike have stopped alike. -/
private theorem sameStop_of_alike (hdepth : depth = d) (hdepth' : depth' = d')
    (halike : Alike o .univ (resume { o with depth := depth, levels := levels } 1)
      (resume { o with depth := depth', levels := levels' } 1)) :
    SameStop { o with depth := depth, levels := levels }
      { o with depth := depth', levels := levels' } := by
  subst hdepth hdepth'
  have hnat : ((d : ℤ) + 1).toNat = ((d' : ℤ) + 1).toNat := halike.depth
  obtain rfl : d = d' := by omega
  have hmark (i : ℕ) (hi : i ≤ d + 1) : (levels i).mark = (levels' i).mark := by
    rcases Nat.lt_or_eq_of_le hi with hlt | rfl
    · have hbelow : levels i = levels' i := halike.below i hlt
      rw [hbelow]
    · exact halike.mark
  exact ⟨rfl, fun i hi ↦ hmark i (Int.ofNat_le.mp hi), fun i ↦ halike.kept i trivial⟩

/-- The work that is exported does not go beyond the level after the last mark. -/
private theorem placed_exported_le (hdepth : o.depth = d) (hstart : o.startdepth ≤ d)
    (workstub : OgrWorkStub) : (o.exported workstub).placed ≤ d := by
  have hlength : (BitVec.ofNat 16 o.startdepth).toNat ≤ d :=
    (Nat.mod_le _ _).trans hstart
  have hwork : (BitVec.ofInt 16 (d : ℤ)).toNat ≤ d := by
    rw [BitVec.ofInt_natCast, BitVec.toNat_ofNat]
    exact Nat.mod_le _ _
  rw [OgrWorkStub.placed, OgrState.exported, hdepth]
  refine max_le ?_ hlength
  dsimp only
  split_ifs with hlong
  · exact (BitVec.lt_def.mp hlong).le.trans hwork
  · exact hwork

/-- **States that have stopped alike** export the same work. -/
private theorem SameStop.sameWork (h : SameStop { o with depth := depth, levels := levels }
      { o with depth := depth', levels := levels' }) (hdepth : depth = d)
    (hstart : o.startdepth ≤ d) (workstub : OgrWorkStub) :
    ({ o with depth := depth, levels := levels }.exported workstub).SameWork
      ({ o with depth := depth', levels := levels' }.exported workstub) := by
  obtain rfl : depth = depth' := h.depth
  refine ⟨rfl, rfl, rfl, rfl, fun i hi ↦ ?_⟩
  have hplaced := placed_exported_le (o := { o with depth := depth, levels := levels }) hdepth
    hstart workstub
  have hle : i < d := hi.trans_le hplaced
  have hmark (j : ℕ) (hj : j ≤ d) : (levels j).mark = (levels' j).mark := by
    refine h.marks j ?_
    dsimp only
    omega
  have hdiff : (Vector.ofFn fun i : Fin 28 ↦
        BitVec.ofInt 16 ((levels (i.val + 1)).mark - (levels i.val).mark))[i]? =
      (Vector.ofFn fun i : Fin 28 ↦
        BitVec.ofInt 16 ((levels' (i.val + 1)).mark - (levels' i.val).mark))[i]? := by
    rcases Nat.lt_or_ge i 28 with hbound | hbound
    · rw [Vector.getElem?_eq_getElem hbound, Vector.getElem?_eq_getElem hbound, Vector.getElem_ofFn,
        Vector.getElem_ofFn, hmark (i + 1) hle, hmark i hle.le]
    · rw [Vector.getElem?_eq_none hbound, Vector.getElem?_eq_none hbound]
  rw [stubDiff, stubDiff, OgrState.exported, OgrState.exported, hdiff]

end

/-! ## One order -/

/-- A run of turns with nodes enough begins with the rulers of the calls. -/
private theorem Search.begins (hsearch : Search pchoose o log total code o') (h : o.Going)
    (hready : o.Ready pchoose) (hstart : o.startdepth ≤ o.stopdepth + 1) :
    ∃ bound, ∀ s, (∀ nodes, Alike o ∅ (resume o nodes) s) → bound ≤ s.nodes →
      ∃ rest r, Logs o pchoose s (log ++ rest) r := by
  by_cases hcode : code = CORE_S_CONTINUE
  · subst hcode
    obtain ⟨⟨depth, levels, rfl⟩, hgoing, -, hfollow⟩ := hsearch.follows h rfl
    obtain ⟨hready', -⟩ := hsearch.atNew rfl hready h hstart
    refine ⟨total + 1, fun s hs hle ↦ ?_⟩
    obtain ⟨t, hlogs, ht, hnodes⟩ := hfollow s hs (by omega)
    have hpos : 0 < t.nodes := by omega
    -- the turns go on from `t` to an end
    obtain ⟨⟨code, depth', u⟩, hruns⟩ := (hready'.resume t.nodes hpos).exists_runs hready'.stop
    obtain ⟨rest, hrest⟩ := hruns.exists_logs
    obtain ⟨hstop, hle', -⟩ := hgoing.live _ hpos
    obtain ⟨u', hrest', -, -⟩ := (ht t.nodes).logs (logs_static.mp hrest) ⟨hstop, hle', hpos⟩ le_rfl
      h.min h.last fun _ ↦ rfl
    exact ⟨rest, _, hlogs _ _ hrest'⟩
  · obtain ⟨-, bound, hends⟩ := hsearch.ends h hcode
    refine ⟨bound, fun s hs hle ↦ ?_⟩
    obtain ⟨t, hlogs, -, -⟩ := hends s hs hle
    exact ⟨[], _, (List.append_nil log).symm ▸ hlogs⟩

/-- **Slices make no difference**, whatever state the search has come to. -/
private theorem sliceIndependent_of_going (h : o.Going) (hready : o.Ready pchoose)
    (hstart : o.startdepth ≤ o.stopdepth + 1) (workstub : OgrWorkStub) :
    SliceIndependent OgrWorkStub.SameWork pchoose workstub o := by
  refine ⟨fun pnodes hpos ↦ hready.returns hpos, ?_, ?_, ?_⟩
  · intro log total code o' log' total' code' o'' hsearch hsearch'
    obtain ⟨bound, hbegins⟩ := hsearch.begins h hready hstart
    obtain ⟨bound', hbegins'⟩ := hsearch'.begins h hready hstart
    have hself (nodes : ℤ) := alike_resume_resume o ∅ nodes (max bound bound')
    obtain ⟨rest, r, hlogs⟩ := hbegins _ hself (le_max_left _ _)
    obtain ⟨rest', r', hlogs'⟩ := hbegins' _ hself (le_max_right _ _)
    have hlog : log ++ rest = log' ++ rest' := (hlogs.unique hlogs').1
    exact List.prefix_or_prefix_of_prefix ⟨rest, rfl⟩ ⟨rest', hlog.symm⟩
  · intro log total o' log' o'' hsearch hsearch'
    obtain ⟨hlog, halike⟩ := hsearch.alike_of_total hsearch' h
    obtain ⟨-, d, hnew⟩ := hsearch.atNew rfl hready h hstart
    obtain ⟨-, d', hnew'⟩ := hsearch'.atNew rfl hready h hstart
    obtain ⟨⟨depth, levels, rfl⟩, -⟩ := hsearch.follows h rfl
    obtain ⟨⟨depth', levels', rfl⟩, -⟩ := hsearch'.follows h rfl
    have hstop := sameStop_of_alike hnew.depth hnew'.depth (halike 1)
    exact ⟨hlog, hstop, _, _, ogrGetresult_of_le (hnew.stop.trans_eq hnew.depth.symm) workstub,
      ogrGetresult_of_le (hnew'.stop.trans_eq hnew'.depth.symm) workstub,
      hstop.sameWork hnew.depth hnew.start workstub⟩
  · intro log total code o' log' total' code' o'' hcode hcode' hsearch hsearch'
    obtain ⟨⟨depth, levels, rfl⟩, bound, hends⟩ := hsearch.ends h hcode
    obtain ⟨⟨depth', levels', rfl⟩, bound', hends'⟩ := hsearch'.ends h hcode'
    have hself (nodes : ℤ) := alike_resume_resume o ∅ nodes (max bound bound')
    obtain ⟨t, hlogs, hmarks, hnodes⟩ := hends _ hself (le_max_left _ _)
    obtain ⟨t', hlogs', hmarks', hnodes'⟩ := hends' _ hself (le_max_right _ _)
    obtain ⟨hlog, hend⟩ := hlogs.unique hlogs'
    obtain ⟨rfl, hdepth, rfl⟩ : code = code' ∧ depth = depth' ∧ t = t' := by
      simpa only [Prod.mk.injEq] using hend
    refine ⟨rfl, hlog, by omega, hdepth, fun i hi ↦ ?_⟩
    exact (hmarks i hi).trans (hmarks' i (by rwa [← hdepth])).symm

/-- **Slices make no difference** to a search for a stub that leaves a mark, as far as work is
exported. -/
theorem sliceIndependent_of_searchedTo {cacheHealthy : Bool} {lastSegment : ℤ} {o₀ : OgrState}
    (hdiffs : ∀ i < workstub.placed, 0 < stubDiff workstub.stub.diffs i)
    (hcreate : ogrCreate pchoose cacheHealthy workstub lastSegment = .ok o₀)
    (hplaced : workstub.placed < o₀.maxdepthm1) (hsearched : SearchedTo pchoose o₀ o) :
    SliceIndependent OgrWorkStub.SameWork pchoose workstub o := by
  have hcreated := created_of_ogrCreate hdiffs hcreate
  have hgoing := going_of_ogrCreate hdiffs hcreate hplaced
  have hstart : (o₀.startdepth : ℤ) ≤ o₀.stopdepth + 1 := by
    obtain ⟨-, -, -, -, levels₀, -, rfl⟩ := ogrCreate_eq_ok_iff.mp hcreate
    dsimp only [created]
    split_ifs <;> omega
  rcases hsearched with rfl | ⟨log₁, spent, hsearch⟩
  · exact sliceIndependent_of_going hgoing hcreated.ready hstart workstub
  · obtain ⟨hready, -⟩ := hsearch.atNew rfl hcreated.ready hgoing hstart
    obtain ⟨⟨depth, levels, rfl⟩, hgoing', -⟩ := hsearch.follows hgoing rfl
    exact sliceIndependent_of_going hgoing' hready hstart workstub

theorem sliceIndependent_of_searchedTo_shortest : ∃ o₀ o : OgrState,
    SearchedTo (fun _ ↦ 333#16) o₀ o ∧
    SliceIndependent OgrWorkStub.SameWork (fun _ ↦ 333#16) shortestStub o := by
  have hrun : ((ogrCreate (fun _ ↦ 333#16) true shortestStub 0).toOption.bind fun o ↦
      (ogrCycleEntry (fun _ ↦ 333#16) 40 o 1).map fun r ↦
        (r.1, decide (shortestStub.placed < o.maxdepthm1))) = some (CORE_S_CONTINUE, true) := by
    decide +kernel
  obtain ⟨o₀, code, spent, o, hcreate, hcall, hres⟩ := exists_call hrun
  obtain ⟨rfl, hplaced⟩ := Prod.mk.inj hres
  obtain ⟨log, hsearch⟩ := Search.ofCall (by decide) hcall
  have hdiffs : ∀ i < shortestStub.placed, 0 < stubDiff shortestStub.stub.diffs i := by
    decide +kernel
  have hsearched : SearchedTo (fun _ ↦ 333#16) o₀ o := .inr ⟨log, spent, hsearch⟩
  exact ⟨o₀, o, hsearched,
    sliceIndependent_of_searchedTo hdiffs hcreate (of_decide_eq_true hplaced) hsearched⟩

/-- The first mark at place 2. -/
def firstMarkStub : OgrWorkStub := .ofDiffs 21 1 1 [2]

/-- Two budgets one after the other. -/
private theorem Search.ofTwoCalls {fuel fuel' : ℕ} {pnodes pnodes' spent spent' code : ℤ}
    (hpos : 0 < pnodes) (hpos' : 0 < pnodes')
    (hcall : ogrCycleEntry pchoose fuel o pnodes = some (CORE_S_CONTINUE, spent, o'))
    (hcall' : ogrCycleEntry pchoose fuel' o' pnodes' = some (code, spent', o'')) :
    ∃ log, Search pchoose o log (spent + spent') code o'' := by
  obtain ⟨log, hvisits⟩ := visits_of_call hcall
  obtain ⟨log', hrest⟩ := Search.ofCall hpos' hcall'
  exact ⟨log ++ log', .more hpos hcall hvisits hrest⟩

/-- **Slices do make a difference** to what is exported beyond the work: after seven nodes the
sixth difference is -15 in one slice, and 6 in two. -/
private theorem not_sliceIndependent_eq : ¬∀ (pchoose : ℕ → U16) (cacheHealthy : Bool)
    (workstub : OgrWorkStub) (lastSegment : ℤ) (o₀ o : OgrState),
    (∀ i < workstub.placed, 0 < stubDiff workstub.stub.diffs i) →
    ogrCreate pchoose cacheHealthy workstub lastSegment = .ok o₀ → SearchedTo pchoose o₀ o →
    SliceIndependent Eq pchoose workstub o := by
  intro hall
  have hrun : ((ogrCreate (fun _ ↦ 25#16) true firstMarkStub 0).toOption.bind fun o ↦
      (ogrCycleEntry (fun _ ↦ 25#16) 60 o 7).map fun r ↦ (r.1, r.2.1,
        ((ogrGetresult r.2.2 firstMarkStub).map fun result ↦ stubDiff result.stub.diffs 5).getD 0,
        (ogrCycleEntry (fun _ ↦ 25#16) 60 o 4).bind fun r ↦
          (ogrCycleEntry (fun _ ↦ 25#16) 60 r.2.2 3).map fun r' ↦ ([r.1, r.2.1, r'.1, r'.2.1],
            ((ogrGetresult r'.2.2 firstMarkStub).map fun result ↦
              stubDiff result.stub.diffs 5).getD 0))) =
      some (CORE_S_CONTINUE, 7, 65521, some ([CORE_S_CONTINUE, 4, CORE_S_CONTINUE, 3], 6)) := by
    decide +kernel
  obtain ⟨o₀, code, spent, o', hcreate, hcall, hres⟩ := exists_call hrun
  simp only [Prod.mk.injEq] at hres
  obtain ⟨rfl, rfl, hone, htwo⟩ := hres
  obtain ⟨⟨code₁, spent₁, o₁⟩, hcall₁, htwo⟩ := Option.bind_eq_some_iff.mp htwo
  obtain ⟨⟨code₂, spent₂, o₂⟩, hcall₂, htwo⟩ := Option.map_eq_some_iff.mp htwo
  simp only [Prod.mk.injEq, List.cons.injEq, and_true] at htwo
  obtain ⟨⟨rfl, rfl, rfl, rfl⟩, hsix⟩ := htwo
  obtain ⟨log, hsearch⟩ := Search.ofCall (by decide) hcall
  obtain ⟨log', hsearch'⟩ := Search.ofTwoCalls (by decide) (by decide) hcall₁ hcall₂
  have hdiffs : ∀ i < firstMarkStub.placed, 0 < stubDiff firstMarkStub.stub.diffs i := by
    decide +kernel
  obtain ⟨-, -, result, result', hresult, hresult', rfl⟩ :=
    (hall _ _ _ _ _ _ hdiffs hcreate (.inl rfl)).stops _ _ _ _ _ hsearch hsearch'
  rw [hresult, Option.map_some, Option.getD_some] at hone
  rw [hresult', Option.map_some, Option.getD_some, hone] at hsix
  exact absurd hsix (by decide)

/-- **With a stub that leaves no mark** the search itself depends on the slices. -/
private theorem not_sliceIndependent_of_ruler_stub : ¬∀ (pchoose : ℕ → U16) (cacheHealthy : Bool)
    (workstub : OgrWorkStub) (lastSegment : ℤ) (o₀ o : OgrState),
    (∀ i < workstub.placed, 0 < stubDiff workstub.stub.diffs i) →
    ogrCreate pchoose cacheHealthy workstub lastSegment = .ok o₀ → SearchedTo pchoose o₀ o →
    SliceIndependent OgrWorkStub.SameWork pchoose workstub o := by
  intro hall
  have hrun : ((ogrCreate (fun _ ↦ 2929#16) true rulerStub 0).toOption.bind fun o ↦
      (ogrCycleEntry (fun _ ↦ 2929#16) 60 o 3).map fun r ↦ (r.1, r.2.1, r.2.2.depth,
        (ogrCycleEntry (fun _ ↦ 2929#16) 60 o 1).bind fun r ↦
          (ogrCycleEntry (fun _ ↦ 2929#16) 60 r.2.2 2).map fun r' ↦
            ([r.1, r.2.1, r'.1, r'.2.1], r'.2.2.depth))) =
      some (CORE_S_CONTINUE, 3, 22, some ([CORE_S_CONTINUE, 1, CORE_S_CONTINUE, 2], 23)) := by
    decide +kernel
  obtain ⟨o₀, code, spent, o', hcreate, hcall, hres⟩ := exists_call hrun
  simp only [Prod.mk.injEq] at hres
  obtain ⟨rfl, rfl, hdepth, htwo⟩ := hres
  obtain ⟨⟨code₁, spent₁, o₁⟩, hcall₁, htwo⟩ := Option.bind_eq_some_iff.mp htwo
  obtain ⟨⟨code₂, spent₂, o₂⟩, hcall₂, htwo⟩ := Option.map_eq_some_iff.mp htwo
  simp only [Prod.mk.injEq, List.cons.injEq, and_true] at htwo
  obtain ⟨⟨rfl, rfl, rfl, rfl⟩, hdepth'⟩ := htwo
  obtain ⟨log, hsearch⟩ := Search.ofCall (by decide) hcall
  obtain ⟨log', hsearch'⟩ := Search.ofTwoCalls (by decide) (by decide) hcall₁ hcall₂
  have hdiffs : ∀ i < rulerStub.placed, 0 < stubDiff rulerStub.stub.diffs i := by decide +kernel
  have hsame := ((hall _ _ _ _ _ _ hdiffs hcreate (.inl rfl)).stops _ _ _ _ _ hsearch hsearch').2.1
  rw [hsame.depth, hdepth'] at hdepth
  exact absurd hdepth (by decide)

/-- **Slices do make a difference**: to what is exported beyond the work, and to the search itself
if the stub leaves no mark. -/
theorem not_sliceIndependent :
    (¬∀ (pchoose : ℕ → U16) (cacheHealthy : Bool) (workstub : OgrWorkStub) (lastSegment : ℤ)
      (o₀ o : OgrState), (∀ i < workstub.placed, 0 < stubDiff workstub.stub.diffs i) →
      ogrCreate pchoose cacheHealthy workstub lastSegment = .ok o₀ → SearchedTo pchoose o₀ o →
      SliceIndependent Eq pchoose workstub o) ∧
    ¬∀ (pchoose : ℕ → U16) (cacheHealthy : Bool) (workstub : OgrWorkStub) (lastSegment : ℤ)
      (o₀ o : OgrState), (∀ i < workstub.placed, 0 < stubDiff workstub.stub.diffs i) →
      ogrCreate pchoose cacheHealthy workstub lastSegment = .ok o₀ → SearchedTo pchoose o₀ o →
      SliceIndependent OgrWorkStub.SameWork pchoose workstub o :=
  ⟨not_sliceIndependent_eq, not_sliceIndependent_of_ruler_stub⟩

end Hyunjin
