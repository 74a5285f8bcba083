import Hyunjin.Ogr.Rebuild

/-!
# Checkpoints of the search

`Search` is a sequence of calls with the rulers that they place. How the nodes are dealt out to the
calls makes no difference: all calls follow one run of turns that has nodes enough
(`Search.follows`, `Search.ends`). So a search that goes on from a rebuilt state, which goes alike,
places what the uninterrupted one has left to place and ends as it does.

The stub must leave a mark to be searched. Beyond the last mark the list of a new level is kept by
`ogrCreate` but not by a search that is taken up there.
-/

namespace Hyunjin

open CycleState

variable {o o' : OgrState} {K : Set ℕ} {pchoose : ℕ → U16}

/-! ## Calls with their logs -/

/-- The rulers that a call places. -/
def Visits (pchoose : ℕ → U16) (o : OgrState) (pnodes : ℤ) (log : List (List ℤ)) : Prop :=
  ∃ r, Logs o pchoose (resume o pnodes) log r

/-- Calls with positive budgets, each but the last of which returns `CORE_S_CONTINUE`: the rulers
placed, the nodes counted, the code returned and the state left. -/
inductive Search (pchoose : ℕ → U16) : OgrState → List (List ℤ) → ℤ → ℤ → OgrState → Prop
  | last {o fuel pnodes log code spent o'} (pos : 0 < pnodes)
      (call : ogrCycleEntry pchoose fuel o pnodes = some (code, spent, o'))
      (visits : Visits pchoose o pnodes log) : Search pchoose o log spent code o'
  | more {o fuel pnodes log spent o' log' total code o''} (pos : 0 < pnodes)
      (call : ogrCycleEntry pchoose fuel o pnodes = some (CORE_S_CONTINUE, spent, o'))
      (visits : Visits pchoose o pnodes log) (rest : Search pchoose o' log' total code o'') :
      Search pchoose o (log ++ log') (spent + total) code o''

/-- The marks at the end of a search, as far as it has set them. -/
structure SameEnd (code : ℤ) (o o' : OgrState) : Prop where
  depth : o.depth = o'.depth
  marks : ∀ i : ℕ, (i : ℤ) ≤ o.depth + 1 ∨ code = CORE_S_SUCCESS ∧ i ≤ o.maxdepthm1 →
    marks o.levels i = marks o'.levels i

/-- **Checkpoint transparency** of a state `o₁` that a search from `o₀` has come to. From the
rebuilt state a search goes as it goes from `o₁`, budget for budget; it comes to an end if the
uninterrupted search does; and whatever the budgets are, it places the rulers that the uninterrupted
search has left, ends as that does, and counts the nodes that are missing. -/
def CheckpointTransparent (pchoose : ℕ → U16) (cacheHealthy : Bool) (workstub : OgrWorkStub)
    (lastSegment : ℤ) (o₀ : OgrState) (log₁ : List (List ℤ)) (spent : ℤ) (o₁ : OgrState) : Prop :=
  ∃ result o₂, ogrGetresult o₁ workstub = some result ∧
    ogrCreate pchoose cacheHealthy result lastSegment = .ok o₂ ∧
    (∀ log total code o', Search pchoose o₁ log total code o' →
      ∃ o'', Search pchoose o₂ log total code o'' ∧ SameEnd code o' o'') ∧
    (∀ log total code o'', Search pchoose o₂ log total code o'' →
      ∃ o', Search pchoose o₁ log total code o' ∧ SameEnd code o' o'') ∧
    (∀ log₀ total₀ code₀ o₀', code₀ ≠ CORE_S_CONTINUE → Search pchoose o₀ log₀ total₀ code₀ o₀' →
      ∃ log total o', Search pchoose o₂ log total code₀ o') ∧
    ∀ log total code o' log₀ total₀ code₀ o₀', code ≠ CORE_S_CONTINUE → code₀ ≠ CORE_S_CONTINUE →
      Search pchoose o₂ log total code o' → Search pchoose o₀ log₀ total₀ code₀ o₀' →
      log₀ = log₁ ++ log ∧ total₀ = spent + total ∧ code₀ = code ∧ SameEnd code o' o₀'

theorem visits_of_call {fuel : ℕ} {pnodes code spent : ℤ}
    (hcall : ogrCycleEntry pchoose fuel o pnodes = some (code, spent, o')) :
    ∃ log, Visits pchoose o pnodes log := by
  obtain ⟨depth, s, hruns, -⟩ := runs_of_ogrCycleEntry hcall
  obtain ⟨log, hlog⟩ := hruns.exists_logs
  exact ⟨log, _, hlog⟩

theorem Search.ofCall {fuel : ℕ} {pnodes code spent : ℤ} (hpos : 0 < pnodes)
    (hcall : ogrCycleEntry pchoose fuel o pnodes = some (code, spent, o')) :
    ∃ log, Search pchoose o log spent code o' := by
  obtain ⟨log, hvisits⟩ := visits_of_call hcall
  exact ⟨log, .last hpos hcall hvisits⟩

/-- A call with its log. -/
theorem logs_of_call {fuel : ℕ} {pnodes code spent : ℤ} {log : List (List ℤ)}
    (hcall : ogrCycleEntry pchoose fuel o pnodes = some (code, spent, o'))
    (hvisits : Visits pchoose o pnodes log) :
    ∃ depth s, Logs o pchoose (resume o pnodes) log (code, depth, s) ∧ spent = pnodes - s.nodes ∧
      o' = { o with depth := depth, levels := s.levels } := by
  obtain ⟨depth, s, hruns, hspent, ho'⟩ := runs_of_ogrCycleEntry hcall
  obtain ⟨log', hlog'⟩ := hruns.exists_logs
  obtain ⟨r, hlog⟩ := hvisits
  obtain ⟨rfl, rfl⟩ := hlog'.unique hlog
  exact ⟨depth, s, hlog', hspent, ho'⟩

/-! ## The depth and the levels of a state are not read by a search that goes on -/

namespace CycleState

variable {s t : CycleState}

theorem logs_static {log : List (List ℤ)} {r : ℤ × ℤ × CycleState} {depth : ℤ}
    {levels : ℕ → OgrLevel} :
    Logs { o with depth := depth, levels := levels } pchoose s log r ↔ Logs o pchoose s log r := by
  constructor
  · intro h
    induction h with
    | stop turn => exact .stop turn
    | next turn rest ih => exact .next turn ih
  · intro h
    induction h with
    | stop turn => exact .stop turn
    | next turn rest ih => exact .next turn ih

theorem alike_static {depth : ℤ} {levels : ℕ → OgrLevel} :
    Alike { o with depth := depth, levels := levels } K s t ↔ Alike o K s t :=
  ⟨fun h ↦ ⟨h.depth, h.mark, h.limit, h.below, h.dist, h.comp, h.bound, h.list, h.newbit, h.kept⟩,
    fun h ↦ ⟨h.depth, h.mark, h.limit, h.below, h.dist, h.comp, h.bound, h.list, h.newbit, h.kept⟩⟩

/-- The budget does not matter. -/
theorem alike_resume_resume (o : OgrState) (K : Set ℕ) (nodes nodes' : ℤ) :
    Alike o K (resume o nodes) (resume o nodes') :=
  ⟨rfl, rfl, rfl, fun _ _ ↦ rfl, rfl, rfl, rfl, fun _ ↦ rfl, fun _ ↦ rfl, fun _ _ ↦ rfl⟩

end CycleState

/-! ## Calls follow one run of turns -/

/-- The search can be taken up, with a mark to be searched. -/
structure OgrState.Going (o : OgrState) : Prop where
  min : -1 ≤ o.stopdepth
  last : o.stopdepth < o.maxdepthm1
  live : ∀ nodes, 0 < nodes → (resume o nodes).Live o

/-- The turns from `s` begin with the log of a call that spends its budget, and go on as if the
search were taken up from the state that it leaves. -/
structure Follows (o : OgrState) (K : Set ℕ) (pchoose : ℕ → U16) (s : CycleState)
    (log : List (List ℤ)) (spent : ℤ) (o' : OgrState) (t : CycleState) : Prop where
  logs : ∀ log' r, Logs o pchoose t log' r → Logs o pchoose s (log ++ log') r
  alike : ∀ nodes, Alike o K (resume o' nodes) t
  nodes : t.nodes = s.nodes - spent

/-- A call whose budget is spent. -/
theorem OgrState.Going.call (h : o.Going) {fuel : ℕ} {pnodes spent : ℤ} (hpos : 0 < pnodes)
    {log : List (List ℤ)}
    (hcall : ogrCycleEntry pchoose fuel o pnodes = some (CORE_S_CONTINUE, spent, o'))
    (hvisits : Visits pchoose o pnodes log) :
    (∃ depth levels, o' = { o with depth := depth, levels := levels }) ∧ o'.Going ∧ spent = pnodes ∧
      ∀ ⦃K : Set ℕ⦄ s, (∀ nodes, Alike o K (resume o nodes) s) → pnodes < s.nodes →
        ∃ t, Follows o K pchoose s log spent o' t := by
  obtain ⟨depth, s', hlogs, rfl, rfl⟩ := logs_of_call hcall hvisits
  have hlive := h.live pnodes hpos
  have hspent {K : Set ℕ} (s : CycleState) (hs : ∀ nodes, Alike o K (resume o nodes) s)
    (hlt : pnodes < s.nodes) :=
    (hs pnodes).logs_spent hlogs hlive hlt h.min h.last
  -- a budget that is one node longer
  obtain ⟨t, -, halike, ht, hzero, -⟩ := hspent (resume o (pnodes + 1))
    (fun nodes ↦ alike_resume_resume o ∅ nodes _) (lt_add_one pnodes)
  refine ⟨⟨depth, s'.levels, rfl⟩,
    ⟨h.min, h.last, fun nodes hnodes ↦ ?_⟩, by omega, fun K s hs hlt ↦ ?_⟩
  · have hdepth := (halike nodes).depth
    exact ⟨by rw [hdepth]; exact ht.stop, by rw [hdepth]; exact ht.le, hnodes⟩
  · obtain ⟨t, hrest, halike, -, -, hnodes⟩ := hspent s hs hlt
    refine ⟨t, hrest, halike, ?_⟩
    rw [hnodes, hzero, sub_zero]
    rfl

/-- **Calls whose budgets are spent** are followed by any search that goes alike and has more
nodes. -/
theorem Search.follows {log : List (List ℤ)} {total code : ℤ}
    (hsearch : Search pchoose o log total code o') (h : o.Going) (hcode : code = CORE_S_CONTINUE) :
    (∃ depth levels, o' = { o with depth := depth, levels := levels }) ∧ o'.Going ∧ 0 < total ∧
      ∀ ⦃K : Set ℕ⦄ s, (∀ nodes, Alike o K (resume o nodes) s) → total < s.nodes →
        ∃ t, Follows o K pchoose s log total o' t := by
  induction hsearch with
  | last pos call visits =>
    subst hcode
    obtain ⟨hform, hgoing, rfl, hfollow⟩ := h.call pos call visits
    exact ⟨hform, hgoing, pos, hfollow⟩
  | more pos call visits rest ih =>
    obtain ⟨⟨depth, levels, rfl⟩, hgoing, rfl, hfollow⟩ := h.call pos call visits
    obtain ⟨⟨depth', levels', rfl⟩, hgoing', htotal, hfollow'⟩ := ih hgoing hcode
    refine ⟨⟨depth', levels', rfl⟩, hgoing', by omega, fun K s hs hlt ↦ ?_⟩
    obtain ⟨t, hlogs, halike, hnodes⟩ := hfollow s hs (by omega)
    obtain ⟨u, hlogs', halike', hnodes'⟩ :=
      hfollow' t (fun nodes ↦ alike_static.mpr (halike nodes)) (by omega)
    refine ⟨u, fun log'' r hlog ↦ ?_, fun nodes ↦ alike_static.mp (halike' nodes), by omega⟩
    rw [List.append_assoc]
    exact hlogs _ _ (logs_static.mp (hlogs' _ _ (logs_static.mpr hlog)))

/-- A stub that leaves a mark is searched from the level after its last mark. -/
theorem going_of_ogrCreate {cacheHealthy : Bool} {workstub : OgrWorkStub} {lastSegment : ℤ}
    (hdiffs : ∀ i < workstub.placed, 0 < stubDiff workstub.stub.diffs i)
    (hcreate : ogrCreate pchoose cacheHealthy workstub lastSegment = .ok o)
    (hplaced : workstub.placed < o.maxdepthm1) : o.Going := by
  have hcreated := created_of_ogrCreate hdiffs hcreate
  have hstop := hcreated.stop_le
  have hdepth := hcreated.depth
  refine ⟨hcreated.stop, by omega, fun nodes hpos ↦ ⟨?_, ?_, hpos⟩⟩
  · dsimp only [resume, start]
    omega
  · dsimp only [resume, start]
    omega

/-- What a run of turns ends with is what the calls ended with. -/
structure EndsAs (o : OgrState) (pchoose : ℕ → U16) (s : CycleState) (log : List (List ℤ))
    (total code : ℤ) (o' : OgrState) (t : CycleState) : Prop where
  logs : Logs o pchoose s log (code, o'.depth, t)
  marks : ∀ i : ℕ, (i : ℤ) ≤ o'.depth + 1 ∨ code = CORE_S_SUCCESS ∧ i ≤ o.maxdepthm1 →
    marks o'.levels i = marks t.levels i
  nodes : t.nodes = s.nodes - total

/-- **Calls that come to an end** are followed by any search that goes alike and has nodes
enough. -/
theorem Search.ends {log : List (List ℤ)} {total code : ℤ}
    (hsearch : Search pchoose o log total code o') (h : o.Going) (hcode : code ≠ CORE_S_CONTINUE) :
    (∃ depth levels, o' = { o with depth := depth, levels := levels }) ∧
      ∃ bound, ∀ ⦃K : Set ℕ⦄ s, (∀ nodes, Alike o K (resume o nodes) s) → bound ≤ s.nodes →
        ∃ t, EndsAs o pchoose s log total code o' t := by
  induction hsearch with
  | @last o fuel pnodes log code spent o' pos call visits =>
    obtain ⟨depth, u, hlogs, rfl, rfl⟩ := logs_of_call call visits
    refine ⟨⟨depth, u.levels, rfl⟩, pnodes, fun K s hs hle ↦ ?_⟩
    obtain ⟨t, hlogs', hends, hnodes⟩ := (hs pnodes).logs hlogs (h.live pnodes pos) hle h.min h.last
      fun heq ↦ absurd heq hcode
    refine ⟨t, hlogs', hends.marks, ?_⟩
    change t.nodes - u.nodes = s.nodes - pnodes at hnodes
    omega
  | @more o fuel pnodes log spent o₁ log' total code o'' pos call visits rest ih =>
    obtain ⟨⟨depth, levels, rfl⟩, hgoing, rfl, hfollow⟩ := h.call pos call visits
    obtain ⟨⟨depth', levels', rfl⟩, bound, hends⟩ := ih hgoing hcode
    refine ⟨⟨depth', levels', rfl⟩, max bound 1 + spent, fun K s hs hle ↦ ?_⟩
    obtain ⟨t, hlogs, halike, hnodes⟩ := hfollow s hs (by omega)
    obtain ⟨u, hlogs', hmarks, hnodes'⟩ :=
      hends t (fun nodes ↦ alike_static.mpr (halike nodes)) (by omega)
    exact ⟨u, hlogs _ _ (logs_static.mp hlogs'), hmarks, by omega⟩

/-- A call from a state that goes alike, with the same budget. -/
private theorem alike_call {fuel : ℕ} {pnodes code spent : ℤ} {log : List (List ℤ)} (h : o.Going)
    (hpos : 0 < pnodes) (hcall : ogrCycleEntry pchoose fuel o pnodes = some (code, spent, o'))
    (hvisits : Visits pchoose o pnodes log) {depth : ℤ} {levels : ℕ → OgrLevel}
    (halike : ∀ nodes, Alike o K (resume o nodes)
      (resume { o with depth := depth, levels := levels } nodes)) :
    ∃ depth' levels₁ levels₂, o' = { o with depth := depth', levels := levels₁ } ∧
      (∃ fuel', ogrCycleEntry pchoose fuel' { o with depth := depth, levels := levels } pnodes =
        some (code, spent, { o with depth := depth', levels := levels₂ })) ∧
      Visits pchoose { o with depth := depth, levels := levels } pnodes log ∧
      SameEnd code o' { o with depth := depth', levels := levels₂ } ∧
      (code = CORE_S_CONTINUE → ∀ nodes, Alike o K (resume o' nodes)
        (resume { o with depth := depth', levels := levels₂ } nodes)) := by
  obtain ⟨depth', u, hlogs, rfl, rfl⟩ := logs_of_call hcall hvisits
  obtain ⟨t, hlogs', hends, hnodes⟩ := (halike pnodes).logs hlogs (h.live pnodes hpos) le_rfl h.min
    h.last fun _ ↦ rfl
  have hnodes' : t.nodes = u.nodes := by
    change t.nodes - u.nodes = pnodes - pnodes at hnodes
    omega
  have hstatic : Logs { o with depth := depth, levels := levels } pchoose
      (resume { o with depth := depth, levels := levels } pnodes) log (code, depth', t) :=
    logs_static.mpr hlogs'
  obtain ⟨fuel', hcall'⟩ := ogrCycleEntry_of_runs hstatic.runs
  rw [hnodes'] at hcall'
  exact ⟨depth', u.levels, t.levels, rfl, ⟨fuel', hcall'⟩, ⟨_, hstatic⟩,
    ⟨rfl, hends.marks⟩, hends.resume⟩

/-- **Budget for budget**, calls from states that go alike do the same. -/
private theorem Search.alike {log : List (List ℤ)} {total code : ℤ}
    (hsearch : Search pchoose o log total code o') (h : o.Going) {depth : ℤ} {levels : ℕ → OgrLevel}
    (halike : ∀ nodes, Alike o K (resume o nodes)
      (resume { o with depth := depth, levels := levels } nodes)) :
    ∃ o'', Search pchoose { o with depth := depth, levels := levels } log total code o'' ∧
      SameEnd code o' o'' := by
  induction hsearch generalizing depth levels with
  | last pos call visits =>
    obtain ⟨depth', levels₁, levels₂, rfl, ⟨fuel', hcall⟩, hvisits, hends, -⟩ :=
      alike_call h pos call visits halike
    exact ⟨_, .last pos hcall hvisits, hends⟩
  | more pos call visits rest ih =>
    obtain ⟨depth', levels₁, levels₂, rfl, ⟨fuel', hcall⟩, hvisits, -, hresume⟩ :=
      alike_call h pos call visits halike
    obtain ⟨o'', hsearch, hends⟩ := ih (h.call pos call visits).2.1 fun nodes ↦
      alike_static.mpr (hresume rfl nodes)
    exact ⟨o'', .more pos hcall hvisits hsearch, hends⟩

/-! ## Where a budget is spent -/

/-- A turn that spends the budget has set up a new level. -/
private theorem atNew_of_turn {s s' : CycleState} {depth : ℤ} (h : s.Inv o pchoose)
    (hlive : s.Live o)
    (hmin : -1 ≤ o.stopdepth) (hlast : o.stopdepth < o.maxdepthm1)
    (hstart : o.startdepth ≤ o.stopdepth + 1)
    (hturn : s.turn o pchoose = .stop CORE_S_CONTINUE depth s') :
    OgrState.AtNew { o with depth := depth, levels := s'.levels } s.depth := by
  have hdoes := does_turn o hmin pchoose s
  rw [hturn] at hdoes
  generalize hres : Turn.stop CORE_S_CONTINUE depth s' = res at hdoes
  cases hdoes with
  | skip | push | pop => exact nomatch hres
  | @spent lev' n reach free depth' nodes =>
    have hnodes : ((s.movedTo lev' n).push o pchoose).setMark.nodes = 0 := by
      have := h.nodes
      rw [push_movedTo]
      dsimp only [setMark]
      omega
    have hstop := hlive.stop
    rw [settle, if_neg fun hfound ↦ hfound.2 hnodes, if_neg (by omega)] at hres
    cases hres
    refine ⟨add_sub_cancel_right _ _, lt_of_le_of_ne hlive.le depth', ?_, hstop.le, ?_⟩
    · dsimp only
      omega
    · dsimp only [marks]
      rw [setMark_push_movedTo, Function.update_self, Function.update_of_ne (by omega),
        o.pushLevel_self]
  | last reach free depth' =>
    rw [depth', settle, if_pos ⟨rfl, h.nodes.ne'⟩] at hres
    split_ifs at hres
    exact absurd (Turn.stop.inj hres).1 (by decide)
  | ends stuck stop =>
    rw [settle, if_neg (fun hfound ↦ by omega), if_pos stop] at hres
    exact absurd (Turn.stop.inj hres).1 (by decide)

theorem Search.atNew {log : List (List ℤ)} {total code : ℤ}
    (hsearch : Search pchoose o log total code o') (hcode : code = CORE_S_CONTINUE)
    (h : o.Ready pchoose) (hgoing : o.Going) (hstart : o.startdepth ≤ o.stopdepth + 1) :
    o'.Ready pchoose ∧ ∃ d, o'.AtNew d := by
  induction hsearch with
  | last pos call visits =>
    subst hcode
    obtain ⟨-, ⟨-, hready⟩ | ⟨hne, -⟩ | hne⟩ := h.call pos call
    · obtain ⟨depth, s, hruns, -, rfl⟩ := runs_of_ogrCycleEntry call
      obtain ⟨t, ⟨ht, hlive⟩, hturn⟩ := hruns.induct (I := fun s ↦ s.Inv _ pchoose ∧ s.Live _)
        ⟨h.resume _ pos, hgoing.live _ pos⟩ fun s t ⟨hs, hlive⟩ hturn ↦
          ⟨hs.turn h.stop hturn, hlive.turn hgoing.min hgoing.last hturn⟩
      exact ⟨hready, t.depth, atNew_of_turn ht hlive hgoing.min hgoing.last hstart hturn⟩
    · exact absurd hne (by decide)
    · exact absurd hne (by decide)
  | more pos call visits rest ih =>
    obtain ⟨-, ⟨-, hready⟩ | ⟨hne, -⟩ | hne⟩ := h.call pos call
    · obtain ⟨⟨depth, levels, rfl⟩, hgoing', -⟩ := hgoing.call pos call visits
      exact ih hcode hready hgoing' hstart
    · exact absurd hne (by decide)
    · exact absurd hne (by decide)

/-! ## Transparency -/

private theorem SameEnd.symm {code : ℤ} {o₁ o₂ : OgrState} (h : SameEnd code o₁ o₂)
    (hmax : o₁.maxdepthm1 = o₂.maxdepthm1) : SameEnd code o₂ o₁ :=
  ⟨h.depth.symm, fun i hi ↦ (h.marks i (by rwa [h.depth, hmax])).symm⟩

section

variable {depth : ℤ} {levels : ℕ → OgrLevel}

private theorem OgrState.Going.alike (h : o.Going)
    (halike : ∀ nodes, Alike o K (resume o nodes)
      (resume { o with depth := depth, levels := levels } nodes)) :
    OgrState.Going { o with depth := depth, levels := levels } := by
  refine ⟨h.min, h.last, fun nodes hpos ↦ ?_⟩
  obtain ⟨hstop, hle, -⟩ := h.live nodes hpos
  have hdepth := (halike nodes).depth
  refine ⟨?_, ?_, hpos⟩
  · rw [← hdepth]
    exact hstop
  · rw [← hdepth]
    exact hle

/-- The calls from a state that goes alike, taken back. -/
private theorem Search.alike_back {log : List (List ℤ)} {total code : ℤ}
    (hsearch : Search pchoose { o with depth := depth, levels := levels } log total code o')
    (h : o.Going) (halike : ∀ nodes, Alike o K (resume o nodes)
      (resume { o with depth := depth, levels := levels } nodes)) :
    ∃ o'', Search pchoose o log total code o'' ∧ SameEnd code o' o'' :=
  hsearch.alike (h.alike halike) fun nodes ↦ alike_static.mpr (halike nodes).symm

private theorem Search.maxdepthm1 {log : List (List ℤ)} {total code : ℤ}
    (hsearch : Search pchoose o log total code o') : o'.maxdepthm1 = o.maxdepthm1 := by
  induction hsearch with
  | last pos call visits =>
    obtain ⟨_, _, _, _, rfl⟩ := runs_of_ogrCycleEntry call
    rfl
  | more pos call visits rest ih =>
    obtain ⟨_, _, _, _, rfl⟩ := runs_of_ogrCycleEntry call
    exact ih

/-- **A search in two parts.** What a search that is taken up at an intermediate state places,
counts and ends with, after what was placed and counted before, is what an uninterrupted search
does. -/
private theorem Search.joined {log₁ log log₀ : List (List ℤ)} {spent total total₀ code code₀ : ℤ}
    {o₁ o₀' : OgrState} (hsearch : Search pchoose o log₁ spent CORE_S_CONTINUE o₁) (h : o.Going)
    (halike : ∀ nodes, Alike o₁ K (resume o₁ nodes)
      (resume { o₁ with depth := depth, levels := levels } nodes))
    (hcode : code ≠ CORE_S_CONTINUE) (hcode₀ : code₀ ≠ CORE_S_CONTINUE)
    (hrest : Search pchoose { o₁ with depth := depth, levels := levels } log total code o')
    (hwhole : Search pchoose o log₀ total₀ code₀ o₀') :
    log₀ = log₁ ++ log ∧ total₀ = spent + total ∧ code₀ = code ∧ SameEnd code o' o₀' := by
  obtain ⟨⟨depth₁, levels₁, rfl⟩, hgoing, hspent, hfollow⟩ := hsearch.follows h rfl
  obtain ⟨⟨depth', levels', rfl⟩, bound, hends⟩ := hrest.ends (hgoing.alike halike) hcode
  obtain ⟨⟨depth₀, levels₀, rfl⟩, bound₀, hends₀⟩ := hwhole.ends h hcode₀
  -- one run of turns that has nodes enough for all of them
  have hnodes : max bound₀ (max bound 1 + spent)
    = (resume o (max bound₀ (max bound 1 + spent))).nodes :=
    rfl
  generalize hs : resume o (max bound₀ (max bound 1 + spent)) = s at hnodes
  have hself (nodes : ℤ) : Alike o K (resume o nodes) s := by
    rw [← hs]
    exact alike_resume_resume o K nodes _
  obtain ⟨t, hlogs, ht, htnodes⟩ := hfollow s hself (by omega)
  obtain ⟨u, hlogs', hmarks, hunodes⟩ := hends t
    (fun nodes ↦ alike_static.mpr ((halike nodes).symm.trans (alike_static.mpr (ht nodes))))
    (by omega)
  obtain ⟨u₀, hlogs₀, hmarks₀, hunodes₀⟩ := hends₀ s hself (by omega)
  obtain ⟨hlog, hend⟩ := hlogs₀.unique (hlogs _ _ (logs_static.mp hlogs'))
  obtain ⟨rfl, hdepth, rfl⟩ : code₀ = code ∧ depth₀ = depth' ∧ u₀ = u := by
    simpa only [Prod.mk.injEq] using hend
  refine ⟨hlog, by omega, rfl, hdepth.symm, fun i hi ↦ ?_⟩
  exact (hmarks i hi).trans (hmarks₀ i (by rwa [hdepth])).symm

private theorem Search.append {log₁ log : List (List ℤ)} {spent total code : ℤ} {o₁ : OgrState}
    (hsearch : Search pchoose o log₁ spent CORE_S_CONTINUE o₁)
    (hrest : Search pchoose o₁ log total code o') :
    Search pchoose o (log₁ ++ log) (spent + total) code o' := by
  generalize hcode : CORE_S_CONTINUE = code₁ at hsearch
  induction hsearch with
  | last pos call visits =>
    subst hcode
    exact .more pos call visits hrest
  | more pos call visits rest ih =>
    rw [List.append_assoc, add_assoc]
    exact .more pos call visits (ih hrest hcode)

/-- Calls whose budgets are spent count no more nodes than the search has. -/
private theorem Search.le_total {log₁ log₀ : List (List ℤ)} {spent total₀ code₀ : ℤ}
    {o₁ o₀' : OgrState}
    (hsearch : Search pchoose o log₁ spent CORE_S_CONTINUE o₁) (h : o.Going)
    (hready : o₁.Ready pchoose) (hcode₀ : code₀ ≠ CORE_S_CONTINUE)
    (hwhole : Search pchoose o log₀ total₀ code₀ o₀') : spent ≤ total₀ := by
  obtain ⟨⟨depth₁, levels₁, rfl⟩, hgoing, hspent, hfollow⟩ := hsearch.follows h rfl
  obtain ⟨-, bound₀, hends₀⟩ := hwhole.ends h hcode₀
  have hnodes : max bound₀ (spent + 1) = (resume o (max bound₀ (spent + 1))).nodes := rfl
  generalize hs : resume o (max bound₀ (spent + 1)) = s at hnodes
  have hself (nodes : ℤ) : Alike o ∅ (resume o nodes) s := by
    rw [← hs]
    exact alike_resume_resume o ∅ nodes _
  obtain ⟨t, hlogs, ht, htnodes⟩ := hfollow s hself (by omega)
  obtain ⟨u₀, hlogs₀, -, hunodes₀⟩ := hends₀ s hself (by omega)
  -- the turns go on from `t` to an end, with the nodes that `t` has left
  have hpos : 0 < t.nodes := by omega
  obtain ⟨⟨code, depth, u⟩, hruns⟩ := (hready.resume t.nodes hpos).exists_runs hready.stop
  obtain ⟨log, hlog⟩ := hruns.exists_logs
  obtain ⟨hstop, hle, -⟩ := hgoing.live _ hpos
  obtain ⟨u', hlog', -, -⟩ := (ht t.nodes).logs (logs_static.mp hlog) ⟨hstop, hle, hpos⟩ le_rfl
    h.min h.last fun _ ↦ rfl
  obtain ⟨-, hend⟩ := hlogs₀.unique (hlogs _ _ hlog')
  have hle : u₀.nodes ≤ t.nodes := by
    cases hend
    exact hlog'.nodes_le h.min
  omega

/-- The rest of a search that comes to an end does so too. -/
private theorem Search.rest_ends {log₁ log₀ : List (List ℤ)} {spent total₀ code₀ : ℤ}
    {o₁ o₀' : OgrState} (hsearch : Search pchoose o log₁ spent CORE_S_CONTINUE o₁) (h : o.Going)
    (hready : o₁.Ready pchoose) (hcode₀ : code₀ ≠ CORE_S_CONTINUE)
    (hwhole : Search pchoose o log₀ total₀ code₀ o₀') :
    ∃ log total o', Search pchoose o₁ log total code₀ o' := by
  -- a call whose budget is more than all nodes of the search
  have hpos : 0 < max 1 (total₀ + 1) := by omega
  obtain ⟨fuel, code, spent₁, o', hcall⟩ := hready.returns hpos
  obtain ⟨log, hrest⟩ := Search.ofCall hpos hcall
  by_cases hcode : code = CORE_S_CONTINUE
  · subst hcode
    obtain ⟨-, hgoing, hspent, -⟩ := hsearch.follows h rfl
    obtain ⟨-, ⟨-, hready'⟩ | ⟨hne, -⟩ | hne⟩ := hready.call hpos hcall
    · have hle := (hsearch.append hrest).le_total h hready' hcode₀ hwhole
      obtain ⟨log', hvisits⟩ := visits_of_call hcall
      obtain ⟨-, -, hspent₁, -⟩ := hgoing.call hpos hcall hvisits
      omega
    · exact absurd hne (by decide)
    · exact absurd hne (by decide)
  · have hsame := hsearch.joined h (fun _ ↦ Alike.refl _ ∅ _) hcode hcode₀ hrest hwhole
    rw [hsame.2.2.1]
    exact ⟨log, spent₁, o', hrest⟩

/-- A state that goes alike continues a search in the same way. -/
private theorem Search.transparent {log₁ : List (List ℤ)} {spent : ℤ} {o₁ : OgrState}
    {cacheHealthy : Bool} {workstub result : OgrWorkStub} {lastSegment : ℤ}
    (hsearch : Search pchoose o log₁ spent CORE_S_CONTINUE o₁) (h : o.Going)
    (hready : o₁.Ready pchoose) (halike : ∀ nodes, Alike o₁ K (resume o₁ nodes)
      (resume { o₁ with depth := depth, levels := levels } nodes))
    (hresult : ogrGetresult o₁ workstub = some result)
    (hrebuilt : ogrCreate pchoose cacheHealthy result lastSegment =
      .ok { o₁ with depth := depth, levels := levels }) :
    CheckpointTransparent pchoose cacheHealthy workstub lastSegment o log₁ spent o₁ := by
  obtain ⟨⟨depth₁, levels₁, ho₁⟩, hgoing, -⟩ := hsearch.follows h rfl
  refine ⟨result, _, hresult, hrebuilt, fun log total code o' hrest ↦ hrest.alike hgoing halike,
    ?_, ?_, ?_⟩
  · intro log total code o'' hrest
    obtain ⟨o', hback, hends⟩ := hrest.alike_back hgoing halike
    refine ⟨o', hback, hends.symm ?_⟩
    rw [hrest.maxdepthm1, hback.maxdepthm1]
  · intro log₀ total₀ code₀ o₀' hcode₀ hwhole
    obtain ⟨log, total, o', hrest⟩ := hsearch.rest_ends h hready hcode₀ hwhole
    obtain ⟨o'', hrest', -⟩ := hrest.alike hgoing halike
    exact ⟨log, total, o'', hrest'⟩
  · intro log total code o' log₀ total₀ code₀ o₀' hcode hcode₀ hrest hwhole
    exact hsearch.joined h halike hcode hcode₀ hrest hwhole

end

/-- **Checkpoints are transparent** for a stub that leaves a mark to be searched. -/
theorem checkpointTransparent_of_continue {cacheHealthy : Bool} {workstub : OgrWorkStub}
    {lastSegment : ℤ} {o₀ o₁ : OgrState} {log₁ : List (List ℤ)} {spent : ℤ}
    (hdiffs : ∀ i < workstub.placed, 0 < stubDiff workstub.stub.diffs i)
    (hcreate : ogrCreate pchoose cacheHealthy workstub lastSegment = .ok o₀)
    (hplaced : workstub.placed < o₀.maxdepthm1)
    (hsearch : Search pchoose o₀ log₁ spent CORE_S_CONTINUE o₁) :
    CheckpointTransparent pchoose cacheHealthy workstub lastSegment o₀ log₁ spent o₁ := by
  have hcreated := created_of_ogrCreate hdiffs hcreate
  have hgoing := going_of_ogrCreate hdiffs hcreate hplaced
  obtain ⟨hmin, hmax, rfl, -, levels₀, -, rfl⟩ := ogrCreate_eq_ok_iff.mp hcreate
  have hstart : ((created workstub lastSegment levels₀).startdepth : ℤ) ≤
      (created workstub lastSegment levels₀).stopdepth + 1 := by
    dsimp only [created]
    split_ifs <;> omega
  obtain ⟨hready, d, hnew⟩ := hsearch.atNew rfl hcreated.ready hgoing hstart
  obtain ⟨⟨depth, levels, rfl⟩, -⟩ := hsearch.follows hgoing rfl
  obtain rfl : depth = d := hnew.depth
  have hready' : (ofStub workstub lastSegment d levels).Ready pchoose := hready
  have hnew' : (ofStub workstub lastSegment d levels).AtNew d := hnew
  obtain ⟨result, levels', hresult, hrebuilt, halike⟩ :=
    ogrCreate_getresult hmin hmax hready' hnew'
  exact hsearch.transparent hgoing hready' halike hresult hrebuilt

theorem checkpointTransparent_shortest : ∃ (o₀ o₁ : OgrState) (log₁ : List (List ℤ)) (spent : ℤ),
    Search (fun _ ↦ 333#16) o₀ log₁ spent CORE_S_CONTINUE o₁ ∧
      CheckpointTransparent (fun _ ↦ 333#16) true shortestStub 0 o₀ log₁ spent o₁ := by
  have hrun : ((ogrCreate (fun _ ↦ 333#16) true shortestStub 0).toOption.bind fun o ↦
      (ogrCycleEntry (fun _ ↦ 333#16) 40 o 1).map fun r ↦
        (r.1, decide (shortestStub.placed < o.maxdepthm1))) = some (CORE_S_CONTINUE, true) := by
    decide +kernel
  obtain ⟨o₀, code, spent, o₁, hcreate, hcall, hres⟩ := exists_call hrun
  obtain ⟨rfl, hplaced⟩ := Prod.mk.inj hres
  obtain ⟨log₁, hsearch⟩ := Search.ofCall (by decide) hcall
  have hdiffs : ∀ i < shortestStub.placed, 0 < stubDiff shortestStub.stub.diffs i := by
    decide +kernel
  exact ⟨o₀, o₁, log₁, spent, hsearch,
    checkpointTransparent_of_continue hdiffs hcreate (of_decide_eq_true hplaced) hsearch⟩

/-- All marks of a ruler, nine of them 300 apart. -/
def rulerStub : OgrWorkStub :=
  .ofDiffs 21 20 20 [2, 4, 18, 5, 11, 3, 12, 13, 7, 1, 9, 300, 300, 300, 300, 300, 300, 300,
    300, 300]

/-- **With a stub that leaves no mark** the search from the rebuilt state counts two nodes less. -/
theorem not_checkpointTransparent_of_ruler_stub :
    ¬∀ (pchoose : ℕ → U16) (cacheHealthy : Bool) (workstub : OgrWorkStub) (lastSegment spent : ℤ)
      (o₀ o₁ : OgrState) (log₁ : List (List ℤ)),
      (∀ i < workstub.placed, 0 < stubDiff workstub.stub.diffs i) →
      ogrCreate pchoose cacheHealthy workstub lastSegment = .ok o₀ →
      Search pchoose o₀ log₁ spent CORE_S_CONTINUE o₁ →
      CheckpointTransparent pchoose cacheHealthy workstub lastSegment o₀ log₁ spent o₁ := by
  intro hall
  have hrun : ((ogrCreate (fun _ ↦ 2881#16) true rulerStub 0).toOption.bind fun o ↦
      (ogrCycleEntry (fun _ ↦ 2881#16) 10 o 1).map fun r ↦ (r.1, r.2.1,
        (ogrCycleEntry (fun _ ↦ 2881#16) 200 o 2000).map (fun r ↦ (r.1, r.2.1)),
        (ogrGetresult r.2.2 rulerStub).bind fun result ↦
          (ogrCreate (fun _ ↦ 2881#16) true result 0).toOption.bind fun o ↦
            (ogrCycleEntry (fun _ ↦ 2881#16) 200 o 2000).map fun r ↦ (r.1, r.2.1))) =
      some (CORE_S_CONTINUE, 1, some (CORE_S_SUCCESS, 31), some (CORE_S_SUCCESS, 29)) := by
    decide +kernel
  obtain ⟨o₀, code, spent, o₁, hcreate, hcall, hres⟩ := exists_call hrun
  simp only [Prod.mk.injEq] at hres
  obtain ⟨rfl, rfl, hwhole, hrest⟩ := hres
  obtain ⟨⟨code₀, total₀, o₀'⟩, hcall₀, hends₀⟩ := Option.map_eq_some_iff.mp hwhole
  obtain ⟨result, hresult, hrest⟩ := Option.bind_eq_some_iff.mp hrest
  obtain ⟨o₂, code, total, o', hcreate₂, hcall₂, hends⟩ := exists_call hrest
  obtain ⟨rfl, rfl⟩ := Prod.mk.inj hends₀
  obtain ⟨rfl, rfl⟩ := Prod.mk.inj hends
  obtain ⟨log₁, hsearch⟩ := Search.ofCall (by decide) hcall
  obtain ⟨log₀, hsearch₀⟩ := Search.ofCall (by decide) hcall₀
  obtain ⟨log, hsearch₂⟩ := Search.ofCall (by decide) hcall₂
  have hdiffs : ∀ i < rulerStub.placed, 0 < stubDiff rulerStub.stub.diffs i := by decide +kernel
  obtain ⟨_, o, hresult', hrebuilt, -, -, -, hjoined⟩ :=
    hall _ _ _ _ _ _ _ _ hdiffs hcreate hsearch
  cases hresult.symm.trans hresult'
  cases hcreate₂.symm.trans hrebuilt
  have htotal := (hjoined _ _ _ _ _ _ _ _ (by decide) (by decide) hsearch₂ hsearch₀).2.1
  exact absurd htotal (by decide)

end Hyunjin
