import Hyunjin.Trigger.Conditions

/-!
# A check for a pause

What each part of a check sets the flags of the pause trigger to (`Sets`), and from these what a
whole check does (`pollPause_spec`). The list of programs is never read past its end, since the
place of the active program is always one of the list (`Triggers.Placed`): a check first lets go of
the program that was active (`Triggers.letGo`) and then looks for another one.
-/

namespace Hyunjin.Trigger

open Run

/-! ## Flags that are set and cleared -/

section Frame

variable {t t' : Triggers}

/-- The two states differ in the pause flags, and in what has been told about pauses. -/
structure Frame (t t' : Triggers) : Prop where
  doingmodes : t'.doingmodes = t.doingmodes
  exits : t'.exits = t.exits
  pauseplist : t'.pauses.pauseplist = t.pauses.pauseplist
  notes : ∃ new, t'.notes = t.notes ++ new ∧ ∀ note ∈ new, ∀ found restarting,
    note ≠ .broken found restarting

theorem Frame.refl (t : Triggers) : Frame t t :=
  ⟨rfl, rfl, rfl, [], (List.append_nil _).symm, fun _ hnote ↦ absurd hnote List.not_mem_nil⟩

theorem Frame.trans {t'' : Triggers} (h : Frame t t') (h' : Frame t' t'') : Frame t t'' := by
  obtain ⟨new, hnew, hnone⟩ := h.notes
  obtain ⟨new', hnew', hnone'⟩ := h'.notes
  refine ⟨h'.doingmodes.trans h.doingmodes, h'.exits.trans h.exits,
    h'.pauseplist.trans h.pauseplist, new ++ new', ?_, ?_⟩
  · rw [hnew', hnew, List.append_assoc]
  · intro note hnote
    rcases List.mem_append.mp hnote with hnote | hnote
    · exact hnone note hnote
    · exact hnone' note hnote

/-- The flags of the pause trigger. -/
def Triggers.has (t : Triggers) (r : Reason) : Bool := flags.has t.pauses.pausetrig.trigger r

/-- The flags that have been told of. -/
def Triggers.hadLast (t : Triggers) (r : Reason) : Bool := flags.has t.pauses.pausetrig.laststate r

@[simp]
theorem has_setFlag (t : Triggers) (why : Reason) (on : Bool) (r : Reason) :
    (t.setFlag why on).has r = if why = r then on else t.has r := by
  have hmask : why.mask = flags.mask why := rfl
  cases on with
  | true =>
    rw [Triggers.has, Triggers.setFlag, if_pos rfl, hmask, flags.has_or_mask]
    by_cases hr : why = r <;> simp [hr, Triggers.has]
  | false =>
    rw [Triggers.has, Triggers.setFlag, if_neg Bool.false_ne_true, hmask, flags.has_and_not_mask]
    by_cases hr : why = r <;> simp [hr, Triggers.has]

/-- What a check needs besides the flags. -/
structure Rest where
  pauseIfNoMainsPower : Bool
  cputemp : Cputemp
  flagfile : Option (List U8)
  whenon : ℕ
  whenoff : ℕ
  nextcheck : ℤ

def Triggers.rest (t : Triggers) : Rest :=
  ⟨t.pauses.pauseIfNoMainsPower, t.pauses.cputemp, t.pauses.pausetrig.flagfile,
    t.pauses.pausetrig.whenon, t.pauses.pausetrig.whenoff, t.pauses.pausetrig.nextcheck⟩

/-- Some flags are set to new values, and nothing is told of but a program that was active. -/
structure Sets (set : Reason → Option Bool) (t t' : Triggers) : Prop extends Frame t t' where
  has : ∀ r, t'.has r = (set r).getD (t.has r)
  known : flags.Known t.pauses.pausetrig.trigger → flags.Known t'.pauses.pausetrig.trigger
  laststate : t'.pauses.pausetrig.laststate = t.pauses.pausetrig.laststate

theorem Sets.refl (t : Triggers) : Sets (fun _ ↦ none) t t :=
  ⟨Frame.refl t, fun _ ↦ rfl, id, rfl⟩

theorem Sets.trans {set set' : Reason → Option Bool} {t'' : Triggers} (h : Sets set t t')
    (h' : Sets set' t' t'') : Sets (fun r ↦ (set' r).or (set r)) t t'' := by
  refine ⟨h.toFrame.trans h'.toFrame, fun r ↦ ?_, h'.known ∘ h.known,
    h'.laststate.trans h.laststate⟩
  rw [h'.has, h.has]
  cases set' r <;> rfl

theorem Sets.congr {set set' : Reason → Option Bool} (h : Sets set t t')
    (hset : ∀ r, (set' r).getD (t.has r) = (set r).getD (t.has r)) : Sets set' t t' :=
  ⟨h.toFrame, fun r ↦ (h.has r).trans (hset r).symm, h.known, h.laststate⟩

/-- The new value of one flag. -/
def only (why : Reason) (on : Bool) (r : Reason) : Option Bool := if why = r then some on else none

/-- A flag that is set to what it is. -/
theorem Sets.same {t : Triggers} {why : Reason} {on : Bool} (h : t.has why = on) :
    Sets (only why on) t t := by
  refine (Sets.refl t).congr fun r ↦ ?_
  rw [only]
  split_ifs with hr
  · rw [← hr, h]
    rfl
  · rfl

theorem sets_setFlag (t : Triggers) (why : Reason) (on : Bool) :
    Sets (only why on) t (t.setFlag why on) := by
  refine ⟨⟨rfl, rfl, rfl, [], (List.append_nil _).symm,
    fun _ hnote ↦ absurd hnote List.not_mem_nil⟩, fun r ↦ ?_, fun h ↦ ?_, rfl⟩
  · rw [has_setFlag, only]
    split_ifs <;> rfl
  · rw [Triggers.setFlag]
    dsimp only
    split_ifs
    · exact h.or_mask why
    · exact h.and _

/-! ## The parts of a check -/

theorem sets_pollDefrag (p : Platform) (defrag : Bool) (t : Triggers) :
    Sets (fun r ↦ if p.windows then only .custom defrag r else none) t (t.pollDefrag p defrag) := by
  rw [Triggers.pollDefrag]
  split_ifs
  · exact sets_setFlag t .custom defrag
  · exact Sets.refl t

theorem rest_pollDefrag (p : Platform) (defrag : Bool) (t : Triggers) :
    (t.pollDefrag p defrag).rest = t.rest ∧
      (t.pollDefrag p defrag).pauses.lastactivep = t.pauses.lastactivep ∧
      (t.pollDefrag p defrag).notes = t.notes := by
  rw [Triggers.pollDefrag]
  split_ifs <;> exact ⟨rfl, rfl, rfl⟩

/-! ## The programs of the list -/

/-- The place of the program that is active. -/
def Triggers.active (t : Triggers) : Option ℕ :=
  if t.has .appActive then some t.pauses.lastactivep else none

/-- The place of the active program is one of the list. -/
def Triggers.Placed (t : Triggers) : Prop := ∀ idx ∈ t.active, idx < t.pauses.pauseplist.length

/-- The first of `n` places whose program is active. -/
def firstApp (running : ℕ → Bool) (n : ℕ) : Option ℕ := (List.range n).find? running

/-- The active program stays while it runs. -/
def nextApp (running : ℕ → Bool) (n : ℕ) (active : Option ℕ) : Option ℕ :=
  if active.any running then active else firstApp running n

/-- Some program of the list is active. -/
def Triggers.anyApp (running : ℕ → Bool) (t : Triggers) : Bool :=
  (List.range t.pauses.pauseplist.length).any running

/-- The program that was active has stopped. -/
def Triggers.stopped (running : ℕ → Bool) (t : Triggers) : Bool :=
  t.has .appActive && !running t.pauses.lastactivep

/-- What is told when the active program has stopped. -/
def Triggers.stoppedNotes (running : ℕ → Bool) (t : Triggers) : List Note :=
  if t.stopped running then
    [.resumed (t.pauses.pausetrig.laststate &&& ~~~TRIGPAUSEBY_APPACTIVE != 0#32) .appActive
      (literal "('" ++ (t.pauses.pauseplist[t.pauses.lastactivep]?).getD [] ++
        literal "' inactive)")]
  else []

/-- Lets go of the active program when it has stopped. -/
def Triggers.letGo (running : ℕ → Bool) (t : Triggers) : Triggers :=
  if t.stopped running then
    { t.setFlag .appActive false with
      pauses.lastactivep := 0
      notes := t.notes ++ t.stoppedNotes running }
  else t

theorem appActive_eq_zero (t : Triggers) :
    t.pauses.pausetrig.trigger &&& TRIGPAUSEBY_APPACTIVE = 0#32 ↔ t.has .appActive = false :=
  flags.and_mask_eq_zero (i := .appActive)

theorem lt_of_firstApp {running : ℕ → Bool} {n idx : ℕ} (h : idx ∈ firstApp running n) :
    idx < n :=
  List.mem_range.mp (List.mem_of_find?_eq_some h)

theorem isSome_firstApp (running : ℕ → Bool) (n : ℕ) :
    (firstApp running n).isSome = (List.range n).any running := by
  rw [firstApp, Bool.eq_iff_iff, List.find?_isSome, List.any_eq_true]

theorem anyApp_eq_true {running : ℕ → Bool} {t : Triggers} {idx : ℕ} (hrun : running idx = true)
    (hidx : idx < t.pauses.pauseplist.length) : t.anyApp running = true :=
  List.any_eq_true.mpr ⟨idx, List.mem_range.mpr hidx, hrun⟩

/-- What a look at the processes does. -/
structure Looked (running : ℕ → Bool) (t t' : Triggers) : Prop where
  sets : Sets (only .appActive (t.anyApp running)) t t'
  rest : t'.rest = t.rest
  active : t'.active = nextApp running t.pauses.pauseplist.length t.active
  notes : t'.notes = t.notes ++ t.stoppedNotes running

theorem placed_of_nextApp {running : ℕ → Bool} {t t' : Triggers}
    (hactive : t'.active = nextApp running t.pauses.pauseplist.length t.active)
    (hlist : t'.pauses.pauseplist = t.pauses.pauseplist) (hplaced : t.Placed) : t'.Placed := by
  intro idx hidx
  rw [hactive, nextApp] at hidx
  rw [hlist]
  split_ifs at hidx
  · exact hplaced idx hidx
  · exact lt_of_firstApp hidx

theorem clearApp_eq (running : ℕ → Bool) {t : Triggers} (hplaced : t.Placed) :
    t.clearApp running =
      some (t.letGo running, if t.stopped running then some t.pauses.lastactivep else none) := by
  rw [Triggers.clearApp, Triggers.letGo, Triggers.stoppedNotes]
  cases hactive : t.has .appActive with
  | false =>
    have hstopped : t.stopped running = false := by rw [Triggers.stopped, hactive]; rfl
    rw [if_pos ((appActive_eq_zero t).mpr hactive), hstopped]
    rfl
  | true =>
    have hne : ¬ t.pauses.pausetrig.trigger &&& TRIGPAUSEBY_APPACTIVE = 0#32 := by
      rw [appActive_eq_zero, hactive]
      exact Bool.noConfusion
    have hplace : t.pauses.lastactivep < t.pauses.pauseplist.length :=
      hplaced _ (by rw [Triggers.active, hactive]; rfl)
    rw [if_neg hne, List.getElem?_eq_getElem hplace]
    cases hrun : running t.pauses.lastactivep with
    | true =>
      have hstopped : t.stopped running = false := by rw [Triggers.stopped, hactive, hrun]; rfl
      rw [hstopped]
      rfl
    | false =>
      have hstopped : t.stopped running = true := by rw [Triggers.stopped, hactive, hrun]; rfl
      rw [hstopped]
      rfl

/-- The search leaves out only a place whose program is not active. -/
theorem findApp_place {running : ℕ → Bool} {nowcleared : Option ℕ}
    (hcleared : ∀ idx ∈ nowcleared, running idx = false) (plist : List (List U8)) :
    (plist.zipIdx.find? fun app ↦ nowcleared != some app.2 && running app.2).map Prod.snd =
      firstApp running plist.length := by
  have hsame : (fun app : List U8 × ℕ ↦ nowcleared != some app.2 && running app.2) =
      running ∘ Prod.snd := by
    funext app
    cases hrun : running app.2 with
    | false => rw [Bool.and_false, Function.comp_apply, hrun]
    | true =>
      have hne : nowcleared ≠ some app.2 := by
        intro h
        rw [hcleared app.2 h] at hrun
        exact Bool.noConfusion hrun
      rw [Bool.and_true, Function.comp_apply, hrun, bne_iff_ne]
      exact hne
  rw [hsame, ← List.find?_map, List.zipIdx_map_snd, firstApp, List.range_eq_range']

/-- Looking for an active program while there is none. -/
theorem findApp_spec (running : ℕ → Bool) {nowcleared : Option ℕ} {t : Triggers}
    (hcleared : ∀ idx ∈ nowcleared, running idx = false) (hnone : t.has .appActive = false) :
    Sets (only .appActive (t.anyApp running)) t (t.findApp running nowcleared).1 ∧
      (t.findApp running nowcleared).1.rest = t.rest ∧
      (t.findApp running nowcleared).1.active = firstApp running t.pauses.pauseplist.length ∧
      (t.findApp running nowcleared).1.notes = t.notes := by
  have hplace := findApp_place hcleared t.pauses.pauseplist
  have hany : t.anyApp running = (firstApp running t.pauses.pauseplist.length).isSome :=
    (isSome_firstApp running _).symm
  rw [Triggers.findApp, if_pos ((appActive_eq_zero t).mpr hnone), hany, ← hplace]
  cases t.pauses.pauseplist.zipIdx.find? fun app ↦
      nowcleared != some app.2 && running app.2 with
  | none =>
    refine ⟨Sets.same hnone, rfl, ?_, rfl⟩
    rw [Triggers.active, hnone]
    rfl
  | some app =>
    have hset := sets_setFlag t .appActive true
    refine ⟨⟨⟨rfl, rfl, rfl, hset.notes⟩, hset.has, hset.known, rfl⟩, rfl, ?_, rfl⟩
    exact if_pos ((hset.has .appActive).trans rfl)

/-- The active program has stopped: it is let go, and another one is looked for. -/
theorem looked_of_stopped (running : ℕ → Bool) {t : Triggers}
    (hstopped : t.stopped running = true) : Looked running t
      ((t.letGo running).findApp running (some t.pauses.lastactivep)).1 := by
  obtain ⟨hactive, hrun⟩ := Bool.and_eq_true_iff.mp hstopped
  have hgone : t.letGo running = { t.setFlag .appActive false with
      pauses.lastactivep := 0
      notes := t.notes ++ t.stoppedNotes running } := if_pos hstopped
  have hnew : ∀ note ∈ t.stoppedNotes running, ∀ found restarting,
      note ≠ .broken found restarting := by
    intro note hnote found restarting heq
    rw [Triggers.stoppedNotes, if_pos hstopped] at hnote
    rw [List.mem_singleton.mp hnote] at heq
    exact Note.noConfusion heq
  have hset := sets_setFlag t .appActive false
  have hgoes : Sets (only .appActive false) t (t.letGo running) := by
    rw [hgone]
    exact ⟨⟨rfl, rfl, rfl, _, rfl, hnew⟩, hset.has, hset.known, rfl⟩
  have hcleared : ∀ idx ∈ some t.pauses.lastactivep, running idx = false := by
    intro idx hidx
    rw [← Option.mem_some_iff.mp hidx]
    exact (Bool.not_eq_true' _).mp hrun
  have hnone : (t.letGo running).has .appActive = false := hgoes.has .appActive
  have hany : (t.letGo running).anyApp running = t.anyApp running := by
    rw [Triggers.anyApp, hgoes.pauseplist]
    rfl
  obtain ⟨hfind, hrest, hfindActive, hnotes⟩ := findApp_spec running hcleared hnone
  rw [hany] at hfind
  rw [hgoes.pauseplist] at hfindActive
  refine ⟨(hgoes.trans hfind).congr fun r ↦ ?_, hrest.trans (by rw [hgone]; rfl), ?_,
    hnotes.trans (by rw [hgone])⟩
  · rw [only, only]
    split_ifs <;> rfl
  · rw [hfindActive, Triggers.active, hactive, if_pos rfl, nextApp, Option.any_some,
      (Bool.not_eq_true' _).mp hrun]
    rfl

/-- The active program still runs, or there is none and one is looked for. -/
theorem looked_of_not_stopped (running : ℕ → Bool) {t : Triggers} (hplaced : t.Placed)
    (hstopped : t.stopped running = false) :
    Looked running t ((t.letGo running).findApp running none).1 := by
  have hsame : t.letGo running = t := by rw [Triggers.letGo, hstopped]; rfl
  have hquiet : t.notes = t.notes ++ t.stoppedNotes running := by
    rw [Triggers.stoppedNotes, hstopped]
    exact (List.append_nil _).symm
  rw [hsame]
  cases hactive : t.has .appActive with
  | false =>
    have hcleared : ∀ idx ∈ (none : Option ℕ), running idx = false :=
      fun idx hidx ↦ absurd hidx (Option.not_mem_none idx)
    obtain ⟨hfind, hrest, hfindActive, hnotes⟩ := findApp_spec running hcleared hactive
    refine ⟨hfind, hrest, hfindActive.trans ?_, hnotes.trans hquiet⟩
    rw [Triggers.active, hactive]
    rfl
  | true =>
    have hrun : running t.pauses.lastactivep = true := by
      rw [Triggers.stopped, hactive, Bool.true_and, Bool.not_eq_false'] at hstopped
      exact hstopped
    have hne : ¬ t.pauses.pausetrig.trigger &&& TRIGPAUSEBY_APPACTIVE = 0#32 := by
      rw [appActive_eq_zero, hactive]
      exact Bool.noConfusion
    have hstays : t.active = some t.pauses.lastactivep := if_pos hactive
    have hfind : t.findApp running none = (t, []) := by rw [Triggers.findApp, if_neg hne]
    rw [hfind]
    refine ⟨?_, rfl, ?_, hquiet⟩
    · rw [anyApp_eq_true hrun (hplaced _ hstays)]
      exact Sets.same hactive
    · rw [hstays, nextApp, Option.any_some, hrun]
      rfl

/-- **The list of programs** is never read past its end, and after a look at the processes the flag
says whether a program of the list is active. -/
theorem pollApps_spec (running : ℕ → Bool) {t : Triggers} (hplaced : t.Placed) :
    ∃ polled, t.pollApps running = some polled ∧ Looked running t polled.1 := by
  rw [Triggers.pollApps]
  by_cases hempty : t.pauses.pauseplist = []
  · have hnone : t.has .appActive = false := by
      refine eq_false_of_ne_true fun hactive ↦ ?_
      have hlt := hplaced t.pauses.lastactivep (if_pos hactive)
      rw [hempty] at hlt
      exact absurd hlt (Nat.not_lt_zero _)
    have hstopped : t.stopped running = false := by rw [Triggers.stopped, hnone]; rfl
    rw [if_pos hempty]
    refine ⟨_, rfl, ?_, rfl, ?_, ?_⟩
    · rw [Triggers.anyApp, hempty]
      exact Sets.same hnone
    · rw [Triggers.active, hnone, hempty]
      rfl
    · rw [Triggers.stoppedNotes, hstopped]
      exact (List.append_nil _).symm
  · rw [if_neg hempty, clearApp_eq running hplaced]
    refine ⟨_, rfl, ?_⟩
    cases hstopped : t.stopped running with
    | true => exact looked_of_stopped running hstopped
    | false => exact looked_of_not_stopped running hplaced hstopped

/-- What is set when the power supply has been asked about. -/
theorem sets_pollBattery (mains : Mains) (t : Triggers) :
    Sets (fun r ↦ if t.pauses.pauseIfNoMainsPower then
        mains.onBattery.bind fun on ↦ only .srcBattery on r else none) t (t.pollBattery mains) := by
  rw [Triggers.pollBattery]
  split_ifs with hasked
  · have hframe : Frame t { t with pauses.pauseIfNoMainsPower := decide (mains ≠ .unavailable) } :=
      ⟨rfl, rfl, rfl, [], (List.append_nil _).symm, fun _ hnote ↦ absurd hnote List.not_mem_nil⟩
    cases hon : mains.onBattery with
    | none => exact ⟨hframe, fun _ ↦ rfl, id, rfl⟩
    | some on =>
      have hset := sets_setFlag
        { t with pauses.pauseIfNoMainsPower := decide (mains ≠ .unavailable) } .srcBattery on
      exact ⟨hframe.trans hset.toFrame, hset.has, hset.known, hset.laststate⟩
  · exact Sets.refl t

theorem rest_pollBattery (mains : Mains) (t : Triggers) :
    (t.pollBattery mains).rest =
      { t.rest with pauseIfNoMainsPower :=
          t.pauses.pauseIfNoMainsPower && decide (mains ≠ .unavailable) } ∧
      (t.pollBattery mains).pauses.lastactivep = t.pauses.lastactivep ∧
      (t.pollBattery mains).notes = t.notes := by
  rw [Triggers.pollBattery]
  split_ifs with hasked
  · rw [hasked]
    cases mains <;> exact ⟨rfl, rfl, rfl⟩
  · rw [eq_false_of_ne_true hasked]
    exact ⟨by rw [Triggers.rest, eq_false_of_ne_true hasked]; rfl, rfl, rfl⟩

theorem cpuTemperaturePoll_notes (p : Platform) (cputemp : ℤ) (c : Cputemp) :
    ∀ note ∈ (cpuTemperaturePoll p cputemp c).2.2, note = .disabled := by
  intro note hnote
  rw [cpuTemperaturePoll] at hnote
  by_cases hused : 0 < c.lothresh.toInt ∧ c.lothresh.toInt ≤ c.hithresh.toInt
  · rw [if_pos hused] at hnote
    by_cases hfails : cputemp < 0
    · rw [if_pos hfails] at hnote
      exact absurd hnote List.not_mem_nil
    · rw [if_neg hfails] at hnote
      exact absurd hnote List.not_mem_nil
  · rw [if_neg hused] at hnote
    by_cases hodd : c.hithresh.toInt < c.lothresh.toInt
    · rw [if_pos hodd] at hnote
      exact List.mem_singleton.mp hnote
    · rw [if_neg hodd] at hnote
      exact absurd hnote List.not_mem_nil

theorem sets_pollTemperature (p : Platform) (cputemp : ℤ) (t : Triggers) :
    Sets (fun r ↦ (cpuTemperaturePoll p cputemp t.pauses.cputemp).2.1.bind fun on ↦
      only .cpuTemp on r) t (t.pollTemperature p cputemp) := by
  have htold := cpuTemperaturePoll_notes p cputemp t.pauses.cputemp
  rw [Triggers.pollTemperature]
  generalize cpuTemperaturePoll p cputemp t.pauses.cputemp = polled at htold ⊢
  obtain ⟨c, answer, new⟩ := polled
  have hframe : Frame t { t with pauses.cputemp := c, notes := t.notes ++ new } := by
    refine ⟨rfl, rfl, rfl, new, rfl, ?_⟩
    intro note hnote found restarting heq
    have hdisabled := htold note hnote
    rw [heq] at hdisabled
    exact Note.noConfusion hdisabled
  cases answer with
  | none => exact ⟨hframe, fun _ ↦ rfl, id, rfl⟩
  | some on =>
    have hset := sets_setFlag { t with pauses.cputemp := c, notes := t.notes ++ new } .cpuTemp on
    exact ⟨hframe.trans hset.toFrame, hset.has, hset.known, hset.laststate⟩

theorem rest_pollTemperature (p : Platform) (cputemp : ℤ) (t : Triggers) :
    (t.pollTemperature p cputemp).rest =
      { t.rest with cputemp := (cpuTemperaturePoll p cputemp t.pauses.cputemp).1 } ∧
      (t.pollTemperature p cputemp).pauses.lastactivep = t.pauses.lastactivep ∧
      (t.pollTemperature p cputemp).notes =
        t.notes ++ (cpuTemperaturePoll p cputemp t.pauses.cputemp).2.2 := by
  rw [Triggers.pollTemperature]
  rcases cpuTemperaturePoll p cputemp t.pauses.cputemp with ⟨c, answer, new⟩
  cases answer <;> exact ⟨rfl, rfl, rfl⟩

/-- The flag file is looked for. -/
def Triggers.pollPausefile (seen : PauseSeen) (t : Triggers) : Triggers :=
  { t with pauses.pausetrig :=
      pollExternalTrigger t.pauses.pausetrig true seen.clock seen.pausefile }

/-- What the trigger knows of the flag file. -/
structure Watches (w : FileWatch) (t : Triggers) : Prop where
  found : t.has .flagfile = w.found
  nextcheck : t.pauses.pausetrig.nextcheck = w.nextcheck
  whenon : t.pauses.pausetrig.whenon = PAUSEFILE_CHECKTIME_WHENON
  whenoff : t.pauses.pausetrig.whenoff = PAUSEFILE_CHECKTIME_WHENOFF

theorem pollExternalTrigger_of_not_watched {trig : Trigstruct} (h : trig.flagfile.isSome = false)
    (clock : Option ℤ) (found : Bool) : pollExternalTrigger trig true clock found = trig := by
  unfold pollExternalTrigger
  rw [if_neg]
  intro hlook
  rw [h] at hlook
  exact Bool.noConfusion hlook.2

theorem pollExternalTrigger_of_watched {trig : Trigstruct} (h : trig.flagfile.isSome = true)
    (now : ℤ) (found : Bool) :
    pollExternalTrigger trig true (some now) found =
      if now < trig.nextcheck then trig
      else
        { trig with
          nextcheck := now + if found then trig.whenon else trig.whenoff
          trigger := if found then trig.trigger ||| TRIGSETBY_FLAGFILE
            else trig.trigger &&& ~~~TRIGSETBY_FLAGFILE } := by
  unfold pollExternalTrigger
  rw [if_pos ⟨Or.inl rfl, h⟩]
  cases found <;> rfl

theorem sets_pollPausefile (seen : PauseSeen) {t : Triggers} {w : FileWatch} (hw : Watches w t) :
    let w' := if t.pauses.pausetrig.flagfile.isSome then w.look seen else w
    Sets (only .flagfile w'.found) t (t.pollPausefile seen) ∧
      (t.pollPausefile seen).rest = { t.rest with nextcheck := w'.nextcheck } := by
  have hrest : t.rest = { t.rest with nextcheck := w.nextcheck } := by
    rw [← hw.nextcheck]
    rfl
  intro w'
  rw [Triggers.pollPausefile]
  cases hfile : t.pauses.pausetrig.flagfile.isSome with
  | false =>
    have hw' : w' = w := if_neg (by rw [hfile]; exact Bool.false_ne_true)
    rw [pollExternalTrigger_of_not_watched hfile, hw']
    exact ⟨Sets.same hw.found, hrest⟩
  | true =>
    have hw' : w' = w.look seen := if_pos hfile
    rw [hw', FileWatch.look]
    cases seen.clock with
    | none =>
      have hnone : pollExternalTrigger t.pauses.pausetrig true none seen.pausefile =
          t.pauses.pausetrig := by
        unfold pollExternalTrigger
        exact ite_self _
      rw [hnone]
      exact ⟨Sets.same hw.found, hrest⟩
    | some now =>
      rw [pollExternalTrigger_of_watched hfile, hw.nextcheck]
      dsimp only
      by_cases hearly : now < w.nextcheck
      · rw [if_pos hearly, if_pos hearly]
        exact ⟨Sets.same hw.found, hrest⟩
      · rw [if_neg hearly, if_neg hearly, ← hw.whenon, ← hw.whenoff]
        have hset := sets_setFlag t .flagfile seen.pausefile
        exact ⟨⟨⟨rfl, rfl, rfl, hset.notes⟩, hset.has, hset.known, rfl⟩, rfl⟩

end Frame

/-! ## A check -/

section Check

variable (p : Platform) (s : Settings) (seen : PauseSeen) {t : Triggers} {w : FileWatch}

/-- What a check sets the flags to. -/
def newFlags (t : Triggers) (w : FileWatch) : Reason → Option Bool
  | .signal => none
  | .flagfile => some w.found
  | .custom => if p.windows then some seen.defrag else none
  | .appActive => some (t.anyApp seen.running)
  | .srcBattery => if t.pauses.pauseIfNoMainsPower then seen.mains.onBattery else none
  | .cpuTemp => (cpuTemperaturePoll p seen.cputemp t.pauses.cputemp).2.1

/-- What a check does before it tells of the flags. -/
structure Polled (t : Triggers) (w : FileWatch) (t' : Triggers) : Prop where
  sets : Sets (newFlags p seen t w) t t'
  rest : t'.rest = { t.rest with
    pauseIfNoMainsPower := t.pauses.pauseIfNoMainsPower && decide (seen.mains ≠ .unavailable)
    cputemp := (cpuTemperaturePoll p seen.cputemp t.pauses.cputemp).1
    nextcheck := w.nextcheck }
  active : t'.active = nextApp seen.running t.pauses.pauseplist.length t.active
  notes : t'.notes = t.notes ++ t.stoppedNotes seen.running ++
    (cpuTemperaturePoll p seen.cputemp t.pauses.cputemp).2.2

theorem active_congr {t t' : Triggers} (hhas : t'.has .appActive = t.has .appActive)
    (hplace : t'.pauses.lastactivep = t.pauses.lastactivep) : t'.active = t.active := by
  rw [Triggers.active, Triggers.active, hhas, hplace]

/-- The defragmenter makes no difference to the programs of the list. -/
theorem looked_pollDefrag (hplaced : t.Placed) :
    ∃ polled, (t.pollDefrag p seen.defrag).pollApps seen.running = some polled ∧
      Sets (fun r ↦ (only .appActive (t.anyApp seen.running) r).or
        (if p.windows then only .custom seen.defrag r else none)) t polled.1 ∧
      polled.1.rest = t.rest ∧
      polled.1.active = nextApp seen.running t.pauses.pauseplist.length t.active ∧
      polled.1.notes = t.notes ++ t.stoppedNotes seen.running := by
  have hset := sets_pollDefrag p seen.defrag t
  obtain ⟨hrest, hplace, hnotes⟩ := rest_pollDefrag p seen.defrag t
  have hhas : (t.pollDefrag p seen.defrag).has .appActive = t.has .appActive := by
    rw [hset.has]
    split_ifs <;> rfl
  have hactive := active_congr hhas hplace
  have hplaced' : (t.pollDefrag p seen.defrag).Placed := by
    rw [Triggers.Placed, hactive, hset.pauseplist]
    exact hplaced
  obtain ⟨polled, hpolled, hlooked⟩ := pollApps_spec seen.running hplaced'
  have hsets := hset.trans hlooked.sets
  have hlook := hlooked.active
  have hnew := hlooked.notes
  rw [Triggers.anyApp, hset.pauseplist] at hsets
  rw [hset.pauseplist, hactive] at hlook
  rw [Triggers.stoppedNotes, Triggers.stopped, hhas, hplace, hset.pauseplist, hset.laststate,
    hnotes] at hnew
  exact ⟨polled, hpolled, hsets, hlooked.rest.trans hrest, hlook, hnew⟩

theorem pollPause_spec (hplaced : t.Placed) (hw : Watches w t) :
    ∃ polled, t.pollPause p seen = some polled ∧
      Polled p seen t (if t.pauses.pausetrig.flagfile.isSome then w.look seen else w) polled.1 := by
  obtain ⟨apps, happs, hsetApps, hrest, hactive, hnotes⟩ := looked_pollDefrag p seen hplaced
  have hbattery := sets_pollBattery seen.mains apps.1
  obtain ⟨hbatteryRest, hbatteryPlace, hbatteryNotes⟩ := rest_pollBattery seen.mains apps.1
  have htemp := sets_pollTemperature p seen.cputemp (apps.1.pollBattery seen.mains)
  obtain ⟨htempRest, htempPlace, htempNotes⟩ :=
    rest_pollTemperature p seen.cputemp (apps.1.pollBattery seen.mains)
  have hasked : apps.1.pauses.pauseIfNoMainsPower = t.pauses.pauseIfNoMainsPower :=
    congrArg Rest.pauseIfNoMainsPower hrest
  have hcputemp : (apps.1.pollBattery seen.mains).pauses.cputemp = t.pauses.cputemp :=
    (congrArg Rest.cputemp hbatteryRest).trans (congrArg Rest.cputemp hrest)
  have hset := (hsetApps.trans hbattery).trans htemp
  have hrestTemp := htempRest
  rw [hbatteryRest, hrest, hasked, hcputemp] at hrestTemp
  rw [hasked, hcputemp] at hset
  rw [hcputemp, hbatteryNotes, hnotes] at htempNotes
  -- the flag file is looked for last, with what the trigger knew of it before
  have hw' : Watches w ((apps.1.pollBattery seen.mains).pollTemperature p seen.cputemp) := by
    refine ⟨?_, ?_, ?_, ?_⟩
    · rw [hset.has, ← hw.found]
      simp [only]
    · exact (congrArg Rest.nextcheck hrestTemp).trans hw.nextcheck
    · exact (congrArg Rest.whenon hrestTemp).trans hw.whenon
    · exact (congrArg Rest.whenoff hrestTemp).trans hw.whenoff
  have hwatched : ((apps.1.pollBattery seen.mains).pollTemperature p
      seen.cputemp).pauses.pausetrig.flagfile = t.pauses.pausetrig.flagfile :=
    congrArg Rest.flagfile hrestTemp
  obtain ⟨hfile, hfileRest⟩ := sets_pollPausefile seen hw'
  rw [hwatched] at hfile hfileRest
  have hpolled : t.pollPause p seen = some
      (((apps.1.pollBattery seen.mains).pollTemperature p seen.cputemp).pollPausefile seen,
        apps.2) := by
    rw [Triggers.pollPause, happs]
    rfl
  refine ⟨_, hpolled, (hset.trans hfile).congr fun r ↦ ?_, ?_, ?_, htempNotes⟩
  · cases r with
    | flagfile => rfl
    | appActive => simp [newFlags, only]
    | signal => simp [newFlags, only]
    | custom => simp [newFlags, only]
    | srcBattery => simp [newFlags, only]
    | cpuTemp => simp [newFlags, only]
  · rw [hfileRest, hrestTemp]
  · refine Eq.trans (active_congr ?_ (htempPlace.trans hbatteryPlace)) hactive
    rw [hfile.has, htemp.has, hbattery.has]
    simp [only]

end Check

end Hyunjin.Trigger
