import Hyunjin.Run.Histories
import Hyunjin.Trigger.Exit
import Hyunjin.Trigger.Told

/-!
# Runs of the triggers

What holds of the triggers after every run of signals and checks (`Fits`). From it: a check for a
pause gives the conditions for one (`pause_conditions`), the log says what they are
(`log_tells_conditions`), except about the programs of the list, where it does as long as none takes
the place of another between two checks (`log_tells_apps_iff`), and an exit is for good
(`exits_for_good`).
-/

namespace Hyunjin.Trigger

open Run

variable (p : Platform) (s : Settings)

/-! ## The invariant -/

/-- The active program of the list after some checks. -/
def activeApp (checks : List PauseSeen) : Option ℕ :=
  checks.foldl (fun active seen ↦ nextApp seen.running s.pauseplist.length active) none

/-- What holds whatever has been asked for. -/
structure Sane (t : Triggers) : Prop where
  doingmodes : t.doingmodes = s.doingmodes
  knownExit : flags.Known t.exits.exittrig.trigger
  known : flags.Known t.pauses.pausetrig.trigger
  knownLast : flags.Known t.pauses.pausetrig.laststate
  placed : t.Placed
  tells : ∀ r, r ≠ .appActive → told r t.notes = t.hadLast r
  holds : t.Held

/-- What holds while no exit has been asked for, after these signals and checks. -/
structure Fits (past : List Event) (t : Triggers) : Prop where
  pauseplist : t.pauses.pauseplist = s.pauseplist
  has : ∀ r, t.has r = inForce p s past r
  active : t.active = activeApp s (pauseChecks past)
  asks : t.pauses.pauseIfNoMainsPower = asksMains s ((pauseChecks past).map PauseSeen.mains)
  temp : TempFits p s ((pauseChecks past).map PauseSeen.cputemp) t.pauses.cputemp (t.has .cpuTemp)
  flagfile : t.pauses.pausetrig.flagfile = s.pausefile
  watches : Watches (fileWatch s past) t

/-- The pauses are as they should be unless modes are run or an exit has been asked for. -/
def Triggers.watching (t : Triggers) : Prop :=
  t.doingmodes = false ∧ t.exits.exittrig.trigger = 0#32

/-- The whole invariant. -/
structure Inv (past : List Event) (t : Triggers) : Prop extends Sane s t where
  fits : t.watching → Fits p s past t
  last : t.watching → t.hadLast .appActive = t.has .appActive

/-! ## What an event adds -/

theorem pauseChecks_concat (past : List Event) (event : Event) :
    pauseChecks (past ++ [event]) = pauseChecks past ++ event.pauseSeen.toList := by
  rw [pauseChecks, List.filterMap_append, List.filterMap_cons, List.filterMap_nil]
  cases event.pauseSeen <;> rfl

theorem fileWatch_concat (past : List Event) (seen : PauseSeen) :
    fileWatch s (past ++ [.checkPause seen]) =
      if s.pausefile.isSome then (fileWatch s past).look seen else fileWatch s past := by
  rw [fileWatch, fileWatch, pauseChecks_concat]
  split_ifs
  · exact List.foldl_append
  · rfl

/-- Only the user's signals are conditions that are no matter of a check. -/
theorem inForce_concat_of_no_check (past : List Event) {event : Event}
    (hevent : event.pauseSeen = none) (r : Reason) :
    inForce p s (past ++ [event]) r =
      if r = .signal then event.userPause.getD (inForce p s past .signal)
      else inForce p s past r := by
  have hchecks : pauseChecks (past ++ [event]) = pauseChecks past := by
    rw [pauseChecks_concat, hevent]
    exact List.append_nil _
  have hwatch : fileWatch s (past ++ [event]) = fileWatch s past := by
    rw [fileWatch, fileWatch, hchecks]
  cases r with
  | signal => exact latest_concat _ _ _ _
  | flagfile => simp only [inForce, hwatch, reduceCtorEq, if_false]
  | custom => simp only [inForce, hchecks, reduceCtorEq, if_false]
  | appActive => simp only [inForce, hchecks, reduceCtorEq, if_false]
  | srcBattery => simp only [inForce, hchecks, reduceCtorEq, if_false]
  | cpuTemp => simp only [inForce, hchecks, reduceCtorEq, if_false]

/-- What fits is a matter of the pauses, and not of what has been told. -/
theorem Fits.congr {past past' : List Event} {t t' : Triggers} (h : Fits p s past t)
    (hchecks : pauseChecks past' = pauseChecks past) (hrest : t'.rest = t.rest)
    (hlist : t'.pauses.pauseplist = t.pauses.pauseplist)
    (hplace : t'.pauses.lastactivep = t.pauses.lastactivep)
    (hhas : ∀ r, t'.has r = inForce p s past' r)
    (hsame : ∀ r, r ≠ .signal → t'.has r = t.has r) : Fits p s past' t' := by
  have hwatch : fileWatch s past' = fileWatch s past := by
    rw [fileWatch, fileWatch, hchecks]
  have hwatches := h.watches
  have htemp := h.temp
  have hcputemp : t'.pauses.cputemp = t.pauses.cputemp := congrArg Rest.cputemp hrest
  rw [← hchecks, ← hcputemp, ← hsame .cpuTemp (by decide)] at htemp
  refine ⟨hlist.trans h.pauseplist, hhas, ?_, ?_, htemp,
    (congrArg Rest.flagfile hrest).trans h.flagfile, ?_, ?_, ?_, ?_⟩
  · rw [hchecks, ← h.active]
    exact active_congr (hsame .appActive (by decide)) hplace
  · rw [hchecks, ← h.asks]
    exact congrArg Rest.pauseIfNoMainsPower hrest
  · rw [hwatch, ← hwatches.found]
    exact hsame .flagfile (by decide)
  · rw [hwatch, ← hwatches.nextcheck]
    exact congrArg Rest.nextcheck hrest
  · exact (congrArg Rest.whenon hrest).trans hwatches.whenon
  · exact (congrArg Rest.whenoff hrest).trans hwatches.whenoff

theorem Fits.of_keeps {past : List Event} {t t' : Triggers} (h : Fits p s past t)
    (hkeeps : Keeps t t') : Fits p s past t' := by
  have hhas : ∀ r, t'.has r = t.has r := fun r ↦ by
    rw [Triggers.has, hkeeps.trigger]
    rfl
  exact h.congr p s rfl hkeeps.rest hkeeps.pauseplist hkeeps.lastactivep
    (fun r ↦ (hhas r).trans (h.has r)) fun r _ ↦ hhas r

theorem Fits.of_pauses_eq {past : List Event} {t t' : Triggers} (h : Fits p s past t)
    (hpauses : t'.pauses = t.pauses) : Fits p s past t' := by
  have hhas : ∀ r, t'.has r = t.has r := fun r ↦ by
    rw [Triggers.has, hpauses]
    rfl
  exact h.congr p s rfl (by rw [Triggers.rest, hpauses]; rfl) (by rw [hpauses]) (by rw [hpauses])
    (fun r ↦ (hhas r).trans (h.has r)) fun r _ ↦ hhas r

theorem Fits.of_no_check {past : List Event} {t t' : Triggers} (h : Fits p s past t) {event : Event}
    (hevent : event.pauseSeen = none) (hrest : t'.rest = t.rest)
    (hlist : t'.pauses.pauseplist = t.pauses.pauseplist)
    (hplace : t'.pauses.lastactivep = t.pauses.lastactivep)
    (hhas : ∀ r, t'.has r =
      if r = .signal then event.userPause.getD (t.has .signal) else t.has r) :
    Fits p s (past ++ [event]) t' := by
  have hchecks : pauseChecks (past ++ [event]) = pauseChecks past := by
    rw [pauseChecks_concat, hevent]
    exact List.append_nil _
  refine h.congr p s hchecks hrest hlist hplace (fun r ↦ ?_) fun r hr ↦ (hhas r).trans (if_neg hr)
  rw [hhas, inForce_concat_of_no_check p s past hevent, h.has, h.has]

/-- Nobody stops asking for an exit. -/
theorem watching_of_le {t t' : Triggers} (hmodes : t'.doingmodes = t.doingmodes)
    (hle : t.exits.Le t'.exits) (hknown : flags.Known t.exits.exittrig.trigger)
    (hw : t'.watching) : t.watching := by
  refine ⟨hmodes.symm.trans hw.1, (flags.eq_zero_iff hknown).mpr fun r ↦ ?_⟩
  refine eq_false_of_ne_true fun hhas ↦ ?_
  have hhas' := hle.has r hhas
  rw [Exits.has, hw.2, flags.has_zero] at hhas'
  exact Bool.noConfusion hhas'

theorem has_of_pauses_eq {t t' : Triggers} (hpauses : t'.pauses = t.pauses) (r : Reason) :
    t'.has r = t.has r := by
  rw [Triggers.has, hpauses]
  rfl

/-- Another state with these pauses. -/
theorem Sane.of_pauses_eq {t t' : Triggers} (h : Sane s t) (hpauses : t'.pauses = t.pauses)
    (hmodes : t'.doingmodes = t.doingmodes) (hle : t.exits.Le t'.exits)
    (htold : ∀ r, told r t'.notes = told r t.notes) (hheld : held t'.notes = held t.notes) :
    Sane s t' := by
  have hactive : t'.active = t.active := by
    rw [Triggers.active, Triggers.active, Triggers.has, hpauses]
    rfl
  refine ⟨hmodes.trans h.doingmodes, hle.known h.knownExit, ?_, ?_, ?_, fun r hr ↦ ?_, ?_⟩
  · rw [hpauses]
    exact h.known
  · rw [hpauses]
    exact h.knownLast
  · rw [Triggers.Placed, hactive, hpauses]
    exact h.placed
  · rw [htold, Triggers.hadLast, hpauses]
    exact h.tells r hr
  · rw [Triggers.Held, hheld, hpauses]
    exact h.holds

/-- An event that leaves the pauses as they are. -/
theorem Inv.of_pauses_eq {past : List Event} {t t' : Triggers} (h : Inv p s past t) {event : Event}
    (hcheck : event.pauseSeen = none) (huser : event.userPause = none)
    (hpauses : t'.pauses = t.pauses) (hmodes : t'.doingmodes = t.doingmodes)
    (hle : t.exits.Le t'.exits) (htold : ∀ r, told r t'.notes = told r t.notes)
    (hheld : held t'.notes = held t.notes) : Inv p s (past ++ [event]) t' := by
  have hwas := watching_of_le hmodes hle h.knownExit
  refine ⟨h.toSane.of_pauses_eq s hpauses hmodes hle htold hheld, fun hw ↦ ?_, fun hw ↦ ?_⟩
  · refine (h.fits (hwas hw)).of_no_check p s hcheck ?_ ?_ ?_ fun r ↦ ?_
    · rw [Triggers.rest, hpauses]
      rfl
    · rw [hpauses]
    · rw [hpauses]
    · rw [huser, has_of_pauses_eq hpauses]
      split_ifs with hr
      · rw [hr]
        rfl
      · rfl
  · rw [has_of_pauses_eq hpauses, ← h.last (hwas hw), Triggers.hadLast, hpauses]
    rfl

/-- A user pauses or resumes. -/
theorem Inv.setSignal {past : List Event} {t : Triggers} (h : Inv p s past t) {event : Event}
    (hcheck : event.pauseSeen = none) {on : Bool} (huser : event.userPause = some on) :
    Inv p s (past ++ [event]) (t.setFlag .signal on) := by
  have hset := sets_setFlag t .signal on
  have hhas : ∀ r, r ≠ .signal → (t.setFlag .signal on).has r = t.has r := fun r hr ↦ by
    rw [has_setFlag, if_neg (Ne.symm hr)]
  refine ⟨⟨h.doingmodes, h.knownExit, hset.known h.known, h.knownLast, ?_, h.tells, h.holds⟩,
    fun hw ↦ ?_, fun hw ↦ (h.last hw).trans (hhas .appActive (by decide)).symm⟩
  · rw [Triggers.Placed, active_congr (hhas .appActive (by decide)) rfl]
    exact h.placed
  · refine (h.fits hw).of_no_check p s hcheck rfl rfl rfl fun r ↦ ?_
    rw [huser, has_setFlag, Option.getD_some]
    exact if_congr eq_comm rfl rfl

/-- A break is no matter of the pauses. -/
theorem told_broken (r : Reason) (notes : List Note) (b found restarting : Bool) :
    told r (notes ++ if b then [.broken found restarting] else []) = told r notes := by
  cases b with
  | true => exact latest_concat _ _ _ _
  | false => exact congrArg (told r) (List.append_nil _)

theorem held_broken (notes : List Note) (b found restarting : Bool) :
    held (notes ++ if b then [.broken found restarting] else []) = held notes := by
  cases b with
  | true => exact latest_concat _ _ _ _
  | false => exact congrArg held (List.append_nil _)

theorem Sane.of_checked {t t' : Triggers} (h : Sane s t) (hchecked : Checked t t') : Sane s t' := by
  refine h.of_pauses_eq s hchecked.pauses hchecked.doingmodes hchecked.le (fun r ↦ ?_) ?_
  · rw [hchecked.notes, told_broken]
  · rw [hchecked.notes, held_broken]

theorem Inv.of_checked {past : List Event} {t t' : Triggers} (h : Inv p s past t) {event : Event}
    (hcheck : event.pauseSeen = none) (huser : event.userPause = none) (hchecked : Checked t t') :
    Inv p s (past ++ [event]) t' := by
  refine h.of_pauses_eq p s hcheck huser hchecked.pauses hchecked.doingmodes hchecked.le
    (fun r ↦ ?_) ?_
  · rw [hchecked.notes, told_broken]
  · rw [hchecked.notes, held_broken]

/-- At first there is no condition. -/
theorem inForce_nil (r : Reason) : inForce p s [] r = false := by
  cases r with
  | signal => rfl
  | flagfile =>
    rw [inForce, fileWatch]
    split_ifs <;> rfl
  | custom => exact Bool.and_false _
  | appActive => rfl
  | srcBattery => exact Bool.and_false _
  | cpuTemp =>
    have husable : (if p.givesUpOnTemperature then ([] : List ℤ).takeWhile (0 ≤ ·) else []) = [] :=
      ite_self _
    rw [inForce, isHot, pauseChecks, List.filterMap_nil, List.map_nil, husable]
    exact Bool.and_false _

theorem inv_init : Inv p s [] (initializeTriggers s) := by
  have hhas : ∀ r, (initializeTriggers s).has r = false := fun r ↦ flags.has_zero r
  have hhad : ∀ r, (initializeTriggers s).hadLast r = false := fun r ↦ flags.has_zero r
  have hactive : (initializeTriggers s).active = none := by
    rw [Triggers.active, hhas]
    rfl
  refine ⟨⟨rfl, flags.known_zero, flags.known_zero, flags.known_zero, ?_, fun r _ ↦ (hhad r).symm,
    rfl⟩, fun hw ↦ ?_, fun _ ↦ (hhad .appActive).trans (hhas .appActive).symm⟩
  · rw [Triggers.Placed, hactive]
    exact fun idx hidx ↦ absurd hidx (Option.not_mem_none idx)
  · have hmodes : s.doingmodes = false := hw.1
    refine ⟨?_, fun r ↦ (hhas r).trans ?_, hactive, ?_, ?_, ?_, ?_⟩
    · rw [initializeTriggers, hmodes]
      rfl
    · exact (inForce_nil p s r).symm
    · rw [initializeTriggers, hmodes]
      exact (Bool.and_true _).symm
    · rw [initializeTriggers, hmodes]
      refine ⟨(hhas .cpuTemp).trans (inForce_nil p s .cpuTemp).symm, fun _ ↦ ?_, fun _ ↦ Or.inl rfl⟩
      rw [asksTemperature]
      exact (if_pos (Bool.or_true _)).symm
    · rw [initializeTriggers, hmodes]
      rfl
    · have hwatch : fileWatch s [] = ⟨false, 0⟩ := by
        rw [fileWatch]
        exact ite_self _
      rw [hwatch]
      exact ⟨hhas .flagfile, rfl, rfl, rfl⟩

/-! ## A check for a pause -/

section Check

variable {past : List Event} (seen : PauseSeen) {t t' : Triggers}

/-- What a look at all sensors finds are the conditions. -/
theorem inForce_concat_check (hfits : Fits p s past t) (r : Reason) :
    inForce p s (past ++ [.checkPause seen]) r =
      (newFlags p seen t (fileWatch s (past ++ [.checkPause seen])) r).getD (t.has r) := by
  have hchecks : pauseChecks (past ++ [.checkPause seen]) = pauseChecks past ++ [seen] :=
    pauseChecks_concat past (.checkPause seen)
  cases r with
  | signal => exact (latest_concat _ _ _ _).trans (hfits.has .signal).symm
  | flagfile => rfl
  | custom =>
    rw [hfits.has, inForce, inForce, hchecks, latest_concat, newFlags]
    cases p.windows <;> rfl
  | appActive =>
    rw [inForce, hchecks, latest_concat, newFlags, Triggers.anyApp, hfits.pauseplist]
    rfl
  | srcBattery =>
    rw [hfits.has, inForce, inForce, hchecks, List.map_append, List.map_singleton,
      isOnBattery_concat, newFlags, hfits.asks]
  | cpuTemp =>
    have hstep := (hfits.temp.step p s seen.cputemp).flag_eq
    rw [inForce, hchecks, List.map_append, List.map_singleton, ← hstep]
    rfl

/-- The sensors have been looked at. -/
theorem Fits.of_polled (hfits : Fits p s past t)
    (hpolled : Polled p seen t (fileWatch s (past ++ [.checkPause seen])) t') :
    Fits p s (past ++ [.checkPause seen]) t' := by
  have hchecks : pauseChecks (past ++ [.checkPause seen]) = pauseChecks past ++ [seen] :=
    pauseChecks_concat past (.checkPause seen)
  have hhas : ∀ r, t'.has r = inForce p s (past ++ [.checkPause seen]) r := fun r ↦ by
    rw [inForce_concat_check p s seen hfits, hpolled.sets.has]
  have hrest := hpolled.rest
  refine ⟨hpolled.sets.pauseplist.trans hfits.pauseplist, hhas, ?_, ?_, ?_, ?_, ?_⟩
  · rw [hpolled.active, hfits.active, hfits.pauseplist, hchecks, activeApp, activeApp,
      List.foldl_append]
    rfl
  · rw [hchecks, List.map_append, List.map_singleton, asksMains, List.all_append, ← Bool.and_assoc,
      ← asksMains, ← hfits.asks, List.all_cons, List.all_nil, Bool.and_true]
    exact congrArg Rest.pauseIfNoMainsPower hrest
  · have hstep := hfits.temp.step p s seen.cputemp
    have hcputemp : t'.pauses.cputemp =
        (cpuTemperaturePoll p seen.cputemp t.pauses.cputemp).1 := congrArg Rest.cputemp hrest
    rw [hchecks, List.map_append, List.map_singleton, hpolled.sets.has, hcputemp]
    exact hstep
  · exact (congrArg Rest.flagfile hrest).trans hfits.flagfile
  · refine ⟨hhas .flagfile, congrArg Rest.nextcheck hrest, ?_, ?_⟩
    · exact (congrArg Rest.whenon hrest).trans hfits.watches.whenon
    · exact (congrArg Rest.whenoff hrest).trans hfits.watches.whenoff

/-- What is told before the flags are. -/
theorem told_polled {w : FileWatch} (hpolled : Polled p seen t w t') (r : Reason) :
    told r t'.notes =
      if r = .appActive ∧ t.stopped seen.running then false else told r t.notes := by
  have hquiet : ∀ note ∈ (cpuTemperaturePoll p seen.cputemp t.pauses.cputemp).2.2,
      Note.about r note = none := by
    intro note hnote
    rw [cpuTemperaturePoll_notes p seen.cputemp t.pauses.cputemp note hnote]
    rfl
  rw [hpolled.notes, told, latest_append_of_none _ _ hquiet, Triggers.stoppedNotes]
  cases hstopped : t.stopped seen.running with
  | false =>
    refine (congrArg (told r) (List.append_nil _)).trans ?_
    exact (if_neg fun h ↦ Bool.false_ne_true h.2).symm
  | true =>
    refine (told_resumed .appActive _ r t.notes _).trans ?_
    exact if_congr ⟨fun h ↦ ⟨h.symm, rfl⟩, fun h ↦ h.1.symm⟩ rfl rfl

theorem held_polled {w : FileWatch} (hpolled : Polled p seen t w t') :
    held t'.notes = held t.notes := by
  have hquiet : ∀ note ∈ t.stoppedNotes seen.running ++
      (cpuTemperaturePoll p seen.cputemp t.pauses.cputemp).2.2, Note.holds note = none := by
    intro note hnote
    rcases List.mem_append.mp hnote with hnote | hnote
    · rw [Triggers.stoppedNotes] at hnote
      split_ifs at hnote
      · rw [List.mem_singleton.mp hnote]
        rfl
      · exact absurd hnote List.not_mem_nil
    · rw [cpuTemperaturePoll_notes p seen.cputemp t.pauses.cputemp note hnote]
      rfl
  rw [hpolled.notes, List.append_assoc]
  exact latest_append_of_none _ _ hquiet

/-- The flags are told of. -/
theorem Sane.of_polled (h : Sane s t) {w : FileWatch} {polled : Triggers}
    (hpolled : Polled p seen t w polled) (htellings : Tellings polled t') : Sane s t' := by
  have hkeeps := htellings.keeps
  have hknown := hpolled.sets.known h.known
  have hhas : ∀ r, t'.has r = polled.has r := fun r ↦ by
    rw [Triggers.has, hkeeps.trigger]
    rfl
  have hhad : ∀ r, polled.hadLast r = t.hadLast r := fun r ↦ by
    rw [Triggers.hadLast, hpolled.sets.laststate]
    rfl
  refine ⟨?_, ?_, ?_, ?_, ?_, fun r hr ↦ ?_, htellings.held ?_⟩
  · rw [hkeeps.doingmodes, hpolled.sets.doingmodes, h.doingmodes]
  · rw [hkeeps.exits, hpolled.sets.exits]
    exact h.knownExit
  · rw [hkeeps.trigger]
    exact hknown
  · rw [htellings.laststate]
    exact hknown
  · have hactive : t'.active = polled.active := active_congr (hhas .appActive) hkeeps.lastactivep
    rw [Triggers.Placed, hactive, hkeeps.pauseplist]
    exact placed_of_nextApp hpolled.active hpolled.sets.pauseplist h.placed
  · have htold : told r polled.notes = polled.hadLast r := by
      rw [told_polled p seen hpolled, if_neg fun hstop ↦ hr hstop.1, h.tells r hr, hhad]
    have hlast : t'.hadLast r = polled.has r := by
      rw [Triggers.hadLast, htellings.laststate]
      rfl
    rw [htellings.told, hlast, Triggers.toldAs, htold, decide_eq_true hr]
    cases polled.has r <;> cases polled.hadLast r <;> rfl
  · rw [Triggers.Held, held_polled p seen hpolled, hpolled.sets.laststate]
    exact h.holds

/-- The flags that a caller is shown. -/
def Reason.shownAs : Reason → Reason
  | signal => .signal
  | flagfile => .flagfile
  | _ => .custom

/-- What a check for a pause answers: nothing while modes are run or once an exit has been asked
for, and the conditions otherwise. -/
structure Answers (past : List Event) (m : U32) (t : Triggers) : Prop where
  known : flags.Known m
  idle : ¬ t.watching → m = 0#32
  has : t.watching → ∀ r, flags.has m r = true ↔
    ∃ why : Reason, why.shownAs = r ∧ inForce p s past why = true

theorem shownAs_eq_signal {why : Reason} : why.shownAs = .signal ↔ why = .signal := by
  cases why <;> decide

theorem shownAs_eq_flagfile {why : Reason} : why.shownAs = .flagfile ↔ why = .flagfile := by
  cases why <;> decide

theorem shownAs_eq_custom {why : Reason} :
    why.shownAs = .custom ↔ ¬ Reason.signal = why ∧ ¬ Reason.flagfile = why := by
  cases why <;> decide

theorem shownAs_ne {why r : Reason} (hr : r = .appActive ∨ r = .srcBattery ∨ r = .cpuTemp) :
    why.shownAs ≠ r := by
  rcases hr with rfl | rfl | rfl <;> cases why <;> decide

/-- The flags that are exported. -/
theorem has_exported (r : Reason) :
    flags.has (TRIGSETBY_SIGNAL ||| TRIGSETBY_FLAGFILE) r =
      (decide (.signal = r) || decide (.flagfile = r)) := by
  have hsignal : TRIGSETBY_SIGNAL = flags.mask .signal := rfl
  have hflagfile : TRIGSETBY_FLAGFILE = flags.mask .flagfile := rfl
  rw [flags.has_or, hsignal, hflagfile, flags.has_mask, flags.has_mask]

theorem others_ne_zero_iff {x : U32} (hx : flags.Known x) :
    x &&& ~~~(TRIGSETBY_SIGNAL ||| TRIGSETBY_FLAGFILE) ≠ 0#32 ↔
      ∃ why : Reason, why.shownAs = .custom ∧ flags.has x why = true := by
  rw [ne_eq, flags.eq_zero_iff (hx.and _), not_forall]
  refine exists_congr fun why ↦ ?_
  rw [flags.has_and, flags.has_not, has_exported, Bool.not_eq_false, Bool.and_eq_true,
    Bool.not_eq_true', Bool.or_eq_false_iff, decide_eq_false_iff_not, decide_eq_false_iff_not,
    shownAs_eq_custom, and_comm]

theorem has_publicMask {x : U32} (hx : flags.Known x) (r : Reason) :
    flags.has (publicMask x) r = true ↔
      ∃ why : Reason, why.shownAs = r ∧ flags.has x why = true := by
  have hothers := others_ne_zero_iff hx
  have hmask : TRIGSETBY_CUSTOM = flags.mask .custom := rfl
  have hshown : flags.has (if x &&& ~~~(TRIGSETBY_SIGNAL ||| TRIGSETBY_FLAGFILE) ≠ 0#32 then
      TRIGSETBY_CUSTOM else 0#32) r = true ↔
      (∃ why : Reason, why.shownAs = .custom ∧ flags.has x why = true) ∧ .custom = r := by
    rw [← hothers]
    split_ifs with hsome
    · rw [hmask, flags.has_mask, decide_eq_true_eq, and_iff_right hsome]
    · rw [flags.has_zero]
      exact ⟨fun h ↦ Bool.noConfusion h, fun h ↦ absurd h.1 hsome⟩
  rw [publicMask, flags.has_or, flags.has_and, has_exported, Bool.or_eq_true, hshown]
  cases r with
  | signal => simp [shownAs_eq_signal]
  | flagfile => simp [shownAs_eq_flagfile]
  | custom => simp
  | appActive => simpa using fun _ h ↦ absurd h (shownAs_ne (by decide))
  | srcBattery => simpa using fun _ h ↦ absurd h (shownAs_ne (by decide))
  | cpuTemp => simpa using fun _ h ↦ absurd h (shownAs_ne (by decide))

theorem known_publicMask {x : U32} (hx : flags.Known x) : flags.Known (publicMask x) := by
  refine (hx.and _).or ?_
  split_ifs
  · exact flags.known_mask .custom
  · exact flags.known_zero

/-- What is told of the programs of the list. -/
theorem told_app_of_polled (h : Inv p s past t) (hwas : t.watching) {t₁ polled : Triggers}
    (hchecked : Checked t t₁) {w : FileWatch} (hpolled : Polled p seen t₁ w polled)
    (htellings : Tellings polled t') :
    told .appActive t'.notes =
      ((t'.has .appActive && !t.has .appActive) ||
        (!t.stopped seen.running && told .appActive t.notes)) := by
  have hhas : polled.has .appActive = t'.has .appActive := by
    rw [Triggers.has, ← htellings.keeps.trigger]
    rfl
  have hhad : polled.hadLast .appActive = t.has .appActive := by
    rw [← h.last hwas, Triggers.hadLast, hpolled.sets.laststate, hchecked.pauses]
    rfl
  have hstopped : t₁.stopped seen.running = t.stopped seen.running := by
    rw [Triggers.stopped, has_of_pauses_eq hchecked.pauses, hchecked.pauses]
    rfl
  have htold : told .appActive polled.notes =
      (!t.stopped seen.running && told .appActive t.notes) := by
    rw [told_polled p seen hpolled, hstopped, hchecked.notes, told_broken]
    cases t.stopped seen.running <;> rfl
  rw [htellings.told, Triggers.toldAs, hhas, hhad, htold]
  cases t'.has .appActive with
  | true => rfl
  | false => cases t.has .appActive <;> rfl

/-- What a check for a pause does. -/
structure PauseChecked (past : List Event) (t : Triggers) (m : U32) (t' : Triggers) : Prop where
  inv : Inv p s (past ++ [.checkPause seen]) t'
  answers : Answers p s (past ++ [.checkPause seen]) m t'
  frame : Frame (checkExitRequestTrigger seen.exit t) t'
  laststate : t'.watching → t'.pauses.pausetrig.laststate = t'.pauses.pausetrig.trigger
  told : t'.watching → told .appActive t'.notes =
    ((t'.has .appActive && !t.has .appActive) ||
      (!t.stopped seen.running && told .appActive t.notes))

theorem checkPauseRequestTrigger_spec (h : Inv p s past t) :
    ∃ m t', checkPauseRequestTrigger p seen t = some (m, t') ∧
      PauseChecked p s seen past t m t' := by
  have hchecked := checkExitRequestTrigger_spec seen.exit t
  have hsane := h.toSane.of_checked s hchecked
  rw [checkPauseRequestTrigger]
  dsimp only
  set t₁ := checkExitRequestTrigger seen.exit t with ht₁
  by_cases hidle : t₁.exits.exittrig.trigger ≠ 0#32 ∨ t₁.doingmodes
  · rw [if_pos hidle]
    have hnot : ¬ t₁.watching := fun hw ↦ by
      rcases hidle with hexit | hmodes
      · exact hexit hw.2
      · rw [hw.1] at hmodes
        exact Bool.noConfusion hmodes
    exact ⟨0#32, t₁, rfl, ⟨hsane, fun hw ↦ absurd hw hnot, fun hw ↦ absurd hw hnot⟩,
      ⟨flags.known_zero, fun _ ↦ rfl, fun hw ↦ absurd hw hnot⟩, Frame.refl t₁,
      fun hw ↦ absurd hw hnot, fun hw ↦ absurd hw hnot⟩
  · rw [if_neg hidle]
    rw [not_or, not_not, Bool.not_eq_true] at hidle
    have hwatching : t₁.watching := ⟨hidle.2, hidle.1⟩
    have hwas := watching_of_le hchecked.doingmodes hchecked.le h.knownExit hwatching
    have hfits : Fits p s past t₁ := (h.fits hwas).of_pauses_eq p s hchecked.pauses
    obtain ⟨polled, hsome, hpolled⟩ := pollPause_spec p seen hsane.placed hfits.watches
    rw [hfits.flagfile, ← fileWatch_concat] at hpolled
    have hknownLast : flags.Known polled.1.pauses.pausetrig.laststate := by
      rw [hpolled.sets.laststate]
      exact hsane.knownLast
    have htellings := tellChanges_spec polled.1 p polled.2 (hpolled.sets.known hsane.known)
      hknownLast
    have hsane' := hsane.of_polled p s seen hpolled htellings
    have hfits' := (hfits.of_polled p s seen hpolled).of_keeps p s htellings.keeps
    have hlast : (polled.1.tellChanges p polled.2).pauses.pausetrig.laststate =
        (polled.1.tellChanges p polled.2).pauses.pausetrig.trigger :=
      htellings.laststate.trans htellings.keeps.trigger.symm
    have hwatching' : (polled.1.tellChanges p polled.2).watching := by
      refine ⟨?_, ?_⟩
      · rw [htellings.keeps.doingmodes, hpolled.sets.doingmodes]
        exact hwatching.1
      · rw [htellings.keeps.exits, hpolled.sets.exits]
        exact hwatching.2
    rw [hsome]
    refine ⟨_, _, rfl, ⟨hsane', fun _ ↦ hfits', fun _ ↦ ?_⟩, ⟨?_, fun hnot ↦ ?_, fun _ r ↦ ?_⟩,
      hpolled.sets.toFrame.trans htellings.keeps.toFrame, fun _ ↦ hlast,
      fun _ ↦ ?_⟩
    · rw [Triggers.hadLast, hlast]
      rfl
    · exact known_publicMask hsane'.known
    · exact absurd hwatching' hnot
    · rw [checkPauseRequestTriggerNoIo, has_publicMask hsane'.known]
      exact exists_congr fun why ↦ and_congr_right fun _ ↦ by rw [← hfits'.has]; rfl
    · exact told_app_of_polled p s seen h hwas hchecked hpolled htellings

end Check

/-! ## Runs -/

theorem act_spec {past : List Event} {t : Triggers} (h : Inv p s past t) (event : Event) :
    ∃ t', event.act p t = some t' ∧ Inv p s (past ++ [event]) t' := by
  cases event with
  | raiseExit =>
    exact ⟨_, rfl, h.of_pauses_eq p s rfl rfl rfl rfl (raiseExitRequestTrigger_le t.exits)
      (fun _ ↦ rfl) rfl⟩
  | raiseRestart =>
    exact ⟨_, rfl, h.of_pauses_eq p s rfl rfl rfl rfl (raiseRestartRequestTrigger_le t.exits)
      (fun _ ↦ rfl) rfl⟩
  | shutdown =>
    exact ⟨_, rfl, h.of_pauses_eq p s rfl rfl rfl rfl (cliSignalHandler_le t.exits)
      (fun _ ↦ rfl) rfl⟩
  | raisePause =>
    have huser : Event.raisePause.userPause = some true := rfl
    exact ⟨_, rfl, h.setSignal p s rfl huser⟩
  | clearPause =>
    have huser : Event.clearPause.userPause = some false := rfl
    exact ⟨_, rfl, h.setSignal p s rfl huser⟩
  | overrideNextConffileChange =>
    exact ⟨_, rfl, h.of_pauses_eq p s rfl rfl rfl rfl ⟨fun _ ↦ id, id⟩
      (fun _ ↦ rfl) rfl⟩
  | checkExit seen =>
    exact ⟨_, rfl, h.of_checked p s rfl rfl (checkExitRequestTrigger_spec seen t)⟩
  | checkPause seen =>
    obtain ⟨m, t', hcheck, hchecked⟩ := checkPauseRequestTrigger_spec p s seen h
    exact ⟨t', by rw [Event.act, hcheck]; rfl, hchecked.inv⟩

/-- The invariant of a run. -/
theorem inv_after (past : List Event) : ∃ t, after p s past = some t ∧ Inv p s past t := by
  induction past using List.reverseRecOn with
  | nil => exact ⟨_, rfl, inv_init p s⟩
  | append_singleton past event ih =>
    obtain ⟨t, ht, hinv⟩ := ih
    obtain ⟨t', hact, hinv'⟩ := act_spec p s hinv event
    exact ⟨t', by rw [after_concat, ht]; exact hact, hinv'⟩

/-- **A check for a pause gives the conditions for one**, and the list of programs is not read past
its end. -/
theorem pause_conditions (past : List Event) (seen : PauseSeen) :
    ∃ t m t', after p s past = some t ∧ checkPauseRequestTrigger p seen t = some (m, t') ∧
      after p s (past ++ [.checkPause seen]) = some t' ∧
      Answers p s (past ++ [.checkPause seen]) m t' := by
  obtain ⟨t, ht, hinv⟩ := inv_after p s past
  obtain ⟨m, t', hcheck, hchecked⟩ := checkPauseRequestTrigger_spec p s seen hinv
  refine ⟨t, m, t', ht, hcheck, ?_, hchecked.answers⟩
  rw [after_concat, ht, Option.bind_some, Event.act, hcheck]
  rfl

/-- **The log tells of the conditions.** After a check for a pause the last message about a reason
says whether it is one, unless it is the programs of the list, and the polled procedures are held
up exactly if there is a reason. -/
theorem log_tells_conditions (past : List Event) (seen : PauseSeen) :
    ∃ t, after p s (past ++ [.checkPause seen]) = some t ∧ (t.watching →
      (∀ r, r ≠ .appActive →
        told r t.notes = inForce p s (past ++ [.checkPause seen]) r) ∧
      (held t.notes = true ↔ ∃ r, inForce p s (past ++ [.checkPause seen]) r = true)) := by
  obtain ⟨t, ht, hinv⟩ := inv_after p s past
  obtain ⟨m, t', hcheck, hchecked⟩ := checkPauseRequestTrigger_spec p s seen hinv
  refine ⟨t', by rw [after_concat, ht, Option.bind_some, Event.act, hcheck]; rfl, fun hw ↦ ?_⟩
  have hlast := hchecked.laststate hw
  have hfits := hchecked.inv.fits hw
  refine ⟨fun r hr ↦ ?_, ?_⟩
  · rw [hchecked.inv.tells r hr, ← hfits.has, Triggers.hadLast, hlast]
    rfl
  · have hnone := flags.eq_zero_iff hchecked.inv.known
    rw [hchecked.inv.holds, hlast, bne_iff_ne, ne_eq, hnone, not_forall]
    refine exists_congr fun r ↦ ?_
    rw [Bool.not_eq_false, ← hfits.has]
    rfl

/-- The log says what the condition is about the programs of the list. -/
def TellsApps (past : List Event) (t : Option Triggers) : Prop :=
  ∀ t' ∈ t, t'.watching → told .appActive t'.notes = inForce p s past .appActive

/-- A check does not find that one program of the list has taken the place of another. -/
def NoneReplaced (past : List Event) (event : Event) : Prop :=
  ∀ t ∈ after p s (past ++ [event]), t.watching → ∀ seen, event = .checkPause seen →
    ∀ idx ∈ activeApp s (pauseChecks past), seen.running idx = false →
      firstApp seen.running s.pauseplist.length = none

/-- What is not a check for a pause tells nothing of the programs. -/
theorem act_of_no_check {event : Event} (hcheck : event.pauseSeen = none) (t : Triggers) :
    ∃ t', event.act p t = some t' ∧ t'.doingmodes = t.doingmodes ∧ t.exits.Le t'.exits ∧
      ∀ r, told r t'.notes = told r t.notes := by
  cases event with
  | raiseExit => exact ⟨_, rfl, rfl, raiseExitRequestTrigger_le t.exits, fun _ ↦ rfl⟩
  | raiseRestart => exact ⟨_, rfl, rfl, raiseRestartRequestTrigger_le t.exits, fun _ ↦ rfl⟩
  | shutdown => exact ⟨_, rfl, rfl, cliSignalHandler_le t.exits, fun _ ↦ rfl⟩
  | raisePause => exact ⟨_, rfl, rfl, Exits.Le.refl _, fun _ ↦ rfl⟩
  | clearPause => exact ⟨_, rfl, rfl, Exits.Le.refl _, fun _ ↦ rfl⟩
  | overrideNextConffileChange =>
    exact ⟨_, rfl, rfl, ⟨fun _ ↦ id, id⟩, fun _ ↦ rfl⟩
  | checkExit seen =>
    have hchecked := checkExitRequestTrigger_spec seen t
    refine ⟨_, rfl, hchecked.doingmodes, hchecked.le, fun r ↦ ?_⟩
    rw [hchecked.notes, told_broken]
  | checkPause seen => exact absurd hcheck (Option.some_ne_none seen)

theorem tellsApps_of_no_check {past : List Event} {t : Triggers} (hinv : Inv p s past t)
    (htells : TellsApps p s past (some t)) {event : Event} (hcheck : event.pauseSeen = none) :
    TellsApps p s (past ++ [event]) (event.act p t) := by
  obtain ⟨t', hact, hmodes, hle, htold⟩ := act_of_no_check p hcheck t
  intro t'' ht'' hw
  rw [hact] at ht''
  rw [← Option.some.inj ht''] at hw ⊢
  have hwas := watching_of_le hmodes hle hinv.knownExit hw
  rw [htold, inForce_concat_of_no_check p s past hcheck, if_neg (by decide)]
  exact htells t rfl hwas

/-- A check tells of a program that has stopped, and not of another one that runs. -/
theorem told_app_iff {past : List Event} {t t' : Triggers} (hinv : Inv p s past t)
    (hwas : t.watching) (htells : TellsApps p s past (some t)) {seen : PauseSeen} {m : U32}
    (hchecked : PauseChecked p s seen past t m t') (hw : t'.watching) :
    told .appActive t'.notes = inForce p s (past ++ [.checkPause seen]) .appActive ↔
      ∀ idx ∈ activeApp s (pauseChecks past), seen.running idx = false →
        firstApp seen.running s.pauseplist.length = none := by
  have hfits := hinv.fits hwas
  have htold : told .appActive t.notes = t.has .appActive :=
    (htells t rfl hwas).trans (hfits.has .appActive).symm
  have hany : t'.has .appActive = (firstApp seen.running s.pauseplist.length).isSome := by
    rw [(hchecked.inv.fits hw).has, isSome_firstApp, inForce, pauseChecks_concat]
    exact latest_concat _ _ _ _
  rw [hchecked.told hw, ← (hchecked.inv.fits hw).has, htold, ← hfits.active, Triggers.active,
    Triggers.stopped]
  cases hactive : t.has .appActive with
  | false => simp
  | true =>
    have hplace := hinv.placed t.pauses.lastactivep (if_pos hactive)
    cases hrun : seen.running t.pauses.lastactivep with
    | true =>
      have hsome : t'.has .appActive = true := by
        rw [hany, isSome_firstApp, ← hfits.pauseplist]
        exact anyApp_eq_true hrun hplace
      simp [hsome, hrun]
    | false => simp [hany, hrun, eq_comm (a := false)]

/-- **The log tells of the programs of the list** throughout a run exactly if none takes the place
of another between two checks. When one does, the log says that the pause is over. -/
theorem log_tells_apps_iff (past : List Event) :
    Throughout (fun t event ↦ t.bind (event.act p)) (some (initializeTriggers s)) (TellsApps p s)
      past ↔ EachAllowed (NoneReplaced p s) past := by
  apply throughout_iff_of_reached
  · intro t ht _
    rw [← Option.some.inj ht]
    exact (inForce_nil p s .appActive).symm
  · intro past event hpast
    obtain ⟨t, ht, hinv⟩ := inv_after p s past
    have hreached : past.foldl (fun t event ↦ t.bind (event.act p))
        (some (initializeTriggers s)) = some t := ht
    rw [hreached] at hpast ⊢
    cases hseen : event.pauseSeen with
    | none =>
      have hno : ∀ seen, event ≠ .checkPause seen := by
        rintro seen rfl
        exact absurd hseen (Option.some_ne_none seen)
      exact ⟨fun _ _ _ _ seen hcheck ↦ absurd hcheck (hno seen),
        fun _ ↦ tellsApps_of_no_check p s hinv hpast hseen⟩
    | some seen =>
      have hcheck : event = .checkPause seen := by
        cases event with
        | checkPause seen' => exact congrArg Event.checkPause (Option.some.inj hseen)
        | _ => exact absurd hseen.symm (Option.some_ne_none seen)
      subst hcheck
      obtain ⟨m, t', hsome, hchecked⟩ := checkPauseRequestTrigger_spec p s seen hinv
      have hexit := checkExitRequestTrigger_spec seen.exit t
      have hframe := hchecked.frame
      have hact : (Event.checkPause seen).act p t = some t' := by
        rw [Event.act, hsome]
        rfl
      have hafter : after p s (past ++ [.checkPause seen]) = some t' := by
        rw [after_concat, ht]
        exact hact
      have hwas : t'.watching → t.watching := fun hw ↦ by
        refine watching_of_le hexit.doingmodes hexit.le hinv.knownExit ⟨?_, ?_⟩
        · exact hframe.doingmodes.symm.trans hw.1
        · rw [← hframe.exits]
          exact hw.2
      refine ⟨fun htold t'' ht'' hw seen' hcheck ↦ ?_, fun hnone t'' ht'' hw ↦ ?_⟩
      · rw [hafter] at ht''
        rw [← Option.some.inj ht''] at hw
        rw [← Event.checkPause.inj hcheck]
        exact (told_app_iff p s hinv (hwas hw) hpast hchecked hw).mp (htold t' hact hw)
      · have hsame : t' = t'' := Option.some.inj (hact.symm.trans ht'')
        rw [← hsame] at hw ⊢
        exact (told_app_iff p s hinv (hwas hw) hpast hchecked hw).mpr
          (hnone t' hafter hw seen rfl)

/-! ## Exits -/

def Event.isCheck : Event → Bool
  | checkExit _ => true
  | checkPause _ => true
  | _ => false

/-- A check has come upon a flag of the exit trigger. -/
def Found (past : List Event) : Prop :=
  ∃ q event, q ++ [event] <+: past ∧ event.isCheck = true ∧
    ∃ t ∈ after p s (q ++ [event]), t.exits.exittrig.trigger ≠ 0#32

/-- The messages about a break. -/
def Note.isBroken : Note → Bool
  | broken _ _ => true
  | _ => false

/-- What holds of exits: they are told of once. -/
structure ExitsFit (past : List Event) (t : Triggers) : Prop where
  found : t.exits.exittrig.laststate ≠ 0#32 ↔ Found p s past
  asked : t.exits.exittrig.laststate ≠ 0#32 → t.exits.exittrig.trigger ≠ 0#32
  broken : t.notes.countP Note.isBroken =
    if t.doingmodes = false ∧ t.exits.exittrig.laststate ≠ 0#32 then 1 else 0

theorem found_concat (past : List Event) (event : Event) :
    Found p s (past ++ [event]) ↔ Found p s past ∨ (event.isCheck = true ∧
      ∃ t ∈ after p s (past ++ [event]), t.exits.exittrig.trigger ≠ 0#32) := by
  constructor
  · rintro ⟨q, e, hprefix, hcheck, hfound⟩
    rcases List.prefix_concat_iff.mp hprefix with heq | hshort
    · obtain ⟨rfl, he⟩ := List.append_inj' heq rfl
      rw [List.singleton_inj] at he
      exact Or.inr ⟨he ▸ hcheck, he ▸ hfound⟩
    · exact Or.inl ⟨q, e, hshort, hcheck, hfound⟩
  · rintro (⟨q, e, hprefix, hcheck, hfound⟩ | ⟨hcheck, hfound⟩)
    · exact ⟨q, e, hprefix.trans (List.prefix_append past [event]), hcheck, hfound⟩
    · exact ⟨past, event, List.prefix_refl _, hcheck, hfound⟩

theorem trigger_ne_zero_of_le {e e' : Exits} (hknown : flags.Known e.exittrig.trigger)
    (hle : e.Le e') (h : e.exittrig.trigger ≠ 0#32) : e'.exittrig.trigger ≠ 0#32 := by
  intro hzero
  refine h ((flags.eq_zero_iff hknown).mpr fun r ↦ eq_false_of_ne_true fun hhas ↦ ?_)
  have hhas' := hle.has r hhas
  rw [Exits.has, hzero, flags.has_zero] at hhas'
  exact Bool.noConfusion hhas'

/-- A check tells of a flag the first time. -/
theorem ExitsFit.of_checked {past : List Event} {t t₁ t' : Triggers} (h : ExitsFit p s past t)
    (hknown : flags.Known t.exits.exittrig.trigger) {event : Event} (hcheck : event.isCheck = true)
    (hchecked : Checked t t₁) (hframe : Frame t₁ t')
    (hafter : after p s (past ++ [event]) = some t') : ExitsFit p s (past ++ [event]) t' := by
  have hfound : Found p s (past ++ [event]) ↔
      t.exits.exittrig.laststate ≠ 0#32 ∨ t₁.exits.exittrig.trigger ≠ 0#32 := by
    rw [found_concat, ← h.found, hafter, ← hframe.exits]
    simp [hcheck]
  have hlast : t₁.exits.exittrig.laststate ≠ 0#32 ↔
      t.exits.exittrig.laststate ≠ 0#32 ∨ t₁.exits.exittrig.trigger ≠ 0#32 := by
    rw [hchecked.laststate, Triggers.finds]
    by_cases hzero : t.exits.exittrig.laststate = 0#32
    · by_cases hfree : t₁.exits.exittrig.trigger = 0#32
      · simp [hzero, hfree]
      · simp [hzero, hfree]
    · simp [hzero]
  have hasked : t₁.exits.exittrig.laststate ≠ 0#32 → t₁.exits.exittrig.trigger ≠ 0#32 := by
    intro hne
    rcases hlast.mp hne with hwas | hnow
    · exact trigger_ne_zero_of_le hknown hchecked.le (h.asked hwas)
    · exact hnow
  refine ⟨?_, ?_, ?_⟩
  · rw [hframe.exits, hfound, hlast]
  · rw [hframe.exits]
    exact hasked
  · obtain ⟨new, hnew, hnone⟩ := hframe.notes
    have hquiet : new.countP Note.isBroken = 0 := by
      refine List.countP_eq_zero.mpr fun note hnote hbroken ↦ ?_
      cases note with
      | broken found restarting => exact hnone _ hnote found restarting rfl
      | _ => exact Bool.noConfusion hbroken
    rw [hnew, List.countP_append, hquiet, hchecked.notes, List.countP_append, h.broken,
      hframe.doingmodes, hframe.exits, hchecked.doingmodes, Nat.add_zero]
    cases t.doingmodes with
    | true => simp
    | false =>
      by_cases hzero : t.exits.exittrig.laststate = 0#32
      · by_cases hfree : t₁.exits.exittrig.trigger = 0#32
        · simp [Triggers.finds, hchecked.laststate, hzero, hfree]
        · simp [Triggers.finds, hchecked.laststate, hzero, hfree, Note.isBroken]
      · simp [Triggers.finds, hchecked.laststate, hzero]

/-- What is no check finds nothing, and tells of nothing. -/
theorem ExitsFit.of_no_check {past : List Event} {t t' : Triggers} (h : ExitsFit p s past t)
    (hknown : flags.Known t.exits.exittrig.trigger) {event : Event} (hcheck : event.isCheck = false)
    (hact : event.act p t = some t') : ExitsFit p s (past ++ [event]) t' := by
  have hle : t.exits.Le t'.exits ∧ t'.exits.exittrig.laststate = t.exits.exittrig.laststate ∧
      t'.doingmodes = t.doingmodes ∧ t'.notes = t.notes := by
    cases event with
    | raiseExit =>
      rw [← Option.some.inj hact]
      exact ⟨raiseExitRequestTrigger_le t.exits, rfl, rfl, rfl⟩
    | raiseRestart =>
      rw [← Option.some.inj hact]
      exact ⟨raiseRestartRequestTrigger_le t.exits, rfl, rfl, rfl⟩
    | shutdown =>
      rw [← Option.some.inj hact]
      exact ⟨cliSignalHandler_le t.exits, rfl, rfl, rfl⟩
    | raisePause =>
      rw [← Option.some.inj hact]
      exact ⟨Exits.Le.refl _, rfl, rfl, rfl⟩
    | clearPause =>
      rw [← Option.some.inj hact]
      exact ⟨Exits.Le.refl _, rfl, rfl, rfl⟩
    | overrideNextConffileChange =>
      rw [← Option.some.inj hact]
      exact ⟨⟨fun _ ↦ id, id⟩, rfl, rfl, rfl⟩
    | checkExit seen => exact Bool.noConfusion hcheck
    | checkPause seen => exact Bool.noConfusion hcheck
  obtain ⟨hle, hlast, hmodes, hnotes⟩ := hle
  refine ⟨?_, ?_, ?_⟩
  · rw [hlast, h.found, found_concat, hcheck]
    simp
  · rw [hlast]
    exact fun hne ↦ trigger_ne_zero_of_le hknown hle (h.asked hne)
  · rw [hlast, hmodes, hnotes]
    exact h.broken

theorem exitsFit_after (past : List Event) : ∃ t, after p s past = some t ∧ Inv p s past t ∧
    ExitsFit p s past t := by
  induction past using List.reverseRecOn with
  | nil =>
    refine ⟨_, rfl, inv_init p s, ?_, fun h ↦ absurd rfl h, ?_⟩
    · refine ⟨fun h ↦ absurd rfl h, ?_⟩
      rintro ⟨q, event, hprefix, -⟩
      exact absurd (List.prefix_nil.mp hprefix) (List.append_ne_nil_of_right_ne_nil q (by simp))
    · exact (if_neg fun h ↦ h.2 rfl).symm
  | append_singleton past event ih =>
    obtain ⟨t, ht, hinv, hexits⟩ := ih
    obtain ⟨t', hact, hinv'⟩ := act_spec p s hinv event
    have hafter : after p s (past ++ [event]) = some t' := by
      rw [after_concat, ht]
      exact hact
    refine ⟨t', hafter, hinv', ?_⟩
    cases hcheck : event.isCheck with
    | false => exact hexits.of_no_check p s hinv.knownExit hcheck hact
    | true =>
      cases event with
      | checkExit seen =>
        have hchecked := checkExitRequestTrigger_spec seen t
        rw [Option.some.inj hact] at hchecked
        exact hexits.of_checked p s hinv.knownExit rfl hchecked (Frame.refl t') hafter
      | checkPause seen =>
        obtain ⟨m, t'', hsome, hpause⟩ := checkPauseRequestTrigger_spec p s seen hinv
        have hsame : t'' = t' := by
          rw [Event.act, hsome] at hact
          exact Option.some.inj hact
        have hframe := hpause.frame
        rw [hsame] at hframe
        exact hexits.of_checked p s hinv.knownExit rfl (checkExitRequestTrigger_spec seen.exit t)
          hframe hafter
      | _ => exact Bool.noConfusion hcheck

/-- Nothing takes back a flag of the exit trigger. -/
theorem act_le {past : List Event} {t t' : Triggers} (hinv : Inv p s past t) {event : Event}
    (hact : event.act p t = some t') : t.exits.Le t'.exits := by
  cases hseen : event.pauseSeen with
  | none =>
    obtain ⟨t'', hact', -, hle, -⟩ := act_of_no_check p hseen t
    rw [Option.some.inj (hact'.symm.trans hact)] at hle
    exact hle
  | some seen =>
    cases event with
    | checkPause seen =>
      obtain ⟨m, t'', hsome, hchecked⟩ := checkPauseRequestTrigger_spec p s seen hinv
      have hexit := checkExitRequestTrigger_spec seen.exit t
      have hframe := hchecked.frame
      rw [Event.act, hsome] at hact
      rw [← Option.some.inj hact, hframe.exits]
      exact hexit.le
    | _ => exact absurd hseen.symm (Option.some_ne_none seen)

theorem le_after (past more : List Event) : ∃ t t', after p s past = some t ∧
    after p s (past ++ more) = some t' ∧ t.exits.Le t'.exits := by
  obtain ⟨t, ht, -⟩ := inv_after p s past
  induction more using List.reverseRecOn with
  | nil => exact ⟨t, t, ht, by rw [List.append_nil]; exact ht, Exits.Le.refl _⟩
  | append_singleton more event ih =>
    obtain ⟨t₀, t', ht₀, ht', hle⟩ := ih
    obtain ⟨t'', hafter, hinv⟩ := inv_after p s (past ++ more)
    obtain ⟨u, hact, -⟩ := act_spec p s hinv event
    rw [Option.some.inj (ht'.symm.trans hafter)] at hle
    refine ⟨t₀, u, ht₀, ?_, hle.trans (act_le p s hinv hact)⟩
    rw [← List.append_assoc, after_concat, hafter]
    exact hact

/-- **An exit is for good**: no flag of the exit trigger is taken back in the rest of a run, once
there is one every check for a pause answers that there is none, and one check tells of it, unless
modes are run. -/
theorem exits_for_good (past more : List Event) :
    ∃ t t', after p s past = some t ∧ after p s (past ++ more) = some t' ∧
      (∀ r, t.exits.has r = true → t'.exits.has r = true) ∧
      (t.exits.exittrig.trigger ≠ 0#32 → ∀ seen, ∃ t'',
        checkPauseRequestTrigger p seen t' = some (0#32, t'')) ∧
      (Found p s (past ++ more) → s.doingmodes = false → t'.notes.countP Note.isBroken = 1) ∧
      (¬ Found p s (past ++ more) ∨ s.doingmodes = true →
        t'.notes.countP Note.isBroken = 0) := by
  obtain ⟨t, t', ht, ht', hle⟩ := le_after p s past more
  obtain ⟨t₀, ht₀, hinv₀⟩ := inv_after p s past
  obtain ⟨t₁, ht₁, hinv, hexits⟩ := exitsFit_after p s (past ++ more)
  rw [Option.some.inj (ht₀.symm.trans ht)] at hinv₀
  rw [Option.some.inj (ht₁.symm.trans ht')] at hinv hexits
  refine ⟨t, t', ht, ht', hle.has, fun hasked seen ↦ ?_, fun hfound hmodes ↦ ?_, fun hnot ↦ ?_⟩
  · have hasked' := trigger_ne_zero_of_le hinv₀.knownExit hle hasked
    have hchecked := checkExitRequestTrigger_spec seen.exit t'
    refine ⟨checkExitRequestTrigger seen.exit t', ?_⟩
    rw [checkPauseRequestTrigger]
    exact if_pos (Or.inl (trigger_ne_zero_of_le hinv.knownExit hchecked.le hasked'))
  · rw [hexits.broken, if_pos ⟨hinv.doingmodes.trans hmodes, hexits.found.mpr hfound⟩]
  · rw [hexits.broken, if_neg]
    rintro ⟨hmodes, hlast⟩
    rcases hnot with hnot | hmodes'
    · exact hnot (hexits.found.mp hlast)
    · rw [hinv.doingmodes, hmodes'] at hmodes
      exact Bool.noConfusion hmodes

end Hyunjin.Trigger
