import Hyunjin.Trigger.Triggers

/-!
# Exits are for good

Nothing takes back a flag of the exit trigger (`Exits.Le`): a signal stays, a flag file that has
been found is not looked for again, and the ini file is not looked at once there is a flag. Only the
wish for a restart is given up, at a signal for a shutdown. The first check that comes upon a flag
tells of it, and no other one does.
-/

namespace Hyunjin.Trigger

/-! ## Flags that stay -/

/-- Flags of a trigger. -/
def Exits.has (e : Exits) (r : Reason) : Bool := flags.has e.exittrig.trigger r

/-- No flag is taken back. -/
structure Exits.Le (e e' : Exits) : Prop where
  has : ∀ r, e.has r = true → e'.has r = true
  known : flags.Known e.exittrig.trigger → flags.Known e'.exittrig.trigger

theorem Exits.Le.refl (e : Exits) : e.Le e := ⟨fun _ ↦ id, id⟩

theorem Exits.Le.trans {e e' e'' : Exits} (h : e.Le e') (h' : e'.Le e'') : e.Le e'' :=
  ⟨fun r ↦ h'.has r ∘ h.has r, h'.known ∘ h.known⟩

theorem has_or_signal {x : U32} {r : Reason} (h : flags.has x r = true) :
    flags.has (x ||| TRIGSETBY_SIGNAL) r = true := by
  have hmask : TRIGSETBY_SIGNAL = flags.mask .signal := rfl
  rw [hmask, flags.has_or_mask, h, Bool.true_or]

theorem raiseExitRequestTrigger_le (e : Exits) : e.Le e.raiseExitRequestTrigger :=
  ⟨fun _ ↦ has_or_signal, fun h ↦ h.or_mask .signal⟩

theorem raiseRestartRequestTrigger_le (e : Exits) : e.Le e.raiseRestartRequestTrigger :=
  ⟨fun _ ↦ has_or_signal, fun h ↦ h.or_mask .signal⟩

theorem cliSignalHandler_le (e : Exits) : e.Le e.cliSignalHandler :=
  ⟨fun _ ↦ has_or_signal, fun h ↦ h.or_mask .signal⟩

/-- A flag file that has been found is not looked for again. -/
theorem pollExternalTrigger_le (trig : Trigstruct) (clock : Option ℤ) (found : Bool) (r : Reason)
    (h : flags.has trig.trigger r = true) :
    flags.has (pollExternalTrigger trig false clock found).trigger r = true := by
  have hmask : TRIGSETBY_FLAGFILE = flags.mask .flagfile := rfl
  unfold pollExternalTrigger
  by_cases hlook : (false = true ∨ trig.trigger &&& TRIGSETBY_FLAGFILE = 0#32) ∧
      trig.flagfile.isSome = true
  · have hnone : flags.has trig.trigger .flagfile = false :=
      flags.and_mask_eq_zero.mp (hlook.1.resolve_left Bool.false_ne_true)
    rw [if_pos hlook]
    cases clock with
    | none => exact h
    | some now =>
      dsimp only
      split_ifs
      · exact h
      · rw [hmask, flags.has_or_mask, h, Bool.true_or]
      · have hne : Reason.flagfile ≠ r := by
          rintro rfl
          rw [hnone] at h
          exact Bool.noConfusion h
        rw [hmask, flags.has_and_not_mask, h, decide_eq_false hne]
        rfl
  · rw [if_neg hlook]
    exact h

theorem known_pollExternalTrigger (trig : Trigstruct) (undoable : Bool) (clock : Option ℤ)
    (found : Bool) (h : flags.Known trig.trigger) :
    flags.Known (pollExternalTrigger trig undoable clock found).trigger := by
  unfold pollExternalTrigger
  cases clock with
  | none => split_ifs <;> exact h
  | some now =>
    dsimp only
    split_ifs
    · exact h
    · exact h.or_mask .flagfile
    · exact h.and _
    · exact h

theorem inifileTime_le (e : Exits) (now : ℤ) (filetime : ℕ) :
    e.Le (e.inifileTime now filetime) := by
  rw [Exits.inifileTime]
  split_ifs
  all_goals first
    | exact ⟨fun _ ↦ id, id⟩
    | exact ⟨(raiseRestartRequestTrigger_le e).has, (raiseRestartRequestTrigger_le e).known⟩

theorem checkIniFileChangeStuff_le (e : Exits) (clock : Option ℤ) (filetime : ℕ) :
    e.Le (e.checkIniFileChangeStuff clock filetime) := by
  unfold Exits.checkIniFileChangeStuff
  split_ifs
  · exact Exits.Le.refl e
  · cases clock with
    | none => exact Exits.Le.refl e
    | some now =>
      dsimp only
      split_ifs
      · have hlooks : e.Le { e with nextinifilecheck := now + 5 } :=
          ⟨fun _ ↦ id, id⟩
        exact hlooks.trans (inifileTime_le _ now filetime)
      · exact Exits.Le.refl e

theorem poll_le (e : Exits) (seen : ExitSeen) : e.Le (e.poll seen) := by
  have hfile : e.Le (if e.exittrig.trigger = 0#32 then
      { e with exittrig := pollExternalTrigger e.exittrig false seen.fileClock seen.exitfile }
      else e) := by
    split_ifs
    · exact ⟨pollExternalTrigger_le e.exittrig seen.fileClock seen.exitfile,
        known_pollExternalTrigger e.exittrig false seen.fileClock seen.exitfile⟩
    · exact Exits.Le.refl e
  -- the ini file is looked at only while the flag file has not been found
  have hini : ∀ e', e.Le e' → e.Le (if e'.exittrig.trigger = 0#32 then
      e'.checkIniFileChangeStuff seen.iniClock seen.filetime else e') := by
    intro e' h
    split_ifs
    · exact h.trans (checkIniFileChangeStuff_le e' seen.iniClock seen.filetime)
    · exact h
  exact hini _ hfile

theorem laststate_pollExternalTrigger (trig : Trigstruct) (undoable : Bool) (clock : Option ℤ)
    (found : Bool) :
    (pollExternalTrigger trig undoable clock found).laststate = trig.laststate := by
  unfold pollExternalTrigger
  cases clock with
  | none => split_ifs <;> rfl
  | some now =>
    dsimp only
    split_ifs <;> rfl

theorem laststate_inifileTime (e : Exits) (now : ℤ) (filetime : ℕ) :
    (e.inifileTime now filetime).exittrig.laststate = e.exittrig.laststate := by
  rw [Exits.inifileTime]
  split_ifs <;> rfl

theorem laststate_checkIniFileChangeStuff (e : Exits) (clock : Option ℤ) (filetime : ℕ) :
    (e.checkIniFileChangeStuff clock filetime).exittrig.laststate = e.exittrig.laststate := by
  unfold Exits.checkIniFileChangeStuff
  cases clock with
  | none => split_ifs <;> rfl
  | some now =>
    dsimp only
    split_ifs
    · rfl
    · exact laststate_inifileTime _ now filetime
    · rfl

theorem laststate_poll (e : Exits) (seen : ExitSeen) :
    (e.poll seen).exittrig.laststate = e.exittrig.laststate := by
  have hini : ∀ e' : Exits, e'.exittrig.laststate = e.exittrig.laststate →
      (if e'.exittrig.trigger = 0#32 then
        e'.checkIniFileChangeStuff seen.iniClock seen.filetime else e').exittrig.laststate =
          e.exittrig.laststate := by
    intro e' h
    split_ifs
    · exact (laststate_checkIniFileChangeStuff e' seen.iniClock seen.filetime).trans h
    · exact h
  apply hini
  split_ifs
  · exact laststate_pollExternalTrigger e.exittrig false seen.fileClock seen.exitfile
  · rfl

/-! ## A check -/

/-- A check comes upon a flag for the first time. -/
def Triggers.finds (t t' : Triggers) : Bool :=
  t.exits.exittrig.laststate == 0#32 && t'.exits.exittrig.trigger != 0#32

/-- A check for an exit. -/
structure Checked (t t' : Triggers) : Prop where
  doingmodes : t'.doingmodes = t.doingmodes
  pauses : t'.pauses = t.pauses
  le : t.exits.Le t'.exits
  laststate : t'.exits.exittrig.laststate =
    if t.finds t' then 1#32 else t.exits.exittrig.laststate
  notes : t'.notes = t.notes ++ if t.finds t' && !t.doingmodes then
    [.broken (t'.exits.has .flagfile) (t'.exits.huptrig != 0#32)] else []

theorem checkExitRequestTrigger_spec (seen : ExitSeen) (t : Triggers) :
    Checked t (checkExitRequestTrigger seen t) := by
  have hle := poll_le t.exits seen
  have hlast := laststate_poll t.exits seen
  rw [checkExitRequestTrigger]
  by_cases hknown : t.exits.exittrig.laststate = 0#32
  · rw [if_pos hknown]
    dsimp only
    by_cases hzero : (t.exits.poll seen).exittrig.trigger = 0#32
    · have hfinds : t.finds { t with exits := t.exits.poll seen } = false := by
        rw [Triggers.finds, hzero, bne_self_eq_false, Bool.and_false]
      rw [if_pos hzero]
      refine ⟨rfl, rfl, hle, ?_, ?_⟩
      · rw [hfinds]
        exact hlast
      · rw [hfinds]
        exact (List.append_nil _).symm
    · rw [if_neg hzero]
      set t' : Triggers := { t with
        exits := { t.exits.poll seen with exittrig.laststate := 1#32 }
        notes := if t.doingmodes then t.notes
          else t.notes ++ [.broken
            ((t.exits.poll seen).exittrig.trigger &&& TRIGSETBY_FLAGFILE != 0#32)
            ((t.exits.poll seen).huptrig != 0#32)] } with ht'
      have hfinds : t.finds t' = true := by
        rw [Triggers.finds, hknown, beq_self_eq_true, Bool.true_and]
        exact bne_iff_ne.mpr hzero
      refine ⟨rfl, rfl, ⟨hle.has, hle.known⟩, ?_, ?_⟩
      · rw [hfinds]
        rfl
      · rw [hfinds, ht']
        cases t.doingmodes with
        | true => exact (List.append_nil _).symm
        | false => rfl
  · have hfinds : t.finds t = false := by
      rw [Triggers.finds, beq_eq_false_iff_ne.mpr hknown, Bool.false_and]
    rw [if_neg hknown]
    refine ⟨rfl, rfl, Exits.Le.refl _, ?_, ?_⟩
    · rw [hfinds]
      rfl
    · rw [hfinds]
      exact (List.append_nil _).symm

end Hyunjin.Trigger
