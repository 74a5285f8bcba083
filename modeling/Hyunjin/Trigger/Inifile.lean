import Hyunjin.Trigger.Runs

/-!
# Restarts

The client starts anew at a signal, unless it is told to shut down after that, and when its ini file
has been changed by someone else. It looks at the time of the file now and then, takes the first
time for the one that the file has, and asks for a restart at the look after one that shows another
time. A look after it has written the file itself (`OverrideNextConffileChangeTrigger`) makes it
forget what it has seen, also a change that it has not acted upon yet.
-/

namespace Hyunjin.Trigger

open Run

variable (p : Platform) (s : Settings)

/-! ## Signals -/

/-- Whether a signal asks for a restart; one for a shutdown asks for none. -/
def Event.restartSignal : Event → Option Bool
  | raiseRestart => some true
  | shutdown => some false
  | _ => none

/-- A signal has asked for a shutdown. -/
def Shut (past : List Event) : Prop := ∃ event ∈ past, event.restartSignal = some false

theorem shut_concat (past : List Event) (event : Event) :
    Shut (past ++ [event]) ↔ Shut past ∨ event.restartSignal = some false := by
  simp [Shut, or_and_right, exists_or]

/-- The last signal of them was for a restart. -/
abbrev restartSignalled (past : List Event) : Bool := latest Event.restartSignal false past

/-! ## Looks -/

/-- What a check for an exit comes upon, if an event is or has one. -/
def Event.exitSeen : Event → Option ExitSeen
  | checkExit seen => some seen
  | checkPause seen => some seen.exit
  | _ => none

/-- A look at the ini file: its time, or `none` for one that the client has written itself. A time
of zero is none. -/
def Exits.iniLook (e : Exits) (seen : ExitSeen) : List (Option ℕ) :=
  let e' := if e.exittrig.trigger = 0#32 then
      { e with exittrig := pollExternalTrigger e.exittrig false seen.fileClock seen.exitfile }
    else e
  if e.exittrig.laststate = 0#32 ∧ e'.exittrig.trigger = 0#32 ∧ e.inifile ≠ [] ∧
      (seen.iniClock.any fun now ↦ decide (e.nextinifilecheck < now)) ∧ seen.filetime ≠ 0 then
    [if 0 < e.overrideinifiletime.toInt then none else some seen.filetime]
  else []

/-- The looks at the ini file in a run. -/
def iniLooks (past : List Event) : List (Option ℕ) :=
  record (fun past event ↦ match event.exitSeen, after p s past with
    | some seen, some t => t.exits.iniLook seen
    | _, _ => []) past

/-- The times since the client has written the file itself. -/
def sinceOwn (looks : List (Option ℕ)) : List ℕ :=
  looks.foldl (fun times look ↦ match look with
    | some time => times ++ [time]
    | none => []) []

/-- A change has been seen: there is a time that is not the first one. A first time of one is taken
for a change. -/
def seesChange : List ℕ → Bool
  | [] => false
  | first :: times => first == 1 || times.any (· != first)

/-- A change had been seen before the last look. -/
def actsOnChange (looks : List (Option ℕ)) : Bool := seesChange (sinceOwn looks).dropLast

/-- What is remembered of the times. -/
def remembered (times : List ℕ) : ℕ :=
  match times with
  | [] => 0
  | first :: _ => if seesChange times then 1 else first

/-! ## One look -/

/-- What a look does. -/
inductive LooksAs (e e' : Exits) : List (Option ℕ) → Prop
  | idle (huptrig : e'.huptrig = e.huptrig) (time : e'.currinifiletime = e.currinifiletime)
      (own : e'.overrideinifiletime = e.overrideinifiletime) : LooksAs e e' []
  | own (huptrig : e'.huptrig = e.huptrig) (time : e'.currinifiletime = 0)
      (own : e'.overrideinifiletime + 1 = e.overrideinifiletime) : LooksAs e e' [none]
  | first (x : ℕ) (hx : x ≠ 0) (was : e.currinifiletime = 0) (huptrig : e'.huptrig = e.huptrig)
      (time : e'.currinifiletime = x)
      (own : e'.overrideinifiletime = e.overrideinifiletime) : LooksAs e e' [some x]
  | acts (x : ℕ) (hx : x ≠ 0) (was : e.currinifiletime = 1)
      (huptrig : e'.huptrig = e.huptrig ||| TRIGSETBY_SIGNAL)
      (asked : e'.exittrig.trigger ≠ 0#32)
      (own : e'.overrideinifiletime = e.overrideinifiletime) : LooksAs e e' [some x]
  | next (x : ℕ) (hx : x ≠ 0) (was : e.currinifiletime ≠ 0 ∧ e.currinifiletime ≠ 1)
      (huptrig : e'.huptrig = e.huptrig)
      (time : e'.currinifiletime = if x = e.currinifiletime then x else 1)
      (own : e'.overrideinifiletime = e.overrideinifiletime) : LooksAs e e' [some x]

theorem or_signal_ne_zero (x : U32) : x ||| TRIGSETBY_SIGNAL ≠ 0#32 := by
  have hmask : TRIGSETBY_SIGNAL = flags.mask .signal := rfl
  have hhas : flags.has (x ||| TRIGSETBY_SIGNAL) .signal = true := by
    rw [hmask, flags.has_or_mask]
    exact Bool.or_true _
  intro hzero
  rw [hzero, flags.has_zero] at hhas
  exact Bool.noConfusion hhas

theorem looksAs_inifileTime (e : Exits) (now : ℤ) {filetime : ℕ} (h : filetime ≠ 0) :
    LooksAs e (e.inifileTime now filetime)
      [if 0 < e.overrideinifiletime.toInt then none else some filetime] := by
  rw [Exits.inifileTime, if_neg h]
  split_ifs with hown hfirst hacts hnext
  · exact .own rfl rfl (BitVec.sub_add_cancel _ _)
  · exact .first filetime h hfirst rfl rfl rfl
  · exact .acts filetime h hacts rfl (or_signal_ne_zero _) rfl
  · exact .next filetime h ⟨hfirst, hacts⟩ rfl (if_neg hnext).symm rfl
  · have hsame := not_not.mp hnext
    exact .next filetime h ⟨hfirst, hacts⟩ rfl (by rw [if_pos hsame, hsame]) rfl

theorem LooksAs.congr {e₀ e₁ e e' : Exits} {looks : List (Option ℕ)} (h : LooksAs e₀ e₁ looks)
    (hhup : e₀.huptrig = e.huptrig) (htime : e₀.currinifiletime = e.currinifiletime)
    (hown : e₀.overrideinifiletime = e.overrideinifiletime)
    (htrigger' : e'.exittrig.trigger = e₁.exittrig.trigger) (hhup' : e'.huptrig = e₁.huptrig)
    (htime' : e'.currinifiletime = e₁.currinifiletime)
    (hown' : e'.overrideinifiletime = e₁.overrideinifiletime) : LooksAs e e' looks := by
  cases h with
  | idle huptrig time own =>
    exact .idle (hhup'.trans (huptrig.trans hhup)) (htime'.trans (time.trans htime))
      (hown'.trans (own.trans hown))
  | own huptrig time own =>
    exact .own (hhup'.trans (huptrig.trans hhup)) (htime'.trans time)
      (by rw [hown', own, hown])
  | first x hx was huptrig time own =>
    exact .first x hx (htime.symm.trans was) (hhup'.trans (huptrig.trans hhup))
      (htime'.trans time) (hown'.trans (own.trans hown))
  | acts x hx was huptrig asked own =>
    exact .acts x hx (htime.symm.trans was) (by rw [hhup', huptrig, hhup])
      (by rw [htrigger']; exact asked) (hown'.trans (own.trans hown))
  | next x hx was huptrig time own =>
    rw [htime] at was time
    exact .next x hx was (hhup'.trans (huptrig.trans hhup)) (htime'.trans time)
      (hown'.trans (own.trans hown))

/-- A look comes when its time has come. -/
theorem looksAs_checkIniFileChangeStuff (e : Exits) (clock : Option ℤ) (filetime : ℕ) :
    LooksAs e (e.checkIniFileChangeStuff clock filetime)
      (if e.inifile ≠ [] ∧ (clock.any fun now ↦ decide (e.nextinifilecheck < now)) ∧ filetime ≠ 0
        then [if 0 < e.overrideinifiletime.toInt then none else some filetime] else []) := by
  unfold Exits.checkIniFileChangeStuff
  by_cases hfile : e.inifile = []
  · rw [if_pos hfile, if_neg fun h ↦ h.1 hfile]
    exact .idle rfl rfl rfl
  · rw [if_neg hfile]
    cases clock with
    | none =>
      rw [if_neg fun h ↦ Bool.false_ne_true h.2.1]
      exact .idle rfl rfl rfl
    | some now =>
      dsimp only
      by_cases hnow : e.nextinifilecheck < now
      · rw [if_pos hnow]
        by_cases hzero : filetime = 0
        · rw [if_neg fun h ↦ h.2.2 hzero, Exits.inifileTime, if_pos hzero]
          exact .idle rfl rfl rfl
        · rw [if_pos ⟨hfile, decide_eq_true hnow, hzero⟩]
          exact (looksAs_inifileTime { e with nextinifilecheck := now + 5 } now hzero).congr
            rfl rfl rfl rfl rfl rfl rfl
      · rw [if_neg hnow, if_neg fun h ↦ hnow (of_decide_eq_true h.2.1)]
        exact .idle rfl rfl rfl

/-- The ini file is looked at if nothing else asks for an exit. -/
theorem looksAs_poll (e : Exits) (seen : ExitSeen) (hlast : e.exittrig.laststate = 0#32) :
    LooksAs e (e.poll seen) (e.iniLook seen) := by
  have hfile : ∀ trig : Trigstruct, LooksAs e
      (if trig.trigger = 0#32 then { e with exittrig := trig }.checkIniFileChangeStuff
        seen.iniClock seen.filetime else { e with exittrig := trig })
      (if e.exittrig.laststate = 0#32 ∧ trig.trigger = 0#32 ∧ e.inifile ≠ [] ∧
          (seen.iniClock.any fun now ↦ decide (e.nextinifilecheck < now)) ∧ seen.filetime ≠ 0 then
        [if 0 < e.overrideinifiletime.toInt then none else some seen.filetime] else []) := by
    intro trig
    by_cases hzero : trig.trigger = 0#32
    · simp only [hlast, hzero, true_and, if_true]
      exact (looksAs_checkIniFileChangeStuff { e with exittrig := trig } seen.iniClock
        seen.filetime).congr rfl rfl rfl rfl rfl rfl rfl
    · rw [if_neg hzero, if_neg fun h ↦ hzero h.2.1]
      exact .idle rfl rfl rfl
  rw [Exits.poll, Exits.iniLook]
  by_cases hzero : e.exittrig.trigger = 0#32
  · rw [if_pos hzero]
    exact hfile _
  · rw [if_neg hzero]
    exact hfile e.exittrig

theorem looksAs_checkExit (seen : ExitSeen) (t : Triggers) :
    LooksAs t.exits (checkExitRequestTrigger seen t).exits (t.exits.iniLook seen) := by
  rw [checkExitRequestTrigger]
  by_cases hlast : t.exits.exittrig.laststate = 0#32
  · have hpoll := looksAs_poll t.exits seen hlast
    rw [if_pos hlast]
    dsimp only
    by_cases hzero : (t.exits.poll seen).exittrig.trigger = 0#32
    · rw [if_pos hzero]
      exact hpoll
    · rw [if_neg hzero]
      exact hpoll.congr rfl rfl rfl rfl rfl rfl rfl
  · have hnone : t.exits.iniLook seen = [] := by
      rw [Exits.iniLook]
      exact if_neg fun h ↦ hlast h.1
    rw [if_neg hlast, hnone]
    exact .idle rfl rfl rfl

theorem iniLook_of_asked {e : Exits} (h : e.exittrig.trigger ≠ 0#32) (seen : ExitSeen) :
    e.iniLook seen = [] := by
  rw [Exits.iniLook, if_neg h]
  exact if_neg fun hlook ↦ h hlook.2.1

/-! ## What is remembered -/

theorem remembered_ne_zero {times : List ℕ} (hpos : ∀ x ∈ times, x ≠ 0) (hne : times ≠ []) :
    remembered times ≠ 0 := by
  cases times with
  | nil => exact absurd rfl hne
  | cons first times =>
    rw [remembered]
    split_ifs
    · exact one_ne_zero
    · exact hpos first List.mem_cons_self

/-- A change is remembered as a time of one. -/
theorem remembered_eq_one_iff (times : List ℕ) :
    remembered times = 1 ↔ seesChange times = true := by
  cases times with
  | nil => exact ⟨fun h ↦ absurd h zero_ne_one, fun h ↦ Bool.noConfusion h⟩
  | cons first times =>
    rw [remembered]
    split_ifs with hchange
    · exact ⟨fun _ ↦ hchange, fun _ ↦ rfl⟩
    · refine ⟨fun hone ↦ ?_, fun h ↦ absurd h hchange⟩
      rw [seesChange, hone]
      rfl

theorem remembered_concat {times : List ℕ} (hne : times ≠ []) (hsame : seesChange times = false)
    (x : ℕ) : remembered (times ++ [x]) = if x = remembered times then x else 1 := by
  cases times with
  | nil => exact absurd rfl hne
  | cons first times =>
    have hfirst : remembered (first :: times) = first := if_neg (by rw [hsame]; decide)
    have hchange : seesChange (first :: times ++ [x]) = (x != first) := by
      rw [seesChange, Bool.or_eq_false_iff] at hsame
      rw [List.cons_append, seesChange, List.any_append, hsame.1, hsame.2, List.any_cons,
        List.any_nil, Bool.false_or, Bool.false_or, Bool.or_false]
    rw [hfirst, List.cons_append, remembered, ← List.cons_append, hchange]
    by_cases hx : x = first
    · rw [if_pos hx, hx, bne_self_eq_false]
      rfl
    · rw [if_neg hx, bne_iff_ne.mpr hx]
      rfl

theorem sinceOwn_concat_own (looks : List (Option ℕ)) : sinceOwn (looks ++ [none]) = [] := by
  rw [sinceOwn, List.foldl_append]
  rfl

theorem sinceOwn_concat_time (looks : List (Option ℕ)) (x : ℕ) :
    sinceOwn (looks ++ [some x]) = sinceOwn looks ++ [x] := by
  rw [sinceOwn, List.foldl_append]
  rfl

theorem actsOnChange_concat_time (looks : List (Option ℕ)) (x : ℕ) :
    actsOnChange (looks ++ [some x]) = seesChange (sinceOwn looks) := by
  rw [actsOnChange, sinceOwn_concat_time, List.dropLast_concat]

/-! ## Runs -/

def Event.isOverride : Event → Bool
  | overrideNextConffileChange => true
  | _ => false

/-- What the triggers know of restarts. -/
structure IniFits (past : List Event) (looks : List (Option ℕ)) (t : Triggers) : Prop where
  restart : t.exits.huptrig ≠ 0#32 ↔
    restartSignalled past = true ∨ ¬ Shut past ∧ actsOnChange looks = true
  word : t.exits.huptrig = 0#32 ∨ t.exits.huptrig = TRIGSETBY_SIGNAL
  asked : t.exits.huptrig ≠ 0#32 ∨ Shut past → t.exits.exittrig.trigger ≠ 0#32
  time : actsOnChange looks = false → t.exits.currinifiletime = remembered (sinceOwn looks)
  pos : ∀ x ∈ sinceOwn looks, x ≠ 0
  own : t.exits.overrideinifiletime + BitVec.ofNat 32 (looks.count none) =
    BitVec.ofNat 32 (past.countP Event.isOverride)

/-- Nothing has been asked for as long as no exit has. -/
theorem IniFits.quiet {past : List Event} {looks : List (Option ℕ)} {t : Triggers}
    (h : IniFits past looks t) (hfree : t.exits.exittrig.trigger = 0#32) :
    t.exits.huptrig = 0#32 ∧ restartSignalled past = false ∧ ¬ Shut past ∧
      actsOnChange looks = false := by
  have hfree' := fun hr ↦ h.asked hr hfree
  have hnone : t.exits.huptrig = 0#32 := not_not.mp fun hhup ↦ hfree' (Or.inl hhup)
  have hopen : ¬ Shut past := fun hs ↦ hfree' (Or.inr hs)
  have hnot := fun hr ↦ h.restart.mpr hr hnone
  exact ⟨hnone, eq_false_of_ne_true fun hr ↦ hnot (Or.inl hr), hopen,
    eq_false_of_ne_true fun hr ↦ hnot (Or.inr ⟨hopen, hr⟩)⟩

theorem pos_sinceOwn_concat {looks : List (Option ℕ)} (hpos : ∀ y ∈ sinceOwn looks, y ≠ 0) {x : ℕ}
    (hx : x ≠ 0) : ∀ y ∈ sinceOwn (looks ++ [some x]), y ≠ 0 := by
  intro y hy
  rw [sinceOwn_concat_time] at hy
  rcases List.mem_append.mp hy with hy | hy
  · exact hpos y hy
  · rw [List.mem_singleton.mp hy]
    exact hx

/-- A check. -/
theorem IniFits.of_looksAs {past : List Event} {looks new : List (Option ℕ)} {t t' : Triggers}
    (h : IniFits past looks t) {event : Event} (hevent : event.restartSignal = none)
    (hown : event.isOverride = false) (hlook : LooksAs t.exits t'.exits new)
    (hle : t.exits.exittrig.trigger ≠ 0#32 → t'.exits.exittrig.trigger ≠ 0#32)
    (hfree : new ≠ [] → t.exits.exittrig.trigger = 0#32) :
    IniFits (past ++ [event]) (looks ++ new) t' := by
  have hsignal : restartSignalled (past ++ [event]) = restartSignalled past := by
    rw [restartSignalled, latest_concat, hevent]
    rfl
  have hshut : Shut (past ++ [event]) ↔ Shut past := by
    rw [shut_concat, hevent]
    exact or_iff_left (Option.some_ne_none false).symm
  have hcount : (past ++ [event]).countP Event.isOverride = past.countP Event.isOverride := by
    rw [List.countP_append, List.countP_singleton, hown]
    rfl
  -- a look comes only while neither a restart nor a shutdown has been asked for
  have hquiet : new ≠ [] → t.exits.huptrig = 0#32 ∧ restartSignalled past = false ∧
      ¬ Shut past ∧ actsOnChange looks = false := fun hne ↦ h.quiet (hfree hne)
  have hasked : t'.exits.huptrig = t.exits.huptrig →
      t'.exits.huptrig ≠ 0#32 ∨ Shut (past ++ [event]) → t'.exits.exittrig.trigger ≠ 0#32 :=
    fun heq hhup ↦ hle (h.asked (by rwa [← heq, ← hshut]))
  have hword : t'.exits.huptrig = t.exits.huptrig →
      t'.exits.huptrig = 0#32 ∨ t'.exits.huptrig = TRIGSETBY_SIGNAL := fun heq ↦ heq ▸ h.word
  -- what is left of the equivalence while nothing has been asked for
  have hstays : ∀ looks', t.exits.huptrig = 0#32 → restartSignalled past = false →
      actsOnChange looks' = false → t'.exits.huptrig = t.exits.huptrig →
      (t'.exits.huptrig ≠ 0#32 ↔ restartSignalled (past ++ [event]) = true ∨
        ¬ Shut (past ++ [event]) ∧ actsOnChange looks' = true) := by
    intro looks' hnone hnot hacts heq
    rw [heq, hnone, hsignal, hnot, hacts]
    simp
  have hkeep : ∀ x : ℕ, t'.exits.overrideinifiletime = t.exits.overrideinifiletime →
      t'.exits.overrideinifiletime + BitVec.ofNat 32 ((looks ++ [some x]).count none) =
        BitVec.ofNat 32 ((past ++ [event]).countP Event.isOverride) := by
    intro x hsame
    rw [hcount, ← h.own, hsame, List.count_append]
    rfl
  cases hlook with
  | idle huptrig time own =>
    rw [List.append_nil]
    refine ⟨?_, hword huptrig, hasked huptrig, fun hnot ↦ time.trans (h.time hnot), h.pos, ?_⟩
    · rw [huptrig, hsignal, hshut]
      exact h.restart
    · rw [hcount, own]
      exact h.own
  | own huptrig time own =>
    -- what has been seen is forgotten, and one announced write is used up
    obtain ⟨hnone, hnot, -⟩ := hquiet (List.cons_ne_nil _ _)
    have hacts' : actsOnChange (looks ++ [none]) = false := by
      rw [actsOnChange, sinceOwn_concat_own]
      rfl
    refine ⟨hstays _ hnone hnot hacts' huptrig, hword huptrig, hasked huptrig, fun _ ↦ ?_, ?_, ?_⟩
    · rw [time, sinceOwn_concat_own]
      rfl
    · rw [sinceOwn_concat_own]
      exact fun x hx ↦ absurd hx List.not_mem_nil
    · rw [hcount, ← h.own, ← own, List.count_append, List.count_singleton_self, BitVec.ofNat_add,
        BitVec.add_comm (BitVec.ofNat 32 _), ← BitVec.add_assoc]
      rfl
  | first x hx was huptrig time own =>
    obtain ⟨hnone, hnot, hopen, hidle⟩ := hquiet (List.cons_ne_nil _ _)
    have htimes : sinceOwn looks = [] := by
      by_contra hne
      exact remembered_ne_zero h.pos hne ((h.time hidle).symm.trans was)
    have hacts' : actsOnChange (looks ++ [some x]) = false := by
      rw [actsOnChange_concat_time, htimes]
      rfl
    refine ⟨hstays _ hnone hnot hacts' huptrig, hword huptrig, hasked huptrig, fun _ ↦ ?_,
      pos_sinceOwn_concat h.pos hx, hkeep x own⟩
    rw [time, sinceOwn_concat_time, htimes, List.nil_append]
    by_cases hone : x = 1
    · rw [hone]
      rfl
    · have hsame : seesChange [x] = false := by simp [seesChange, hone]
      exact (if_neg (by rw [hsame]; decide)).symm
  | acts x hx was huptrig asked own =>
    -- the change was seen at an earlier look, and the restart is asked for only now
    obtain ⟨hnone, hnot, hopen, hidle⟩ := hquiet (List.cons_ne_nil _ _)
    have hchange : actsOnChange (looks ++ [some x]) = true := by
      rw [actsOnChange_concat_time, ← remembered_eq_one_iff, ← h.time hidle]
      exact was
    have hhup : t'.exits.huptrig = TRIGSETBY_SIGNAL := by
      rw [huptrig, hnone]
      rfl
    refine ⟨⟨fun _ ↦ Or.inr ⟨mt hshut.mp hopen, hchange⟩, fun _ ↦ ?_⟩, Or.inr hhup,
      fun _ ↦ asked, fun habs ↦ ?_, pos_sinceOwn_concat h.pos hx, hkeep x own⟩
    · rw [hhup]
      decide
    · rw [hchange] at habs
      exact Bool.noConfusion habs
  | next x hx was huptrig time own =>
    obtain ⟨hnone, hnot, hopen, hidle⟩ := hquiet (List.cons_ne_nil _ _)
    have hcurr := h.time hidle
    have htimes : sinceOwn looks ≠ [] := fun hnil ↦ was.1 (by rw [hcurr, hnil]; rfl)
    have hsame : seesChange (sinceOwn looks) = false :=
      eq_false_of_ne_true fun hchange ↦
        was.2 (hcurr.trans ((remembered_eq_one_iff _).mpr hchange))
    have hacts' : actsOnChange (looks ++ [some x]) = false := by
      rw [actsOnChange_concat_time]
      exact hsame
    refine ⟨hstays _ hnone hnot hacts' huptrig, hword huptrig, hasked huptrig, fun _ ↦ ?_,
      pos_sinceOwn_concat h.pos hx, hkeep x own⟩
    rw [time, sinceOwn_concat_time, remembered_concat htimes hsame, hcurr]

/-- A signal asks for a restart. -/
theorem IniFits.raise {past : List Event} {looks : List (Option ℕ)} {t : Triggers}
    (h : IniFits past looks t) : IniFits (past ++ [.raiseRestart]) looks
      { t with exits := t.exits.raiseRestartRequestTrigger } := by
  refine ⟨⟨fun _ ↦ Or.inl ?_, fun _ ↦ or_signal_ne_zero _⟩, Or.inr ?_, fun _ ↦ or_signal_ne_zero _,
    h.time, h.pos, ?_⟩
  · exact latest_concat _ _ _ _
  · rcases h.word with hword | hword <;>
      simp only [Exits.raiseRestartRequestTrigger, hword] <;> decide
  · rw [List.countP_append]
    exact h.own

/-- A signal for a shutdown takes back what has been asked for. -/
theorem IniFits.shutdown {past : List Event} {looks : List (Option ℕ)} {t : Triggers}
    (h : IniFits past looks t) : IniFits (past ++ [.shutdown]) looks
      { t with exits := t.exits.cliSignalHandler } := by
  have hzero : t.exits.cliSignalHandler.huptrig = 0#32 := by
    rcases h.word with hword | hword <;>
      simp only [Exits.cliSignalHandler, Exits.raiseExitRequestTrigger,
        Exits.clearRestartRequestTrigger, hword] <;> decide
  have hsignal : restartSignalled (past ++ [.shutdown]) = false := latest_concat _ _ _ _
  have hshut : Shut (past ++ [.shutdown]) := (shut_concat _ _).mpr (Or.inr rfl)
  refine ⟨?_, Or.inl hzero, fun _ ↦ or_signal_ne_zero _, h.time, h.pos, ?_⟩
  · rw [hzero, hsignal]
    simp [hshut]
  · rw [List.countP_append]
    exact h.own

/-- The client is going to write the ini file. -/
theorem IniFits.override {past : List Event} {looks : List (Option ℕ)} {t : Triggers}
    (h : IniFits past looks t) : IniFits (past ++ [.overrideNextConffileChange]) looks
      { t with exits := t.exits.overrideNextConffileChangeTrigger } := by
  have hsignal : restartSignalled (past ++ [.overrideNextConffileChange]) = restartSignalled past :=
    latest_concat _ _ _ _
  have hshut : Shut (past ++ [.overrideNextConffileChange]) ↔ Shut past := by
    rw [shut_concat]
    exact or_iff_left (Option.some_ne_none false).symm
  refine ⟨?_, h.word, fun hr ↦ h.asked (by rwa [← hshut]), h.time, h.pos, ?_⟩
  · rw [hsignal, hshut]
    exact h.restart
  · rw [List.countP_append, BitVec.ofNat_add, ← h.own, Exits.overrideNextConffileChangeTrigger,
      add_right_comm]
    rfl

theorem iniLooks_concat (past : List Event) (event : Event) {t : Triggers}
    (ht : after p s past = some t) :
    iniLooks p s (past ++ [event]) =
      iniLooks p s past ++ event.exitSeen.elim [] t.exits.iniLook := by
  rw [iniLooks, record_concat, ← iniLooks, ht]
  cases event.exitSeen <;> rfl

/-- **A restart** is asked for exactly if the last of the signals for it and for a shutdown was one
for it, or none has been for a shutdown and a look at the ini file has come after one that showed a
change; of the looks, those count that have come since the client has last written the file itself.
Each time that it has, one look is not counted. -/
theorem restart_iff (past : List Event) :
    ∃ t, after p s past = some t ∧
      (t.exits.huptrig ≠ 0#32 ↔ restartSignalled past = true ∨
        ¬ Shut past ∧ actsOnChange (iniLooks p s past) = true) ∧
      t.exits.overrideinifiletime + BitVec.ofNat 32 ((iniLooks p s past).count none) =
        BitVec.ofNat 32 (past.countP Event.isOverride) := by
  suffices hfits : ∃ t, after p s past = some t ∧ Inv p s past t ∧
      IniFits past (iniLooks p s past) t by
    obtain ⟨t, ht, -, hfits⟩ := hfits
    exact ⟨t, ht, hfits.restart, hfits.own⟩
  induction past using List.reverseRecOn with
  | nil =>
    have hopen : ¬ Shut [] := fun ⟨event, hmem, _⟩ ↦ absurd hmem List.not_mem_nil
    refine ⟨_, rfl, inv_init p s, ?_, Or.inl rfl, fun h ↦ ?_, fun _ ↦ rfl, ?_, rfl⟩
    · refine ⟨fun h ↦ absurd rfl h, fun h ↦ absurd h ?_⟩
      simp [iniLooks, actsOnChange, sinceOwn, seesChange]
    · exact h.elim (fun hne ↦ absurd rfl hne) fun hshut ↦ absurd hshut hopen
    · exact fun x hx ↦ absurd hx List.not_mem_nil
  | append_singleton past event ih =>
    obtain ⟨t, ht, hinv, hfits⟩ := ih
    obtain ⟨t', hact, hinv'⟩ := act_spec p s hinv event
    have hle := act_le p s hinv hact
    refine ⟨t', by rw [after_concat, ht]; exact hact, hinv', ?_⟩
    rw [iniLooks_concat p s past event ht]
    have hle' := trigger_ne_zero_of_le hinv.knownExit hle
    have hquiet : LooksAs t.exits t'.exits [] → event.restartSignal = none →
        event.isOverride = false →
        IniFits (past ++ [event]) (iniLooks p s past ++ []) t' := fun hlook hevent hown ↦
      hfits.of_looksAs hevent hown hlook hle' fun hne ↦ absurd rfl hne
    have hcheck : ∀ seen, LooksAs t.exits t'.exits (t.exits.iniLook seen) →
        event.restartSignal = none → event.isOverride = false →
        IniFits (past ++ [event]) (iniLooks p s past ++ t.exits.iniLook seen) t' :=
      fun seen hlook hevent hown ↦ hfits.of_looksAs hevent hown hlook hle' fun hne ↦ by
        by_contra hasked
        exact hne (iniLook_of_asked hasked seen)
    cases event with
    | raiseExit =>
      rw [← Option.some.inj hact] at hquiet ⊢
      exact hquiet (.idle rfl rfl rfl) rfl rfl
    | raiseRestart =>
      rw [← Option.some.inj hact]
      exact (List.append_nil (iniLooks p s past)).symm ▸ hfits.raise
    | shutdown =>
      rw [← Option.some.inj hact]
      exact (List.append_nil (iniLooks p s past)).symm ▸ hfits.shutdown
    | raisePause =>
      rw [← Option.some.inj hact] at hquiet ⊢
      exact hquiet (.idle rfl rfl rfl) rfl rfl
    | clearPause =>
      rw [← Option.some.inj hact] at hquiet ⊢
      exact hquiet (.idle rfl rfl rfl) rfl rfl
    | overrideNextConffileChange =>
      rw [← Option.some.inj hact]
      exact (List.append_nil (iniLooks p s past)).symm ▸ hfits.override
    | checkExit seen =>
      have hlook := looksAs_checkExit seen t
      rw [Option.some.inj hact] at hlook
      exact hcheck seen hlook rfl rfl
    | checkPause seen =>
      obtain ⟨m, t'', hsome, hpause⟩ := checkPauseRequestTrigger_spec p s seen hinv
      have hlook := looksAs_checkExit seen.exit t
      have hsame : t'' = t' := by
        rw [Event.act, hsome] at hact
        exact Option.some.inj hact
      rw [← hpause.frame.exits, hsame] at hlook
      exact hcheck seen.exit hlook rfl rfl

end Hyunjin.Trigger
