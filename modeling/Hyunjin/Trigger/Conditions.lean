import Hyunjin.Run.Latest
import Hyunjin.Trigger.Triggers

/-!
# What a pause is for

The conditions for a pause, each described by what the checks of a run come upon (`inForce`),
without the trigger: a user pauses and resumes, a program of the list runs, the mains power fails,
and the temperature is high from the time it reaches the upper threshold until it falls below the
lower one.

Two of the sensors may stop answering for good. The power supply is not asked about again after that
(`asksMains`), and on some builds the temperature is not either (`asksTemperature`).
-/

namespace Hyunjin.Trigger

open Run

/-! ## The conditions -/

/-- What a check for a pause comes upon, if an event is one. -/
def Event.pauseSeen : Event → Option PauseSeen
  | checkPause seen => some seen
  | _ => none

/-- A call of `RaisePauseRequestTrigger` or of `ClearPauseRequestTrigger`. -/
def Event.userPause : Event → Option Bool
  | raisePause => some true
  | clearPause => some false
  | _ => none

/-- What the checks for a pause come upon. -/
def pauseChecks (past : List Event) : List PauseSeen := past.filterMap Event.pauseSeen

/-- The flag file, with the time before which it is not looked at again. -/
structure FileWatch where
  found : Bool
  nextcheck : ℤ

/-- The flag file is looked at when its time has come and there is a clock. -/
def FileWatch.look (w : FileWatch) (seen : PauseSeen) : FileWatch :=
  match seen.clock with
  | none => w
  | some now =>
    if now < w.nextcheck then w
    else ⟨seen.pausefile, now + if seen.pausefile then PAUSEFILE_CHECKTIME_WHENON
      else PAUSEFILE_CHECKTIME_WHENOFF⟩

/-- What the looks at the flag file have found. -/
def fileWatch (s : Settings) (past : List Event) : FileWatch :=
  if s.pausefile.isSome then (pauseChecks past).foldl FileWatch.look ⟨false, 0⟩ else ⟨false, 0⟩

/-- The thresholds are used. -/
def Settings.watchesTemperature (s : Settings) : Bool :=
  0 < s.lothresh.toInt && s.lothresh.toInt ≤ s.hithresh.toInt

/-- The temperature is high from `hithresh` on, and low below `lothresh`. -/
def Settings.reads (s : Settings) (cputemp : ℤ) : Option Bool :=
  if cputemp < 0 then none
  else if s.hithresh.toInt ≤ cputemp then some true
  else if cputemp < s.lothresh.toInt then some false
  else none

/-- Whether the temperature was high when it was last read. A build that gives up when it cannot be
read keeps its flag for that check, and has none from the next one on. -/
def isHot (p : Platform) (s : Settings) (temps : List ℤ) : Bool :=
  let usable := if p.givesUpOnTemperature then temps.takeWhile (0 ≤ ·) else temps
  s.watchesTemperature && decide (temps.length ≤ usable.length + 1) &&
    latest s.reads false usable

/-- Whether there was no mains power when that was last found out. -/
def isOnBattery (s : Settings) (answers : List Mains) : Bool :=
  s.pauseifnomainspower && latest Mains.onBattery false (answers.takeWhile (· ≠ .unavailable))

/-- The conditions for a pause. -/
def inForce (p : Platform) (s : Settings) (past : List Event) : Reason → Bool
  | .signal => latest Event.userPause false past
  | .flagfile => (fileWatch s past).found
  | .custom => p.windows && latest (fun seen ↦ some seen.defrag) false (pauseChecks past)
  | .appActive => latest (fun seen ↦ some ((List.range s.pauseplist.length).any seen.running)) false
      (pauseChecks past)
  | .srcBattery => isOnBattery s ((pauseChecks past).map PauseSeen.mains)
  | .cpuTemp => isHot p s ((pauseChecks past).map PauseSeen.cputemp)

/-! ## The temperature and the power supply -/

section Sensors

variable (p : Platform) (s : Settings)

/-- The temperature is still asked for. -/
def asksTemperature (temps : List ℤ) : Bool :=
  !p.givesUpOnTemperature || temps.all (0 ≤ ·)

/-- The thresholds, and the flag, after some readings. -/
structure TempFits (temps : List ℤ) (c : Cputemp) (flag : Bool) : Prop where
  flag_eq : flag = isHot p s temps
  used : s.watchesTemperature = true → c = if asksTemperature p temps then
    ⟨s.lothresh, s.hithresh, latest s.reads false temps⟩ else ⟨0#32, 0#32, false⟩
  unused : s.watchesTemperature = false →
    c = ⟨s.lothresh, s.hithresh, false⟩ ∨ c = ⟨0#32, 0#32, false⟩

theorem watchesTemperature_iff :
    s.watchesTemperature = true ↔ 0 < s.lothresh.toInt ∧ s.lothresh.toInt ≤ s.hithresh.toInt := by
  rw [Settings.watchesTemperature, Bool.and_eq_true, decide_eq_true_eq, decide_eq_true_eq]

/-- With no thresholds the flag is cleared. -/
theorem cpuTemperaturePoll_zero (x : ℤ) :
    cpuTemperaturePoll p x ⟨0#32, 0#32, false⟩ = (⟨0#32, 0#32, false⟩, some false, []) := by
  rw [cpuTemperaturePoll, if_neg fun h ↦ absurd h.1 (by decide), if_neg (by decide)]

theorem cpuTemperaturePoll_used (h : s.watchesTemperature = true) (x : ℤ) (marking : Bool) :
    cpuTemperaturePoll p x ⟨s.lothresh, s.hithresh, marking⟩ =
      if x < 0 then
        (if p.givesUpOnTemperature then ⟨0#32, 0#32, false⟩
          else ⟨s.lothresh, s.hithresh, marking⟩, none, [])
      else (⟨s.lothresh, s.hithresh, (s.reads x).getD marking⟩,
        some ((s.reads x).getD marking), []) := by
  rw [cpuTemperaturePoll, if_pos ((watchesTemperature_iff s).mp h), Settings.reads]
  dsimp only
  split_ifs <;> rfl

/-- Once the temperature is not asked for any more there is no flag. -/
theorem isHot_concat_of_not_asks {temps : List ℤ} (h : asksTemperature p temps = false) (x : ℤ) :
    isHot p s (temps ++ [x]) = false := by
  rw [asksTemperature, Bool.or_eq_false_iff, Bool.not_eq_false'] at h
  have hshort : (temps.takeWhile (0 ≤ ·)).length < temps.length := by
    refine lt_of_le_of_ne (List.takeWhile_prefix _).length_le fun hlen ↦ ?_
    have hall := List.takeWhile_eq_self_iff.mp ((List.takeWhile_prefix _).eq_of_length hlen)
    rw [List.all_eq_true.mpr hall] at h
    exact Bool.noConfusion h.2
  have hlate : ¬ (temps ++ [x]).length ≤ (temps.takeWhile (0 ≤ ·)).length + 1 := by
    rw [List.length_append, List.length_singleton]
    omega
  rw [isHot, if_pos h.1, takeWhile_concat, h.2]
  simp only [Bool.false_eq_true, if_false]
  rw [decide_eq_false hlate, Bool.and_false, Bool.false_and]

theorem isHot_of_asks {temps : List ℤ} (h : asksTemperature p temps = true)
    (hused : s.watchesTemperature = true) : isHot p s temps = latest s.reads false temps := by
  have husable : (if p.givesUpOnTemperature then temps.takeWhile (0 ≤ ·) else temps) = temps := by
    split_ifs with hgives
    · rw [asksTemperature, hgives, Bool.not_true, Bool.false_or] at h
      exact takeWhile_of_all _ h
    · rfl
  rw [isHot, husable, hused, decide_eq_true (Nat.le_succ _), Bool.true_and, Bool.true_and]

/-- The answer of the first reading that fails does not count. -/
theorem isHot_concat_of_fails {temps : List ℤ} (h : asksTemperature p temps = true) {x : ℤ}
    (hx : x < 0) : isHot p s (temps ++ [x]) = isHot p s temps := by
  cases hused : s.watchesTemperature with
  | false =>
    rw [isHot, isHot, hused, Bool.false_and, Bool.false_and, Bool.false_and, Bool.false_and]
  | true =>
    cases hgives : p.givesUpOnTemperature with
    | true =>
      have hall := h
      rw [asksTemperature, hgives, Bool.not_true, Bool.false_or] at hall
      have hfails : ¬ decide (0 ≤ x) = true := by
        rw [decide_eq_true_eq]
        exact not_le.mpr hx
      rw [isHot_of_asks p s h hused, isHot, if_pos hgives, takeWhile_concat, if_pos hall,
        if_neg hfails, List.append_nil, hused, List.length_append, List.length_singleton,
        decide_eq_true (le_refl _), Bool.true_and, Bool.true_and]
    | false =>
      have hasks : asksTemperature p (temps ++ [x]) = true := by
        rw [asksTemperature, hgives]
        rfl
      rw [isHot_of_asks p s h hused, isHot_of_asks p s hasks hused, latest_concat, Settings.reads,
        if_pos hx]
      rfl

/-- A reading that is used. -/
theorem asksTemperature_concat {temps : List ℤ} (h : asksTemperature p temps = true) {x : ℤ}
    (hx : ¬ x < 0) : asksTemperature p (temps ++ [x]) = true := by
  rw [asksTemperature, Bool.or_eq_true] at h ⊢
  apply h.imp_right
  intro hall
  rw [List.all_append, hall, List.all_cons, List.all_nil, Bool.and_true, Bool.true_and]
  exact decide_eq_true (not_lt.mp hx)

theorem asksTemperature_concat_of_fails (temps : List ℤ) {x : ℤ} (hx : x < 0) :
    asksTemperature p (temps ++ [x]) = !p.givesUpOnTemperature := by
  have hfails : ¬ decide (0 ≤ x) = true := by
    rw [decide_eq_true_eq]
    exact not_le.mpr hx
  rw [asksTemperature, List.all_append, List.all_cons, eq_false_of_ne_true hfails, Bool.false_and,
    Bool.and_false, Bool.or_false]

/-- A reading. -/
theorem TempFits.step {temps : List ℤ} {c : Cputemp} {flag : Bool} (h : TempFits p s temps c flag)
    (x : ℤ) :
    TempFits p s (temps ++ [x]) (cpuTemperaturePoll p x c).1
      ((cpuTemperaturePoll p x c).2.1.getD flag) := by
  cases hused : s.watchesTemperature with
  | false =>
    have hnever : ∀ temps, isHot p s temps = false := fun temps ↦ by
      rw [isHot, hused, Bool.false_and, Bool.false_and]
    have hflag := h.flag_eq.trans (hnever temps)
    suffices hpoll : ((cpuTemperaturePoll p x c).2.1.getD false) = false ∧
        ((cpuTemperaturePoll p x c).1 = ⟨s.lothresh, s.hithresh, false⟩ ∨
          (cpuTemperaturePoll p x c).1 = ⟨0#32, 0#32, false⟩) by
      refine ⟨?_, fun habs ↦ ?_, fun _ ↦ hpoll.2⟩
      · rw [hflag, hpoll.1, hnever]
      · rw [hused] at habs
        exact Bool.noConfusion habs
    rcases h.unused hused with rfl | rfl
    · rw [cpuTemperaturePoll, if_neg]
      · split_ifs
        · exact ⟨rfl, Or.inr rfl⟩
        · exact ⟨rfl, Or.inl rfl⟩
      · rw [← watchesTemperature_iff, hused]
        exact Bool.false_ne_true
    · rw [cpuTemperaturePoll_zero]
      exact ⟨rfl, Or.inr rfl⟩
  | true =>
    cases hasks : asksTemperature p temps with
    | false =>
      have hnext : asksTemperature p (temps ++ [x]) = false := by
        rw [asksTemperature, Bool.or_eq_false_iff] at hasks ⊢
        rw [List.all_append, hasks.2]
        exact ⟨hasks.1, rfl⟩
      have hc := h.used hused
      rw [hasks, if_neg Bool.false_ne_true] at hc
      rw [hc, cpuTemperaturePoll_zero]
      refine ⟨(isHot_concat_of_not_asks p s hasks x).symm, fun _ ↦ ?_, fun habs ↦ ?_⟩
      · rw [hnext]
        rfl
      · rw [hused] at habs
        exact Bool.noConfusion habs
    | true =>
      have hc := h.used hused
      rw [hasks, if_pos rfl] at hc
      have hlatest := isHot_of_asks p s hasks hused
      rw [hc, cpuTemperaturePoll_used p s hused]
      by_cases hx : x < 0
      · rw [if_pos hx]
        refine ⟨h.flag_eq.trans (isHot_concat_of_fails p s hasks hx).symm, fun _ ↦ ?_,
          fun habs ↦ ?_⟩
        · rw [asksTemperature_concat_of_fails p temps hx, latest_concat, Settings.reads, if_pos hx]
          cases p.givesUpOnTemperature <;> rfl
        · rw [hused] at habs
          exact Bool.noConfusion habs
      · have hnext := asksTemperature_concat p hasks hx
        rw [if_neg hx, ← latest_concat]
        refine ⟨(isHot_of_asks p s hnext hused).symm, fun _ ↦ ?_, fun habs ↦ ?_⟩
        · rw [hnext]
          rfl
        · rw [hused] at habs
          exact Bool.noConfusion habs

/-- The power supply is still asked about. -/
def asksMains (answers : List Mains) : Bool :=
  s.pauseifnomainspower && answers.all (· ≠ .unavailable)

theorem isOnBattery_concat (answers : List Mains) (mains : Mains) :
    isOnBattery s (answers ++ [mains]) =
      ((if asksMains s answers then mains.onBattery else none).getD (isOnBattery s answers)) := by
  rw [isOnBattery, isOnBattery, asksMains, takeWhile_concat]
  cases s.pauseifnomainspower with
  | false => rfl
  | true =>
    rw [Bool.true_and, Bool.true_and, Bool.true_and]
    cases hall : answers.all (· ≠ .unavailable) with
    | false => rfl
    | true =>
      rw [if_pos rfl, if_pos rfl, takeWhile_of_all _ hall]
      cases mains with
      | unavailable => rw [if_neg (by decide), List.append_nil]; rfl
      | online => exact latest_concat _ _ _ _
      | offline => exact latest_concat _ _ _ _
      | unknown => exact latest_concat _ _ _ _

end Sensors

end Hyunjin.Trigger
