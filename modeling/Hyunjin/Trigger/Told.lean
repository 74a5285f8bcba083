import Hyunjin.Trigger.Check

/-!
# What is told of a pause

A check tells of each flag that has changed since the last check, and then takes the flags for the
last ones. A reader of the log knows the flags from it: the last message about a reason says whether
it is one (`Note.about`), and the polled procedures are held up from the first message of a pause to
the release (`Note.holds`). Only a program that was active is told of in another place.
-/

namespace Hyunjin.Trigger

open Run

/-! ## Reading the log -/

/-- What a message says about a reason. -/
def Note.about (r : Reason) : Note → Option Bool
  | paused _ why _ => if why = r then some true else none
  | resumed _ why _ => if why = r then some false else none
  | _ => none

/-- What a message says about the polled procedures. -/
def Note.holds : Note → Option Bool
  | paused _ _ _ => some true
  | released => some false
  | _ => none

/-- The reason is one by the log. -/
def told (r : Reason) (notes : List Note) : Bool := latest (Note.about r) false notes

/-- The polled procedures are held up by the log. -/
def held (notes : List Note) : Bool := latest Note.holds false notes

/-! ## Telling -/

section Telling

variable (why : Reason) (active : List U8) (inactive : Option (List U8)) (t : Triggers)

/-- Telling changes nothing but what has been told. -/
structure Keeps (t t' : Triggers) : Prop extends Frame t t' where
  lastactivep : t'.pauses.lastactivep = t.pauses.lastactivep
  trigger : t'.pauses.pausetrig.trigger = t.pauses.pausetrig.trigger
  rest : t'.rest = t.rest

theorem Keeps.refl : Keeps t t := ⟨Frame.refl t, rfl, rfl, rfl⟩

variable {t} in
theorem Keeps.trans {t' t'' : Triggers} (h : Keeps t t') (h' : Keeps t' t'') : Keeps t t'' :=
  ⟨h.toFrame.trans h'.toFrame, h'.lastactivep.trans h.lastactivep, h'.trigger.trans h.trigger,
    h'.rest.trans h.rest⟩

/-- What is told of one flag. -/
def Triggers.tellNotes : List Note :=
  if t.has why && !t.hadLast why then [.paused (t.pauses.pausetrig.laststate != 0#32) why active]
  else if !t.has why && t.hadLast why then
    (inactive.map fun detail ↦ Note.resumed
      (t.pauses.pausetrig.laststate &&& ~~~why.mask != 0#32) why detail).toList
  else []

theorem tellNotes_ne_broken (note : Note) (hnote : note ∈ t.tellNotes why active inactive)
    (found restarting : Bool) : note ≠ .broken found restarting := by
  intro heq
  rw [Triggers.tellNotes] at hnote
  split_ifs at hnote
  · rw [List.mem_singleton.mp hnote] at heq
    exact Note.noConfusion heq
  · obtain ⟨detail, -, hdetail⟩ := Option.map_eq_some_iff.mp (Option.mem_toList.mp hnote)
    rw [← hdetail] at heq
    exact Note.noConfusion heq
  · exact absurd hnote List.not_mem_nil

/-- What one flag is told of as. -/
def Triggers.tellLast : U32 :=
  if t.has why then t.pauses.pausetrig.laststate ||| why.mask
  else t.pauses.pausetrig.laststate &&& ~~~why.mask

theorem flag_ne_zero_iff : t.pauses.pausetrig.trigger &&& why.mask ≠ 0#32 ↔ t.has why = true :=
  flags.and_mask_ne_zero

theorem flag_eq_zero_iff : t.pauses.pausetrig.trigger &&& why.mask = 0#32 ↔ t.has why = false :=
  flags.and_mask_eq_zero

theorem last_ne_zero_iff :
    t.pauses.pausetrig.laststate &&& why.mask ≠ 0#32 ↔ t.hadLast why = true :=
  flags.and_mask_ne_zero

theorem last_eq_zero_iff :
    t.pauses.pausetrig.laststate &&& why.mask = 0#32 ↔ t.hadLast why = false :=
  flags.and_mask_eq_zero

theorem has_tellLast (r : Reason) :
    flags.has (t.tellLast why) r = if why = r then t.has why else t.hadLast r := by
  have hmask : why.mask = flags.mask why := rfl
  rw [Triggers.tellLast, hmask]
  cases t.has why with
  | true =>
    rw [if_pos rfl, flags.has_or_mask]
    split_ifs with hr
    · rw [decide_eq_true hr, Bool.or_true]
    · rw [decide_eq_false hr, Bool.or_false]
      rfl
  | false =>
    rw [if_neg Bool.false_ne_true, flags.has_and_not_mask]
    split_ifs with hr
    · rw [decide_eq_true hr, Bool.not_true, Bool.and_false]
    · rw [decide_eq_false hr, Bool.not_false, Bool.and_true]
      rfl

theorem known_tellLast (h : flags.Known t.pauses.pausetrig.laststate) :
    flags.Known (t.tellLast why) := by
  rw [Triggers.tellLast]
  split_ifs
  · exact h.or_mask why
  · exact h.and _

/-- A flag that is as it was is not told of. -/
theorem tellLast_of_same (hlast : flags.Known t.pauses.pausetrig.laststate)
    (hsame : t.has why = t.hadLast why) : t.tellLast why = t.pauses.pausetrig.laststate := by
  refine flags.ext (known_tellLast why t hlast) hlast fun r ↦ ?_
  rw [has_tellLast]
  split_ifs with hr
  · rw [hsame, hr]
    rfl
  · rfl

theorem tell_eq (hlast : flags.Known t.pauses.pausetrig.laststate) :
    t.tell why active inactive =
      { t with
        pauses.pausetrig.laststate := t.tellLast why
        notes := t.notes ++ t.tellNotes why active inactive } := by
  have hidle : t.has why = t.hadLast why →
      t = { t with pauses.pausetrig.laststate := t.tellLast why, notes := t.notes ++ [] } := by
    intro hsame
    rw [tellLast_of_same why t hlast hsame, List.append_nil]
  rw [Triggers.tell, Triggers.tellNotes]
  simp only [flag_ne_zero_iff, flag_eq_zero_iff, last_ne_zero_iff, last_eq_zero_iff]
  cases hhas : t.has why with
  | true =>
    cases hhad : t.hadLast why with
    | true => exact hidle (hhas.trans hhad.symm)
    | false =>
      rw [Triggers.tellLast, hhas]
      rfl
  | false =>
    cases hhad : t.hadLast why with
    | true =>
      rw [Triggers.tellLast, hhas]
      rfl
    | false => exact hidle (hhas.trans hhad.symm)

/-- What the log says about a reason once that has been told of. The end of a running program is
told of when it is found, and not here. -/
def Triggers.toldAs (t : Triggers) (r : Reason) : Bool :=
  if t.has r then !t.hadLast r || told r t.notes
  else !(t.hadLast r && decide (r ≠ .appActive)) && told r t.notes

theorem told_paused (r : Reason) (notes : List Note) (level : Bool) :
    told r (notes ++ [.paused level why active]) = if why = r then true else told r notes := by
  rw [told, latest_concat, Note.about]
  split_ifs <;> rfl

theorem told_resumed (r : Reason) (notes : List Note) (level : Bool) :
    told r (notes ++ [.resumed level why active]) = if why = r then false else told r notes := by
  rw [told, latest_concat, Note.about]
  split_ifs <;> rfl

/-- Telling of one flag. -/
theorem told_tell (hlast : flags.Known t.pauses.pausetrig.laststate)
    (hinactive : inactive.isSome = decide (why ≠ .appActive)) (r : Reason) :
    told r (t.tell why active inactive).notes =
      if why = r then t.toldAs why else told r t.notes := by
  rw [tell_eq why active inactive t hlast, Triggers.tellNotes, Triggers.toldAs, ← hinactive]
  dsimp only
  cases hhas : t.has why with
  | true =>
    cases hhad : t.hadLast why with
    | true =>
      refine (congrArg (told r) (List.append_nil _)).trans ?_
      by_cases hr : why = r
      · rw [if_pos hr, hr]
        rfl
      · rw [if_neg hr]
    | false => exact told_paused why active r t.notes _
  | false =>
    have hsame : told r (t.notes ++ []) = if why = r then told why t.notes else told r t.notes := by
      rw [List.append_nil]
      split_ifs with hr
      · rw [hr]
      · rfl
    cases hhad : t.hadLast why with
    | false => exact hsame
    | true =>
      cases inactive with
      | none => exact hsame
      | some detail => exact told_resumed why detail r t.notes _

/-- The polled procedures are held up while a flag has been told of. -/
def Triggers.Holds (t : Triggers) : Prop :=
  t.pauses.pausetrig.laststate ≠ 0#32 → held t.notes = true

theorem holds_tell (hlast : flags.Known t.pauses.pausetrig.laststate) (h : t.Holds) :
    (t.tell why active inactive).Holds := by
  rw [tell_eq why active inactive t hlast, Triggers.Holds, Triggers.tellNotes, Triggers.tellLast]
  dsimp only
  intro hlaststate
  cases hhas : t.has why with
  | true =>
    cases hhad : t.hadLast why with
    | true =>
      refine (congrArg held (List.append_nil _)).trans (h fun hzero ↦ ?_)
      rw [Triggers.hadLast, hzero, flags.has_zero] at hhad
      exact Bool.noConfusion hhad
    | false => exact latest_concat _ _ _ _
  | false =>
    rw [hhas, if_neg Bool.false_ne_true] at hlaststate
    have hheld : held t.notes = true := h fun hzero ↦ hlaststate (by rw [hzero, BitVec.zero_and])
    cases hhad : t.hadLast why with
    | false => exact (congrArg held (List.append_nil _)).trans hheld
    | true =>
      cases inactive with
      | none => exact (congrArg held (List.append_nil _)).trans hheld
      | some detail => exact (latest_concat _ _ _ _).trans hheld

/-! ## Telling of all flags -/

/-- What there is to tell of one flag. -/
structure Tale where
  why : Reason
  active : List U8
  inactive : Option (List U8)

/-- What there is to tell, in the order of a check. -/
def tales (p : Platform) (app : List U8) (c : Cputemp) : List Tale :=
  [⟨.signal, literal "(user generated)", some (literal "(user cleared)")⟩,
    ⟨.flagfile, literal "(found flagfile)", some (literal "(flagfile cleared)")⟩,
    ⟨.custom, customNow p true, some (customNow p false)⟩,
    ⟨.appActive, literal "('" ++ (if app = [] then literal "process" else app) ++
      literal "' active)", none⟩,
    ⟨.srcBattery, literal "(No mains power)", some (literal "(Mains power restored)")⟩,
    ⟨.cpuTemp, literal "(CPU temperature exceeds " ++ kelvin c.hithresh ++ literal "K)",
      some (literal "(CPU temperature below " ++ kelvin c.lothresh ++ literal "K)")⟩]

theorem tellAll_eq (p : Platform) (app : List U8) :
    t.tellAll p app = (tales p app t.pauses.cputemp).foldl
      (fun t tale ↦ t.tell tale.why tale.active tale.inactive) t := rfl

/-- Some reasons have been told of. -/
structure Tells (done : List Reason) (t t' : Triggers) : Prop where
  keeps : Keeps t t'
  known : flags.Known t'.pauses.pausetrig.laststate
  hadLast : ∀ r, t'.hadLast r = if r ∈ done then t.has r else t.hadLast r
  told : ∀ r, told r t'.notes = if r ∈ done then t.toldAs r else told r t.notes
  holds : t.Holds → t'.Holds

/-- Telling of one flag that has not been told of. -/
theorem Tells.tell {done : List Reason} {t t' : Triggers} (h : Tells done t t') (tale : Tale)
    (hnew : tale.why ∉ done)
    (hinactive : tale.inactive.isSome = decide (tale.why ≠ .appActive)) :
    Tells (done ++ [tale.why]) t (t'.tell tale.why tale.active tale.inactive) := by
  have heq := tell_eq tale.why tale.active tale.inactive t' h.known
  have hhas : ∀ r, t'.has r = t.has r := fun r ↦ by
    rw [Triggers.has, h.keeps.trigger]
    rfl
  have hmem : ∀ r, r ∈ done ++ [tale.why] ↔ tale.why = r ∨ r ∈ done := fun r ↦ by
    rw [List.mem_append, List.mem_singleton, or_comm, eq_comm]
  have hsame : t'.toldAs tale.why = t.toldAs tale.why := by
    rw [Triggers.toldAs, hhas, h.hadLast, h.told, if_neg hnew, if_neg hnew]
    rfl
  refine ⟨?_, ?_, fun r ↦ ?_, fun r ↦ ?_, fun hholds ↦ ?_⟩
  · rw [heq]
    refine h.keeps.trans ⟨⟨rfl, rfl, rfl, _, rfl, ?_⟩, rfl, rfl, rfl⟩
    exact tellNotes_ne_broken tale.why tale.active tale.inactive t'
  · rw [heq]
    exact known_tellLast tale.why t' h.known
  · have hlast : (t'.tell tale.why tale.active tale.inactive).hadLast r =
        flags.has (t'.tellLast tale.why) r := by rw [heq]; rfl
    rw [hlast, has_tellLast, hhas, h.hadLast]
    by_cases hr : tale.why = r
    · rw [if_pos hr, if_pos ((hmem r).mpr (Or.inl hr)), hr]
    · rw [if_neg hr]
      exact if_congr (by rw [hmem, or_iff_right hr]) rfl rfl
  · rw [told_tell tale.why tale.active tale.inactive t' h.known hinactive, hsame, h.told]
    by_cases hr : tale.why = r
    · rw [if_pos hr, if_pos ((hmem r).mpr (Or.inl hr)), hr]
    · rw [if_neg hr]
      exact if_congr (by rw [hmem, or_iff_right hr]) rfl rfl
  · exact holds_tell tale.why tale.active tale.inactive t' h.known (h.holds hholds)

theorem tells_foldl (hlast : flags.Known t.pauses.pausetrig.laststate) (tales : List Tale)
    (hnodup : (tales.map Tale.why).Nodup)
    (hinactive : ∀ tale ∈ tales, tale.inactive.isSome = decide (tale.why ≠ .appActive)) :
    Tells (tales.map Tale.why) t
      (tales.foldl (fun t tale ↦ t.tell tale.why tale.active tale.inactive) t) := by
  induction tales using List.reverseRecOn with
  | nil => exact ⟨Keeps.refl t, hlast, fun _ ↦ rfl, fun _ ↦ rfl, id⟩
  | append_singleton tales tale ih =>
    rw [List.map_append, List.map_singleton] at hnodup ⊢
    obtain ⟨hnodup, -, hdisjoint⟩ := List.nodup_append.mp hnodup
    rw [List.foldl_append]
    apply (ih hnodup fun tale htale ↦ hinactive tale (List.mem_append_left _ htale)).tell
    · intro hmem
      exact hdisjoint _ hmem _ (List.mem_singleton_self _) rfl
    · exact hinactive tale (List.mem_append_right _ (List.mem_singleton_self _))

/-- All reasons, in the order of a check. -/
def reasons : List Reason := [.signal, .flagfile, .custom, .appActive, .srcBattery, .cpuTemp]

theorem mem_reasons (r : Reason) : r ∈ reasons := by cases r <;> decide

/-- Telling of all flags. -/
theorem tells_tellAll (p : Platform) (app : List U8)
    (hlast : flags.Known t.pauses.pausetrig.laststate) : Tells reasons t (t.tellAll p app) := by
  have hnodup : ((tales p app t.pauses.cputemp).map Tale.why).Nodup :=
    show reasons.Nodup by decide
  have hinactive : ∀ tale ∈ tales p app t.pauses.cputemp,
      tale.inactive.isSome = decide (tale.why ≠ .appActive) := by
    simp [tales]
  rw [tellAll_eq]
  exact tells_foldl t hlast _ hnodup hinactive

/-- The log says that the polled procedures are held up exactly if a flag has been told of. -/
def Triggers.Held (t : Triggers) : Prop :=
  held t.notes = (t.pauses.pausetrig.laststate != 0#32)

/-- A check ends with all flags told of. -/
structure Tellings (t t' : Triggers) : Prop where
  keeps : Keeps t t'
  laststate : t'.pauses.pausetrig.laststate = t.pauses.pausetrig.trigger
  told : ∀ r, told r t'.notes = t.toldAs r
  held : t.Held → t'.Held

theorem tellChanges_spec (p : Platform) (app : List U8)
    (hknown : flags.Known t.pauses.pausetrig.trigger)
    (hlast : flags.Known t.pauses.pausetrig.laststate) : Tellings t (t.tellChanges p app) := by
  rw [Triggers.tellChanges]
  by_cases hsame : t.pauses.pausetrig.laststate = t.pauses.pausetrig.trigger
  · rw [if_pos hsame]
    refine ⟨Keeps.refl t, hsame, fun r ↦ ?_, id⟩
    have hhad : t.hadLast r = t.has r := by
      rw [Triggers.hadLast, hsame]
      rfl
    rw [Triggers.toldAs, hhad]
    cases t.has r <;> rfl
  · rw [if_neg hsame]
    have htells := tells_tellAll t p app hlast
    have hall : (t.tellAll p app).pauses.pausetrig.laststate = t.pauses.pausetrig.trigger :=
      flags.ext htells.known hknown fun r ↦ (htells.hadLast r).trans (if_pos (mem_reasons r))
    have htold : ∀ r, told r (t.tellAll p app).notes = t.toldAs r := fun r ↦
      (htells.told r).trans (if_pos (mem_reasons r))
    by_cases hzero : (t.tellAll p app).pauses.pausetrig.laststate = 0#32
    · -- the pause is over
      rw [if_pos hzero]
      have hreleased : ∀ note ∈ [Note.released], ∀ found restarting,
          note ≠ .broken found restarting := by
        intro note hnote found restarting heq
        rw [List.mem_singleton.mp hnote] at heq
        exact Note.noConfusion heq
      refine ⟨htells.keeps.trans ⟨⟨rfl, rfl, rfl, _, rfl, hreleased⟩, rfl, rfl, rfl⟩, hall,
        fun r ↦ ?_, fun _ ↦ ?_⟩
      · refine Eq.trans ?_ (htold r)
        exact latest_concat _ _ _ _
      · rw [Triggers.Held, hzero]
        exact latest_concat _ _ _ _
    · rw [if_neg hzero]
      refine ⟨htells.keeps, hall, htold, fun hheld ↦ ?_⟩
      have hholds : t.Holds := fun hne ↦ hheld.trans (bne_iff_ne.mpr hne)
      exact (htells.holds hholds hzero).trans (bne_iff_ne.mpr hzero).symm

end Telling

end Hyunjin.Trigger
