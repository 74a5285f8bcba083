import Hyunjin.Log.Rotation
import Hyunjin.Word.Flags

/-!
# Triggers

The client asks its triggers again and again whether it is to stop, to start anew or to pause. A
trigger is a word of flags, one for each way it can be set: by a signal, by a flag file, or, for a
pause, by a running program, by the lack of mains power or by the temperature. A check looks at
everything that can set its trigger, and tells in the log what has changed since the last one.

What a check comes upon is given with it: the clock, the files, the processes, the power supply and
the temperature, each as it is when it is asked for. A signal is an event of its own, and so are the
calls that a poll procedure makes, since it is called first thing in a check.
-/

namespace Hyunjin.Trigger

/-! ## Flags -/

/-- What can set a trigger. -/
inductive Reason
  | signal
  | flagfile
  | custom
  | appActive
  | srcBattery
  | cpuTemp
  deriving DecidableEq, Repr

def TRIGSETBY_SIGNAL : U32 := 0x01#32

def TRIGSETBY_FLAGFILE : U32 := 0x02#32

def TRIGSETBY_CUSTOM : U32 := 0x04#32

def TRIGPAUSEBY_APPACTIVE : U32 := 0x10#32

def TRIGPAUSEBY_SRCBATTERY : U32 := 0x20#32

def TRIGPAUSEBY_CPUTEMP : U32 := 0x40#32

def Reason.mask : Reason → U32
  | signal => TRIGSETBY_SIGNAL
  | flagfile => TRIGSETBY_FLAGFILE
  | custom => TRIGSETBY_CUSTOM
  | appActive => TRIGPAUSEBY_APPACTIVE
  | srcBattery => TRIGPAUSEBY_SRCBATTERY
  | cpuTemp => TRIGPAUSEBY_CPUTEMP

def Reason.place : Reason → Fin 32
  | signal => 0
  | flagfile => 1
  | custom => 2
  | appActive => 4
  | srcBattery => 5
  | cpuTemp => 6

theorem Reason.mask_eq (r : Reason) : r.mask = BitVec.twoPow 32 r.place := by
  cases r <;> decide

theorem Reason.place_injective : Function.Injective Reason.place := by
  intro r r' h
  cases r <;> cases r' <;> first | rfl | exact absurd h (by decide)

/-- The flags of the triggers. -/
def flags : Flags.Masks Reason 32 :=
  ⟨Reason.mask, Reason.place, Reason.mask_eq, Reason.place_injective⟩

/-! ## What is told -/

/-- A message of the log, or the release of the polled procedures that a pause has held up. A
message about a pause says whether there are other reasons for one. -/
inductive Note
  | broken (found restarting : Bool)
  | disabled
  | paused (level : Bool) (why : Reason) (detail : List U8)
  | resumed (level : Bool) (why : Reason) (detail : List U8)
  | released
  deriving DecidableEq

/-- The text of a message. -/
def Note.text : Note → List U8
  | broken found restarting => literal "*Break* " ++
      (if found then literal "(found exit flag file)"
        else if restarting then literal "Restarting..." else literal "Shutting down...") ++
      literal "\n"
  | disabled => literal "Temperature monitoring disabled (high < low threshold).\n"
  | paused level _ detail =>
      literal "Pause" ++ (if level then literal " level raise" else []) ++ literal "d... " ++
        detail ++ literal "\n"
  | resumed level _ detail =>
      (if level then literal "Pause level lowered" else literal "Running again after pause") ++
        literal "... " ++ detail ++ literal "\n"
  | released => []

/-! ## The state -/

/-- `struct trigstruct` -/
structure Trigstruct where
  flagfile : Option (List U8)
  whenon : ℕ
  whenoff : ℕ
  trigger : U32
  laststate : U32
  nextcheck : ℤ

/-- What `trigstatics` has about exits and restarts. Of `huptrig` only the trigger is used. -/
structure Exits where
  exittrig : Trigstruct
  huptrig : U32
  overrideinifiletime : U32 -- an `int`
  nextinifilecheck : ℤ
  currinifiletime : ℕ
  inifile : List U8

/-- The thresholds are in hundredths of a Kelvin. -/
structure Cputemp where
  lothresh : U32
  hithresh : U32
  markingHigh : Bool

/-- What `trigstatics` has about pauses. -/
structure Pauses where
  pausetrig : Trigstruct
  pauseplist : List (List U8)
  lastactivep : ℕ
  pauseIfNoMainsPower : Bool
  cputemp : Cputemp

/-- `trigstatics`, and what has been told, oldest first. -/
structure Triggers where
  doingmodes : Bool
  exits : Exits
  pauses : Pauses
  notes : List Note

/-- What depends on the build. -/
structure Platform where
  /-- A running defragmenter is looked for. -/
  windows : Bool
  /-- A temperature that cannot be read is not asked for again. -/
  givesUpOnTemperature : Bool

/-! ## Signals -/

def Exits.raiseExitRequestTrigger (e : Exits) : Exits :=
  { e with exittrig.trigger := e.exittrig.trigger ||| TRIGSETBY_SIGNAL }

def Exits.raiseRestartRequestTrigger (e : Exits) : Exits :=
  { e.raiseExitRequestTrigger with huptrig := e.huptrig ||| TRIGSETBY_SIGNAL }

def Exits.clearRestartRequestTrigger (e : Exits) : Exits :=
  { e with huptrig := e.huptrig &&& ~~~TRIGSETBY_SIGNAL }

/-- `CliSignalHandler` at a signal that asks for a shutdown. A restart is not asked for any more. -/
def Exits.cliSignalHandler (e : Exits) : Exits :=
  e.clearRestartRequestTrigger.raiseExitRequestTrigger

def Pauses.raisePauseRequestTrigger (p : Pauses) : Pauses :=
  { p with pausetrig.trigger := p.pausetrig.trigger ||| TRIGSETBY_SIGNAL }

def Pauses.clearPauseRequestTrigger (p : Pauses) : Pauses :=
  { p with pausetrig.trigger := p.pausetrig.trigger &&& ~~~TRIGSETBY_SIGNAL }

/-- The count of own changes goes round at `2³²`, which the language leaves open. -/
def Exits.overrideNextConffileChangeTrigger (e : Exits) : Exits :=
  { e with overrideinifiletime := e.overrideinifiletime + 1 }

/-! ## Exits and restarts -/

/-- `__PollExternalTrigger`: `clock` is the time in seconds if the clock can be read, and `found`
whether the flag file is there. -/
def pollExternalTrigger (trig : Trigstruct) (undoable : Bool) (clock : Option ℤ) (found : Bool) :
    Trigstruct :=
  if (undoable ∨ trig.trigger &&& TRIGSETBY_FLAGFILE = 0#32) ∧ trig.flagfile.isSome then
    match clock with
    | none => trig
    | some now =>
      if now < trig.nextcheck then trig
      else if found then
        { trig with
          nextcheck := now + trig.whenon
          trigger := trig.trigger ||| TRIGSETBY_FLAGFILE }
      else
        { trig with
          nextcheck := now + trig.whenoff
          trigger := trig.trigger &&& ~~~TRIGSETBY_FLAGFILE }
  else trig

/-- What becomes of the exit trigger when a time of the ini file has been read. -/
def Exits.inifileTime (e : Exits) (now : ℤ) (filetime : ℕ) : Exits :=
  if filetime = 0 then e
  else if 0 < e.overrideinifiletime.toInt then
    { e with currinifiletime := 0, overrideinifiletime := e.overrideinifiletime - 1 }
  else if e.currinifiletime = 0 then { e with currinifiletime := filetime }
  else if e.currinifiletime = 1 then
    { e.raiseRestartRequestTrigger with currinifiletime := 0, nextinifilecheck := now + 60 }
  else if filetime ≠ e.currinifiletime then { e with currinifiletime := 1 }
  else e

/-- `__CheckIniFileChangeStuff`: `filetime` is the time of the ini file, or zero if it cannot be
found out. -/
def Exits.checkIniFileChangeStuff (e : Exits) (clock : Option ℤ) (filetime : ℕ) : Exits :=
  if e.inifile = [] then e
  else
    match clock with
    | none => e
    | some now =>
      if e.nextinifilecheck < now then
        { e with nextinifilecheck := now + 5 }.inifileTime now filetime
      else e

/-- What a check for an exit comes upon. -/
structure ExitSeen where
  fileClock : Option ℤ
  exitfile : Bool
  iniClock : Option ℤ
  filetime : ℕ

/-- The part of a check for an exit that looks at the files. -/
def Exits.poll (e : Exits) (seen : ExitSeen) : Exits :=
  let e := if e.exittrig.trigger = 0#32 then
      { e with exittrig := pollExternalTrigger e.exittrig false seen.fileClock seen.exitfile }
    else e
  if e.exittrig.trigger = 0#32 then e.checkIniFileChangeStuff seen.iniClock seen.filetime else e

/-- `CheckExitRequestTrigger`. The trigger is looked for until it has been found. -/
def checkExitRequestTrigger (seen : ExitSeen) (t : Triggers) : Triggers :=
  if t.exits.exittrig.laststate = 0#32 then
    let e := t.exits.poll seen
    if e.exittrig.trigger = 0#32 then { t with exits := e }
    else
      { t with
        exits := { e with exittrig.laststate := 1#32 }
        notes := if t.doingmodes then t.notes
          else t.notes ++ [.broken (e.exittrig.trigger &&& TRIGSETBY_FLAGFILE != 0#32)
            (e.huptrig != 0#32)] }
  else t

/-! ## Pauses -/

/-- `custom_now_active` and `custom_now_inactive` -/
def customNow (p : Platform) (active : Bool) : List U8 :=
  if p.windows then
    if active then literal "(defrag running)" else literal "(defrag no longer running)"
  else []

/-- A temperature as `%u.%02u` prints it. -/
def kelvin (x : U32) : List U8 :=
  decimal (x.toNat / 100) ++ literal "." ++ padded 2 (x.toNat % 100)

/-- Sets or clears a flag of the pause trigger. -/
def Triggers.setFlag (t : Triggers) (why : Reason) (on : Bool) : Triggers :=
  { t with pauses.pausetrig.trigger :=
      if on then t.pauses.pausetrig.trigger ||| why.mask
      else t.pauses.pausetrig.trigger &&& ~~~why.mask }

def Triggers.pollDefrag (p : Platform) (defrag : Bool) (t : Triggers) : Triggers :=
  if p.windows then t.setFlag .custom defrag else t

/-- A program that was active is no longer: the place in the list that need not be looked at. -/
def Triggers.clearApp (running : ℕ → Bool) (t : Triggers) : Option (Triggers × Option ℕ) :=
  if t.pauses.pausetrig.trigger &&& TRIGPAUSEBY_APPACTIVE = 0#32 then some (t, none)
  else
    (t.pauses.pauseplist[t.pauses.lastactivep]?).map fun name ↦
      if running t.pauses.lastactivep then (t, none)
      else
        ({ t.setFlag .appActive false with
            pauses.lastactivep := 0
            notes := t.notes ++ [.resumed
              (t.pauses.pausetrig.laststate &&& ~~~TRIGPAUSEBY_APPACTIVE != 0#32) .appActive
              (literal "('" ++ name ++ literal "' inactive)")] },
          some t.pauses.lastactivep)

/-- Looks for a program of the list that is active, and gives its name. -/
def Triggers.findApp (running : ℕ → Bool) (nowcleared : Option ℕ) (t : Triggers) :
    Triggers × List U8 :=
  if t.pauses.pausetrig.trigger &&& TRIGPAUSEBY_APPACTIVE = 0#32 then
    match t.pauses.pauseplist.zipIdx.find? fun app ↦
      nowcleared != some app.2 && running app.2 with
    | some (name, idx) => ({ t.setFlag .appActive true with pauses.lastactivep := idx }, name)
    | none => (t, [])
  else (t, [])

def Triggers.pollApps (running : ℕ → Bool) (t : Triggers) : Option (Triggers × List U8) :=
  if t.pauses.pauseplist = [] then some (t, [])
  else (t.clearApp running).map fun cleared ↦ cleared.1.findApp running cleared.2

/-- What can be found out about the power supply. `unavailable` is an answer after which the
question is not asked any more. -/
inductive Mains
  | online
  | offline
  | unknown
  | unavailable
  deriving DecidableEq

/-- `__IsRunningOnBattery` -/
def Mains.onBattery : Mains → Option Bool
  | online => some false
  | offline => some true
  | unknown => none
  | unavailable => none

def Triggers.pollBattery (mains : Mains) (t : Triggers) : Triggers :=
  if t.pauses.pauseIfNoMainsPower then
    let t := { t with pauses.pauseIfNoMainsPower := mains ≠ .unavailable }
    match mains.onBattery with
    | some on => t.setFlag .srcBattery on
    | none => t
  else t

/-- `__CPUTemperaturePoll`, with `none` for an answer below zero. -/
def cpuTemperaturePoll (p : Platform) (cputemp : ℤ) (c : Cputemp) :
    Cputemp × Option Bool × List Note :=
  if 0 < c.lothresh.toInt ∧ c.lothresh.toInt ≤ c.hithresh.toInt then
    if cputemp < 0 then
      (if p.givesUpOnTemperature then ⟨0#32, 0#32, false⟩ else c, none, [])
    else
      let marking := if c.hithresh.toInt ≤ cputemp then true
        else if cputemp < c.lothresh.toInt then false else c.markingHigh
      ({ c with markingHigh := marking }, some marking, [])
  else if c.hithresh.toInt < c.lothresh.toInt then (⟨0#32, 0#32, false⟩, none, [.disabled])
  else (c, some c.markingHigh, [])

def Triggers.pollTemperature (p : Platform) (cputemp : ℤ) (t : Triggers) : Triggers :=
  let polled := cpuTemperaturePoll p cputemp t.pauses.cputemp
  let t := { t with pauses.cputemp := polled.1, notes := t.notes ++ polled.2.2 }
  match polled.2.1 with
  | some on => t.setFlag .cpuTemp on
  | none => t

/-- Tells about one flag. The flag that goes is not told of where there is no text for it. -/
def Triggers.tell (why : Reason) (active : List U8) (inactive : Option (List U8)) (t : Triggers) :
    Triggers :=
  let trig := t.pauses.pausetrig
  if trig.trigger &&& why.mask ≠ 0#32 ∧ trig.laststate &&& why.mask = 0#32 then
    { t with
      pauses.pausetrig.laststate := trig.laststate ||| why.mask
      notes := t.notes ++ [.paused (trig.laststate != 0#32) why active] }
  else if trig.trigger &&& why.mask = 0#32 ∧ trig.laststate &&& why.mask ≠ 0#32 then
    let laststate := trig.laststate &&& ~~~why.mask
    { t with
      pauses.pausetrig.laststate := laststate
      notes := t.notes ++
        (inactive.map fun detail ↦ Note.resumed (laststate != 0#32) why detail).toList }
  else t

/-- Tells about all flags in turn. -/
def Triggers.tellAll (p : Platform) (app : List U8) (t : Triggers) : Triggers :=
  let c := t.pauses.cputemp
  ((((((t.tell .signal (literal "(user generated)") (some (literal "(user cleared)"))).tell
    .flagfile (literal "(found flagfile)") (some (literal "(flagfile cleared)"))).tell
    .custom (customNow p true) (some (customNow p false))).tell
    .appActive (literal "('" ++ (if app = [] then literal "process" else app) ++
      literal "' active)") none).tell
    .srcBattery (literal "(No mains power)") (some (literal "(Mains power restored)"))).tell
    .cpuTemp (literal "(CPU temperature exceeds " ++ kelvin c.hithresh ++ literal "K)")
      (some (literal "(CPU temperature below " ++ kelvin c.lothresh ++ literal "K)")))

/-- Tells what has changed since the last check, and lets the polled procedures go when the pause is
over. -/
def Triggers.tellChanges (p : Platform) (app : List U8) (t : Triggers) : Triggers :=
  if t.pauses.pausetrig.laststate = t.pauses.pausetrig.trigger then t
  else
    let t := t.tellAll p app
    if t.pauses.pausetrig.laststate = 0#32 then { t with notes := t.notes ++ [.released] } else t

/-- The flags that are not exported are shown as `TRIGSETBY_CUSTOM`. -/
def publicMask (trigger : U32) : U32 :=
  (trigger &&& (TRIGSETBY_SIGNAL ||| TRIGSETBY_FLAGFILE)) |||
    if trigger &&& ~~~(TRIGSETBY_SIGNAL ||| TRIGSETBY_FLAGFILE) ≠ 0#32 then TRIGSETBY_CUSTOM
    else 0#32

def checkPauseRequestTriggerNoIo (t : Triggers) : U32 := publicMask t.pauses.pausetrig.trigger

/-- What a check for a pause comes upon; `running` says of each place of the list whether its
program is active. No place is asked about twice in a check. -/
structure PauseSeen where
  exit : ExitSeen
  defrag : Bool
  running : ℕ → Bool
  mains : Mains
  cputemp : ℤ
  clock : Option ℤ
  pausefile : Bool

/-- The part of a check for a pause that sets the flags. -/
def Triggers.pollPause (p : Platform) (seen : PauseSeen) (t : Triggers) :
    Option (Triggers × List U8) :=
  ((t.pollDefrag p seen.defrag).pollApps seen.running).map fun polled ↦
    let t := (polled.1.pollBattery seen.mains).pollTemperature p seen.cputemp
    ({ t with pauses.pausetrig :=
        pollExternalTrigger t.pauses.pausetrig true seen.clock seen.pausefile }, polled.2)

/-- `CheckPauseRequestTrigger`; `none` if the list of programs is read past its end. -/
def checkPauseRequestTrigger (p : Platform) (seen : PauseSeen) (t : Triggers) :
    Option (U32 × Triggers) :=
  let t := checkExitRequestTrigger seen.exit t
  if t.exits.exittrig.trigger ≠ 0#32 ∨ t.doingmodes then some (0#32, t)
  else
    (t.pollPause p seen).map fun polled ↦
      let t := polled.1.tellChanges p polled.2
      (checkPauseRequestTriggerNoIo t, t)

/-! ## Runs -/

inductive Event
  | raiseExit
  | raiseRestart
  | shutdown -- a signal
  | raisePause
  | clearPause
  | overrideNextConffileChange
  | checkExit (seen : ExitSeen)
  | checkPause (seen : PauseSeen)

/-- What the triggers are after an event. -/
def Event.act (p : Platform) : Event → Triggers → Option Triggers
  | raiseExit, t => some { t with exits := t.exits.raiseExitRequestTrigger }
  | raiseRestart, t => some { t with exits := t.exits.raiseRestartRequestTrigger }
  | shutdown, t => some { t with exits := t.exits.cliSignalHandler }
  | raisePause, t => some { t with pauses := t.pauses.raisePauseRequestTrigger }
  | clearPause, t => some { t with pauses := t.pauses.clearPauseRequestTrigger }
  | overrideNextConffileChange, t =>
      some { t with exits := t.exits.overrideNextConffileChangeTrigger }
  | checkExit seen, t => some (checkExitRequestTrigger seen t)
  | checkPause seen, t => (checkPauseRequestTrigger p seen t).map Prod.snd

/-- What the triggers are set up with. -/
structure Settings where
  doingmodes : Bool
  exitfile : Option (List U8)
  pausefile : Option (List U8)
  pauseplist : List (List U8)
  inifile : List U8
  lothresh : U32
  hithresh : U32
  pauseifnomainspower : Bool

def PAUSEFILE_CHECKTIME_WHENON : ℕ := 3

def PAUSEFILE_CHECKTIME_WHENOFF : ℕ := 3 * PAUSEFILE_CHECKTIME_WHENON

def EXITFILE_CHECKTIME : ℕ := PAUSEFILE_CHECKTIME_WHENOFF

/-- `InitializeTriggers`. While modes are run nothing is watched. -/
def initializeTriggers (s : Settings) : Triggers where
  doingmodes := s.doingmodes
  exits :=
    { exittrig :=
        ⟨if s.doingmodes then none else s.exitfile, 0, EXITFILE_CHECKTIME, 0#32, 0#32, 0⟩
      huptrig := 0#32
      overrideinifiletime := 0
      nextinifilecheck := 0
      currinifiletime := 0
      inifile := if s.doingmodes then [] else s.inifile }
  pauses :=
    { pausetrig := ⟨if s.doingmodes then none else s.pausefile, PAUSEFILE_CHECKTIME_WHENON,
        PAUSEFILE_CHECKTIME_WHENOFF, 0#32, 0#32, 0⟩
      pauseplist := if s.doingmodes then [] else s.pauseplist
      lastactivep := 0
      pauseIfNoMainsPower := !s.doingmodes && s.pauseifnomainspower
      cputemp := if s.doingmodes then ⟨0#32, 0#32, false⟩ else ⟨s.lothresh, s.hithresh, false⟩ }
  notes := []

/-- The triggers after some events. -/
def after (p : Platform) (s : Settings) (past : List Event) : Option Triggers :=
  past.foldl (fun t event ↦ t.bind (event.act p)) (some (initializeTriggers s))

theorem after_concat (p : Platform) (s : Settings) (past : List Event) (event : Event) :
    after p s (past ++ [event]) = (after p s past).bind (event.act p) := by
  rw [after, List.foldl_append]
  rfl

end Hyunjin.Trigger
