import Hyunjin.Run.Machine
import Hyunjin.Run.Tickets
import Hyunjin.Word.Bytes
import Mathlib.Data.Int.Order.Basic
import Mathlib.Logic.Function.Basic

/-!
# The polling system

Procedures are registered with a time and a priority and are called from a loop that runs while the
client sleeps. The run list holds an entry for every handle; an entry is taken by
`RegPolledProcedure` and is free again after `UnregPolledProcedure` or when its procedure is called.
The list grows by a block of entries when no entry is free.

The loop goes through the run levels from the highest to the lowest. At each level it goes once
round the list, from where the level stopped the last time, until it comes to an entry of that
level that is due. After a call it reads the clock and starts again at the highest level.

The loop is one step for each entry it looks at. Between the call of a procedure and its return any
calls of the interface can be made, the loop itself included.
-/

namespace Hyunjin.Poll

open Tickets

/-- `struct timeval`. -/
structure Timeval where
  tvSec : ℤ
  tvUsec : ℤ
  deriving DecidableEq, Repr

/-- A reading of the monotonic clock. -/
abbrev Reading := {t : Timeval // 0 ≤ t.tvUsec ∧ t.tvUsec < 1000000}

/-- What depends on the build: the size of `struct polldata` and the width of a `long`. -/
structure Platform where
  polldata : ℕ
  long : ℕ
  polldata_pos : 0 < polldata
  polldata_le : polldata ≤ 1024

namespace Platform

variable (p : Platform)

/-- A value as a signed `long`. -/
def wrap (x : ℤ) : ℤ := x.bmod (2 ^ p.long)

/-- A `long` as an `unsigned long`. -/
def unsigned (x : ℤ) : ℤ := x % 2 ^ p.long

/-- The number of entries in a block. -/
def mcount : ℕ := 1024 / p.polldata

theorem mcount_pos : 0 < p.mcount := Nat.div_pos p.polldata_le p.polldata_pos

end Platform

namespace Timeval

/-- A time some seconds and microseconds later. -/
def add (p : Platform) (t : Timeval) (sec usec : ℤ) : Timeval :=
  let usec' := p.wrap (t.tvUsec + usec)
  { tvSec := p.wrap (p.wrap (t.tvSec + sec) + usec'.tdiv 1000000)
    tvUsec := usec'.tmod 1000000 }

def before (a b : Timeval) : Bool :=
  a.tvSec < b.tvSec || a.tvSec == b.tvSec && a.tvUsec < b.tvUsec

end Timeval

/-- The time between two times, whichever comes first. -/
def cliTimerDiff (p : Platform) (a b : Timeval) : Timeval :=
  let swap : Bool := p.unsigned b.tvSec < p.unsigned a.tvSec
    || b.tvSec == a.tvSec && p.unsigned b.tvUsec < p.unsigned a.tvUsec
  let tv₁ := if swap then b else a
  let tv₂ := if swap then a else b
  let diff : Timeval := if p.unsigned tv₂.tvUsec < p.unsigned tv₁.tvUsec then
      ⟨p.wrap (tv₂.tvSec - 1), p.wrap (tv₂.tvUsec + 1000000)⟩
    else tv₂
  ⟨p.wrap (diff.tvSec - tv₁.tvSec), p.wrap (diff.tvUsec - tv₁.tvUsec)⟩

def MAX_POLL_RUNLEVEL : ℕ := 32

/-- An entry of the run list. -/
structure PollData (P A : Type*) where
  priority : U32
  inuse : Bool
  fd : U32
  proc : Option P
  arg : A
  execat : Timeval

/-- An entry of `pollsysdatapaused`. -/
structure Queued (P A : Type*) where
  priority : U32
  proc : Option P
  arg : A

/-- What a call of `RegPolledProcedure` asks for, and the time it was made. -/
structure Registration (P A : Type*) where
  proc : P
  arg : A
  interval : Option Timeval
  priority : U32
  clock : Reading

/-- What has happened, newest first. -/
abbrev History (P A : Type*) := List (Event U32 (Registration P A) Reading (Option P × A))

/-- The variables of a running loop. -/
structure Loop where
  now : Reading
  untilTime : Timeval
  runprio : ℕ
  /-- The place of the entry to look at. -/
  thisp : Option ℕ
  /-- A procedure has been called and has not returned. -/
  calling : Bool

/-- The state: `loop` stands for `isrunning` and the loop's own variables, and `history` is there
for what is said about runs only. -/
structure System (P A : Type*) where
  runlist : List (PollData P A)
  regcount : U32
  /-- For each run level the place in the run list where it goes on. -/
  nextrun : ℕ → Option ℕ
  paused : List (Queued P A)
  overflow : Timeval
  loop : Option Loop
  history : History P A

variable {P A : Type*} [Inhabited A]

/-- Before anything is registered. -/
def start : System P A := ⟨[], 0#32, fun _ ↦ none, [], ⟨0, 0⟩, none, []⟩

/-! ## The interface -/

/-- A handle that is not in the list changes nothing. -/
def unregPolledProcedure (fd : U32) (s : System P A) : ℤ × System P A :=
  let i := s.runlist.findIdx (·.fd == fd)
  match s.runlist[i]? with
  | none => (-1, s)
  | some e =>
    if e.inuse then
      (0, { s with
        runlist := s.runlist.set i { e with inuse := false }
        regcount := s.regcount - 1#32
        history := .withdrawn fd :: s.history })
    else (-1, { s with regcount := s.regcount - 1#32 })

/-- A block of entries behind the last one. `malloc` leaves the other members unset, and nothing
reads them before the entry is in use. -/
def block (p : Platform) (fd : U32) : List (PollData P A) :=
  (List.range p.mcount).map fun i ↦
    ⟨0#32, false, fd + BitVec.ofNat 32 (i + 1), none, default, ⟨0, 0⟩⟩

/-- The list without a free entry. -/
def extend (p : Platform) (s : System P A) : System P A :=
  let fd := (s.runlist.getLast?.map PollData.fd).getD (-1#32)
  { s with
    nextrun := if s.runlist.isEmpty then fun _ ↦ none else s.nextrun
    runlist := s.runlist ++ block p (if fd = -1#32 then 0#32 else fd) }

def firstFree (list : List (PollData P A)) : ℕ := list.findIdx (!·.inuse)

/-- The time from which a procedure may be called. -/
def execat (p : Platform) (clock : Reading) (interval : Option Timeval) : Timeval :=
  match interval with
  | none => clock.1
  | some t => clock.1.add p t.tvSec t.tvUsec

/-- The level of a priority. -/
def level (priority : U32) : U32 :=
  if MAX_POLL_RUNLEVEL ≤ priority.toNat then BitVec.ofNat 32 (MAX_POLL_RUNLEVEL - 1) else priority

def regPolledProcedure (p : Platform) (proc : Option P) (arg : A) (interval : Option Timeval)
    (priority : U32) (clock : Reading) (s : System P A) : U32 × System P A :=
  match proc with
  | none => (-1#32, s)
  | some f =>
    let i := firstFree s.runlist
    let s := if i < s.runlist.length then s else extend p s
    match s.runlist[i]? with
    | none => (-1#32, s)
    | some e =>
      (e.fd, { s with
        regcount := s.regcount + 1#32
        runlist := s.runlist.set i { e with
          inuse := true
          proc := some f
          arg := arg
          priority := level priority
          execat := execat p clock interval }
        history := .issued e.fd ⟨f, arg, interval, priority, clock⟩ :: .read clock :: s.history })

def enqueuePolledProcedure (proc : Option P) (arg : A) (priority : U32) (s : System P A) :
    System P A :=
  { s with paused := ⟨priority, proc, arg⟩ :: s.paused }

/-- The procedures that are enqueued are registered one by one; `clock` is read for each. -/
def regQueued (p : Platform) : List (Queued P A) → (ℕ → Reading) → System P A → System P A
  | [], _, s => s
  | q :: qs, clock, s =>
    regQueued p qs (fun n ↦ clock (n + 1))
      (regPolledProcedure p q.proc q.arg none q.priority (clock 0) { s with paused := qs }).2

def regQueuedPolledProcedures (p : Platform) (clock : ℕ → Reading) (s : System P A) :
    System P A :=
  regQueued p s.paused clock s

/-! ## The loop -/

/-- `__RunPollingLoop` up to the loop. A call from inside the loop only prints a message, and with
nothing registered the client sleeps. -/
def runPollingLoop (p : Platform) (secs usecs : U32) (clock : Reading) (s : System P A) :
    System P A :=
  if s.loop.isSome || s.runlist.isEmpty || s.regcount == 0#32 then s
  else { s with
    loop := some {
      now := clock
      untilTime := cliTimerDiff p (clock.1.add p secs.toNat usecs.toNat) s.overflow
      runprio := MAX_POLL_RUNLEVEL
      thisp := none
      calling := false }
    history := .read clock :: s.history }

/-- Behind the inner loop: on to the next level, or to the highest one with a new reading. -/
def leave (p : Platform) (l : Loop) (ran : Bool) (clock : Reading) (s : System P A) : System P A :=
  let reclock : Bool := ran || l.runprio == 0
  let now := if reclock then clock else l.now
  let runprio := if reclock then MAX_POLL_RUNLEVEL else l.runprio - 1
  let s := if reclock then { s with history := .read clock :: s.history } else s
  if now.1.before l.untilTime then
    { s with loop := some ⟨now, l.untilTime, runprio, none, false⟩ }
  else { s with overflow := cliTimerDiff p now.1 l.untilTime, loop := none }

/-- The entry behind an entry, the first one behind the last. -/
def next (list : List (PollData P A)) (i : ℕ) : ℕ := if i + 1 < list.length then i + 1 else 0

/-- Where a level goes on. -/
def cursor (l : Loop) (s : System P A) : ℕ := (s.nextrun l.runprio).getD 0

/-- The entry is to be called. -/
def runs (l : Loop) (e : PollData P A) : Bool :=
  e.inuse && (e.priority.toNat == l.runprio && !l.now.1.before e.execat)

/-- One turn of the inner loop, up to the call of a procedure. -/
def turn (p : Platform) (l : Loop) (clock : Reading) (s : System P A) : System P A :=
  if s.runlist.isEmpty then leave p l false clock s
  else
    let c := cursor l s
    let i := l.thisp.getD c
    let s := { s with nextrun := Function.update s.nextrun l.runprio (some c) }
    let n := next s.runlist i
    match s.runlist[i]?, s.runlist[c]?, s.runlist[n]? with
    | some e, some ec, some en =>
      if runs l e then
        { s with
          runlist := s.runlist.set i { e with inuse := false }
          regcount := s.regcount - 1#32
          nextrun := Function.update s.nextrun l.runprio (some n)
          loop := some { l with thisp := some n, calling := true }
          history := .served e.fd (e.proc, e.arg) :: s.history }
      else if ec.fd = en.fd then leave p l false clock s
      else { s with loop := some { l with thisp := some n } }
    | _, _, _ => s

/-! ## The machine -/

/-- A call of the interface. -/
inductive Call (P A : Type*) where
  | reg (proc : Option P) (arg : A) (interval : Option Timeval) (priority : U32) (clock : Reading)
  | unreg (fd : U32)
  | enqueue (proc : Option P) (arg : A) (priority : U32)
  | regQueued (clock : ℕ → Reading)
  | run (secs usecs : U32) (clock : Reading)

/-- What happens next: a call of the interface, a turn of the loop, or the return of the procedure
that the loop has called. -/
inductive Input (P A : Type*) where
  | call (c : Call P A)
  | turn (clock : Reading)
  | back (clock : Reading)

def perform (p : Platform) : Call P A → System P A → System P A
  | .reg proc arg interval priority clock, s =>
    (regPolledProcedure p proc arg interval priority clock s).2
  | .unreg fd, s => (unregPolledProcedure fd s).2
  | .enqueue proc arg priority, s => enqueuePolledProcedure proc arg priority s
  | .regQueued clock, s => regQueuedPolledProcedures p clock s
  | .run secs usecs clock, s => runPollingLoop p secs usecs clock s

/-- The loop is looking for a procedure to call. -/
def System.scanning (s : System P A) : Bool := s.loop.any (!·.calling)

/-- What cannot happen in a state is passed over: no call is made while the loop looks through the
list, and no procedure returns that has not been called. -/
def step (p : Platform) : Input P A → System P A → Unit × System P A
  | .call c, s => ((), if s.scanning then s else perform p c s)
  | .turn clock, s =>
    ((), s.loop.elim s fun l ↦ if l.calling then s else turn p l clock s)
  | .back clock, s =>
    ((), s.loop.elim s fun l ↦ if l.calling then leave p l true clock s else s)

end Hyunjin.Poll
