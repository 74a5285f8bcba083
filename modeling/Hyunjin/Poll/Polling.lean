import Hyunjin.Poll.Registrations

/-!
# Runs of the polling system

A run is any sequence of calls, of turns of the loop and of returns of the procedures that the loop
calls. As long as no call unregisters the handle of an entry that is not in use, the counter is the
number of the entries in use, no two entries have one handle, and the history is lawful: what is
called has been registered and not unregistered since, it is called once, with its argument and not
before its time, and nothing of a higher level is due (`polling_exact`).

Without that the counter is wrong from the first such call on (`regcount_unreg_idle`): after two
calls for one handle it is zero or below while other procedures wait
(`not_pollingExact_twice`).

The invariant of the loop is that nothing above its level is due, and nothing of its level among
the entries it has passed since it came to the level.
-/

namespace Hyunjin.Poll

open Tickets

variable {P A : Type*} {p : Platform} {s : System P A} {l : Loop}

/-! ## Where the loop has been -/

/-- The entry is due at the reading of the loop. -/
def Ready (now : Reading) (e : PollData P A) : Prop :=
  e.inuse = true ∧ now.1.before e.execat = false

/-- The places passed on the way round from `c` to `t`. -/
def Passed (c t i : ℕ) : Prop := c ≤ i ∧ i < t ∨ t < c ∧ (c ≤ i ∨ i < t)

theorem passed_next {list : List (PollData P A)} {c t i : ℕ} (ht : t < list.length)
    (hlt : i < list.length) (hi : Passed c (next list t) i) :
    Passed c t i ∨ i = t := by
  rw [next] at hi
  rw [Passed] at hi ⊢
  split_ifs at hi <;> omega

/-- Back at the start, every place has been passed. -/
theorem passed_round {list : List (PollData P A)} {t i : ℕ} (ht : t < list.length)
    (hi : i < list.length) : Passed (next list t) t i ∨ i = t := by
  rw [next, Passed]
  split_ifs <;> omega

theorem next_lt {list : List (PollData P A)} {i : ℕ} (hi : i < list.length) :
    next list i < list.length := by
  rw [next]
  split_ifs with h
  · exact h
  · exact Nat.zero_lt_of_lt hi

/-- **The loop is looking for a procedure.** -/
structure Scanning (l : Loop) (s : System P A) : Prop where
  read : lastRead s.history = some l.now
  above : ∀ (i : ℕ) e, s.runlist[i]? = some e → Ready l.now e → e.priority.toNat ≤ l.runprio
  place : ∀ t ∈ l.thisp, t < s.runlist.length
  passed : ∀ t ∈ l.thisp, ∀ (i : ℕ) e, s.runlist[i]? = some e → Passed (cursor l s) t i →
    Ready l.now e → e.priority.toNat ≠ l.runprio

/-- **The invariant.** -/
structure Inv (p : Platform) (s : System P A) : Prop extends Sane p s where
  scanning : ∀ l ∈ s.loop, l.calling = false → Scanning l s

theorem level_lt (priority : U32) : (level priority).toNat < MAX_POLL_RUNLEVEL := by
  rw [level]
  split_ifs with h
  · decide
  · exact not_le.mp h

/-- Entries in use have a level below the highest of the loop. -/
theorem Sane.priority_lt (h : Sane p s) {i : ℕ} {e : PollData P A} (hi : s.runlist[i]? = some e)
    (huse : e.inuse = true) : e.priority.toNat < MAX_POLL_RUNLEVEL := by
  obtain ⟨n, r, -, hrec⟩ := h.kept.registered i e hi huse
  rw [hrec.priority]
  exact level_lt _

/-! ## Turns of the loop -/

/-- The loop starts at the highest level, at which there is nothing. -/
theorem scanning_top (h : Sane p s) (now : Reading) (untilTime : Timeval)
    (hread : lastRead s.history = some now) :
    Scanning ⟨now, untilTime, MAX_POLL_RUNLEVEL, none, false⟩ s where
  read := hread
  above i e hi hready := (h.priority_lt hi hready.1).le
  place t ht := by cases ht
  passed t ht := by cases ht

theorem inv_of_loop {s' : System P A} (h : Sane p s) (hlist : s'.runlist = s.runlist)
    (hcount : s'.regcount = s.regcount) (hnext : s'.nextrun = s.nextrun)
    (hhist : s'.history = s.history)
    (hscan : ∀ l ∈ s'.loop, l.calling = false → Scanning l s') : Inv p s' where
  kept := by
    rw [hlist, hcount, hhist]
    exact h.kept
  lawful := by
    rw [hhist]
    exact h.lawful
  cursors := by
    rw [hlist, hnext]
    exact h.cursors
  scanning := hscan

theorem Sane.loop (h : Sane p s) (x : Option Loop) : Sane p { s with loop := x } :=
  ⟨h.kept, h.lawful, h.cursors⟩

/-- A reading of the clock changes nothing but the history. -/
theorem Sane.read (h : Sane p s) (clock : Reading) :
    Sane p { s with history := .read clock :: s.history } where
  kept := h.kept.congr fun _ ↦ rfl
  lawful := h.lawful
  cursors := h.cursors

/-- With nothing due at the level, or after a call, the loop goes on to another level. -/
theorem inv_leave (h : Sane p s) {ran : Bool} (clock : Reading)
    (hscan : ran = false → lastRead s.history = some l.now
      ∧ ∀ (i : ℕ) e, s.runlist[i]? = some e → Ready l.now e → e.priority.toNat < l.runprio) :
    Inv p (leave p l ran clock s) := by
  rw [leave]
  cases hreclock : ran || l.runprio == 0 with
  | true =>
    simp only [if_true]
    have hread := h.read clock
    split_ifs
    · refine inv_of_loop hread rfl rfl rfl rfl fun l' hl' _ ↦ ?_
      obtain rfl := Option.some.inj hl'
      exact scanning_top (hread.loop _) clock _ rfl
    · refine inv_of_loop hread rfl rfl rfl rfl fun l' hl' _ ↦ ?_
      cases hl'
  | false =>
    obtain ⟨rfl, hprio⟩ := Bool.or_eq_false_iff.mp hreclock
    obtain ⟨hread, hbelow⟩ := hscan rfl
    simp only [Bool.false_eq_true, if_false]
    split_ifs
    · refine inv_of_loop h rfl rfl rfl rfl fun l' hl' _ ↦ ?_
      obtain rfl := Option.some.inj hl'
      refine ⟨hread, fun i e hi hready ↦ ?_, fun t ht ↦ ?_, fun t ht ↦ ?_⟩
      · exact Nat.le_sub_one_of_lt (hbelow i e hi hready)
      · cases ht
      · cases ht
    · refine inv_of_loop h rfl rfl rfl rfl fun l' hl' _ ↦ ?_
      cases hl'

/-- The entry that is called has the highest rank of those that are due. -/
theorem lawful_served (h : Sane p s) (hscan : Scanning l s) {i : ℕ} {e : PollData P A}
    (hi : s.runlist[i]? = some e) (hready : Ready l.now e)
    (hprio : e.priority.toNat = l.runprio) :
    Lawful (rules p) (.served e.fd (e.proc, e.arg) :: s.history) := by
  obtain ⟨n, r, hheld, hrec⟩ := h.kept.registered i e hi hready.1
  have hdue := hready.2
  rw [hrec.execat] at hdue
  obtain ⟨hmicros, husec⟩ := execat_spec hrec.inRange
  refine ⟨⟨n, r, l.now, hheld, hscan.read, ⟨?_, ?_⟩, fun g m q hq hqdue ↦ ?_⟩, h.lawful⟩
  · rw [hrec.proc, hrec.arg]
  · rw [← hmicros]
    exact micros_le_of_due husec hdue
  · obtain ⟨j, f, hj, rfl, huse⟩ := h.kept.inuse g (m, q) hq
    obtain ⟨m', q', hq', hrec'⟩ := h.kept.registered j f hj huse
    rw [hq] at hq'
    obtain ⟨-, rfl⟩ := Prod.mk.inj (Option.some.inj hq')
    have hle := hscan.above j f hj ⟨huse, by rw [hrec'.execat]; exact hqdue⟩
    rw [← hprio, hrec'.priority, hrec.priority] at hle
    exact hle

/-- One turn: an entry is called, passed, or the last one of the round. -/
theorem inv_turn (h : Sane p s) (hscan : Scanning l s) (clock : Reading) :
    Inv p (turn p l clock s) := by
  rw [turn]
  by_cases hempty : s.runlist.isEmpty = true
  · rw [if_pos hempty]
    refine inv_leave h clock fun _ ↦ ⟨hscan.read, fun i e hi ↦ ?_⟩
    rw [List.isEmpty_iff.mp hempty] at hi
    cases hi
  · rw [if_neg hempty]
    have hpos : 0 < s.runlist.length :=
      List.length_pos_iff.mpr fun hnil ↦ hempty (List.isEmpty_iff.mpr hnil)
    have hc : cursor l s < s.runlist.length := by
      rw [cursor]
      cases hnext : s.nextrun l.runprio with
      | none => exact hpos
      | some c => exact h.cursors _ c hnext
    -- the place looked at, and what has been passed on the way there
    obtain ⟨t, hget, ht, hpassed⟩ : ∃ t, l.thisp.getD (cursor l s) = t ∧ t < s.runlist.length
        ∧ ∀ (i : ℕ) e, s.runlist[i]? = some e → Passed (cursor l s) t i → Ready l.now e →
          e.priority.toNat ≠ l.runprio := by
      cases hthis : l.thisp with
      | none =>
        refine ⟨_, rfl, hc, fun i e _ hi ↦ ?_⟩
        rw [Option.getD_none, Passed] at hi
        omega
      | some t => exact ⟨t, rfl, hscan.place t hthis, hscan.passed t hthis⟩
    have hn := next_lt ht
    have hcursors : ∀ x < s.runlist.length, ∀ q c,
        Function.update s.nextrun l.runprio (some x) q = some c → c < s.runlist.length := by
      intro x hx q c hq
      rw [Function.update_apply] at hq
      split_ifs at hq
      · rw [← Option.some.inj hq]
        exact hx
      · exact h.cursors q c hq
    dsimp only
    rw [hget, List.getElem?_eq_getElem ht, List.getElem?_eq_getElem hc,
      List.getElem?_eq_getElem hn]
    dsimp only
    have hget' := List.getElem?_eq_getElem ht
    generalize s.runlist[t] = e at hget'
    cases hruns : runs l e with
    | true =>
      rw [if_pos rfl]
      rw [runs, Bool.and_eq_true, Bool.and_eq_true, beq_iff_eq, Bool.not_eq_true'] at hruns
      obtain ⟨huse, hprio, hdue⟩ := hruns
      refine ⟨⟨h.kept.close hget' huse fun g ↦ rfl,
        lawful_served h hscan hget' ⟨huse, hdue⟩ hprio, fun q c hq ↦ ?_⟩, fun l' hl' hcall ↦ ?_⟩
      · rw [List.length_set]
        dsimp only at hq
        rw [Function.update_idem] at hq
        exact hcursors _ hn q c hq
      · obtain rfl := Option.some.inj hl'
        cases hcall
    | false =>
      have hnot : Ready l.now e → e.priority.toNat ≠ l.runprio := by
        intro hready hprio
        rw [runs, hready.1, hready.2, beq_iff_eq.mpr hprio] at hruns
        cases hruns
      have hs : Sane p
          { s with nextrun := Function.update s.nextrun l.runprio (some (cursor l s)) } :=
        ⟨h.kept, h.lawful, hcursors _ hc⟩
      rw [if_neg Bool.false_ne_true]
      split_ifs with hfd
      · have hround : cursor l s = next s.runlist t :=
          h.kept.fd_injective (List.getElem?_eq_getElem hc) (List.getElem?_eq_getElem hn) hfd
        refine inv_leave hs clock fun _ ↦ ⟨hscan.read, fun i f hi hready ↦ ?_⟩
        have hne : f.priority.toNat ≠ l.runprio := by
          rcases passed_round ht (List.getElem?_eq_some_iff.mp hi).1 with hi' | rfl
          · rw [← hround] at hi'
            exact hpassed i f hi hi' hready
          · rw [hget'] at hi
            obtain rfl := Option.some.inj hi
            exact hnot hready
        exact lt_of_le_of_ne (hscan.above i f hi hready) hne
      · refine ⟨hs.loop _, fun l' hl' _ ↦ ?_⟩
        obtain rfl := Option.some.inj hl'
        refine ⟨hscan.read, hscan.above, fun t' ht' ↦ ?_, fun t' ht' i f hi hi' hready ↦ ?_⟩
        · obtain rfl := Option.some.inj ht'
          exact hn
        · obtain rfl := Option.some.inj ht'
          rw [cursor] at hi'
          dsimp only at hi'
          rw [Function.update_self, Option.getD_some] at hi'
          rcases passed_next ht (List.getElem?_eq_some_iff.mp hi).1 hi' with hi' | rfl
          · exact hpassed i f hi hi' hready
          · rw [hget'] at hi
            obtain rfl := Option.some.inj hi
            exact hnot hready

/-! ## Runs -/

/-- **The system is right**: the counter counts the entries in use, which are those of the
registrations that are neither unregistered nor called, the handles are distinct, and the history
is lawful and calls nothing twice. -/
structure PollingExact (p : Platform) (s : System P A) : Prop where
  regcount : s.regcount.toNat = s.runlist.countP (·.inuse)
  fds : (s.runlist.map PollData.fd).Nodup
  registered : ∀ fd, (∃ q, held s.history fd = some q)
    ↔ ∃ e ∈ s.runlist, e.fd = fd ∧ e.inuse = true
  lawful : Lawful (rules p) s.history
  once : (servedNumbers s.history).Nodup

theorem Sane.exact (h : Sane p s) : PollingExact p s where
  regcount := h.kept.regcount
  fds := h.kept.fds_nodup
  registered fd := by
    refine ⟨fun ⟨q, hq⟩ ↦ ?_, fun ⟨e, he, hfd, huse⟩ ↦ ?_⟩
    · obtain ⟨i, e, hi, hfd, huse⟩ := h.kept.inuse fd q hq
      exact ⟨e, List.mem_of_getElem? hi, hfd, huse⟩
    · obtain ⟨i, hi⟩ := List.mem_iff_getElem?.mp he
      obtain ⟨n, r, hr, -⟩ := h.kept.registered i e hi huse
      exact ⟨(n, r), by rw [← hfd, hr]⟩
  lawful := h.lawful
  once := servedNumbers_nodup _

section Runs

variable [Inhabited A]

/-- There is room for each of the procedures that are enqueued. -/
def QueueRoom (p : Platform) : List (Queued P A) → (ℕ → Reading) → System P A → Prop
  | [], _, _ => True
  | q :: qs, clock, s => (q.proc ≠ none → Room p s)
    ∧ QueueRoom p qs (fun n ↦ clock (n + 1))
      (regPolledProcedure p q.proc q.arg none q.priority (clock 0) { s with paused := qs }).2

/-- **The condition on a call**: a handle that is unregistered is not that of an idle entry, and
neither handles nor times leave their range. -/
def Call.Sound (p : Platform) : Call P A → System P A → Prop
  | .reg proc _ interval _ clock, s => proc ≠ none → Room p s ∧ InRange p clock interval
  | .unreg fd, s => Live fd s
  | .regQueued clock, s => QueueRoom p s.paused clock s
  | .enqueue _ _ _, _ | .run _ _ _, _ => True

/-- The condition on what happens next. -/
def Input.Sound (p : Platform) : Input P A → System P A → Prop
  | .call c, s => s.scanning = false → c.Sound p s
  | .turn _, _ | .back _, _ => True

theorem sane_regQueued (qs : List (Queued P A)) {clock : ℕ → Reading} (h : Sane p s)
    (hroom : QueueRoom p qs clock s) :
    Sane p (regQueued p qs clock s) ∧ (regQueued p qs clock s).loop = s.loop := by
  induction qs generalizing clock s with
  | nil => exact ⟨h, rfl⟩
  | cons q qs ih =>
    have hs : Sane p { s with paused := qs } := ⟨h.kept, h.lawful, h.cursors⟩
    have hreg : Sane p
        (regPolledProcedure p q.proc q.arg none q.priority (clock 0) { s with paused := qs }).2
          ∧ (regPolledProcedure p q.proc q.arg none q.priority (clock 0)
            { s with paused := qs }).2.loop = s.loop := by
      cases hproc : q.proc with
      | none => exact ⟨hs, rfl⟩
      | some f =>
        exact sane_reg hs q.arg q.priority (hroom.1 (by rw [hproc]; exact Option.some_ne_none f))
          fun t ht ↦ nomatch ht
    obtain ⟨hsane, hloop⟩ := ih hreg.1 hroom.2
    exact ⟨hsane, hloop.trans hreg.2⟩

/-- A call that is made while no procedure is looked for. -/
theorem inv_call (h : Sane p s) (hidle : s.scanning = false) {c : Call P A} (hc : c.Sound p s) :
    Inv p (perform p c s) := by
  have hcalling : ∀ l ∈ s.loop, l.calling = true := by
    intro l hl
    rw [System.scanning, Option.mem_def.mp hl, Option.any_some, Bool.not_eq_false'] at hidle
    exact hidle
  have hinv : ∀ {s' : System P A}, Sane p s' ∧ s'.loop = s.loop → Inv p s' := by
    intro s' hs'
    refine ⟨hs'.1, fun l hl hcall ↦ ?_⟩
    rw [hs'.2] at hl
    rw [hcalling l hl] at hcall
    cases hcall
  cases c with
  | reg proc arg interval priority clock =>
    cases proc with
    | none => exact hinv ⟨h, rfl⟩
    | some f =>
      obtain ⟨hroom, hrange⟩ := hc (Option.some_ne_none f)
      exact hinv (sane_reg h arg priority hroom hrange)
  | unreg fd => exact hinv (sane_unreg h hc)
  | enqueue proc arg priority => exact hinv ⟨⟨h.kept, h.lawful, h.cursors⟩, rfl⟩
  | regQueued clock => exact hinv (sane_regQueued s.paused h hc)
  | run secs usecs clock =>
    rw [perform, runPollingLoop]
    split_ifs
    · exact hinv ⟨h, rfl⟩
    · have hread := h.read clock
      refine inv_of_loop hread rfl rfl rfl rfl fun l hl _ ↦ ?_
      obtain rfl := Option.some.inj hl
      exact scanning_top (hread.loop _) clock _ rfl

/-- **One step.** -/
theorem inv_step (i : Input P A) (s : System P A) (h : Inv p s) (hi : i.Sound p s) :
    Inv p (step p i s).2 := by
  cases i with
  | call c =>
    rw [step]
    dsimp only
    cases hscan : s.scanning with
    | true => exact h
    | false => exact inv_call h.toSane hscan (hi hscan)
  | turn clock =>
    rw [step]
    dsimp only
    cases hloop : s.loop with
    | none => exact h
    | some l =>
      rw [Option.elim_some]
      cases hcalling : l.calling with
      | true => exact h
      | false => exact inv_turn h.toSane (h.scanning l hloop hcalling) clock
  | back clock =>
    rw [step]
    dsimp only
    cases hloop : s.loop with
    | none => exact h
    | some l =>
      rw [Option.elim_some]
      cases hcalling : l.calling with
      | true => exact inv_leave h.toSane clock fun hran ↦ nomatch hran
      | false => exact h

/-- **The polling system is right after every run whose calls are sound.** -/
theorem polling_exact (p : Platform) (is : List (Input P A))
    (hrun : Run.Guarded (step p) (Input.Sound p) is start) :
    PollingExact p (Run.final (step p) is start) := by
  have hstart : Inv p (start : System P A) := ⟨sane_start, fun l hl ↦ nomatch hl⟩
  exact (Run.invariant inv_step hstart hrun).toSane.exact

end Runs

/-- A build with 64-bit longs and pointers. -/
def LP64 : Platform := ⟨56, 64, by decide, by decide⟩

def MIDNIGHT : Reading := ⟨⟨0, 0⟩, by decide⟩

/-- A procedure is registered, unregistered and registered again, and the loop is entered. -/
theorem polling_exact_again :
    PollingExact LP64 (Run.final (step LP64) ([.call (.reg (some ()) () none 31#32 MIDNIGHT),
      .call (.unreg 1#32), .call (.reg (some ()) () (some ⟨1, 0⟩) 31#32 MIDNIGHT),
      .call (.run 1#32 0#32 MIDNIGHT), .turn MIDNIGHT] : List (Input Unit Unit)) start) := by
  refine polling_exact LP64 _ ⟨fun _ _ ↦ ⟨.inr (by decide), fun t ht ↦ nomatch ht⟩,
    fun _ ↦ (by decide : Live 1#32 _), fun _ _ ↦ ⟨.inl (by decide), fun t ht ↦ ?_⟩,
    fun _ ↦ trivial, trivial, trivial⟩
  obtain rfl := Option.some.inj ht
  decide

/-- **A handle unregistered twice.** The second call takes another procedure out of the count. -/
theorem not_pollingExact_twice :
    ¬PollingExact LP64 (Run.final (step LP64) ([.call (.reg (some ()) () none 0#32 MIDNIGHT),
      .call (.reg (some ()) () none 0#32 MIDNIGHT), .call (.unreg 1#32), .call (.unreg 1#32)] :
        List (Input Unit Unit)) start) :=
  fun h ↦ absurd h.regcount (by decide)

end Hyunjin.Poll
