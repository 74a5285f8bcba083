import Hyunjin.Run.Machine
import Mathlib.Data.List.Count

/-!
# The packet limit

`LoadSaveProblems` walks over the problem table, saves what is finished and loads new packets into
the empty slots, so that a client that was told to do `n` packets does no more. The first call fills
the table from its first slot on and counts what it loads. A later call goes from the last slot down
and takes for busy every slot that it has not found empty so far: what may be running is
`load_problem_count - empty_problems`.

That is true of the slots below the count that the call is given. The client gives it the number of
problems that the first call has loaded, and this is not enough when a slot was left empty before
one that was loaded (`not_withinLimit_gap`). As long as no problem stands beyond the count, the
limit is kept (`withinLimit`).
-/

namespace Hyunjin

/-- A slot of the problem table. A problem that is finished is there until it is saved. -/
inductive Slot
  | empty
  | running
  | finished
  deriving DecidableEq

/-- The problem table, the packets done according to the summary data of all contests, and what is
kept from call to call. -/
structure ProbTable where
  slots : List Slot
  blocksDone : ℕ
  previousLoadProblemCount : ℕ
  deriving DecidableEq

/-- The counters of a call. -/
structure FillCounters where
  blocksDone : ℕ
  totalBlocksDone : ℕ
  totalProblemsLoaded : ℕ
  emptyProblems : ℕ

/-! ## A call -/

/-- Save the problem of a slot if it is finished, and count it in the summary data. -/
def individualProblemSave (slot : Slot) (c : FillCounters) : Slot × FillCounters :=
  match slot with
  | .finished =>
    (.empty, { c with blocksDone := c.blocksDone + 1, totalBlocksDone := c.totalBlocksDone + 1 })
  | slot => (slot, c)

/-- Whether the limit lets one more packet in. Nothing if the unsigned difference wraps. -/
def mayLoad (blockcount loadProblemCount mode : ℕ) (c : FillCounters) : Option Bool :=
  if 0 < blockcount then
    if mode = 0 then some (c.totalBlocksDone + c.totalProblemsLoaded < blockcount)
    else if c.emptyProblems ≤ loadProblemCount then
      some (c.totalBlocksDone + (loadProblemCount - c.emptyProblems) < blockcount)
    else none
  else some true

/-- One slot; the flag says whether there is a packet that can be loaded. -/
def fillSlot (blockcount loadProblemCount mode : ℕ) (loads : Bool) (slot : Slot)
    (c : FillCounters) : Option (Slot × FillCounters) := do
  let (slot, c) := individualProblemSave slot c
  if slot = .empty then
    let c := { c with emptyProblems := c.emptyProblems + 1 }
    let may ← mayLoad blockcount loadProblemCount mode c
    if may && loads then
      some (.running, { c with
        emptyProblems := c.emptyProblems - 1
        totalProblemsLoaded := c.totalProblemsLoaded + 1 })
    else some (slot, c)
  else some (slot, c)

/-- The slots in the order in which they are visited, each with a flag. -/
def fillSlots (blockcount loadProblemCount mode : ℕ) :
    List Bool → List Slot → FillCounters → Option (List Slot × FillCounters)
  | _, [], c => some ([], c)
  | loads, slot :: slots, c => do
    let (slot, c) ← fillSlot blockcount loadProblemCount mode (loads.headD false) slot c
    let (slots, c) ← fillSlots blockcount loadProblemCount mode loads.tail slots c
    some (slot :: slots, c)

/-- `LoadSaveProblems` for modes that neither unload all problems nor resize the table, with the
number of problems that it has loaded. The first call goes up, a later one down; slots that the
table does not have are passed over. -/
def loadSaveProblems (blockcount loadProblemCount mode : ℕ) (loads : List Bool) (t : ProbTable) :
    Option (ℕ × ProbTable) :=
  if loadProblemCount = 0 then some (0, t)
  else do
    let c : FillCounters :=
      { blocksDone := t.blocksDone, totalBlocksDone := t.blocksDone, totalProblemsLoaded := 0
        emptyProblems := 0 }
    let beyond := t.slots.drop loadProblemCount
    if t.previousLoadProblemCount = 0 then
      let (slots, c) ← fillSlots blockcount loadProblemCount mode loads
        (t.slots.take loadProblemCount) c
      some (c.totalProblemsLoaded, ⟨slots ++ beyond, c.blocksDone, loadProblemCount⟩)
    else
      let (slots, c) ← fillSlots blockcount loadProblemCount mode loads
        (t.slots.take loadProblemCount).reverse c
      some (c.totalProblemsLoaded, ⟨slots.reverse ++ beyond, c.blocksDone, loadProblemCount⟩)

/-! ## Runs of the client -/

/-- A cruncher finishes its problem, or the table is refreshed. -/
inductive FillEvent
  | finish (i : ℕ)
  | refresh (loadProblemCount mode : ℕ) (loads : List Bool)

def ProbTable.finish (t : ProbTable) (i : ℕ) : ProbTable :=
  { t with slots := t.slots.modify i fun slot ↦ if slot = .running then .finished else slot }

/-- What an event makes of the table; nothing if a difference has wrapped. -/
def fillStep (blockcount : ℕ) (e : FillEvent) (t : Option ProbTable) : Unit × Option ProbTable :=
  ((), t.bind fun t ↦
    match e with
    | .finish i => some (t.finish i)
    | .refresh loadProblemCount mode loads =>
      (loadSaveProblems blockcount loadProblemCount mode loads t).map Prod.snd)

/-- The table after the first call, which finds an empty table. -/
def initialLoad (blockcount loadProblemCount size blocksDone : ℕ) (loads : List Bool) :
    Option ProbTable :=
  (loadSaveProblems blockcount loadProblemCount 0 loads
    ⟨List.replicate size .empty, blocksDone, 0⟩).map Prod.snd

/-- The problems that are loaded. -/
def problemsLoaded (slots : List Slot) : ℕ := slots.countP (· ≠ .empty)

/-- The calls so far are defined, and the packets done and the problems loaded keep the limit. -/
def Within (blockcount : ℕ) (t : Option ProbTable) : Prop :=
  ∃ t', t = some t' ∧ t'.blocksDone + problemsLoaded t'.slots ≤ blockcount

/-- A refresh is not in the mode of the first call, and no problem stands beyond its count. -/
def Visible (e : FillEvent) (t : Option ProbTable) : Prop :=
  match e with
  | .finish _ => True
  | .refresh loadProblemCount mode _ =>
    mode ≠ 0 ∧ ∀ t', t = some t' → problemsLoaded (t'.slots.drop loadProblemCount) = 0

/-! ## Counting -/

theorem problemsLoaded_cons (slot : Slot) (slots : List Slot) :
    problemsLoaded (slot :: slots) = problemsLoaded slots + if slot = .empty then 0 else 1 := by
  rw [problemsLoaded, List.countP_cons]
  cases slot <;> rfl

theorem problemsLoaded_append (slots slots' : List Slot) :
    problemsLoaded (slots ++ slots') = problemsLoaded slots + problemsLoaded slots' :=
  List.countP_append

theorem problemsLoaded_cons_eq (slot : Slot) (slots : List Slot) :
    problemsLoaded (slot :: slots) = problemsLoaded [slot] + problemsLoaded slots :=
  problemsLoaded_append [slot] slots

theorem problemsLoaded_reverse (slots : List Slot) :
    problemsLoaded slots.reverse = problemsLoaded slots :=
  List.countP_reverse

theorem problemsLoaded_le (slots : List Slot) : problemsLoaded slots ≤ slots.length :=
  List.countP_le_length

/-- A problem that finishes is still loaded. -/
theorem problemsLoaded_finish (t : ProbTable) (i : ℕ) :
    problemsLoaded (t.finish i).slots = problemsLoaded t.slots := by
  rw [ProbTable.finish]
  dsimp only
  generalize t.slots = slots
  induction slots generalizing i with
  | nil => rw [List.modify_nil]
  | cons slot slots ih =>
    cases i with
    | zero =>
      rw [List.modify_zero_cons, problemsLoaded_cons, problemsLoaded_cons]
      cases slot <;> rfl
    | succ i =>
      rw [List.modify_succ_cons, problemsLoaded_cons, problemsLoaded_cons, ih]

/-! ## One slot -/

section Fill

variable {blockcount loadProblemCount mode : ℕ}

/-- **The first call** counts what it loads. -/
theorem fillSlot_initial (loadProblemCount : ℕ) (hn : 0 < blockcount) (loads : Bool)
    {c : FillCounters} (hc : c.totalBlocksDone = c.blocksDone)
    (hle : c.totalBlocksDone + c.totalProblemsLoaded ≤ blockcount) :
    ∃ slot' c', fillSlot blockcount loadProblemCount 0 loads .empty c = some (slot', c')
      ∧ c'.totalBlocksDone = c'.blocksDone ∧ c'.blocksDone = c.blocksDone
      ∧ c'.totalBlocksDone + c'.totalProblemsLoaded ≤ blockcount
      ∧ c'.totalProblemsLoaded = c.totalProblemsLoaded + problemsLoaded [slot'] := by
  by_cases hlt : c.totalBlocksDone + c.totalProblemsLoaded < blockcount
  · cases loads with
    | false =>
      refine ⟨.empty, { c with emptyProblems := c.emptyProblems + 1 }, ?_, hc, rfl, hle, rfl⟩
      simp [fillSlot, individualProblemSave, mayLoad, hn, hlt]
    | true =>
      refine ⟨.running, { c with totalProblemsLoaded := c.totalProblemsLoaded + 1 }, ?_, hc, rfl,
        hlt, rfl⟩
      simp [fillSlot, individualProblemSave, mayLoad, hn, hlt]
  · refine ⟨.empty, { c with emptyProblems := c.emptyProblems + 1 }, ?_, hc, rfl, hle, rfl⟩
    simp [fillSlot, individualProblemSave, mayLoad, hn, hlt]

/-- A slot that a later call has found or made empty, with `k` problems among the `v` slots that
were visited and room for `rest` in the slots still to come. -/
theorem fillSlot_vacant (hn : 0 < blockcount) (hmode : mode ≠ 0) (loads : Bool) {c : FillCounters}
    {k v rest : ℕ} (hc : c.totalBlocksDone = c.blocksDone) (hk : k + c.emptyProblems = v)
    (hv : v + 1 + rest ≤ loadProblemCount) (hle : c.blocksDone + k + rest ≤ blockcount) :
    ∃ slot' c', fillSlot blockcount loadProblemCount mode loads .empty c = some (slot', c')
      ∧ c'.totalBlocksDone = c'.blocksDone
      ∧ k + problemsLoaded [slot'] + c'.emptyProblems = v + 1
      ∧ c'.blocksDone + (k + problemsLoaded [slot']) + rest ≤ blockcount := by
  have hsub : c.emptyProblems + 1 ≤ loadProblemCount := by omega
  have hstay : ∃ slot' c', some (Slot.empty, { c with emptyProblems := c.emptyProblems + 1 })
        = some (slot', c')
      ∧ c'.totalBlocksDone = c'.blocksDone
      ∧ k + problemsLoaded [slot'] + c'.emptyProblems = v + 1
      ∧ c'.blocksDone + (k + problemsLoaded [slot']) + rest ≤ blockcount :=
    ⟨_, _, rfl, hc, by simp [problemsLoaded]; omega, by simp [problemsLoaded]; omega⟩
  by_cases hlt : c.totalBlocksDone + (loadProblemCount - (c.emptyProblems + 1)) < blockcount
  · cases loads with
    | false => simpa [fillSlot, individualProblemSave, mayLoad, hn, hmode, hsub, hlt] using hstay
    | true =>
      -- what may be running is at least what is counted among the slots
      refine ⟨.running, { c with totalProblemsLoaded := c.totalProblemsLoaded + 1 }, ?_, hc, ?_, ?_⟩
      · simp [fillSlot, individualProblemSave, mayLoad, hn, hmode, hsub, hlt]
      · simp [problemsLoaded]
        omega
      · simp [problemsLoaded]
        omega
  · simpa [fillSlot, individualProblemSave, mayLoad, hn, hmode, hsub, hlt] using hstay

/-- **One slot of a later call**, whatever is in it. -/
theorem fillSlot_refresh (hn : 0 < blockcount) (hmode : mode ≠ 0) (loads : Bool) (slot : Slot)
    {c : FillCounters} {k v rest : ℕ} (hc : c.totalBlocksDone = c.blocksDone)
    (hk : k + c.emptyProblems = v) (hv : v + 1 + rest ≤ loadProblemCount)
    (hle : c.blocksDone + k + problemsLoaded [slot] + rest ≤ blockcount) :
    ∃ slot' c', fillSlot blockcount loadProblemCount mode loads slot c = some (slot', c')
      ∧ c'.totalBlocksDone = c'.blocksDone
      ∧ k + problemsLoaded [slot'] + c'.emptyProblems = v + 1
      ∧ c'.blocksDone + (k + problemsLoaded [slot']) + rest ≤ blockcount := by
  cases slot with
  | empty => exact fillSlot_vacant hn hmode loads hc hk hv hle
  | running =>
    have hone : problemsLoaded [Slot.running] = 1 := rfl
    rw [hone] at hle
    exact ⟨.running, c, rfl, hc, by rw [hone]; omega, by rw [hone]; omega⟩
  | finished =>
    have hone : problemsLoaded [Slot.finished] = 1 := rfl
    rw [hone] at hle
    exact fillSlot_vacant (c := { c with
      blocksDone := c.blocksDone + 1, totalBlocksDone := c.totalBlocksDone + 1 }) hn hmode loads
      (congrArg (· + 1) hc) hk hv (by dsimp only; omega)

/-! ## One call -/

theorem fillSlots_cons {loads : List Bool} {slot slot' : Slot} {slots slots' : List Slot}
    {c c₁ c₂ : FillCounters}
    (hslot : fillSlot blockcount loadProblemCount mode (loads.headD false) slot c
      = some (slot', c₁))
    (hslots : fillSlots blockcount loadProblemCount mode loads.tail slots c₁
      = some (slots', c₂)) :
    fillSlots blockcount loadProblemCount mode loads (slot :: slots) c
      = some (slot' :: slots', c₂) := by
  rw [fillSlots, hslot, Option.bind_eq_bind, Option.bind_some]
  dsimp only
  rw [hslots]
  rfl

theorem fillSlots_initial (loadProblemCount : ℕ) (hn : 0 < blockcount) (loads : List Bool)
    (size : ℕ) {c : FillCounters}
    (hc : c.totalBlocksDone = c.blocksDone)
    (hle : c.totalBlocksDone + c.totalProblemsLoaded ≤ blockcount) :
    ∃ slots' c', fillSlots blockcount loadProblemCount 0 loads (List.replicate size .empty) c
        = some (slots', c')
      ∧ c'.blocksDone = c.blocksDone ∧ c'.blocksDone + c'.totalProblemsLoaded ≤ blockcount
      ∧ c'.totalProblemsLoaded = c.totalProblemsLoaded + problemsLoaded slots' := by
  induction size generalizing loads c with
  | zero => exact ⟨[], c, rfl, rfl, hc ▸ hle, rfl⟩
  | succ size ih =>
    obtain ⟨slot', c₁, hslot, hc₁, hdone₁, hle₁, hcount₁⟩ :=
      fillSlot_initial loadProblemCount hn (loads.headD false) hc hle
    obtain ⟨slots', c₂, hslots, hdone₂, hle₂, hcount₂⟩ := ih loads.tail hc₁ hle₁
    refine ⟨slot' :: slots', c₂, fillSlots_cons hslot hslots, hdone₂.trans hdone₁, hle₂, ?_⟩
    rw [hcount₂, hcount₁, problemsLoaded_cons_eq slot' slots', Nat.add_assoc]

theorem fillSlots_refresh (hn : 0 < blockcount) (hmode : mode ≠ 0) (loads : List Bool)
    (slots : List Slot) {c : FillCounters} {k v : ℕ} (hc : c.totalBlocksDone = c.blocksDone)
    (hk : k + c.emptyProblems = v) (hv : v + slots.length ≤ loadProblemCount)
    (hle : c.blocksDone + k + problemsLoaded slots ≤ blockcount) :
    ∃ slots' c', fillSlots blockcount loadProblemCount mode loads slots c = some (slots', c')
      ∧ c'.blocksDone + k + problemsLoaded slots' ≤ blockcount := by
  induction slots generalizing loads c k v with
  | nil => exact ⟨[], c, rfl, hle⟩
  | cons slot slots ih =>
    rw [problemsLoaded_cons_eq] at hle
    rw [List.length_cons] at hv
    have hrest := problemsLoaded_le slots
    have hv' : v + 1 + problemsLoaded slots ≤ loadProblemCount := by omega
    obtain ⟨slot', c₁, hslot, hc₁, hk₁, hle₁⟩ :=
      fillSlot_refresh hn hmode (loads.headD false) slot hc hk hv' (by omega)
    obtain ⟨slots', c₂, hslots, hle₂⟩ := ih loads.tail hc₁ hk₁ (by omega) hle₁
    refine ⟨slot' :: slots', c₂, fillSlots_cons hslot hslots, ?_⟩
    rw [problemsLoaded_cons_eq]
    omega

end Fill

variable {blockcount : ℕ}

/-- **The first call keeps the limit.** -/
theorem within_initialLoad (hn : 0 < blockcount) {loadProblemCount : ℕ}
    (hcount : 0 < loadProblemCount) (size : ℕ) {blocksDone : ℕ} (hdone : blocksDone ≤ blockcount)
    (loads : List Bool) :
    ∃ t, initialLoad blockcount loadProblemCount size blocksDone loads = some t
      ∧ t.previousLoadProblemCount ≠ 0
      ∧ t.blocksDone + problemsLoaded t.slots ≤ blockcount := by
  obtain ⟨slots', c', hslots, hdone', hle, hloaded⟩ :=
    fillSlots_initial loadProblemCount hn loads (min loadProblemCount size)
      (c := ⟨blocksDone, blocksDone, 0, 0⟩) rfl hdone
  have hbeyond (m : ℕ) : problemsLoaded (List.replicate m Slot.empty) = 0 := by
    rw [problemsLoaded, List.countP_replicate]
    rfl
  refine ⟨⟨slots' ++ List.replicate (size - loadProblemCount) .empty, c'.blocksDone,
    loadProblemCount⟩, ?_, Nat.ne_of_gt hcount, ?_⟩
  · rw [initialLoad, loadSaveProblems, if_neg (Nat.ne_of_gt hcount)]
    dsimp only
    rw [if_pos rfl, List.take_replicate, List.drop_replicate, hslots]
    rfl
  · rw [problemsLoaded_append, hbeyond, Nat.add_zero]
    rw [hloaded, Nat.zero_add] at hle
    exact hle

/-- **A later call keeps the limit**, if no problem stands beyond its count. -/
theorem within_refresh (hn : 0 < blockcount) {loadProblemCount mode : ℕ} (hmode : mode ≠ 0)
    (loads : List Bool) {t : ProbTable} (hprevious : t.previousLoadProblemCount ≠ 0)
    (hvisible : problemsLoaded (t.slots.drop loadProblemCount) = 0)
    (hle : t.blocksDone + problemsLoaded t.slots ≤ blockcount) :
    ∃ r t', loadSaveProblems blockcount loadProblemCount mode loads t = some (r, t')
      ∧ t'.previousLoadProblemCount ≠ 0
      ∧ t'.blocksDone + problemsLoaded t'.slots ≤ blockcount := by
  rw [loadSaveProblems]
  split_ifs with hzero
  · exact ⟨0, t, rfl, hprevious, hle⟩
  · have htake : problemsLoaded (t.slots.take loadProblemCount).reverse
        = problemsLoaded t.slots := by
      conv_rhs => rw [← List.take_append_drop loadProblemCount t.slots, problemsLoaded_append,
        hvisible]
      rw [problemsLoaded_reverse, Nat.add_zero]
    have hlength : 0 + (t.slots.take loadProblemCount).reverse.length ≤ loadProblemCount := by
      rw [List.length_reverse, List.length_take]
      omega
    obtain ⟨slots', c', hslots, hle'⟩ := fillSlots_refresh (k := 0) (v := 0)
      (c := ⟨t.blocksDone, t.blocksDone, 0, 0⟩) hn hmode loads
      (t.slots.take loadProblemCount).reverse rfl rfl hlength (by rw [htake]; exact hle)
    refine ⟨c'.totalProblemsLoaded, ⟨slots'.reverse ++ t.slots.drop loadProblemCount,
      c'.blocksDone, loadProblemCount⟩, ?_, hzero, ?_⟩
    · dsimp only
      rw [hslots]
      rfl
    · rw [problemsLoaded_append, problemsLoaded_reverse, hvisible]
      exact hle'

/-! ## The run -/

/-- What holds between the calls. -/
def Limited (blockcount : ℕ) (t : Option ProbTable) : Prop :=
  ∃ t', t = some t' ∧ t'.previousLoadProblemCount ≠ 0
    ∧ t'.blocksDone + problemsLoaded t'.slots ≤ blockcount

theorem Limited.within {t : Option ProbTable} (h : Limited blockcount t) : Within blockcount t := by
  obtain ⟨t', ht, -, hle⟩ := h
  exact ⟨t', ht, hle⟩

theorem Limited.fillStep (hn : 0 < blockcount) {e : FillEvent} {t : Option ProbTable}
    (h : Limited blockcount t) (hvisible : Visible e t) :
    Limited blockcount (fillStep blockcount e t).2 := by
  obtain ⟨t', rfl, hprevious, hle⟩ := h
  cases e with
  | finish i =>
    refine ⟨t'.finish i, rfl, hprevious, ?_⟩
    rwa [problemsLoaded_finish]
  | refresh loadProblemCount mode loads =>
    obtain ⟨hmode, hbeyond⟩ := hvisible
    obtain ⟨r, t'', hcall, hnext⟩ :=
      within_refresh hn hmode loads hprevious (hbeyond t' rfl) hle
    refine ⟨t'', ?_, hnext⟩
    rw [Hyunjin.fillStep, Option.bind_some]
    dsimp only
    rw [hcall]
    rfl

/-- **The limit is kept in every run** in which no problem ever stands beyond the count of a
refresh: after the first call and after every event the calls so far are defined, and the packets
done and the problems loaded are at most as many as the client was told to do. -/
theorem withinLimit (hn : 0 < blockcount) {loadProblemCount : ℕ} (hcount : 0 < loadProblemCount)
    (size : ℕ) {blocksDone : ℕ} (hdone : blocksDone ≤ blockcount) (loads : List Bool)
    {events : List FillEvent}
    (hevents : Run.Guarded (fillStep blockcount) Visible events
      (initialLoad blockcount loadProblemCount size blocksDone loads)) :
    Within blockcount (initialLoad blockcount loadProblemCount size blocksDone loads)
      ∧ Run.Guarded (fillStep blockcount)
        (fun e t ↦ Within blockcount (fillStep blockcount e t).2) events
        (initialLoad blockcount loadProblemCount size blocksDone loads) := by
  have hstart : Limited blockcount
      (initialLoad blockcount loadProblemCount size blocksDone loads) :=
    within_initialLoad hn hcount size hdone loads
  refine ⟨hstart.within, hevents.mono (fun e t ht hvisible ↦ ?_) hstart⟩
  have hnext := ht.fillStep hn hvisible
  exact ⟨hnext.within, hnext⟩

/-- Two crunchers with a limit of three packets: one packet is loaded again, and then no more. -/
theorem withinLimit_three :
    Within 3 (initialLoad 3 2 2 0 [true, true])
      ∧ Run.Guarded (fillStep 3) (fun e t ↦ Within 3 (fillStep 3 e t).2)
        [.finish 0, .refresh 2 1 [false, true], .finish 0, .finish 1, .refresh 2 1 [true, true]]
        (initialLoad 3 2 2 0 [true, true]) := by
  have hvisible {t : Option ProbTable} {s : ProbTable} (ht : t = some s)
      (hs : problemsLoaded (s.slots.drop 2) = 0) :
      ∀ t', t = some t' → problemsLoaded (t'.slots.drop 2) = 0 := by
    rintro t' h
    rwa [Option.some.inj (h.symm.trans ht)]
  refine withinLimit (by decide : 0 < 3) (by decide : 0 < 2) 2 (by decide) [true, true]
    ⟨trivial, ⟨by decide, ?_⟩, trivial, trivial, ⟨by decide, ?_⟩, trivial⟩
  · exact hvisible (s := ⟨[.finished, .running], 0, 2⟩) (by decide +kernel) (by decide +kernel)
  · exact hvisible (s := ⟨[.finished, .finished], 1, 2⟩) (by decide +kernel) (by decide +kernel)

/-- Two packets for three crunchers, the first of which gets none at first: the next call is told
of two problems, loads a third one, and does not see the one in the last slot. -/
theorem not_withinLimit_gap :
    (loadSaveProblems 2 3 0 [false, true, true] ⟨List.replicate 3 .empty, 0, 0⟩).map Prod.fst
        = some 2
      ∧ ¬Run.Guarded (fillStep 2) (fun e t ↦ Within 2 (fillStep 2 e t).2)
        [.refresh 2 1 [false, true]] (initialLoad 2 3 3 0 [false, true, true]) := by
  refine ⟨by decide +kernel, ?_⟩
  rintro ⟨⟨t, ht, hle⟩, -⟩
  have hslots : (fillStep 2 (.refresh 2 1 [false, true])
      (initialLoad 2 3 3 0 [false, true, true])).2
        = some ⟨[.running, .running, .running], 0, 2⟩ := by decide +kernel
  rw [Option.some.inj (ht.symm.trans hslots)] at hle
  exact absurd hle (by decide +kernel)

end Hyunjin
