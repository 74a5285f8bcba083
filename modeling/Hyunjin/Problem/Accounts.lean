import Mathlib.Algebra.BigOperators.Group.List.Basic
import Mathlib.Algebra.Order.Group.Multiset
import Hyunjin.Problem.Probfill
import Hyunjin.Run.Balance

/-!
# The accounts of the loader

Every packet that has been taken is accounted for: it has been saved, or it has been discarded, or
it is still in the table. A client that has shut down still has a packet in its table only if the
first load has left a slot empty before one that it has filled: the table is then counted too short,
and what is behind its end is neither crunched nor saved.
-/

namespace Hyunjin.Probfill

open Hyunjin.Run (Balances)

variable {α : Type*}

/-! ## Accounts -/

/-- The packet in a slot. -/
def packetOf (slot : Option (Job α)) : Multiset α :=
  slot.elim 0 fun job ↦ {job.packet}

/-- The packets in slots. -/
def heldOf (slots : List (Option (Job α))) : Multiset α := (slots.map packetOf).sum

def Entry.ins : Entry α → Multiset α
  | taken packet => {packet}
  | saved _ _ | discarded _ _ => 0

def Entry.saves : Entry α → Multiset α
  | saved packet _ => {packet}
  | taken _ | discarded _ _ => 0

def Entry.discards : Entry α → Multiset α
  | discarded packet _ => {packet}
  | taken _ | saved _ _ => 0

def takenOf (entries : List (Entry α)) : Multiset α := (entries.map Entry.ins).sum

def savedOf (entries : List (Entry α)) : Multiset α := (entries.map Entry.saves).sum

def discardedOf (entries : List (Entry α)) : Multiset α := (entries.map Entry.discards).sum

/-- What is written down accounts for what has become of the packets. -/
def Accounts (held : Multiset α) (entries : List (Entry α)) (held' : Multiset α) : Prop :=
  Balances held (takenOf entries) (savedOf entries + discardedOf entries) held'

theorem heldOf_cons (slot : Option (Job α)) (slots : List (Option (Job α))) :
    heldOf (slot :: slots) = packetOf slot + heldOf slots := by
  rw [heldOf, List.map_cons, List.sum_cons, heldOf]

theorem heldOf_append (slots slots' : List (Option (Job α))) :
    heldOf (slots ++ slots') = heldOf slots + heldOf slots' := by
  rw [heldOf, List.map_append, List.sum_append, heldOf, heldOf]

theorem heldOf_reverse (slots : List (Option (Job α))) : heldOf slots.reverse = heldOf slots := by
  rw [heldOf, List.map_reverse, List.sum_reverse, heldOf]

theorem heldOf_eq_zero {slots : List (Option (Job α))} (h : ∀ slot ∈ slots, slot = none) :
    heldOf slots = 0 := by
  apply List.sum_eq_zero
  intro m hm
  obtain ⟨slot, hslot, rfl⟩ := List.mem_map.mp hm
  rw [h slot hslot]
  rfl

theorem takenOf_append (entries more : List (Entry α)) :
    takenOf (entries ++ more) = takenOf entries + takenOf more := by
  rw [takenOf, List.map_append, List.sum_append, takenOf, takenOf]

theorem outsOf_append (entries more : List (Entry α)) :
    savedOf (entries ++ more) + discardedOf (entries ++ more) =
      savedOf entries + discardedOf entries + (savedOf more + discardedOf more) := by
  have hsaved : savedOf (entries ++ more) = savedOf entries + savedOf more := by
    rw [savedOf, List.map_append, List.sum_append, savedOf, savedOf]
  have hdiscarded : discardedOf (entries ++ more) = discardedOf entries + discardedOf more := by
    rw [discardedOf, List.map_append, List.sum_append, discardedOf, discardedOf]
  rw [hsaved, hdiscarded, add_add_add_comm]

namespace Accounts

variable {held held' held'' other other' : Multiset α} {entries more : List (Entry α)}

theorem refl (held : Multiset α) : Accounts held [] held := Balances.refl held

theorem trans (h : Accounts held entries held') (h' : Accounts held' more held'') :
    Accounts held (entries ++ more) held'' := by
  rw [Accounts, takenOf_append, outsOf_append]
  exact Balances.trans h h'

theorem add (h : Accounts held entries held') (h' : Accounts other more other') :
    Accounts (held + other) (entries ++ more) (held' + other') := by
  rw [Accounts, takenOf_append, outsOf_append]
  exact Balances.add h h'

/-- The packets before and behind are not touched. -/
theorem frame (h : Accounts held entries held') (before behind : Multiset α) :
    Accounts (before + held + behind) entries (before + held' + behind) := by
  rw [Accounts, add_comm before, add_comm before]
  exact (Balances.add_right h before).add_right behind

end Accounts

/-! ## One slot -/

theorem individualProblemSave_accounts (put unconditional : Bool) (slot : Option (Job α)) :
    Accounts (packetOf slot) (individualProblemSave put unconditional slot).2.1
      (packetOf (individualProblemSave put unconditional slot).1) := by
  cases slot with
  | none => exact .refl _
  | some job =>
    rw [individualProblemSave]
    split_ifs
    · exact add_comm _ _
    · exact add_comm _ _
    · exact add_comm _ _
    · exact add_comm _ _
    · exact .refl _

/-- The slot is empty after an unconditional unload. -/
theorem individualProblemSave_unconditional (put : Bool) (slot : Option (Job α)) :
    (individualProblemSave put true slot).1 = none := by
  cases slot with
  | none => rfl
  | some job =>
    have hunload : job.unload true = true := by simp [Job.unload]
    rw [individualProblemSave, if_pos hunload]
    split_ifs <;> rfl

/-- An answer with a count comes with a packet, if there is none yet. -/
theorem ask_isSome (answer : Answer α) (got : Option α) :
    (answer.ask got).1.isSome = (got.isSome || (answer.ask got).2.isSome) := by
  cases got with
  | some packet => rfl
  | none =>
    rw [Answer.ask, Option.isSome_map, Option.isSome_map]
    rfl

/-- The count that `loadapacket` returns tells whether there is a packet. -/
theorem loadapacket_isSome (single : Bool) (answers : List (Answer α)) {got : Option α} {total : ℤ}
    (h : got.isSome = true ↔ 0 ≤ total) :
    (loadapacket single answers got total).1.isSome = true ↔
      0 ≤ (loadapacket single answers got total).2 := by
  induction answers generalizing got total with
  | nil => exact h
  | cons answer answers ih =>
    rw [loadapacket]
    by_cases hpermitted : answer.permitted = true
    · rw [if_pos hpermitted]
      have hask := ask_isSome answer got
      cases hcount : (answer.ask got).2 with
      | none =>
        rw [hcount, Option.isSome_none, Bool.or_false] at hask
        apply ih
        rw [hask]
        exact h
      | some bufcount =>
        rw [hcount, Option.isSome_some, Bool.or_true] at hask
        have hcounted : (answer.ask got).1.isSome = true ↔ 0 ≤ max total 0 + (bufcount : ℤ) :=
          iff_of_true hask (add_nonneg (le_max_right _ _) (Int.natCast_nonneg bufcount))
        dsimp only
        split_ifs
        · exact hcounted
        · exact ih hcounted
    · rw [if_neg hpermitted]
      exact ih h

/-- Without a count nothing has been taken. -/
theorem loadapacket_eq_none {single : Bool} {answers : List (Answer α)}
    (h : (loadapacket single answers none (-1)).2 < 0) :
    (loadapacket single answers none (-1)).1 = none := by
  have hisSome := @loadapacket_isSome α single answers none (-1)
    (iff_of_false Bool.false_ne_true (by omega))
  rw [← Option.not_isSome_iff_eq_none, hisSome]
  exact not_le.mpr h

/-! ## Loading -/

theorem accounts_takenFrom (got : Option α) :
    Accounts 0 (takenFrom got) (got.elim 0 fun packet ↦ ({packet} : Multiset α)) := by
  cases got with
  | none => exact .refl _
  | some packet => exact (zero_add _).trans (zero_add _).symm

/-- What becomes of a packet in hand: it is loaded, or it is not and another is tried. -/
theorem loadPacket_accounts {t : Turn α} {packet : α} {contest : ℕ} {held : Multiset α}
    {loaded rejected : List (Entry α)} (hloaded : Accounts held loaded {packet})
    (hrejected : Accounts held rejected 0) :
    Accounts held (loadPacket t packet contest loaded rejected).entries
      (packetOf (loadPacket t packet contest loaded rejected).job) := by
  rw [loadPacket]
  split_ifs
  · exact hloaded
  · exact hrejected

theorem loadPacket_retry {t : Turn α} {packet : α} {contest : ℕ} {loaded rejected : List (Entry α)}
    (h : (loadPacket t packet contest loaded rejected).retry = true) :
    (loadPacket t packet contest loaded rejected).job = none := by
  rw [loadPacket] at h ⊢
  split_ifs with hloadState
  · rw [if_pos hloadState] at h
    exact absurd h Bool.false_ne_true
  · rfl

/-- Without a packet, nothing is loaded or a random one is. -/
theorem loadTaken_none (client : Client) (t : Turn α) :
    (∃ n, loadTaken client t none = ⟨none, [], n, false⟩) ∨
      ∃ project, loadTaken client t none = loadPacket t t.random project [.taken t.random] [] := by
  unfold loadTaken
  cases client.randomProject with
  | none => exact .inl ⟨_, rfl⟩
  | some project =>
    dsimp only
    split_ifs
    · exact .inl ⟨_, rfl⟩
    · exact .inl ⟨_, rfl⟩
    · exact .inr ⟨project, rfl⟩

theorem loadTaken_accounts (client : Client) (t : Turn α) (got : Option α) :
    Accounts (got.elim 0 fun packet ↦ ({packet} : Multiset α)) (loadTaken client t got).entries
      (packetOf (loadTaken client t got).job) := by
  cases got with
  | some packet => exact loadPacket_accounts (.refl _) (add_comm _ _)
  | none =>
    rcases loadTaken_none client t with ⟨n, hnone⟩ | ⟨project, hrandom⟩
    · rw [hnone]
      exact .refl _
    · rw [hrandom]
      exact loadPacket_accounts (accounts_takenFrom (some t.random)) (.refl _)

theorem loadTaken_retry {client : Client} {t : Turn α} {got : Option α}
    (h : (loadTaken client t got).retry = true) : (loadTaken client t got).job = none := by
  cases got with
  | some packet => exact loadPacket_retry h
  | none =>
    rcases loadTaken_none client t with ⟨n, hnone⟩ | ⟨project, hrandom⟩
    · rw [hnone]
    · rw [hrandom] at h ⊢
      exact loadPacket_retry h

/-- A turn does nothing, or it ends with what the buffers have answered. -/
theorem loadTurn_cases (client : Client) (t : Turn α) :
    (∃ n, loadTurn client t = ⟨none, [], n, false⟩) ∨
      ∃ got, loadTurn client t = (loadTaken client t got).after (takenFrom got) := by
  rw [loadTurn]
  by_cases hdelayed : client.randomProject = none ∧ t.delayed = true
  · rw [if_pos hdelayed]
    exact .inl ⟨_, rfl⟩
  · rw [if_neg hdelayed]
    dsimp only
    by_cases hnone : (loadapacket client.singleCount t.first none (-1)).2 < 0 ∧
        client.nonewblocks = false
    · rw [if_pos hnone, loadapacket_eq_none hnone.1]
      split_ifs
      · exact .inl ⟨_, rfl⟩
      · exact .inr ⟨_, rfl⟩
      · exact .inr ⟨_, rfl⟩
    · rw [if_neg hnone]
      exact .inr ⟨_, rfl⟩

theorem loadTurn_accounts (client : Client) (t : Turn α) :
    Accounts 0 (loadTurn client t).entries (packetOf (loadTurn client t).job) := by
  rcases loadTurn_cases client t with ⟨n, hnone⟩ | ⟨got, hgot⟩
  · rw [hnone]
    exact .refl _
  · rw [hgot]
    exact (accounts_takenFrom got).trans (loadTaken_accounts client t got)

/-- Nothing is in the slot when another packet is tried. -/
theorem loadTurn_retry {client : Client} {t : Turn α} (h : (loadTurn client t).retry = true) :
    (loadTurn client t).job = none := by
  rcases loadTurn_cases client t with ⟨n, hnone⟩ | ⟨got, hgot⟩
  · rw [hnone]
  · rw [hgot] at h ⊢
    exact loadTaken_retry h

theorem individualProblemLoad_accounts (client : Client) (ts : Turns α) :
    Accounts 0 (individualProblemLoad client ts).entries
      (packetOf (individualProblemLoad client ts).job) := by
  rw [individualProblemLoad]
  induction ts.tried with
  | nil => exact loadTurn_accounts client ts.last
  | cons t tried ih =>
    rw [List.foldr_cons]
    have hturn := loadTurn_accounts client t
    dsimp only
    split_ifs with hretry
    · rw [loadTurn_retry hretry] at hturn
      exact hturn.trans ih
    · exact hturn

/-! ## The table -/

theorem loadSlot_accounts (client : Client) (loadProblemCount : ℕ) (mode : Mode) (v : Visit α)
    (k : Counters) :
    Accounts 0 (loadSlot client loadProblemCount mode v k).2.1
      (packetOf (loadSlot client loadProblemCount mode v k).1) := by
  rw [loadSlot]
  dsimp only
  split_ifs
  · exact individualProblemLoad_accounts client v.turns
  · exact individualProblemLoad_accounts client v.turns
  · exact individualProblemLoad_accounts client v.turns
  · exact individualProblemLoad_accounts client v.turns
  · exact .refl _

theorem fillSlot_accounts (client : Client) (loadProblemCount : ℕ) (mode : Mode) (v : Visit α)
    (slot : Option (Job α)) (k : Counters) :
    Accounts (packetOf slot) (fillSlot client loadProblemCount mode v slot k).2.1
      (packetOf (fillSlot client loadProblemCount mode v slot k).1) := by
  have hsave := individualProblemSave_accounts v.put mode.unloads slot
  unfold fillSlot
  dsimp only
  cases hleft : (individualProblemSave v.put mode.unloads slot).1 with
  | some job =>
    rw [hleft] at hsave
    exact hsave
  | none =>
    rw [hleft] at hsave
    exact hsave.trans (loadSlot_accounts client loadProblemCount mode v _)

theorem fillSlots_accounts (client : Client) (loadProblemCount : ℕ) (mode : Mode)
    (visits : ℕ → Visit α) (i : ℕ) (slots : List (Option (Job α))) (k : Counters) :
    Accounts (heldOf slots) (fillSlots client loadProblemCount mode visits i slots k).2.1
      (heldOf (fillSlots client loadProblemCount mode visits i slots k).1) := by
  induction slots generalizing i k with
  | nil => exact .refl _
  | cons slot slots ih =>
    rw [fillSlots]
    dsimp only
    rw [heldOf_cons, heldOf_cons]
    exact (fillSlot_accounts client loadProblemCount mode (visits i) slot k).add (ih (i + 1) _)

/-- The packets before `first`, those in the slots that are visited, and those behind. -/
theorem heldOf_parts (slots : List (Option (Job α))) (first last : ℕ) :
    heldOf slots = heldOf (slots.take first) + heldOf ((slots.drop first).take (last - first)) +
      heldOf (slots.drop (max first last)) := by
  have hlast : max first last = first + (last - first) := by omega
  have hbehind : slots.drop (max first last) = (slots.drop first).drop (last - first) := by
    rw [List.drop_drop, hlast]
  rw [hbehind, ← heldOf_append, ← heldOf_append, List.append_assoc, List.take_append_drop,
    List.take_append_drop]

theorem fillTable_accounts (client : Client) (loadProblemCount : ℕ) (mode : Mode) (call : Call α)
    (first last : ℕ) (up : Bool) (slots : List (Option (Job α))) :
    Accounts (heldOf slots)
      (fillTable client loadProblemCount mode call first last up slots).2.1
      (heldOf (fillTable client loadProblemCount mode call first last up slots).1) := by
  rw [heldOf_parts slots first last, fillTable]
  dsimp only
  rw [heldOf_append, heldOf_append]
  apply Accounts.frame
  cases up with
  | true => exact fillSlots_accounts client loadProblemCount mode call.visits 0 _ _
  | false =>
    -- the walk is from the end, but a sum has no order
    have hwalk := fillSlots_accounts client loadProblemCount mode call.visits 0
      ((slots.drop first).take (last - first)).reverse ⟨call.blocksDone, 0, 0, 0, 0⟩
    rw [heldOf_reverse] at hwalk
    rw [if_neg Bool.false_ne_true, if_neg Bool.false_ne_true, heldOf_reverse]
    exact hwalk

/-- **A call keeps the accounts.** -/
theorem loadSaveProblems_accounts (client : Client) (loadProblemCount : ℕ) (mode : Mode)
    (call : Call α) (t : Table α) :
    Accounts (heldOf t.slots) (loadSaveProblems client loadProblemCount mode call t).2.1
      (heldOf (loadSaveProblems client loadProblemCount mode call t).2.2.slots) := by
  rw [loadSaveProblems]
  by_cases hnothing : loadProblemCount = 0 ∧
      (mode ≠ .unloadall ∨ t.previousLoadProblemCount = 0)
  · rw [if_pos hnothing]
    exact .refl _
  · rw [if_neg hnothing]
    exact fillTable_accounts _ _ _ _ _ _ _ _

/-- A cruncher and the flags change nothing of the packets. -/
theorem packetOf_map {f : Job α → Job α} (hf : ∀ job, (f job).packet = job.packet)
    (slot : Option (Job α)) : packetOf (slot.map f) = packetOf slot := by
  cases slot with
  | none => rfl
  | some job => exact congrArg singleton (hf job)

theorem map_packetOf_modify {f : Job α → Job α} (hf : ∀ job, (f job).packet = job.packet) (i : ℕ)
    (slots : List (Option (Job α))) :
    (slots.modify i (Option.map f)).map packetOf = slots.map packetOf := by
  induction slots generalizing i with
  | nil => rw [List.modify_nil]
  | cons slot slots ih =>
    cases i with
    | zero => rw [List.modify_zero_cons, List.map_cons, List.map_cons, packetOf_map hf]
    | succ i => rw [List.modify_succ_cons, List.map_cons, List.map_cons, ih]

theorem map_packetOf_map {f : Job α → Job α} (hf : ∀ job, (f job).packet = job.packet)
    (slots : List (Option (Job α))) :
    (slots.map (Option.map f)).map packetOf = slots.map packetOf := by
  rw [List.map_map]
  exact List.map_congr_left fun slot _ ↦ packetOf_map hf slot

theorem Step.run_accounts (client : Client) (count : ℕ) (step : Step α) (t : Table α) :
    Accounts (heldOf t.slots) (step.run client count t).1
      (heldOf (step.run client count t).2.slots) := by
  cases step with
  | crunch i resultcode =>
    have hcrunch := map_packetOf_modify (f := Job.crunched resultcode) (fun _ ↦ rfl) i t.slots
    rw [Step.run, heldOf, heldOf, hcrunch]
    exact .refl _
  | setProblemLoaderFlags discard forceUnload =>
    have hraise := map_packetOf_map (f := Job.raise discard forceUnload) (fun _ ↦ rfl) t.slots
    rw [Step.run, heldOf, heldOf, hraise]
    exact .refl _
  | refresh call => exact loadSaveProblems_accounts client count .anychanged call t

theorem runSteps_accounts (client : Client) (count : ℕ) (steps : List (Step α)) (t : Table α) :
    Accounts (heldOf t.slots) (runSteps client count steps t).1
      (heldOf (runSteps client count steps t).2.slots) := by
  induction steps generalizing t with
  | nil => exact .refl _
  | cons step steps ih => exact (step.run_accounts client count t).trans (ih _)

theorem Session.crunched_accounts (s : Session α) (count : ℕ) (t : Table α) :
    Accounts (heldOf t.slots) (s.crunched count t).2.1
      (heldOf (s.crunched count t).2.2.slots) := by
  rw [Session.crunched]
  split_ifs
  · exact .refl _
  · exact loadSaveProblems_accounts s.client count .unloadall s.resize t
  · exact (loadSaveProblems_accounts s.client s.started .resizetable s.resize t).trans
      (runSteps_accounts _ _ _ _)
  · exact runSteps_accounts _ _ _ _

/-- What is in the table when the client has shut down. -/
def Session.left (s : Session α) : Multiset α := heldOf s.run.2.slots

theorem heldOf_replicate (n : ℕ) : heldOf (List.replicate n (none : Option (Job α))) = 0 :=
  heldOf_eq_zero fun _ hslot ↦ List.eq_of_mem_replicate hslot

theorem Session.run_accounts (s : Session α) : Accounts 0 s.run.1 s.left := by
  rw [← heldOf_replicate s.numcrunchers]
  exact ((loadSaveProblems_accounts _ _ _ _ _).trans (s.crunched_accounts _ _)).trans
    (loadSaveProblems_accounts _ _ _ _ _)

/-! ## What is left -/

theorem fillSlot_unloads {client : Client} {loadProblemCount : ℕ} {mode : Mode}
    (h : mode.unloads = true) (v : Visit α) (slot : Option (Job α)) (k : Counters) :
    (fillSlot client loadProblemCount mode v slot k).1 = none := by
  unfold fillSlot
  dsimp only
  rw [h, individualProblemSave_unconditional]
  dsimp only
  rw [loadSlot]
  dsimp only
  rw [if_neg fun hload ↦ Bool.false_ne_true (hload.1.symm.trans h)]

theorem fillSlots_length (client : Client) (loadProblemCount : ℕ) (mode : Mode)
    (visits : ℕ → Visit α) (i : ℕ) (slots : List (Option (Job α))) (k : Counters) :
    (fillSlots client loadProblemCount mode visits i slots k).1.length = slots.length := by
  induction slots generalizing i k with
  | nil => rfl
  | cons slot slots ih => exact congrArg Nat.succ (ih (i + 1) _)

theorem fillSlots_unloads {client : Client} {loadProblemCount : ℕ} {mode : Mode}
    (h : mode.unloads = true) (visits : ℕ → Visit α) (i : ℕ) (slots : List (Option (Job α)))
    (k : Counters) :
    ∀ slot ∈ (fillSlots client loadProblemCount mode visits i slots k).1, slot = none := by
  induction slots generalizing i k with
  | nil => exact List.forall_mem_nil _
  | cons slot slots ih =>
    exact List.forall_mem_cons.mpr ⟨fillSlot_unloads h (visits i) slot k, ih (i + 1) _⟩

/-- The slots that are not visited are as they were, and there are as many slots as there were. -/
theorem fillTable_slots (client : Client) (loadProblemCount : ℕ) (mode : Mode) (call : Call α)
    (first last : ℕ) (up : Bool) (slots : List (Option (Job α))) :
    ∃ visited : List (Option (Job α)),
      (fillTable client loadProblemCount mode call first last up slots).1 =
        slots.take first ++ visited ++ slots.drop (max first last) ∧
      (slots.take first ++ visited).length = min (max first last) slots.length ∧
      (mode.unloads = true → ∀ slot ∈ visited, slot = none) := by
  have hlength : ∀ visited : List (Option (Job α)),
      visited.length = ((slots.drop first).take (last - first)).length →
        (slots.take first ++ visited).length = min (max first last) slots.length := by
    intro visited hvisited
    rw [List.length_append, hvisited, List.length_take, List.length_take, List.length_drop]
    omega
  cases up with
  | true =>
    refine ⟨_, rfl, hlength _ ?_, fun h ↦ ?_⟩
    · exact fillSlots_length client loadProblemCount mode call.visits 0 _ _
    · exact fillSlots_unloads h call.visits 0 _ _
  | false =>
    refine ⟨_, rfl, hlength _ ?_, fun h slot hslot ↦ ?_⟩
    · rw [if_neg Bool.false_ne_true, List.length_reverse, fillSlots_length,
        if_neg Bool.false_ne_true, List.length_reverse]
    · exact fillSlots_unloads h call.visits 0 _ _ slot (List.mem_reverse.mp hslot)

theorem drop_append_drop {β : Type*} {before slots : List β} {m n : ℕ} (hm : m ≤ n)
    (hbefore : before.length = min n slots.length) :
    (before ++ slots.drop n).drop m = before.drop m ++ slots.drop n := by
  rw [List.drop_append, hbefore, List.drop_drop]
  rcases le_total n slots.length with hle | hle
  · rw [min_eq_left hle, Nat.sub_eq_zero_of_le hm, Nat.add_zero]
  · rw [List.drop_eq_nil_of_le hle, List.drop_eq_nil_of_le (hle.trans (Nat.le_add_right _ _))]

/-- What is behind the slots that are visited stays there. -/
theorem fillTable_drop (client : Client) (loadProblemCount : ℕ) (mode : Mode) (call : Call α)
    (first last : ℕ) (up : Bool) (slots : List (Option (Job α))) :
    (fillTable client loadProblemCount mode call first last up slots).1.drop (max first last) =
      slots.drop (max first last) := by
  obtain ⟨visited, heq, hbefore, -⟩ := fillTable_slots client loadProblemCount mode call first last
    up slots
  rw [heq, drop_append_drop le_rfl hbefore,
    List.drop_eq_nil_of_le (hbefore.le.trans (min_le_left _ _)), List.nil_append]

theorem fillTable_length (client : Client) (loadProblemCount : ℕ) (mode : Mode) (call : Call α)
    (first last : ℕ) (up : Bool) (slots : List (Option (Job α))) :
    (fillTable client loadProblemCount mode call first last up slots).1.length = slots.length := by
  obtain ⟨visited, heq, hbefore, -⟩ := fillTable_slots client loadProblemCount mode call first last
    up slots
  rw [heq, List.length_append, hbefore, List.length_drop]
  omega

/-- The slots that are visited to be unloaded are empty. -/
theorem fillTable_unloads {client : Client} {loadProblemCount : ℕ} {mode : Mode}
    (h : mode.unloads = true) (call : Call α) (first last : ℕ) (up : Bool)
    (slots : List (Option (Job α))) :
    heldOf ((fillTable client loadProblemCount mode call first last up slots).1.drop first) =
      heldOf (slots.drop (max first last)) := by
  obtain ⟨visited, heq, hbefore, hnone⟩ := fillTable_slots client loadProblemCount mode call first
    last up slots
  rw [heq, drop_append_drop (le_max_left first last) hbefore, heldOf_append, List.drop_append,
    List.drop_eq_nil_of_le (List.length_take_le first slots), List.nil_append]
  rw [heldOf_eq_zero fun slot hslot ↦ hnone h slot (List.mem_of_mem_drop hslot), zero_add]

/-! ## Calls -/

section Calls

variable (client : Client) {count : ℕ} (call : Call α) (t : Table α)

/-- What a call with a count does. -/
theorem loadSaveProblems_eq {mode : Mode} (hcount : count ≠ 0) {first last : ℕ} {up : Bool}
    (hvisited : visited count mode t.previousLoadProblemCount = (first, last, up)) :
    loadSaveProblems client count mode call t =
      (retval mode (t.previousLoadProblemCount = 0)
          (fillTable client count mode call first last up t.slots).2.2,
        (fillTable client count mode call first last up t.slots).2.1,
        ⟨(fillTable client count mode call first last up t.slots).1,
          if mode = .unloadall then 0 else count⟩) := by
  rw [loadSaveProblems, if_neg fun hnothing ↦ hcount hnothing.1]
  dsimp only
  rw [if_neg hcount, hvisited]

/-- No count at all stands for all problems, if there are any. -/
theorem loadSaveProblems_zero :
    loadSaveProblems client 0 .unloadall call t =
      if t.previousLoadProblemCount = 0 then (0, [], t)
      else loadSaveProblems client t.previousLoadProblemCount .unloadall call t := by
  by_cases hprevious : t.previousLoadProblemCount = 0
  · rw [if_pos hprevious, loadSaveProblems, if_pos ⟨rfl, .inr hprevious⟩]
  · have hzero : ¬(0 = 0 ∧ (Mode.unloadall ≠ .unloadall ∨ t.previousLoadProblemCount = 0)) :=
      fun hnothing ↦ hnothing.2.elim (fun hmode ↦ hmode rfl) hprevious
    have hall : ¬(t.previousLoadProblemCount = 0 ∧
        (Mode.unloadall ≠ .unloadall ∨ t.previousLoadProblemCount = 0)) :=
      fun hnothing ↦ hprevious hnothing.1
    rw [if_neg hprevious, loadSaveProblems, if_neg hzero, loadSaveProblems, if_neg hall]
    dsimp only
    rw [if_pos rfl, if_neg hprevious]

variable (hcount : count ≠ 0) (hprevious : t.previousLoadProblemCount ≠ 0)
include hcount hprevious

/-- What is behind the table is not unloaded. -/
theorem loadSaveProblems_unloadall :
    heldOf (loadSaveProblems client count .unloadall call t).2.2.slots =
      heldOf (t.slots.drop count) ∧
    (loadSaveProblems client count .unloadall call t).2.2.previousLoadProblemCount = 0 := by
  have hvisited : visited count .unloadall t.previousLoadProblemCount = (0, count, false) := by
    rw [visited, if_neg hprevious, if_neg (by decide)]
  rw [loadSaveProblems_eq client call t hcount hvisited]
  refine ⟨?_, rfl⟩
  have hunloads := @fillTable_unloads α client count .unloadall rfl call 0 count false t.slots
  rw [List.drop_zero, Nat.zero_max] at hunloads
  exact hunloads

theorem loadSaveProblems_resizetable :
    heldOf ((loadSaveProblems client count .resizetable call t).2.2.slots.drop count) =
      heldOf (t.slots.drop (max count t.previousLoadProblemCount)) ∧
    (loadSaveProblems client count .resizetable call t).2.2.previousLoadProblemCount = count := by
  have hvisited : visited count .resizetable t.previousLoadProblemCount =
      (count, t.previousLoadProblemCount, false) := by
    rw [visited, if_neg hprevious, if_pos rfl]
  rw [loadSaveProblems_eq client call t hcount hvisited]
  exact ⟨fillTable_unloads rfl call _ _ _ _, rfl⟩

theorem loadSaveProblems_anychanged :
    (loadSaveProblems client count .anychanged call t).2.2.slots.drop count =
      t.slots.drop count ∧
    (loadSaveProblems client count .anychanged call t).2.2.previousLoadProblemCount = count := by
  have hvisited : visited count .anychanged t.previousLoadProblemCount = (0, count, false) := by
    rw [visited, if_neg hprevious, if_neg (by decide)]
  rw [loadSaveProblems_eq client call t hcount hvisited]
  refine ⟨?_, rfl⟩
  have hdrop := fillTable_drop client count .anychanged call 0 count false t.slots
  rw [Nat.zero_max] at hdrop
  exact hdrop

/-- **A step leaves alone what is behind the table.** -/
theorem Step.run_drop (step : Step α) :
    heldOf ((step.run client count t).2.slots.drop count) = heldOf (t.slots.drop count) ∧
    (step.run client count t).2.previousLoadProblemCount ≠ 0 := by
  cases step with
  | crunch i resultcode =>
    have hcrunch := map_packetOf_modify (f := Job.crunched resultcode) (fun _ ↦ rfl) i t.slots
    refine ⟨?_, hprevious⟩
    rw [Step.run, heldOf, List.map_drop, hcrunch, ← List.map_drop, heldOf]
  | setProblemLoaderFlags discard forceUnload =>
    have hraise := map_packetOf_map (f := Job.raise discard forceUnload) (fun _ ↦ rfl) t.slots
    refine ⟨?_, hprevious⟩
    rw [Step.run, heldOf, List.map_drop, hraise, ← List.map_drop, heldOf]
  | refresh call =>
    obtain ⟨hdrop, hcount'⟩ := loadSaveProblems_anychanged client call t hcount hprevious
    exact ⟨congrArg heldOf hdrop, hcount'.trans_ne hcount⟩

theorem runSteps_drop (steps : List (Step α)) :
    heldOf ((runSteps client count steps t).2.slots.drop count) = heldOf (t.slots.drop count) ∧
    (runSteps client count steps t).2.previousLoadProblemCount ≠ 0 := by
  induction steps generalizing t with
  | nil => exact ⟨rfl, hprevious⟩
  | cons step steps ih =>
    obtain ⟨hdrop, hnext⟩ := step.run_drop client t hcount hprevious
    obtain ⟨hdrop', hlast⟩ := ih (step.run client count t).2 hnext
    exact ⟨hdrop'.trans hdrop, hlast⟩

end Calls

/-! ## Sessions -/

theorem card_packetOf (slot : Option (Job α)) :
    (packetOf slot).card = if slot.isSome then 1 else 0 := by
  cases slot with
  | none => rfl
  | some job => rfl

theorem loadSlot_loaded (client : Client) (loadProblemCount : ℕ) (mode : Mode) (v : Visit α)
    (k : Counters) :
    (loadSlot client loadProblemCount mode v k).2.2.totalProblemsLoaded =
      k.totalProblemsLoaded + (packetOf (loadSlot client loadProblemCount mode v k).1).card := by
  rw [loadSlot]
  dsimp only
  split_ifs with hload hjob hneeded hneeded <;> simp_all [card_packetOf]

/-- An empty slot is filled, or it is not counted. -/
theorem fillSlots_loaded (client : Client) (loadProblemCount : ℕ) (mode : Mode)
    (visits : ℕ → Visit α) (i : ℕ) {slots : List (Option (Job α))}
    (hnone : ∀ slot ∈ slots, slot = none) (k : Counters) :
    (fillSlots client loadProblemCount mode visits i slots k).2.2.totalProblemsLoaded =
      k.totalProblemsLoaded +
        (heldOf (fillSlots client loadProblemCount mode visits i slots k).1).card := by
  induction slots generalizing i k with
  | nil => rfl
  | cons slot slots ih =>
    obtain ⟨rfl, hrest⟩ := List.forall_mem_cons.mp hnone
    have hslot := loadSlot_loaded client loadProblemCount mode (visits i) k
    rw [fillSlots]
    dsimp only
    rw [heldOf_cons, Multiset.card_add, ih (i + 1) hrest, ← Nat.add_assoc]
    exact congrArg (· + _) hslot

theorem fillTable_loaded (client : Client) (loadProblemCount : ℕ) (mode : Mode) (call : Call α)
    (first last : ℕ) {slots : List (Option (Job α))} (hnone : ∀ slot ∈ slots, slot = none) :
    (fillTable client loadProblemCount mode call first last true slots).2.2.totalProblemsLoaded =
      (heldOf (fillTable client loadProblemCount mode call first last true slots).1).card := by
  have hbefore : heldOf (slots.take first) = 0 :=
    heldOf_eq_zero fun slot hslot ↦ hnone slot (List.mem_of_mem_take hslot)
  have hbehind : heldOf (slots.drop (max first last)) = 0 :=
    heldOf_eq_zero fun slot hslot ↦ hnone slot (List.mem_of_mem_drop hslot)
  have hrange : ∀ slot ∈ (slots.drop first).take (last - first), slot = none :=
    fun slot hslot ↦ hnone slot (List.mem_of_mem_drop (List.mem_of_mem_take hslot))
  have hloaded := fillSlots_loaded client loadProblemCount mode call.visits 0 hrange
    ⟨call.blocksDone, 0, 0, 0, 0⟩
  rw [fillTable]
  dsimp only
  rw [heldOf_append, heldOf_append, hbefore, hbehind, zero_add, add_zero]
  exact hloaded.trans (Nat.zero_add _)

/-- The first load counts what it has loaded. -/
theorem Session.loaded_eq (s : Session α) :
    s.loaded.1 = (heldOf s.loaded.2.2.slots).card ∧
      s.loaded.2.2.slots.length = s.numcrunchers ∧
      s.loaded.2.2.previousLoadProblemCount = s.numcrunchers := by
  rw [Session.loaded]
  by_cases hn : s.numcrunchers = 0
  · rw [loadSaveProblems, if_pos ⟨hn, .inl (by decide)⟩, heldOf_replicate, List.length_replicate]
    exact ⟨rfl, rfl, hn.symm⟩
  · have hvisited : visited s.numcrunchers .initial 0 = (0, s.numcrunchers, true) := by
      rw [visited, if_pos rfl]
    rw [loadSaveProblems_eq s.client s.initialLoad _ hn hvisited]
    refine ⟨?_, ?_, rfl⟩
    · exact fillTable_loaded _ _ _ _ _ _ fun slot hslot ↦ List.eq_of_mem_replicate hslot
    · rw [fillTable_length, List.length_replicate]

/-- The table is made smaller: some crunchers have been started, but fewer than there are problems
loaded. -/
def Session.Resized (s : Session α) : Prop :=
  s.quits = false ∧ 0 < s.started ∧ s.started < s.loaded.1

instance (s : Session α) : Decidable s.Resized := inferInstanceAs (Decidable (_ ∧ _ ∧ _))

/-- The crunchers that have been started run to the end. -/
theorem Session.crunched_started {s : Session α} {count : ℕ} {t : Table α} (hcount : count ≠ 0)
    (hquits : s.quits = false) (hstarted : s.started ≠ 0)
    (hprevious : t.previousLoadProblemCount ≠ 0) :
    (s.crunched count t).1 = min s.started count ∧
    (s.crunched count t).2.2.previousLoadProblemCount ≠ 0 ∧
    heldOf ((s.crunched count t).2.2.slots.drop (min s.started count)) =
      heldOf (t.slots.drop
        (if s.started < count then max s.started t.previousLoadProblemCount else count)) := by
  have hruns : ¬(count = 0 ∨ s.quits = true) := by
    rw [hquits]
    exact fun hor ↦ hor.elim hcount Bool.false_ne_true
  rw [Session.crunched, if_neg hruns, if_neg hstarted]
  by_cases hresize : s.started < count
  · obtain ⟨hdrop, hcount'⟩ :=
      loadSaveProblems_resizetable s.client s.resize t hstarted hprevious
    obtain ⟨hsteps, hlast⟩ := runSteps_drop s.client
      (loadSaveProblems s.client s.started .resizetable s.resize t).2.2 hstarted
      (hcount'.trans_ne hstarted) s.steps
    rw [if_pos hresize, if_pos hresize, min_eq_left hresize.le]
    exact ⟨rfl, hlast, hsteps.trans hdrop⟩
  · obtain ⟨hsteps, hlast⟩ := runSteps_drop s.client t hcount hprevious s.steps
    rw [if_neg hresize, if_neg hresize, min_eq_right (not_lt.mp hresize)]
    exact ⟨rfl, hlast, hsteps⟩

/-- A client that runs no cruncher unloads what it has loaded. -/
theorem Session.crunched_not {s : Session α} {count : ℕ} {t : Table α}
    (h : count = 0 ∨ s.quits = true) : s.crunched count t = (count, [], t) := by
  rw [Session.crunched, if_pos h]

section Left

variable {s : Session α}

/-- No slot is behind the count of the whole table. -/
theorem Session.drop_loaded {n : ℕ} (h : s.loaded.2.2.previousLoadProblemCount ≤ n) :
    s.loaded.2.2.slots.drop n = [] := by
  obtain ⟨-, hlength, hprevious⟩ := s.loaded_eq
  exact List.drop_eq_nil_of_le ((hlength.trans hprevious.symm).le.trans h)

theorem Session.held_of_zero (hzero : s.loaded.1 = 0) : heldOf s.loaded.2.2.slots = 0 :=
  Multiset.card_eq_zero.mp (s.loaded_eq.1.symm.trans hzero)

theorem Session.previous_ne_zero (hzero : s.loaded.1 ≠ 0) :
    s.loaded.2.2.previousLoadProblemCount ≠ 0 := by
  intro hn
  have hnil : s.loaded.2.2.slots = [] := Session.drop_loaded hn.le
  rw [s.loaded_eq.1, hnil] at hzero
  exact hzero rfl

theorem Session.left_of_zero (hzero : s.loaded.1 = 0) : s.left = 0 := by
  rw [Session.left, Session.run]
  dsimp only
  rw [Session.crunched_not (.inl hzero), hzero, loadSaveProblems_zero]
  split_ifs with hnone
  · exact Session.held_of_zero hzero
  · rw [(loadSaveProblems_unloadall s.client s.unload _ hnone hnone).1,
      Session.drop_loaded le_rfl]
    rfl

theorem Session.left_of_quits (hzero : s.loaded.1 ≠ 0) (hquits : s.quits = true) :
    s.left = heldOf (s.loaded.2.2.slots.drop s.loaded.1) := by
  rw [Session.left, Session.run]
  dsimp only
  rw [Session.crunched_not (.inr hquits)]
  exact (loadSaveProblems_unloadall s.client s.unload _ hzero (Session.previous_ne_zero hzero)).1

/-- No cruncher has been started: the table is unloaded at once. -/
theorem Session.left_of_failed (hzero : s.loaded.1 ≠ 0) (hquits : s.quits = false)
    (hstarted : s.started = 0) : s.left = heldOf (s.loaded.2.2.slots.drop s.loaded.1) := by
  have hruns : ¬(s.loaded.1 = 0 ∨ s.quits = true) := by
    rw [hquits]
    exact fun hor ↦ hor.elim hzero Bool.false_ne_true
  obtain ⟨hunloaded, hlast⟩ := loadSaveProblems_unloadall s.client s.resize s.loaded.2.2 hzero
    (Session.previous_ne_zero hzero)
  rw [Session.left, Session.run]
  dsimp only
  rw [Session.crunched, if_neg hruns, if_pos hstarted]
  dsimp only
  rw [loadSaveProblems_zero, if_pos hlast]
  exact hunloaded

theorem Session.left_of_started (hzero : s.loaded.1 ≠ 0) (hquits : s.quits = false)
    (hstarted : s.started ≠ 0) :
    s.left =
      if s.started < s.loaded.1 then 0 else heldOf (s.loaded.2.2.slots.drop s.loaded.1) := by
  obtain ⟨hcount, hlast, hdrop⟩ := Session.crunched_started hzero hquits hstarted
    (Session.previous_ne_zero hzero)
  have hmin : min s.started s.loaded.1 ≠ 0 := by omega
  rw [Session.left, Session.run]
  dsimp only
  rw [hcount, (loadSaveProblems_unloadall s.client s.unload _ hmin hlast).1, hdrop]
  split_ifs
  · rw [Session.drop_loaded (le_max_right _ _)]
    rfl
  · rfl

end Left

/-- **What is lost at the end**: nothing if the table has been made smaller, and else what the first
load has put behind as many slots as it has filled. -/
theorem Session.left_eq (s : Session α) :
    s.left = if s.Resized then 0 else heldOf (s.loaded.2.2.slots.drop s.loaded.1) := by
  by_cases hzero : s.loaded.1 = 0
  · have hresized : ¬s.Resized := fun h ↦ Nat.not_lt_zero _ (hzero ▸ h.2.2)
    rw [Session.left_of_zero hzero, if_neg hresized, hzero, List.drop_zero,
      Session.held_of_zero hzero]
  · cases hquits : s.quits with
    | true =>
      have hresized : ¬s.Resized := fun h ↦ Bool.false_ne_true (h.1.symm.trans hquits)
      rw [Session.left_of_quits hzero hquits, if_neg hresized]
    | false =>
      by_cases hstarted : s.started = 0
      · have hresized : ¬s.Resized := fun h ↦ h.2.1.ne' hstarted
        rw [Session.left_of_failed hzero hquits hstarted, if_neg hresized]
      · have hresized : s.Resized ↔ s.started < s.loaded.1 :=
          ⟨fun h ↦ h.2.2, fun h ↦ ⟨hquits, Nat.pos_of_ne_zero hstarted, h⟩⟩
        rw [Session.left_of_started hzero hquits hstarted]
        simp only [hresized]

/-- **Every packet is accounted for.** Whatever the buffers, the loader and the crunchers do, what a
client has taken is what it has saved and what it has discarded, with what is lost at the end: the
packets that the first load has put behind as many slots as it has filled, unless fewer crunchers
have been started, and the table has been made smaller. -/
theorem session_accounts (s : Session α) :
    takenOf s.run.1 = savedOf s.run.1 + discardedOf s.run.1 + s.left ∧
      s.left = if s.Resized then 0 else heldOf (s.loaded.2.2.slots.drop s.loaded.1) :=
  ⟨s.run_accounts.of_zero, s.left_eq⟩

/-- What the buffers answer at once. -/
def answered (packet : Option ℕ) : Turns ℕ where
  tried := []
  last := ⟨false, [⟨true, packet.map (·, 0), some 0⟩], false, 0, false, [], 0, 0, 0⟩
  ends := Or.inl rfl

/-- The first of two slots gets no packet, and a problem that is loaded stands behind it. -/
def overlookedSession : Session ℕ where
  client := ⟨0, true, none, false⟩
  numcrunchers := 2
  initialLoad := ⟨0, fun i ↦ ⟨true, answered (if i = 0 then none else some 7)⟩⟩
  quits := false
  started := 1
  resize := ⟨0, fun _ ↦ ⟨true, answered none⟩⟩
  steps := [.refresh ⟨0, fun _ ↦ ⟨true, answered (some 8)⟩⟩, .crunch 0 RESULT_FOUND]
  unload := ⟨1, fun _ ↦ ⟨true, answered none⟩⟩

/-- The packet that is loaded later is saved, and the first one is lost. -/
theorem session_accounts_overlooked : takenOf overlookedSession.run.1 = {8} + {7} := by
  obtain ⟨haccounts, hleft⟩ := session_accounts overlookedSession
  have hnot : ¬overlookedSession.Resized := by decide
  have hheld : heldOf (overlookedSession.loaded.2.2.slots.drop overlookedSession.loaded.1) = {7} :=
    by decide
  have hsaved : savedOf overlookedSession.run.1 + discardedOf overlookedSession.run.1 = {8} := by
    decide
  rwa [hleft, if_neg hnot, hheld, hsaved] at haccounts

end Hyunjin.Probfill
