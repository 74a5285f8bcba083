import Hyunjin.Poll.Pollsys

/-!
# What is registered

The run list is compared with the history: the entries in use are those of the handles under which
a ticket is held, and the counter counts them. Every operation keeps this up, except that
`UnregPolledProcedure` lowers the counter whenever the handle is in the list, whether or not its
entry is in use (`regcount_unreg_idle`).
-/

namespace Hyunjin.Poll

open Tickets

variable {P A : Type*}

/-! ## Times -/

/-- A time in microseconds. -/
def Timeval.micros (t : Timeval) : ℤ := 1000000 * t.tvSec + t.tvUsec

/-- A value of a signed `long`. -/
def Platform.Fits (p : Platform) (x : ℤ) : Prop :=
  -(2 ^ p.long) ≤ 2 * x ∧ 2 * x < 2 ^ p.long

instance (p : Platform) (x : ℤ) : Decidable (p.Fits x) := inferInstanceAs (Decidable (_ ∧ _))

/-- The interval can be added to the reading of the clock. -/
def InRange (p : Platform) (clock : Reading) (interval : Option Timeval) : Prop :=
  ∀ t ∈ interval, p.Fits (clock.1.tvSec + t.tvSec) ∧ p.Fits (clock.1.tvUsec + t.tvUsec)
    ∧ p.Fits (clock.1.tvSec + t.tvSec + (clock.1.tvUsec + t.tvUsec).tdiv 1000000)

/-- An interval in microseconds, none being no time at all. -/
def waits (interval : Option Timeval) : ℤ := (interval.map Timeval.micros).getD 0

theorem Platform.wrap_eq {p : Platform} {x : ℤ} (h : p.Fits x) : p.wrap x = x := by
  obtain ⟨hlo, hhi⟩ := h
  have hpow : ((2 ^ p.long : ℕ) : ℤ) = 2 ^ p.long := by push_cast; rfl
  exact Int.bmod_eq_of_le_mul_two (by rw [hpow]; omega) (by rw [hpow]; omega)

/-- The time kept is the time of the call and the interval, with less than a second of
microseconds. -/
theorem execat_spec {p : Platform} {clock : Reading} {interval : Option Timeval}
    (h : InRange p clock interval) :
    (execat p clock interval).micros = clock.1.micros + waits interval
      ∧ (execat p clock interval).tvUsec < 1000000 := by
  cases interval with
  | none => exact ⟨(add_zero _).symm, clock.2.2⟩
  | some t =>
    obtain ⟨hsec, husec, hsum⟩ := h t rfl
    rw [execat, Timeval.add, p.wrap_eq husec, p.wrap_eq hsec, p.wrap_eq hsum]
    have hdiv := Int.tmod_add_mul_tdiv (clock.1.tvUsec + t.tvUsec) 1000000
    refine ⟨?_, Int.tmod_lt_of_pos _ (by norm_num)⟩
    simp only [Timeval.micros, waits, Option.map_some, Option.getD_some]
    omega

/-- Nothing is due before its time. -/
theorem micros_le_of_due {t : Timeval} {now : Reading} (husec : t.tvUsec < 1000000)
    (hdue : now.1.before t = false) : t.micros ≤ now.1.micros := by
  have hpos := now.2.1
  rw [Timeval.before, Bool.or_eq_false_iff, Bool.and_eq_false_imp, decide_eq_false_iff_not,
    beq_iff_eq, decide_eq_false_iff_not] at hdue
  rw [Timeval.micros, Timeval.micros]
  omega

/-! ## The rules -/

/-- The registrations as tickets: a procedure is called with its own argument and not before its
time, and the rank of a registration is the run level of its priority. -/
def rules (p : Platform) : Rules (Registration P A) Reading (Option P × A) where
  issuedAt r t := r.clock = t
  serves r t c := c = (some r.proc, r.arg) ∧ r.clock.1.micros + waits r.interval ≤ t.1.micros
  due r t := t.1.before (execat p r.clock r.interval) = false
  rank r := (level r.priority).toNat

/-- The entry is kept for a registration. -/
structure Records (p : Platform) (e : PollData P A) (r : Registration P A) : Prop where
  proc : e.proc = some r.proc
  arg : e.arg = r.arg
  priority : e.priority = level r.priority
  execat : e.execat = execat p r.clock r.interval
  inRange : InRange p r.clock r.interval

/-- **The list agrees with the history.** -/
structure Kept (p : Platform) (list : List (PollData P A)) (count : U32) (es : History P A) :
    Prop where
  numbered : ∀ (i : ℕ) e, list[i]? = some e → e.fd = BitVec.ofNat 32 (i + 1)
  short : list.length < 2 ^ 31
  regcount : count.toNat = list.countP (·.inuse)
  registered : ∀ (i : ℕ) e, list[i]? = some e → e.inuse = true →
    ∃ n r, held es e.fd = some (n, r) ∧ Records p e r
  inuse : ∀ fd q, held es fd = some q → ∃ (i : ℕ) (e : PollData P A), list[i]? = some e ∧ e.fd = fd
    ∧ e.inuse = true

namespace Kept

variable {p : Platform} {list : List (PollData P A)} {count : U32} {es es' : History P A}
  {e e' : PollData P A} {i j : ℕ}

/-- No two entries have one handle. -/
theorem fd_injective (h : Kept p list count es) (hi : list[i]? = some e) (hj : list[j]? = some e')
    (hfd : e.fd = e'.fd) : i = j := by
  have hlt := (List.getElem?_eq_some_iff.mp hi).1
  have hlt' := (List.getElem?_eq_some_iff.mp hj).1
  have hshort := h.short
  rw [h.numbered i e hi, h.numbered j e' hj] at hfd
  have hnat := congrArg BitVec.toNat hfd
  rw [BitVec.toNat_ofNat, BitVec.toNat_ofNat, Nat.mod_eq_of_lt (by omega),
    Nat.mod_eq_of_lt (by omega)] at hnat
  omega

theorem fds_nodup (h : Kept p list count es) : (list.map PollData.fd).Nodup := by
  refine List.nodup_iff_getElem?_ne_getElem?.mpr fun i j hij hj heq ↦ ?_
  rw [List.length_map] at hj
  rw [List.getElem?_map, List.getElem?_map, List.getElem?_eq_getElem (hij.trans hj),
    List.getElem?_eq_getElem hj, Option.map_some, Option.map_some] at heq
  exact hij.ne (h.fd_injective (List.getElem?_eq_getElem (hij.trans hj))
    (List.getElem?_eq_getElem hj) (Option.some.inj heq))

/-- What is not about handles changes nothing. -/
theorem congr (h : Kept p list count es) (hheld : ∀ fd, held es' fd = held es fd) :
    Kept p list count es' where
  numbered := h.numbered
  short := h.short
  regcount := h.regcount
  registered i e hi huse := by
    rw [hheld]
    exact h.registered i e hi huse
  inuse fd q hq := h.inuse fd q (by rw [← hheld, hq])

/-- An entry is given up. -/
theorem close (h : Kept p list count es) (hi : list[i]? = some e) (huse : e.inuse = true)
    (hheld : ∀ fd, held es' fd = if fd = e.fd then none else held es fd) :
    Kept p (list.set i { e with inuse := false }) (count - 1#32) es' := by
  have hlt := (List.getElem?_eq_some_iff.mp hi).1
  have hei := (List.getElem?_eq_some_iff.mp hi).2
  refine ⟨fun j f hj ↦ ?_, by rw [List.length_set]; exact h.short, ?_, fun j f hj hf ↦ ?_,
    fun fd q hq ↦ ?_⟩
  · rw [List.getElem?_set] at hj
    split_ifs at hj with hij
    · subst hij
      obtain rfl := Option.some.inj hj
      exact h.numbered i e hi
    · exact h.numbered j f hj
  · have hpos : 0 < list.countP (·.inuse) :=
      List.countP_pos_iff.mpr ⟨e, List.mem_of_getElem? hi, huse⟩
    have hcount := h.regcount
    rw [List.countP_set hlt, hei, huse, if_pos rfl, if_neg Bool.false_ne_true, ← hcount,
      BitVec.toNat_sub_of_le]
    · rfl
    · rw [BitVec.le_def]
      show 1 ≤ _
      omega
  · rw [List.getElem?_set] at hj
    split_ifs at hj with hij
    · obtain rfl := Option.some.inj hj
      cases hf
    · obtain ⟨n, r, hr, hrec⟩ := h.registered j f hj hf
      refine ⟨n, r, ?_, hrec⟩
      rw [hheld, if_neg fun hfd ↦ hij (h.fd_injective hi hj hfd.symm), hr]
  · rw [hheld] at hq
    split_ifs at hq with hfd
    obtain ⟨j, f, hj, hjfd, hf⟩ := h.inuse fd q hq
    refine ⟨j, f, ?_, hjfd, hf⟩
    rw [List.getElem?_set, if_neg]
    · exact hj
    · rintro rfl
      rw [hi] at hj
      obtain rfl := Option.some.inj hj
      exact hfd hjfd.symm

/-- An entry that is free is taken. -/
theorem issue (h : Kept p list count es) (hi : list[i]? = some e) (hfree : e.inuse = false)
    {r : Registration P A} (hfd : e'.fd = e.fd) (huse : e'.inuse = true) (hrec : Records p e' r) :
    held es e.fd = none
      ∧ Kept p (list.set i e') (count + 1#32) (.issued e.fd r :: .read r.clock :: es) := by
  have hlt := (List.getElem?_eq_some_iff.mp hi).1
  have hei := (List.getElem?_eq_some_iff.mp hi).2
  have hnone : held es e.fd = none := by
    refine Option.eq_none_iff_forall_not_mem.mpr fun q hq ↦ ?_
    obtain ⟨j, f, hj, hjfd, hf⟩ := h.inuse e.fd q hq
    obtain rfl := h.fd_injective hj hi hjfd
    rw [hi] at hj
    obtain rfl := Option.some.inj hj
    rw [hfree] at hf
    cases hf
  refine ⟨hnone, fun j f hj ↦ ?_, by rw [List.length_set]; exact h.short, ?_, fun j f hj hf ↦ ?_,
    fun fd q hq ↦ ?_⟩
  · rw [List.getElem?_set] at hj
    split_ifs at hj with hij
    · subst hij
      obtain rfl := Option.some.inj hj
      rw [hfd]
      exact h.numbered i e hi
    · exact h.numbered j f hj
  · have hle : list.countP (·.inuse) ≤ list.length := List.countP_le_length
    have hshort := h.short
    rw [List.countP_set hlt, hei, hfree, if_neg Bool.false_ne_true, if_pos huse, ← h.regcount,
      BitVec.toNat_add, Nat.mod_eq_of_lt]
    · rfl
    · rw [h.regcount]
      show _ + 1 < _
      omega
  · rw [List.getElem?_set] at hj
    split_ifs at hj with hij
    · obtain rfl := Option.some.inj hj
      exact ⟨_, r, by rw [held, if_pos hfd], hrec⟩
    · obtain ⟨n, q, hq, hrec'⟩ := h.registered j f hj hf
      refine ⟨n, q, ?_, hrec'⟩
      rw [held, if_neg fun hfd' ↦ hij (h.fd_injective hi hj hfd'.symm)]
      exact hq
  · rw [held] at hq
    split_ifs at hq with hfd'
    · exact ⟨i, e', by rw [List.getElem?_set_self hlt], by rw [hfd, hfd'], huse⟩
    · obtain ⟨j, f, hj, hjfd, hf⟩ := h.inuse fd q hq
      refine ⟨j, f, ?_, hjfd, hf⟩
      rw [List.getElem?_set, if_neg]
      · exact hj
      · rintro rfl
        rw [hi] at hj
        obtain rfl := Option.some.inj hj
        rw [hfree] at hf
        cases hf

/-- The handles go on behind the last one. -/
theorem lastHandle (h : Kept p list count es) :
    (if (list.getLast?.map PollData.fd).getD (-1#32) = -1#32 then 0#32
      else (list.getLast?.map PollData.fd).getD (-1#32)) = BitVec.ofNat 32 list.length := by
  have hshort := h.short
  rw [List.getLast?_eq_getElem?]
  cases hlast : list[list.length - 1]? with
  | none =>
    obtain rfl : list = [] := by
      rw [List.getElem?_eq_none_iff] at hlast
      exact List.eq_nil_of_length_eq_zero (by omega)
    rfl
  | some e =>
    have hlt := (List.getElem?_eq_some_iff.mp hlast).1
    have hfd := h.numbered _ e hlast
    rw [Nat.sub_add_cancel (by omega)] at hfd
    rw [Option.map_some, Option.getD_some, hfd, if_neg]
    intro heq
    have hnat := congrArg BitVec.toNat heq
    rw [BitVec.toNat_ofNat, Nat.mod_eq_of_lt (by omega)] at hnat
    have hminus : (-1#32 : U32).toNat = 2 ^ 32 - 1 := by decide
    omega

end Kept

section Calls

variable {p : Platform} {s : System P A}

/-! ## Calls keep the list -/

/-- Between two calls. -/
structure Sane (p : Platform) (s : System P A) : Prop where
  kept : Kept p s.runlist s.regcount s.history
  lawful : Lawful (rules p) s.history
  cursors : ∀ q c, s.nextrun q = some c → c < s.runlist.length

theorem sane_start : Sane p (start : System P A) where
  kept := by
    refine ⟨fun i e hi ↦ ?_, Nat.two_pow_pos 31, rfl, fun i e hi ↦ ?_, fun fd q hq ↦ ?_⟩
    · cases hi
    · cases hi
    · cases hq
  lawful := trivial
  cursors q c hc := by cases hc

/-- The handle is not in the list, or its entry is in use. -/
def Live (fd : U32) (s : System P A) : Prop :=
  ∀ e ∈ s.runlist, e.fd = fd → e.inuse = true

instance (fd : U32) (s : System P A) : Decidable (Live fd s) :=
  inferInstanceAs (Decidable (∀ e ∈ s.runlist, e.fd = fd → e.inuse = true))

theorem sane_unreg (h : Sane p s) {fd : U32} (hlive : Live fd s) :
    Sane p (unregPolledProcedure fd s).2
      ∧ (unregPolledProcedure fd s).2.loop = s.loop := by
  rw [unregPolledProcedure]
  cases he : s.runlist[s.runlist.findIdx (·.fd == fd)]? with
  | none => exact ⟨h, rfl⟩
  | some e =>
    obtain ⟨hlt, hget⟩ := List.getElem?_eq_some_iff.mp he
    have hfd : e.fd = fd := by
      have := List.findIdx_getElem (w := hlt)
      rw [hget] at this
      exact beq_iff_eq.mp this
    have huse := hlive e (List.mem_of_getElem? he) hfd
    dsimp only
    rw [if_pos huse]
    refine ⟨⟨h.kept.close he huse fun g ↦ ?_, h.lawful, fun q c hc ↦ ?_⟩, rfl⟩
    · rw [hfd, held]
    · rw [List.length_set]
      exact h.cursors q c hc

/-- **The counter goes wrong** when the handle of an entry that is not in use is unregistered. -/
theorem regcount_unreg_idle (h : Sane p s) {fd : U32} (hlive : ¬Live fd s) :
    (unregPolledProcedure fd s).2.regcount.toNat
      ≠ (unregPolledProcedure fd s).2.runlist.countP (·.inuse) := by
  obtain ⟨e, he, hfd, hidle⟩ : ∃ e ∈ s.runlist, e.fd = fd ∧ ¬e.inuse = true := by
    simpa only [Live, not_forall, exists_prop] using hlive
  obtain ⟨j, hj⟩ := List.mem_iff_getElem?.mp he
  have hlt : s.runlist.findIdx (·.fd == fd) < s.runlist.length :=
    List.findIdx_lt_length_of_exists ⟨e, he, beq_iff_eq.mpr hfd⟩
  have hget := List.getElem?_eq_getElem hlt
  have hfound := beq_iff_eq.mp (List.findIdx_getElem (w := hlt))
  rw [unregPolledProcedure]
  generalize s.runlist[s.runlist.findIdx (·.fd == fd)] = f at hget hfound
  have hsame := h.kept.fd_injective hget hj (hfound.trans hfd.symm)
  rw [← hsame, hget] at hj
  obtain rfl := Option.some.inj hj
  rw [hget]
  dsimp only
  rw [if_neg hidle, ← h.kept.regcount]
  intro heq
  have := BitVec.eq_of_toNat_eq heq
  bv_omega

/-! ## Another block -/

variable [Inhabited A]

/-- There is a free entry, or the handles of another block are still positive. -/
def Room (p : Platform) (s : System P A) : Prop :=
  firstFree s.runlist < s.runlist.length ∨ s.runlist.length + p.mcount < 2 ^ 31

theorem getElem?_block {fd : U32} {j : ℕ} {e : PollData P A} (hj : (block p fd)[j]? = some e) :
    j < p.mcount ∧ e.fd = fd + BitVec.ofNat 32 (j + 1) ∧ e.inuse = false := by
  rw [block, List.getElem?_map, Option.map_eq_some_iff] at hj
  obtain ⟨k, hk, rfl⟩ := hj
  obtain ⟨hlt, rfl⟩ := List.getElem?_eq_some_iff.mp hk
  rw [List.length_range] at hlt
  exact ⟨hlt, by rw [List.getElem_range], rfl⟩

/-- The list grows by entries that are free. -/
theorem kept_extend (h : Kept p s.runlist s.regcount s.history)
    (hroom : s.runlist.length + p.mcount < 2 ^ 31) :
    Kept p (extend p s).runlist s.regcount s.history := by
  have hlast := h.lastHandle
  rw [extend]
  dsimp only
  rw [hlast]
  have hlength : (block p (BitVec.ofNat 32 s.runlist.length) : List (PollData P A)).length
      = p.mcount := by rw [block, List.length_map, List.length_range]
  have hcases : ∀ {j : ℕ} {e : PollData P A},
      (s.runlist ++ block p (BitVec.ofNat 32 s.runlist.length))[j]? = some e →
        s.runlist[j]? = some e
          ∨ e.fd = BitVec.ofNat 32 (j + 1) ∧ e.inuse = false := by
    intro j e hj
    rw [List.getElem?_append] at hj
    split_ifs at hj with hlt
    · exact .inl hj
    · obtain ⟨-, hfd, hfree⟩ := getElem?_block hj
      refine .inr ⟨?_, hfree⟩
      rw [hfd, ← BitVec.ofNat_add]
      congr 1
      omega
  refine ⟨fun j e hj ↦ ?_, ?_, ?_, fun j e hj huse ↦ ?_, fun fd q hq ↦ ?_⟩
  · rcases hcases hj with hj | ⟨hfd, -⟩
    exacts [h.numbered j e hj, hfd]
  · rw [List.length_append, hlength]
    exact hroom
  · have hzero : (block p (BitVec.ofNat 32 s.runlist.length) : List (PollData P A)).countP
        (·.inuse) = 0 := by
      rw [block, List.countP_map]
      exact List.countP_eq_zero.mpr fun i _ ↦ Bool.false_ne_true
    rw [List.countP_append, hzero, Nat.add_zero]
    exact h.regcount
  · rcases hcases hj with hj | ⟨-, hfree⟩
    · exact h.registered j e hj huse
    · rw [hfree] at huse
      cases huse
  · obtain ⟨j, e, hj, hfd, huse⟩ := h.inuse fd q hq
    refine ⟨j, e, ?_, hfd, huse⟩
    rw [List.getElem?_append_left (List.getElem?_eq_some_iff.mp hj).1]
    exact hj

theorem sane_reg (h : Sane p s) {f : P} (arg : A) {interval : Option Timeval} (priority : U32)
    {clock : Reading} (hroom : Room p s) (hrange : InRange p clock interval) :
    Sane p (regPolledProcedure p (some f) arg interval priority clock s).2
      ∧ (regPolledProcedure p (some f) arg interval priority clock s).2.loop = s.loop := by
  -- the list with a free entry at the place that is taken
  obtain ⟨s₁, hs₁, hkept, hhist, hloop, hcursors, hlt⟩ : ∃ s₁,
      (if firstFree s.runlist < s.runlist.length then s else extend p s) = s₁
        ∧ Kept p s₁.runlist s₁.regcount s₁.history ∧ s₁.history = s.history ∧ s₁.loop = s.loop
        ∧ (∀ q c, s₁.nextrun q = some c → c < s₁.runlist.length)
        ∧ ∃ e, s₁.runlist[firstFree s.runlist]? = some e ∧ e.inuse = false := by
    refine ⟨_, rfl, ?_⟩
    split_ifs with hlt
    · refine ⟨h.kept, rfl, rfl, h.cursors, _, List.getElem?_eq_getElem hlt, ?_⟩
      have := List.findIdx_getElem (w := hlt)
      exact (Bool.not_eq_true' _).mp this
    · have hroom' := hroom.resolve_left hlt
      have hlen : firstFree s.runlist = s.runlist.length :=
        le_antisymm List.findIdx_le_length (not_lt.mp hlt)
      refine ⟨kept_extend h.kept hroom', rfl, rfl, fun q c hc ↦ ?_, ?_⟩
      · rw [extend] at hc ⊢
        dsimp only at hc ⊢
        rw [List.length_append]
        split_ifs at hc
        exact Nat.lt_add_right _ (h.cursors q c hc)
      · rw [extend, hlen, List.getElem?_append_right le_rfl, Nat.sub_self, block,
          List.getElem?_map, List.getElem?_range p.mcount_pos]
        exact ⟨_, rfl, rfl⟩
  obtain ⟨e, he, hfree⟩ := hlt
  rw [regPolledProcedure]
  rw [hs₁, he]
  dsimp only
  let e' := { e with
    inuse := true
    proc := some f
    arg := arg
    priority := level priority
    execat := execat p clock interval }
  have hrecords : Records p e' ⟨f, arg, interval, priority, clock⟩ := ⟨rfl, rfl, rfl, rfl, hrange⟩
  have hfd : e'.fd = e.fd := rfl
  obtain ⟨hnone, hkept'⟩ := hkept.issue he hfree hfd rfl hrecords
  refine ⟨⟨hkept', ⟨hnone, ⟨clock, rfl, rfl⟩, ?_⟩, fun q c hc ↦ ?_⟩, hloop⟩
  · rw [hhist]
    exact h.lawful
  · rw [List.length_set]
    exact hcursors q c hc

end Calls

end Hyunjin.Poll
