import Hyunjin.Conf.Projectmap

/-!
# What the order of the projects is

The entries of a string are read off without buffers (`entryOf`, `mentions`). The builder comes to
the projects that are mentioned, each at its first mention, completed by the others
(`projectmapBuild_eq`), and it never leaves its buffers. An order that is written and read again
keeps what the client supports in its order, with what is disabled (`mentions_expanded`).
-/

namespace Hyunjin.Conf

open Memory Insertion

variable {b : Build} {ps : List Project} {p : Project}

/-! ## Entries without buffers -/

/-- The first entry of a string. -/
def entryOf (s : List U8) : Entry :=
  let s := s.dropWhile (!isalnum ·)
  let word := (s.takeWhile isword).take (SCRATCH - 2)
  let v := readValue word.length ((s.drop word.length).dropWhile isspace)
  { project := if v.2.takeWhile (!isend ·) = [] then
      projects.find? (projectGetName · == word.map toupper) else none
    disabled := v.1
    rest := v.2.dropWhile (!isend ·) }

theorem length_readValue_le (i : ℕ) (s : List U8) : (readValue i s).2.length ≤ s.length := by
  rw [readValue]
  dsimp only
  have hskip := (s.dropWhile_suffix fun c ↦ c == COLON || c == EQUALS || isspace c).length_le
  split_ifs
  · exact (List.dropWhile_suffix _).length_le.trans hskip
  · exact hskip
  · exact le_rfl

/-- Without a colon or an equals sign there is no value. -/
theorem readValue_of_not {i : ℕ} {s : List U8} (h : ∀ c ∈ s.head?, c ≠ COLON ∧ c ≠ EQUALS) :
    readValue i s = (false, s) :=
  if_neg fun ⟨_, c, hc, hvalue⟩ ↦ hvalue.elim (h c hc).1 (h c hc).2

theorem isword_of_isalnum {c : U8} (h : isalnum c = true) : isword c = true := by
  rw [isalnum] at h
  rw [isword, h, Bool.true_or, Bool.true_or]

/-- An entry takes something off the string. -/
theorem length_rest_lt {s : List U8} (h : s ≠ []) : (entryOf s).rest.length < s.length := by
  rw [entryOf]
  dsimp only
  refine (List.dropWhile_suffix _).length_le.trans_lt ((length_readValue_le _ _).trans_lt
    ((List.dropWhile_suffix _).length_le.trans_lt ?_))
  have hskip := (s.dropWhile_suffix (!isalnum ·)).length_le
  have hhead := List.head?_dropWhile_not (!isalnum ·) s
  cases hs : s.dropWhile (!isalnum ·) with
  | nil =>
    rw [List.drop_nil]
    exact List.length_pos_iff.mpr h
  | cons c cs =>
    rw [hs] at hhead hskip
    have hc : isword c = true := isword_of_isalnum (by simpa using hhead)
    rw [List.takeWhile_cons_of_pos hc, SCRATCH, MAX_PROJECT_NAME_LEN, List.take_succ_cons,
      List.length_cons, List.drop_succ_cons, List.length_drop]
    rw [List.length_cons] at hskip
    omega

/-- The projects that are mentioned, each with whether it is disabled. -/
def mentions (s : List U8) : List (Project × Bool) :=
  if h : s = [] then []
  else
    have := length_rest_lt h
    ((entryOf s).project.map (·, (entryOf s).disabled)).toList ++ mentions (entryOf s).rest
termination_by s.length

theorem mentions_nil : mentions [] = [] := by rw [mentions, dif_pos rfl]

theorem mentions_of_ne_nil {s : List U8} (h : s ≠ []) :
    mentions s = ((entryOf s).project.map (·, (entryOf s).disabled)).toList
      ++ mentions (entryOf s).rest := by
  rw [mentions, dif_neg h]

/-! ## Entries in the buffer -/

theorem toupper_ne_zero {c : U8} (h : isword c = true) : toupper c ≠ 0#8 ∧ toupper c ≠ HASH := by
  revert c
  decide

/-- The word is in the buffer. -/
theorem readWord_spec (s : List U8) {scratch done : List U8} (hlen : scratch.length = SCRATCH)
    (hheld : Memory.Holds scratch done) (hdone : done.length ≤ SCRATCH - 2) :
    let word := (s.takeWhile isword).take (SCRATCH - 2 - done.length)
    ∃ scratch', readWord s scratch done.length
        = some (s.drop word.length, scratch', done.length + word.length)
      ∧ scratch'.length = SCRATCH ∧ Memory.Holds scratch' (done ++ word.map toupper) := by
  induction s generalizing scratch done with
  | nil =>
    rw [List.takeWhile_nil, List.take_nil]
    exact ⟨scratch, rfl, hlen, by simpa using hheld⟩
  | cons c cs ih =>
    dsimp only
    rw [readWord]
    by_cases hcond : done.length < SCRATCH - 2 ∧ isword c
    · obtain ⟨hlt, hc⟩ := hcond
      have hlt' : done.length < scratch.length := by omega
      obtain ⟨m, hstore, hm, hheld'⟩ := hheld.store hlt' (toupper c)
      have hstep := ih (hm.trans hlen) hheld' (by rw [List.length_append]; exact hlt)
      rw [List.length_append, List.length_singleton] at hstep
      obtain ⟨scratch', hread, hlen', hheld''⟩ := hstep
      have htake : ((c :: cs).takeWhile isword).take (SCRATCH - 2 - done.length)
          = c :: (cs.takeWhile isword).take (SCRATCH - 2 - (done.length + 1)) := by
        rw [List.takeWhile_cons_of_pos hc,
          show SCRATCH - 2 - done.length = SCRATCH - 2 - (done.length + 1) + 1 by omega,
          List.take_succ_cons]
      rw [if_pos ⟨hlt, hc⟩, hstore, Option.bind_some, hread, htake]
      refine ⟨scratch', ?_, hlen', ?_⟩
      · rw [List.length_cons, List.drop_succ_cons, Nat.add_right_comm, Nat.add_assoc]
      · rw [List.append_assoc] at hheld''
        exact hheld''
    · have hnil : ((c :: cs).takeWhile isword).take (SCRATCH - 2 - done.length) = [] := by
        rcases not_and_or.mp hcond with hge | hc
        · rw [Nat.sub_eq_zero_of_le (not_lt.mp hge), List.take_zero]
        · rw [List.takeWhile_cons_of_neg hc, List.take_nil]
      rw [if_neg hcond, hnil]
      exact ⟨scratch, rfl, hlen, by simpa using hheld⟩

/-- The word is spoiled if something follows it. -/
theorem spoil_spec (s : List U8) {scratch word : List U8} (hlen : scratch.length = SCRATCH)
    (hheld : Memory.Holds scratch word) (hword : word.length ≤ SCRATCH - 1) :
    ∃ scratch' n, spoil s scratch word.length
        = some (s.dropWhile (!isend ·), scratch', word.length + n)
      ∧ scratch'.length = SCRATCH ∧ Memory.Holds scratch' (word ++ List.replicate n HASH)
      ∧ word.length + n ≤ SCRATCH - 1 ∧ (s.takeWhile (!isend ·) = [] ∨ word = [] → n = 0)
      ∧ (s.takeWhile (!isend ·) ≠ [] → word ≠ [] → word.length < SCRATCH - 1 → n ≠ 0) := by
  induction s generalizing scratch word with
  | nil =>
    exact ⟨scratch, 0, rfl, hlen, by simpa using hheld, hword, fun _ ↦ rfl, fun h ↦ absurd rfl h⟩
  | cons c cs ih =>
    rw [spoil]
    cases hend : isend c with
    | true =>
      have hstop : ¬(!isend c) = true := by rw [hend]; decide
      rw [if_pos rfl, List.dropWhile_cons_of_neg (p := (!isend ·)) hstop,
        List.takeWhile_cons_of_neg (p := (!isend ·)) hstop]
      exact ⟨scratch, 0, rfl, hlen, by simpa using hheld, hword, fun _ ↦ rfl,
        fun h ↦ absurd rfl h⟩
    | false =>
      have hgo : (!isend c) = true := by rw [hend]; rfl
      rw [if_neg Bool.false_ne_true, List.dropWhile_cons_of_pos (p := (!isend ·)) hgo,
        List.takeWhile_cons_of_pos (p := (!isend ·)) hgo]
      by_cases hcond : word.length ≠ 0 ∧ word.length < SCRATCH - 1
      · obtain ⟨hne, hlt⟩ := hcond
        obtain ⟨m, hstore, hm, hheld'⟩ := hheld.store (by rw [hlen]; omega) HASH
        obtain ⟨scratch', n, hspoil, hlen', hheld'', hle, -, -⟩ := ih (hm.trans hlen) hheld'
          (by rw [List.length_append]; exact hlt)
        rw [List.length_append, List.length_singleton] at hspoil hle
        rw [if_pos ⟨hne, hlt⟩, hstore, Option.bind_some, hspoil]
        refine ⟨scratch', n + 1, by rw [Nat.add_right_comm, Nat.add_assoc], hlen', ?_, by omega,
          fun h ↦ ?_, fun _ _ _ ↦ Nat.succ_ne_zero n⟩
        · rw [List.append_assoc] at hheld''
          exact hheld''
        · rcases h with h | rfl
          · cases h
          · exact absurd rfl hne
      · obtain ⟨scratch', n, hspoil, hlen', hheld', hle, hzero, -⟩ := ih hlen hheld hword
        rw [if_neg hcond, hspoil]
        have hn : n = 0 := by
          rcases not_and_or.mp hcond with h | h
          · exact hzero (.inr (List.eq_nil_of_length_eq_zero (not_not.mp h)))
          · omega
        refine ⟨scratch', n, rfl, hlen', hheld', hle, fun _ ↦ hn, fun _ hne hlt ↦ ?_⟩
        exact absurd ⟨fun h ↦ hne (List.eq_nil_of_length_eq_zero h), hlt⟩ hcond

theorem hash_notMem_projectGetName (p : Project) : HASH ∉ projectGetName p := by
  cases p <;> decide

/-- **An entry is read within the buffer.** -/
theorem readEntry_eq (s : List U8) {scratch : List U8} (hlen : scratch.length = SCRATCH) :
    ∃ scratch', readEntry s scratch = some (entryOf s, scratch') ∧ scratch'.length = SCRATCH := by
  obtain ⟨m₁, hread, hm₁, hheld₁⟩ :=
    readWord_spec (s.dropWhile (!isalnum ·)) hlen (holds_nil scratch) (Nat.zero_le _)
  rw [readEntry, entryOf]
  dsimp only [List.length_nil] at hread ⊢
  rw [Nat.sub_zero, Nat.zero_add] at hread
  dsimp only [List.length_nil] at hheld₁
  rw [Nat.sub_zero, List.nil_append] at hheld₁
  have hwords : ∀ c ∈ ((s.dropWhile (!isalnum ·)).takeWhile isword).take (SCRATCH - 2),
      isword c = true := fun c hc ↦ List.mem_takeWhile_imp (List.mem_of_mem_take hc)
  have hlength := List.length_take_le (SCRATCH - 2) ((s.dropWhile (!isalnum ·)).takeWhile isword)
  generalize ((s.dropWhile (!isalnum ·)).takeWhile isword).take (SCRATCH - 2) = word at *
  rw [hread]
  simp only [Option.bind_eq_bind, Option.bind_some]
  generalize readValue word.length (((s.dropWhile (!isalnum ·)).drop word.length).dropWhile isspace)
    = v
  have hmap : (word.map toupper).length = word.length := List.length_map _
  obtain ⟨m₂, n, hspoil, hm₂, hheld₂, hle, hzero, hpos⟩ := spoil_spec v.2 hm₁ hheld₁
    (by rw [hmap]; exact hlength.trans (by decide))
  rw [hmap] at hspoil hle
  obtain ⟨m₃, hstore, hm₃, hheld₃⟩ := hheld₂.store
    (by rw [List.length_append, hmap, List.length_replicate, hm₂]; exact hle.trans_lt (by decide))
    0#8
  rw [List.length_append, hmap, List.length_replicate] at hstore
  have hnul : 0#8 ∉ word.map toupper ++ List.replicate n HASH := by
    intro hmem
    rcases List.mem_append.mp hmem with hmem | hmem
    · obtain ⟨c, hc, hzero⟩ := List.mem_map.mp hmem
      exact (toupper_ne_zero (hwords c hc)).1 hzero
    · exact absurd (List.eq_of_mem_replicate hmem) (by decide)
  rw [hspoil, Option.bind_some]
  dsimp only
  rw [hstore, Option.bind_some, cstr_of_holds hheld₃ hnul, Option.bind_some]
  refine ⟨m₃, ?_, hm₃.trans hm₂⟩
  congr 3
  by_cases hnil : word = []
  · subst hnil
    have hnone : projects.find? (projectGetName · == ([] : List U8).map toupper) = none := by decide
    rw [hnone, hzero (.inr rfl), ite_self]
    exact if_neg (lt_irrefl _)
  · have hword := List.length_pos_iff.mpr hnil
    rw [if_pos (by omega)]
    split_ifs with hjunk
    · rw [hzero (.inl hjunk), List.replicate_zero, List.append_nil]
    · have hn := hpos hjunk (fun h ↦ hnil (List.map_eq_nil_iff.mp h))
        (by rw [hmap]; exact hlength.trans_lt (by decide))
      refine List.find?_eq_none.mpr fun p _ hp ↦ hash_notMem_projectGetName p ?_
      rw [beq_iff_eq.mp hp]
      exact List.mem_append_right _ (List.mem_replicate.mpr ⟨hn, rfl⟩)

/-! ## The map -/

/-- The map has got these projects. -/
structure Built (b : Build) (ps : List Project) : Prop where
  length : b.map.length = PROJECT_COUNT
  holds : Memory.Holds b.map ps
  mapPos : b.mapPos = ps.length
  nodup : ps.Nodup

theorem Built.take (h : Built b ps) : b.map.take b.mapPos = ps := by rw [h.mapPos, h.holds.take_eq]

/-- A full map has all projects. -/
theorem Built.mem_of_full (h : Built b ps) (hfull : ¬b.mapPos < PROJECT_COUNT) (p : Project) :
    p ∈ ps := by
  rw [h.mapPos] at hfull
  by_contra hp
  have hle := length_le_of_nodup (List.nodup_cons.mpr ⟨hp, h.nodup⟩)
  rw [List.length_cons] at hle
  omega

/-- A project that is not in the map has its place. -/
theorem Built.lt (h : Built b ps) (hp : p ∉ ps) : ps.length < PROJECT_COUNT := by
  by_contra hfull
  exact hp (h.mem_of_full (by rw [h.mapPos]; exact hfull) p)

/-- One mention: the order and the states. -/
def note (r : List Project × Option (Project → U32)) (m : Project × Bool) :
    List Project × Option (Project → U32) :=
  if m.1 ∈ r.1 then r else (r.1 ++ [m.1], r.2.map (setDisabled m.2 m.1))

theorem mention_spec (h : Built b ps) (p : Project) (disabled : Bool) :
    ∃ b', b.mention p disabled = some b' ∧ Built b' (note (ps, b.state) (p, disabled)).1
      ∧ b'.state = (note (ps, b.state) (p, disabled)).2 := by
  rw [Build.mention, h.take, note]
  by_cases hp : p ∈ ps
  · rw [if_pos hp, if_pos hp]
    exact ⟨b, rfl, h, rfl⟩
  · rw [if_neg hp, if_neg hp, h.mapPos]
    obtain ⟨m, hstore, hm, hheld⟩ := h.holds.store (by rw [h.length]; exact h.lt hp) p
    rw [hstore]
    refine ⟨_, rfl, ⟨hm.trans h.length, hheld, ?_, ?_⟩, rfl⟩
    · rw [List.length_append]
      rfl
    exact List.nodup_append.mpr ⟨h.nodup, List.nodup_singleton p, fun q hq r hr ↦ by
      rw [List.mem_singleton.mp hr]
      exact ne_of_mem_of_not_mem hq hp⟩

/-- One entry. -/
theorem mentionEntry_spec (h : Built b ps) (e : Entry) :
    ∃ b', e.project.elim (some b) (fun p ↦ b.mention p e.disabled) = some b'
      ∧ Built b' ((e.project.map (·, e.disabled)).toList.foldl note (ps, b.state)).1
      ∧ b'.state = ((e.project.map (·, e.disabled)).toList.foldl note (ps, b.state)).2 := by
  cases e.project with
  | none => exact ⟨b, rfl, h, rfl⟩
  | some p => exact mention_spec h p e.disabled

/-- What is mentioned later does not count. -/
theorem foldl_note_of_mem {ms : List (Project × Bool)} {r : List Project × Option (Project → U32)}
    (h : ∀ m ∈ ms, m.1 ∈ r.1) : ms.foldl note r = r := by
  induction ms with
  | nil => rfl
  | cons m ms ih =>
    rw [List.foldl_cons, note, if_pos (h m List.mem_cons_self)]
    exact ih fun m' hm' ↦ h m' (List.mem_cons_of_mem _ hm')

/-- **The string is read within the buffers**, mention by mention. -/
theorem parseLoop_eq {fuel : ℕ} {s scratch : List U8} (hs : s ≠ []) (hfuel : s.length < fuel)
    (hlen : scratch.length = SCRATCH) (h : Built b ps) :
    ∃ b', parseLoop fuel s scratch b = some b'
      ∧ Built b' ((mentions s).foldl note (ps, b.state)).1
      ∧ b'.state = ((mentions s).foldl note (ps, b.state)).2 := by
  induction fuel generalizing s scratch b ps with
  | zero => exact absurd hfuel (Nat.not_lt_zero _)
  | succ fuel ih =>
    obtain ⟨scratch', hread, hlen'⟩ := readEntry_eq s hlen
    have hrest := length_rest_lt hs
    rw [parseLoop, hread, mentions_of_ne_nil hs, List.foldl_append]
    simp only [Option.bind_eq_bind, Option.bind_some]
    obtain ⟨b', hmention, hbuilt, hstate⟩ := mentionEntry_spec h (entryOf s)
    rw [hmention, Option.bind_some]
    generalize List.foldl note (ps, b.state) _ = r at hbuilt hstate ⊢
    by_cases hgo : b'.mapPos < PROJECT_COUNT ∧ (entryOf s).rest ≠ []
    · rw [if_pos hgo]
      have := ih hgo.2 (by omega) hlen' hbuilt
      rw [hstate] at this
      exact this
    · rw [if_neg hgo, foldl_note_of_mem]
      · exact ⟨b', rfl, hbuilt, hstate⟩
      · rcases not_and_or.mp hgo with hfull | hnil
        · exact fun m _ ↦ hbuilt.mem_of_full hfull m.1
        · rw [not_not.mp hnil, mentions_nil]
          exact List.forall_mem_nil _

/-! ## What is omitted -/

/-- The default index of a project. -/
def defaultIndex (p : Project) : ℕ := default_map.idxOf p

theorem defaultIndex_injective : Function.Injective defaultIndex := by
  have hall : ∀ p ∈ projects, ∀ q ∈ projects, defaultIndex p = defaultIndex q → p = q := by decide
  exact fun p q h ↦ hall p (mem_projects p) q (mem_projects q) h

theorem mem_default_map (p : Project) : p ∈ default_map := by cases p <;> decide

/-- Later in the default order. -/
theorem mem_drop_default_map {i : ℕ} {q : Project} (hp : default_map[i]? = some p) :
    q ∈ default_map.drop (i + 1) ↔ defaultIndex p < defaultIndex q := by
  have hall : ∀ i < PROJECT_COUNT, ∀ p ∈ projects, ∀ q ∈ projects, default_map[i]? = some p →
      (q ∈ default_map.drop (i + 1) ↔ defaultIndex p < defaultIndex q) := by decide
  exact hall i (List.getElem?_eq_some_iff.mp hp).1 p (mem_projects p) q (mem_projects q) hp

theorem moveUp_self (n : ℕ) (map : List Project) : moveUp n n map = some map := by
  cases n with
  | zero => rfl
  | succ n => rw [moveUp, if_neg (lt_irrefl _)]

/-- The elements are moved from the last one on. -/
theorem moveUp_eq (front : List Project) (x : Project) (mid : List Project) (y : Project)
    (back : List Project) :
    moveUp front.length (front.length + mid.length + 1) (front ++ x :: (mid ++ y :: back))
      = some (front ++ x :: x :: (mid ++ back)) := by
  induction mid using List.reverseRecOn generalizing y back with
  | nil =>
    have hstore : store (front ++ x :: y :: back) (front.length + 1) x
        = some (front ++ x :: x :: back) := by
      have := store_append (front ++ [x]) y x back
      rwa [List.length_append, List.append_assoc, List.append_assoc] at this
    rw [moveUp, if_pos (by omega), List.length_nil, Nat.add_zero, List.nil_append,
      List.getElem?_append_right le_rfl, Nat.sub_self, List.getElem?_cons_zero,
      Option.bind_eq_bind, Option.bind_some, hstore, Option.bind_eq_bind, Option.bind_some,
      moveUp_self]
    rfl
  | append_singleton mid z ih =>
    have hmap : front ++ x :: (mid ++ [z] ++ y :: back)
        = (front ++ x :: mid) ++ z :: y :: back := by
      simp
    have hlen : (front ++ x :: mid).length = front.length + (mid ++ [z]).length := by
      simp
    have hstore : store ((front ++ x :: mid) ++ z :: y :: back)
        (front.length + (mid ++ [z]).length + 1) z
          = some (front ++ x :: (mid ++ z :: z :: back)) := by
      simpa [Nat.add_assoc] using store_append (front ++ x :: mid ++ [z]) y z back
    rw [hmap, moveUp, if_pos (by omega), ← hlen, List.getElem?_append_right le_rfl, Nat.sub_self,
      List.getElem?_cons_zero, Option.bind_eq_bind, Option.bind_some, hlen, hstore,
      Option.bind_eq_bind, Option.bind_some, List.length_append, List.length_singleton,
      ← Nat.add_assoc, ih z (z :: back), List.append_assoc]
    rfl

/-- **A project that is omitted is put in** within the map. -/
theorem insertOmitted_spec (h : Built b ps) {i : ℕ} (hp : default_map[i]? = some p) :
    ∃ b', b.insertOmitted i = some b'
      ∧ Built b' (if p ∈ ps then ps else insert defaultIndex p ps) ∧ b'.state = b.state := by
  rw [Build.insertOmitted, hp, Option.bind_eq_bind, Option.bind_some, h.take]
  by_cases hmem : p ∈ ps
  · rw [if_pos hmem, if_pos hmem]
    exact ⟨b, rfl, h, rfl⟩
  rw [if_neg hmem, if_neg hmem]
  have hlt := h.lt hmem
  have hnodup : (insert defaultIndex p ps).Nodup :=
    (List.perm_orderedInsert _ p ps).nodup_iff.mpr (List.nodup_cons.mpr ⟨hmem, h.nodup⟩)
  have hlength : (insert defaultIndex p ps).length = ps.length + 1 :=
    List.orderedInsert_length _ ps p
  have hlater : ∀ q, decide (q ∈ default_map.drop (i + 1))
      = decide (defaultIndex p < defaultIndex q) := fun q ↦
    decide_eq_decide.mpr (mem_drop_default_map hp)
  have hlower : ∀ q ∈ ps.takeWhile fun q ↦ decide (¬defaultIndex p < defaultIndex q),
      decide (defaultIndex p < defaultIndex q) = false := by
    intro q hq
    have hnot := List.mem_takeWhile_imp hq
    rw [decide_eq_true_eq] at hnot
    exact decide_eq_false hnot
  have hhead := List.head?_dropWhile_not (fun q ↦ decide (¬defaultIndex p < defaultIndex q)) ps
  have hsplit := List.takeWhile_append_dropWhile
    (p := fun q ↦ decide (¬defaultIndex p < defaultIndex q)) (l := ps)
  rw [Insertion.insert, List.orderedInsert_eq_take_drop] at hnodup hlength ⊢
  simp only [hlater]
  generalize ps.takeWhile (fun q ↦ decide (¬defaultIndex p < defaultIndex q)) = lower at *
  generalize ps.dropWhile (fun q ↦ decide (¬defaultIndex p < defaultIndex q)) = higher at *
  subst hsplit
  obtain ⟨rest, hrest⟩ := h.holds
  have hmap := h.length
  rw [← hrest, List.length_append] at hmap
  cases higher with
  | nil =>
    have hfind : (lower ++ []).findIdx? (fun q ↦ decide (defaultIndex p < defaultIndex q))
        = none := by
      rw [List.append_nil]
      exact List.findIdx?_eq_none_iff.mpr hlower
    obtain ⟨m, hstore, hm, hheld⟩ := h.holds.store (by rw [h.length]; exact hlt) p
    rw [hfind, h.mapPos]
    dsimp only
    rw [hstore]
    rw [List.append_nil] at hheld
    exact ⟨_, rfl, ⟨hm.trans h.length, hheld, hlength.symm, hnodup⟩, rfl⟩
  | cons d higher =>
    have hfind : (lower ++ d :: higher).findIdx? (fun q ↦ decide (defaultIndex p < defaultIndex q))
        = some lower.length := by
      have hd : decide (defaultIndex p < defaultIndex d) = true := by
        simpa using of_decide_eq_false hhead
      rw [List.findIdx?_append, List.findIdx?_eq_none_iff.mpr hlower, List.findIdx?_cons, hd]
      simp
    -- the last element of the map is not yet in use
    obtain ⟨mid, y, hmid⟩ : ∃ mid y, higher ++ rest = mid ++ [y] := by
      rcases List.eq_nil_or_concat (higher ++ rest) with hnil | ⟨mid, y, hmid⟩
      · obtain ⟨-, rfl⟩ := List.append_eq_nil_iff.mp hnil
        rw [List.length_nil, Nat.add_zero] at hmap
        omega
      · exact ⟨mid, y, by rw [hmid, List.concat_eq_append]⟩
    have hmidlen := congrArg List.length hmid
    rw [List.length_append, List.length_append, List.length_singleton] at hmidlen
    rw [List.length_append, List.length_cons] at hmap hlt
    have hmove := moveUp_eq lower d mid y []
    have hplace : lower.length + mid.length + 1 = PROJECT_COUNT - 1 := by
      rw [PROJECT_COUNT] at hmap ⊢
      omega
    rw [← hmid, hplace, List.append_nil] at hmove
    have hmapeq : b.map = lower ++ d :: (higher ++ rest) := by
      rw [← hrest, List.append_assoc]
      rfl
    have hprefix : higher <+: mid := by
      have hmid' : mid <+: higher ++ rest := by
        rw [hmid]
        exact List.prefix_append _ _
      refine List.prefix_of_prefix_length_le (List.prefix_append _ rest) hmid' ?_
      rw [PROJECT_COUNT] at hmap hlt
      omega
    rw [hfind, hmapeq]
    dsimp only
    rw [hmove, Option.bind_eq_bind, Option.bind_some, store_append, Option.bind_some]
    refine ⟨_, rfl, ⟨?_, ?_, ?_, hnodup⟩, rfl⟩
    · dsimp only
      rw [List.length_append, List.length_cons, List.length_cons]
      rw [PROJECT_COUNT] at hplace ⊢
      omega
    · obtain ⟨tail, htail⟩ := hprefix
      exact ⟨tail, by rw [← htail]; simp⟩
    · rw [hlength, h.mapPos]

/-- The omitted projects are put in one after the other. -/
theorem insertLoop_eq (is : List ℕ) (his : ∀ i ∈ is, i < PROJECT_COUNT) (h : Built b ps) :
    ∃ b', insertLoop is b = some b'
      ∧ Built b' (complete defaultIndex ps (is.filterMap (default_map[·]?)))
      ∧ b'.state = b.state := by
  induction is generalizing b ps with
  | nil => exact ⟨b, rfl, h, rfl⟩
  | cons i is ih =>
    have hlt : i < default_map.length := his i List.mem_cons_self
    have hget : default_map[i]? = some default_map[i] :=
      List.getElem?_eq_getElem hlt
    rw [insertLoop, List.filterMap_cons_some hget]
    by_cases hfull : b.mapPos < PROJECT_COUNT
    · obtain ⟨b₁, hinsert, hbuilt, hstate⟩ := insertOmitted_spec h hget
      obtain ⟨b₂, hloop, hbuilt', hstate'⟩ := ih (fun j hj ↦ his j (List.mem_cons_of_mem _ hj))
        hbuilt
      rw [if_pos hfull, hinsert, Option.bind_eq_bind, Option.bind_some]
      exact ⟨b₂, hloop, hbuilt', hstate'.trans hstate⟩
    · rw [if_neg hfull, complete_of_forall_mem fun q _ ↦ h.mem_of_full hfull q]
      exact ⟨b, rfl, h, rfl⟩

/-- With all projects in it, the map is full. -/
theorem Built.map_eq (h : Built b ps) (hall : ∀ p, p ∈ ps) : b.map = ps := by
  have hle := (List.subperm_of_subset nodup_projects fun p _ ↦ hall p).length_le
  exact (h.holds.eq_of_length_le (by rw [h.length]; exact hle)).symm

/-- **The builder stays within its buffers**, and this is what it builds. -/
theorem projectmapBuild_eq (map : List.Vector Project PROJECT_COUNT)
    (scratch : List.Vector U8 SCRATCH) (state : Option (Project → U32)) (s : List U8) :
    projectmapBuild map scratch state s
      = some (complete defaultIndex ((mentions s).foldl note ([], state)).1 default_map,
        ((mentions s).foldl note ([], state)).2) := by
  rw [projectmapBuild]
  by_cases hs : s = []
  · rw [if_pos hs, hs, mentions_nil]
    rfl
  · have hstart : Built ⟨map.1, 0, state⟩ [] := ⟨map.2, holds_nil _, rfl, List.nodup_nil⟩
    obtain ⟨b₁, hparse, hbuilt₁, hstate₁⟩ :=
      parseLoop_eq hs (Nat.lt_succ_self _) scratch.2 hstart
    obtain ⟨b₂, hinsert, hbuilt₂, hstate₂⟩ :=
      insertLoop_eq (List.range PROJECT_COUNT) (fun i hi ↦ List.mem_range.mp hi) hbuilt₁
    have horder : (List.range PROJECT_COUNT).filterMap (default_map[·]?) = default_map := by decide
    rw [horder] at hbuilt₂
    rw [if_neg hs, hparse, Option.bind_eq_bind, Option.bind_some, hinsert, Option.bind_some,
      hstate₂, hstate₁,
      hbuilt₂.map_eq fun p ↦ mem_complete.mpr (.inr (mem_default_map p))]

/-! ## The order -/

/-- **A right order**: all projects, those that are mentioned by their first mention, and the others
where the default order has them among those in front of and right behind them. -/
structure Ordered (ms map : List Project) : Prop where
  perm : map.Perm projects
  mentioned : map.filter (· ∈ ms) = ms.eraseDups
  omitted : ∀ p ∉ ms, Sits defaultIndex p map

/-- Each project counts at its first mention. -/
theorem foldl_note_fst (ms : List (Project × Bool)) (acc : List Project)
    (state : Option (Project → U32)) :
    (ms.foldl note (acc, state)).1
      = acc ++ ((ms.map Prod.fst).filter (· ∉ acc)).eraseDups := by
  induction ms generalizing acc state with
  | nil => simp
  | cons m ms ih =>
    rw [List.foldl_cons, note, List.map_cons]
    by_cases hm : m.1 ∈ acc
    · rw [if_pos hm, ih, List.filter_cons_of_neg (by simpa using hm)]
    · have hrest : (fun q ↦ decide (q ∉ acc ++ [m.1])) = fun q ↦ !q == m.1 && decide (q ∉ acc) := by
        funext q
        rw [Bool.eq_iff_iff]
        simp [and_comm]
      rw [if_neg hm, ih, List.filter_cons_of_pos (by simpa using hm), List.eraseDups_cons,
        List.append_assoc, List.filter_filter, hrest]
      rfl

theorem nodup_eraseDups : (ms : List Project) → ms.eraseDups.Nodup
  | [] => List.nodup_nil
  | p :: ms => by
    rw [List.eraseDups_cons]
    refine List.nodup_cons.mpr ⟨fun h ↦ ?_, nodup_eraseDups _⟩
    simpa using List.mem_eraseDups.mp h
termination_by ms => ms.length
decreasing_by exact Nat.lt_succ_of_le (List.length_filter_le _ _)

theorem eraseDups_of_nodup {ms : List Project} (h : ms.Nodup) : ms.eraseDups = ms := by
  induction ms with
  | nil => rfl
  | cons p ms ih =>
    obtain ⟨hp, h⟩ := List.nodup_cons.mp h
    rw [List.eraseDups_cons, List.filter_eq_self.mpr, ih h]
    intro q hq
    rw [Bool.not_eq_true', beq_eq_false_iff_ne]
    exact ne_of_mem_of_not_mem hq hp

/-- What is kept of a list that has grown is the list. -/
theorem filter_of_sublist {xs ys : List Project} (h : List.Sublist xs ys) (hys : ys.Nodup) :
    ys.filter (· ∈ xs) = xs := by
  have hsub := h.filter (· ∈ xs)
  rw [List.filter_eq_self.mpr fun p hp ↦ decide_eq_true hp] at hsub
  refine (hsub.eq_of_length_le (List.subperm_of_subset (hys.filter _) fun p hp ↦ ?_).length_le).symm
  exact of_decide_eq_true (List.mem_filter.mp hp).2

theorem ordered_complete (ms : List Project) :
    Ordered ms (complete defaultIndex ms.eraseDups default_map) := by
  have hnodup : (complete defaultIndex ms.eraseDups default_map).Nodup :=
    nodup_complete (nodup_eraseDups ms)
  have hall : ∀ p, p ∈ complete defaultIndex ms.eraseDups default_map := fun p ↦
    mem_complete.mpr (.inr (mem_default_map p))
  refine ⟨(List.perm_ext_iff_of_nodup hnodup nodup_projects).mpr fun p ↦
    iff_of_true (hall p) (mem_projects p), ?_, fun p hp ↦ ?_⟩
  · have := filter_of_sublist sublist_complete hnodup
    simpa only [List.mem_eraseDups] using this
  · refine sits_complete defaultIndex_injective (by decide) (hall p) fun h ↦ hp ?_
    exact List.mem_eraseDups.mp h

/-! ## Written and read again -/

section RoundTrip

variable {supported : Project → Bool} {state : Option (Project → U32)}

/-- What is written for a project. -/
def entryText (state : Option (Project → U32)) (p : Project) : List U8 :=
  projectGetName p ++ if userDisabled state p then [EQUALS, ZERO] else []

/-- An entry behind the others. -/
def appendEntry (state : Option (Project → U32)) (t : List U8) (p : Project) : List U8 :=
  t ++ ((if t ≠ [] then [COMMA] else []) ++ entryText state p)

theorem entryText_ne_nil (state : Option (Project → U32)) (p : Project) : entryText state p ≠ [] :=
  fun h ↦ projectGetName_ne_nil p (List.append_eq_nil_iff.mp h).1

theorem zero_notMem_entryText (state : Option (Project → U32)) (p : Project) :
    0#8 ∉ entryText state p := by
  rw [entryText]
  cases userDisabled state p <;> cases p <;> decide

theorem length_entryText_le (state : Option (Project → U32)) (p : Project) :
    (entryText state p).length ≤ 8 := by
  rw [entryText]
  cases userDisabled state p <;> cases p <;> decide

/-- **The string is written within its buffer.** -/
theorem expandLoop_eq (supported : Project → Bool) (state : Option (Project → U32))
    (map : List Project) {buffer t : List U8} (hlen : buffer.length = EXPANDED)
    (hheld : Memory.Holds buffer (t ++ [0#8])) (ht : 0#8 ∉ t)
    (hroom : t.length + 9 * map.length < EXPANDED) :
    ∃ buffer', expandLoop supported state map buffer = some buffer'
      ∧ Memory.Holds buffer' ((map.filter supported).foldl (appendEntry state) t ++ [0#8])
      ∧ 0#8 ∉ (map.filter supported).foldl (appendEntry state) t := by
  induction map generalizing buffer t with
  | nil => exact ⟨buffer, rfl, hheld, ht⟩
  | cons p map ih =>
    rw [List.length_cons] at hroom
    rw [expandLoop]
    cases hp : supported p with
    | false =>
      rw [if_neg Bool.false_ne_true, List.filter_cons_of_neg (by rw [hp]; decide)]
      exact ih hlen hheld ht (by omega)
    | true =>
      have hcomma : (if t ≠ [] then [COMMA] else []).length ≤ 1 := by split_ifs <;> decide
      have hentry := length_entryText_le state p
      have hnul := zero_notMem_entryText state p
      rw [entryText, List.length_append] at hentry
      rw [entryText] at hnul
      have hnul₁ : 0#8 ∉ t ++ (if t ≠ [] then [COMMA] else []) := by
        intro hmem
        rcases List.mem_append.mp hmem with hmem | hmem
        · exact ht hmem
        · split_ifs at hmem
          · exact absurd hmem (by decide)
          · cases hmem
      have hnul₂ : 0#8 ∉ t ++ (if t ≠ [] then [COMMA] else []) ++ projectGetName p := fun hmem ↦
        (List.mem_append.mp hmem).elim hnul₁ fun h ↦ hnul (List.mem_append_left _ h)
      obtain ⟨m₁, hcat₁, hm₁, hheld₁⟩ := strcat_of_lt hheld ht
        (s := if t ≠ [] then [COMMA] else []) (by omega)
      obtain ⟨m₂, hcat₂, hm₂, hheld₂⟩ := strcat_of_lt hheld₁ hnul₁
        (s := projectGetName p) (by rw [List.length_append]; omega)
      obtain ⟨m₃, hcat₃, hm₃, hheld₃⟩ := strcat_of_lt hheld₂ hnul₂
        (s := if userDisabled state p then [EQUALS, ZERO] else [])
        (by rw [List.length_append, List.length_append]; omega)
      have hnew : t ++ (if t ≠ [] then [COMMA] else []) ++ projectGetName p
          ++ (if userDisabled state p then [EQUALS, ZERO] else []) = appendEntry state t p := by
        rw [appendEntry, entryText]
        simp only [List.append_assoc]
      rw [hnew] at hheld₃
      have hnul₃ : 0#8 ∉ appendEntry state t p := by
        rw [← hnew]
        exact fun hmem ↦ (List.mem_append.mp hmem).elim hnul₂ fun h ↦
          hnul (List.mem_append_right _ h)
      have hlength : (appendEntry state t p).length ≤ t.length + 9 := by
        rw [appendEntry, List.length_append, List.length_append, entryText, List.length_append]
        omega
      rw [if_pos rfl, cstr_of_holds hheld ht, List.filter_cons_of_pos hp, List.foldl_cons]
      simp only [Option.bind_eq_bind, Option.bind_some, hcat₁, hcat₂, hcat₃]
      exact ih (by rw [hm₃, hm₂, hm₁, hlen]) hheld₃ hnul₃ (by omega)

/-- What `projectmap_expand` writes. -/
theorem projectmapExpand_eq (buffer : List.Vector U8 EXPANDED) (map : Order) :
    projectmapExpand supported buffer (some map.1) state
      = some ((map.1.filter supported).foldl (appendEntry state) []) := by
  obtain ⟨m, hstore, hm, hheld⟩ := (holds_nil buffer.1).store
    (by rw [List.length_nil, buffer.2]; decide) 0#8
  obtain ⟨m', hexpand, hheld', hnul⟩ := expandLoop_eq supported state map.1
    (hm.trans buffer.2) hheld List.not_mem_nil
    (by rw [map.2.length_eq, length_projects]; decide)
  rw [projectmapExpand]
  rw [List.length_nil] at hstore
  simp only [Option.getD_some, Option.bind_eq_bind, hstore, Option.bind_some, hexpand]
  exact cstr_of_holds hheld' hnul

theorem foldl_appendEntry {t : List U8} (ht : t ≠ []) (ps : List Project) :
    ps.foldl (appendEntry state) t = t ++ ps.flatMap fun p ↦ COMMA :: entryText state p := by
  induction ps generalizing t with
  | nil => exact (List.append_nil t).symm
  | cons p ps ih =>
    have hstep : appendEntry state t p = t ++ COMMA :: entryText state p := by
      rw [appendEntry, if_pos ht]
      rfl
    rw [List.foldl_cons, hstep, ih (List.append_ne_nil_of_left_ne_nil ht _), List.flatMap_cons,
      List.append_assoc]

/-- **A written entry is read back**, whatever comes behind the comma. -/
theorem entryOf_entryText (state : Option (Project → U32)) (p : Project) {tail : List U8}
    (htail : tail = [] ∨ ∃ s, tail = COMMA :: s) :
    entryOf (entryText state p ++ tail) = ⟨some p, userDisabled state p, tail⟩ := by
  -- the name is the word, since no word goes on behind it
  have hword : ∀ x : List U8, (∀ c ∈ x.head?, isword c = false ∧ isspace c = false) →
      entryOf (projectGetName p ++ x)
        = { project := if (readValue (projectGetName p).length x).2.takeWhile (!isend ·) = [] then
              some p else none
            disabled := (readValue (projectGetName p).length x).1
            rest := (readValue (projectGetName p).length x).2.dropWhile (!isend ·) } := by
    intro x hx
    have hskip : (projectGetName p ++ x).dropWhile (!isalnum ·) = projectGetName p ++ x := by
      cases p <;> rfl
    have hnil : x.takeWhile isword = [] := by
      cases x with
      | nil => rfl
      | cons c cs =>
        exact List.takeWhile_cons_of_neg (by rw [(hx c rfl).1]; exact Bool.false_ne_true)
    have hspace : x.dropWhile isspace = x := by
      cases x with
      | nil => rfl
      | cons c cs =>
        exact List.dropWhile_cons_of_neg (by rw [(hx c rfl).2]; exact Bool.false_ne_true)
    have hall : ∀ c ∈ projectGetName p, isword c = true := by cases p <;> decide
    have hupper : (projectGetName p).map toupper = projectGetName p := by cases p <;> decide
    have hfind : projects.find? (projectGetName · == projectGetName p) = some p := by
      cases p <;> decide
    have hlen : (projectGetName p).length ≤ SCRATCH - 2 :=
      (length_projectGetName_le p).trans (by decide)
    rw [entryOf, hskip, List.takeWhile_append_of_pos hall, hnil, List.append_nil,
      List.take_of_length_le hlen, List.drop_left, hspace, hupper, hfind]
  have hpos : (projectGetName p).length ≠ 0 := fun h ↦
    projectGetName_ne_nil p (List.eq_nil_of_length_eq_zero h)
  have hhead : ∀ c ∈ tail.head?, c = COMMA := by
    intro c hc
    rcases htail with rfl | ⟨s, rfl⟩
    · cases hc
    · exact (Option.some.inj hc).symm
  have hjunk : tail.takeWhile (!isend ·) = [] ∧ tail.dropWhile (!isend ·) = tail := by
    rcases htail with rfl | ⟨s, rfl⟩ <;> exact ⟨rfl, rfl⟩
  rw [entryText, List.append_assoc]
  cases userDisabled state p with
  | false =>
    rw [if_neg Bool.false_ne_true, List.nil_append, hword tail fun c hc ↦ by
        rw [hhead c hc]
        decide,
      readValue_of_not fun c hc ↦ by
        rw [hhead c hc]
        decide]
    dsimp only
    rw [hjunk.1, hjunk.2, if_pos rfl]
  | true =>
    have hvalue : readValue (projectGetName p).length ([EQUALS, ZERO] ++ tail) = (true, tail) := by
      rw [readValue, if_pos ⟨hpos, EQUALS, rfl, .inr rfl⟩]
      rcases htail with rfl | ⟨s, rfl⟩ <;> rfl
    rw [if_pos rfl, hword ([EQUALS, ZERO] ++ tail) fun c hc ↦ by
        rw [← Option.some.inj hc]
        decide,
      hvalue]
    dsimp only
    rw [hjunk.1, hjunk.2, if_pos rfl]

theorem mentions_comma {s : List U8} (hs : s ≠ []) : mentions (COMMA :: s) = mentions s := by
  have hentry : entryOf (COMMA :: s) = entryOf s := rfl
  rw [mentions_of_ne_nil (List.cons_ne_nil _ _), mentions_of_ne_nil hs, hentry]

theorem mentions_entryText (p : Project) (ps : List Project) :
    mentions (entryText state p ++ ps.flatMap fun p ↦ COMMA :: entryText state p)
      = (p :: ps).map fun p ↦ (p, userDisabled state p) := by
  induction ps generalizing p with
  | nil =>
    rw [mentions_of_ne_nil (List.append_ne_nil_of_left_ne_nil (entryText_ne_nil state p) _),
      List.flatMap_nil, entryOf_entryText state p (.inl rfl), mentions_nil]
    rfl
  | cons q ps ih =>
    rw [mentions_of_ne_nil (List.append_ne_nil_of_left_ne_nil (entryText_ne_nil state p) _),
      List.flatMap_cons, List.cons_append, entryOf_entryText state p (.inr ⟨_, rfl⟩),
      mentions_comma (List.append_ne_nil_of_left_ne_nil (entryText_ne_nil state q) _), ih]
    rfl

/-- **What is written is mentioned**, project by project. -/
theorem mentions_expanded (ps : List Project) :
    mentions (ps.foldl (appendEntry state) []) = ps.map fun p ↦ (p, userDisabled state p) := by
  cases ps with
  | nil => exact mentions_nil
  | cons p ps =>
    have hfirst : appendEntry state [] p = entryText state p := rfl
    rw [List.foldl_cons, hfirst, foldl_appendEntry (entryText_ne_nil state p), mentions_entryText]

/-! ## The states -/

theorem setDisabled_of_ne {q : Project} (h : p ≠ q) (disabled : Bool) (st : Project → U32) :
    setDisabled disabled q st p = st p := Function.update_of_ne h _ _

theorem setDisabled_self (disabled : Bool) (p : Project) (st : Project → U32) :
    setDisabled disabled p st p = if disabled then st p ||| PROJECTSTATE_USER_DISABLED
      else st p &&& ~~~PROJECTSTATE_USER_DISABLED := Function.update_self _ _ _

/-- Later mentions of other projects leave a state. -/
theorem foldl_setDisabled_of_not {ms : List (Project × Bool)} (hp : ∀ m ∈ ms, m.1 ≠ p)
    (st : Project → U32) : ms.foldl (fun st m ↦ setDisabled m.2 m.1 st) st p = st p := by
  induction ms generalizing st with
  | nil => rfl
  | cons m ms ih =>
    rw [List.foldl_cons, ih (fun m' hm' ↦ hp m' (List.mem_cons_of_mem _ hm')),
      setDisabled_of_ne (hp m List.mem_cons_self).symm]

theorem foldl_setDisabled_of_mem {ps : List Project} (hnodup : ps.Nodup) (hp : p ∈ ps)
    (disabled : Project → Bool) (st : Project → U32) :
    (ps.map fun p ↦ (p, disabled p)).foldl (fun st m ↦ setDisabled m.2 m.1 st) st p
      = setDisabled (disabled p) p st p := by
  induction ps generalizing st with
  | nil => cases hp
  | cons q ps ih =>
    obtain ⟨hq, hnodup⟩ := List.nodup_cons.mp hnodup
    rw [List.map_cons, List.foldl_cons]
    by_cases hpq : p = q
    · subst hpq
      rw [foldl_setDisabled_of_not]
      intro m hm hmp
      obtain ⟨r, hr, rfl⟩ := List.mem_map.mp hm
      exact hq (hmp ▸ hr)
    · rw [ih hnodup ((List.mem_cons.mp hp).resolve_left hpq), setDisabled_self, setDisabled_self,
        setDisabled_of_ne hpq]

/-- With no project mentioned twice, every mention sets a state. -/
theorem foldl_note_snd {ms : List (Project × Bool)} (hnodup : (ms.map Prod.fst).Nodup)
    {acc : List Project} (hacc : ∀ m ∈ ms, m.1 ∉ acc) (st : Project → U32) :
    (ms.foldl note (acc, some st)).2 = some (ms.foldl (fun st m ↦ setDisabled m.2 m.1 st) st) := by
  induction ms generalizing acc st with
  | nil => rfl
  | cons m ms ih =>
    rw [List.map_cons, List.nodup_cons] at hnodup
    rw [List.foldl_cons, List.foldl_cons, note, if_neg (hacc m List.mem_cons_self),
      Option.map_some]
    refine ih hnodup.2 (fun m' hm' hmem ↦ ?_) _
    rcases List.mem_append.mp hmem with hmem | hmem
    · exact hacc m' (List.mem_cons_of_mem _ hm') hmem
    · rw [List.mem_singleton] at hmem
      exact hnodup.1 (hmem ▸ List.mem_map_of_mem hm')

/-- The bit of the user is set to what it is in the other state, and no other bit. -/
theorem setDisabled_userDisabled (st₀ st : Project → U32) (p : Project) :
    setDisabled (userDisabled (some st) p) p st₀ p
      = st₀ p &&& ~~~PROJECTSTATE_USER_DISABLED ||| st p &&& PROJECTSTATE_USER_DISABLED := by
  rw [setDisabled_self, userDisabled, Option.any_some]
  have hbit : st p &&& PROJECTSTATE_USER_DISABLED = 0#32
      ∨ st p &&& PROJECTSTATE_USER_DISABLED = 1#32 := by
    rw [PROJECTSTATE_USER_DISABLED]
    have := BitVec.and_one_eq_setWidth_ofBool_getLsbD (x := st p)
    rw [this]
    cases (st p).getLsbD 0 <;> decide
  rcases hbit with hbit | hbit
  · rw [hbit, if_neg (by decide), BitVec.or_zero]
  · rw [hbit, if_pos (by decide), PROJECTSTATE_USER_DISABLED]
    ext i hi
    simp only [BitVec.getElem_or, BitVec.getElem_and, BitVec.getElem_not]
    cases (1#32 : U32)[i] <;> simp

/-- An order that is expanded and built again. -/
theorem rebuilt (buffer : List.Vector U8 EXPANDED) (order : Order) (st st₀ : Project → U32)
    (map : List.Vector Project PROJECT_COUNT) (scratch : List.Vector U8 SCRATCH) :
    ∃ s built, projectmapExpand supported buffer (some order.1) (some st) = some s
      ∧ projectmapBuild map scratch (some st₀) s = some built
      ∧ built.1.filter supported = order.1.filter supported
      ∧ built.2 = some fun p ↦ if supported p then
          st₀ p &&& ~~~PROJECTSTATE_USER_DISABLED ||| st p &&& PROJECTSTATE_USER_DISABLED
        else st₀ p := by
  have hnodup : (order.1.filter supported).Nodup :=
    (order.2.nodup_iff.mpr nodup_projects).filter _
  have hfst : ((order.1.filter supported).map fun p ↦
      (p, userDisabled (some st) p)).map Prod.fst = order.1.filter supported := by
    rw [List.map_map]
    exact List.map_id _
  have hmem : ∀ p, p ∈ order.1.filter supported ↔ supported p = true := fun p ↦
    List.mem_filter.trans (and_iff_right (order.2.mem_iff.mpr (mem_projects p)))
  refine ⟨_, _, projectmapExpand_eq buffer order, projectmapBuild_eq map scratch (some st₀) _, ?_,
    ?_⟩
  · dsimp only
    rw [mentions_expanded, foldl_note_fst, hfst, List.nil_append,
      List.filter_eq_self.mpr fun p _ ↦ decide_eq_true List.not_mem_nil]
    have hkept := (ordered_complete (order.1.filter supported)).mentioned
    rw [eraseDups_of_nodup hnodup] at hkept ⊢
    refine Eq.trans (List.filter_congr fun p _ ↦ ?_) hkept
    rw [Bool.eq_iff_iff, decide_eq_true_iff, hmem p]
  · dsimp only
    rw [mentions_expanded, foldl_note_snd (by rw [hfst]; exact hnodup) fun _ _ ↦ List.not_mem_nil]
    refine congrArg some (funext fun p ↦ ?_)
    cases hp : supported p with
    | true =>
      rw [if_pos rfl, foldl_setDisabled_of_mem hnodup ((hmem p).mpr hp)
        (userDisabled (some st)) st₀, setDisabled_userDisabled]
    | false =>
      rw [if_neg Bool.false_ne_true, foldl_setDisabled_of_not]
      intro m hm hmp
      obtain ⟨q, hq, rfl⟩ := List.mem_map.mp hm
      rw [← hmp, (hmem q).mp hq] at hp
      cases hp

end RoundTrip

/-! ## Both together -/

/-- **`projectmap_build` makes a right order of every string**, within its buffers, and what
`projectmap_expand` has written is built again. -/
theorem projectmap_exact (supported : Project → Bool) (map : List.Vector Project PROJECT_COUNT)
    (scratch : List.Vector U8 SCRATCH) (buffer : List.Vector U8 EXPANDED) :
    (∀ (str : CString) (state : Option (Project → U32)), ∃ built,
      projectmapBuild map scratch state str.1 = some built
        ∧ Ordered ((mentions str.1).map Prod.fst) built.1)
    ∧ ∀ (order : Order) (st st₀ : Project → U32), ∃ s built,
      projectmapExpand supported buffer (some order.1) (some st) = some s
        ∧ projectmapBuild map scratch (some st₀) s = some built
        ∧ built.1.filter supported = order.1.filter supported
        ∧ built.2 = some fun p ↦ if supported p then
            st₀ p &&& ~~~PROJECTSTATE_USER_DISABLED ||| st p &&& PROJECTSTATE_USER_DISABLED
          else st₀ p := by
  refine ⟨fun str state ↦ ⟨_, projectmapBuild_eq map scratch state str.1, ?_⟩,
    fun order st st₀ ↦ rebuilt buffer order st st₀ map scratch⟩
  dsimp only
  rw [foldl_note_fst, List.nil_append,
    List.filter_eq_self.mpr fun p _ ↦ decide_eq_true List.not_mem_nil]
  exact ordered_complete _

end Hyunjin.Conf
