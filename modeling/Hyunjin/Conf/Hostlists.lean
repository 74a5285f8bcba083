import Hyunjin.Conf.Hostnames

/-!
# Lists of hosts that are read back

What has been written for a list of hosts and a port is a list of words, and each is read as it is,
but for a literal that begins with a colon. What is left of that is shorter, so that there is room
for it, and has no bracket at its end.
-/

namespace Hyunjin.Conf

open Memory
open Net (tolower)

/-! ## Hosts -/

/-- A host of a list: a name, or a literal in brackets, and a port, which is 0 if there is none. The
name is in lower case, and is none that stands for something else. -/
structure Host where
  literal : Bool
  name : List U8
  port : ℕ
  port_lt : port < 0xffff
  chars : ∀ c ∈ name, c ≠ 0#8 ∧ isSeparator c = false ∧ c ≠ LBRACKET ∧ c ≠ RBRACKET
  plain : literal = false → name ≠ [] ∧ (∀ c ∈ name, c ≠ COLON ∧ isupper c = false)
    ∧ ¬IsDefault name ∧ ¬(20 < name.length ∧ V27 <:+ name)

namespace Host

/-- The host as it is written. -/
def text (h : Host) : List U8 :=
  (if h.literal then LBRACKET :: (h.name ++ [RBRACKET]) else h.name) ++ withPort h.port

/-- The host is a literal that begins with a colon, such as `[::1]`. -/
def Colon (h : Host) : Prop := h.literal = true ∧ h.name.head? = some COLON

instance (h : Host) : Decidable h.Colon := inferInstanceAs (Decidable (_ ∧ _))

/-- The word that is read: literals are read in lower case. -/
def word (h : Host) : List U8 := h.text.map tolower

end Host

/-- A list of hosts. -/
def hostsText (hosts : List Host) : List U8 := joined (hosts.map Host.text)

/-! ## A port -/

theorem portOf_decimal {n : ℕ} (h : n < 0xffff) : portOf (decimal n) = n := by
  have hint : (BitVec.ofInt 32 (n : ℤ)).toInt = n := by
    rw [BitVec.toInt_ofInt, Int.bmod_eq_of_le (by omega) (by omega)]
  rw [portOf, atoi_decimal (h.trans (by decide)), hint, BitVec.toNat_ofInt]
  split_ifs <;> omega

theorem map_tolower {s : List U8} (h : ∀ c ∈ s, isupper c = false) : s.map tolower = s := by
  refine (List.map_congr_left fun c hc ↦ ?_).trans (List.map_id s)
  rw [tolower, h c hc]
  rfl

theorem digit_chars {c : U8} (h : IsDigit c) : isupper c = false ∧ isSeparator c = false
    ∧ c ≠ SEMICOLON ∧ c ≠ RBRACKET ∧ c ≠ 116#8 := by
  rw [← isDigit_iff] at h
  revert h
  revert c
  decide

theorem withPort_chars (port : ℕ) : ∀ c ∈ withPort port, isupper c = false ∧ isSeparator c = false
    ∧ c ≠ SEMICOLON ∧ c ≠ RBRACKET ∧ c ≠ 116#8 := by
  rw [withPort]
  split_ifs
  · rw [List.forall_mem_cons]
    exact ⟨by decide, fun c hc ↦ digit_chars (isDigit_of_mem_decimal hc)⟩
  · exact List.forall_mem_nil _

theorem colonPos_append {s : List U8} (hs : ∀ c ∈ s, c ≠ COLON ∧ c ≠ LBRACKET) (t : List U8)
    (ht : t = [] ∨ t.head? = some COLON) : colonPos (s ++ t) = s.length := by
  induction s with
  | nil =>
    rcases ht with rfl | ht
    · rfl
    · cases t with
      | nil => rfl
      | cons c t =>
        rw [List.head?_cons, Option.some.injEq] at ht
        rw [List.nil_append, colonPos, if_pos ht]
        rfl
  | cons c s ih =>
    obtain ⟨hc, hs⟩ := List.forall_mem_cons.mp hs
    rw [List.cons_append, colonPos, if_neg hc.1, if_neg hc.2, ih hs, List.length_cons]

/-- A name and its port are told apart. -/
theorem name_and_port {s : List U8} (hs : ∀ c ∈ s, c ≠ COLON ∧ c ≠ LBRACKET) {port : ℕ}
    (hport : port < 0xffff) :
    nameOf (s ++ withPort port) = s ∧ portIn (s ++ withPort port) = port := by
  rw [nameOf, portIn, withPort]
  by_cases hzero : port ≠ 0
  · rw [if_pos hzero, colonPos_append hs _ (.inr rfl), List.getElem?_append_right (Nat.le_refl _),
      Nat.sub_self, List.getElem?_cons_zero, if_pos rfl, if_pos rfl, List.take_left,
      ← List.drop_drop, List.drop_left, List.drop_one, List.tail_cons, portOf_decimal hport]
    exact ⟨rfl, rfl⟩
  · rw [if_neg hzero, colonPos_append hs _ (.inl rfl), List.append_nil,
      List.getElem?_eq_none (Nat.le_refl _), if_neg (by decide), if_neg (by decide)]
    exact ⟨rfl, (not_ne_iff.mp hzero).symm⟩

/-! ## Words -/

namespace Host

variable (h : Host)

theorem word_of_name (hname : h.literal = false) : h.word = h.name ++ withPort h.port := by
  rw [word, text, hname, if_neg Bool.false_ne_true, List.map_append,
    map_tolower fun c hc ↦ ((h.plain hname).2.1 c hc).2,
    map_tolower fun c hc ↦ (withPort_chars _ c hc).1]

theorem word_of_literal (hliteral : h.literal = true) :
    h.word = LBRACKET :: (h.name.map tolower ++ RBRACKET :: withPort h.port) := by
  rw [word, text, hliteral, if_pos rfl, List.map_append,
    map_tolower fun c hc ↦ (withPort_chars _ c hc).1, List.map_cons, List.map_append,
    List.cons_append, List.append_assoc]
  rfl

/-- The end of a literal is not that of an old name. -/
theorem not_suffix_of_literal (hliteral : h.literal = true) : ¬V27 <:+ h.word := by
  have hend : ∀ (s : List U8) (c : U8), c ≠ 116#8 → ¬V27 <:+ s ++ [c] := by
    intro s c hc hsuffix
    rcases List.suffix_concat_iff.mp hsuffix with hnil | ⟨t, ht, -⟩
    · exact absurd hnil (by decide)
    · have hlast : V27 = V27.dropLast ++ [116#8] := rfl
      exact hc (List.singleton_inj.mp (List.append_inj_right' (ht.symm.trans hlast) rfl))
  rw [h.word_of_literal hliteral]
  rcases List.eq_nil_or_concat' (withPort h.port) with hnil | ⟨ds, d, hds⟩
  · rw [hnil, ← List.cons_append]
    exact hend _ _ (by decide)
  · have hd := withPort_chars h.port d (by rw [hds]; exact List.mem_append_right _ (by simp))
    have hlast : LBRACKET :: (h.name.map tolower ++ RBRACKET :: (ds ++ [d]))
        = LBRACKET :: (h.name.map tolower ++ RBRACKET :: ds) ++ [d] := by
      rw [List.cons_append, List.append_assoc, List.cons_append]
    rw [hds, hlast]
    exact hend _ _ hd.2.2.2.2

theorem colonPos_of_literal (hliteral : h.literal = true) : colonPos h.word = 1 := by
  rw [h.word_of_literal hliteral, colonPos, if_neg (by decide), if_pos rfl]

/-- What is looked at behind the bracket of a literal. -/
theorem colon_iff (hliteral : h.literal = true) :
    h.word[colonPos h.word]? = some COLON ↔ h.Colon := by
  have hlower : ∀ c, tolower c = COLON ↔ c = COLON := by decide
  have hother : (RBRACKET :: withPort h.port)[0]? ≠ some COLON := by
    rw [List.getElem?_cons_zero]
    decide
  rw [Colon, h.colonPos_of_literal hliteral, h.word_of_literal hliteral, List.getElem?_cons_succ,
    and_iff_right hliteral]
  cases h.name with
  | nil => exact iff_of_false hother (by decide)
  | cons c name =>
    rw [List.map_cons, List.cons_append, List.getElem?_cons_zero, List.head?_cons,
      Option.some.injEq, Option.some.injEq, hlower]

/-- The name of a host that is one. -/
theorem name_chars (hname : h.literal = false) : ∀ c ∈ h.name, c ≠ COLON ∧ c ≠ LBRACKET :=
  fun c hc ↦ ⟨((h.plain hname).2.1 c hc).1, (h.chars c hc).2.2.1⟩

/-- **A word is read as it is** unless it is a literal that begins with a colon. -/
theorem hostText_word : hostText h.word = h.word ↔ ¬h.Colon := by
  cases hliteral : h.literal with
  | false =>
    obtain ⟨hnameOf, hportIn⟩ := name_and_port (h.name_chars hliteral) h.port_lt
    refine iff_of_true ?_ fun hcolon ↦ ?_
    · rw [h.word_of_name hliteral, hostText, hnameOf, hportIn, updated,
        if_neg (h.plain hliteral).2.2.2]
    · exact absurd (hliteral.symm.trans hcolon.1) Bool.false_ne_true
  | true =>
    have hcut := h.colon_iff hliteral
    rw [hostText, nameOf, portIn]
    by_cases hcolon : h.Colon
    · rw [if_pos (hcut.mpr hcolon), if_pos (hcut.mpr hcolon)]
      refine iff_of_false (fun heq ↦ ?_) fun hnot ↦ hnot hcolon
      have hmem : RBRACKET ∈ h.word := by
        rw [h.word_of_literal hliteral]
        exact List.mem_cons_of_mem _ (List.mem_append_right _ List.mem_cons_self)
      have htake : h.word.take (colonPos h.word) = [LBRACKET] := by
        rw [h.colonPos_of_literal hliteral, h.word_of_literal hliteral]
        rfl
      rw [← heq, htake] at hmem
      rcases List.mem_append.mp hmem with hname | hport
      · exact absurd hname (by decide)
      · exact (withPort_chars _ _ hport).2.2.2.1 rfl
    · rw [if_neg (mt hcut.mp hcolon), if_neg (mt hcut.mp hcolon), updated,
        if_neg fun hold ↦ h.not_suffix_of_literal hliteral hold.2]
      exact iff_of_true (List.append_nil _) hcolon

/-- A word stands for a host. -/
theorem nameOf_word : nameOf h.word ≠ [] ∧ ¬IsDefault (nameOf h.word) := by
  cases hliteral : h.literal with
  | false =>
    rw [h.word_of_name hliteral, (name_and_port (h.name_chars hliteral) h.port_lt).1]
    exact ⟨(h.plain hliteral).1, (h.plain hliteral).2.2.1⟩
  | true =>
    obtain ⟨t, ht⟩ : ∃ t, nameOf h.word = LBRACKET :: t := by
      rw [nameOf, h.colonPos_of_literal hliteral, h.word_of_literal hliteral]
      split_ifs
      · exact ⟨[], rfl⟩
      · exact ⟨_, rfl⟩
    rw [ht]
    refine ⟨List.cons_ne_nil _ _, ?_⟩
    rintro (hstar | hauto)
    · exact absurd (List.cons.inj hstar).1 (by decide)
    · exact absurd (List.cons.inj hauto).1 (by decide)

end Host

/-! ## Reading the words -/

/-- A word that a separator or nothing follows. -/
theorem words_append {w : List U8} (hne : w ≠ []) (hw : ∀ c ∈ w, isSeparator c = false)
    {rest : List U8} (hrest : ∀ c ∈ rest.head?, isSeparator c = true) (fuel : ℕ) :
    words (fuel + 1) (w ++ rest) = w :: words fuel rest := by
  have htake : ∀ c ∈ w, (!isSeparator c) = true := fun c hc ↦ by rw [hw c hc]; rfl
  have hstay : (w ++ rest).dropWhile isSeparator = w ++ rest := by
    cases w with
    | nil => exact absurd rfl hne
    | cons c w =>
      exact List.dropWhile_cons_of_neg (by rw [hw c List.mem_cons_self]; exact Bool.false_ne_true)
  have htail : rest.takeWhile (!isSeparator ·) = [] ∧ rest.dropWhile (!isSeparator ·) = rest := by
    cases rest with
    | nil => exact ⟨rfl, rfl⟩
    | cons c rest =>
      have hc := hrest c rfl
      exact ⟨List.takeWhile_cons_of_neg (by rw [hc]; decide),
        List.dropWhile_cons_of_neg (by rw [hc]; decide)⟩
  rw [words, if_neg (List.append_ne_nil_of_left_ne_nil hne _), hstay,
    List.takeWhile_append_of_pos htake, List.dropWhile_append_of_pos htake, htail.1, htail.2,
    List.append_nil]

theorem words_nil (fuel : ℕ) : words fuel [] = [] := by
  cases fuel <;> rfl

/-- A separator in front is gone over. -/
theorem words_separator {p : List U8} (hp : p ≠ []) (fuel : ℕ) :
    words fuel (SEMICOLON :: p) = words fuel p := by
  cases fuel with
  | zero => rfl
  | succ fuel =>
    rw [words, words, if_neg (List.cons_ne_nil _ _), if_neg hp,
      List.dropWhile_cons_of_pos (by decide)]

variable {a : Listed} {multiple : Bool} {size : ℕ}

theorem isPrefix_joined (xs ys : List (List U8)) : joined xs <+: joined (xs ++ ys) := by
  induction ys using List.reverseRecOn with
  | nil => rw [List.append_nil]
  | append_singleton ys y ih =>
    rw [← List.append_assoc, joined_concat, List.append_assoc]
    exact ih.trans (List.prefix_append _ _)

/-- **Hosts that there is room for** are kept. -/
theorem Listed.run_hosts (hosts : List Host) (hmultiple : multiple = true ∨ hosts.length ≤ 1)
    (hroom : (joined (a.hosts ++ hosts.map fun h ↦ hostText h.word)).length + 3 < size) :
    a.run multiple size (hosts.map Host.word)
      = { a with hosts := a.hosts ++ hosts.map fun h ↦ hostText h.word } := by
  induction hosts generalizing a with
  | nil =>
    rw [List.map_nil, List.map_nil, List.append_nil]
    rfl
  | cons h hosts ih =>
    have hassoc : a.hosts ++ (h :: hosts).map (fun h ↦ hostText h.word)
        = a.hosts ++ [hostText h.word] ++ hosts.map fun h ↦ hostText h.word := by
      rw [List.map_cons, List.append_assoc]
      rfl
    have hfits : ¬size ≤ (joined a.hosts).length + (hostText h.word).length + 3 := by
      rw [hassoc] at hroom
      have hle := (isPrefix_joined (a.hosts ++ [hostText h.word])
        (hosts.map fun h ↦ hostText h.word)).length_le
      rw [joined_concat, List.length_append, List.length_append] at hle
      omega
    have hnext : a.next multiple size h.word
        = ({ a with hosts := a.hosts ++ [hostText h.word] }, multiple) := by
      rw [Listed.next, if_neg h.nameOf_word.1, if_neg h.nameOf_word.2, if_neg hfits]
    rw [hassoc] at hroom ⊢
    rw [List.map_cons, Listed.run, hnext]
    dsimp only
    rcases hmultiple with rfl | hone
    · rw [if_pos rfl]
      exact ih (.inl rfl) hroom
    · obtain rfl : hosts = [] :=
        List.length_eq_zero_iff.mp (Nat.le_zero.mp (Nat.le_of_succ_le_succ hone))
      rw [List.map_nil, List.map_nil, List.append_nil]
      split_ifs <;> rfl

theorem Host.text_ne_nil (h : Host) : h.text ≠ [] := by
  rw [Host.text]
  refine List.append_ne_nil_of_left_ne_nil ?_ _
  cases hliteral : h.literal with
  | true => exact List.cons_ne_nil _ _
  | false => exact (h.plain hliteral).1

theorem Host.text_chars (h : Host) : ∀ c ∈ h.text, c ≠ 0#8 ∧ isSeparator c = false := by
  have hname : ∀ c ∈ h.name, c ≠ 0#8 ∧ isSeparator c = false := fun c hc ↦
    ⟨(h.chars c hc).1, (h.chars c hc).2.1⟩
  rw [Host.text, List.forall_mem_append]
  constructor
  · split_ifs
    · rw [List.forall_mem_cons, List.forall_mem_append, List.forall_mem_singleton]
      exact ⟨by decide, hname, by decide⟩
    · exact hname
  · exact fun c hc ↦ ⟨fun hzero ↦ nul_withPort _ (hzero ▸ hc), (withPort_chars _ c hc).2.1⟩

theorem hostsText_singleton (h : Host) : hostsText [h] = h.text := by
  rw [hostsText, List.map_singleton, joined, List.intercalate_singleton]

theorem hostsText_cons (h : Host) {hosts : List Host} (hne : hosts ≠ []) :
    hostsText (h :: hosts) = h.text ++ SEMICOLON :: hostsText hosts := by
  rw [hostsText, hostsText, List.map_cons, joined, joined,
    List.intercalate_cons_of_ne_nil (by rwa [ne_eq, List.map_eq_nil_iff]), List.append_assoc]
  rfl

theorem hostsText_ne_nil {hosts : List Host} (hne : hosts ≠ []) : hostsText hosts ≠ [] := by
  cases hosts with
  | nil => exact absurd rfl hne
  | cons h hosts =>
    by_cases hnil : hosts = []
    · subst hnil
      rw [hostsText_singleton]
      exact h.text_ne_nil
    · rw [hostsText_cons h hnil]
      exact List.append_ne_nil_of_left_ne_nil h.text_ne_nil _

/-- The words of a list are its hosts. -/
theorem words_hostsText (hosts : List Host) {fuel : ℕ} (hfuel : hosts.length ≤ fuel) :
    words fuel (hostsText hosts) = hosts.map Host.text := by
  induction hosts generalizing fuel with
  | nil => exact words_nil fuel
  | cons h hosts ih =>
    rw [List.length_cons] at hfuel
    obtain ⟨fuel, rfl⟩ := Nat.exists_eq_succ_of_ne_zero (Nat.ne_zero_of_lt hfuel)
    have hchars := fun c hc ↦ (h.text_chars c hc).2
    by_cases hnil : hosts = []
    · subst hnil
      rw [hostsText_singleton, List.map_singleton]
      have hnone : ∀ c ∈ ([] : List U8).head?, isSeparator c = true := by decide
      have hwords := words_append h.text_ne_nil hchars hnone fuel
      rwa [List.append_nil, words_nil] at hwords
    · have hsep : ∀ c ∈ (SEMICOLON :: hostsText hosts).head?, isSeparator c = true := by
        rw [List.head?_cons]
        decide
      rw [hostsText_cons h hnil, words_append h.text_ne_nil hchars hsep,
        words_separator (hostsText_ne_nil hnil), ih (Nat.le_of_succ_le_succ hfuel), List.map_cons]

theorem length_hosts_le (hosts : List Host) : hosts.length ≤ (hostsText hosts).length := by
  induction hosts with
  | nil => exact Nat.zero_le _
  | cons h hosts ih =>
    have hpos := List.length_pos_iff.mpr h.text_ne_nil
    by_cases hnil : hosts = []
    · subst hnil
      rw [hostsText_singleton]
      exact hpos
    · rw [hostsText_cons h hnil, List.length_append, List.length_cons, List.length_cons]
      omega

/-- The port for all is read. -/
theorem Listed.next_port {port : ℕ} (hport : port < 0xffff) :
    Listed.next multiple size ⟨[], 0⟩ ([ASTERISK] ++ withPort port) = (⟨[], port⟩, true) := by
  have hchars : ∀ c ∈ [ASTERISK], c ≠ COLON ∧ c ≠ LBRACKET := by decide
  obtain ⟨hname, hportIn⟩ := name_and_port hchars hport
  have hdefault : IsDefault [ASTERISK] := .inl rfl
  rw [Listed.next, hname, hportIn, if_neg (List.cons_ne_nil _ _), if_pos hdefault]
  rfl

/-- **What is read** of a port and a list. -/
theorem Listed.run_entry {port : ℕ} (hport : port < 0xffff) (hosts : List Host)
    (hmultiple : multiple = true ∨ hosts.length ≤ 1)
    (hroom : (joined (hosts.map fun h ↦ hostText h.word)).length + 3 < size) {fuel : ℕ}
    (hfuel : hosts.length + 1 < fuel) :
    Listed.run multiple size
      ((words fuel (portText port ++ hostsText hosts)).map (List.map tolower)) ⟨[], 0⟩
      = ⟨hosts.map fun h ↦ hostText h.word, port⟩ := by
  have hhosts : ∀ port, Listed.run multiple size (hosts.map Host.word) ⟨[], port⟩
      = ⟨hosts.map fun h ↦ hostText h.word, port⟩ := fun port ↦
    Listed.run_hosts hosts hmultiple hroom
  have hwords : ∀ fuel, hosts.length ≤ fuel →
      (words fuel (hostsText hosts)).map (List.map tolower) = hosts.map Host.word := by
    intro fuel hfuel
    rw [words_hostsText hosts hfuel, List.map_map]
    rfl
  rw [portText]
  by_cases hzero : port ≠ 0
  · rw [if_pos hzero]
    -- the port stands in front
    obtain ⟨fuel, rfl⟩ := Nat.exists_eq_succ_of_ne_zero (Nat.ne_zero_of_lt hfuel)
    have hfront : ASTERISK :: COLON :: (decimal port ++ [SEMICOLON]) ++ hostsText hosts
        = [ASTERISK] ++ withPort port ++ SEMICOLON :: hostsText hosts := by
      rw [withPort, if_pos hzero]
      simp only [List.cons_append, List.nil_append, List.append_assoc]
    have hchars : ∀ c ∈ [ASTERISK] ++ withPort port, isSeparator c = false := by
      rw [List.forall_mem_append, List.forall_mem_singleton]
      exact ⟨by decide, fun c hc ↦ (withPort_chars _ c hc).2.1⟩
    have hlower : ([ASTERISK] ++ withPort port).map tolower = [ASTERISK] ++ withPort port := by
      refine map_tolower ?_
      rw [List.forall_mem_append, List.forall_mem_singleton]
      exact ⟨by decide, fun c hc ↦ (withPort_chars _ c hc).1⟩
    have hsep : ∀ c ∈ (SEMICOLON :: hostsText hosts).head?, isSeparator c = true := by
      rw [List.head?_cons]
      decide
    have hne : [ASTERISK] ++ withPort port ≠ [] := List.cons_ne_nil _ _
    rw [hfront, words_append hne hchars hsep, List.map_cons, hlower, Listed.run,
      Listed.next_port hport]
    dsimp only
    rw [if_pos rfl]
    by_cases hnil : hosts = []
    · subst hnil
      obtain ⟨fuel, rfl⟩ :=
        Nat.exists_eq_succ_of_ne_zero (Nat.ne_zero_of_lt (Nat.lt_of_succ_lt_succ hfuel))
      rw [hostsText, List.map_nil, joined, List.intercalate_nil, words,
        if_neg (List.cons_ne_nil _ _), List.dropWhile_cons_of_pos (by decide), List.dropWhile_nil,
        List.dropWhile_nil, words_nil]
      rfl
    · rw [words_separator (hostsText_ne_nil hnil), hwords _ (by omega), hhosts]
  · rw [if_neg hzero, List.nil_append, hwords _ (by omega), hhosts, not_ne_iff.mp hzero]

/-! ## Writing -/

/-- Hosts are copied to the buffer. -/
theorem writeLoop_spec {hostname hostbuf written : List U8}
    (hchars : ∀ c ∈ hostname, c ≠ COMMA ∧ isspace c = false ∧ (c = SEMICOLON → multiple = true))
    (hheld : Memory.Holds hostbuf written) (hlen : hostbuf.length = BUFFER)
    (hlt : written.length + hostname.length < BUFFER) :
    ∃ hostbuf', writeLoop multiple hostname hostbuf written.length
        = some (hostbuf', written.length + hostname.length)
      ∧ hostbuf'.length = BUFFER ∧ Memory.Holds hostbuf' (written ++ hostname) := by
  induction hostname generalizing hostbuf written with
  | nil => exact ⟨hostbuf, rfl, hlen, by rwa [List.append_nil]⟩
  | cons c hostname ih =>
    obtain ⟨⟨hcomma, hspace, hsemicolon⟩, hrest⟩ := List.forall_mem_cons.mp hchars
    rw [List.length_cons] at hlt
    obtain ⟨m, hm, hlenm, hheldm⟩ := hheld.store (by rw [hlen]; omega) c
    obtain ⟨m', hm', hlenm', hheldm'⟩ := ih hrest hheldm (hlenm.trans hlen)
      (by rw [List.length_append, List.length_singleton]; omega)
    rw [List.length_append, List.length_singleton] at hm'
    refine ⟨m', ?_, hlenm', by rwa [List.append_assoc] at hheldm'⟩
    rw [writeLoop, if_neg (by omega), List.length_cons, Nat.add_comm hostname.length,
      ← Nat.add_assoc, ← hm']
    by_cases hsep : c = SEMICOLON
    · rw [if_pos (.inr hsep), if_pos (hsemicolon hsep), ← hsep, hm, Option.bind_some]
    · rw [if_neg (by simp only [hcomma, hsep, or_self, not_false_eq_true]), hspace,
        if_neg Bool.false_ne_true, hm, Option.bind_some]

theorem not_separator {c : U8} (h : isSeparator c = false) :
    isspace c = false ∧ c ≠ COMMA ∧ c ≠ SEMICOLON := by
  revert h
  revert c
  decide

/-- What a list is written with. Semicolons are between hosts. -/
theorem hostsText_chars (hosts : List Host) (hmultiple : multiple = true ∨ hosts.length ≤ 1) :
    ∀ c ∈ hostsText hosts, c ≠ 0#8 ∧ c ≠ COMMA ∧ isspace c = false
      ∧ (c = SEMICOLON → multiple = true) := by
  have htext : ∀ h : Host, ∀ c ∈ h.text, c ≠ 0#8 ∧ c ≠ COMMA ∧ isspace c = false
      ∧ (c = SEMICOLON → multiple = true) := by
    intro h c hc
    obtain ⟨hzero, hsep⟩ := h.text_chars c hc
    obtain ⟨hspace, hcomma, hsemicolon⟩ := not_separator hsep
    exact ⟨hzero, hcomma, hspace, fun heq ↦ absurd heq hsemicolon⟩
  induction hosts with
  | nil => exact List.forall_mem_nil _
  | cons h hosts ih =>
    by_cases hnil : hosts = []
    · subst hnil
      rw [hostsText_singleton]
      exact htext h
    · have hmany : multiple = true := hmultiple.resolve_right fun hone ↦
        hnil (List.length_eq_zero_iff.mp (Nat.le_zero.mp (Nat.le_of_succ_le_succ hone)))
      rw [hostsText_cons h hnil, List.forall_mem_append, List.forall_mem_cons]
      exact ⟨htext h, ⟨by decide, by decide, by decide, fun _ ↦ hmany⟩, ih (.inl hmany)⟩

theorem portText_spec (port : ℤ) : (portText (portWritten port)).length ≤ 8
    ∧ 0#8 ∉ portText (portWritten port) := by
  have hport : portWritten port < 10 ^ 5 := by
    rw [portWritten]
    split_ifs <;> omega
  have hdigits := length_decimal_le (by decide : 0 < 5) hport
  rw [portText]
  split_ifs
  · refine ⟨?_, ?_⟩
    · simp only [List.length_cons, List.length_append, List.length_nil]
      omega
    · simp only [List.mem_cons, List.mem_append, not_or]
      exact ⟨by decide, by decide, fun hmem ↦ (isDigit_of_mem_decimal hmem).ne_zero rfl, by decide,
        List.not_mem_nil⟩
  · exact ⟨Nat.zero_le _, List.not_mem_nil⟩

/-- **What is written** for a port and a list. -/
theorem write_spec (port : ℤ) {hosts : List Host} (hmultiple : multiple = true ∨ hosts.length ≤ 1)
    (hlen : (hostsText hosts).length ≤ 60) (entry : List U8) (hostbuf : Bytes BUFFER) :
    writeHostnameAndPort multiple entry (hostsText hosts) port hostbuf.1
      = some (portText (portWritten port) ++ hostsText hosts) := by
  obtain ⟨hostbuf, hsize⟩ := hostbuf
  obtain ⟨hshort, hnul⟩ := portText_spec port
  have hchars := hostsText_chars hosts hmultiple
  have hlt : (portText (portWritten port)).length + (hostsText hosts).length < BUFFER := by
    rw [BUFFER]
    omega
  -- the front
  obtain ⟨m₁, hm₁, hlen₁, hheld₁⟩ :=
    strcpy_of_lt (m := hostbuf) (s := portText (portWritten port)) (by rw [hsize, BUFFER]; omega)
  -- the hosts
  have hblank : (hostsText hosts).dropWhile isspace = hostsText hosts := by
    cases hl : hostsText hosts with
    | nil => rfl
    | cons c l =>
      rw [hl] at hchars
      have hc := (hchars c List.mem_cons_self).2.2.1
      exact List.dropWhile_cons_of_neg (by rw [hc]; exact Bool.false_ne_true)
  obtain ⟨m₂, hm₂, hlen₂, hheld₂⟩ := writeLoop_spec (fun c hc ↦ (hchars c hc).2)
    ((List.prefix_append _ _).trans hheld₁) (hlen₁.trans hsize) hlt
  -- the NUL
  obtain ⟨m₃, hm₃, -, hheld₃⟩ := hheld₂.store (by rw [List.length_append, hlen₂]; exact hlt) 0#8
  rw [List.length_append] at hm₃
  have hnul' : 0#8 ∉ portText (portWritten port) ++ hostsText hosts := fun hmem ↦
    (List.mem_append.mp hmem).elim hnul fun hmem ↦ (hchars _ hmem).1 rfl
  rw [writeHostnameAndPort, hm₁]
  simp only [Option.bind_eq_bind, Option.bind_some]
  rw [hblank, hm₂]
  simp only [Option.bind_some]
  rw [hm₃, Option.bind_some, cstr_of_holds hheld₃ hnul', Option.bind_some]
  split_ifs with hsome
  · rfl
  · obtain ⟨hempty, hentry⟩ := not_or.mp hsome
    rw [not_ne_iff.mp hempty, not_ne_iff.mp hentry]

/-! ## Lists that come back -/

theorem mem_joined {hosts : List (List U8)} {c : U8} (h : c ∈ joined hosts) :
    c = SEMICOLON ∨ ∃ host ∈ hosts, c ∈ host := by
  induction hosts using List.reverseRecOn with
  | nil => exact absurd h List.not_mem_nil
  | append_singleton hosts host ih =>
    rw [joined_concat, List.mem_append, List.mem_append] at h
    rcases h with (hfront | hsep) | hlast
    · refine (ih hfront).imp_right fun ⟨host', hmem, hc⟩ ↦ ?_
      exact ⟨host', List.mem_append_left _ hmem, hc⟩
    · rw [separator] at hsep
      split_ifs at hsep
      · exact absurd hsep List.not_mem_nil
      · exact .inl (List.mem_singleton.mp hsep)
    · exact .inr ⟨host, List.mem_append_right _ List.mem_cons_self, hlast⟩

/-- The hosts of a list can be told from it. -/
theorem joined_injective {xs ys : List (List U8)} (hxs : ∀ x ∈ xs, SEMICOLON ∉ x)
    (hys : ∀ y ∈ ys, SEMICOLON ∉ y) (hx : xs ≠ []) (hy : ys ≠ []) (h : joined xs = joined ys) :
    xs = ys := by
  rw [← List.splitOn_intercalate SEMICOLON hxs hx, ← List.splitOn_intercalate SEMICOLON hys hy]
  exact congrArg _ h

theorem Host.word_chars (h : Host) : 0#8 ∉ h.word ∧ SEMICOLON ∉ h.word := by
  have hlower : ∀ c, (tolower c = 0#8 → c = 0#8) ∧ (tolower c = SEMICOLON → c = SEMICOLON) := by
    decide
  constructor
  · intro hmem
    obtain ⟨c, hc, hzero⟩ := List.mem_map.mp hmem
    exact (h.text_chars c hc).1 ((hlower c).1 hzero)
  · intro hmem
    obtain ⟨c, hc, hsep⟩ := List.mem_map.mp hmem
    exact (not_separator (h.text_chars c hc).2).2.2 ((hlower c).2 hsep)

/-- What is read of a host has no separator in it. -/
theorem semicolon_hostText {s : List U8} (hs : SEMICOLON ∉ s) : SEMICOLON ∉ hostText s := by
  intro hmem
  rcases List.mem_append.mp hmem with hname | hport
  · have hnameOf : SEMICOLON ∉ nameOf s := by
      rw [nameOf]
      split_ifs
      · exact fun h ↦ hs (List.mem_of_mem_take h)
      · exact hs
    rw [updated] at hname
    split_ifs at hname
    · exact (List.mem_or_eq_of_mem_set hname).elim hnameOf (by decide)
    · exact hnameOf hname
  · exact (withPort_chars _ _ hport).2.2.1 rfl

/-- A list in lower case. -/
theorem map_hostsText (hosts : List Host) :
    (hostsText hosts).map tolower = joined (hosts.map Host.word) := by
  induction hosts with
  | nil => rfl
  | cons h hosts ih =>
    by_cases hnil : hosts = []
    · subst hnil
      rw [hostsText_singleton, List.map_singleton, joined, List.intercalate_singleton, Host.word]
    · rw [hostsText_cons h hnil, List.map_append, List.map_cons, ih, List.map_cons, joined, joined,
        List.intercalate_cons_of_ne_nil (by rwa [ne_eq, List.map_eq_nil_iff]), List.append_assoc]
      rfl

/-- What is read is not longer than what has been written. -/
theorem length_joined_le (hosts : List Host) :
    (joined (hosts.map fun h ↦ hostText h.word)).length
      ≤ (joined (hosts.map Host.word)).length := by
  induction hosts using List.reverseRecOn with
  | nil => exact Nat.le_refl _
  | append_singleton hosts h ih =>
    have hsep : (separator (hosts.map fun h ↦ hostText h.word)).length
        = (separator (hosts.map Host.word)).length := by
      simp only [separator, List.map_eq_nil_iff]
    have hhost := length_hostText h.word
    rw [List.map_append, List.map_append, List.map_singleton, List.map_singleton, joined_concat,
      joined_concat]
    simp only [List.length_append]
    omega

/-- A list that is not longer than the buffer for it. -/
abbrev Hostlist : Type := {hosts : List Host // (hostsText hosts).length ≤ 60}

/-- **What is written is read back**: the list, with its literals in lower case, and the port. What
is read if nothing is written is what has been there. -/
def RoundTrips (port : Fin 0xffff) (hosts : Hostlist) : Prop :=
  ∀ (multiple : Bool) (entry hostname : List U8) (hnamelen : ℕ) (port₀ : ℤ)
    (hostbuf hostbuf' : Bytes BUFFER), (multiple = true ∨ hosts.1.length ≤ 1) → 64 ≤ hnamelen →
    hnamelen ≤ hostname.length → (hosts.1 = [] → Memory.Holds hostname [0#8]) →
    (port.1 = 0 → port₀ = 0) →
    ∃ written hostname', writeHostnameAndPort multiple entry (hostsText hosts.1) port.1 hostbuf.1
        = some written
      ∧ readHostnameAndPort multiple written hostname hnamelen port₀ hostbuf'.1
        = some (hostname', (port.1 : ℤ))
      ∧ cstr hostname' = some ((hostsText hosts.1).map tolower)

/-- What is read of what has been written. -/
theorem read_spec (multiple : Bool) (port : Fin 0xffff) (hosts : Hostlist)
    (hmultiple : multiple = true ∨ hosts.1.length ≤ 1) {hnamelen : ℕ} (hlarge : 64 ≤ hnamelen)
    (hostname : List U8) (hsize : hnamelen ≤ hostname.length) (port₀ : ℤ)
    (hostbuf : Bytes BUFFER) :
    ∃ hostname', readHostnameAndPort multiple (portText port.1 ++ hostsText hosts.1) hostname
        hnamelen port₀ hostbuf.1
        = some (hostname', if port.1 ≠ 0 then (port.1 : ℤ) else port₀)
      ∧ (hosts.1 = [] → hostname' = hostname)
      ∧ (hosts.1 ≠ [] → cstr hostname' = some (joined (hosts.1.map fun h ↦ hostText h.word))) := by
  obtain ⟨hosts, hlen⟩ := hosts
  dsimp only at *
  have hported : portWritten (port.1 : ℤ) = port.1 := by
    rw [portWritten, if_neg (by omega)]
    rfl
  obtain ⟨hshort, hnul⟩ := portText_spec port.1
  rw [hported] at hshort hnul
  have hchars := hostsText_chars hosts hmultiple
  have hentry : 0#8 ∉ portText port.1 ++ hostsText hosts := fun hmem ↦
    (List.mem_append.mp hmem).elim hnul fun hmem ↦ (hchars _ hmem).1 rfl
  have htake : (portText port.1 ++ hostsText hosts).take (BUFFER - 1)
      = portText port.1 ++ hostsText hosts := by
    refine List.take_of_length_le ?_
    rw [List.length_append, BUFFER]
    omega
  have hhosts := length_hosts_le hosts
  have hread := length_joined_le hosts
  rw [← map_hostsText, List.length_map] at hread
  have hlisted : listed multiple (portText port.1 ++ hostsText hosts) hnamelen
      = ⟨hosts.map fun h ↦ hostText h.word, port.1⟩ := by
    rw [listed, if_pos (by omega), htake]
    exact Listed.run_entry port.2 hosts hmultiple (by omega) (by rw [BUFFER]; omega)
  obtain ⟨hostname', hspec, -, hsame, hheld⟩ :=
    readHostnameAndPort_spec multiple hentry hsize port₀ hostbuf
  rw [hlisted] at hspec hsame hheld
  refine ⟨hostname', hspec, fun hnil ↦ hsame (by rw [hnil]; rfl), fun hne ↦ ?_⟩
  refine cstr_of_holds (hheld (by rwa [ne_eq, List.map_eq_nil_iff])) fun hmem ↦ ?_
  rcases mem_joined hmem with hsep | ⟨text, htext, hzero⟩
  · exact absurd hsep (by decide)
  · obtain ⟨h, -, rfl⟩ := List.mem_map.mp htext
    exact nul_hostText h.word_chars.1 hzero

/-- Lists come back exactly if there is no literal that begins with a colon. -/
theorem roundTrips_iff (port : Fin 0xffff) (hosts : Hostlist) :
    RoundTrips port hosts ↔ ∀ h ∈ hosts.1, ¬h.Colon := by
  have hported : portWritten (port.1 : ℤ) = port.1 := by
    rw [portWritten, if_neg (by omega)]
    rfl
  constructor
  · intro h host hhost
    have hne : hosts.1 ≠ [] := List.ne_nil_of_mem hhost
    obtain ⟨written, hostname', hwrite, hread, hcstr⟩ := h true [] (List.replicate 64 0#8) 64 0
      (Bytes.zero BUFFER) (Bytes.zero BUFFER) (.inl rfl) le_rfl
      (by rw [List.length_replicate]) (fun hnil ↦ absurd hnil hne) fun _ ↦ rfl
    rw [write_spec _ (.inl rfl) hosts.2, hported, Option.some.injEq] at hwrite
    subst hwrite
    obtain ⟨hostname'', hread', -, hcstr'⟩ := read_spec true port hosts (.inl rfl) (le_refl 64)
      (List.replicate 64 0#8) (by rw [List.length_replicate]) 0 (Bytes.zero BUFFER)
    obtain rfl := (Prod.mk.inj (Option.some.inj (hread.symm.trans hread'))).1
    have hjoined := Option.some.inj ((hcstr' hne).symm.trans hcstr)
    rw [map_hostsText] at hjoined
    have hsame := joined_injective (fun x hx ↦ by
        obtain ⟨h, -, rfl⟩ := List.mem_map.mp hx
        exact semicolon_hostText h.word_chars.2)
      (fun y hy ↦ by
        obtain ⟨h, -, rfl⟩ := List.mem_map.mp hy
        exact h.word_chars.2)
      (by rwa [ne_eq, List.map_eq_nil_iff]) (by rwa [ne_eq, List.map_eq_nil_iff]) hjoined
    exact host.hostText_word.mp (List.map_inj_left.mp hsame host hhost)
  · intro hplain multiple entry hostname hnamelen port₀ hostbuf hostbuf' hmultiple hlarge hsize
      hdefault hzero
    obtain ⟨hostname', hread, hnone, hsome⟩ :=
      read_spec multiple port hosts hmultiple hlarge hostname hsize port₀ hostbuf'
    refine ⟨portText port.1 ++ hostsText hosts.1, hostname', ?_, ?_, ?_⟩
    · rw [write_spec _ hmultiple hosts.2, hported]
    · rw [hread]
      by_cases hport : port.1 ≠ 0
      · rw [if_pos hport]
      · rw [if_neg hport, hzero (not_ne_iff.mp hport), not_ne_iff.mp hport]
        rfl
    · by_cases hnil : hosts.1 = []
      · rw [hnone hnil, hnil]
        exact cstr_of_holds (hdefault hnil) List.not_mem_nil
      · rw [hsome hnil, map_hostsText]
        exact congrArg _ (congrArg _ (List.map_congr_left fun h hh ↦
          h.hostText_word.mpr (hplain h hh)))

/-- **A list of hosts and a port come back** exactly if no literal begins with a colon; and whatever
the entry is, nothing is written out of range. -/
theorem hostname_and_port_exact (port : Fin 0xffff) (hosts : Hostlist) (multiple : Bool)
    (entry : CString) (hostname : List U8) (hnamelen : ℕ) (portnum : ℤ) (hostbuf : Bytes BUFFER) :
    (RoundTrips port hosts ↔ ∀ h ∈ hosts.1, ¬h.Colon) ∧ (hnamelen ≤ hostname.length →
      ∃ r, readHostnameAndPort multiple entry.1 hostname hnamelen portnum hostbuf.1 = some r) := by
  refine ⟨roundTrips_iff port hosts, fun hsize ↦ ?_⟩
  obtain ⟨hostname', hread, -⟩ := readHostnameAndPort_spec multiple entry.2 hsize portnum hostbuf
  exact ⟨_, hread⟩

/-- `[::1]:2064` -/
def loopback : Host where
  literal := true
  name := [COLON, COLON, 49#8]
  port := 2064
  port_lt := by decide
  chars := by decide
  plain := fun h ↦ absurd h (by decide)

/-- **The loopback address** does not come back. -/
theorem not_roundTrips_loopback : ¬∀ port hosts, RoundTrips port hosts := fun h ↦
  (roundTrips_iff 0 ⟨[loopback], by decide +kernel⟩).mp (h _ _) loopback List.mem_cons_self
    ⟨rfl, rfl⟩

end Hyunjin.Conf
