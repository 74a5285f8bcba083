import Hyunjin.Conf.Hostport
import Hyunjin.Conf.Timestring

/-!
# Hosts that are read back

A colon that is looked for in a host is looked for up to a bracket that opens a literal, and right
behind it. So a literal that begins with a colon is cut there.
-/

namespace Hyunjin.Conf

open Memory
open Net (tolower)

/-! ## A host -/

/-- The name of a host, without its port. -/
def nameOf (s : List U8) : List U8 :=
  if s[colonPos s]? = some COLON then s.take (colonPos s) else s

/-- The port of a host. -/
def portIn (s : List U8) : ℕ :=
  if s[colonPos s]? = some COLON then portOf (s.drop (colonPos s + 1)) else 0

/-- The name as it is today. -/
def updated (name : List U8) : List U8 :=
  if 20 < name.length ∧ V27 <:+ name then name.set (name.length - 17) 57#8 else name

/-- A port behind a host. -/
def withPort (port : ℕ) : List U8 := if port ≠ 0 then COLON :: decimal port else []

/-- What is read for a host. -/
def hostText (s : List U8) : List U8 := updated (nameOf s) ++ withPort (portIn s)

theorem length_updated (name : List U8) : (updated name).length = name.length := by
  rw [updated]
  split_ifs
  · exact List.length_set
  · rfl

theorem nul_nameOf {s : List U8} (hs : 0#8 ∉ s) : 0#8 ∉ nameOf s := by
  rw [nameOf]
  split_ifs
  · exact fun h ↦ hs (List.mem_of_mem_take h)
  · exact hs

theorem nul_updated {name : List U8} (h : 0#8 ∉ name) : 0#8 ∉ updated name := by
  rw [updated]
  split_ifs
  · exact fun hmem ↦ (List.mem_or_eq_of_mem_set hmem).elim h (by decide)
  · exact h

theorem nul_withPort (port : ℕ) : 0#8 ∉ withPort port := by
  rw [withPort]
  split_ifs
  · rw [List.mem_cons, not_or]
    exact ⟨by decide, fun hmem ↦ (isDigit_of_mem_decimal hmem).ne_zero rfl⟩
  · exact List.not_mem_nil

theorem nul_hostText {s : List U8} (hs : 0#8 ∉ s) : 0#8 ∉ hostText s := fun hmem ↦
  (List.mem_append.mp hmem).elim (nul_updated (nul_nameOf hs)) (nul_withPort _)

/-- What `atoi` reads. -/
theorem exists_digits (s : List U8) : ∃ digits : List U8, digits.length ≤ s.length
    ∧ (∀ c ∈ digits, IsDigit c) ∧ (atoi s = BitVec.ofInt 32 (toLong (decimalValue digits))
      ∨ atoi s = BitVec.ofInt 32 (toLong (-decimalValue digits))) := by
  have hlen : (s.dropWhile isspace).length ≤ s.length := List.length_dropWhile_le _ _
  have hdigits : ∀ t : List U8, ∀ c ∈ t.takeWhile isdigit, IsDigit c := fun t c hc ↦
    isDigit_iff.mp (List.mem_takeWhile_imp hc)
  have htake : ∀ t : List U8, (t.takeWhile isdigit).length ≤ t.length := fun t ↦
    (List.takeWhile_prefix _).length_le
  rw [atoi, strtol]
  cases hs : s.dropWhile isspace with
  | nil => exact ⟨[], Nat.zero_le _, List.forall_mem_nil _, .inl rfl⟩
  | cons c cs =>
    rw [hs, List.length_cons] at hlen
    dsimp only
    have hcs := htake cs
    have hall := htake (c :: cs)
    rw [List.length_cons] at hall
    split_ifs
    · exact ⟨_, by omega, hdigits cs, .inr rfl⟩
    · exact ⟨_, by omega, hdigits cs, .inl rfl⟩
    · exact ⟨_, by omega, hdigits (c :: cs), .inl rfl⟩

theorem portOf_lt (s : List U8) : portOf s < 0xffff := by
  rw [portOf]
  split_ifs with h
  · decide
  · rw [not_or, not_le, not_le] at h
    have hint := BitVec.toInt_eq_toNat_cond (atoi s)
    split_ifs at hint <;> omega

/-- **A port is printed in no more characters** than it has been read from. -/
theorem length_decimal_portOf {s : List U8} (h : portOf s ≠ 0) :
    (decimal (portOf s)).length ≤ s.length := by
  obtain ⟨digits, hlen, hdigits, hatoi⟩ := exists_digits s
  have hlt := portOf_lt s
  rcases Nat.lt_or_ge digits.length 5 with hfew | hmany
  · have hvalue := decimalValue_lt hdigits
    have hsmall : decimalValue digits < 10 ^ 4 :=
      hvalue.trans_le (Nat.pow_le_pow_right (by decide) (Nat.le_of_lt_succ hfew))
    have hport : portOf s = decimalValue digits := by
      rw [portOf] at h ⊢
      split_ifs at h with hrange
      · exact absurd rfl h
      · rw [if_neg hrange]
        rw [not_or, not_le, not_le] at hrange
        rcases hatoi with hatoi | hatoi
        · rw [hatoi, toLong_eq (by omega) (by omega), BitVec.toNat_ofInt]
          omega
        · rw [hatoi, toLong_eq (by omega) (by omega), BitVec.toInt_ofInt,
            Int.bmod_eq_of_le (by omega) (by omega)] at hrange
          omega
    rw [hport] at h ⊢
    have hpos : 0 < digits.length := by
      rw [List.length_pos_iff]
      rintro rfl
      exact h rfl
    exact (length_decimal_le hpos hvalue).trans hlen
  · exact (length_decimal_le (k := 5) (by decide) (hlt.trans (by decide))).trans (hmany.trans hlen)

theorem length_hostText (s : List U8) : (hostText s).length ≤ s.length := by
  rw [hostText, List.length_append, length_updated, nameOf, portIn, withPort]
  by_cases hcolon : s[colonPos s]? = some COLON
  · have hlt : colonPos s < s.length := (List.getElem?_eq_some_iff.mp hcolon).1
    rw [if_pos hcolon, if_pos hcolon, List.length_take_of_le hlt.le]
    split_ifs with hport
    · have hlen := length_decimal_portOf hport
      rw [List.length_drop] at hlen
      rw [List.length_cons]
      omega
    · exact hlt.le
  · rw [if_neg hcolon, if_neg hcolon]
    exact le_rfl

/-! ## The host in the buffer -/

variable {hostbuf s : List U8}

/-- A port is cut off. -/
theorem cutPort_spec (h : Memory.Holds hostbuf (s ++ [0#8])) (hs : 0#8 ∉ s) :
    ∃ hostbuf', cutPort hostbuf s.length = some (hostbuf', (nameOf s).length, portIn s)
      ∧ hostbuf'.length = hostbuf.length ∧ Memory.Holds hostbuf' (nameOf s ++ [0#8]) := by
  rw [cutPort, cstr_of_holds h hs, Option.bind_some, nameOf, portIn]
  by_cases hcolon : s[colonPos s]? = some COLON
  · have hlt : colonPos s < s.length := (List.getElem?_eq_some_iff.mp hcolon).1
    obtain ⟨m, hm, hlen, hheld⟩ := h.cut hlt
    rw [if_pos hcolon, if_pos hcolon, if_pos hcolon, hm, List.length_take_of_le hlt.le]
    exact ⟨m, rfl, hlen, hheld⟩
  · rw [if_neg hcolon, if_neg hcolon, if_neg hcolon]
    exact ⟨hostbuf, rfl, rfl, h⟩

/-- A name is updated. -/
theorem updateName_spec {name : List U8} (h : Memory.Holds hostbuf (name ++ [0#8]))
    (hname : 0#8 ∉ name) :
    ∃ hostbuf', updateName hostbuf name.length = some hostbuf'
      ∧ hostbuf'.length = hostbuf.length ∧ Memory.Holds hostbuf' (updated name ++ [0#8]) := by
  rw [updateName, updated]
  have htail : 20 < name.length → (cstr (hostbuf.drop (name.length - 20)) = some V27
      ↔ V27 <:+ name) := by
    intro hlong
    have hheld : Memory.Holds (hostbuf.drop (name.length - 20))
        (name.drop (name.length - 20) ++ [0#8]) := by
      rw [← List.drop_append_of_le_length (Nat.sub_le _ _)]
      exact List.IsPrefix.drop h _
    rw [cstr_of_holds hheld fun hnul ↦ hname (List.mem_of_mem_drop hnul), Option.some.injEq,
      List.suffix_iff_eq_drop, eq_comm]
    rfl
  by_cases hold : 20 < name.length ∧ V27 <:+ name
  · rw [if_pos hold, if_pos ⟨hold.1, (htail hold.1).mpr hold.2⟩]
    obtain ⟨m, hm, hlen, hheld⟩ := h.set (i := name.length - 17)
      (by rw [List.length_append]; omega) 57#8
    rw [List.set_append_left _ _ (by omega)] at hheld
    exact ⟨m, hm, hlen, hheld⟩
  · rw [if_neg hold, if_neg fun hnew ↦ hold ⟨hnew.1, (htail hnew.1).mp hnew.2⟩]
    exact ⟨hostbuf, rfl, rfl, h⟩

/-- A port is put back. -/
theorem putPort_spec {name : List U8} (h : Memory.Holds hostbuf (name ++ [0#8])) (port : ℕ)
    (hlt : name.length + (withPort port).length < hostbuf.length) :
    ∃ hostbuf', putPort hostbuf name.length port = some hostbuf'
      ∧ hostbuf'.length = hostbuf.length
      ∧ Memory.Holds hostbuf' (name ++ withPort port ++ [0#8]) := by
  rw [withPort] at hlt
  rw [putPort, withPort]
  by_cases hport : port ≠ 0
  · rw [if_pos hport] at hlt
    rw [if_pos hport, if_pos hport]
    have hname : Memory.Holds hostbuf name := (List.prefix_append _ _).trans h
    obtain ⟨m, hm, hlen, hheld⟩ := hname.stores (t := COLON :: (decimal port ++ [0#8])) (by
      rw [List.length_cons] at hlt ⊢
      rw [List.length_append, List.length_singleton]
      omega)
    refine ⟨m, hm, hlen, ?_⟩
    rwa [List.append_assoc]
  · rw [if_neg hport, if_neg hport, List.append_nil]
    exact ⟨hostbuf, rfl, rfl, h⟩

/-! ## The hosts that are kept -/

/-- Hosts with a semicolon between them. -/
def joined (hosts : List (List U8)) : List U8 := [SEMICOLON].intercalate hosts

/-- What stands in front of the next host. -/
def separator (hosts : List (List U8)) : List U8 := if hosts = [] then [] else [SEMICOLON]

theorem separator_of_ne {hosts : List (List U8)} (h : hosts ≠ []) :
    separator hosts = [SEMICOLON] := if_neg h

theorem length_separator_le (hosts : List (List U8)) : (separator hosts).length ≤ 1 := by
  rw [separator]
  split_ifs <;> decide

theorem joined_concat (hosts : List (List U8)) (host : List U8) :
    joined (hosts ++ [host]) = joined hosts ++ separator hosts ++ host := by
  induction hosts with
  | nil => exact List.intercalate_singleton
  | cons h hosts ih =>
    have hjoined : joined (h :: (hosts ++ [host])) = h ++ [SEMICOLON] ++ joined (hosts ++ [host]) :=
      List.intercalate_cons_of_ne_nil (by simp)
    rw [List.cons_append, hjoined, ih, separator_of_ne (List.cons_ne_nil _ _)]
    by_cases hnil : hosts = []
    · subst hnil
      rw [separator, if_pos rfl, joined, joined, List.intercalate_nil, List.intercalate_singleton]
      rw [List.append_nil]
      rfl
    · rw [separator_of_ne hnil, joined, joined, List.intercalate_cons_of_ne_nil hnil]
      simp only [List.append_assoc]

/-- What has been read: the hosts, and the port for all of them. -/
structure Listed where
  hosts : List (List U8)
  port : ℕ

/-- A host, and whether another one is read. -/
def Listed.next (multiple : Bool) (size : ℕ) (a : Listed) (s : List U8) : Listed × Bool :=
  if nameOf s = [] then (a, true)
  else if IsDefault (nameOf s) then
    ({ a with port := if a.port = 0 then portIn s else a.port }, true)
  else if size ≤ (joined a.hosts).length + (hostText s).length + 3 then (a, false)
  else ({ a with hosts := a.hosts ++ [hostText s] }, multiple)

/-- Hosts that are read one after the other. -/
def Listed.run (multiple : Bool) (size : ℕ) : List (List U8) → Listed → Listed
  | [], a => a
  | s :: words, a =>
    if (a.next multiple size s).2 then run multiple size words (a.next multiple size s).1
    else (a.next multiple size s).1

/-- What stands between separators. -/
def words : ℕ → List U8 → List (List U8)
  | 0, _ => []
  | fuel + 1, p =>
    if p = [] then []
    else ((p.dropWhile isSeparator).takeWhile (!isSeparator ·))
      :: words fuel ((p.dropWhile isSeparator).dropWhile (!isSeparator ·))

/-- **The variables of the loop** show what has been read: the hosts are in the buffer, of which
`size` bytes may be used. -/
structure Hosts.Shows (size : ℕ) (start : List U8) (a : Listed) (r : Hosts) : Prop where
  hostbuf : r.hostbuf.length = BUFFER
  used : r.used = (joined a.hosts).length
  rest : r.used + r.hnamelen = size
  length : r.hostname.length = start.length
  count : r.hostcount = a.hosts.length
  held : Memory.Holds r.hostname (joined a.hosts)
  ended : a.hosts ≠ [] → Memory.Holds r.hostname (joined a.hosts ++ [0#8])
  same : a.hosts = [] → r.hostname = start
  port : r.foundport = a.port

variable {r : Hosts} {a : Listed} {size : ℕ} {start text : List U8}

/-- **A host that there is room for** is put behind the others. -/
theorem Hosts.Shows.add (h : r.Shows size start a) (hsize : size ≤ start.length)
    (hroom : text.length + 3 < r.hnamelen) : ∃ r', r.add text = some r'
      ∧ r'.Shows size start { a with hosts := a.hosts ++ [text] } := by
  have hused := h.used
  have hrest := h.rest
  have hlength := h.length
  obtain ⟨m, hseparate, hlen, hheld⟩ : ∃ m, r.separate = some
        { r with
          hostname := m
          used := r.used + (separator a.hosts).length
          hnamelen := r.hnamelen - (separator a.hosts).length }
      ∧ m.length = start.length ∧ Memory.Holds m (joined a.hosts ++ separator a.hosts) := by
    rw [Hosts.separate, separator]
    by_cases hnone : a.hosts = []
    · rw [if_pos hnone, if_neg (by rw [h.count, hnone]; decide), List.append_nil]
      exact ⟨r.hostname, rfl, hlength, h.held⟩
    · rw [if_neg hnone, if_pos (by rw [h.count]; exact (List.length_pos_iff.mpr hnone).ne')]
      obtain ⟨m, hm, hlen, hheld⟩ := h.held.store (by omega) SEMICOLON
      rw [← hused] at hm
      exact ⟨m, by rw [hm]; rfl, hlen.trans hlength, hheld⟩
  have hsep := length_separator_le a.hosts
  have hplace : (joined a.hosts ++ separator a.hosts).length
      = r.used + (separator a.hosts).length := by
    rw [List.length_append, hused]
  obtain ⟨m', hm', hlen', hheld'⟩ := hheld.stores (t := text ++ [0#8]) (by
    rw [hplace, List.length_append, List.length_singleton]
    omega)
  rw [hplace] at hm'
  rw [← List.append_assoc, ← joined_concat] at hheld'
  have hadd : r.add text = some
      { r with
        hostname := m'
        used := r.used + (separator a.hosts).length + text.length
        hnamelen := r.hnamelen - (separator a.hosts).length - text.length
        hostcount := r.hostcount + 1 } := by
    rw [Hosts.add, hseparate, Option.bind_some]
    dsimp only
    rw [hm']
    rfl
  exact ⟨_, hadd,
    { hostbuf := h.hostbuf
      used := by rw [joined_concat, List.length_append, hplace]
      rest := by
        dsimp only
        omega
      length := hlen'.trans hlen
      count := by rw [List.length_append, ← h.count, List.length_singleton]
      held := (List.prefix_append _ _).trans hheld'
      ended := fun _ ↦ hheld'
      same := fun hnil ↦ absurd hnil (List.append_ne_nil_of_right_ne_nil _ (List.cons_ne_nil _ _))
      port := h.port }⟩

/-- The buffer for a host is not looked at again. -/
theorem Hosts.Shows.of_hostbuf (h : r.Shows size start a) (hlen : hostbuf.length = BUFFER) :
    ({ r with hostbuf := hostbuf } : Hosts).Shows size start a :=
  ⟨hlen, h.used, h.rest, h.length, h.count, h.held, h.ended, h.same, h.port⟩

/-- **A host in the buffer** is kept if there is room for it. -/
theorem Hosts.Shows.keep (h : r.Shows size start a) (hsize : size ≤ start.length) (multiple : Bool)
    (hheld : Memory.Holds r.hostbuf (nameOf s ++ [0#8])) (hs : 0#8 ∉ s) (hlen : s.length < BUFFER) :
    ∃ r', r.keep multiple (nameOf s).length (portIn s) = some (r',
        if size ≤ (joined a.hosts).length + (hostText s).length + 3 then false else multiple)
      ∧ r'.Shows size start
        (if size ≤ (joined a.hosts).length + (hostText s).length + 3 then a
          else { a with hosts := a.hosts ++ [hostText s] }) := by
  obtain ⟨b₁, hb₁, hlen₁, hheld₁⟩ := updateName_spec hheld (nul_nameOf hs)
  have htext := length_hostText s
  rw [hostText, List.length_append] at htext
  obtain ⟨b₂, hb₂, hlen₂, hheld₂⟩ := putPort_spec hheld₁ (portIn s)
    (by rw [hlen₁, h.hostbuf]; omega)
  rw [length_updated] at hb₂
  have hshows : ({ r with hostbuf := b₂ } : Hosts).Shows size start a :=
    h.of_hostbuf (hlen₂.trans (hlen₁.trans h.hostbuf))
  have hroom : r.hnamelen ≤ (hostText s).length + 3
      ↔ size ≤ (joined a.hosts).length + (hostText s).length + 3 := by
    rw [← h.rest, h.used]
    omega
  rw [Hosts.keep, hb₁, Option.bind_eq_bind, Option.bind_some, hb₂, Option.bind_some,
    cstr_of_holds hheld₂ (nul_hostText hs), Option.bind_some, ← hostText]
  by_cases hfull : size ≤ (joined a.hosts).length + (hostText s).length + 3
  · rw [if_pos hfull, if_pos hfull, if_pos (hroom.mpr hfull)]
    exact ⟨_, rfl, hshows⟩
  · rw [if_neg hfull, if_neg hfull, if_neg fun hle ↦ hfull (hroom.mp hle)]
    have hfits : (hostText s).length + 3 < r.hnamelen := by
      rw [← not_le, hroom]
      exact hfull
    obtain ⟨r', hr', hshows'⟩ := hshows.add hsize hfits
    rw [hr']
    exact ⟨r', rfl, hshows'⟩

/-- **The host in the buffer** is the next one. -/
theorem Hosts.Shows.take (h : r.Shows size start a) (hsize : size ≤ start.length) (multiple : Bool)
    (hheld : Memory.Holds r.hostbuf (s ++ [0#8])) (hs : 0#8 ∉ s) :
    ∃ r', r.take multiple s.length = some (r', (a.next multiple size s).2)
      ∧ r'.Shows size start (a.next multiple size s).1 := by
  have hlen := hheld.length_le
  rw [List.length_append, List.length_singleton, h.hostbuf] at hlen
  obtain ⟨b, hb, hlenb, hheldb⟩ := cutPort_spec hheld hs
  have hshows : ({ r with hostbuf := b } : Hosts).Shows size start a :=
    h.of_hostbuf (hlenb.trans h.hostbuf)
  rw [Hosts.take, hb, Option.bind_eq_bind, Option.bind_some]
  dsimp only
  rw [cstr_of_holds hheldb (nul_nameOf hs), Option.bind_eq_bind, Option.bind_some, Listed.next]
  by_cases hnil : nameOf s = []
  · rw [if_pos hnil, if_pos (List.length_eq_zero_iff.mpr hnil)]
    exact ⟨_, rfl, hshows⟩
  rw [if_neg hnil, if_neg (mt List.length_eq_zero_iff.mp hnil)]
  by_cases hdefault : IsDefault (nameOf s)
  · rw [if_pos hdefault, if_pos hdefault]
    refine ⟨_, rfl, ?_⟩
    exact ⟨hshows.hostbuf, h.used, h.rest, h.length, h.count, h.held, h.ended, h.same, by
      dsimp only
      rw [h.port]⟩
  · rw [if_neg hdefault, if_neg hdefault]
    obtain ⟨r', hr', hshows'⟩ := hshows.keep hsize multiple hheldb hs hlen
    refine ⟨r', ?_, ?_⟩
    · rw [hr']
      split_ifs <;> rfl
    · split_ifs at hshows' ⊢ <;> exact hshows'

/-! ## All hosts -/

theorem nul_tolower {w : List U8} (h : 0#8 ∉ w) : 0#8 ∉ w.map tolower := by
  have hchar : ∀ c, tolower c = 0#8 → c = 0#8 := by decide
  intro hmem
  obtain ⟨c, hc, hlower⟩ := List.mem_map.mp hmem
  exact h (hchar c hlower ▸ hc)

/-- Something is read in each round. -/
theorem length_rest {p : List U8} (h : p ≠ []) :
    ((p.dropWhile isSeparator).dropWhile (!isSeparator ·)).length < p.length := by
  cases p with
  | nil => exact absurd rfl h
  | cons c p =>
    by_cases hsep : isSeparator c
    · rw [List.dropWhile_cons_of_pos hsep, List.length_cons, Nat.lt_succ_iff]
      exact (List.length_dropWhile_le _ _).trans (List.length_dropWhile_le _ _)
    · rw [List.dropWhile_cons_of_neg hsep, List.dropWhile_cons_of_pos (by simpa using hsep),
        List.length_cons, Nat.lt_succ_iff]
      exact List.length_dropWhile_le _ _

/-- A word is copied to the buffer. -/
theorem copyHost_spec (p : List U8) {hostbuf copied : List U8} (hp : 0#8 ∉ p)
    (hheld : Memory.Holds hostbuf copied) (hlt : copied.length + p.length ≤ hostbuf.length) :
    ∃ hostbuf', copyHost p hostbuf copied.length = some (p.dropWhile (!isSeparator ·), hostbuf',
        copied.length + (p.takeWhile (!isSeparator ·)).length)
      ∧ hostbuf'.length = hostbuf.length
      ∧ Memory.Holds hostbuf' (copied ++ (p.takeWhile (!isSeparator ·)).map tolower) := by
  induction p generalizing hostbuf copied with
  | nil => exact ⟨hostbuf, rfl, rfl, by rwa [List.takeWhile_nil, List.map_nil, List.append_nil]⟩
  | cons c p ih =>
    rw [List.length_cons] at hlt
    rw [copyHost]
    by_cases hsep : isSeparator c
    · rw [if_pos hsep, List.dropWhile_cons_of_neg (by rw [hsep]; decide),
        List.takeWhile_cons_of_neg (by rw [hsep]; decide)]
      exact ⟨hostbuf, rfl, rfl, by rwa [List.map_nil, List.append_nil]⟩
    · rw [if_neg hsep, List.dropWhile_cons_of_pos (by simpa using hsep),
        List.takeWhile_cons_of_pos (by simpa using hsep)]
      obtain ⟨m, hm, hlen, hheld'⟩ := hheld.store (by omega) (tolower c)
      obtain ⟨m', hm', hlen', hheld''⟩ := ih (fun h ↦ hp (List.mem_cons_of_mem _ h)) hheld'
        (by rw [List.length_append, List.length_singleton]; omega)
      rw [List.length_append, List.length_singleton] at hm'
      refine ⟨m', ?_, hlen'.trans hlen, ?_⟩
      · rw [hm, Option.bind_some, hm', List.length_cons, Nat.add_assoc, Nat.add_comm 1]
      · rwa [List.map_cons, ← List.singleton_append, ← List.append_assoc]

/-- **The loop over the hosts** reads one after the other. -/
theorem Hosts.Shows.loop (h : r.Shows size start a) (hsize : size ≤ start.length) (multiple : Bool)
    {fuel : ℕ} {p : List U8} (hp : 0#8 ∉ p) (hfuel : p.length < fuel) (hlen : p.length < BUFFER) :
    ∃ r', hostsLoop multiple fuel p r = some r'
      ∧ r'.Shows size start (a.run multiple size ((words fuel p).map (List.map tolower))) := by
  induction fuel generalizing p r a with
  | zero => exact absurd hfuel (Nat.not_lt_zero _)
  | succ fuel ih =>
    rw [hostsLoop, words]
    by_cases hnil : p = []
    · rw [if_pos hnil, if_pos hnil]
      exact ⟨r, rfl, h⟩
    rw [if_neg hnil, if_neg hnil, List.map_cons, Listed.run]
    -- a word is copied
    have hq : (p.dropWhile isSeparator).length ≤ p.length := List.length_dropWhile_le _ _
    have hrest := length_rest hnil
    have hnul : 0#8 ∉ p.dropWhile isSeparator := fun hmem ↦
      hp ((List.dropWhile_suffix _).subset hmem)
    generalize p.dropWhile isSeparator = q at hq hnul hrest ⊢
    obtain ⟨m, hm, hlenm, hheldm⟩ := copyHost_spec q hnul (holds_nil r.hostbuf)
      (by rw [List.length_nil, h.hostbuf]; omega)
    rw [List.length_nil, Nat.zero_add] at hm
    rw [List.nil_append] at hheldm
    have hword : (q.takeWhile (!isSeparator ·)).length ≤ q.length :=
      (List.takeWhile_prefix _).length_le
    obtain ⟨m', hm', hlenm', hheldm'⟩ := hheldm.store
      (by rw [List.length_map, hlenm, h.hostbuf]; omega) 0#8
    rw [List.length_map] at hm'
    have hshows := h.of_hostbuf (hlenm'.trans (hlenm.trans h.hostbuf))
    -- it is the next host
    obtain ⟨r₁, hr₁, hshows₁⟩ := hshows.take hsize multiple hheldm'
      (nul_tolower fun hmem ↦ hnul ((List.takeWhile_prefix _).subset hmem))
    rw [List.length_map] at hr₁
    simp only [hm, hm', hr₁, Option.bind_eq_bind, Option.bind_some]
    split_ifs
    · exact ih hshows₁ (fun hmem ↦ hnul ((List.dropWhile_suffix _).subset hmem)) (by omega)
        (by omega)
    · exact ⟨r₁, rfl, hshows₁⟩

/-- What is read of an entry. -/
def listed (multiple : Bool) (entry : List U8) (hnamelen : ℕ) : Listed :=
  if hnamelen ≠ 0 then
    Listed.run multiple hnamelen ((words BUFFER (entry.take (BUFFER - 1))).map (List.map tolower))
      ⟨[], 0⟩
  else ⟨[], 0⟩

/-- **Nothing is written out of range**, and the buffer of the caller is given the hosts. -/
theorem readHostnameAndPort_spec (multiple : Bool) {entry : List U8} (hentry : 0#8 ∉ entry)
    {hostname : List U8} {hnamelen : ℕ} (hsize : hnamelen ≤ hostname.length) (port : ℤ)
    (hostbuf : Bytes BUFFER) :
    ∃ hostname', readHostnameAndPort multiple entry hostname hnamelen port hostbuf.1
        = some (hostname', if (listed multiple entry hnamelen).port ≠ 0 then
            ((listed multiple entry hnamelen).port : ℤ) else port)
      ∧ hostname'.length = hostname.length
      ∧ ((listed multiple entry hnamelen).hosts = [] → hostname' = hostname)
      ∧ ((listed multiple entry hnamelen).hosts ≠ [] →
        Memory.Holds hostname' (joined (listed multiple entry hnamelen).hosts ++ [0#8])) := by
  have hnothing : ∃ hostname', some (hostname, port) = some (hostname', port)
      ∧ hostname'.length = hostname.length ∧ (([] : List (List U8)) = [] → hostname' = hostname)
      ∧ (([] : List (List U8)) ≠ [] → Memory.Holds hostname' (joined [] ++ [0#8])) :=
    ⟨hostname, rfl, rfl, fun _ ↦ rfl, fun hne ↦ absurd rfl hne⟩
  rw [readHostnameAndPort, listed]
  by_cases hzero : hnamelen ≠ 0
  · rw [if_pos hzero]
    by_cases hempty : entry ≠ []
    · have hstart : (⟨hostbuf.1, hostname, 0, hnamelen, 0, 0⟩ : Hosts).Shows hnamelen hostname
          ⟨[], 0⟩ :=
        ⟨hostbuf.2, rfl, Nat.zero_add _, rfl, rfl, holds_nil _, fun hne ↦ absurd rfl hne,
          fun _ ↦ rfl, rfl⟩
      have hcut : (entry.take (BUFFER - 1)).length < BUFFER :=
        (List.length_take_le _ _).trans_lt (by decide)
      obtain ⟨r, hr, hshows⟩ := hstart.loop hsize multiple
        (fun hmem ↦ hentry (List.mem_of_mem_take hmem)) hcut hcut
      rw [if_pos ⟨hzero, hempty⟩, hr, ← hshows.port]
      exact ⟨r.hostname, rfl, hshows.length, hshows.same, hshows.ended⟩
    · rw [if_neg fun h ↦ hempty h.2, not_ne_iff.mp hempty]
      exact hnothing
  · rw [if_neg hzero, if_neg fun h ↦ hzero h.1]
    exact hnothing

end Hyunjin.Conf
