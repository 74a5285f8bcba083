import Hyunjin.Net.Netconn

/-!
# What is sent in UUE is received

A reader of UUE decodes the lines that have come and waits for more, up to the line that ends the
data. A line of data is taken for that one if its characters happen to begin with `END`, in
capitals or not. Only a line of 37 bytes can do so, as the first character is its length; and of the
lines that are sent only the last can have 37 bytes.
-/

namespace Hyunjin.Net

namespace Decode

variable {host : NetHost} {net : Netstate} {l data : List U8}

/-! ## Lines -/

/-- A loop that reads UUE, with nothing announced. -/
def reading (net : Netstate) (buf : List U8) : Decode where
  net := net
  readMode := .uue
  decodebuffer := buf
  contentLength := 0#32
  modedetPending := false
  httpClose := false
  needClose := false
  gotfullpacket := false

/-- There is memory enough. -/
def Roomy (host : NetHost) : Prop := ∀ spool n, host.reserve spool n = true

/-- Data goes into the buffer of a connection. -/
def append (net : Netstate) (data : List U8) : Netstate :=
  { net with netbuffer := net.netbuffer ++ data }

theorem append_append (net : Netstate) (data data' : List U8) :
    append (append net data) data' = append net (data ++ data') := by
  rw [append, append, append, List.append_assoc]

theorem append_nil (net : Netstate) : append net [] = net := by
  rw [append, List.append_nil]

/-- The beginning of a line, as it is looked at. -/
def lineHead (l : List U8) : List U8 := (l.take (UUE_LCBUF - 1)).map tolower

/-- The line ends the data. -/
def Ends (l : List U8) : Prop := END <+: lineHead l

instance (l : List U8) : Decidable (Ends l) := inferInstanceAs (Decidable (_ <+: _))

/-- A line that is gone over, and what is decoded from it. -/
structure Passes (host : NetHost) (l data : List U8) : Prop where
  printable : ∀ c ∈ l, Printable c
  step : ∀ net rest, uueLine host (reading net (l ++ CR :: LF :: rest))
    = some (reading (append net data) rest, true)

/-- A line that ends the data. -/
structure Stops (host : NetHost) (l : List U8) : Prop where
  printable : ∀ c ∈ l, Printable c
  step : ∀ net rest, uueLine host (reading net (l ++ CR :: LF :: rest))
    = some ({ reading net (l ++ CR :: LF :: rest) with gotfullpacket := true }, false)

theorem lineBuffer_line (l rest : List U8) :
    lineBuffer (l ++ CR :: LF :: rest) l.length UUE_LCBUF = lineHead l := by
  rw [lineBuffer, lineHead, List.take_append_of_le_length (Nat.min_le_left _ _), ← List.take_take,
    List.take_of_length_le (List.length_take_le' _ _)]

theorem stops_of_ends (hl : ∀ c ∈ l, Printable c) (h : Ends l) : Stops host l where
  printable := hl
  step net rest := by
    rw [uueLine, reading, peekNetline_line hl]
    dsimp only
    rw [lineBuffer_line, if_pos (show END <+: lineHead l from h)]

theorem passes_begin : Passes host BEGIN_LINE [] where
  printable := by decide
  step net rest := by
    have hend : ¬END <+: lineHead BEGIN_LINE := by decide
    have hbegin : ¬(1 < BEGIN_LINE.length ∧ ¬BEGIN <+: lineHead BEGIN_LINE) := by decide
    rw [uueLine, reading, peekNetline_line (by decide)]
    dsimp only
    rw [lineBuffer_line, if_neg hend, if_neg hbegin, append_nil]
    rfl

/-- The bytes that the line at the head of a buffer says it has. -/
def declared (buf : List U8) : ℕ := (uuDec (buf.headD 0#8)).toNat

/-- A line at the head of a buffer that is decoded. -/
structure DataLine (buf : List U8) (linelen skip : ℕ) : Prop where
  peek : peekNetline buf = .line linelen skip
  not_end : ¬END <+: lineBuffer buf linelen UUE_LCBUF
  long : 1 < linelen
  not_begin : ¬BEGIN <+: lineBuffer buf linelen UUE_LCBUF
  enough : uuLen (declared buf) ≤ linelen

/-- What a line is decoded into. -/
theorem uueLine_data {buf : List U8} {linelen skip : ℕ} (h : DataLine buf linelen skip)
    (net : Netstate) : uueLine host (reading net buf)
      = (uuDecodeLine buf.length (declared buf) buf).map fun mem ↦
        if host.reserve net.netbuffer (declared buf) then
          (reading (append net (mem.take (declared buf))) (mem.drop skip), true)
        else ((reading net mem).fail, false) := by
  rw [uueLine, reading, h.peek]
  dsimp only
  rw [if_neg h.not_end, if_pos ⟨h.long, h.not_begin⟩]
  exact if_neg (not_lt.mpr h.enough)

/-- A line of data is none that begins the data. -/
theorem not_begin (data : List U8) : ¬BEGIN <+: lineHead (uuLine data) := by
  intro h
  have hspace : SPACE ∈ lineHead (uuLine data) := h.subset (by decide)
  obtain ⟨c, hc, hlower⟩ := List.mem_map.mp hspace
  obtain ⟨b, rfl⟩ := uuLine_mem c (List.mem_of_mem_take hc)
  have hnone : ∀ b, tolower (uuEnc b) ≠ SPACE := by decide
  exact hnone b hlower

/-- **A line of data** that is not taken for the end is decoded. -/
theorem passes_uuLine (hhost : Roomy host) (hne : data ≠ []) (hlen : data.length ≤ LINELEN)
    (h : ¬Ends (uuLine data)) : Passes host (uuLine data) data where
  printable := uuLine_printable
  step net rest := by
    have hpos := List.length_pos_iff.mpr hne
    have hline : (uuLine data).length = (data.length + 2) / 3 * 4 + 1 := by
      rw [uuLine, List.length_cons, length_uuGroups]
    have hdeclared : declared (uuLine data ++ CR :: LF :: rest) = data.length := uuDec_length hlen
    have hdata : DataLine (uuLine data ++ CR :: LF :: rest) (uuLine data).length
        ((uuLine data).length + 2) :=
      { peek := peekNetline_line uuLine_printable rest
        not_end := by rwa [lineBuffer_line]
        long := by omega
        not_begin := by
          rw [lineBuffer_line]
          exact not_begin data
        enough := by
          rw [hdeclared, hline, uuLen]
          omega }
    have hneed := uuNeed_le data.length
    have henough := hdata.enough
    rw [hdeclared] at henough
    obtain ⟨mem, hmem, -, htake, hdrop⟩ := uuDecodeLine_spec data.length
      (uuLine data ++ CR :: LF :: rest)
      (by rw [List.length_append, List.length_cons]; omega) le_rfl
    have hbytes : mem.take data.length = data := by
      rw [htake]
      exact uuBytes_uuGroups data _
    have hrest : mem.drop ((uuLine data).length + 2) = rest := by
      rw [hdrop _ (by omega), ← List.drop_drop, List.drop_left]
      rfl
    rw [uueLine_data hdata, hdeclared, hmem, Option.map_some, if_pos (hhost _ _), hbytes, hrest]

/-! ## Lines in chunks -/

/-- What has come of a text is its first line, or a part of it. -/
theorem line_or_part {buf more tail : List U8} (h : buf ++ more = l ++ CR :: LF :: tail) :
    (∃ rest, buf = l ++ CR :: LF :: rest ∧ rest ++ more = tail)
      ∨ (buf <+: l ++ [CR] ∧ more ≠ []) := by
  have h' : buf ++ more = (l ++ [CR]) ++ LF :: tail := by
    rw [h, List.append_assoc]
    rfl
  rcases List.append_eq_append_iff.mp h' with ⟨s, hl, hmore⟩ | ⟨s, hbuf, htail⟩
  · refine .inr ⟨⟨s, hl.symm⟩, ?_⟩
    rw [hmore]
    exact List.append_ne_nil_of_right_ne_nil _ (List.cons_ne_nil _ _)
  · cases s with
    | nil =>
      rw [List.append_nil] at hbuf
      refine .inr ⟨⟨[], ?_⟩, ?_⟩
      · rw [List.append_nil, hbuf]
      · rw [← List.nil_append more, ← htail]
        exact List.cons_ne_nil _ _
    | cons c rest =>
      obtain ⟨rfl, hrest⟩ := List.cons.inj htail
      refine .inl ⟨rest, ?_, hrest.symm⟩
      rw [hbuf, List.append_assoc]
      rfl

/-- A line of which a part has come is left. -/
theorem linesLoop_part {buf : List U8} (hl : ∀ c ∈ l, Printable c) (hbuf : buf <+: l ++ [CR])
    (fuel : ℕ) (net : Netstate) :
    linesLoop (uueLine host) (fuel + 1) (reading net buf) = some (reading net buf) := by
  rw [linesLoop, uueLine, reading, peekNetline_unended hl hbuf, Option.bind_some]
  rfl

/-- Lines and what is decoded from them. -/
abbrev Lines := List (List U8 × List U8)

/-- The state at the line that ends the data. -/
def ended (net : Netstate) (buf : List U8) : Decode :=
  { reading net buf with gotfullpacket := true }

/-- **The lines that have come are decoded**: all up to the one that ends the data, or some, and
there is more to come. -/
theorem linesLoop_text {lines : Lines} {last buf more tail : List U8}
    (hpass : ∀ l ∈ lines, Passes host l.1 l.2) (hstop : Stops host last)
    (h : buf ++ more = textOf (lines.map Prod.fst) ++ (last ++ CR :: LF :: tail)) (net : Netstate)
    {fuel : ℕ} (hfuel : buf.length < fuel) :
    (∃ rest, rest ++ more = tail ∧ linesLoop (uueLine host) fuel (reading net buf)
      = some (ended (append net (lines.flatMap Prod.snd)) (last ++ CR :: LF :: rest)))
    ∨ (more ≠ [] ∧ ∃ passed left buf', lines = passed ++ left
      ∧ buf' ++ more = textOf (left.map Prod.fst) ++ (last ++ CR :: LF :: tail)
      ∧ linesLoop (uueLine host) fuel (reading net buf)
        = some (reading (append net (passed.flatMap Prod.snd)) buf')) := by
  induction lines generalizing buf net fuel with
  | nil =>
    obtain ⟨fuel, rfl⟩ := Nat.exists_eq_succ_of_ne_zero (Nat.ne_zero_of_lt hfuel)
    rcases line_or_part h with ⟨rest, rfl, hrest⟩ | ⟨hpart, hmore⟩
    · refine .inl ⟨rest, hrest, ?_⟩
      rw [linesLoop, hstop.step, Option.bind_some, List.flatMap_nil, append_nil]
      rfl
    · refine .inr ⟨hmore, [], [], buf, rfl, h, ?_⟩
      rw [linesLoop_part hstop.printable hpart, List.flatMap_nil, append_nil]
  | cons l lines ih =>
    obtain ⟨fuel, rfl⟩ := Nat.exists_eq_succ_of_ne_zero (Nat.ne_zero_of_lt hfuel)
    have hl := hpass l List.mem_cons_self
    have htext : buf ++ more
        = l.1 ++ CR :: LF :: (textOf (lines.map Prod.fst) ++ (last ++ CR :: LF :: tail)) := by
      rw [h, List.map_cons, textOf_cons, List.append_assoc]
      rfl
    rcases line_or_part htext with ⟨rest, rfl, hrest⟩ | ⟨hpart, hmore⟩
    · rw [linesLoop, hl.step, Option.bind_some]
      simp only [if_true]
      have hfuel' : rest.length < fuel := by
        rw [List.length_append, List.length_cons, List.length_cons] at hfuel
        omega
      rcases ih (fun l hl ↦ hpass l (List.mem_cons_of_mem _ hl)) hrest (append net l.2)
        hfuel' with ⟨rest', hrest', hloop⟩ |
        ⟨hmore, passed, left, buf', rfl, hbuf', hloop⟩
      · refine .inl ⟨rest', hrest', ?_⟩
        rw [hloop, append_append, List.flatMap_cons]
      · refine .inr ⟨hmore, l :: passed, left, buf', rfl, hbuf', ?_⟩
        rw [hloop, append_append, List.flatMap_cons]
    · refine .inr ⟨hmore, [], l :: lines, buf, rfl, h, ?_⟩
      rw [linesLoop_part hl.printable hpart, List.flatMap_nil, append_nil]

/-- The connection is known to be in UUE. -/
def uueMode (net : Netstate) : Netstate := { net with modeUue := true }

theorem decode_reading (net : Netstate) (buf : List U8) : decode host (reading net buf)
    = linesLoop (uueLine host) (buf.length + 1) (reading (uueMode net) buf) := rfl

/-- The chunks that a peer sends. -/
def sends (chunks : List (List U8)) : List Chunk := chunks.map .bytes

/-- More is read if there is more. -/
theorem readMore_sends (hhost : Roomy host) {chunks : List (List U8)}
    (hchunks : ∀ c ∈ chunks, c ≠ []) (hmore : chunks.flatten ≠ []) (net : Netstate)
    (buf : List U8) : ∃ part chunks', readMore host (reading net buf) (sends chunks)
        = (reading net (buf ++ part), sends chunks')
      ∧ part ≠ [] ∧ chunks.flatten = part ++ chunks'.flatten ∧ ∀ c ∈ chunks', c ≠ [] := by
  cases chunks with
  | nil => exact absurd rfl hmore
  | cons c chunks =>
    have hrest : ∀ c ∈ chunks, c ≠ [] := fun c hc ↦ hchunks c (List.mem_cons_of_mem _ hc)
    cases c with
    | nil => exact absurd rfl (hchunks [] List.mem_cons_self)
    | cons a c =>
      rw [readMore, show (reading net buf).request = 500 from rfl, if_neg (by decide),
        if_pos (hhost _ _), sends, List.map_cons, netRead]
      by_cases hall : (a :: c).length ≤ 500
      · rw [if_pos hall]
        exact ⟨a :: c, chunks, rfl, List.cons_ne_nil _ _, List.flatten_cons, hrest⟩
      · rw [if_neg hall, List.take_succ_cons]
        refine ⟨a :: c.take 499, (a :: c).drop 500 :: chunks, rfl, List.cons_ne_nil _ _, ?_, ?_⟩
        · rw [List.flatten_cons, List.flatten_cons, ← List.append_assoc, ← List.take_succ_cons,
            List.take_append_drop]
        · rw [List.forall_mem_cons]
          refine ⟨?_, hrest⟩
          rw [ne_eq, List.drop_eq_nil_iff]
          exact hall

/-- **A text is decoded up to the line that ends the data**, in whatever chunks it comes. -/
theorem loop_text (hhost : Roomy host) {lines : Lines} {last buf tail : List U8}
    {chunks : List (List U8)} (hpass : ∀ l ∈ lines, Passes host l.1 l.2) (hstop : Stops host last)
    (hchunks : ∀ c ∈ chunks, c ≠ [])
    (h : buf ++ chunks.flatten = textOf (lines.map Prod.fst) ++ (last ++ CR :: LF :: tail))
    (net : Netstate) : ∃ fuel rest chunks',
      rest ++ chunks'.flatten = tail ∧ (∀ c ∈ chunks', c ≠ [])
      ∧ loop host fuel (reading net buf, sends chunks) = some
        (ended (uueMode (append net (lines.flatMap Prod.snd))) (last ++ CR :: LF :: rest),
          sends chunks') := by
  induction hsize : chunks.flatten.length using Nat.strong_induction_on
    generalizing lines buf chunks net with
  | _ size ih =>
    subst hsize
    have hdecode := linesLoop_text hpass hstop h (uueMode net) (Nat.lt_succ_self buf.length)
    rcases hdecode with ⟨rest, hrest, hlines⟩ | ⟨hmore, passed, left, buf', rfl, hbuf', hlines⟩
    · refine ⟨2, rest, chunks, hrest, hchunks, ?_⟩
      rw [loop, Run.whileLoop_next rfl (t := (ended (uueMode (append net (lines.flatMap Prod.snd)))
        (last ++ CR :: LF :: rest), sends chunks)), Run.whileLoop_done rfl]
      rw [round, decode_reading, hlines, Option.map_some]
      rfl
    · obtain ⟨part, chunks', hread, hpart, hflatten, hchunks'⟩ := readMore_sends hhost hchunks hmore
        (append (uueMode net) (passed.flatMap Prod.snd)) buf'
      rw [hflatten, ← List.append_assoc] at hbuf'
      have hless : chunks'.flatten.length < chunks.flatten.length := by
        have hpos := List.length_pos_iff.mpr hpart
        rw [hflatten, List.length_append]
        omega
      obtain ⟨fuel, rest, chunks'', hrest, hchunks'', hloop⟩ := ih _ hless
        (fun l hl ↦ hpass l (List.mem_append_right _ hl)) hchunks' hbuf'
        (append (uueMode net) (passed.flatMap Prod.snd)) rfl
      refine ⟨fuel + 1, rest, chunks'', hrest, hchunks'', ?_⟩
      have hround : round host (reading net buf, sends chunks)
          = some (reading (append (uueMode net) (passed.flatMap Prod.snd)) (buf' ++ part),
            sends chunks') := by
        rw [round, decode_reading, hlines, Option.map_some, ← hread]
        rfl
      rw [loop, Run.whileLoop_next rfl hround]
      rw [loop, append_append, ← List.flatMap_append] at hloop
      exact hloop

/-! ## Data -/

/-- **The last line has 37 bytes and reads `END`**: they begin with `0xBA`, and with `0x4` in the
upper half of the second. -/
def EndsEarly (data : List U8) : Prop :=
  ∃ lines b rest, data = lines ++ 0xBA#8 :: b :: rest ∧ lines.length % LINELEN = 0
    ∧ b >>> 4 = 4#8 ∧ rest.length = 35

theorem tolower_uuEnc (c : U8) : (tolower (uuEnc c) = 101#8 ↔ c &&& 63#8 = 37#8)
    ∧ (tolower (uuEnc c) = 110#8 ↔ c &&& 63#8 = 46#8)
    ∧ (tolower (uuEnc c) = 100#8 ↔ c &&& 63#8 = 36#8) := by
  revert c
  decide +kernel

theorem end_group (a b : U8) : (tolower (uuEnc (a >>> 2)) = 110#8
      ∧ tolower (uuEnc ((a <<< 4 &&& 48#8) ||| (b >>> 4 &&& 15#8))) = 100#8)
    ↔ a = 0xBA#8 ∧ b >>> 4 = 4#8 := by
  rw [(tolower_uuEnc _).2.1, (tolower_uuEnc _).2.2]
  constructor
  · rintro ⟨h₁, h₂⟩
    have ha := uuBytes_first a b
    rw [uuDec_uuEnc, uuDec_uuEnc, h₁, h₂] at ha
    obtain rfl : a = 0xBA#8 := ha.symm
    refine ⟨rfl, ?_⟩
    revert b
    decide +kernel
  · rintro ⟨rfl, hb⟩
    rw [hb]
    decide

theorem ends_uuLine (hlen : data.length ≤ LINELEN) : Ends (uuLine data) ↔
    ∃ b rest, data = 0xBA#8 :: b :: rest ∧ b >>> 4 = 4#8 ∧ rest.length = 35 := by
  have hsize : ∀ n ≤ LINELEN, BitVec.ofNat 8 n &&& 63#8 = 37#8 ↔ n = 37 := by decide
  rw [Ends, END, lineHead, UUE_LCBUF, uuLine, List.take_succ_cons, List.map_cons,
    List.cons_prefix_cons, eq_comm, (tolower_uuEnc _).1, hsize _ hlen]
  rcases data with _ | ⟨a, _ | ⟨b, _ | ⟨c, data⟩⟩⟩
  rotate_right
  · rw [uuGroups, List.take_succ_cons, List.take_succ_cons, List.map_cons, List.map_cons,
      List.cons_prefix_cons, List.cons_prefix_cons, eq_comm (a := 110#8), eq_comm (a := 100#8),
      and_iff_left List.nil_prefix, end_group]
    constructor
    · rintro ⟨hlength, rfl, hb⟩
      exact ⟨b, c :: data, rfl, hb, Nat.add_right_cancel (m := 2) hlength⟩
    · rintro ⟨b', rest, hdata, hb, hrest⟩
      obtain ⟨ha, hdata⟩ := List.cons.inj hdata
      obtain ⟨rfl, rfl⟩ := List.cons.inj hdata
      exact ⟨by rw [List.length_cons, List.length_cons, hrest], ha, hb⟩
  all_goals
    refine iff_of_false (fun h ↦ absurd h.1 (by simp)) ?_
    rintro ⟨b, rest, hdata, -, hrest⟩
    have hlength := congrArg List.length hdata
    simp only [List.length_cons, List.length_nil, hrest] at hlength
    omega

theorem EndsEarly.length_mod (h : EndsEarly data) : data.length % LINELEN = 37 := by
  obtain ⟨lines, b, rest, rfl, hlines, -, hrest⟩ := h
  rw [List.length_append, List.length_cons, List.length_cons, hrest, Nat.add_mod, hlines]
  rfl

/-- The last line is the last one for what follows the first. -/
theorem endsEarly_drop (h : LINELEN < data.length) :
    EndsEarly (data.drop LINELEN) ↔ EndsEarly data := by
  constructor
  · rintro ⟨lines, b, rest, hdata, hlines, hb, hrest⟩
    refine ⟨data.take LINELEN ++ lines, b, rest, ?_, ?_, hb, hrest⟩
    · rw [List.append_assoc, ← hdata, List.take_append_drop]
    · rw [List.length_append, List.length_take_of_le h.le, Nat.add_mod_left, hlines]
  · rintro ⟨lines, b, rest, rfl, hlines, hb, hrest⟩
    rw [List.length_append, List.length_cons, List.length_cons, hrest] at h
    have hle : LINELEN ≤ lines.length := by
      rw [LINELEN] at *
      omega
    refine ⟨lines.drop LINELEN, b, rest, List.drop_append_of_le_length hle, ?_, hb, hrest⟩
    rw [List.length_drop, ← Nat.mod_eq_sub_mod hle, hlines]

/-- The data of a single line ends early if the line does. -/
theorem endsEarly_short (h : data.length ≤ LINELEN) : EndsEarly data ↔ Ends (uuLine data) := by
  rw [ends_uuLine h]
  constructor
  · rintro ⟨lines, b, rest, rfl, hlines, hb, hrest⟩
    rw [List.length_append, List.length_cons, List.length_cons, hrest] at h
    obtain rfl : lines = [] := by
      rw [← List.length_eq_zero_iff, ← Nat.mod_eq_of_lt (a := lines.length) (b := LINELEN), hlines]
      omega
    exact ⟨b, rest, rfl, hb, hrest⟩
  · rintro ⟨b, rest, rfl, hb, hrest⟩
    exact ⟨[], b, rest, rfl, rfl, hb, hrest⟩

/-- The data is sent in pieces. -/
theorem exists_pieces {fuel : ℕ} (h : data.length ≤ fuel) : ∃ pieces : List (List U8),
    uuLinesLoop fuel data = pieces.map uuLine ∧ pieces.flatten = data
      ∧ (∀ p ∈ pieces, p ≠ [] ∧ p.length ≤ LINELEN)
      ∧ (EndsEarly data ↔ ∃ p ∈ pieces, Ends (uuLine p)) := by
  induction fuel generalizing data with
  | zero =>
    obtain rfl := List.length_eq_zero_iff.mp (Nat.le_zero.mp h)
    exact ⟨[], rfl, rfl, List.forall_mem_nil _,
      iff_of_false (fun h ↦ absurd h.length_mod (by decide)) fun h ↦ nomatch h⟩
  | succ fuel ih =>
    by_cases hnil : data = []
    · subst hnil
      exact ⟨[], rfl, rfl, List.forall_mem_nil _,
        iff_of_false (fun h ↦ absurd h.length_mod (by decide)) fun h ↦ nomatch h⟩
    have hpos := List.length_pos_iff.mpr hnil
    have hdrop : (data.drop LINELEN).length ≤ fuel := by
      rw [List.length_drop, LINELEN]
      omega
    obtain ⟨pieces, hlines, hflatten, hpieces, hends⟩ := ih hdrop
    refine ⟨data.take LINELEN :: pieces, ?_, ?_, ?_, ?_⟩
    · rw [uuLinesLoop, if_neg hnil, hlines, List.map_cons]
    · rw [List.flatten_cons, hflatten, List.take_append_drop]
    · rw [List.forall_mem_cons]
      refine ⟨⟨?_, List.length_take_le _ _⟩, hpieces⟩
      rw [ne_eq, List.take_eq_nil_iff]
      exact not_or.mpr ⟨by decide, hnil⟩
    · rw [List.exists_mem_cons_iff, ← hends, ← endsEarly_short (List.length_take_le _ _)]
      rcases le_or_gt data.length LINELEN with hle | hlt
      · rw [List.take_of_length_le hle, List.drop_eq_nil_of_le hle]
        exact (or_iff_left fun h ↦ absurd h.length_mod (by decide)).symm
      · rw [endsEarly_drop hlt]
        refine (or_iff_right fun h ↦ absurd h.length_mod ?_).symm
        rw [List.length_take_of_le hlt.le]
        decide

/-- **What is sent is received**: however it is cut into chunks, exactly the data goes into the
buffer of the connection, and reading ends at the line `end`. -/
def RoundTrips (data : List U8) : Prop :=
  ∀ (host : NetHost) (net : Netstate) (first : List U8) (chunks : List (List U8)), Roomy host →
    (∀ c ∈ chunks, c ≠ []) → first ++ chunks.flatten = uueText data →
    ∃ fuel t, loop host fuel (enter host net .uue first, sends chunks) = some t
      ∧ t.1.net.netbuffer = net.netbuffer ++ data ∧ t.1.needClose = false
      ∧ t.1.gotfullpacket = true ∧ t.1.decodebuffer = END ++ [CR, LF] ∧ t.2 = []

theorem enter_eq_reading (hhost : Roomy host) (net : Netstate) (first : List U8) :
    enter host net .uue first = reading net first := by
  rw [enter, hhost]
  rfl

/-- The lines of a text that does not end early, or of one up to where it does. -/
theorem loop_pieces (hhost : Roomy host) {pieces : List (List U8)} {last first tail : List U8}
    (chunks : List (List U8)) (hpieces : ∀ p ∈ pieces, p ≠ [] ∧ p.length ≤ LINELEN)
    (hends : ∀ p ∈ pieces, ¬Ends (uuLine p)) (hlast : ∀ c ∈ last, Printable c) (hend : Ends last)
    (hchunks : ∀ c ∈ chunks, c ≠ [])
    (h : first ++ chunks.flatten
      = textOf (BEGIN_LINE :: pieces.map uuLine) ++ (last ++ CR :: LF :: tail))
    (net : Netstate) : ∃ fuel rest chunks',
      rest ++ chunks'.flatten = tail ∧ (∀ c ∈ chunks', c ≠ [])
      ∧ loop host fuel (enter host net .uue first, sends chunks) = some
        (ended (uueMode (append net pieces.flatten)) (last ++ CR :: LF :: rest),
          sends chunks') := by
  let lines : Lines := (BEGIN_LINE, []) :: pieces.map fun p ↦ (uuLine p, p)
  have hpass : ∀ l ∈ lines, Passes host l.1 l.2 := by
    refine List.forall_mem_cons.mpr ⟨passes_begin, List.forall_mem_map.mpr fun p hp ↦ ?_⟩
    exact passes_uuLine hhost (hpieces p hp).1 (hpieces p hp).2 (hends p hp)
  have hfst : lines.map Prod.fst = BEGIN_LINE :: pieces.map uuLine := by
    rw [List.map_cons, List.map_map]
    rfl
  have hsnd : lines.flatMap Prod.snd = pieces.flatten := by
    rw [List.flatMap_cons, List.flatMap_map, List.nil_append]
    exact List.flatMap_id'
  rw [← hfst] at h
  rw [enter_eq_reading hhost, ← hsnd]
  exact loop_text hhost hpass (stops_of_ends hlast hend) hchunks h net

/-- Data round-trips exactly if its last line is not taken for the end. -/
theorem roundTrips_iff (data : List U8) : RoundTrips data ↔ ¬EndsEarly data := by
  obtain ⟨pieces, hlines, hflatten, hpieces, hends⟩ := exists_pieces (le_refl data.length)
  rw [hends]
  have htext : uueText data
      = textOf (BEGIN_LINE :: pieces.map uuLine) ++ (END ++ CR :: LF :: []) := by
    rw [uueText, hlines, textOf_append]
    rfl
  constructor
  · rintro h ⟨p, hp, hend⟩
    -- the loop stops at the first line that reads `END`
    have hfind : (pieces.find? fun p ↦ Ends (uuLine p)).isSome :=
      List.find?_isSome.mpr ⟨p, hp, decide_eq_true hend⟩
    obtain ⟨q, hq⟩ := Option.isSome_iff_exists.mp hfind
    obtain ⟨hqend, before, after, rfl, hbefore⟩ := List.find?_eq_some_iff_append.mp hq
    have hcut : uueText data = textOf (BEGIN_LINE :: before.map uuLine)
        ++ (uuLine q ++ CR :: LF :: textOf (after.map uuLine ++ [END])) := by
      rw [uueText, hlines, List.map_append, List.map_cons, ← List.cons_append, List.append_assoc,
        textOf_append, List.cons_append, textOf_cons (uuLine q)]
    have hends' : ∀ p ∈ before, ¬Ends (uuLine p) := fun p hp ↦ by
      have hp' := hbefore p hp
      rwa [Bool.not_eq_true', decide_eq_false_iff_not] at hp'
    have hroomy : Roomy plainHost := fun _ _ ↦ rfl
    obtain ⟨fuel, rest, chunks', -, -, hloop⟩ := loop_pieces hroomy []
      (fun p hp ↦ hpieces p (List.mem_append_left _ hp)) hends' uuLine_printable
      (of_decide_eq_true hqend) (List.forall_mem_nil _) ((List.append_nil _).trans hcut) newNet
    obtain ⟨fuel', t, ht, hbuffer, -⟩ := h plainHost newNet _ [] hroomy (List.forall_mem_nil _)
      (List.append_nil _)
    obtain rfl := Run.whileLoop_unique hloop ht
    -- the line is not in the buffer
    have hshort : newNet.netbuffer ++ before.flatten = newNet.netbuffer ++ data := hbuffer
    have hlen := congrArg List.length (List.append_cancel_left hshort)
    have hpos := List.length_pos_iff.mpr (hpieces q List.mem_append_cons_self).1
    rw [← hflatten, List.flatten_append, List.flatten_cons, List.length_append,
      List.length_append] at hlen
    omega
  · intro hnot host net first chunks hhost hchunks h
    obtain ⟨fuel, rest, chunks', hrest, hchunks', hloop⟩ := loop_pieces hhost chunks hpieces
      (fun p hp hend ↦ hnot ⟨p, hp, hend⟩) (by decide) (by decide) hchunks (h.trans htext) net
    obtain ⟨rfl, hnil⟩ := List.append_eq_nil_iff.mp hrest
    have hpeer : chunks' = [] := by
      rw [List.eq_nil_iff_forall_not_mem]
      exact fun c hc ↦ hchunks' c hc (List.flatten_eq_nil_iff.mp hnil c hc)
    refine ⟨fuel, _, hloop, ?_, rfl, rfl, rfl, ?_⟩
    · rw [ended, reading, uueMode, append, hflatten]
    · rw [hpeer]
      rfl

/-! ## The end of a line -/

/-- A line is decoded from its own characters. -/
def ReadsWithin (buf : List U8) : Prop :=
  ∀ linelen skip, DataLine buf linelen skip →
    ∃ mem, uuDecodeLine linelen (declared buf) buf = some mem

/-- The characters behind a limit are needed for a group that is not full. -/
theorem DataLine.decodes_iff {buf : List U8} {linelen skip : ℕ} (h : DataLine buf linelen skip) :
    (∃ mem, uuDecodeLine linelen (declared buf) buf = some mem)
      ↔ declared buf % 3 = 0 ∨ uuLen (declared buf) < linelen := by
  have hpeek := peekNetline_spec h.peek
  have hlong := h.long
  have henough := h.enough
  have hneed := uuNeed_eq (declared buf)
  rw [uuLen] at henough ⊢
  constructor
  · rintro ⟨mem, hmem⟩
    by_contra hnot
    rw [uuDecodeLine, uuLoop_eq_none _ hlong.le] at hmem
    · cases hmem
    · rw [hneed, if_neg fun hfull ↦ hnot (.inl hfull)]
      omega
  · intro hroom
    have hall : 1 + uuNeed (declared buf) ≤ linelen := by
      rw [hneed]
      split_ifs <;> omega
    obtain ⟨mem, hmem, -⟩ := uuDecodeLine_spec (declared buf) buf hall (by omega)
    exact ⟨mem, hmem⟩

/-- The character behind the line is the only other one that is read. -/
theorem DataLine.decodes_next {buf : List U8} {linelen skip : ℕ} (h : DataLine buf linelen skip) :
    ∃ mem, uuDecodeLine (linelen + 1) (declared buf) buf = some mem := by
  have hpeek := peekNetline_spec h.peek
  have hneed := uuNeed_le (declared buf)
  have henough := h.enough
  have hall : 1 + uuNeed (declared buf) ≤ linelen + 1 := by omega
  obtain ⟨mem, hmem, -⟩ := uuDecodeLine_spec (declared buf) buf hall (by omega)
  exact ⟨mem, hmem⟩

/-- **UUE comes back** exactly if the last line does not read `END`; and a line is decoded from its
own characters exactly if it has no group that is not full, or a character more than is asked for.
If not, the end of the line is read as a character, and nothing behind it. -/
theorem uue_exact (data buf : List U8) : (RoundTrips data ↔ ¬EndsEarly data)
    ∧ (ReadsWithin buf ↔ ∀ linelen skip, DataLine buf linelen skip →
      declared buf % 3 = 0 ∨ uuLen (declared buf) < linelen)
    ∧ ∀ linelen skip, DataLine buf linelen skip →
      ∃ mem, uuDecodeLine (linelen + 1) (declared buf) buf = some mem :=
  ⟨roundTrips_iff data, forall₂_congr fun _ _ ↦ forall_congr' fun h ↦ h.decodes_iff,
    fun _ _ h ↦ h.decodes_next⟩

/-- Data whose only line begins with `END`. -/
def endingEarly : List U8 := 0xBA#8 :: 0x40#8 :: List.replicate 35 0#8

/-- A line that says it has a byte, for which a character is missing: `!A`. -/
def shortLine : List U8 := [33#8, 65#8, CR, LF]

theorem dataLine_shortLine : DataLine shortLine 2 4 where
  peek := by decide
  not_end := by decide
  long := by decide
  not_begin := by decide
  enough := by decide

/-- **Data does not come back** that reads `END`; and the end of a line is read for a character that
is missing. -/
theorem not_uue : (¬∀ data, data ≠ [] → RoundTrips data) ∧ ¬∀ buf, ReadsWithin buf := by
  constructor
  · intro h
    exact (roundTrips_iff endingEarly).mp (h _ (List.cons_ne_nil _ _))
      ⟨[], 0x40#8, List.replicate 35 0#8, rfl, rfl, by decide, List.length_replicate⟩
  · intro h
    have hroom := dataLine_shortLine.decodes_iff.mp (h _ _ _ dataLine_shortLine)
    exact absurd hroom (by decide)

end Decode

end Hyunjin.Net
