import Hyunjin.Run.Loops
import Hyunjin.Text.Dotstuff
import Hyunjin.Word.Strings

/-!
# The text of a mail

`smtp_send_message_text` sends a text in pieces. A dot at the start of a line is doubled, where the
start of a line is told by the character that has been sent before; for the first character that is
a position of zero, and the position has been advanced by then. A text that starts with a dot is
therefore sent as it is, and all others are sent as they should be (`textRight_iff`).
-/

namespace Hyunjin.Mail

open Dotstuff
open Memory (CString)

/-! ## Sending -/

/-- The variables of `smtp_send_message_text`, with the pieces that have been put on the network. -/
structure Sending where
  txt : List U8
  txtpos : ℕ
  netbuf : List U8
  prevchar : U8
  eotext : Bool
  failed : Bool
  sent : List (List U8)

/-- The next character is read; 0 at the end. -/
def Sending.read (s : Sending) (txtlen : ℕ) : U8 × Sending :=
  match s.txt with
  | [] => (0#8, { s with eotext := true })
  | c :: cs => (c, { s with txt := cs, txtpos := s.txtpos + 1, eotext := s.txtpos + 1 = txtlen })

def Sending.add (s : Sending) (cs : List U8) : Sending := { s with netbuf := s.netbuf ++ cs }

/-- The look ahead after a carriage return: two characters at most, the second only after another
carriage return. -/
def Sending.sbcheck (s : Sending) (txtlen : ℕ) : U8 × U8 × Sending :=
  if s.eotext then (0#8, 0#8, s)
  else
    let (c, s) := s.read txtlen
    if s.eotext then (0#8, 0#8, s)
    else if c ≠ CR then (c, 0#8, s)
    else
      let (d, s) := s.read txtlen
      if s.eotext then (c, 0#8, s) else (c, d, s)

/-- A carriage return has been read. -/
def Sending.carriageReturn (s : Sending) (txtlen : ℕ) : Sending :=
  let (c, d, t) := s.sbcheck txtlen
  if t.eotext then t
  else if c = CR then
    if d = LF then
      if s.prevchar ≠ 32#8 ∧ s.prevchar ≠ 9#8 ∧ s.prevchar ≠ 45#8 then t.add [32#8] else t
    else t.add [CR, LF, CR, LF, d]
  else if c = LF then t.add [CR, LF]
  else t.add [CR, LF, c]

/-- A character is put in the buffer. -/
def Sending.putChar (s : Sending) (txtlen : ℕ) : Sending :=
  let (c, t) := s.read txtlen
  if c = DOT ∧ (t.txtpos = 0 ∨ t.prevchar = LF) then
    if t.eotext then t else t.add [DOT, DOT]
  else if c = CR then t.carriageReturn txtlen
  else if c = LF then if t.prevchar ≠ CR then t.add [CR, LF] else t.add [LF]
  else if c ≠ 0#8 then t.add [c]
  else t

/-- The buffer is sent at the end of the text, or when there is little room left in it. -/
def Sending.flush (s : Sending) (net : ℕ → Bool) : Sending :=
  let s := { s with prevchar := s.netbuf.getLast?.getD 0#8 }
  if s.eotext ∨ 502 ≤ s.netbuf.length then
    { s with sent := s.sent ++ [s.netbuf], netbuf := [], failed := !net s.sent.length }
  else s

def Sending.done (s : Sending) : Bool := s.failed || s.eotext

/-- A turn of the loop; `none` if it writes past the 512 bytes of the buffer. -/
def Sending.turn (net : ℕ → Bool) (txtlen : ℕ) (s : Sending) : Option Sending :=
  let t := s.putChar txtlen
  if t.netbuf.length ≤ 512 then some (t.flush net) else none

def Sending.start (txt : List U8) : Sending := ⟨txt, 0, [], 0#8, false, false, []⟩

/-- `smtp_send_message_text`, with the error code and the pieces that have been put. The piece that
could not be put is the last of them. -/
def smtpSendMessageText (fuel : ℕ) (net : ℕ → Bool) (txt : List U8) : Option (ℤ × List (List U8)) :=
  (Run.whileLoop Sending.done (Sending.turn net txt.length) fuel (Sending.start txt)).map fun s ↦
    (if s.failed then if s.sent.length ≤ 1 then 1 else -1 else 0, s.sent)

/-- What `smtp_send_message_footer` sends. -/
def footer : List U8 := [CR, LF, DOT, CR, LF]

/-! ## Texts with line ends -/

/-- The last character in the buffer, or 0. -/
def Sending.last (s : Sending) : U8 := s.netbuf.getLast?.getD 0#8

/-- What has been sent and what is still to be sent are the text with its dots doubled, if it is
taken not to start with a line. The character before the rest of the text is `prev`. -/
structure Sending.Along (txt : List U8) (prev : U8) (s : Sending) : Prop where
  bytes : s.sent.flatten ++ s.netbuf ++ stuff (prev == LF) s.txt = stuff false txt
  pos : s.txtpos + s.txt.length = txt.length
  lineEnds : LineEnds s.txt
  noNul : 0#8 ∉ s.txt
  prev_ne : s.eotext = false → prev ≠ CR
  going : s.failed = false
  ended : s.eotext = true → s.txt = []

/-- The buffer is checked before the next turn. -/
structure Sending.Inv (txt : List U8) (s : Sending) : Prop extends s.Along txt s.prevchar where
  room : s.netbuf.length < 502
  empty : s.eotext = true → s.netbuf = []

/-- All writes succeed. -/
def allSent : ℕ → Bool := fun _ ↦ true

namespace Sending

variable {txt : List U8} {s : Sending}

theorem Along.flush (h : s.Along txt s.last) : (s.flush allSent).Inv txt := by
  by_cases hfull : s.eotext = true ∨ 502 ≤ s.netbuf.length
  · have hflush : s.flush allSent = { s with
        prevchar := s.last, sent := s.sent ++ [s.netbuf], netbuf := [], failed := false } :=
      if_pos hfull
    rw [hflush]
    refine ⟨⟨?_, h.pos, h.lineEnds, h.noNul, h.prev_ne, rfl, h.ended⟩, Nat.zero_lt_succ _,
      fun _ ↦ rfl⟩
    rw [← h.bytes, List.flatten_append, List.flatten_singleton, List.append_nil]
  · have hflush : s.flush allSent = { s with prevchar := s.last } := if_neg hfull
    obtain ⟨hnot, hroom⟩ := not_or.mp hfull
    rw [hflush]
    exact ⟨⟨h.bytes, h.pos, h.lineEnds, h.noNul, h.prev_ne, h.going, h.ended⟩,
      Nat.lt_of_not_le hroom, fun hend ↦ absurd hend hnot⟩

/-- The state when `cs` is left of the text, after `k` characters for which `out` is sent. -/
def put (s : Sending) (k : ℕ) (cs out : List U8) : Sending :=
  { s with txt := cs, txtpos := s.txtpos + k, netbuf := s.netbuf ++ out, eotext := cs = [] }

/-- What is sent for the first characters of a text: there is a last character of it, or the text is
at its end. -/
structure Piece (prev : U8) (txt : List U8) (k : ℕ) (cs out : List U8) : Prop where
  pos : k + cs.length = txt.length
  lineEnds : LineEnds cs
  noNul : 0#8 ∉ cs
  pos_k : txt ≠ [] → 0 < k
  out_le : out.length ≤ 2
  bytes : cs = [] ∧ stuff (prev == LF) txt = out ∨
    ∃ front d, out = front ++ [d] ∧ d ≠ CR ∧ stuff (prev == LF) txt = out ++ stuff (d == LF) cs

theorem last_put (s : Sending) (k : ℕ) (cs front : List U8) (d : U8) :
    (s.put k cs (front ++ [d])).last = d := by
  rw [last, put, ← List.append_assoc, List.getLast?_concat, Option.getD_some]

theorem Inv.put (h : s.Inv txt) {k : ℕ} {cs out : List U8}
    (hpiece : Piece s.prevchar s.txt k cs out) :
    (s.put k cs out).Along txt (s.put k cs out).last := by
  obtain ⟨hpos, hends, hnul, -, -, hbytes⟩ := hpiece
  refine ⟨?_, ?_, hends, hnul, ?_, h.going, fun hend ↦ of_decide_eq_true hend⟩
  · rw [← h.bytes]
    rcases hbytes with ⟨rfl, hbytes⟩ | ⟨front, d, rfl, -, hbytes⟩
    · rw [hbytes]
      simp only [Sending.put, stuff, List.append_nil, List.append_assoc]
    · rw [last_put, hbytes]
      simp only [Sending.put, List.append_assoc]
  · have htotal := h.pos
    simp only [Sending.put]
    omega
  · intro hgoing
    rcases hbytes with ⟨rfl, -⟩ | ⟨front, d, rfl, hd, -⟩
    · exact absurd hgoing (by simp [Sending.put])
    · rwa [last_put]

/-- The next character of a text is read. -/
theorem read_cons {n : ℕ} {c : U8} {cs : List U8} (htxt : s.txt = c :: cs)
    (hpos : s.txtpos + s.txt.length = n) : s.read n =
      (c, { s with txt := cs, txtpos := s.txtpos + 1, eotext := cs = [] }) := by
  have hend : decide (s.txtpos + 1 = n) = decide (cs = []) := by
    rw [htxt, List.length_cons] at hpos
    refine decide_eq_decide.mpr ?_
    rw [← List.length_eq_zero_iff]
    omega
  rw [read, htxt]
  simp only [hend]

/-- A line feed follows the carriage return. -/
theorem carriageReturn_eq {n : ℕ} {ds : List U8} (htxt : s.txt = LF :: ds)
    (hpos : s.txtpos + s.txt.length = n) (hgoing : s.eotext = false) :
    s.carriageReturn n = s.put 1 ds (if ds = [] then [] else [CR, LF]) := by
  rw [carriageReturn, sbcheck, hgoing, if_neg Bool.false_ne_true, read_cons htxt hpos]
  dsimp only
  by_cases hds : ds = []
  · simp [hds, put]
  · simp [hds, put, add, CR, LF]

/-- **A turn puts a piece** of the text. -/
theorem exists_putChar {n : ℕ} (hends : LineEnds s.txt) (hnul : 0#8 ∉ s.txt)
    (hprev : s.prevchar ≠ CR) (hpos : s.txtpos + s.txt.length = n) :
    ∃ k cs out, s.putChar n = s.put k cs out ∧ Piece s.prevchar s.txt k cs out := by
  rcases htxt : s.txt with _ | ⟨c, cs⟩
  · have hput : s.putChar n = s.put 0 [] [] := by
      simp [putChar, read, put, htxt, DOT, CR, LF]
    exact ⟨0, [], [], hput, rfl, trivial, List.not_mem_nil, fun h ↦ absurd rfl h,
      Nat.zero_le _, .inl ⟨rfl, rfl⟩⟩
  rw [htxt] at hends hnul
  have hc : c ≠ 0#8 := fun h ↦ hnul (h ▸ List.mem_cons_self)
  have hrest : 0#8 ∉ cs := fun h ↦ hnul (List.mem_cons_of_mem _ h)
  have hlen : 1 + cs.length = (c :: cs).length := Nat.add_comm _ _
  rw [putChar, read_cons htxt hpos]
  dsimp only
  by_cases hdot : c = DOT ∧ (s.txtpos + 1 = 0 ∨ s.prevchar = LF)
  · have hLF : s.prevchar = LF := hdot.2.resolve_left (Nat.succ_ne_zero _)
    have hstuff : stuff (s.prevchar == LF) (c :: cs) =
        if cs = [] then [] else DOT :: DOT :: stuff false cs := by
      rw [stuff, if_pos ⟨hdot.1, beq_iff_eq.mpr hLF⟩]
    rw [if_pos hdot]
    by_cases hcs : cs = []
    · refine ⟨1, cs, [], ?_, hlen, hends.2, hrest, fun _ ↦ Nat.one_pos, Nat.zero_le _,
        .inl ⟨hcs, by rw [hstuff, if_pos hcs]⟩⟩
      rw [if_pos (decide_eq_true hcs), put, List.append_nil]
    · refine ⟨1, cs, [DOT, DOT], ?_, hlen, hends.2, hrest, fun _ ↦ Nat.one_pos, le_rfl,
        .inr ⟨[DOT], DOT, rfl, by decide, by rw [hstuff, if_neg hcs]; rfl⟩⟩
      rw [if_neg (by simpa using hcs)]
      rfl
  rw [if_neg hdot]
  have hnot : ¬(c = DOT ∧ (s.prevchar == LF) = true) := fun h ↦
    hdot ⟨h.1, .inr (beq_iff_eq.mp h.2)⟩
  by_cases hCR : c = CR
  · obtain ⟨ds, rfl⟩ := List.head?_eq_some_iff.mp (hends.1 hCR)
    rw [if_pos hCR]
    refine ⟨2, ds, if ds = [] then [] else [CR, LF], ?_, ?_, hends.2.2,
      fun h ↦ hrest (List.mem_cons_of_mem _ h), fun _ ↦ Nat.two_pos, ?_, ?_⟩
    · have hpos' : s.txtpos + 1 + (LF :: ds).length = n := by
        rw [htxt, List.length_cons] at hpos
        omega
      have hgoing : decide (LF :: ds = []) = false := decide_eq_false (List.cons_ne_nil _ _)
      rw [carriageReturn_eq rfl hpos' hgoing]
      rfl
    · rw [← hlen, List.length_cons]
      omega
    · split_ifs <;> decide
    · have hstuff : stuff (s.prevchar == LF) (c :: LF :: ds) =
          if ds = [] then [] else CR :: LF :: stuff true ds := by
        rw [stuff, if_neg hnot, if_pos hCR, stuff_LF]
        simp only [List.cons.injEq, true_and]
      rw [hstuff]
      by_cases hds : ds = []
      · rw [if_pos hds, if_pos hds]
        exact .inl ⟨hds, rfl⟩
      · rw [if_neg hds, if_neg hds]
        exact .inr ⟨[CR], LF, rfl, by decide, rfl⟩
  rw [if_neg hCR]
  by_cases hLF : c = LF
  · have hstuff : stuff (s.prevchar == LF) (c :: cs) = CR :: LF :: stuff true cs := by
      rw [stuff, if_neg hnot, if_neg hCR, if_pos hLF]
    rw [if_pos hLF, if_pos hprev]
    exact ⟨1, cs, [CR, LF], rfl, hlen, hends.2, hrest, fun _ ↦ Nat.one_pos, le_rfl,
      .inr ⟨[CR], LF, rfl, by decide, hstuff⟩⟩
  · have hstuff : stuff (s.prevchar == LF) (c :: cs) = c :: stuff false cs := by
      rw [stuff, if_neg hnot, if_neg hCR, if_neg hLF]
    rw [if_neg hLF, if_pos hc]
    refine ⟨1, cs, [c], rfl, hlen, hends.2, hrest, fun _ ↦ Nat.one_pos, Nat.le_succ 1,
      .inr ⟨[], c, rfl, hCR, ?_⟩⟩
    rw [hstuff, beq_false_of_ne hLF]
    rfl

/-- What is left to be done. -/
def left (s : Sending) : ℕ := if s.eotext then 0 else s.txt.length + 1

theorem done_eq_false (h : s.done = false) : s.failed = false ∧ s.eotext = false :=
  Bool.or_eq_false_iff.mp h

/-- **A turn of the loop** sends a piece, and does not write past the buffer. -/
theorem Inv.turn (h : s.Inv txt) (hgoing : s.done = false) :
    ∃ t, s.turn allSent txt.length = some t ∧ t.Inv txt ∧ t.left < s.left := by
  obtain ⟨-, hend⟩ := done_eq_false hgoing
  obtain ⟨k, cs, out, hput, hpiece⟩ :=
    exists_putChar h.lineEnds h.noNul (h.prev_ne hend) h.pos
  have hroom : (s.put k cs out).netbuf.length ≤ 512 := by
    have hfree := h.room
    have hout := hpiece.out_le
    rw [Sending.put, List.length_append]
    omega
  refine ⟨(s.put k cs out).flush allSent, ?_, (h.put hpiece).flush, ?_⟩
  · rw [Sending.turn, hput]
    exact if_pos hroom
  · have hflush : ((s.put k cs out).flush allSent).left = (s.put k cs out).left := by
      rw [flush]
      split_ifs <;> rfl
    have hpos := hpiece.pos
    rw [hflush, left, left, hend, Sending.put]
    by_cases hcs : cs = []
    · simp [hcs]
    · have hne : s.txt ≠ [] := fun hnil ↦ by
        rw [hnil, List.length_nil] at hpos
        exact hcs (List.length_eq_zero_iff.mp (by omega))
      have hk := hpiece.pos_k hne
      simp only [hcs, decide_false, Bool.false_eq_true, ↓reduceIte]
      omega

end Sending

/-- A text whose lines end with a line feed, or a carriage return and a line feed. -/
abbrev LineText := {txt : CString // LineEnds txt.1}

/-- **The text is sent** as one that does not start with a line. -/
theorem exists_smtpSendMessageText (txt : LineText) :
    ∃ sent, smtpSendMessageText (txt.1.1.length + 2) allSent txt.1.1 = some (0, sent) ∧
      sent.flatten = stuff false txt.1.1 := by
  have hstart : (Sending.start txt.1.1).Inv txt.1.1 :=
    ⟨⟨rfl, Nat.zero_add _, txt.2, txt.1.2, fun _ ↦ (by decide : 0#8 ≠ CR), rfl, fun h ↦ nomatch h⟩,
      Nat.zero_lt_succ _, fun _ ↦ rfl⟩
  obtain ⟨s, hloop, hinv, hdone⟩ := Run.exists_whileLoop_eq (Sending.Inv txt.1.1) Sending.left
    (fun s hs hgoing ↦ hs.turn hgoing) hstart (Nat.lt_succ_self (txt.1.1.length + 1))
  have hend : s.eotext = true := by
    rw [Sending.done, hinv.going] at hdone
    exact hdone
  refine ⟨s.sent, ?_, ?_⟩
  · rw [smtpSendMessageText, hloop, Option.map_some, hinv.going]
    rfl
  · have hbytes := hinv.bytes
    rwa [hinv.empty hend, (hinv.ended hend), stuff, List.append_nil, List.append_nil] at hbytes

/-! ## What the server sees -/

/-- The server sees the lines of the text, and no end of the mail before the footer. -/
structure ServerSees (txt sent : List U8) : Prop where
  lines : joinLines (linesOf sent) = sent
  no_end : [DOT] ∉ linesOf sent
  stuffed : ∀ l ∈ linesOf sent, Stuffed l
  text : UpToEnd true (linesOf txt) ((linesOf sent).map unstuff)
  footer : linesOf (sent ++ footer) = linesOf sent ++ [[DOT], []]

/-- The text is sent so that the server sees it. -/
def TextRight (txt : LineText) : Prop :=
  ∃ fuel sent, smtpSendMessageText fuel allSent txt.1.1 = some (0, sent) ∧
    ServerSees txt.1.1 sent.flatten

theorem serverSees_stuff_iff {txt : List U8} (h : LineEnds txt) :
    ServerSees txt (stuff false txt) ↔ txt.head? ≠ some DOT := by
  constructor
  · intro hsees hdot
    obtain ⟨cs, rfl⟩ := List.head?_eq_some_iff.mp hdot
    exact not_upToEnd_of_dot h hsees.stuffed hsees.text
  · intro hdot
    have hstart : stuff false txt = stuff true txt := stuff_false h hdot
    have hstuffed := (stuffed_stuff true txt).forall
    rw [hstart]
    refine ⟨joinLines_stuff true txt, fun hmem ↦ (hstuffed _ hmem).ne_dot rfl, hstuffed, ?_, ?_⟩
    · rw [← unstuffFrom_true]
      exact upToEnd_stuff true h
    · exact linesOf_append _ _

theorem textRight_iff (txt : LineText) : TextRight txt ↔ txt.1.1.head? ≠ some DOT := by
  obtain ⟨sent, hsent, hflat⟩ := exists_smtpSendMessageText txt
  rw [← serverSees_stuff_iff txt.2, ← hflat]
  constructor
  · rintro ⟨fuel, sent', hsent', hsees⟩
    obtain ⟨s, hs, hs'⟩ := Option.map_eq_some_iff.mp hsent
    obtain ⟨t, ht, ht'⟩ := Option.map_eq_some_iff.mp hsent'
    obtain rfl := Run.whileLoop_unique hs ht
    obtain rfl := (Prod.mk.inj (hs'.symm.trans ht')).2
    exact hsees
  · exact fun hsees ↦ ⟨_, sent, hsent, hsees⟩

/-- **The text of a mail** arrives as it is, with no end before the footer, unless it starts with a
dot. -/
theorem mail_text_exact (txt : LineText) : TextRight txt ↔ txt.1.1.head? ≠ some DOT :=
  textRight_iff txt

/-- A dot on the first line. -/
def dotText : LineText := ⟨⟨[DOT, LF, 97#8], by decide⟩, by decide⟩

/-- **A dot on the first line** ends the mail. -/
theorem not_textRight : ¬∀ txt, TextRight txt := fun h ↦
  (textRight_iff dotText).mp (h dotText) rfl

end Hyunjin.Mail
