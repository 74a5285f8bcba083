import Hyunjin.Net.Netline
import Hyunjin.Run.Histories
import Hyunjin.Word.Strings

/-!
# The mail spool

`smtp_append_message` collects texts in a block that it allocates for the first of them. If a text
does not fit, lines are taken off at the front of the spool, up to the first line end behind a
position that is computed from the size of the new text.

The position is how much may be kept, and it is used as how much is dropped. The new text fits all
the same, and what is kept is a suffix of all that has been appended (`spoolSafe`); but lines are
dropped that need not be, unless no line ends before that position which would have made enough
room (`dropsRight_iff`).
-/

namespace Hyunjin.Mail

open Memory Net

/-! ## Lines -/

def newline (c : U8) : Bool := c = LF || c = CR

/-- What is left of a text behind the first line end in it, whatever its newlines are. -/
def skipLine (txt : List U8) : List U8 := (txt.dropWhile (!newline ·)).dropWhile newline

/-- The end of a text that begins where a line has come to an end. -/
def LineStart (txt rest : List U8) : Prop :=
  rest = [] ∨ ∃ front c, txt = front ++ c :: rest ∧ newline c = true ∧
    ∀ d ∈ rest.head?, newline d = false

theorem skipLine_suffix (txt : List U8) : skipLine txt <:+ txt :=
  (List.dropWhile_suffix _).trans (List.dropWhile_suffix _)

/-- What is left behind a line end begins where a line has come to an end. -/
theorem lineStart_skipLine (txt : List U8) : LineStart txt (skipLine txt) := by
  have hword : txt.takeWhile (!newline ·) ++ txt.dropWhile (!newline ·) = txt :=
    List.takeWhile_append_dropWhile
  rw [skipLine]
  rcases hline : txt.dropWhile (!newline ·) with _ | ⟨c, line⟩
  · exact Or.inl rfl
  · have hc : newline c = true := by
      have hhead := List.head?_dropWhile_not (!newline ·) txt
      rw [hline] at hhead
      simpa using hhead
    have hends : (c :: line).takeWhile newline ++ (c :: line).dropWhile newline = c :: line :=
      List.takeWhile_append_dropWhile
    have hne : (c :: line).takeWhile newline ≠ [] := by
      rw [List.takeWhile_cons_of_pos hc]
      exact List.cons_ne_nil _ _
    refine Or.inr ⟨txt.takeWhile (!newline ·) ++ ((c :: line).takeWhile newline).dropLast,
      ((c :: line).takeWhile newline).getLast hne, ?_, ?_, fun d hd ↦ ?_⟩
    · have hlast := List.dropLast_append_getLast hne
      rw [hline, ← hends, ← hlast] at hword
      refine hword.symm.trans ?_
      simp only [List.append_assoc, List.singleton_append]
    · exact List.mem_takeWhile_imp (List.getLast_mem hne)
    · have hhead := List.head?_dropWhile_not newline (c :: line)
      rw [Option.mem_def.mp hd] at hhead
      simpa using hhead

theorem length_skipLine_lt {txt : List U8} (h : txt ≠ []) :
    (skipLine txt).length < txt.length := by
  rcases lineStart_skipLine txt with hnil | ⟨front, c, htxt, -, -⟩
  · rw [hnil]
    exact List.length_pos_of_ne_nil h
  · have hlen := congrArg List.length htxt
    rw [List.length_append, List.length_cons] at hlen
    omega

/-- Dropping from the front never goes beyond where a line has come to an end. -/
theorem suffix_skipLine {front rest : List U8} {c : U8} (hc : newline c = true)
    (hrest : ∀ d ∈ rest.head?, newline d = false) : rest <:+ skipLine (front ++ c :: rest) := by
  have hstop : rest.dropWhile newline = rest := by
    cases rest with
    | nil => rfl
    | cons d rest =>
      rw [List.dropWhile_cons_of_neg (Bool.eq_false_iff.mp (hrest d rfl))]
  have hword : (front ++ c :: rest).dropWhile (!newline ·) =
      front.dropWhile (!newline ·) ++ c :: rest := by
    rw [List.dropWhile_append]
    split_ifs with hnil
    · rw [List.isEmpty_iff.mp hnil, List.dropWhile_cons_of_neg (by simp [hc]), List.nil_append]
    · rfl
  rw [skipLine, hword, List.dropWhile_append, List.dropWhile_cons_of_pos hc, hstop]
  split_ifs
  · exact List.suffix_rfl
  · exact ((List.suffix_cons c rest).trans (List.suffix_append _ _))

/-- **The first line end** behind position `k` leaves the most, of all the line ends behind it. -/
theorem LineStart.length_le {txt rest : List U8} (h : LineStart txt rest) {k : ℕ}
    (hk : rest.length < (txt.drop k).length) : rest.length ≤ (skipLine (txt.drop k)).length := by
  rcases h with rfl | ⟨front, c, rfl, hc, hrest⟩
  · exact Nat.zero_le _
  · have hle : k ≤ front.length := by
      rw [List.length_drop, List.length_append, List.length_cons] at hk
      omega
    rw [List.drop_append_of_le_length hle]
    exact (suffix_skipLine hc hrest).length_le

/-! ## The spool -/

def LONG_MAX : ℕ := 0x7fffffffffffffff

def UINT_MAX : ℕ := 0xffffffff

/-- A message; the spool is a block of `maxspoolsize` bytes if it has been allocated. -/
structure Mailmessage where
  sendthreshold : ℕ
  maxspoolsize : ℕ
  sendpendingflag : Bool
  spoolbuff : Option (List U8)

/-- A threshold that is negative as a long counts as none. -/
def saneThreshold (sendthreshold : ℕ) : ℕ := if LONG_MAX < sendthreshold then 0 else sendthreshold

/-- The size of the block that is allocated. -/
def mallocsize (sendthreshold : ℕ) : ℕ :=
  max (min sendthreshold (UINT_MAX - 4096 * 2)) 1024 + 4096 - 16

namespace Mailmessage

/-- The text in the spool; `none` if it does not end in the block. -/
def spooled (msg : Mailmessage) : Option (List U8) :=
  match msg.spoolbuff with
  | none => some []
  | some buf => cstr buf

/-- `smtp_countspooled` -/
def smtpCountspooled (msg : Mailmessage) : Option ℕ :=
  if saneThreshold msg.sendthreshold = 0 then some 0 else msg.spooled.map List.length

/-- `smtp_send_message` where sending is deferred: the spool stays as it is. -/
def smtpSendMessage (msg : Mailmessage) : Option (Mailmessage × ℤ) :=
  if msg.sendpendingflag then do
    let n ← msg.smtpCountspooled
    some ({ msg with sendpendingflag := false }, if n = 0 then 0 else 1)
  else some (msg, 0)

/-- The block is allocated, with what is found in its memory, and the spool is empty. -/
def makeSpool (fresh : (n : ℕ) → {block : List U8 // block.length = n}) (msg : Mailmessage) :
    Option Mailmessage :=
  match msg.spoolbuff with
  | some _ => some msg
  | none => (store (fresh (mallocsize msg.sendthreshold)).1 0 0#8).map fun buf ↦
    { msg with
      maxspoolsize := mallocsize msg.sendthreshold
      sendthreshold := mallocsize msg.sendthreshold - 4096
      spoolbuff := some buf }

end Mailmessage

/-- `if (msglen) memmove(msg->spoolbuff, p, msglen)` -/
def moveDown (buf : List U8) (p msglen : ℕ) : Option (List U8) :=
  if msglen = 0 then some buf else memmove buf 0 p msglen

/-- Drop lines up to the first line end behind position `k`. The spool and its length are left. -/
def trimSpool (buf : List U8) (k : ℕ) : Option (List U8 × ℕ) := do
  let txt ← cstr (buf.drop k)
  let rest := skipLine txt
  let buf ← moveDown buf (k + (txt.length - rest.length)) rest.length
  let buf ← store buf rest.length 0#8
  some (buf, rest.length)

/-- The spool and its length, and the text, after room has been made for it. A text that is larger
than the block loses lines itself. -/
def makeRoom (buf txt : List U8) (maxsize : ℕ) : Option (List U8 × ℕ × List U8) := do
  let msgtxt ← cstr buf
  if maxsize < txt.length + 2 then do
    let buf ← store buf 0 0#8
    some (buf, 0, skipLine (txt.drop (txt.length + 2 - maxsize)))
  else if maxsize < msgtxt.length + txt.length + 2 then do
    let (buf, msglen) ← trimSpool buf (maxsize - (txt.length + 2))
    some (buf, msglen, txt)
  else some (buf, msgtxt.length, txt)

/-- The text is appended if it fits now. -/
def Mailmessage.putText (msg : Mailmessage) (txt : List U8) : Option Mailmessage :=
  match msg.spoolbuff with
  | none => some msg
  | some buf => do
    let (buf, msglen, txt) ← makeRoom buf txt msg.maxspoolsize
    if txt.length ≠ 0 ∧ msglen + txt.length + 2 ≤ msg.maxspoolsize then do
      let buf ← strcat buf txt
      some { msg with sendpendingflag := true, spoolbuff := some buf }
    else some { msg with spoolbuff := some buf }

/-- An empty text leaves the spool alone. -/
def Mailmessage.takeText (fresh : (n : ℕ) → {block : List U8 // block.length = n})
    (msg : Mailmessage) (txt : List U8) : Option Mailmessage :=
  if txt.length = 0 then some msg else (msg.makeSpool fresh).bind (·.putText txt)

/-- `smtp_append_message`, in calls that are not nested. -/
def smtpAppendMessage (fresh : (n : ℕ) → {block : List U8 // block.length = n})
    (msg : Mailmessage) (txt : List U8) : Option (Mailmessage × ℤ) :=
  let sendthreshold := saneThreshold msg.sendthreshold
  if sendthreshold = 0 then some ({ msg with sendthreshold := 0 }, 0)
  else do
    let msg := { msg with sendthreshold := max sendthreshold 1024 }
    let msg ← msg.takeText fresh txt
    let n ← msg.smtpCountspooled
    if msg.sendthreshold < n then msg.smtpSendMessage else some (msg, 0)

/-! ## One text -/

section Step

variable {buf s : List U8} {k M : ℕ}

theorem trimSpool_spec (h : Memory.Holds buf (s ++ [0#8])) (hs : 0#8 ∉ s) (hk : k ≤ s.length) :
    ∃ buf', trimSpool buf k = some (buf', (skipLine (s.drop k)).length) ∧
      buf'.length = buf.length ∧ Memory.Holds buf' (skipLine (s.drop k) ++ [0#8]) := by
  have hheld : Memory.Holds (buf.drop k) (s.drop k ++ [0#8]) := by
    rw [← List.drop_append_of_le_length hk]
    exact h.drop k
  have hnul : 0#8 ∉ s.drop k := fun hmem ↦ hs (List.mem_of_mem_drop hmem)
  have hlt : s.length < buf.length := by
    have hlen := h.length_le
    rw [List.length_append, List.length_singleton] at hlen
    omega
  rw [trimSpool, cstr_of_holds hheld hnul]
  simp only [Option.bind_eq_bind, Option.bind_some]
  obtain ⟨front, hfront⟩ := skipLine_suffix (s.drop k)
  generalize skipLine (s.drop k) = rest at hfront ⊢
  have hlen := congrArg List.length hfront
  rw [List.length_append, List.length_drop] at hlen
  rw [← hfront] at hheld
  obtain ⟨moved, hmove, hmovedlen, hrest⟩ : ∃ moved,
      moveDown buf (k + ((s.drop k).length - rest.length)) rest.length = some moved ∧
        moved.length = buf.length ∧ Memory.Holds moved rest := by
    rw [moveDown]
    by_cases hnil : rest.length = 0
    · refine ⟨buf, if_pos hnil, rfl, ?_⟩
      rw [List.eq_nil_of_length_eq_zero hnil]
      exact holds_nil buf
    · have hsrc : k + ((s.drop k).length - rest.length) = k + front.length := by
        rw [List.length_drop]
        omega
      have htake : (buf.drop (k + front.length)).take rest.length = rest := by
        obtain ⟨back, hback⟩ := hheld
        rw [← List.drop_drop, ← hback, List.append_assoc, List.append_assoc, List.drop_left,
          List.take_left]
      rw [if_neg hnil, hsrc, memmove, if_pos ⟨by omega, by omega⟩, htake, List.take_zero,
        List.nil_append, Nat.zero_add]
      refine ⟨_, rfl, ?_, List.prefix_append _ _⟩
      rw [List.length_append, List.length_drop]
      omega
  obtain ⟨buf', hstore, hbuf', hend⟩ := hrest.store (by omega) 0#8
  refine ⟨buf', ?_, hbuf'.trans hmovedlen, hend⟩
  simp only [hmove, hstore, Option.bind_some]

/-- A text fits behind what is in a spool of `M` bytes. -/
def Fits (M : ℕ) (s txt : List U8) : Prop := s.length + txt.length + 2 ≤ M

instance (M : ℕ) (s txt : List U8) : Decidable (Fits M s txt) := inferInstanceAs (Decidable (_ ≤ _))

/-- What is left of the spool when a text is appended. -/
def kept (M : ℕ) (s txt : List U8) : List U8 :=
  if Fits M s txt then s else skipLine (s.drop (M - (txt.length + 2)))

theorem kept_suffix (M : ℕ) (s txt : List U8) : kept M s txt <:+ s := by
  rw [kept]
  split_ifs
  · exact List.suffix_rfl
  · exact (skipLine_suffix _).trans (List.drop_suffix _ _)

/-- **The new text fits** behind what is left, if it is shorter than half the spool. -/
theorem kept_fits {txt : List U8} (hs : s.length + 2 ≤ M) (htxt : 2 * txt.length < M) :
    Fits M (kept M s txt) txt := by
  rw [kept]
  split_ifs with hfits
  · exact hfits
  · rw [Fits] at hfits ⊢
    have hne : s.drop (M - (txt.length + 2)) ≠ [] := by
      rw [ne_eq, List.drop_eq_nil_iff]
      omega
    have hlt := length_skipLine_lt hne
    rw [List.length_drop] at hlt
    omega

theorem makeRoom_spec {txt : List U8} (h : Memory.Holds buf (s ++ [0#8])) (hs : 0#8 ∉ s)
    (htxt : txt.length + 2 ≤ M) : ∃ buf', makeRoom buf txt M =
        some (buf', (kept M s txt).length, txt) ∧
      buf'.length = buf.length ∧ Memory.Holds buf' (kept M s txt ++ [0#8]) := by
  rw [makeRoom, cstr_of_holds h hs, Option.bind_eq_bind, Option.bind_some, if_neg (by omega)]
  by_cases hfits : Fits M s txt
  · rw [if_neg (not_lt.mpr hfits), kept, if_pos hfits]
    exact ⟨buf, rfl, rfl, h⟩
  · rw [kept, if_neg hfits]
    rw [Fits] at hfits
    obtain ⟨buf', htrim, hlen, hheld⟩ := trimSpool_spec (k := M - (txt.length + 2)) h hs (by omega)
    rw [if_pos (by omega), htrim]
    exact ⟨buf', rfl, hlen, hheld⟩

end Step

/-- No line that ends before the position the code starts from would have made enough room. -/
def FindsRoom (M : ℕ) (s txt : List U8) : Prop :=
  Fits M s txt ∨ ∀ line, LineStart s line → Fits M line txt →
    line.length + M < s.length + (txt.length + 2)

theorem LineStart.suffix {txt rest : List U8} (h : LineStart txt rest) : rest <:+ txt := by
  rcases h with rfl | ⟨front, c, rfl, -, -⟩
  · exact List.nil_suffix
  · exact (List.suffix_cons c rest).trans (List.suffix_append _ _)

/-- **When no more is dropped than has to be.** -/
theorem length_le_kept_iff {M : ℕ} {s txt : List U8} (hs : s.length + 2 ≤ M)
    (htxt : 2 * txt.length < M) :
    (∀ line, LineStart s line → Fits M line txt → line.length ≤ (kept M s txt).length) ↔
      FindsRoom M s txt := by
  by_cases hfits : Fits M s txt
  · rw [kept, if_pos hfits]
    exact ⟨fun _ ↦ Or.inl hfits, fun _ line hline _ ↦ hline.suffix.length_le⟩
  · rw [kept, if_neg hfits, FindsRoom, or_iff_right hfits]
    rw [Fits] at hfits
    have hne : s.drop (M - (txt.length + 2)) ≠ [] := by
      rw [ne_eq, List.drop_eq_nil_iff]
      omega
    have hlt := length_skipLine_lt hne
    rw [List.length_drop] at hlt
    constructor
    · intro h line hline hroom
      have hle := h line hline hroom
      omega
    · intro h line hline hroom
      refine hline.length_le ?_
      have hbehind := h line hline hroom
      rw [List.length_drop]
      omega

/-- A message with a block of `M` bytes that holds a text. -/
structure Mailmessage.Spools (M : ℕ) (msg : Mailmessage) (s : List U8) : Prop where
  held : ∃ buf, msg.spoolbuff = some buf ∧ buf.length = M ∧ Memory.Holds buf (s ++ [0#8])
  nul : 0#8 ∉ s
  size : s.length + 2 ≤ M
  maxspoolsize : msg.maxspoolsize = M
  sane : 0 < msg.sendthreshold ∧ msg.sendthreshold ≤ LONG_MAX

theorem Mailmessage.Spools.putText {M : ℕ} {msg : Mailmessage} {s : List U8}
    (h : msg.Spools M s) {txt : CString} (htxt : 2 * txt.1.length < M) (hne : txt.1.length ≠ 0) :
    ∃ msg', msg.putText txt.1 = some msg' ∧ msg'.Spools M (kept M s txt.1 ++ txt.1) := by
  obtain ⟨buf, hbuf, hlen, hheld⟩ := h.held
  have hsize := h.size
  have hshort : txt.1.length + 2 ≤ M := by
    omega
  obtain ⟨buf', hroom, hlen', hheld'⟩ := makeRoom_spec hheld h.nul hshort
  have hfits := kept_fits h.size htxt
  have hnul : 0#8 ∉ kept M s txt.1 := fun hmem ↦ h.nul ((kept_suffix M s txt.1).subset hmem)
  have hlt : (kept M s txt.1).length + txt.1.length < buf'.length := by
    rw [Fits] at hfits
    omega
  obtain ⟨buf'', hcat, hlen'', hheld''⟩ := strcat_of_lt hheld' hnul hlt
  rw [Mailmessage.putText, hbuf]
  simp only [h.maxspoolsize, hroom, Option.bind_eq_bind, Option.bind_some]
  rw [if_pos ⟨hne, hfits⟩, hcat]
  refine ⟨_, rfl, ⟨buf'', rfl, by omega, hheld''⟩, ?_, ?_, rfl, h.sane⟩
  · rw [List.mem_append, not_or]
    exact ⟨hnul, txt.2⟩
  · rw [List.length_append]
    exact hfits

section Append

variable (fresh : (n : ℕ) → {block : List U8 // block.length = n})

/-- A threshold that is positive as a long. -/
abbrev Threshold : Type := {sendthreshold : ℕ // 0 < sendthreshold ∧ sendthreshold ≤ LONG_MAX}

/-- A text that is shorter than half the spool. -/
abbrev ShortText (T : Threshold) : Type := {txt : CString // 2 * txt.1.length < mallocsize T}

/-- A message after some texts: nothing has been allocated yet, or the spool is in its block. -/
def Spooled (T : Threshold) (msg : Mailmessage) (s : List U8) : Prop :=
  (msg.spoolbuff = none ∧ s = [] ∧ mallocsize msg.sendthreshold = mallocsize T ∧
    0 < msg.sendthreshold ∧ msg.sendthreshold ≤ LONG_MAX) ∨ msg.Spools (mallocsize T) s

variable {T : Threshold} {msg : Mailmessage} {s : List U8}

theorem saneThreshold_eq {n : ℕ} (h : n ≤ LONG_MAX) : saneThreshold n = n :=
  if_neg (not_lt.mpr h)

theorem Mailmessage.Spools.spooled {M : ℕ} (h : msg.Spools M s) : msg.spooled = some s := by
  obtain ⟨buf, hbuf, -, hheld⟩ := h.held
  rw [Mailmessage.spooled, hbuf]
  exact cstr_of_holds hheld h.nul

theorem Spooled.spooled (h : Spooled T msg s) : msg.spooled = some s := by
  rcases h with ⟨hnone, rfl, -⟩ | h
  · rw [Mailmessage.spooled, hnone]
  · exact h.spooled

theorem Spooled.sane (h : Spooled T msg s) : 0 < msg.sendthreshold ∧ msg.sendthreshold ≤ LONG_MAX :=
  h.elim (·.2.2.2) (·.sane)

theorem Spooled.countspooled (h : Spooled T msg s) : msg.smtpCountspooled = some s.length := by
  obtain ⟨hpos, hle⟩ := h.sane
  rw [Mailmessage.smtpCountspooled, saneThreshold_eq hle, if_neg hpos.ne', h.spooled]
  rfl

theorem Spooled.size (h : Spooled T msg s) : s.length + 2 ≤ mallocsize T := by
  rcases h with ⟨-, rfl, -⟩ | h
  · rw [mallocsize, List.length_nil]
    omega
  · exact h.size

theorem Spooled.raise (h : Spooled T msg s) :
    Spooled T { msg with sendthreshold := max msg.sendthreshold 1024 } s := by
  have hsane := h.sane
  have hmax : 0 < max msg.sendthreshold 1024 ∧ max msg.sendthreshold 1024 ≤ LONG_MAX := by
    rw [LONG_MAX] at hsane ⊢
    omega
  rcases h with ⟨hnone, hs, hsize, -⟩ | h
  · refine Or.inl ⟨hnone, hs, hsize ▸ ?_, hmax⟩
    dsimp only
    rw [mallocsize, mallocsize, UINT_MAX]
    omega
  · exact Or.inr ⟨h.held, h.nul, h.size, h.maxspoolsize, hmax⟩

theorem Spooled.makeSpool (h : Spooled T msg s) :
    ∃ msg', msg.makeSpool fresh = some msg' ∧ msg'.Spools (mallocsize T) s := by
  rcases h with ⟨hnone, rfl, hsize, -⟩ | h
  · have hlen := (fresh (mallocsize msg.sendthreshold)).2
    obtain ⟨buf, hstore, hbuf, hheld⟩ :=
      (holds_nil (fresh (mallocsize msg.sendthreshold)).1).store
        (by rw [hlen, mallocsize, List.length_nil]; omega) 0#8
    rw [List.length_nil] at hstore
    rw [Mailmessage.makeSpool, hnone]
    dsimp only
    rw [hstore]
    refine ⟨_, rfl, ⟨buf, rfl, by rw [hbuf, hlen, hsize], hheld⟩, List.not_mem_nil, ?_, hsize, ?_⟩
    · rw [mallocsize, List.length_nil]
      omega
    · dsimp only
      rw [mallocsize, UINT_MAX, LONG_MAX]
      omega
  · obtain ⟨buf, hbuf, -⟩ := h.held
    rw [Mailmessage.makeSpool, hbuf]
    exact ⟨msg, rfl, h⟩

theorem Spooled.sendMessage (h : Spooled T msg s) :
    ∃ msg' r, msg.smtpSendMessage = some (msg', r) ∧ Spooled T msg' s := by
  rw [Mailmessage.smtpSendMessage]
  split_ifs
  · rw [h.countspooled]
    exact ⟨_, _, rfl, h.imp id fun h ↦ ⟨h.held, h.nul, h.size, h.maxspoolsize, h.sane⟩⟩
  · exact ⟨msg, 0, rfl, h⟩

theorem Spooled.takeText (h : Spooled T msg s) (txt : ShortText T) : ∃ msg',
    msg.takeText fresh txt.1.1 = some msg' ∧
      Spooled T msg' (kept (mallocsize T) s txt.1.1 ++ txt.1.1) := by
  rw [Mailmessage.takeText]
  by_cases hnil : txt.1.1.length = 0
  · have hfits : Fits (mallocsize T) s txt.1.1 := by
      rw [Fits, hnil]
      exact h.size
    rw [if_pos hnil, kept, if_pos hfits, List.eq_nil_of_length_eq_zero hnil, List.append_nil]
    exact ⟨msg, rfl, h⟩
  · obtain ⟨made, hmake, hmade⟩ := h.makeSpool fresh
    obtain ⟨put, hput, hspools⟩ := hmade.putText txt.2 hnil
    rw [if_neg hnil, hmake]
    exact ⟨put, hput, Or.inr hspools⟩

/-- **A text is appended** to what is left of the spool. -/
theorem Spooled.append (h : Spooled T msg s) (txt : ShortText T) : ∃ msg' r,
    smtpAppendMessage fresh msg txt.1.1 = some (msg', r) ∧
      Spooled T msg' (kept (mallocsize T) s txt.1.1 ++ txt.1.1) := by
  obtain ⟨hpos, hle⟩ := h.sane
  obtain ⟨put, hput, hspooled⟩ := h.raise.takeText fresh txt
  rw [smtpAppendMessage, saneThreshold_eq hle]
  dsimp only
  rw [if_neg hpos.ne', hput]
  simp only [Option.bind_eq_bind, Option.bind_some, hspooled.countspooled]
  split_ifs
  · exact hspooled.sendMessage
  · exact ⟨put, 0, rfl, hspooled⟩

end Append

/-! ## All texts -/

section Texts

variable (fresh : (n : ℕ) → {block : List U8 // block.length = n}) (T : Threshold)

/-- The message after some texts, from where its spool has been cleared. -/
def afterTexts (texts : List (ShortText T)) : Option Mailmessage :=
  texts.foldl (fun msg txt ↦
    msg.bind fun msg ↦ (smtpAppendMessage fresh msg txt.1.1).map Prod.fst)
    (some ⟨T, 0, false, none⟩)

/-- The text of a spool that loses only what it has to lose. -/
def spoolOf (texts : List (ShortText T)) : List U8 :=
  texts.foldl (fun s txt ↦ kept (mallocsize T) s txt.1.1 ++ txt.1.1) []

/-- No call leaves the block; the spool is what was appended last, and ends with the last text. -/
def SpoolSafe (texts : List (ShortText T)) : Prop :=
  ∀ past, past <+: texts → ∃ msg s, afterTexts fresh T past = some msg ∧ msg.spooled = some s ∧
    (∀ buf ∈ msg.spoolbuff, buf.length = msg.maxspoolsize ∧ s.length < buf.length) ∧
    s <:+ (past.map fun txt ↦ txt.1.1).flatten ∧ ∀ txt ∈ past.getLast?, txt.1.1 <:+ s

/-- A text that fits leaves the spool whole, and one that does not leaves as much of it as the first
line end that makes enough room. -/
def DropsRight (texts : List (ShortText T)) : Prop :=
  ∀ past txt, past ++ [txt] <+: texts → ∀ msg s msg' s',
    afterTexts fresh T past = some msg → msg.spooled = some s →
    afterTexts fresh T (past ++ [txt]) = some msg' → msg'.spooled = some s' →
    ∃ rest, rest <:+ s ∧ s' = rest ++ txt.1.1 ∧ (Fits (mallocsize T) s txt.1.1 → rest = s) ∧
      ∀ line, LineStart s line → Fits (mallocsize T) line txt.1.1 → line.length ≤ rest.length

/-- Every text finds room that the code does not go beyond. -/
def FindRoom (texts : List (ShortText T)) : Prop :=
  ∀ past txt, past ++ [txt] <+: texts → ∀ msg s, afterTexts fresh T past = some msg →
    msg.spooled = some s → FindsRoom (mallocsize T) s txt.1.1

theorem afterTexts_spec (texts : List (ShortText T)) :
    ∃ msg, afterTexts fresh T texts = some msg ∧ Spooled T msg (spoolOf T texts) := by
  induction texts using List.reverseRecOn with
  | nil => exact ⟨_, rfl, Or.inl ⟨rfl, rfl, rfl, T.2⟩⟩
  | append_singleton texts txt ih =>
    obtain ⟨msg, hmsg, hspooled⟩ := ih
    obtain ⟨msg', r, happend, hspooled'⟩ := hspooled.append fresh txt
    rw [afterTexts, List.foldl_append, ← afterTexts, hmsg, spoolOf, List.foldl_append, ← spoolOf]
    refine ⟨msg', ?_, hspooled'⟩
    rw [List.foldl_cons, List.foldl_nil, Option.bind_some, happend]
    rfl

theorem spoolOf_append (past : List (ShortText T)) (txt : ShortText T) :
    spoolOf T (past ++ [txt]) = kept (mallocsize T) (spoolOf T past) txt.1.1 ++ txt.1.1 := by
  rw [spoolOf, List.foldl_append]
  rfl

theorem spoolOf_suffix (texts : List (ShortText T)) :
    spoolOf T texts <:+ (texts.map fun txt ↦ txt.1.1).flatten := by
  induction texts using List.reverseRecOn with
  | nil => exact List.suffix_rfl
  | append_singleton texts txt ih =>
    rw [spoolOf_append, List.map_append, List.flatten_append, List.map_singleton,
      List.flatten_singleton]
    obtain ⟨front, hfront⟩ := (kept_suffix (mallocsize T) _ txt.1.1).trans ih
    exact ⟨front, by rw [← List.append_assoc, hfront]⟩

theorem spoolSafe (texts : List (ShortText T)) : SpoolSafe fresh T texts := by
  intro past _
  obtain ⟨msg, hmsg, hspooled⟩ := afterTexts_spec fresh T past
  refine ⟨msg, _, hmsg, hspooled.spooled, fun buf hbuf ↦ ?_, spoolOf_suffix T past, ?_⟩
  · rcases hspooled with ⟨hnone, -⟩ | h
    · exact nomatch hnone.symm.trans (Option.mem_def.mp hbuf)
    · obtain ⟨buf', hbuf', hlen, -⟩ := h.held
      obtain rfl := Option.some.inj (hbuf'.symm.trans (Option.mem_def.mp hbuf))
      have hsize := h.size
      exact ⟨hlen.trans h.maxspoolsize.symm, by omega⟩
  · intro txt hlast
    obtain ⟨front, rfl⟩ := List.getLast?_eq_some_iff.mp hlast
    rw [spoolOf_append]
    exact List.suffix_append _ _

theorem dropsRight_iff (texts : List (ShortText T)) :
    DropsRight fresh T texts ↔ FindRoom fresh T texts := by
  refine forall₃_congr fun past txt _ ↦ ?_
  obtain ⟨msg, hmsg, hspooled⟩ := afterTexts_spec fresh T past
  obtain ⟨msg', hmsg', hspooled'⟩ := afterTexts_spec fresh T (past ++ [txt])
  have hmost := length_le_kept_iff hspooled.size txt.2
  rw [spoolOf_append] at hspooled'
  constructor
  · intro h msg₁ s hmsg₁ hs
    obtain rfl := Option.some.inj (hmsg.symm.trans hmsg₁)
    obtain rfl := Option.some.inj (hspooled.spooled.symm.trans hs)
    obtain ⟨rest, -, heq, -, hline⟩ := h _ _ _ _ hmsg hs hmsg' hspooled'.spooled
    obtain rfl := List.append_cancel_right heq
    exact hmost.mp hline
  · intro h msg₁ s msg₂ s' hmsg₁ hs hmsg₂ hs'
    obtain rfl := Option.some.inj (hmsg.symm.trans hmsg₁)
    obtain rfl := Option.some.inj (hspooled.spooled.symm.trans hs)
    obtain rfl := Option.some.inj (hmsg'.symm.trans hmsg₂)
    obtain rfl := Option.some.inj (hspooled'.spooled.symm.trans hs')
    exact ⟨_, kept_suffix _ _ _, rfl, fun hfits ↦ if_pos hfits, hmost.mpr (h _ _ hmsg hs)⟩

/-- **The spool stays in its block** and is what was appended last. It loses no more than it has to
exactly if every text that does not fit finds no line end with enough room in front of the position
the code starts from. -/
theorem mail_spool_exact (texts : List (ShortText T)) :
    SpoolSafe fresh T texts ∧ (DropsRight fresh T texts ↔ FindRoom fresh T texts) :=
  ⟨spoolSafe fresh T texts, dropsRight_iff fresh T texts⟩

end Texts

/-- A text of `n` letters. -/
def letters (n : ℕ) : List U8 := List.replicate n 120#8

theorem length_letters (n : ℕ) : (letters n).length = n := List.length_replicate

theorem ne_of_mem_letters {n : ℕ} {c : U8} (h : c ∈ letters n) : c = 120#8 :=
  List.eq_of_mem_replicate h

def lowThreshold : Threshold := ⟨1, by decide⟩

def longLine : ShortText lowThreshold where
  val := ⟨letters 2500 ++ [LF], fun h ↦ (List.mem_append.mp h).elim
    (fun h ↦ absurd (ne_of_mem_letters h) (by decide)) (by decide)⟩
  property := by
    rw [List.length_append, length_letters]
    decide

def shortLine : ShortText lowThreshold where
  val := ⟨letters 200, fun h ↦ absurd (ne_of_mem_letters h) (by decide)⟩
  property := by
    rw [length_letters]
    decide

theorem length_longLine : longLine.1.1.length = 2501 := by
  rw [longLine, List.length_append, length_letters]
  rfl

theorem spoolOf_longLines :
    spoolOf lowThreshold [longLine, longLine] = longLine.1.1 ++ longLine.1.1 := by
  have hempty : kept (mallocsize lowThreshold) [] longLine.1.1 = [] := if_pos (by
    rw [Fits, length_longLine]
    decide)
  have hline : kept (mallocsize lowThreshold) longLine.1.1 longLine.1.1 = longLine.1.1 :=
    if_pos (by
      rw [Fits, length_longLine]
      decide)
  rw [spoolOf, List.foldl_cons, List.foldl_cons, List.foldl_nil, hempty, List.nil_append, hline]

/-- **Both lines are dropped** for a short one, where dropping the first would do. -/
theorem not_dropsRight : ¬∀ fresh T texts, DropsRight fresh T texts := by
  intro h
  have hroom := (dropsRight_iff (fun n ↦ ⟨List.replicate n 0#8, List.length_replicate⟩)
    lowThreshold [longLine, longLine, shortLine]).mp (h _ _ _)
  obtain ⟨msg, hmsg, hspooled⟩ := afterTexts_spec
    (fun n ↦ ⟨List.replicate n 0#8, List.length_replicate⟩) lowThreshold [longLine, longLine]
  have hlong := length_longLine
  have hshort : shortLine.1.1.length = 200 := length_letters 200
  have hM : mallocsize lowThreshold = 5104 := rfl
  have hfind := hroom [longLine, longLine] shortLine List.prefix_rfl msg _ hmsg hspooled.spooled
  rw [spoolOf_longLines] at hfind
  rcases hfind with hfits | hline
  · rw [Fits, List.length_append] at hfits
    omega
  · have hstart : LineStart (longLine.1.1 ++ longLine.1.1) longLine.1.1 := by
      refine Or.inr ⟨letters 2500, LF, ?_, rfl, fun d hd ↦ ?_⟩
      · exact List.append_assoc (letters 2500) [LF] longLine.1.1
      · obtain rfl := Option.some.inj (Option.mem_def.mp hd)
        rfl
    have hlt := hline _ hstart (by rw [Fits]; omega)
    rw [List.length_append] at hlt
    omega

end Hyunjin.Mail
