import Hyunjin.Log.Rotation
import Hyunjin.Net.Netline
import Hyunjin.Stdio.Shifting

/-!
# The log file

`InternalLogFile` appends a message to the log file, unless the message is only a part of a line. A
file that is limited as a queue then loses its first lines if it has become too long: what is kept
is moved to the start of the file, from the next line on. All calls of `stdio` succeed here, and
characters are not translated.
-/

namespace Hyunjin

open Net (CR LF)
open Stdio (Cursors)

/-! ## A file as a queue -/

/-- A carriage return or a line feed. -/
def isLineEnd (c : U8) : Bool := c = CR ∨ c = LF

/-- The ends of lines at the head of a buffer. -/
def skipEnds : List U8 → ℕ
  | [] => 0
  | c :: cs => if isLineEnd c then skipEnds cs + 1 else 0

/-- The characters up to the beginning of the next line, where `filelen` have been looked at; none
are skipped if no line ends. -/
def skipToLine (filelen : ℕ) : List U8 → ℕ
  | [] => 0
  | c :: cs => if isLineEnd c then filelen + skipEnds (c :: cs) else skipToLine (filelen + 1) cs

/-- The size of a buffer for moving. -/
def MAXSWAPSIZE : ℕ := 4096

section Long

variable (w : ℕ)

/-- What `ftell` says of a file, where a `long` has `w` bits; 0 if that fails. -/
def filelenOf (file : List U8) : ℕ := if file.length < 2 ^ (w - 1) then file.length else 0

/-- The limit in kilobytes, which is at least 100. -/
def fifoLimit (logfileLimit : U32) : ℕ := if logfileLimit < 100#32 then 100 else logfileLimit.toNat

/-- The limit in bytes, as an `unsigned long`. -/
def fifoBytes (logfileLimit : U32) : ℕ := fifoLimit logfileLimit <<< 10 % 2 ^ w

/-- Where the last 90 % of the limit start. -/
def nextTop (logfileLimit : U32) (filelen : ℕ) : ℕ :=
  (filelen + (2 ^ w - fifoBytes w logfileLimit * 9 % 2 ^ w / 10)) % 2 ^ w

/-- The file after a message has been appended, cut down to the last lines if it is too long; `none`
if moving them does not come to an end. -/
def trimFifo (logfileLimit : U32) (file : List U8) : Option (List U8) :=
  if filelenOf w file ≤ fifoBytes w logfileLimit then some file
  else
    let top := nextTop w logfileLimit (filelenOf w file)
    let swapbuffer := (file.drop top).take MAXSWAPSIZE
    if swapbuffer = [] then some file
    else
      let top := top + skipToLine 0 (swapbuffer.take (swapbuffer.length - 1))
      (Run.whileLoop (Cursors.atEnd MAXSWAPSIZE) (Cursors.move MAXSWAPSIZE) (file.length + 1)
        ⟨file, top, 0⟩).map fun cursors ↦ cursors.file.take cursors.target

/-! ## Logging to a file -/

/-- The settings of the log. -/
structure LogStatics where
  loggingToFile : Bool
  spoolson : Bool
  logfile : List U8
  logfileType : LogfileType
  logfileLimit : U32

/-- The first line of a file that is started again. -/
def restartLine (logfileLimit : U32) (timeString : List U8) : List U8 :=
  literal "[" ++ timeString ++ literal "] Log file exceeded " ++ decimal logfileLimit.toNat ++
    literal "Kbyte limit. Restarted...\n\n"

/-- `InternalLogFile`, on the file that has the name of the log at the time. -/
def internalLogFile (s : LogStatics) (now : Option Tm) (timeString file msgbuffer : List U8) :
    Option (List U8) :=
  if msgbuffer.getLast? ≠ some LF ∨ s.spoolson = false ∨ s.loggingToFile = false then some file
  else if getLogname s.logfileType s.logfileLimit.toInt now s.logfile 160 = none then some file
  else match s.logfileType with
    | .none => some file
    | .restart =>
      if s.logfileLimit.toNat < filelenOf w file / 1024 % 2 ^ 32 then
        some (restartLine s.logfileLimit timeString ++ msgbuffer)
      else some (file ++ msgbuffer)
    | .rotate => some (file ++ msgbuffer)
    | .fifo => trimFifo w s.logfileLimit (file ++ msgbuffer)
    | .noLimit => some (file ++ msgbuffer)

end Long

/-! ## Beginnings of lines -/

theorem skipEnds_spec {c : U8} (h : isLineEnd c = true) (cs : List U8) :
    ∃ before d after, c :: cs = before ++ d :: after ∧ isLineEnd d = true ∧
      skipEnds (c :: cs) = before.length + 1 := by
  induction cs generalizing c with
  | nil => exact ⟨[], c, [], rfl, h, by rw [skipEnds, if_pos h]; rfl⟩
  | cons e cs ih =>
    rw [skipEnds, if_pos h]
    by_cases he : isLineEnd e = true
    · obtain ⟨before, d, after, heq, hd, hskip⟩ := ih he
      exact ⟨c :: before, d, after, by rw [heq, List.cons_append], hd, by rw [hskip]; rfl⟩
    · exact ⟨[], c, e :: cs, rfl, h, by rw [skipEnds, if_neg he]; rfl⟩

/-- **What is skipped** ends with the end of a line, if there is one. -/
theorem skipToLine_spec (filelen : ℕ) (buf : List U8) :
    (skipToLine filelen buf = 0 ∧ ∀ c ∈ buf, isLineEnd c = false) ∨
      ∃ before c after, buf = before ++ c :: after ∧ isLineEnd c = true ∧
        skipToLine filelen buf = filelen + (before.length + 1) := by
  induction buf generalizing filelen with
  | nil => exact .inl ⟨rfl, fun _ h ↦ nomatch h⟩
  | cons c buf ih =>
    rw [skipToLine]
    by_cases h : isLineEnd c = true
    · obtain ⟨before, d, after, heq, hd, hskip⟩ := skipEnds_spec h buf
      rw [if_pos h, hskip]
      exact .inr ⟨before, d, after, heq, hd, rfl⟩
    · rw [if_neg h]
      rcases ih (filelen + 1) with ⟨hzero, hnone⟩ | ⟨before, d, after, heq, hd, hskip⟩
      · refine .inl ⟨hzero, fun d hd ↦ ?_⟩
        rcases List.mem_cons.mp hd with rfl | hd
        · exact eq_false_of_ne_true h
        · exact hnone d hd
      · refine .inr ⟨c :: before, d, after, by rw [heq, List.cons_append], hd, ?_⟩
        rw [hskip, List.length_cons]
        omega

theorem skipToLine_le (buf : List U8) : skipToLine 0 buf ≤ buf.length := by
  rcases skipToLine_spec 0 buf with ⟨hzero, -⟩ | ⟨before, c, after, heq, -, hskip⟩
  · rw [hzero]
    exact Nat.zero_le _
  · rw [hskip, heq, List.length_append, List.length_cons]
    omega

/-! ## What is kept -/

/-- The last 90 % of the limit. -/
def keptPart (logfileLimit : U32) (file : List U8) : List U8 :=
  file.drop (file.length - fifoLimit logfileLimit * 1024 * 9 / 10)

/-- What is left of a file begins after the end of a line. -/
def BeginsLine (file new : List U8) : Prop := ∃ before c, file = before ++ c :: new ∧
  isLineEnd c = true

/-- The log file has the message, and is as long as its limit allows. -/
structure FifoRight (logfileLimit : U32) (old msg new : List U8) : Prop where
  suffix : new <:+ old ++ msg
  whole : msg <:+ new
  short : (old ++ msg).length ≤ fifoLimit logfileLimit * 1024 → new = old ++ msg
  long : fifoLimit logfileLimit * 1024 < (old ++ msg).length →
    10 * new.length ≤ 9 * (fifoLimit logfileLimit * 1024)
  line : fifoLimit logfileLimit * 1024 < (old ++ msg).length →
    (∃ c ∈ (keptPart logfileLimit (old ++ msg)).take 4095, isLineEnd c = true) →
      BeginsLine (old ++ msg) new

theorem fifoLimit_ge (logfileLimit : U32) : 100 ≤ fifoLimit logfileLimit := by
  rw [fifoLimit]
  split_ifs with h
  · exact le_rfl
  · exact BitVec.le_def.mp (BitVec.not_lt.mp h)

/-- A file that is too long, with nothing that is too large for a `long`. -/
structure Trimmable (w : ℕ) (logfileLimit : U32) (file : List U8) : Prop where
  long : fifoLimit logfileLimit * 1024 < file.length
  length_lt : file.length < 2 ^ (w - 1)
  limit_lt : fifoLimit logfileLimit * 1024 * 9 < 2 ^ w

namespace Trimmable

variable {w : ℕ} {logfileLimit : U32} {file : List U8}

theorem fifoBytes_eq (h : Trimmable w logfileLimit file) :
    fifoBytes w logfileLimit = fifoLimit logfileLimit * 1024 := by
  have hlt := h.limit_lt
  rw [fifoBytes, Nat.shiftLeft_eq]
  exact Nat.mod_eq_of_lt (by omega)

theorem nextTop_eq (h : Trimmable w logfileLimit file) : nextTop w logfileLimit file.length =
    file.length - fifoLimit logfileLimit * 1024 * 9 / 10 := by
  have hlong := h.long
  have hlt := h.length_lt
  have hpow : 2 ^ (w - 1) ≤ 2 ^ w := Nat.pow_le_pow_right (by decide) (Nat.sub_le _ _)
  have hsum : file.length + (2 ^ w - fifoLimit logfileLimit * 1024 * 9 / 10) =
      file.length - fifoLimit logfileLimit * 1024 * 9 / 10 + 2 ^ w := by
    omega
  rw [nextTop, h.fifoBytes_eq, Nat.mod_eq_of_lt h.limit_lt, hsum, Nat.add_mod_right]
  exact Nat.mod_eq_of_lt (by omega)

theorem length_keptPart (h : Trimmable w logfileLimit file) :
    (keptPart logfileLimit file).length = fifoLimit logfileLimit * 1024 * 9 / 10 := by
  have hlong := h.long
  rw [keptPart, List.length_drop]
  omega

/-- **The file is cut** where the kept part starts, or where its first line starts. -/
theorem trimFifo_eq (h : Trimmable w logfileLimit file) : trimFifo w logfileLimit file =
    some ((keptPart logfileLimit file).drop
      (skipToLine 0 ((keptPart logfileLimit file).take 4095))) := by
  have hlong := h.long
  have hlimit := fifoLimit_ge logfileLimit
  have hkept := h.length_keptPart
  have hfilelen : filelenOf w file = file.length := if_pos h.length_lt
  have hbuf : ((keptPart logfileLimit file).take MAXSWAPSIZE).length = 4096 := by
    rw [List.length_take, MAXSWAPSIZE]
    omega
  have hne : (keptPart logfileLimit file).take MAXSWAPSIZE ≠ [] := by
    rw [← List.length_pos_iff, hbuf]
    decide
  have htake : ((keptPart logfileLimit file).take MAXSWAPSIZE).take (4096 - 1) =
      (keptPart logfileLimit file).take 4095 := List.take_take
  obtain ⟨skip, hskip⟩ : ∃ skip, skip = skipToLine 0 ((keptPart logfileLimit file).take 4095) :=
    ⟨_, rfl⟩
  have hskip_le : skip ≤ 4095 := by
    rw [hskip]
    exact (skipToLine_le _).trans (List.length_take_le _ _)
  have hnot : ¬filelenOf w file ≤ fifoBytes w logfileLimit := by
    rw [hfilelen, h.fifoBytes_eq]
    exact Nat.not_le.mpr hlong
  have hstart : nextTop w logfileLimit file.length + skip ≤ file.length := by
    rw [h.nextTop_eq]
    omega
  obtain ⟨cursors, hloop, hmoved⟩ :=
    Cursors.exists_moved (by decide : 0 < MAXSWAPSIZE) hstart
  have hpart : file.drop (nextTop w logfileLimit file.length) = keptPart logfileLimit file := by
    rw [h.nextTop_eq, keptPart]
  rw [trimFifo, if_neg hnot, hfilelen]
  dsimp only
  rw [hpart, if_neg hne, hbuf, htake, ← hskip, hloop, Option.map_some, hmoved, ← List.drop_drop,
    hpart]

/-- **A file that is cut** ends with its last message. -/
theorem fifoRight {old msg : List U8} (h : Trimmable w logfileLimit (old ++ msg))
    (hmsg : msg.length ≤ 1023) : FifoRight logfileLimit old msg
      ((keptPart logfileLimit (old ++ msg)).drop
        (skipToLine 0 ((keptPart logfileLimit (old ++ msg)).take 4095))) := by
  have hlong := h.long
  have hlimit := fifoLimit_ge logfileLimit
  have hlen := h.length_keptPart
  obtain ⟨kept, hkept⟩ : ∃ kept, kept = keptPart logfileLimit (old ++ msg) := ⟨_, rfl⟩
  have hskip : skipToLine 0 (kept.take 4095) ≤ 4095 :=
    (skipToLine_le _).trans (List.length_take_le _ _)
  have hfile : (old ++ msg).take ((old ++ msg).length - kept.length) ++ kept = old ++ msg := by
    rw [hkept, hlen]
    exact List.take_append_drop _ _
  rw [← hkept] at hlen ⊢
  have hsuffix : kept.drop (skipToLine 0 (kept.take 4095)) <:+ old ++ msg :=
    (List.drop_suffix _ _).trans ⟨_, hfile⟩
  refine ⟨hsuffix, ?_, fun hle ↦ absurd hle (Nat.not_le.mpr hlong), fun _ ↦ ?_, fun _ hend ↦ ?_⟩
  · refine List.suffix_of_suffix_length_le (List.suffix_append old msg) hsuffix ?_
    rw [List.length_drop]
    omega
  · rw [List.length_drop]
    omega
  · rcases skipToLine_spec 0 (kept.take 4095) with ⟨-, hnone⟩ | ⟨before, c, after, heq, hc, hskip⟩
    · obtain ⟨c, hmem, hc⟩ := hend
      exact absurd hc (by rw [← hkept] at hmem; rw [hnone c hmem]; decide)
    · have hsplit : kept = before ++ c :: (after ++ kept.drop 4095) := by
        rw [← List.cons_append, ← List.append_assoc, ← heq, List.take_append_drop]
      have hdrop : kept.drop (before.length + 1) = after ++ kept.drop 4095 := by
        conv_lhs => rw [hsplit]
        rw [← List.drop_drop, List.drop_left, List.drop_one, List.tail_cons]
      refine ⟨(old ++ msg).take ((old ++ msg).length - kept.length) ++ before, c, ?_, hc⟩
      rw [hskip, Nat.zero_add, hdrop, List.append_assoc, ← hsplit]
      exact hfile.symm

end Trimmable

/-- A call of `InternalLogFile` with a message of whole lines, while a queue is logged to. With
longs of 32 bits the limit must be one that is not too large to be multiplied by nine. -/
structure FifoCall (w : ℕ) where
  statics : LogStatics
  fifo : statics.logfileType = .fifo
  loggingToFile : statics.loggingToFile = true
  spoolson : statics.spoolson = true
  named : statics.logfile ≠ []
  limit_lt : w = 64 ∨ fifoLimit statics.logfileLimit * 1024 * 9 < 2 ^ w
  old : List U8
  msg : List U8
  ended : msg.getLast? = some LF
  msg_le : msg.length ≤ 1023
  length_lt : (old ++ msg).length < 2 ^ (w - 1)

theorem FifoCall.fits {w : ℕ} (call : FifoCall w) :
    fifoLimit call.statics.logfileLimit * 1024 * 9 < 2 ^ w := by
  rcases call.limit_lt with rfl | h
  · have hlt := call.statics.logfileLimit.isLt
    rw [fifoLimit]
    split_ifs <;> omega
  · exact h

theorem FifoCall.internalLogFile_eq {w : ℕ} (call : FifoCall w) (now : Option Tm)
    (timeString : List U8) : internalLogFile w call.statics now timeString call.old call.msg =
      trimFifo w call.statics.logfileLimit (call.old ++ call.msg) := by
  have hon : ¬(call.msg.getLast? ≠ some LF ∨ call.statics.spoolson = false ∨
      call.statics.loggingToFile = false) := by
    rw [call.ended, call.spoolson, call.loggingToFile]
    simp
  have hname : getLogname call.statics.logfileType call.statics.logfileLimit.toInt now
      call.statics.logfile 160 ≠ none := by
    rw [call.fifo, getLogname]
    simp [call.named]
  rw [internalLogFile, if_neg hon, if_neg hname, call.fifo]

/-- **The log file is a queue**: of the old contents and the message it keeps all, or else the lines
at the end that fit 90 % of the limit, with the message among them. -/
theorem internalLogFile_fifo (w : ℕ) (call : FifoCall w) (now : Option Tm) (timeString : List U8) :
    ∃ new, internalLogFile w call.statics now timeString call.old call.msg = some new ∧
      FifoRight call.statics.logfileLimit call.old call.msg new := by
  rw [call.internalLogFile_eq]
  by_cases hlong : fifoLimit call.statics.logfileLimit * 1024 < (call.old ++ call.msg).length
  · have htrim : Trimmable w call.statics.logfileLimit (call.old ++ call.msg) :=
      ⟨hlong, call.length_lt, call.fits⟩
    exact ⟨_, htrim.trimFifo_eq, htrim.fifoRight call.msg_le⟩
  · have hshort := Nat.le_of_not_lt hlong
    have hfits := call.fits
    have hbytes : fifoBytes w call.statics.logfileLimit =
        fifoLimit call.statics.logfileLimit * 1024 := by
      rw [fifoBytes, Nat.shiftLeft_eq]
      exact Nat.mod_eq_of_lt (by omega)
    have hfilelen : filelenOf w (call.old ++ call.msg) = (call.old ++ call.msg).length :=
      if_pos call.length_lt
    refine ⟨call.old ++ call.msg, ?_, List.suffix_rfl, List.suffix_append _ _, fun _ ↦ rfl,
      fun h ↦ absurd h hlong, fun h ↦ absurd h hlong⟩
    rw [trimFifo, if_pos (by rwa [hfilelen, hbytes])]

/-- Settings with the least limit. -/
def fifoStatics : LogStatics := ⟨true, true, literal "log", .fifo, 100#32⟩

/-- `log` -/
def logLine : List U8 := [108#8, 111#8, 103#8, LF]

/-- As many lines as the least limit holds. -/
def fullLog : List U8 := (List.replicate 25600 logLine).flatten

private theorem length_fullLog : (fullLog ++ logLine).length = 102404 := by
  have hline : logLine.length = 4 := by decide
  have hlog : fullLog.length = 25600 * 4 := by
    rw [fullLog, List.length_flatten, List.map_replicate, List.sum_replicate, hline, smul_eq_mul]
  rw [List.length_append, hlog, hline]

/-- A message to a file that is full. -/
def fullFifoCall : FifoCall 64 where
  statics := fifoStatics
  fifo := rfl
  loggingToFile := rfl
  spoolson := rfl
  named := by decide
  limit_lt := Or.inl rfl
  old := fullLog
  msg := logLine
  ended := by decide
  msg_le := by decide
  length_lt := by
    rw [length_fullLog]
    decide

/-- The message drives out a tenth of the lines. -/
theorem internalLogFile_fifo_full : ∃ new,
    internalLogFile 64 fullFifoCall.statics none [] fullFifoCall.old fullFifoCall.msg = some new ∧
      fullFifoCall.msg <:+ new ∧ 10 * new.length ≤ 9 * 102400 := by
  obtain ⟨new, hnew, hright⟩ := internalLogFile_fifo 64 fullFifoCall none []
  have hlimit : fifoLimit fullFifoCall.statics.logfileLimit * 1024 = 102400 := by decide
  have hlength : (fullFifoCall.old ++ fullFifoCall.msg).length = 102404 := length_fullLog
  have hlong := hright.long (by rw [hlimit, hlength]; decide)
  rw [hlimit] at hlong
  exact ⟨new, hnew, hright.whole, hlong⟩

/-- **A part of a line** is not logged. -/
theorem not_internalLogFile_fifo : ¬∀ (old msg : List U8), msg.length ≤ 1023 →
    ∃ new, internalLogFile 64 fifoStatics none [] old msg = some new ∧
      FifoRight fifoStatics.logfileLimit old msg new := by
  intro h
  obtain ⟨new, hnew, hright⟩ := h [] (literal "a") (by decide)
  have hempty : new = [] := Option.some.inj (hnew.symm.trans (by decide))
  have hwhole := hright.whole
  rw [hempty] at hwhole
  exact absurd hwhole (by decide)

end Hyunjin
