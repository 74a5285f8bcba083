import Hyunjin.Ogr.Load
import Hyunjin.Text.Decimal
import Hyunjin.Word.Printing

/-!
# The text of a stub

`ogrngStubstr` prints a stub for the log: the marks, the differences, a star for a combined stub or
the work that has been done on it. The text is put together in a buffer of 80 characters, and as
much of it as there is room for is copied to the buffer of the caller. A result of `none` is an
access out of range.
-/

namespace Hyunjin.Stubstr

open Memory

def DASH : U8 := 45#8

def SLASH : U8 := 47#8

def STAR : U8 := 42#8

def PLUS : U8 := 43#8

def AT : U8 := 64#8

/-- `char buf[80]` -/
def BUF : ℕ := 80

/-- `stub->stub.diffs[i]` -/
def diffAt (stub : OgrWorkStub) (i : ℕ) : Option ℕ :=
  (place OGR_STUB_MAX i).map (stubDiff stub.stub.diffs)

/-- What follows difference `i` of the stub. -/
def stubMarker (stub : OgrWorkStub) (maxdiff : ℤ) (i : ℕ) (buf : List U8) : Option (List U8) :=
  if i + 1 < stub.stub.length.toNat then strcat buf [DASH]
  else if maxdiff = 0 ∧ stub.collapsed ≠ 0#16 then strcat buf [STAR]
  else some buf

/-- The differences of the stub. -/
def stubLoop (stub : OgrWorkStub) (maxdiff : ℤ) : List ℕ → List U8 → Option (List U8)
  | [], buf => some buf
  | i :: is, buf => do
    let diff ← diffAt stub i
    let diff := if i + 1 = stub.stub.length.toNat ∧ stub.collapsed ≠ 0#16 then stub.collapsed.toNat
      else diff
    let buf ← strcat buf (decimal diff)
    let buf ← stubMarker stub maxdiff i buf
    stubLoop stub maxdiff is buf

/-- What precedes difference `i` of the work. -/
def workMarker (stub : OgrWorkStub) (i : ℕ) (buf : List U8) : Option (List U8) :=
  if stub.stub.length.toNat < i then strcat buf [DASH] else some buf

/-- The differences of the work that has been done. -/
def workLoop (stub : OgrWorkStub) : List ℕ → List U8 → Option (List U8)
  | [], buf => some buf
  | i :: is, buf => do
    let buf ← workMarker stub i buf
    let diff ← diffAt stub i
    let buf ← strcat buf (decimal diff)
    workLoop stub is buf

/-- The places that `workLoop` goes through. -/
def workPlaces (stub : OgrWorkStub) (maxdiff : ℤ) : List ℕ :=
  (List.range' stub.stub.length.toNat
    (stub.worklength.toNat - stub.stub.length.toNat)).takeWhile fun i ↦ (i : ℤ) < maxdiff

/-- The last difference of a combined stub, as it is. -/
def currentDiff (stub : OgrWorkStub) (buf : List U8) : Option (List U8) :=
  if stub.collapsed ≠ 0#16 then
    (diffAt stub (stub.stub.length.toNat - 1)).bind fun diff ↦ strcat buf (AT :: decimal diff)
  else some buf

def workText (stub : OgrWorkStub) (maxdiff : ℤ) (buf : List U8) : Option (List U8) :=
  if 0 < maxdiff ∧ stub.stub.length < stub.worklength then do
    let buf ← currentDiff stub buf
    let buf ← strcat buf [PLUS]
    workLoop stub (workPlaces stub maxdiff) buf
  else some buf

/-- What is in `buf`. -/
def printStub (scratch : List U8) (stub : OgrWorkStub) (maxdiff : ℤ) : Option (List U8) :=
  let len := stub.stub.length.toNat
  if OGR_STUB_MAX < len then
    strcpy scratch ("(error:".toList.map (fun c ↦ BitVec.ofNat 8 c.toNat)
      ++ decimal stub.stub.marks.toNat ++ SLASH :: decimal len ++ [41#8])
  else do
    let buf ← strcpy scratch (decimal stub.stub.marks.toNat ++ [SLASH])
    if len = 0 then strcat buf [DASH]
    else do
      let buf ← stubLoop stub maxdiff (List.range len) buf
      workText stub maxdiff buf

/-- What is in the buffer of the caller. The text is returned there; without a buffer or a stub an
empty string is returned. -/
def ogrngStubstr (scratch : List.Vector U8 BUF) (buffer : Option (List U8)) (bufflen : ℕ)
    (stub : Option OgrWorkStub) (maxdiff : ℤ) : Option (Option (List U8)) :=
  match buffer, stub with
  | some buffer, some stub =>
    if bufflen = 0 then some (some buffer)
    else do
      let buf ← printStub scratch.1 stub maxdiff
      let buffer ← store buffer 0 0#8
      if 1 < bufflen then do
        let text ← cstr buf
        let buffer ← strncpy buffer text bufflen
        (store buffer (bufflen - 1) 0#8).map some
      else some (some buffer)
  | buffer, _ => some buffer

/-! ## What is to be shown -/

/-- Numbers with dashes between them. -/
def dashed : List ℕ → List U8
  | [] => []
  | d :: ds => decimal d ++ ds.flatMap fun d ↦ DASH :: decimal d

/-- Difference `i` of the stub as it has been handed out. -/
def handedOut (stub : OgrWorkStub) (i : ℕ) : ℕ :=
  if i + 1 = stub.stub.length.toNat ∧ stub.collapsed ≠ 0#16 then stub.collapsed.toNat
  else stubDiff stub.stub.diffs i

/-- The star of a combined stub. -/
def starText (stub : OgrWorkStub) (maxdiff : ℤ) : List U8 :=
  if maxdiff = 0 ∧ stub.collapsed ≠ 0#16 then [STAR] else []

/-- The last difference of a combined stub, as the search has it. -/
def currentText (stub : OgrWorkStub) : List U8 :=
  if stub.collapsed ≠ 0#16 then
    AT :: decimal (stubDiff stub.stub.diffs (stub.stub.length.toNat - 1))
  else []

/-- What follows the differences of the stub. -/
def progressText (stub : OgrWorkStub) (maxdiff : ℤ) : List U8 :=
  if 0 < maxdiff ∧ stub.stub.length < stub.worklength then
    currentText stub
      ++ PLUS :: dashed ((workPlaces stub maxdiff).map (stubDiff stub.stub.diffs))
  else []

/-- **The text of a stub**: the marks, and the differences it was handed out with. -/
def stubText (stub : OgrWorkStub) (maxdiff : ℤ) : List U8 :=
  decimal stub.stub.marks.toNat ++ SLASH ::
    if stub.stub.length = 0#16 then [DASH]
    else
      dashed ((List.range stub.stub.length.toNat).map (handedOut stub))
        ++ starText stub maxdiff ++ progressText stub maxdiff

end Hyunjin.Stubstr
