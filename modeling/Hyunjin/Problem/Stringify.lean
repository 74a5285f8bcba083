import Hyunjin.Problem.Wide
import Hyunjin.Text.Decimal
import Hyunjin.Word.Strings

/-!
# Writing a number

`U64stringify` writes a 64-bit number for a display of a given width: with commas, in thousands if
it does not fit, and with a unit behind it. The number is put together in `numbuf`, a local buffer
of 32 characters, and `fmtbuf`, another one, is filled from its end when characters have to be put
in between. Access outside of a buffer or of the table of magnitudes is undefined, `none`.
-/

namespace Hyunjin

open Memory

/-- The characters shown where the number finds no room. -/
def STARS : List U8 := [42#8, 42#8, 42#8]

/-- The characters `0`, `5`, `9`, the dot, the space and `1`. -/
def ZERO : U8 := 48#8

def FIVE : U8 := 53#8

def NINE : U8 := 57#8

def DOT : U8 := 46#8

def SPACE : U8 := 32#8

def ONE : U8 := 49#8

/-- Nothing, `k`, `M`, `G`, `T`, `P`, `E`, `Z`, `Y`. -/
def magnaTab : List U8 := [0#8, 107#8, 77#8, 71#8, 84#8, 80#8, 69#8, 90#8, 89#8]

/-! ## The room -/

/-- How the buffer is divided: the digits, then space and magnitude, then the suffix. -/
structure NumberLayout where
  buflen : ℕ
  suffixLen : ℕ
  style : ℤ
  suffix : List U8

/-- The length of the suffix is kept in an `unsigned int`. -/
def numberLayout (buflen : ℕ) (numstrStyle : ℤ) (numstrSuffix : Option CString) : NumberLayout :=
  let buflen := buflen - 1
  let suffix := if numstrStyle ≠ 2 then [] else (numstrSuffix.map Subtype.val).getD []
  let suffixstrLen := suffix.length % 2 ^ 32
  let style := if numstrStyle = 2 ∧ suffixstrLen = 0 then 1 else numstrStyle
  let spaced := buflen ≠ 0 ∧ (style = 1 ∨ style = 2)
  let suffixLen := if spaced then 1 else 0
  let buflen := if spaced then buflen - 1 else buflen
  let buflen :=
    if suffixstrLen < buflen then buflen - suffixstrLen
    else if 5 ≤ buflen then 4 -- so that it falls into the next part
    else buflen
  ⟨buflen, suffixLen, style, suffix⟩

/-! ## The digits -/

/-- A billion. -/
def BILLION : Block := ⟨0#32, 1000000000#32⟩

/-- The digits, with 64-bit and with 32-bit longs. The rounds of the long division are counted. -/
def sprintNumber (long64 : Bool) (v : Block) : Option (List U8) :=
  if long64 then some (decimal ((v.hi.setWidth 64 <<< 32) + v.lo.setWidth 64 : U64).toNat)
  else do
    let (q, r) ← if v.hi ≠ 0#32 then u64divLong 65 v BILLION else some (⟨0#32, 0#32⟩, v)
    if q.hi = 0#32 ∧ q.lo = 0#32 then some (decimal r.lo.toNat)
    else if q.hi = 0#32 then some (decimal q.lo.toNat ++ padded 9 r.lo.toNat)
    else do
      let (h, m) ← u64divLong 65 q BILLION
      some (decimal h.lo.toNat ++ padded 9 m.lo.toNat ++ padded 9 r.lo.toNat)

/-! ## Commas, magnitude and rounding -/

/-- From the last digit to the first, a comma after every third. -/
def commaLoop (numbuf : List U8) : ℕ → ℕ → Cursor → Option Cursor
  | 0, _, _ => none
  | r + 1, len, w => do
    let c ← numbuf[r]?
    let w ← w.push c
    if r = 0 then some w
    else do
      let w ← if (len + 1) % 3 = 0 then w.push COMMA else some w
      commaLoop numbuf r (len + 1) w

/-- Find a spot for a decimal point. -/
def findPoint (numbuf : List U8) : ℕ → Option ℕ
  | 0 => some 0
  | len + 1 => do
    let c ← numbuf[len + 1]?
    if c ≠ COMMA then findPoint numbuf len else some (len + 1)

/-- Count the commas from the decimal point on. -/
def countMagna (numbuf : List U8) : ℕ → ℕ → ℕ → Option ℕ
  | 0, _, _ => none
  | fuel + 1, pos, magna => do
    let c ← numbuf[pos]?
    if c = COMMA then countMagna numbuf fuel (pos + 4) (magna + 1) else some magna

/-- Add one to a digit if there is a carry. -/
def bumpDigit (carry : Bool) (c : U8) : U8 × Bool :=
  if carry ∧ ZERO ≤ c ∧ c ≤ NINE then if NINE < c + 1 then (ZERO, carry) else (c + 1, false)
  else (c, carry)

/-- From the last digit to the first, carry over. -/
def roundLoop (numbuf : List U8) : ℕ → Bool → Cursor → Option (Cursor × Bool)
  | 0, _, _ => none
  | r + 1, carry, w => do
    let c ← numbuf[r]?
    let (c, carry) := bumpDigit carry c
    let w ← w.push c
    if r = 0 then some (w, carry) else roundLoop numbuf r carry w

/-- The number as far as it is written, and the room it has. -/
structure Field where
  numbuf : List U8
  len : ℕ
  magna : ℕ
  buflen : ℕ
  suffixLen : ℕ

/-- Round the number behind the character `len`, but not if its length changes. -/
def roundNumber (numbuf fmtbuf : List U8) (len : ℕ) : Option (List U8 × ℕ) := do
  let c ← numbuf[len]?
  if FIVE ≤ c then do
    let w ← (Cursor.atEnd fmtbuf).push 0#8
    let (w, carry) ← roundLoop numbuf len true w
    let w ← if carry then w.push ONE else some w
    if !carry then do
      let s ← w.str
      let numbuf ← strcpy numbuf s
      some (numbuf, s.length)
    else some (numbuf, len)
  else some (numbuf, len)

/-- Put a decimal point in place of a comma, so that two more digits fit. -/
def scaleNumber (numbuf fmtbuf : List U8) (buflen suffixLen : ℕ) : Option Field := do
  let suffixLen := suffixLen + 1
  let buflen := buflen - 1
  let len ← findPoint numbuf (buflen - 3)
  if len = 0 then do
    let numbuf ← strcpy numbuf STARS
    some ⟨numbuf, 3, 0, buflen, suffixLen⟩
  else do
    let magna ← countMagna numbuf 32 len 0
    let numbuf ← store numbuf len DOT
    let (numbuf, len) ← roundNumber numbuf fmtbuf (len + 3)
    let numbuf ← store numbuf len 0#8
    some ⟨numbuf, len, magna, buflen, suffixLen⟩

/-- Set commas unless the style is unformatted, and scale the number if it is too long then. -/
def formatNumber (numbuf fmtbuf : List U8) (len : ℕ) (lay : NumberLayout) : Option Field :=
  if lay.style ≠ -1 ∧ 3 < len then do
    let w ← (Cursor.atEnd fmtbuf).push 0#8
    let w ← commaLoop numbuf len 0 w
    let s ← w.str
    let numbuf ← strcpy numbuf s
    if lay.buflen < s.length then scaleNumber numbuf w.buf lay.buflen lay.suffixLen
    else some ⟨numbuf, s.length, 0, lay.buflen, lay.suffixLen⟩
  else some ⟨numbuf, len, 0, lay.buflen, lay.suffixLen⟩

/-- The space behind the number, for the styles that have one. -/
def putSpace (numbuf : List U8) (len : ℕ) (style : ℤ) : Option (List U8 × ℕ) :=
  if style = 1 ∨ style = 2 then (store numbuf len SPACE).map (·, len + 1) else some (numbuf, len)

def putMagna (numbuf : List U8) (len magna : ℕ) : Option (List U8 × ℕ) :=
  if magna ≠ 0 then do
    let c ← magnaTab[magna]?
    (store numbuf len c).map (·, len + 1)
  else some (numbuf, len)

/-- The space, the magnitude and the NUL behind the number. -/
def finishNumber (f : Field) (style : ℤ) : Option (List U8) := do
  let (numbuf, len) ← putSpace f.numbuf f.len style
  let (numbuf, len) ← putMagna numbuf len f.magna
  store numbuf len 0#8

/-! ## The whole text -/

/-- The number, or what is shown if it is too long after all. -/
def checkNumber (numbuf : List U8) (buflen : ℕ) : Option (List U8) := do
  let s ← cstr numbuf
  if buflen < s.length then strcpy numbuf STARS else some numbuf

/-- Cut the number to its room, put it into the caller's buffer and the suffix behind it. -/
def copyOut (buffer numbuf : List U8) (buflen : ℕ) (style : ℤ) (suffix : List U8) :
    Option (List U8) := do
  let numbuf ← checkNumber numbuf buflen
  let s ← cstr numbuf
  let buffer ← strncpy buffer s buflen
  let buffer ← store buffer buflen 0#8
  if style = 2 then strcat buffer suffix else some buffer

/-- The local buffers are not initialized. -/
def U64stringify (long64 : Bool) (numbuf fmtbuf : List.Vector U8 32) (buffer : List U8)
    (buflen : ℕ) (v : Block) (numstrStyle : ℤ) (numstrSuffix : Option CString) :
    Option (List U8) :=
  if buflen = 0 then some buffer
  else
    let lay := numberLayout buflen numstrStyle numstrSuffix
    if lay.buflen < 5 then do
      let numbuf ← strcpy numbuf.1 STARS
      copyOut buffer numbuf (lay.buflen + lay.suffixLen) 0 lay.suffix
    else do
      let digits ← sprintNumber long64 v
      let numbuf ← strcpy numbuf.1 digits
      let f ← formatNumber numbuf fmtbuf.1 digits.length lay
      let numbuf ← finishNumber f lay.style
      copyOut buffer numbuf (f.buflen + f.suffixLen) lay.style lay.suffix

end Hyunjin
