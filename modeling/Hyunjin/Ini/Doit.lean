import Hyunjin.Word.Strings

/-!
# The ini file

`ini_doit` reads a setting from an ini file or writes one. It takes the whole file into one block of
memory, and a write edits the block in place: it moves the tail, stores the new line and counts the
length. The block is as long as the file, the strings of the entry and some more. An access outside
of it is undefined, `none`.

A line is scanned with the blanks and the line ends around it. What is done with a line of the
wanted key is a parameter of the scan: a read copies the value and stops, a write replaces or
deletes the line and goes on. Input and output succeed here, and whether memory can be had is a
parameter. A read without a key, which lists a section, is not modelled.
-/

namespace Hyunjin.Ini

open Memory

/-! ## Characters -/

def LF : U8 := 10#8

/-- `'\r'` or `'\n'` -/
def isEol (c : U8) : Bool := c == 13#8 || c == LF

/-- `' '` or `'\t'` -/
def isBlank (c : U8) : Bool := c == 32#8 || c == 9#8

def isSpace (c : U8) : Bool := isEol c || isBlank c

/-- `iscntrl` of the C locale. -/
def iscntrl (c : U8) : Bool := c.ult 32#8 || c == 127#8

/-- What is stripped from the end of the file. -/
def isTrivial (c : U8) : Bool := isSpace c || iscntrl c

/-- Also convert `_` to `-`. -/
def TOUPPER (c : U8) : U8 :=
  if c = 95#8 then 45#8 else if (97#8).ule c && c.ule 122#8 then c - 32#8 else c

def QUOTE : U8 := 39#8

def DQUOTE : U8 := 34#8

def isQuote (c : U8) : Bool := c == QUOTE || c == DQUOTE

/-- The characters `[`, `]` and `=`. -/
def OPEN : U8 := 91#8

def CLOSE : U8 := 93#8

def EQUALS : U8 := 61#8

/-! ## Quoting -/

/-- Look for the first quote, and for blanks before it. -/
def quoteLoop : Bool → List U8 → Option U8
  | qn, [] => if qn then some DQUOTE else none
  | qn, c :: cs =>
    if isQuote c then some (if c = DQUOTE then QUOTE else DQUOTE)
    else quoteLoop (qn || isBlank c) cs

/-- The quote a value is written with, if any. A value that starts with a quote is written as it
is. -/
def quotechar (value : List U8) : Option U8 :=
  match value with
  | [] => none
  | c :: cs => if isQuote c then none else quoteLoop false (c :: cs)

/-- The key and the value as they are stored. -/
def entryText (key value : List U8) : List U8 :=
  key ++ EQUALS :: ((quotechar value).toList ++ value ++ (quotechar value).toList ++ [LF])

/-! ## Lines -/

/-- The block and what the scan has come across. `found` is what a read has copied. -/
structure Block where
  data : List U8
  filelen : ℕ
  offset : ℕ
  sectoff : ℕ
  sectoffend : ℕ
  foundrecs : ℕ
  anysect : Bool
  changed : Bool
  foundsect : Bool
  found : Option (List U8)

/-- A line: where it and its key are, and how much of what belongs to it. -/
structure Scan where
  offset : ℕ
  eollen : ℕ
  keyoff : ℕ
  leadspaces : ℕ
  linelen : ℕ

/-- Scan one line, with the line ends behind it. -/
def scanLine (data : List U8) : ℕ → Scan → Option Scan
  | 0, s => some s
  | n + 1, s => do
    let c ← data[s.offset]?
    if isEol c then
      scanLine data n
        { s with
          offset := s.offset + 1
          eollen := if s.linelen ≠ 0 then s.eollen + 1 else s.eollen }
    else if s.eollen ≠ 0 then some s
    else if s.linelen = 0 ∧ isBlank c then
      scanLine data n { s with offset := s.offset + 1, leadspaces := s.leadspaces + 1 }
    else
      scanLine data n
        { s with
          offset := s.offset + 1
          keyoff := if s.linelen = 0 then s.offset else s.keyoff
          linelen := s.linelen + 1 }

/-- `while (n-- && isblank(data[pos + i])) i++;` -/
def skipBlanks (data : List U8) (pos : ℕ) : ℕ → ℕ → Option ℕ
  | 0, i => some i
  | n + 1, i => do
    let c ← data[pos + i]?
    if isBlank c then skipBlanks data pos n (i + 1) else some i

/-- Compare with a string as far as they agree: where that is, and what is left of the string. -/
def matchText (data : List U8) (pos limit : ℕ) : ℕ → List U8 → Option (ℕ × List U8)
  | i, [] => some (i, [])
  | i, s :: ss =>
    if i < limit then do
      let c ← data[pos + i]?
      if TOUPPER s = TOUPPER c then matchText data pos limit (i + 1) ss else some (i, s :: ss)
    else some (i, s :: ss)

/-- Is this line, which starts with `[`, the header of the section? -/
def headerFound (data : List U8) (keyoff linelen : ℕ) (sect : List U8) : Option Bool := do
  let i ← skipBlanks data keyoff (linelen - 1) 1
  let (i, ss) ← matchText data keyoff (linelen - 1) i (sect.dropWhile isBlank)
  let i ← skipBlanks data keyoff (linelen - 1 - i) i
  if ss.dropWhile isBlank = [] then do
    let c ← data[keyoff + i]?
    some (c == CLOSE)
  else some false

/-- `while (n-- && data[pos + i] != '=') i++;` -/
def findEquals (data : List U8) (pos : ℕ) : ℕ → ℕ → Option ℕ
  | 0, i => some i
  | n + 1, i => do
    let c ← data[pos + i]?
    if c = EQUALS then some i else findEquals data pos n (i + 1)

/-- `while (n > 0 && p(data[pos + n - 1])) n--;` -/
def stripBack (p : U8 → Bool) (data : List U8) (pos : ℕ) : ℕ → Option ℕ
  | 0 => some 0
  | n + 1 => do
    let c ← data[pos + n]?
    if p c then stripBack p data pos n else some (n + 1)

/-- The length of the key of a line, where its value begins, and whether the key is the wanted
one. -/
def findKey (data : List U8) (keyoff linelen : ℕ) (key : Option CString) :
    Option (ℕ × ℕ × Bool) := do
  let equals ← findEquals data keyoff linelen 0
  if equals < linelen then do
    let keylen ← stripBack isBlank data keyoff equals
    match key with
    | none => some (keylen, equals + 1, false)
    | some key =>
      if 0 < keylen then do
        let (i, ss) ← matchText data keyoff keylen 0 (key.1.dropWhile isBlank)
        some (keylen, equals + 1, decide (ss.dropWhile isBlank = [] ∧ i = keylen))
      else some (keylen, equals + 1, false)
  else some (equals, 0, false)

/-! ## The scan -/

/-- What is done with a line of the wanted key, and whether the scan goes on. -/
abbrev Action : Type := Block → Scan → (keylen valuepos : ℕ) → Option (Block × Bool)

/-- A line is a header or, in the section, a record. -/
def visitLine (sect key : Option CString) (act : Action) (b : Block) (sc : Scan) :
    Option (Block × Bool) := do
  let c ← b.data[sc.keyoff]?
  if c = OPEN then
    if b.foundsect then some ({ b with anysect := true, sectoffend := sc.keyoff }, false)
    else do
      let found ← headerFound b.data sc.keyoff sc.linelen ((sect.map Subtype.val).getD [])
      if found then
        some ({ b with
          anysect := true
          sectoff := sc.keyoff - sc.leadspaces
          foundsect := true }, true)
      else some ({ b with anysect := true }, true)
  else if b.foundsect ∨ sect = none ∧ b.anysect = false then do
    let (keylen, valuepos, keyfound) ← findKey b.data sc.keyoff sc.linelen key
    if keyfound then act { b with foundrecs := b.foundrecs + 1 } sc keylen valuepos
    else some ({ b with foundrecs := b.foundrecs + 1 }, true)
  else some (b, true)

/-- `while (offset < filelen)`; every line takes at least one character. -/
def scanLoop (sect key : Option CString) (act : Action) : ℕ → Block → Option Block
  | 0, _ => none
  | fuel + 1, b =>
    if b.offset < b.filelen then do
      let sc ← scanLine b.data (b.filelen - b.offset) ⟨b.offset, 0, 0, 0, 0⟩
      if sc.linelen = 0 then scanLoop sect key act fuel { b with offset := sc.offset }
      else do
        let (b, goesOn) ← visitLine sect key act { b with offset := sc.offset } sc
        if goesOn then scanLoop sect key act fuel b else some b
    else some b

def scanFile (sect key : Option CString) (act : Action) (data : List U8) (filelen : ℕ) :
    Option Block :=
  scanLoop sect key act (filelen + 1)
    ⟨data, filelen, 0, 0, 0, 0, false, false, decide (sect = none ∧ filelen ≠ 0), none⟩

/-! ## Reading -/

/-- Where the end quote is, or the end of the line. -/
def findQuote (data : List U8) (pos : ℕ) (endquote : U8) : ℕ → ℕ → Option ℕ
  | 0, i => some i
  | n + 1, i => do
    let c ← data[i + pos]?
    if c = endquote then some i else findQuote data pos endquote n (i + 1)

/-- A value without its quotes, or without the blanks behind it. -/
def valueSpan (data : List U8) (valueoff valuelen : ℕ) : Option (ℕ × ℕ) :=
  if valuelen = 0 then some (valueoff, 0)
  else do
    let c ← data[valueoff]?
    if isQuote c then do
      let valuelen ← findQuote data (valueoff + 1) c (valuelen - 1) 0
      some (valueoff + 1, valuelen)
    else do
      let valuelen ← stripBack isBlank data valueoff valuelen
      some (valueoff, valuelen)

def readBytes (data : List U8) (pos n : ℕ) : Option (List U8) :=
  if pos + n ≤ data.length then some ((data.drop pos).take n) else none

/-- Copy the value, as far as the buffer takes it. -/
def copyValue (bufflen : ℕ) : Action := fun b sc _ valuepos ↦ do
  let valuepos ← skipBlanks b.data sc.keyoff (sc.linelen - valuepos) valuepos
  let (valueoff, valuelen) ← valueSpan b.data (sc.keyoff + valuepos) (sc.linelen - valuepos)
  let value ← readBytes b.data valueoff (min (bufflen - 1) valuelen)
  some ({ b with found := some value }, false)

/-- The bytes of a block for a file, and whether they can be had. -/
def allocates (malloc : ℕ → Bool) (malloclen : ℕ) : Bool :=
  decide (malloclen < 2 ^ 32 - 129) && malloc malloclen

/-- The default, or nothing if there is none. -/
def copyDefault (defval : Option CString) (bufflen : ℕ) : List U8 :=
  ((defval.map Subtype.val).getD []).take (bufflen - 1)

/-- `GetPrivateProfileStringB`, with the string that it leaves in the buffer. -/
def readString (malloc : ℕ → Bool) (file : Option (List U8)) (sect : Option CString)
    (key : CString) (defval : Option CString) (bufflen : ℕ) : Option (List U8) :=
  match file with
  | none => some (copyDefault defval bufflen)
  | some content =>
    if 2 ≤ bufflen ∧ allocates malloc (content.length + 16) then do
      let b ← scanFile sect (some key) (copyValue bufflen)
        (content ++ List.replicate 16 LF) content.length
      some (b.found.getD (copyDefault defval bufflen))
    else some (copyDefault defval bufflen)

/-! ## Writing -/

/-- Delete the line; a header that comes next keeps a blank line in front of it. -/
def deleteLine (b : Block) (keyoff : ℕ) : Option Block :=
  if keyoff < b.filelen then do
    let c ← b.data[keyoff]?
    if c = OPEN then do
      let data ← memmove b.data (keyoff + 1) keyoff (b.filelen - keyoff)
      let data ← store data keyoff LF
      some { b with
        data := data
        filelen := b.filelen + 1
        offset := b.offset + 1
        foundrecs := b.foundrecs - 1
        changed := true }
    else some { b with foundrecs := b.foundrecs - 1, changed := true }
  else some { b with foundrecs := b.foundrecs - 1, changed := true }

/-- Make room for a line, and for a blank line if a header comes next. -/
def makeRoom (data : List U8) (filelen keyoff linelen : ℕ) : Option (List U8) :=
  if keyoff < filelen then do
    let c ← data[keyoff]?
    if c = OPEN then do
      let data ← memmove data (keyoff + (linelen + 1)) keyoff (filelen - keyoff)
      store data (keyoff + linelen) LF
    else memmove data (keyoff + linelen) keyoff (filelen - keyoff)
  else some data

/-- Put the new line in the place of the old one. -/
def insertLine (b : Block) (keyoff keylen : ℕ) (key value : List U8) : Option Block := do
  let linelen := keylen + 1 + value.length + (if (quotechar value).isSome then 2 else 0) + 1
  let data ← makeRoom b.data b.filelen keyoff linelen
  let data ← stores data keyoff (entryText (key.take keylen) value)
  some { b with
    data := data
    filelen := b.filelen + linelen
    offset := b.offset + linelen
    changed := true }

/-- Take the old line out, and put the new one in if there is a value. -/
def replaceLine (key value : Option CString) : Action := fun b sc keylen _ ↦ do
  let linelen := sc.linelen + (sc.leadspaces + sc.eollen)
  let keyoff := sc.keyoff - sc.leadspaces
  let data ← memmove b.data keyoff (keyoff + linelen) (b.filelen - (keyoff + linelen))
  let b := { b with data := data, filelen := b.filelen - linelen, offset := b.offset - linelen }
  let b ← match value with
    | none => deleteLine b keyoff
    | some value => insertLine b keyoff keylen ((key.map Subtype.val).getD []) value.1
  some (b, true)

/-- No such section: it comes to the end of the file. -/
def addSection (data : List U8) (filelen : ℕ) (sect : Option CString) (key value : List U8) :
    Option (List U8 × ℕ) := do
  let filelen ← stripBack isSpace data 0 filelen
  let header := match sect with
    | none => []
    | some s => OPEN :: (s.1 ++ [CLOSE, LF])
  let text := (if 0 < filelen then [LF, LF] else []) ++ header ++ entryText key value
  let data ← stores data filelen text
  some (data, filelen + text.length)

/-- No old key in the section: it comes to the end of the section. -/
def addEntry (data : List U8) (filelen sectoffend : ℕ) (key value : List U8) :
    Option (List U8 × ℕ) := do
  let sectoffend ← stripBack isSpace data 0 (if sectoffend = 0 then filelen else sectoffend)
  let i := key.length + value.length + 1 + (if (quotechar value).isSome then 2 else 0) + 2
  let data ← memmove data (sectoffend + i) sectoffend (filelen - sectoffend)
  let data ← stores data sectoffend (LF :: (entryText key value ++ [LF]))
  some (data, filelen + i)

def deleteSection (data : List U8) (filelen sectoff sectoffend : ℕ) : Option (List U8 × ℕ) := do
  let sectoff ← stripBack isSpace data 0 sectoff
  let gap := if 0 < sectoff then [LF, LF] else []
  let data ← stores data sectoff gap
  let sectoff := sectoff + gap.length
  if sectoffend = 0 then some (data, sectoff)
  else do
    let data ← memmove data sectoff sectoffend (filelen - sectoffend)
    some (data, filelen - (sectoffend - sectoff))

/-- What is left to do behind the scan: the block and its length if it has changed, and the result
if it has not. -/
def afterScan (b : Block) (sect key value : Option CString) :
    Option (Option (List U8 × ℕ) × ℕ) :=
  match b.foundsect, key, value with
  | false, none, _ => some (none, 1)
  | false, some _, none => some (none, 0)
  | false, some key, some value => do
    let edited ← addSection b.data b.filelen sect key.1 value.1
    some (some edited, 0)
  | true, none, _ => do
    let edited ← deleteSection b.data b.filelen b.sectoff b.sectoffend
    some (some edited, 0)
  | true, some _, none =>
    if b.foundrecs = 0 then do -- no more records, so delete the section too
      let edited ← deleteSection b.data b.filelen b.sectoff b.sectoffend
      some (some edited, 0)
    else some (if b.changed then some (b.data, b.filelen) else none, 1)
  | true, some key, some value =>
    if b.changed then some (some (b.data, b.filelen), 0)
    else do
      let edited ← addEntry b.data b.filelen b.sectoffend key.1 value.1
      some (some edited, 0)

/-- Strip trailing triviality, and end with a newline. -/
def finishFile (data : List U8) (filelen : ℕ) : Option (List U8) := do
  let filelen ← stripBack isTrivial data 0 filelen
  if 0 < filelen then do
    let data ← store data filelen LF
    some (data.take (filelen + 1))
  else some []

/-- Edit the block, and write it out if it has changed. -/
def editBlock (data : List U8) (filelen : ℕ) (file : Option (List U8))
    (sect key value : Option CString) : Option (ℕ × Option (List U8)) := do
  let b ← scanFile sect key (replaceLine key value) data filelen
  let (edited, success) ← afterScan b sect key value
  match edited with
  | none => some (success, file)
  | some (data, filelen) => do
    let content ← finishFile data filelen
    some (if content = [] then success else 1, some content)

/-- The strings of an entry, with the signs between them. -/
def entryLen (sect key value : Option CString) : ℕ :=
  match key, value with
  | some key, some value =>
    ((sect.map Subtype.val).getD []).length + key.1.length + value.1.length + 3
  | _, _ => 0

/-- `WritePrivateProfileStringB`, with the file that it leaves. -/
def writeString (malloc : ℕ → Bool) (file : Option (List U8)) (sect key value : Option CString) :
    Option (ℕ × Option (List U8)) :=
  if sect = none ∧ key = none ∧ value = none then some (1, file) -- flush
  else if file = none ∧ (sect = none ∨ key = none ∨ value = none) then some (1, none)
  else
    let content := file.getD []
    let malloclen := content.length + 16 + entryLen sect key value
    if allocates malloc malloclen then
      editBlock (content ++ List.replicate (malloclen - content.length) LF) content.length file
        sect key value
    else some (0, file)

end Hyunjin.Ini
