import Hyunjin.Buffer.Stock

/-!
# The buffer file interface

`BufferPutFileRecord`, `BufferGetFileRecord` and `BufferCountFileRecords` on one file, with their
choice between the Moo and the stock layout. The choice is made anew in every call by the first four
bytes of the file, and for a file that has none by the sticky `moo_output_mode` flag.
-/

namespace Hyunjin

open Word Stdio

/-- The return value of a put and what it stored through `countP`, if anything. -/
structure PutReturn where
  rc : ℤ
  countP : Option ℕ
  deriving DecidableEq, Repr

/-- The return value of a get, the record it delivered, and what it stored through `countP`. -/
structure GetReturn where
  rc : ℤ
  data : Option WorkRecord
  countP : Option ℕ
  deriving DecidableEq

structure CountReturn where
  rc : ℤ
  packetcount : ℕ
  normcount : ℕ
  deriving DecidableEq, Repr

/-! ## Counting -/

def bufferCountFileRecords (s : BufferState) (contest : U32) : CountReturn × BufferState :=
  let (isMoo, s) := mooFileDetect s
  if isMoo then
    match s.disk.fopen with
    | none => (⟨-1, 0, 0⟩, s)
    | some d =>
      let (hdr, d) := d.fread 32
      match hdr.bind moo521HeaderCount with
      | none => (⟨-1, 0, 0⟩, { s with disk := d.fclose })
      | some reccount =>
        let ((packetcount, normcount), d) := mooCountRecords contest reccount d
        (⟨0, packetcount, normcount⟩, { s with disk := d.fclose })
  else
    let (reccount, d) := bufferOpenFile s.disk BUFFER_FLAGS_NOLWRITE
    match reccount with
    | none => (⟨-1, 0, 0⟩, { s with disk := d })
    | some reccount =>
      let (ok, d) := d.fseek 0
      let (counts, d) := if ok then stockCountScan contest reccount d else (none, d)
      match counts with
      | none => (⟨-1, 0, 0⟩, { s with disk := d.fclose })
      | some (packetcount, normcount) =>
        (⟨0, packetcount, normcount⟩, { s with disk := d.fclose })

/-! ## Putting -/

/-- The stock branch of a put. -/
def stockPut (s : BufferState) (data : WorkRecord) (wantCount : Bool) (flags : U32) :
    PutReturn × BufferState :=
  let (reccount, d) := bufferOpenFile s.disk flags
  match reccount with
  | none => (⟨-1, none⟩, { s with disk := d })
  | some reccount =>
    let (ok, d) := d.fseek 0
    let (scan, d) := if ok then stockPutScan wantCount reccount 0 reccount 0 d else (none, d)
    match scan with
    | none => (⟨-1, none⟩, { s with disk := d.fclose })
    | some (writerec, count) =>
      let (ok, d) := d.fseek (writerec * SIZEOF_WORKRECORD)
      if ok = false then (⟨-1, none⟩, { s with disk := d.fclose })
      else
        let (ok, d) := d.fwrite (stockPackRecord data).val
        if ok = false then (⟨-1, none⟩, { s with disk := d.fclose })
        else
          (⟨0, if wantCount then some (count + 1) else none⟩, { s with disk := d.fclose })

/-- The Moo branch of a put. A file that cannot be opened is created with an empty header. -/
def mooPut (s : BufferState) (data : WorkRecord) (wantCount : Bool) : PutReturn × BufferState :=
  let d :=
    match s.disk.fopen with
    | some d => d
    | none => (s.disk.fopenTruncate.fwrite (moo521MakeHeader 0#32).val).2
  let (ok, d) := d.fseek 0
  let (hdr, d) : Option (Bytes 32) × Disk := if ok then d.fread 32 else (none, d)
  let reccount := (hdr.bind moo521HeaderCount).getD 0
  let (rc, d) := mooWriteOneRecord d reccount data
  match rc with
  | none => (⟨-1, if wantCount then some 0 else none⟩, { s with disk := d.fclose })
  | some reccount =>
    (⟨0, if wantCount then some reccount else none⟩, { s with disk := d.fclose })

def bufferPutFileRecord (s : BufferState) (data : WorkRecord) (wantCount : Bool) (flags : U32) :
    PutReturn × BufferState :=
  let (isMoo, s) := mooFileDetect s
  if isMoo then mooPut s data wantCount
  else if s.mooOutputMode then
    let (missing, s) := mooFileMissing s
    if missing then mooPut s data wantCount else stockPut s data wantCount flags
  else stockPut s data wantCount flags

/-! ## Getting -/

/-- The loop over the packets of a Moo file, up to the first that is not blank. -/
def mooGetLoop : ℕ → ℕ → Disk → SlotRead × Disk
  | 0, _, d => (.blank, d)
  | left + 1, i, d =>
    match mooReadOneRecord d i with
    | (.blank, d) => mooGetLoop left (i + 1) d
    | r => r

/-- The Moo branch of a get. The verdict of `moo521HeaderCount` on the header is not looked at. -/
def mooGet (s : BufferState) (wantCount : Bool) : GetReturn × BufferState :=
  match s.disk.fopen with
  | none => (⟨1, none, if wantCount then some 0 else none⟩, s)
  | some d =>
    let (ok, d) := d.fseek 0
    let (hdr, d) : Option (Bytes 32) × Disk := if ok then d.fread 32 else (none, d)
    match hdr with
    | none => (⟨-1, none, none⟩, { s with disk := d.fclose })
    | some hdr =>
      let reccount := (moo521HeaderCount hdr).getD 0
      match mooGetLoop reccount 0 d with
      | (.ioError, d) =>
        (⟨-1, none, if wantCount then some 0 else none⟩, { s with disk := d.fclose })
      | (.blank, d) =>
        (⟨1, none, if wantCount then some 0 else none⟩,
          { s with disk := bufferZapFileRecords d.fclose })
      | (.record data, d) =>
        if wantCount = false then (⟨0, some data, none⟩, { s with disk := d.fclose })
        else
          -- the file is opened again to count what is left
          match d.fclose.fopen with
          | none => (⟨0, some data, some 0⟩, { s with disk := d.fclose })
          | some d =>
            let (hdr, d) := d.fread 32
            let reccount := (hdr.bind moo521HeaderCount).getD 0
            let ((packetcount, _), d) := mooCountRecords RC5_72 reccount d
            (⟨0, some data, some packetcount⟩, { s with disk := d.fclose })

/-- The stock branch of a get. -/
def stockGet (s : BufferState) (wantCount : Bool) (flags : U32) : GetReturn × BufferState :=
  let (reccount, d) := bufferOpenFile s.disk flags
  match reccount with
  | none => (⟨-1, none, if wantCount then some 0 else none⟩, { s with disk := d })
  | some reccount =>
    let (ok, d) := d.fseek 0
    let ((read, blanked), d) := if ok then stockGetScan reccount 0 0 d else ((.ioError, 0), d)
    let d := d.fclose
    let d := if 0 < reccount ∧ reccount = blanked then bufferZapFileRecords d else d
    let s := { s with disk := d }
    match read with
    | .ioError => (⟨-1, none, if wantCount then some 0 else none⟩, s)
    | .blank => (⟨1, none, if wantCount then some 0 else none⟩, s)
    | .record data =>
      if wantCount = false then (⟨0, some data, none⟩, s)
      else
        let (count, s) := bufferCountFileRecords s data.contest
        (⟨0, some data, some count.packetcount⟩, s)

def bufferGetFileRecord (s : BufferState) (wantCount : Bool) (flags : U32) :
    GetReturn × BufferState :=
  let (isMoo, s) := mooFileDetect s
  if isMoo then mooGet s wantCount else stockGet s wantCount flags

/-! ## Calls -/

/-- A call of the interface with its arguments. -/
inductive BufferCall
  | put (data : WorkRecord) (wantCount : Bool) (flags : U32)
  | get (wantCount : Bool) (flags : U32)
  | count (contest : U32)

inductive BufferAnswer
  | put (r : PutReturn)
  | get (r : GetReturn)
  | count (r : CountReturn)

def BufferCall.exec (c : BufferCall) (s : BufferState) : BufferAnswer × BufferState :=
  match c with
  | .put data wantCount flags =>
    let (r, s) := bufferPutFileRecord s data wantCount flags
    (.put r, s)
  | .get wantCount flags =>
    let (r, s) := bufferGetFileRecord s wantCount flags
    (.get r, s)
  | .count contest =>
    let (r, s) := bufferCountFileRecords s contest
    (.count r, s)

end Hyunjin
