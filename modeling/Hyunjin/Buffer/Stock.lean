import Hyunjin.Buffer.Moo

/-!
# Stock buffer files

A stock buffer file is a sequence of 168-byte records and nothing else; an all-zero record is a
blank slot. A file is created when it is opened, and is refused when its length is not a whole
number of records or when it is opened as a remote buffer.

The scan of a put that has to report a count goes on to the end of the file and so ends with the
last blank slot; one that has not stops at the first.
-/

namespace Hyunjin

open Word Stdio

def SIZEOF_WORKRECORD : ℕ := 168

def BUFFER_FLAGS_NONE : U32 := 0x00#32

def BUFFER_FLAGS_NOLWRITE : U32 := 0x02#32

def BUFFER_FLAGS_REMOTEBUF : U32 := 0x04#32

/-- Truncate a file that exists. -/
def bufferZapFileRecords (d : Disk) : Disk :=
  match d.file with
  | none => d
  | some _ => d.fopenTruncate.fclose

/-- Open a file for updating, after creating it if need be. -/
def openOrCreate (d : Disk) : Disk := d.fopen.getD d.fopenTruncate

/-- Open a buffer file; the result is the number of records. -/
def bufferOpenFile (d : Disk) (flags : U32) : Option ℕ × Disk :=
  if flags &&& BUFFER_FLAGS_REMOTEBUF ≠ 0#32 then (none, d)
  else
    let (filelen, d) := (openOrCreate d).fseekEnd
    match filelen with
    | none => (none, d.fclose)
    | some filelen =>
      if filelen % SIZEOF_WORKRECORD ≠ 0 then (none, d.fclose)
      else (some (filelen / SIZEOF_WORKRECORD), d)

/-- The scan of a put: the slot to write and the records met. -/
def stockPutScan (wantCount : Bool) : ℕ → ℕ → ℕ → ℕ → Disk → Option (ℕ × ℕ) × Disk
  | 0, _, writerec, count, d => (some (writerec, count), d)
  | left + 1, recno, writerec, count, d =>
    let (scratch, d) := d.fread 168
    match scratch with
    | none => (none, d)
    | some scratch =>
      if scratch ≠ blankBody then stockPutScan wantCount left (recno + 1) writerec (count + 1) d
      else if wantCount = false then (some (recno, count), d)
      else stockPutScan wantCount left (recno + 1) recno count d

/-- The scan of a get, with the number of slots that are blank when it ends. -/
def stockGetScan : ℕ → ℕ → ℕ → Disk → (SlotRead × ℕ) × Disk
  | 0, _, blanked, d => ((.blank, blanked), d)
  | left + 1, recno, blanked, d =>
    let (scratch, d) := d.fread 168
    match scratch with
    | none => ((.ioError, blanked), d)
    | some scratch =>
      if scratch = blankBody then stockGetScan left (recno + 1) (blanked + 1) d
      else
        let (ok, d) := d.fseek (recno * SIZEOF_WORKRECORD)
        if ok = false then ((.ioError, blanked), d)
        else
          let (ok, d) := d.fwrite blankBody.val
          if ok = false then ((.ioError, blanked), d)
          else ((.record (stockUnpackRecord scratch), blanked + 1), d)

/-- Count the records of a contest and their stats units; `none` when a read fails. -/
def stockCountScan (contest : U32) : ℕ → Disk → Option (ℕ × ℕ) × Disk
  | 0, d => (some (0, 0), d)
  | left + 1, d =>
    let (scratch, d) := d.fread 168
    match scratch with
    | none => (none, d)
    | some scratch =>
      let (rest, d) := stockCountScan contest left d
      match rest with
      | none => (none, d)
      | some (packetcount, normcount) =>
        if scratch = blankBody then (some (packetcount, normcount), d)
        else
          let r := stockUnpackRecord scratch
          if r.contest = contest then
            (some (packetcount + 1,
              normcount + ((bufferGetRecordInfo r).map BitVec.toNat).getD 0), d)
          else (some (packetcount, normcount), d)

end Hyunjin
