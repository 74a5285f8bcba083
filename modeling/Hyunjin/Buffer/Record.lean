import Hyunjin.Buffer.Codec
import Hyunjin.Stdio.Disk

/-!
# Work records

A `WorkRecord` is the packed 168-byte struct that the buffers store: the 80-byte work union, the
result code, the worker's id, and five words of provenance. On disk the work union of a known
contest is in network order; the other words are stored as they are in memory. `switchByteOrder`
goes both ways. It also forces the last byte of the id to NUL.

A Moo packet is the ciphered image of such a record. Reading one back assumes contest `RC5_72` and
result code `RESULT_WORKING`, whatever the image says; `mooUnpack_pack` and `mooUnpack_pack_ogr` say
what that makes of the records that were put in.
-/

namespace Hyunjin

open Word Stdio

/-! ## Contests and result codes -/

def OGR_NG : U32 := 4#32

def RC5_72 : U32 := 5#32

def RESULT_WORKING : U32 := 0#32

def RESULT_NOTHING : U32 := 1#32

def RESULT_FOUND : U32 := 2#32

/-! ## The record -/

/-- The work union, as its twenty words. -/
abbrev ContestWork := Words 20

structure WorkRecord where
  work : ContestWork
  resultcode : U32
  id : Bytes 64
  contest : U32
  cpu : U32
  os : U32
  build : U32
  core : U32
  deriving DecidableEq

namespace WorkRecord

/-- The bytes of the struct. -/
def toBytes (r : WorkRecord) : Body :=
  ⟨ofLEWords r.work.val ++ (leBytes r.resultcode ++ (r.id.val ++ (leBytes r.contest ++
    (leBytes r.cpu ++ (leBytes r.os ++ (leBytes r.build ++ leBytes r.core)))))), by
    simp [r.work.property, r.id.property]⟩

/-- The struct at 168 bytes of memory. -/
def ofBytes (b : Body) : WorkRecord where
  work := ⟨leWords (b.val.take 80), by simp [length_leWords, b.property]⟩
  resultcode := leLoad (b.val.drop 80)
  id := ⟨(b.val.drop 84).take 64, by simp [b.property]⟩
  contest := leLoad (b.val.drop 148)
  cpu := leLoad (b.val.drop 152)
  os := leLoad (b.val.drop 156)
  build := leLoad (b.val.drop 160)
  core := leLoad (b.val.drop 164)

/-- Reading a field that follows what comes before it. -/
private theorem leLoad_drop {a r : List U8} {n : ℕ} (h : a.length = n) (x : U32) :
    leLoad ((a ++ (leBytes x ++ r)).drop n) = x := by
  rw [List.drop_left' h, leLoad_leBytes]

theorem ofBytes_toBytes (r : WorkRecord) : ofBytes r.toBytes = r := by
  obtain ⟨⟨work, hwork⟩, resultcode, ⟨id, hid⟩, contest, cpu, os, build, core⟩ := r
  have hw : (ofLEWords work).length = 80 := by simp [hwork]
  simp only [ofBytes, toBytes, WorkRecord.mk.injEq, Subtype.mk.injEq]
  refine ⟨?_, ?_, ?_, ?_, ?_, ?_, ?_, ?_⟩
  · rw [List.take_left' hw, leWords_ofLEWords]
  · rw [leLoad_drop hw]
  · rw [← List.append_assoc, List.drop_left' (by simp [hw]), List.take_left' hid]
  · rw [← List.append_assoc, ← List.append_assoc, leLoad_drop (by simp [hw, hid])]
  · iterate 3 rw [← List.append_assoc]
    rw [leLoad_drop (by simp [hw, hid])]
  · iterate 4 rw [← List.append_assoc]
    rw [leLoad_drop (by simp [hw, hid])]
  · iterate 5 rw [← List.append_assoc]
    rw [leLoad_drop (by simp [hw, hid])]
  · iterate 6 rw [← List.append_assoc]
    rw [← List.append_nil (leBytes core), leLoad_drop (by simp [hw, hid])]

end WorkRecord

/-- An all-zero image marks a slot as blank. -/
def blankBody : Body := Bytes.zero 168

def blankPacket : Packet := Bytes.zero 176

/-! ## Byte order -/

/-- Swap the bytes of both halves of a word. -/
def swapHalves (x : U32) : U32 :=
  ((x &&& 0x00FF00FF#32) <<< 8) ||| ((x &&& 0xFF00FF00#32) >>> 8)

theorem swapHalves_ofLE (a b c d : U8) : swapHalves (ofLE a b c d) = ofLE b a d c := by
  have hlow : 0x00FF00FF#32 = ofLE 0xFF#8 0#8 0xFF#8 0#8 := rfl
  have hhigh : 0xFF00FF00#32 = ofLE 0#8 0xFF#8 0#8 0xFF#8 := rfl
  simp only [swapHalves, hlow, hhigh, ofLE_and, and_ff, BitVec.and_zero, ofLE_shiftLeft_8,
    ofLE_shiftRight_8, ofLE_or, BitVec.zero_or, BitVec.or_zero]

theorem swapHalves_swapHalves (x : U32) : swapHalves (swapHalves x) = x := by
  obtain ⟨a, b, c, d, rfl⟩ := exists_ofLE x
  rw [swapHalves_ofLE, swapHalves_ofLE]

/-- What the byte order of an OGR-NG work union does to word `i`: sixteen words of workstub in
half-words, two of node count, and two of opaque ticket. -/
def swapOgrWord (i : ℕ) (x : U32) : U32 :=
  if i < 16 then swapHalves x else if i < 18 then byteSwap x else x

theorem swapOgrWord_swapOgrWord (i : ℕ) (x : U32) : swapOgrWord i (swapOgrWord i x) = x := by
  simp only [swapOgrWord]
  split_ifs
  · exact swapHalves_swapHalves x
  · exact byteSwap_byteSwap x
  · rfl

def swapOgrWork (work : ContestWork) : ContestWork :=
  ⟨work.val.mapIdx swapOgrWord, List.length_mapIdx.trans work.property⟩

theorem swapOgrWork_swapOgrWork (work : ContestWork) : swapOgrWork (swapOgrWork work) = work := by
  refine Subtype.ext (List.ext_getElem (by simp [swapOgrWork]) fun i hi hi' ↦ ?_)
  simp only [swapOgrWork, List.getElem_mapIdx, swapOgrWord_swapOgrWord]

/-- Force the last byte of an id to NUL. -/
def nulTerminate (id : Bytes 64) : Bytes 64 :=
  ⟨id.val.set 63 0#8, (List.length_set ..).trans id.property⟩

theorem nulTerminate_nulTerminate (id : Bytes 64) :
    nulTerminate (nulTerminate id) = nulTerminate id :=
  Subtype.ext (List.set_set 0#8)

/-- Translate a record from or to network order; a contest that is not handled is marked `0xff`. -/
def switchByteOrder (r : WorkRecord) : WorkRecord :=
  let r := { r with id := nulTerminate r.id }
  if r.contest = RC5_72 then { r with work := r.work.map byteSwap }
  else if r.contest = OGR_NG then { r with work := swapOgrWork r.work }
  else { r with contest := 0xFF#32 }

theorem switchByteOrder_rc5 {r : WorkRecord} (h : r.contest = RC5_72) :
    switchByteOrder r = { r with id := nulTerminate r.id, work := r.work.map byteSwap } := by
  rw [switchByteOrder, if_pos h]

theorem switchByteOrder_ogr {r : WorkRecord} (h : r.contest = OGR_NG) :
    switchByteOrder r = { r with id := nulTerminate r.id, work := swapOgrWork r.work } := by
  have hne : r.contest ≠ RC5_72 := by rw [h]; decide
  rw [switchByteOrder, if_neg hne, if_pos h]

/-- **Switching twice is the identity**, but for the byte that is forced to NUL. -/
theorem switchByteOrder_switchByteOrder {r : WorkRecord}
    (h : r.contest = RC5_72 ∨ r.contest = OGR_NG) :
    switchByteOrder (switchByteOrder r) = { r with id := nulTerminate r.id } := by
  rcases h with h | h
  · rw [switchByteOrder_rc5 h, switchByteOrder_rc5 (by exact h)]
    simp only [nulTerminate_nulTerminate, Words.map_map byteSwap_byteSwap]
  · rw [switchByteOrder_ogr h, switchByteOrder_ogr (by exact h)]
    simp only [nulTerminate_nulTerminate, swapOgrWork_swapOgrWork]

/-! ## Stats units -/

/-- The quotient's low word and the remainder's low word of a 64-bit division; division by zero
returns the numerator. -/
def u64div (numerhi numerlo denomhi denomlo : U32) : U32 × U32 :=
  if denomhi = 0#32 ∧ denomlo = 0#32 then (numerlo, 0#32)
  else
    let n : U64 := (numerhi.setWidth 64 <<< 32) + numerlo.setWidth 64
    let d : U64 := (denomhi.setWidth 64 <<< 32) + denomlo.setWidth 64
    ((n / d).setWidth 32, (n % d).setWidth 32)

/-- The stats units of a packet, or `none` for an unknown result code. -/
def workGetSWUCount (work : ContestWork) (rescode contestid : U32) : Option U32 :=
  if rescode ≠ RESULT_WORKING ∧ rescode ≠ RESULT_FOUND ∧ rescode ≠ RESULT_NOTHING then none
  else if contestid = OGR_NG then
    if rescode ≠ RESULT_WORKING then
      let nodeshi := work.val.getD 16 0#32
      let nodeslo := work.val.getD 17 0#32
      let tcountlo := nodeslo + 5000000#32
      let tcounthi := nodeshi + if tcountlo < nodeslo then 1#32 else 0#32
      let (hi, lo) := u64div tcounthi tcountlo 0#32 1000000000#32
      some (hi * 100#32 + lo / 10000000#32)
    else some 0#32
  else if contestid = RC5_72 then some (100#32 * work.val.getD 11 0#32)
  else some 0#32

def bufferGetRecordInfo (data : WorkRecord) : Option U32 :=
  workGetSWUCount data.work data.resultcode data.contest

/-! ## The Moo image of a record -/

/-- The record a Moo packet holds, in host order, before its result code is overwritten. -/
def mooDecodeRecord (pkt : Packet) : WorkRecord :=
  switchByteOrder { WorkRecord.ofBytes (moo521Decode pkt) with contest := RC5_72 }

/-- The record a Moo packet is read as. -/
def mooUnpackRecord (pkt : Packet) : WorkRecord :=
  { mooDecodeRecord pkt with resultcode := RESULT_WORKING }

/-- The Moo packet a record is written as, under the fixed seed. -/
def mooPackRecord (data : WorkRecord) : Packet :=
  moo521Encode (switchByteOrder data).toBytes (~~~0#32)

theorem contest_mooDecodeRecord (pkt : Packet) : (mooDecodeRecord pkt).contest = RC5_72 := by
  rw [mooDecodeRecord, switchByteOrder_rc5 rfl]

theorem mooDecode_pack {r : WorkRecord} (h : r.contest = RC5_72) :
    mooDecodeRecord (mooPackRecord r) = { r with id := nulTerminate r.id } := by
  have hswitch := switchByteOrder_switchByteOrder (r := r) (Or.inl h)
  have hcontest : { switchByteOrder r with contest := RC5_72 } = switchByteOrder r := by
    rw [switchByteOrder_rc5 h, ← h]
  rw [mooDecodeRecord, mooPackRecord, moo521Decode_encode, WorkRecord.ofBytes_toBytes, hcontest,
    hswitch]

/-- **An RC5-72 record in progress survives the Moo format**, but for the forced NUL. -/
theorem mooUnpack_pack {r : WorkRecord} (h : r.contest = RC5_72) :
    mooUnpackRecord (mooPackRecord r) =
      { r with id := nulTerminate r.id, resultcode := RESULT_WORKING } := by
  rw [mooUnpackRecord, mooDecode_pack h]

/-- An OGR-NG record comes back from the Moo format as an RC5-72 record with garbled work. -/
theorem mooUnpack_pack_ogr {r : WorkRecord} (h : r.contest = OGR_NG) :
    mooUnpackRecord (mooPackRecord r) =
      { r with
        work := (swapOgrWork r.work).map byteSwap
        id := nulTerminate r.id
        contest := RC5_72
        resultcode := RESULT_WORKING } := by
  rw [mooUnpackRecord, mooDecodeRecord, mooPackRecord, moo521Decode_encode,
    WorkRecord.ofBytes_toBytes, switchByteOrder_ogr h, switchByteOrder_rc5 rfl]
  simp only [nulTerminate_nulTerminate]

/-- A packet that was written is not mistaken for a blank one. -/
theorem mooPackRecord_ne_blank (r : WorkRecord) : mooPackRecord r ≠ blankPacket := by
  intro h
  have htrailer : beLoad ((mooPackRecord r).val.drop 172) = ~~~0#32 := trailer_encode ..
  have hblank : beLoad (blankPacket.val.drop 172) = 0#32 := by decide
  rw [h, hblank] at htrailer
  exact absurd htrailer (by decide)

/-! ## The stock image of a record -/

def stockPackRecord (data : WorkRecord) : Body := (switchByteOrder data).toBytes

def stockUnpackRecord (b : Body) : WorkRecord := switchByteOrder (WorkRecord.ofBytes b)

theorem stockUnpack_pack {r : WorkRecord} (h : r.contest = RC5_72 ∨ r.contest = OGR_NG) :
    stockUnpackRecord (stockPackRecord r) = { r with id := nulTerminate r.id } := by
  rw [stockUnpackRecord, stockPackRecord, WorkRecord.ofBytes_toBytes,
    switchByteOrder_switchByteOrder h]

theorem contest_switchByteOrder {r : WorkRecord} (h : r.contest = RC5_72 ∨ r.contest = OGR_NG) :
    (switchByteOrder r).contest = r.contest := by
  rcases h with h | h
  · rw [switchByteOrder_rc5 h]
  · rw [switchByteOrder_ogr h]

theorem stockPackRecord_ne_blank {r : WorkRecord} (h : r.contest = RC5_72 ∨ r.contest = OGR_NG) :
    stockPackRecord r ≠ blankBody := by
  intro hblank
  have hcontest : (WorkRecord.ofBytes blankBody).contest = r.contest := by
    rw [← hblank, stockPackRecord, WorkRecord.ofBytes_toBytes, contest_switchByteOrder h]
  have hzero : (WorkRecord.ofBytes blankBody).contest = 0#32 := by decide
  rw [hzero] at hcontest
  rcases h with h | h <;> rw [h] at hcontest <;> exact absurd hcontest (by decide)

end Hyunjin
