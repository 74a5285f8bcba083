import Hyunjin.Buffer.MooLayout
import Hyunjin.Buffer.StockLayout

/-!
# A Moo buffer from nothing to filled

Once the flag is set, a file without contents counts as a Moo buffer that holds nothing: counting or
getting leaves it without contents, and the first put makes a Moo file of it. `Holds` covers it
together with the well-formed Moo files, so that a run may empty a buffer and fill it again.
-/

namespace Hyunjin

open Word Stdio Slots

/-- The file holds these slots. -/
inductive Holds : Option (List U8) → List Packet → Prop
  | absent : Holds none []
  | empty : Holds (some []) []
  | file (m : MooFile) : Holds (some m.bytes) m.slots

namespace Holds

variable {file : Option (List U8)} {slots : List Packet} (h : Holds file slots)

include h

/-- A file without contents is read as an empty stock file. -/
private theorem cases : (slots = [] ∧ (file = none ∨ file = some []) ∧
    file.getD [] = joined ([] : List Body)) ∨
    ∃ m : MooFile, file = some m.bytes ∧ slots = m.slots := by
  cases h with
  | absent => exact Or.inl ⟨rfl, Or.inl rfl, rfl⟩
  | empty => exact Or.inl ⟨rfl, Or.inr rfl, rfl⟩
  | file m => exact Or.inr ⟨m, rfl, rfl⟩

theorem put (hroom : slots.length < 0xFFFFFF ∨ blankPacket ∈ slots) (data : WorkRecord) :
    let slots' := fill slots (firstBlank blankPacket slots) (mooPackRecord data)
    ∃ file', Holds file' slots' ∧ ∀ (wantCount : Bool) (flags : U32),
      bufferPutFileRecord (healthy file true) data wantCount flags =
        (⟨0, if wantCount then some slots'.length else none⟩, healthy file' true) := by
  rcases h.cases with ⟨rfl, hempty, -⟩ | ⟨m, rfl, rfl⟩
  · refine ⟨_, .file (.single data), fun wantCount flags ↦ ?_⟩
    rw [put_missing hempty, MooFile.bytes_single]
    rfl
  · obtain ⟨m', hslots, hput⟩ := m.put_bytes hroom data
    simp only [← hslots]
    exact ⟨_, .file m', fun wantCount flags ↦ hput true wantCount flags⟩

theorem get_none {flags : U32} (hflags : LocalFlags flags)
    (hfull : firstFull blankPacket slots = none) (wantCount : Bool) :
    bufferGetFileRecord (healthy file true) wantCount flags =
      (⟨1, none, if wantCount then some 0 else none⟩, healthy (some []) true) := by
  rcases h.cases with ⟨rfl, -, hjoined⟩ | ⟨m, rfl, rfl⟩
  · exact get_stock_of_none hjoined rfl hflags rfl true wantCount
  · exact m.get_bytes_of_none hfull true wantCount flags

theorem get_some {i : ℕ} {pkt : Packet} (hfull : firstFull blankPacket slots = some (i, pkt)) :
    ∃ file', Holds file' (slots.set i blankPacket) ∧ ∀ (wantCount : Bool) (flags : U32),
      bufferGetFileRecord (healthy file true) wantCount flags =
        (⟨0, some (mooUnpackRecord pkt),
          if wantCount then some (packetRecords RC5_72 (slots.set i blankPacket)).length
          else none⟩, healthy file' true) := by
  rcases h.cases with ⟨rfl, -, -⟩ | ⟨m, rfl, rfl⟩
  · exact nomatch hfull
  · exact ⟨_, .file (m.setSlot i blankPacket), m.get_bytes_of_some hfull true⟩

/-- A get on a file without contents that asks for a remote buffer fails. -/
theorem get_remote {flags : U32} (hflags : ¬LocalFlags flags)
    (hfull : firstFull blankPacket slots = none) (wantCount : Bool) :
    ∃ rc file', Holds file' [] ∧ bufferGetFileRecord (healthy file true) wantCount flags =
      (⟨rc, none, if wantCount then some 0 else none⟩, healthy file' true) := by
  rcases h.cases with ⟨rfl, hempty, hjoined⟩ | ⟨m, rfl, rfl⟩
  · refine ⟨-1, file, h, ?_⟩
    exact get_stock_remote hjoined rfl hflags true wantCount
  · exact ⟨1, some [], .empty, m.get_bytes_of_none hfull true wantCount flags⟩

theorem count (contest : U32) : ∃ file', Holds file' slots ∧
    bufferCountFileRecords (healthy file true) contest =
      (⟨0, (packetRecords contest slots).length, swuSum (packetRecords contest slots)⟩,
        healthy file' true) := by
  rcases h.cases with ⟨rfl, -, hjoined⟩ | ⟨m, rfl, rfl⟩
  · exact ⟨some [], .empty, count_stock hjoined rfl contest true⟩
  · exact ⟨_, .file m, m.count_bytes contest true⟩

end Holds

end Hyunjin
