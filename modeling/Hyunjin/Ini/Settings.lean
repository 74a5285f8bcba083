import Hyunjin.Ini.Sections

/-!
# The settings of a client

The client keeps its settings in one file: it writes values, deletes them, and deletes sections,
beginning without a file. Any call may fail to get its block. However they come, a read gives what
the calls that got their blocks have left: the last value that was written to the key of the section
and not deleted, as far as the buffer takes it, or the default.
-/

namespace Hyunjin.Ini

open Memory Search

/-! ## Calls -/

/-- The values of the keys of the sections. -/
abbrev Settings : Type := List U8 → List U8 → Option (List U8)

/-- What is asked for. A section may be deleted with any value. -/
inductive Request
  | put (s : SectName) (k : KeyName) (v : Setting)
  | erase (s : SectName) (k : KeyName)
  | drop (s : SectName) (value : Option CString)

def Request.sect : Request → SectName
  | put s _ _ => s
  | erase s _ => s
  | drop s _ => s

def Request.key : Request → Option CString
  | put _ k _ => some k.cstring
  | erase _ k => some k.cstring
  | drop _ _ => none

def Request.value : Request → Option CString
  | put _ _ v => some v.cstring
  | erase _ _ => none
  | drop _ value => value

/-- **What a request is for.** -/
def Request.carryOut : Request → Settings → Settings
  | put s k v, get => updated get (folded s.text) (folded k.text) (some v.text)
  | erase s k, get => updated get (folded s.text) (folded k.text) none
  | drop s _, get => fun s' k' ↦ if s' = folded s.text then none else get s' k'

/-- A request, with what `malloc` does for it. -/
structure Call where
  request : Request
  malloc : ℕ → Bool

/-- The call, on a file. -/
def Call.write (c : Call) (file : Option (List U8)) : Option (ℕ × Option (List U8)) :=
  writeString c.malloc file (some c.request.sect.cstring) c.request.key c.request.value

/-- The call gets its block. -/
def Call.served (c : Call) (file : Option (List U8)) : Bool :=
  allocates c.malloc ((file.getD []).length + 16
    + entryLen (some c.request.sect.cstring) c.request.key c.request.value)

/-- The file after some calls, and the settings that it should hold. -/
def afterCalls : List Call → Option (List U8) → Settings → Option (Option (List U8) × Settings)
  | [], file, get => some (file, get)
  | c :: cs, file, get => do
    let (_, file') ← c.write file
    afterCalls cs file' (if c.served file then c.request.carryOut get else get)

/-! ## One call -/

/-- The file holds the settings. -/
def Stored (file : Option (List U8)) (get : Settings) : Prop :=
  ∃ (f : Inifile) (ws : List PlainLine), ws.map PlainLine.item = itemsOf f.sects
    ∧ (file = some (fileText ws) ∨ file = none ∧ ws = []) ∧ get = getSetting f.sects

theorem stored_none : Stored none fun _ _ ↦ none :=
  ⟨⟨[], List.nodup_nil⟩, [], rfl, .inr ⟨rfl, rfl⟩, rfl⟩

section Step

variable {file : Option (List U8)} {get : Settings}

/-- Without a file there are no settings. -/
theorem Stored.get_none (h : Stored none get) : get = fun _ _ ↦ none := by
  obtain ⟨f, ws, hws, hfile | ⟨-, rfl⟩, rfl⟩ := h
  · exact absurd hfile.symm (Option.some_ne_none _)
  · cases hsects : f.sects with
    | nil => rfl
    | cons t sects =>
      rw [hsects, itemsOf_cons] at hws
      exact absurd hws.symm (List.cons_ne_nil _ _)

theorem Stored.read (h : Stored file get) (malloc : ℕ → Bool) (s : SectName) (k : KeyName)
    (defval : Option CString) (bufflen : ℕ) :
    readString malloc file (some s.cstring) k.cstring defval bufflen
      = some (if 2 ≤ bufflen ∧ allocates malloc ((file.getD []).length + 16) then
          ((get (folded s.text) (folded k.text)).map (·.take (bufflen - 1))).getD
            (copyDefault defval bufflen)
        else copyDefault defval bufflen) := by
  cases file with
  | none =>
    rw [h.get_none, Option.map_none, Option.getD_none]
    split_ifs <;> rfl
  | some content =>
    obtain ⟨f, ws, hws, hfile | ⟨hfile, -⟩, rfl⟩ := h
    · rw [Option.some.inj hfile, readString_eq, bodiesOf_fileText, hws]
      have hlookup := lookup_itemsOf s k f.sects
      rw [← hlookup]
      rfl
    · exact absurd hfile (Option.some_ne_none content)

/-- The block is as long as the file and the entry, and a little more. -/
theorem write_eq (c : Call) (hfile : file ≠ none ∨ c.request.key ≠ none ∧ c.request.value ≠ none) :
    c.write file = if c.served file then
        editBlock (file.getD [] ++ List.replicate (16
          + entryLen (some c.request.sect.cstring) c.request.key c.request.value) LF)
          (file.getD []).length file (some c.request.sect.cstring) c.request.key c.request.value
      else some (0, file) := by
  have hnot : ¬ (file = none ∧ (some c.request.sect.cstring = none ∨ c.request.key = none
      ∨ c.request.value = none)) := by
    rintro ⟨hnone, hsect | hkey | hvalue⟩
    · exact absurd hsect (Option.some_ne_none _)
    · exact hfile.elim (fun h ↦ h hnone) fun h ↦ h.1 hkey
    · exact hfile.elim (fun h ↦ h hnone) fun h ↦ h.2 hvalue
  rw [Call.write, writeString, if_neg fun h ↦ absurd h.1 (Option.some_ne_none _), if_neg hnot]
  dsimp only
  rw [Call.served, Nat.add_assoc, Nat.add_sub_cancel_left]

theorem holdsAt_block (n : ℕ) : HoldsAt (List.replicate (16 + n) LF) 0 [LF] := by
  rw [Nat.add_comm]
  exact holdsAt_replicate (n + 15)

theorem Stored.put (h : Stored file get) (malloc : ℕ → Bool) (s : SectName) (k : KeyName)
    (v : Setting) :
    ∃ file', Call.write ⟨.put s k v, malloc⟩ file
        = some (if Call.served ⟨.put s k v, malloc⟩ file then 1 else 0, file')
      ∧ Stored file' (if Call.served ⟨.put s k v, malloc⟩ file then
          (Request.put s k v).carryOut get else get) := by
  rw [write_eq ⟨.put s k v, malloc⟩ (.inr ⟨Option.some_ne_none _, Option.some_ne_none _⟩)]
  split_ifs with hserved
  · obtain ⟨f, ws, hws, hfile, rfl⟩ := h
    have htext : file.getD [] = fileText ws := by
      rcases hfile with rfl | ⟨rfl, rfl⟩ <;> rfl
    obtain ⟨f', ws', hws', hedit, hget⟩ := put_setting f hws s k v file
      (holdsAt_block (entryLen (some s.cstring) (some k.cstring) (some v.cstring))) (by
        rw [List.length_replicate]
        simp only [entryLen, Option.map_some, Option.getD_some, SectName.val_cstring,
          KeyName.val_cstring, Setting.val_cstring]
        omega)
    refine ⟨some (fileText ws'), ?_, f', ws', hws', .inl rfl, hget.symm⟩
    rw [htext]
    exact hedit
  · exact ⟨file, rfl, h⟩

/-- A request that deletes, on a file. -/
theorem Stored.delete (h : Stored file get) (c : Call)
    (hdelete : c.request.key = none ∨ c.request.value = none)
    (hnothing : (c.request.carryOut fun _ _ ↦ none) = fun _ _ ↦ none)
    (hedit : ∀ (f : Inifile) (ws : List PlainLine), ws.map PlainLine.item = itemsOf f.sects →
      ∃ (success : ℕ) (f' : Inifile) (ws' : List PlainLine),
        ws'.map PlainLine.item = itemsOf f'.sects
        ∧ editBlock (fileText ws ++ List.replicate (16 + 0) LF) (fileText ws).length
          (some (fileText ws)) (some c.request.sect.cstring) c.request.key c.request.value
          = some (success, some (fileText ws'))
        ∧ getSetting f'.sects = c.request.carryOut (getSetting f.sects)) :
    ∃ success file', c.write file = some (success, file')
      ∧ Stored file' (if c.served file then c.request.carryOut get else get) := by
  cases file with
  | none =>
    have hwrite : c.write none = some (1, none) := by
      rw [Call.write, writeString, if_neg fun h ↦ absurd h.1 (Option.some_ne_none _),
        if_pos ⟨rfl, .inr hdelete⟩]
    refine ⟨1, none, hwrite, ?_⟩
    rw [h.get_none, hnothing, ite_self]
    exact stored_none
  | some content =>
    rw [write_eq c (.inl (Option.some_ne_none _))]
    split_ifs with hserved
    · obtain ⟨f, ws, hws, hfile | ⟨hfile, -⟩, rfl⟩ := h
      · obtain ⟨success, f', ws', hws', hedit, hget⟩ := hedit f ws hws
        have hlen : entryLen (some c.request.sect.cstring) c.request.key c.request.value = 0 := by
          rcases hdelete with hkey | hvalue
          · rw [hkey]
            rfl
          · rw [hvalue]
            cases c.request.key <;> rfl
        refine ⟨success, some (fileText ws'), ?_, f', ws', hws', .inl rfl, hget.symm⟩
        rw [hlen, hfile]
        exact hedit
      · exact absurd hfile (Option.some_ne_none content)
    · exact ⟨0, some content, rfl, h⟩

/-- **A call leaves the settings** that it should, and never leaves its block. -/
theorem Stored.write (h : Stored file get) (c : Call) :
    ∃ success file', c.write file = some (success, file')
      ∧ Stored file' (if c.served file then c.request.carryOut get else get) := by
  obtain ⟨request, malloc⟩ := c
  have hroom : 2 < (List.replicate (16 + 0) LF).length := by
    rw [List.length_replicate]
    decide
  cases request with
  | put s k v =>
    obtain ⟨file', hwrite, hstored⟩ := h.put malloc s k v
    exact ⟨_, file', hwrite, hstored⟩
  | erase s k =>
    refine h.delete _ (.inr rfl) ?_ fun f ws hws ↦
      erase_setting f hws s k (holdsAt_block 0) hroom
    funext i j
    exact ite_self _
  | drop s value =>
    refine h.delete _ (.inl rfl) ?_ fun f ws hws ↦ ?_
    · funext i j
      exact ite_self _
    · obtain ⟨success, f', ws', hws', hedit, hget⟩ := drop_settings f hws s value (holdsAt_block 0)
        hroom
      exact ⟨success, f', ws', hws', hedit, funext₂ hget⟩

end Step

/-! ## Many calls -/

theorem Stored.afterCalls {file : Option (List U8)} {get : Settings} (h : Stored file get)
    (calls : List Call) :
    ∃ file' get', Ini.afterCalls calls file get = some (file', get') ∧ Stored file' get' := by
  induction calls generalizing file get with
  | nil => exact ⟨file, get, rfl, h⟩
  | cons c calls ih =>
    obtain ⟨success, file', hwrite, hstored⟩ := h.write c
    obtain ⟨file'', get'', hrun, hstored'⟩ := ih hstored
    refine ⟨file'', get'', ?_, hstored'⟩
    rw [Ini.afterCalls, hwrite]
    exact hrun

/-- **The settings are kept.** -/
theorem reads_settings (calls : List Call) :
    ∃ file get, afterCalls calls none (fun _ _ ↦ none) = some (file, get)
      ∧ (∀ (malloc : ℕ → Bool) (s : SectName) (k : KeyName) (v : Setting),
        ∃ file', Call.write ⟨.put s k v, malloc⟩ file
          = some (if Call.served ⟨.put s k v, malloc⟩ file then 1 else 0, file'))
      ∧ ∀ (malloc : ℕ → Bool) (s : SectName) (k : KeyName) (defval : Option CString)
        (bufflen : ℕ), readString malloc file (some s.cstring) k.cstring defval bufflen
          = some (if 2 ≤ bufflen ∧ allocates malloc ((file.getD []).length + 16) then
              ((get (folded s.text) (folded k.text)).map (·.take (bufflen - 1))).getD
                (copyDefault defval bufflen)
            else copyDefault defval bufflen) := by
  obtain ⟨file, get, hrun, hstored⟩ := stored_none.afterCalls calls
  refine ⟨file, get, hrun, fun malloc s k v ↦ ?_, hstored.read⟩
  obtain ⟨file', hwrite, -⟩ := hstored.put malloc s k v
  exact ⟨file', hwrite⟩

/-- `[a]` -/
def sectA : SectName := ⟨[97#8], by decide, by decide, by decide, by decide⟩

/-- `k_1` -/
def keyK : KeyName :=
  ⟨[107#8, 95#8, 49#8], by decide, by decide, by decide, by decide, by decide⟩

/-- `K-1`, which is the same key. -/
def keyDash : KeyName :=
  ⟨[75#8, 45#8, 49#8], by decide, by decide, by decide, by decide, by decide⟩

def settingV : Setting := ⟨[118#8, 32#8], by decide, by decide, by decide⟩

/-- A value is read back from under the other spelling of its key. -/
theorem reads_settings_dash : ∃ file get,
    afterCalls [⟨.put sectA keyK settingV, fun _ ↦ true⟩] none (fun _ _ ↦ none) = some (file, get) ∧
      readString (fun _ ↦ true) file (some sectA.cstring) keyDash.cstring none 64
        = some settingV.text := by
  obtain ⟨file, get, hrun, -, hread⟩ :=
    reads_settings [⟨.put sectA keyK settingV, fun _ ↦ true⟩]
  have hleft : (afterCalls [⟨.put sectA keyK settingV, fun _ ↦ true⟩] none fun _ _ ↦ none).map
      (fun r ↦ ((r.1.getD []).length, r.2 (folded sectA.text) (folded keyDash.text)))
      = some (13, some settingV.text) := by decide +kernel
  rw [hrun, Option.map_some, Option.some_inj, Prod.mk.injEq] at hleft
  refine ⟨file, get, hrun, ?_⟩
  obtain ⟨hlen, hget⟩ := hleft
  dsimp only at hlen hget
  rw [hread, hlen, hget, if_pos (by decide)]
  rfl

end Hyunjin.Ini
