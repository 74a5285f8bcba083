import Hyunjin.Conf.Projects
import Hyunjin.Search.Insertion
import Mathlib.Logic.Function.Basic

/-!
# The order of the projects

The order in which projects are worked on is given by a string: names, each with a value that may
disable the project, with separators between them. `projectmap_build` takes each project at its
first mention and then puts in the projects that are not mentioned, each in front of the first one
that comes later in the default order. `projectmap_expand` writes an order and what is disabled as
such a string.

A word is cut after twelve characters, and whatever follows a word up to the next separator is
replaced by `#`, so that a name followed by anything else is no name.
-/

namespace Hyunjin.Conf

open Memory

/-! ## The builder -/

def HASH : U8 := 35#8

def ZERO : U8 := 48#8

def default_map : List Project := [.RC5, .DES, .OGR, .CSC, .OGR_NG, .OGR_P2, .RC5_72]

/-- `char scratch[2*MAX_PROJECT_NAME_LEN+2]` -/
def SCRATCH : ℕ := 2 * MAX_PROJECT_NAME_LEN + 2

def isalnum (c : U8) : Bool := isalpha c || isdigit c

/-- A character of a word. -/
def isword (c : U8) : Bool := isalpha c || isdigit c || c == DASH || c == UNDERSCORE

/-- An entry ends here. -/
def isend (c : U8) : Bool := c == COMMA || c == SEMICOLON || isspace c

/-- A word goes into `scratch`: the rest of the string, `scratch`, and the length of the word. -/
def readWord : List U8 → List U8 → ℕ → Option (List U8 × List U8 × ℕ)
  | [], scratch, i => some ([], scratch, i)
  | c :: cs, scratch, i =>
    if i < SCRATCH - 2 ∧ isword c then
      (store scratch i (toupper c)).bind fun scratch ↦ readWord cs scratch (i + 1)
    else some (c :: cs, scratch, i)

/-- The value behind a word: whether it begins with a zero, and the rest of the string. -/
def readValue (i : ℕ) (s : List U8) : Bool × List U8 :=
  if i ≠ 0 ∧ ∃ c ∈ s.head?, c = COLON ∨ c = EQUALS then
    let s := s.dropWhile fun c ↦ c == COLON || c == EQUALS || isspace c
    if s.head?.any isdigit then (s.head? == some ZERO, s.dropWhile isdigit) else (false, s)
  else (false, s)

/-- What follows up to the next separator makes the word incompatible to any name. -/
def spoil : List U8 → List U8 → ℕ → Option (List U8 × List U8 × ℕ)
  | [], scratch, i => some ([], scratch, i)
  | c :: cs, scratch, i =>
    if isend c then some (c :: cs, scratch, i)
    else if i ≠ 0 ∧ i < SCRATCH - 1 then
      (store scratch i HASH).bind fun scratch ↦ spoil cs scratch (i + 1)
    else spoil cs scratch i

/-- One entry of the string. -/
structure Entry where
  project : Option Project
  disabled : Bool
  rest : List U8

def readEntry (s scratch : List U8) : Option (Entry × List U8) := do
  let (s, scratch, i) ← readWord (s.dropWhile (!isalnum ·)) scratch 0
  let (disabled, s) := readValue i (s.dropWhile isspace)
  let (s, scratch, i) ← spoil s scratch i
  let scratch ← store scratch i 0#8
  let word ← cstr scratch
  some (⟨if 0 < i then projects.find? (projectGetName · == word) else none, disabled, s⟩, scratch)

/-- The map as it is built, how far it is, and the states. -/
structure Build where
  map : List Project
  mapPos : ℕ
  state : Option (Project → U32)

def PROJECTSTATE_USER_DISABLED : U32 := 1#32

/-- The user's choice goes into the states. -/
def setDisabled (disabled : Bool) (p : Project) (state : Project → U32) : Project → U32 :=
  Function.update state p
    (if disabled then state p ||| PROJECTSTATE_USER_DISABLED
    else state p &&& ~~~PROJECTSTATE_USER_DISABLED)

/-- A project that is not in the map yet is added. -/
def Build.mention (b : Build) (p : Project) (disabled : Bool) : Option Build :=
  if p ∈ b.map.take b.mapPos then some b
  else do
    let map ← store b.map b.mapPos p
    some ⟨map, b.mapPos + 1, b.state.map (setDisabled disabled p)⟩

def parseLoop : ℕ → List U8 → List U8 → Build → Option Build
  | 0, _, _, _ => none
  | fuel + 1, s, scratch, b => do
    let (e, scratch) ← readEntry s scratch
    let b ← e.project.elim (some b) fun p ↦ b.mention p e.disabled
    if b.mapPos < PROJECT_COUNT ∧ e.rest ≠ [] then parseLoop fuel e.rest scratch b else some b

/-- The entries from `inspos` up to `n` are moved by one. -/
def moveUp (inspos : ℕ) : ℕ → List Project → Option (List Project)
  | 0, map => some map
  | n + 1, map =>
    if inspos < n + 1 then do
      let p ← map[n]?
      let map ← store map (n + 1) p
      moveUp inspos n map
    else some map

/-- The project at place `i` of the default order is inserted if it is missing. -/
def Build.insertOmitted (b : Build) (i : ℕ) : Option Build := do
  let p ← default_map[i]?
  if p ∈ b.map.take b.mapPos then some b
  else
    match (b.map.take b.mapPos).findIdx? (· ∈ default_map.drop (i + 1)) with
    | none => do
      let map ← store b.map b.mapPos p
      some { b with map := map, mapPos := b.mapPos + 1 }
    | some inspos => do
      let map ← moveUp inspos (PROJECT_COUNT - 1) b.map
      let map ← store map inspos p
      some { b with map := map, mapPos := b.mapPos + 1 }

def insertLoop : List ℕ → Build → Option Build
  | [], b => some b
  | i :: is, b =>
    if b.mapPos < PROJECT_COUNT then do
      let b ← b.insertOmitted i
      insertLoop is b
    else some b

/-- The map and the states. What is in `map` and `scratch` before does not matter. -/
def projectmapBuild (map : List.Vector Project PROJECT_COUNT) (scratch : List.Vector U8 SCRATCH)
    (state : Option (Project → U32)) (strtomap : List U8) :
    Option (List Project × Option (Project → U32)) :=
  if strtomap = [] then some (default_map, state)
  else do
    let b ← parseLoop (strtomap.length + 1) strtomap scratch.1 ⟨map.1, 0, state⟩
    let b ← insertLoop (List.range PROJECT_COUNT) b
    some (b.map, b.state)

/-! ## The string -/

/-- `static char buffer[(PROJECT_COUNT+1)*(MAX_PROJECT_NAME_LEN+3)]` -/
def EXPANDED : ℕ := (PROJECT_COUNT + 1) * (MAX_PROJECT_NAME_LEN + 3)

/-- The user has disabled the project. -/
def userDisabled (state : Option (Project → U32)) (p : Project) : Bool :=
  state.any fun st ↦ st p &&& PROJECTSTATE_USER_DISABLED != 0#32

def expandLoop (supported : Project → Bool) (state : Option (Project → U32)) :
    List Project → List U8 → Option (List U8)
  | [], buffer => some buffer
  | p :: ps, buffer =>
    if supported p then do
      let t ← cstr buffer
      let buffer ← strcat buffer (if t ≠ [] then [COMMA] else [])
      let buffer ← strcat buffer (projectGetName p)
      let buffer ← strcat buffer (if userDisabled state p then [EQUALS, ZERO] else [])
      expandLoop supported state ps buffer
    else expandLoop supported state ps buffer

/-- The string of an order and the states; `supported` are the projects with a core. -/
def projectmapExpand (supported : Project → Bool) (buffer : List.Vector U8 EXPANDED)
    (map : Option (List Project)) (state : Option (Project → U32)) : Option (List U8) := do
  let buffer ← store buffer.1 0 0#8
  let buffer ← expandLoop supported state (map.getD default_map) buffer
  cstr buffer

end Hyunjin.Conf
