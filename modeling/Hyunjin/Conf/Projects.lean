import Hyunjin.Conf.Timestring
import Mathlib.Data.List.Nodup
import Mathlib.Data.List.Perm.Subperm

/-!
# Projects and their names

The projects are numbered in the order of their declaration. A name begins with a letter and goes on
with letters, digits and hyphens; all letters are capitals, so that a word of a configuration string
is compared with it after `toupper`.
-/

namespace Hyunjin.Conf

open Memory

inductive Project
  | RC5 | DES | OGR | CSC | OGR_NG | RC5_72 | OGR_P2
  deriving DecidableEq, Repr

def PROJECT_COUNT : ℕ := 7

def MAX_PROJECT_NAME_LEN : ℕ := 6

/-- The projects by their numbers. -/
def projects : List Project := [.RC5, .DES, .OGR, .CSC, .OGR_NG, .RC5_72, .OGR_P2]

/-- `ProjectGetName`, and `CliGetContestNameFromID` as well. -/
def projectGetName : Project → List U8
  | .RC5 => [82#8, 67#8, 53#8]
  | .DES => [68#8, 69#8, 83#8]
  | .OGR => [79#8, 71#8, 82#8]
  | .CSC => [67#8, 83#8, 67#8]
  | .OGR_NG => [79#8, 71#8, 82#8, 45#8, 78#8, 71#8]
  | .RC5_72 => [82#8, 67#8, 53#8, 45#8, 55#8, 50#8]
  | .OGR_P2 => [79#8, 71#8, 82#8, 45#8, 80#8, 50#8]

def DASH : U8 := 45#8

def UNDERSCORE : U8 := 95#8

def SEMICOLON : U8 := 59#8

def EQUALS : U8 := 61#8

def isupper (c : U8) : Bool := (65#8).ule c && c.ule 90#8

def islower (c : U8) : Bool := (97#8).ule c && c.ule 122#8

/-- `isalpha` of the C locale. -/
def isalpha (c : U8) : Bool := isupper c || islower c

def toupper (c : U8) : U8 := if islower c then c - 32#8 else c

theorem mem_projects (p : Project) : p ∈ projects := by cases p <;> decide

theorem nodup_projects : projects.Nodup := by decide

theorem length_projects : projects.length = PROJECT_COUNT := rfl

/-- A list without repetitions has no more elements than there are projects. -/
theorem length_le_of_nodup {ps : List Project} (h : ps.Nodup) : ps.length ≤ PROJECT_COUNT :=
  (List.subperm_of_subset h fun p _ ↦ mem_projects p).length_le

/-- The projects in some order. -/
abbrev Order : Type := {ps : List Project // ps.Perm projects}

theorem projectGetName_ne_nil (p : Project) : projectGetName p ≠ [] := by cases p <;> decide

theorem length_projectGetName_le (p : Project) :
    (projectGetName p).length ≤ MAX_PROJECT_NAME_LEN := by cases p <;> decide

end Hyunjin.Conf
