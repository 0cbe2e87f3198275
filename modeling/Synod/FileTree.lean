/-
Synod.FileTree -- files and directories as a value

A path is the names on the way to a place, with slashes between them.  It starts at
the root if it starts with a slash, and at the working directory otherwise.  A dot
stays where it is and two dots go back.

A path is followed name by name, and what is passed on the way has to be a
directory.  Only the last name may lead to where nothing is, and only a directory
that takes new entries lets something be put there.
-/
import Synod.Assignment

namespace Synod

set_option autoImplicit false

/-- What an entry of a directory is called. -/
abbrev FileName := List UInt8

/-- A place in a tree: the names on the way to it from the root, the last one first. -/
abbrev Location := List FileName

/-- A file that is not stored. -/
inductive Device
  /-- Holds nothing, and takes anything without keeping it. -/
  | null
  /-- Takes what is printed. -/
  | output
  /-- Gives these bytes and takes nothing. -/
  | fixed (bytes : List UInt8)
  /-- Gives nothing and takes nothing. -/
  | refusing
deriving DecidableEq, Repr

inductive Entry
  /-- A directory, and whether it takes new entries. -/
  | directory (growing : Bool)
  | file (bytes : List UInt8)
  | device (device : Device)
deriving DecidableEq, Repr

def Entry.isDirectory : Entry → Bool
  | .directory _ => true
  | _ => false

structure FileTree where
  /-- What there is below the root. -/
  entries : List (Location × Entry) := []
  workingDirectory : Location := []

/-! ## Paths -/

def slash : UInt8 := 0x2F

def dot : UInt8 := 0x2E

def pathOf (path : String) : List UInt8 := path.toUTF8.toList

/-- The names that a path is made of; the last is empty if the path ends in a slash. -/
def namesOf (path : List UInt8) : List FileName := path.splitOn slash

/-- A name that stays where it is. -/
def FileName.stays (name : FileName) : Bool := name = [] ∨ name = [dot]

/-- A name that a directory can hold: at most 255 bytes, none of them zero. -/
def FileName.nameable (name : FileName) : Bool := decide (name.length ≤ 255) && name.all (· ≠ 0)

/-- How many bytes a path may have. -/
def pathLimit : Nat := 4095

namespace Location

/-- Where a name leads from a place. -/
def enter (here : Location) (name : FileName) : Location :=
  if FileName.stays name = true then here
  else if name = [dot, dot] then here.tail
  else name :: here

/-- How long the path from the root is. -/
def size : Location → Nat
  | [] => 0
  | name :: rest => name.length + 1 + size rest

/-- The place in the same directory whose name goes on with this. -/
def beside (here : Location) (suffix : String) : Location :=
  match here with
  | [] => []
  | name :: rest => (name ++ pathOf suffix) :: rest

end Location

namespace FileTree

/-! ## Looking -/

def entry? (t : FileTree) : Location → Option Entry
  | [] => some (.directory true)
  | here => t.entries.lookup here

def isDirectory (t : FileTree) (here : Location) : Bool := (t.entry? here).any Entry.isDirectory

/-- Where a path starts. -/
def origin (t : FileTree) (path : List UInt8) : Location :=
  if path.head? = some slash then [] else t.workingDirectory

def follow (t : FileTree) (here : Location) : List FileName → Option Location
  | [] => some here
  | name :: rest =>
    if t.isDirectory here = true ∧ FileName.nameable name = true then
      t.follow (here.enter name) rest
    else none

/-- The place of a path, where something is or could be put. -/
def locate? (t : FileTree) (path : List UInt8) : Option Location :=
  if path = [] ∨ pathLimit < path.length then none
  else t.follow (t.origin path) (namesOf path)

/-- Whether a path leads to something. -/
def leads (t : FileTree) (path : List UInt8) : Bool :=
  ((t.locate? path).bind t.entry?).isSome

/-- The bytes of a file, if there is one to read. -/
def contents? (t : FileTree) (path : List UInt8) : Option (List UInt8) :=
  match (t.locate? path).bind t.entry? with
  | some (.file bytes) | some (.device (.fixed bytes)) => some bytes
  | some (.device .null) => some []
  | _ => none

/-! ## Changing -/

/-- Puts an entry where a directory takes it, in place of what was there. -/
def put? (t : FileTree) (here : Location) (e : Entry) : Option FileTree :=
  if (t.entry? here).isSome = true ∨ t.entry? here.tail = some (.directory true) then
    some { t with entries := assign t.entries here e }
  else none

/-- Removes a file. -/
def remove (t : FileTree) (here : Location) : FileTree :=
  match t.entry? here with
  | some (.file _) => { t with entries := t.entries.filter fun e => e.1 ≠ here }
  | _ => t

/-- Follows names and makes the directories that are missing, as far as that is possible.
A dot at the end makes no directory: it stands for what is in one. -/
def makeDirectories (t : FileTree) (here : Location) :
    List FileName → FileTree × Option Location
  | [] => (t, some here)
  | name :: rest =>
    let there := here.enter name
    if FileName.nameable name = false then (t, none)
    else
      match t.entry? there with
      | some e => if e.isDirectory then t.makeDirectories there rest else (t, none)
      | none =>
        if rest.all FileName.stays = true ∧ [dot] ∈ rest then (t, none)
        else
          match t.put? there (.directory true) with
          | some t => t.makeDirectories there rest
          | none => (t, none)

/-- Makes the directories on a path; an empty path names none. -/
def makePath (t : FileTree) (path : List UInt8) : FileTree × Option Location :=
  if path = [] then (t, some t.workingDirectory)
  else if pathLimit < path.length ∨ 0 ∈ path then (t, none)
  else t.makeDirectories (t.origin path) (namesOf path)

/-- Puts an entry at a path, and makes the directories before it. -/
def provide (t : FileTree) (path : List UInt8) (e : Entry) : FileTree :=
  let names := namesOf path
  match t.makeDirectories (t.origin path) names.dropLast with
  | (t, some here) => (t.put? (here.enter (names.getLastD [])) e).getD t
  | (t, none) => t

end FileTree

end Synod
