/-
Synod.Store.Opening -- the files of a store

A store is the image of it in its file.  Beside the file there may be others, whose
names go on from its own:

* `-journal`: what a change that was not finished had overwritten;
* `-wal`: a log of changes, and `-shm`: the index of that log;
* `.lock`: a lock, where a file is locked beside it.

They were not written here and hold nothing that could be used, so they are forgotten
when a store is opened.  What cannot be forgotten keeps the store from being opened.
-/
import Synod.FileTree
import Synod.Store.Locator

namespace Synod.Store

set_option autoImplicit false

/-- What changes files until it fails, if it does. -/
abbrev Act (α : Type) := ExceptT Error (StateM FileTree) α

/-! ## Places -/

/-- How long the full path of a place may be on the way to a store. -/
def wayLimit : Nat := 511

/-- How long the full path of a store may be. -/
def placeLimit : Nat := 504

/-- Follows names by their spelling alone: two dots take away the name before them, even
where nothing is there. -/
def spell (t : FileTree) (here : Location) : List FileName → Option Location
  | [] => some here
  | name :: rest =>
    let there := here.enter name
    if there.length ≤ here.length then spell t there rest
    else if there.size ≤ wayLimit ∧ FileName.nameable name = true ∧
        (t.isDirectory here = true ∨ t.entry? here = none) then
      spell t there rest
    else none

/-- The place of a store's file. -/
def place? (t : FileTree) (path : List UInt8) : Option Location :=
  match spell t (t.origin path) (namesOf path) with
  | some here => if here ≠ [] ∧ here.size ≤ placeLimit then some here else none
  | none => none

/-! ## Files beside a store -/

/-- How the names go on of the files that opening a store may change or look at. -/
def suffixes : List String := ["", "-journal", "-wal", "-shm", ".lock"]

/-- Forgets a file. -/
def forget (here : Location) : Act Unit := modify (·.remove here)

/-- Settles the journal.  A new file needs none, and what one says about an older file is
forgotten; it says nothing if it starts with a zero byte. -/
def settleJournal (here : Location) (u : Usage) (bytes : List UInt8) : Act Unit := do
  let t ← get
  let journal := here.beside "-journal"
  match t.entry? journal with
  | none | some (.file []) => return
  | some (.file (first :: _)) =>
    if bytes = [] then
      if u.access ≠ .reading ∨ u.locking ≠ .itself then forget journal
    else if first ≠ 0 then
      if u.access = .reading then throw cannotOpen
      forget journal
  | some _ => if bytes ≠ [] then throw cannotOpen

/-- How long the header of a log is; a shorter log is an empty one. -/
def logHeaderSize : Nat := 32

/-- Settles the log of a file that holds something, with the index of the log. -/
def useLog (here : Location) (u : Usage) (log : List UInt8) : Act Unit := do
  let t ← get
  let drop : Act Unit := if u.access = .reading then return else forget (here.beside "-wal")
  match u.index with
  | .missing => throw cannotOpen
  | .inMemory => drop
  | .beside fixed =>
    match t.entry? (here.beside "-shm"), fixed with
    | some (.file _), false | none, false =>
      forget (here.beside "-shm")
      drop
    | none, true => throw cannotOpen
    | some _, _ => if logHeaderSize ≤ log.length then throw cannotOpen

/-- Settles the log, which a new file does not have. -/
def settleLog (here : Location) (u : Usage) (bytes : List UInt8) : Act Unit := do
  let t ← get
  let log := here.beside "-wal"
  match t.entry? log with
  | none | some (.file []) => return
  | some (.file noted) => if bytes = [] then forget log else useLog here u noted
  | some _ => throw cannotOpen

/-- Makes sure that nothing beside a store's file keeps it from being used.  A lock beside
it looks as if somebody else kept the journal, which is then left alone. -/
def settle (here : Location) (u : Usage) (bytes : List UInt8) : Act Unit := do
  let t ← get
  let locked := (t.entry? (here.beside ".lock")).isSome
  match u.locking with
  | .itself | .nowhere => settleJournal here u bytes
  | .beside => if locked then throw cannotOpen
  | .besideOthers => if locked = false then settleJournal here u bytes
  settleLog here u bytes

/-! ## Opening -/

/-- The bytes held by a store's file, which is made if it may be. -/
def bytesAt (here : Location) (access : Access) : Act (List UInt8) := do
  let t ← get
  match t.entry? here with
  | some (.file bytes) => return held bytes
  | some _ => throw notAStore
  | none =>
    match if access = .creating then t.put? here (.file []) else none with
    | some t => set t; return []
    | none => throw cannotOpen

/-- Puts a new store into its file, for which a journal is kept meanwhile. -/
def found (here : Location) (store : Store) : Act Unit := do
  let t ← get
  let journal := here.beside "-journal"
  if t.isDirectory journal ∨ journal.head?.all FileName.nameable = false then throw cannotOpen
  match (t.remove journal).put? here (.file store.toImage) with
  | some t => set t
  | none => throw cannotOpen

/-- The store in the file at a place. -/
def storeAt (here : Location) (u : Usage) : Act Store := do
  let bytes ← bytesAt here u.access
  if u.frozen = false then settle here u bytes
  let store ← (u.store bytes : Except Error Store)
  if bytes = [] then found here store
  return store

/-- The store of a data directory, which is made if it is missing. -/
def openIn (directory : String) : Act Store := do
  let (t, place) := (← get).makePath (pathOf directory)
  set t
  if place = none then throw (.io "Not a directory")
  match ← (Locator.ofName (fileName directory) : Except Error _) with
  | .memory => return {}
  | .file path u =>
    match place? t path with
    | some here =>
      if u.model.any fun path => !t.leads path then throw cannotOpen
      storeAt here u
    | none => throw cannotOpen

/-- Keeps the store of a data directory. -/
def keepIn (t : FileTree) (directory : String) (store : Store) : FileTree :=
  match Locator.ofName (fileName directory) with
  | .ok (.file path _) => ((place? t path).bind (t.put? · (.file store.toImage))).getD t
  | .ok .memory | .error _ => t

end Synod.Store
