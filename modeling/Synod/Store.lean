/-
Synod.Store -- what a node keeps on disk

A store is two tables of at most one row.  The state table holds the acceptor's
last saved snapshot; saving overwrites it.  The resolution table holds the first
recorded decision; recording again changes nothing.

Rows have columns of a database: a ballot is a signed 64-bit number and an owner,
both absent where there is no ballot.  A round is kept by its bits, so those from
2⁶³ on are stored as negative numbers and read back unchanged.

A broken table is one whose statements fail.  It is still there and keeps its row,
and it stays broken when the directory is opened again: only a missing table is made
anew then, and none is missing, although the error says that there is no such table.
A statement that fails has no effect, so a call on a broken table leaves the store as
it was.
-/
import Synod.Acceptor
import Synod.Error

namespace Synod

set_option autoImplicit false

inductive Table
  | state
  | resolution
deriving DecidableEq, Repr

namespace Store

structure StateRow where
  promisedNumber : Option Int64
  promisedOwner : Option NodeId
  acceptedNumber : Option Int64
  acceptedOwner : Option NodeId
  value : Option Value
deriving DecidableEq, Repr

structure ResolutionRow where
  number : Int64
  owner : NodeId
  value : Value
deriving DecidableEq, Repr

/-- The number column of a ballot. -/
def numberOf (b : Ballot) : Int64 := b.number.toInt64

def joinBallot : Option Int64 → Option NodeId → Option Ballot
  | some number, some owner => some { number := number.toUInt64, owner }
  | _, _ => none

namespace StateRow

def ofSnapshot (s : Snapshot) : StateRow where
  promisedNumber := s.promised.map numberOf
  promisedOwner := s.promised.map Ballot.owner
  acceptedNumber := s.accepted.map numberOf
  acceptedOwner := s.accepted.map Ballot.owner
  value := s.value

def toSnapshot (r : StateRow) : Snapshot where
  promised := joinBallot r.promisedNumber r.promisedOwner
  accepted := joinBallot r.acceptedNumber r.acceptedOwner
  value := r.value

end StateRow

namespace ResolutionRow

def ofDecision (b : Ballot) (v : Value) : ResolutionRow where
  number := numberOf b
  owner := b.owner
  value := v

def toDecision (r : ResolutionRow) : Ballot × Value :=
  ({ number := r.number.toUInt64, owner := r.owner }, r.value)

end ResolutionRow

end Store

structure Store where
  stateRow : Option Store.StateRow := none
  resolutionRow : Option Store.ResolutionRow := none
  brokenTables : List Table := []
deriving DecidableEq, Repr

namespace Store

/-- What a data directory's name stands for. -/
inductive Place
  | directory (store : Store)
  /-- Something that is no directory. -/
  | file

def openAt : Place → Except Error Store
  | .directory s => .ok s
  | .file => .error (.io "not a directory")

def breakTable (s : Store) (t : Table) : Store :=
  { s with brokenTables := t :: s.brokenTables }

def fixTable (s : Store) (t : Table) : Store :=
  { s with brokenTables := s.brokenTables.filter (· ≠ t) }

def fixAll (s : Store) : Store := { s with brokenTables := [] }

/-- Fails where the table is broken. -/
def check (s : Store) (t : Table) : Except Error Unit :=
  if t ∈ s.brokenTables then .error (.storage "no such table") else .ok ()

def save (s : Store) (snapshot : Snapshot) : Except Error Store := do
  s.check .state
  return { s with stateRow := some (.ofSnapshot snapshot) }

def load (s : Store) : Except Error (Option Snapshot) := do
  s.check .state
  return s.stateRow.map StateRow.toSnapshot

def record (s : Store) (b : Ballot) (v : Value) : Except Error Store := do
  s.check .resolution
  return { s with resolutionRow := s.resolutionRow.or (some (.ofDecision b v)) }

def resolution (s : Store) : Except Error (Option (Ballot × Value)) := do
  s.check .resolution
  return s.resolutionRow.map ResolutionRow.toDecision

/-! ## Calls -/

inductive Call
  | save (snapshot : Snapshot)
  | load
  | record (ballot : Ballot) (value : Value)
  | resolution
  /-- Opens the same directory again. -/
  | reopen
  | breakTable (table : Table)
  | fixTable (table : Table)

inductive Answer
  | done
  | snapshot (saved : Option Snapshot)
  | decision (recorded : Option (Ballot × Value))
  | failed (error : Error)
deriving DecidableEq, Repr

/-- A call that fails leaves the store as it was. -/
def answer {α : Type} (s : Store) (f : α → Store × Answer) : Except Error α → Store × Answer
  | .ok x => f x
  | .error e => (s, .failed e)

def step (s : Store) : Call → Store × Answer
  | .save snapshot => s.answer (·, .done) (s.save snapshot)
  | .load => s.answer (fun x => (s, .snapshot x)) s.load
  | .record b v => s.answer (·, .done) (s.record b v)
  | .resolution => s.answer (fun x => (s, .decision x)) s.resolution
  | .reopen => (s, .done)
  | .breakTable t => (s.breakTable t, .done)
  | .fixTable t => (s.fixTable t, .done)

end Store

end Synod
