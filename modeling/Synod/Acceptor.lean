/-
Synod.Acceptor -- promises and votes

An acceptor promises ballots and votes for values.  Its `Snapshot` is what must
survive a restart.  A reply that commits the acceptor to a new promise or vote
is held back, in `pendingPromise` or `pendingVote`, until the snapshot is known
to be durable (`persisted`); while one of them is held, no further request of
that kind changes the snapshot.  A reply that only repeats what is already
durable goes out at once.

An inactive acceptor keeps its state up to date and sends nothing.
-/
import Synod.Effect

namespace Synod

set_option autoImplicit false

/-- The part of an acceptor that must survive a restart. -/
structure Snapshot where
  promised : Option Ballot := none
  accepted : Option Ballot := none
  value : Option Value := none
deriving DecidableEq, Repr

/-- Instants and durations are whole milliseconds. -/
structure Acceptor extends Snapshot where
  /-- Who waits for a promise that is not durable yet. -/
  pendingPromise : Option NodeId := none
  /-- Who waits for a vote that is not durable yet. -/
  pendingVote : Option NodeId := none
  lastPrepare : Nat
  window : Nat
  active : Bool := true
deriving DecidableEq, Repr

namespace Acceptor

def start (now window : Nat) : Acceptor where
  lastPrepare := now
  window := window

def snapshot (a : Acceptor) : Snapshot := a.toSnapshot

/-- Restores durable state, before any traffic is handled. -/
def recover (a : Acceptor) (s : Snapshot) : Acceptor := { a with toSnapshot := s }

def setActive (a : Acceptor) (on : Bool) : Acceptor := { a with active := on }

/-- Whether a held reply waits for durable storage. -/
def persistenceRequired (a : Acceptor) : Bool :=
  a.pendingPromise.isSome || a.pendingVote.isSome

/-- Whether no prepare was seen for longer than the window. -/
def prepareExpired (a : Acceptor) (now : Nat) : Bool :=
  decide (a.window < now - a.lastPrepare)

/-! ## Promises -/

/-- Raises the promise and holds its reply, unless a promise is held already. -/
def takePromise (a : Acceptor) (source : NodeId) (b : Ballot) : Acceptor :=
  if a.pendingPromise = none then
    { a with promised := some b, pendingPromise := if a.active then some source else none }
  else a

def receivePrepare (a : Acceptor) (now : Nat) (source : NodeId) (b : Ballot) :
    Acceptor × List Effect :=
  if b.Valid then
    let a := { a with lastPrepare := now }
    match a.promised with
    | none => (a.takePromise source b, [])
    | some p =>
      if b = p then
        (a, if a.active = true ∧ a.pendingPromise = none
            then [.promise source b a.accepted a.value] else [])
      else if b < p then
        (a, if a.active then [.prepareNack source b p] else [])
      else (a.takePromise source b, [])
  else (a, [])

/-! ## Votes -/

/-- Votes, promising the ballot on the way, and holds the reply, unless a vote is
held already. -/
def castVote (a : Acceptor) (source : NodeId) (b : Ballot) (v : Value) : Acceptor :=
  if a.pendingVote = none then
    { a with
      promised := some b
      accepted := some b
      value := some v
      pendingVote := if a.active then some source else none }
  else a

def receiveAccept (a : Acceptor) (source : NodeId) (b : Ballot) (v : Value) :
    Acceptor × List Effect :=
  if b.Valid then
    if a.accepted = some b ∧ a.value = some v then
      (a, if a.active = true ∧ a.pendingVote = none then [.accepted source b v] else [])
    else
      match a.promised with
      | none => (a.castVote source b v, [])
      | some p =>
        if b < p then (a, if a.active then [.acceptNack source b p] else [])
        else (a.castVote source b v, [])
  else (a, [])

/-! ## Durability -/

def heldPromise (a : Acceptor) : List Effect :=
  match a.pendingPromise, a.promised with
  | some source, some b => [.promise source b a.accepted a.value]
  | _, _ => []

def heldVote (a : Acceptor) : List Effect :=
  match a.pendingVote, a.accepted, a.value with
  | some source, some b, some v => [.accepted source b v]
  | _, _, _ => []

/-- The snapshot is durable: lets the held replies go, the promise first. -/
def persisted (a : Acceptor) : Acceptor × List Effect :=
  ({ a with pendingPromise := none, pendingVote := none },
    if a.active then a.heldPromise ++ a.heldVote else [])

/-! ## Inputs -/

inductive Input
  | prepare (source : NodeId) (ballot : Ballot)
  | accept (source : NodeId) (ballot : Ballot) (value : Value)
  | persisted
  | recover (snapshot : Snapshot)
  | setActive (on : Bool)
deriving DecidableEq, Repr

def step (a : Acceptor) (now : Nat) : Input → Acceptor × List Effect
  | .prepare source b => a.receivePrepare now source b
  | .accept source b v => a.receiveAccept source b v
  | .persisted => a.persisted
  | .recover s => (a.recover s, [])
  | .setActive on => (a.setActive on, [])

end Acceptor

end Synod
