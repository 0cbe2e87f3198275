/-
Synod.Learner -- counting votes

A learner counts, for each ballot, the acceptors that voted for it, and resolves
once a quorum did.  An acceptor's vote only moves forward.  A ballot that is no
acceptor's latest vote any more is forgotten, and once the learner has resolved
it forgets all counts and never resolves again.
-/
import Synod.Assignment
import Synod.Effect

namespace Synod

set_option autoImplicit false

/-- The count for one ballot. -/
structure Tally where
  /-- Acceptors that ever voted for the ballot. -/
  cast : Nat
  /-- Acceptors whose latest vote is for the ballot. -/
  retained : Nat
  value : Value
deriving DecidableEq, Repr

structure Learner where
  quorum : Nat
  /-- One tally for each ballot that is some acceptor's latest vote. -/
  tallies : List (Ballot × Tally) := []
  /-- Each acceptor's latest vote. -/
  votes : List (NodeId × Ballot) := []
  resolution : Option (Ballot × Value) := none
  active : Bool := true
deriving DecidableEq, Repr

namespace Learner

def start (quorum : Nat) : Learner where
  quorum := quorum

def complete (l : Learner) : Bool := l.resolution.isSome

def finalBallot (l : Learner) : Option Ballot := l.resolution.map Prod.fst

def finalValue (l : Learner) : Option Value := l.resolution.map Prod.snd

def tracked (l : Learner) : Nat := l.tallies.length

def setActive (l : Learner) (on : Bool) : Learner := { l with active := on }

/-- The latest vote of some acceptor moved away from ballot `b`. -/
def withdraw (tallies : List (Ballot × Tally)) (b : Ballot) : List (Ballot × Tally) :=
  tallies.filterMap fun (c, t) =>
    if c = b then
      if t.retained ≤ 1 then none else some (c, { t with retained := t.retained - 1 })
    else some (c, t)

/-- The count for ballot `b` with one more vote; the first vote names the value. -/
def counted (tallies : List (Ballot × Tally)) (b : Ballot) (v : Value) : Tally :=
  match tallies.lookup b with
  | some t => { t with cast := t.cast + 1, retained := t.retained + 1 }
  | none => { cast := 1, retained := 1, value := v }

/-- The tallies without the latest vote of `source`. -/
def released (l : Learner) (source : NodeId) : List (Ballot × Tally) :=
  match l.votes.lookup source with
  | some b => withdraw l.tallies b
  | none => l.tallies

/-- Counts a vote, if it is valid and moves its acceptor forward. -/
def receiveAccepted (l : Learner) (source : NodeId) (b : Ballot) (v : Value) :
    Learner × List Effect :=
  if l.complete = true ∨ ¬ b.Valid ∨ ¬ Ballot.Exceeds (some b) (l.votes.lookup source) then
    (l, [])
  else
    let t := counted (l.released source) b v
    if l.quorum ≤ t.cast then
      ({ l with tallies := [], votes := [], resolution := some (b, t.value) },
        [.resolved b t.value])
    else
      ({ l with
          tallies := assign (l.released source) b t
          votes := assign l.votes source b }, [])

/-! ## Inputs -/

inductive Input
  | accepted (source : NodeId) (ballot : Ballot) (value : Value)
  | setActive (on : Bool)
deriving DecidableEq, Repr

def step (l : Learner) : Input → Learner × List Effect
  | .accepted source b v => l.receiveAccepted source b v
  | .setActive on => (l.setActive on, [])

end Learner

end Synod
