/-
Synod.Proposer -- rounds, and the right to lead one

A proposer starts rounds and collects promises for its current ballot.  A quorum
of promises makes it the leader of that ballot, after which it asks for votes.
The value it proposes is the one that came with the highest vote reported to it,
or its own if none was reported.

While it leads, its ballot stays fixed.  Otherwise it follows the rounds it hears
of, so that the next one outbids them; what it hears is capped one below the last
round, so one more round is always left to start.
-/
import Synod.Effect

namespace Synod

set_option autoImplicit false

structure Proposer where
  ballot : Ballot
  quorum : Nat
  proposal : Option Value := none
  /-- The highest vote any promise reported. -/
  highestVote : Option Ballot := none
  /-- Who promised the current ballot. -/
  promises : List NodeId := []
  leader : Bool := false
  active : Bool := true
deriving DecidableEq, Repr

namespace Proposer

def start (id : NodeId) (quorum : Nat) : Proposer where
  ballot := { number := 0, owner := id }
  quorum := quorum

def id (p : Proposer) : NodeId := p.ballot.owner

def setLeader (p : Proposer) (leading : Bool) : Proposer := { p with leader := leading }

def setActive (p : Proposer) (on : Bool) : Proposer := { p with active := on }

/-- The request for votes, if there is a value to vote for. -/
def acceptRequest (p : Proposer) : List Effect :=
  match p.active, p.proposal with
  | true, some v => [.accept p.ballot v]
  | _, _ => []

/-- Asks for promises, of the next ballot if a fresh round is wanted. -/
def prepare (p : Proposer) (fresh : Bool) : Proposer × List Effect :=
  let p := if fresh then { p with ballot := p.ballot.next, promises := [], leader := false } else p
  (p, if p.active then [.prepare p.ballot] else [])

/-- Sets the value to propose; the first one stays. -/
def propose (p : Proposer) (v : Value) : Proposer × List Effect :=
  if p.proposal = none then
    let p := { p with proposal := some v }
    (p, if p.leader then p.acceptRequest else [])
  else (p, [])

/-- Follows a round somebody else has started. -/
def observe (p : Proposer) (b : Ballot) : Proposer :=
  if p.leader then p
  else
    let number := min b.number (Ballot.lastRound - 1)
    if p.ballot.number < number then { p with ballot := { p.ballot with number } } else p

/-- Takes over the vote a promise reports, if it is the highest so far. -/
def adopt (p : Proposer) (accepted : Option Ballot) (value : Option Value) : Proposer :=
  if Ballot.Exceeds accepted p.highestVote then
    { p with highestVote := accepted, proposal := value.or p.proposal }
  else p

def receivePromise (p : Proposer) (source : NodeId) (b : Ballot) (accepted : Option Ballot)
    (value : Option Value) : Proposer × List Effect :=
  let p := p.observe b
  if p.leader = true ∨ b ≠ p.ballot ∨ source ∈ p.promises then (p, [])
  else
    let p := { p with promises := p.promises ++ [source] }.adopt accepted value
    if p.quorum ≤ p.promises.length then
      (p.setLeader true, .leadershipAcquired :: p.acceptRequest)
    else (p, [])

/-- Asks for votes again. -/
def resend (p : Proposer) : List Effect :=
  if p.leader then p.acceptRequest else []

/-! ## Inputs -/

inductive Input
  | prepare (fresh : Bool)
  | propose (value : Value)
  | promise (source : NodeId) (ballot : Ballot) (accepted : Option Ballot) (value : Option Value)
  | observe (ballot : Ballot)
  | prepareNack (source : NodeId) (ballot promised : Ballot)
  | acceptNack (source : NodeId) (ballot promised : Ballot)
  | resend
  | setLeader (leading : Bool)
  | setActive (on : Bool)
deriving DecidableEq, Repr

def step (p : Proposer) : Input → Proposer × List Effect
  | .prepare fresh => p.prepare fresh
  | .propose v => p.propose v
  | .promise source b accepted value => p.receivePromise source b accepted value
  | .observe b => (p.observe b, [])
  | .prepareNack _ _ promised => (p.observe promised, [])
  | .acceptNack _ _ promised => (p.observe promised, [])
  | .resend => (p, p.resend)
  | .setLeader leading => (p.setLeader leading, [])
  | .setActive on => (p.setActive on, [])

end Proposer

end Synod
