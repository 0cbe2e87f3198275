/-
Synod.Effect -- what a role asks of its surroundings

Roles are pure: an operation returns the new state together with the effects it
asks for, in order.  Four of them are for everyone, four answer one node, and
the rest report a decision or a change of leadership.
-/
import Synod.Ballot

namespace Synod

set_option autoImplicit false

inductive Effect
  /-- Ask every acceptor to promise a ballot. -/
  | prepare (ballot : Ballot)
  /-- Answer a prepare with a promise and the vote cast so far. -/
  | promise (recipient : NodeId) (ballot : Ballot) (accepted : Option Ballot) (value : Option Value)
  /-- Ask every acceptor to vote. -/
  | accept (ballot : Ballot) (value : Value)
  /-- Announce a vote; `recipient` is the node that asked for it. -/
  | accepted (recipient : NodeId) (ballot : Ballot) (value : Value)
  /-- Reject a prepare, naming the promise that stands in its way. -/
  | prepareNack (recipient : NodeId) (ballot promised : Ballot)
  /-- Reject a request to vote, naming the promise that stands in its way. -/
  | acceptNack (recipient : NodeId) (ballot promised : Ballot)
  | heartbeat (leader : NodeId) (ballot : Ballot)
  | resolved (ballot : Ballot) (value : Value)
  | leadershipAcquired
  | leadershipLost
  | leaderChanged (old new : Option NodeId)
deriving DecidableEq, Repr

end Synod
