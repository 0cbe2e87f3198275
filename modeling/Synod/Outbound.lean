/-
Synod.Outbound -- effects as traffic

What a node asks for becomes messages for everyone, messages for one node, and
decisions.  A vote goes to every learner, not only to the node that asked for it.
A change of leadership is no traffic.
-/
import Synod.Effect
import Synod.Message

namespace Synod

set_option autoImplicit false

inductive Outbound
  /-- For every member, the sender included. -/
  | broadcast (message : Message)
  | unicast (recipient : NodeId) (message : Message)
  | resolved (ballot : Ballot) (value : Value)
deriving DecidableEq, Repr

/-- A message on its way to a node. -/
structure Envelope where
  recipient : NodeId
  message : Message
deriving DecidableEq, Repr

/-- The traffic that an effect of node `self` stands for. -/
def Effect.outbound (self : NodeId) : Effect → Option Outbound
  | .prepare b => some (.broadcast (.prepare self b))
  | .promise recipient b vote value => some (.unicast recipient (.promise self b vote value))
  | .accept b v => some (.broadcast (.accept self b v))
  | .accepted _ b v => some (.broadcast (.accepted self b v))
  | .prepareNack recipient b promised => some (.unicast recipient (.prepareNack self b promised))
  | .acceptNack recipient b promised => some (.unicast recipient (.acceptNack self b promised))
  | .heartbeat leader b => some (.broadcast (.heartbeat leader b))
  | .resolved b v => some (.resolved b v)
  | .leadershipAcquired | .leadershipLost | .leaderChanged _ _ => none

def outbound (self : NodeId) (effects : List Effect) : List Outbound :=
  effects.filterMap (Effect.outbound self)

end Synod
