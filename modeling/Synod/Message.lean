/-
Synod.Message -- what nodes and clients tell each other

Every message but a client's proposal names the node that sent it.
-/
import Synod.Ballot

namespace Synod

set_option autoImplicit false

inductive Message
  /-- Asks for a promise. -/
  | prepare (sender : NodeId) (ballot : Ballot)
  /-- Promises a ballot and reports the vote cast so far. -/
  | promise (sender : NodeId) (ballot : Ballot) (accepted : Option Ballot) (value : Option Value)
  /-- Rejects a prepare. -/
  | prepareNack (sender : NodeId) (ballot promised : Ballot)
  /-- Asks for a vote. -/
  | accept (sender : NodeId) (ballot : Ballot) (value : Value)
  /-- Announces a vote. -/
  | accepted (sender : NodeId) (ballot : Ballot) (value : Value)
  /-- Rejects a request to vote. -/
  | acceptNack (sender : NodeId) (ballot promised : Ballot)
  | heartbeat (sender : NodeId) (ballot : Ballot)
  /-- A client asks for a value to be proposed. -/
  | propose (value : Value)
deriving DecidableEq, Repr

namespace Message

def sender? : Message → Option NodeId
  | .prepare s _ | .promise s _ _ _ | .prepareNack s _ _ | .accept s _ _ | .accepted s _ _
  | .acceptNack s _ _ | .heartbeat s _ => some s
  | .propose _ => none

def kind : Message → String
  | .prepare .. => "Prepare"
  | .promise .. => "Promise"
  | .prepareNack .. => "PrepareNack"
  | .accept .. => "Accept"
  | .accepted .. => "Accepted"
  | .acceptNack .. => "AcceptNack"
  | .heartbeat .. => "Heartbeat"
  | .propose _ => "Propose"

end Message

end Synod
