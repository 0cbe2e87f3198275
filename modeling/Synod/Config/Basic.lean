/-
Synod.Config.Basic -- how a node is configured

A configuration names the node, the members of its cluster, and the times of the
election.  The member list may leave the node out or hold it; either way the
cluster is the node and its peers, and a quorum is a majority of it unless a larger
one is asked for.

`validate` accepts a configuration only if quorums of any two nodes that agree on
the members intersect, and reports the first fault it finds otherwise.
-/
import Synod.Error
import Synod.Node

namespace Synod

set_option autoImplicit false

structure NodeConfig where
  id : NodeId
  bindAddress : String
  dataDir : String := "/var/lib/wolfpaxos"
  /-- Where other nodes connect to, if not to the bind address. -/
  advertiseAddress : Option String := none
deriving DecidableEq, Repr

structure MemberConfig where
  id : NodeId
  address : String
deriving DecidableEq, Repr

/-- Times are in milliseconds. -/
structure ClusterConfig where
  members : List MemberConfig := []
  heartbeatInterval : Nat := 500
  heartbeatTimeout : Nat := 1500
  livenessWindow : Nat := 2000
  livenessPoll : Nat := 250
  /-- At most this much is added to the poll interval, at random. -/
  livenessJitter : Nat := 250
  /-- The quorum that is asked for; 0 asks for a majority. -/
  minQuorum : Nat := 0
  /-- Who leads from the start, without an election. -/
  leader : Option NodeId := none
deriving DecidableEq, Repr

structure LoggingConfig where
  level : String := "info"
deriving DecidableEq, Repr

structure Config where
  node : NodeConfig
  cluster : ClusterConfig
  logging : LoggingConfig := {}
deriving DecidableEq, Repr

namespace Config

def advertiseAddress (c : Config) : String :=
  c.node.advertiseAddress.getD c.node.bindAddress

/-- The members other than the node itself. -/
def peers (c : Config) : List MemberConfig :=
  c.cluster.members.filter fun m => m.id ≠ c.node.id

def clusterSize (c : Config) : Nat := c.peers.length + 1

def quorumSize (c : Config) : Nat :=
  if 0 < c.cluster.minQuorum then c.cluster.minQuorum else c.clusterSize / 2 + 1

def timing (c : Config) : Timing where
  heartbeatPeriod := c.cluster.heartbeatInterval
  heartbeatTimeout := c.cluster.heartbeatTimeout
  livenessWindow := c.cluster.livenessWindow

def setup (c : Config) : Setup where
  id := c.node.id
  quorum := c.quorumSize
  timing := c.timing
  leader := c.cluster.leader

/-! ## Validation -/

/-- What makes a configuration contradict itself. -/
inductive Fault
  | noId
  | noBindAddress
  | incompleteMember
  | duplicateMember (id : NodeId)
  | quorumTooLarge (quorum size : Nat)
  | quorumTooSmall (quorum size : Nat)
  | timeoutTooShort
  | noPoll
deriving DecidableEq, Repr

def Fault.message : Fault → String
  | .noId => "node.id cannot be empty"
  | .noBindAddress => "node.bind_address cannot be empty"
  | .incompleteMember => "cluster.members entries need an id and an address"
  | .duplicateMember id => "duplicate cluster member: " ++ id
  | .quorumTooLarge quorum size =>
    "quorum of " ++ Nat.repr quorum ++ " cannot be met by " ++ Nat.repr size ++ " nodes"
  | .quorumTooSmall quorum size =>
    "cluster.min_quorum of " ++ Nat.repr quorum ++ " is not a majority of " ++ Nat.repr size ++
      " nodes"
  | .timeoutTooShort =>
    "cluster.heartbeat_timeout_ms must exceed cluster.heartbeat_interval_ms"
  | .noPoll => "cluster.liveness_poll_ms cannot be 0"

/-- The first fault among members, given the ids before them. -/
def memberFault? (seen : List NodeId) : List MemberConfig → Option Fault
  | [] => none
  | m :: rest =>
    if m.id = "" ∨ m.address = "" then some .incompleteMember
    else if m.id ∈ seen then some (.duplicateMember m.id)
    else memberFault? (m.id :: seen) rest

def quorumFault? (c : Config) : Option Fault :=
  if c.clusterSize < c.quorumSize then some (.quorumTooLarge c.quorumSize c.clusterSize)
  else if c.cluster.minQuorum ≠ 0 ∧ c.cluster.minQuorum ≤ c.clusterSize / 2 then
    some (.quorumTooSmall c.cluster.minQuorum c.clusterSize)
  else none

def timingFault? (c : Config) : Option Fault :=
  if c.cluster.heartbeatTimeout ≤ c.cluster.heartbeatInterval then some .timeoutTooShort
  else if c.cluster.livenessPoll = 0 then some .noPoll
  else none

def fault? (c : Config) : Option Fault :=
  if c.node.id = "" then some .noId
  else if c.node.bindAddress = "" then some .noBindAddress
  else (memberFault? [] c.cluster.members).or (c.quorumFault?.or c.timingFault?)

def validate (c : Config) : Except Error Config :=
  match c.fault? with
  | some f => .error (.config f.message)
  | none => .ok c

end Config

end Synod
