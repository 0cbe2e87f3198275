/-
Synod.Node -- one member: the three roles, and an election among members

A node is an acceptor, a proposer and a learner under one name.  The leader keeps
its ballot alive with heartbeats.  A follower takes over only when both the
leader's heartbeats and the prepares of other proposers have gone quiet, so that
rival proposers do not keep outbidding each other.

Only a heartbeat that carries exactly the known leader ballot is proof of life; a
higher one replaces that ballot first.  A leader steps down when a higher
heartbeat comes from another node, or when a quorum rejected its request for votes.
-/
import Synod.Acceptor
import Synod.Learner
import Synod.Message
import Synod.Proposer

namespace Synod

set_option autoImplicit false

/-- When a leader pulses, and when others may take over; all in milliseconds. -/
structure Timing where
  heartbeatPeriod : Nat := 500
  /-- Silence after which the leader counts as dead. -/
  heartbeatTimeout : Nat := 1500
  /-- Quiet time after the last prepare before an election may start. -/
  livenessWindow : Nat := 2000
deriving DecidableEq, Repr

/-- What a node is started with. -/
structure Setup where
  id : NodeId
  quorum : Nat
  timing : Timing := {}
  /-- Who leads from the start, without an election. -/
  leader : Option NodeId := none
deriving DecidableEq, Repr

inductive Standing
  | follower
  /-- Preparing rounds to take over from a silent leader. -/
  | acquiring
  | leader
deriving DecidableEq, Repr

structure Node where
  id : NodeId
  acceptor : Acceptor
  proposer : Proposer
  learner : Learner
  leader : Option NodeId
  leaderBallot : Option Ballot := none
  lastHeartbeat : Nat
  timing : Timing
  acquiring : Bool := false
  /-- Who rejected the request for votes of the current ballot. -/
  rejections : List NodeId := []
deriving DecidableEq, Repr

namespace Node

/-- A node named as the first leader leads at once. -/
def start (s : Setup) (now : Nat) : Node where
  id := s.id
  acceptor := .start now s.timing.livenessWindow
  proposer := (Proposer.start s.id s.quorum).setLeader (decide (s.leader = some s.id))
  learner := .start s.quorum
  leader := s.leader
  lastHeartbeat := now
  timing := s.timing

def leading (n : Node) : Bool := n.proposer.leader

def standing (n : Node) : Standing :=
  if n.leading then .leader else if n.acquiring then .acquiring else .follower

def active (n : Node) : Bool := n.proposer.active && n.acceptor.active && n.learner.active

def setActive (n : Node) (on : Bool) : Node :=
  { n with
    proposer := n.proposer.setActive on
    acceptor := n.acceptor.setActive on
    learner := n.learner.setActive on }

def leaderAlive (n : Node) (now : Nat) : Bool :=
  decide (now - n.lastHeartbeat ≤ n.timing.heartbeatTimeout)

def prepareExpired (n : Node) (now : Nat) : Bool := n.acceptor.prepareExpired now

def snapshot (n : Node) : Snapshot := n.acceptor.snapshot

def persistenceRequired (n : Node) : Bool := n.acceptor.persistenceRequired

/-! ## Roles of a node

The result of an operation on one role, put back into the node. -/

def withAcceptor (n : Node) (r : Acceptor × List Effect) : Node × List Effect :=
  ({ n with acceptor := r.1 }, r.2)

def withProposer (n : Node) (r : Proposer × List Effect) : Node × List Effect :=
  ({ n with proposer := r.1 }, r.2)

def withLearner (n : Node) (r : Learner × List Effect) : Node × List Effect :=
  ({ n with learner := r.1 }, r.2)

/-- Lets the held replies go, once the snapshot is durable. -/
def persisted (n : Node) : Node × List Effect := n.withAcceptor n.acceptor.persisted

/-! ## Rounds -/

/-- A fresh round forgets who rejected the last one. -/
def prepare (n : Node) (fresh : Bool) : Node × List Effect :=
  { n with rejections := if fresh then [] else n.rejections }.withProposer
    (n.proposer.prepare fresh)

def propose (n : Node) (v : Value) : Node × List Effect :=
  n.withProposer (n.proposer.propose v)

def resend (n : Node) : List Effect := n.proposer.resend

/-! ## Elections -/

/-- Starts to take over, unless the leader is alive. -/
def acquire (n : Node) (now : Nat) : Node × List Effect :=
  if n.leaderAlive now then ({ n with acquiring := false }, [])
  else { n with acquiring := true }.prepare true

/-- Starts an election, or another round of it, once leader and rivals are quiet. -/
def pollLiveness (n : Node) (now : Nat) : Node × List Effect :=
  if n.leaderAlive now = true ∨ n.prepareExpired now = false then (n, [])
  else if n.acquiring then n.prepare true
  else n.acquire now

/-- Follows a higher leader ballot. -/
def follow (n : Node) (source : NodeId) (b : Ballot) : Node × List Effect :=
  let changed := if n.leader = some source then [] else [.leaderChanged n.leader (some source)]
  let following := { n with acquiring := false, leader := some source, leaderBallot := some b }
  if n.leading = true ∧ source ≠ n.id then
    ({ following with proposer := (n.proposer.setLeader false).observe b },
      .leadershipLost :: changed)
  else (following, changed)

/-- The known leader ballot, and no other, is proof of life. -/
def refresh (n : Node) (now : Nat) (b : Ballot) : Node :=
  if n.leaderBallot = some b then { n with lastHeartbeat := now } else n

def receiveHeartbeat (n : Node) (now : Nat) (source : NodeId) (b : Ballot) :
    Node × List Effect :=
  if b.Valid then
    let r := if Ballot.Exceeds (some b) n.leaderBallot then n.follow source b else (n, [])
    (r.1.refresh now b, r.2)
  else (n, [])

/-- While leading, sends a heartbeat, to itself first. -/
def pulse (n : Node) (now : Nat) : Node × List Effect :=
  if n.leading then
    let r := n.receiveHeartbeat now n.id n.proposer.ballot
    (r.1, r.2 ++ [.heartbeat n.id n.proposer.ballot])
  else (n, [])

/-- The round is won.  The first heartbeat records the new leader and reports it;
where no leader was known, the report follows the heartbeat. -/
def lead (n : Node) (now : Nat) : Node × List Effect :=
  let n := { n with acquiring := false }
  match n.leader with
  | some _ => n.pulse now
  | none =>
    let r := { n with leader := some n.id, leaderBallot := some n.proposer.ballot }.pulse now
    (r.1, r.2 ++ [.leaderChanged none (some n.id)])

def receivePromise (n : Node) (now : Nat) (source : NodeId) (b : Ballot)
    (accepted : Option Ballot) (value : Option Value) : Node × List Effect :=
  let counted := n.withProposer (n.proposer.receivePromise source b accepted value)
  if n.leading = false ∧ counted.1.leading = true then
    let r := counted.1.lead now
    (r.1, counted.2 ++ r.2)
  else counted

/-- Adds a name to a list without repetitions. -/
def note (names : List NodeId) (name : NodeId) : List NodeId :=
  if name ∈ names then names else names ++ [name]

/-- Notes who rejected the current ballot, and follows the promise in its way. -/
def noteRejection (n : Node) (source : NodeId) (b promised : Ballot) : Node :=
  { n with
    proposer := n.proposer.observe promised
    rejections := if b = n.proposer.ballot then note n.rejections source else n.rejections }

/-- Gives up leadership; nobody is known to lead. -/
def resign (n : Node) (promised : Ballot) : Node × List Effect :=
  ({ n with
      proposer := (n.proposer.setLeader false).observe promised
      leader := none
      leaderBallot := none },
    [.leadershipLost, .leaderChanged (some n.id) none])

/-- A quorum of rejections of the current ballot ends this node's leadership. -/
def receiveAcceptNack (n : Node) (source : NodeId) (b promised : Ballot) :
    Node × List Effect :=
  let n := n.noteRejection source b promised
  if n.leading = true ∧ n.proposer.quorum ≤ n.rejections.length then n.resign promised
  else (n, [])

/-! ## Messages -/

def receive (n : Node) (now : Nat) : Message → Node × List Effect
  | .prepare source b => n.withAcceptor (n.acceptor.receivePrepare now source b)
  | .promise source b accepted value => n.receivePromise now source b accepted value
  | .prepareNack _ _ promised => ({ n with proposer := n.proposer.observe promised }, [])
  | .accept source b v => n.withAcceptor (n.acceptor.receiveAccept source b v)
  | .accepted source b v => n.withLearner (n.learner.receiveAccepted source b v)
  | .acceptNack source b promised => n.receiveAcceptNack source b promised
  | .heartbeat source b => n.receiveHeartbeat now source b
  | .propose v => n.propose v

/-! ## Restarts -/

/-- Restores durable state.  The proposer resumes at or above the promise, so that
no ballot is issued twice, and a first leader with a past has to win an election. -/
def recover (n : Node) (s : Snapshot) : Node :=
  { n with
    acceptor := n.acceptor.recover s
    proposer := match s.promised with
      | some b => (n.proposer.setLeader false).observe b
      | none => n.proposer }

/-- A new node with the durable state of an earlier one. -/
def resume (setup : Setup) (now : Nat) (s : Snapshot) : Node := (start setup now).recover s

/-! ## Inputs -/

inductive Input
  | prepare (fresh : Bool)
  | propose (value : Value)
  | resend
  | pollLiveness
  | acquire
  | pulse
  | receive (message : Message)
  | recover (snapshot : Snapshot)
  | persisted
  | setActive (on : Bool)
deriving DecidableEq, Repr

def step (n : Node) (now : Nat) : Input → Node × List Effect
  | .prepare fresh => n.prepare fresh
  | .propose v => n.propose v
  | .resend => (n, n.resend)
  | .pollLiveness => n.pollLiveness now
  | .acquire => n.acquire now
  | .pulse => n.pulse now
  | .receive m => n.receive now m
  | .recover s => (n.recover s, [])
  | .persisted => n.persisted
  | .setActive on => (n.setActive on, [])

end Node

end Synod
