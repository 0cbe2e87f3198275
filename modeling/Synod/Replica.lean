/-
Synod.Replica -- a node that keeps its word across restarts

A replica drives a node over a store.  What the node asks for is routed: a broadcast
is first handled by the node itself, and is handed to the peers only once the node's
snapshot is saved, so that no ballot a peer has heard of is forgotten; a message to
itself waits in the loopback queue; a decision is recorded and published.

`flush` persists, routes and loops back until nothing is left to do.  Each `step?`
of it makes the load smaller (`step?_load`), so it ends whatever is queued and
whether or not the store works.

Messages of nodes that are no members are dropped.  A client's proposal goes on to
the leader, if another node leads and is alive.
-/
import Synod.Config.Basic
import Synod.Load
import Synod.Store

namespace Synod

set_option autoImplicit false

structure Replica where
  node : Node
  store : Store
  /-- The other members. -/
  peers : List NodeId
  /-- Traffic the node asked for. -/
  queue : List Outbound := []
  /-- Messages of the node to itself. -/
  loopback : List Message := []
  /-- What was handed over for delivery to peers, in order. -/
  sent : List Envelope := []
  /-- The decision that watchers see. -/
  published : Option (Ballot × Value) := none

namespace Replica

def id (r : Replica) : NodeId := r.node.id

def load (r : Replica) : Nat :=
  Synod.load r.queue + weigh Message.load r.loopback + r.node.held

/-- Takes over the result of an operation on the node. -/
def absorb (r : Replica) (result : Node × List Effect) : Replica :=
  { r with node := result.1, queue := r.queue ++ outbound r.id result.2 }

/-! ## Handling and routing -/

/-- Hands a message to the node itself or to a peer; nobody else has a route. -/
def deliver (r : Replica) (recipient : NodeId) (message : Message) : Replica :=
  if recipient = r.id then { r with loopback := r.loopback ++ [message] }
  else if recipient ∈ r.peers then { r with sent := r.sent ++ [{ recipient, message }] }
  else r

/-- A live leader other than this node. -/
def forwardTarget? (r : Replica) (now : Nat) : Option NodeId :=
  match r.node.leader with
  | some leader => if leader ≠ r.id ∧ r.node.leaderAlive now = true then some leader else none
  | none => none

/-- Whether a message comes from a client or a member. -/
def knows (r : Replica) (message : Message) : Bool :=
  match message.sender? with
  | some sender => decide (sender = r.id ∨ sender ∈ r.peers)
  | none => true

def dispatch (r : Replica) (now : Nat) (message : Message) : Replica :=
  r.absorb (r.node.receive now message)

/-- Passes a client's value on to the leader, or proposes it. -/
def submit (r : Replica) (now : Nat) (value : Value) : Replica :=
  match r.forwardTarget? now with
  | some leader => r.deliver leader (.propose value)
  | none => r.dispatch now (.propose value)

def handle (r : Replica) (now : Nat) (message : Message) : Replica :=
  if r.knows message then
    match message with
    | .propose v => r.submit now v
    | _ => r.dispatch now message
  else r

/-- Saves the node's snapshot and lets the held replies go, if there are any.  Where
the store fails, they stay held. -/
def persist (r : Replica) : Replica :=
  if r.node.persistenceRequired then
    match r.store.save r.node.snapshot with
    | .ok store => { r with store }.absorb r.node.persisted
    | .error _ => r
  else r

/-- Hands a broadcast to the peers, unless the node's state is still not durable. -/
def announce (r : Replica) (message : Message) : Replica :=
  if r.node.persistenceRequired then r
  else { r with sent := r.sent ++ r.peers.map fun recipient => { recipient, message } }

/-- Records and publishes a decision.  That it cannot be recorded does not keep it
from being published. -/
def resolve (r : Replica) (ballot : Ballot) (value : Value) : Replica :=
  { r with
    store := match r.store.record ballot value with
      | .ok store => store
      | .error _ => r.store
    published := some (ballot, value) }

def route (r : Replica) (now : Nat) : Outbound → Replica
  | .broadcast message => (r.handle now message).persist.announce message
  | .unicast recipient message => r.deliver recipient message
  | .resolved ballot value => r.resolve ballot value

/-- One piece of work, if any is left: traffic first, then what is looped back. -/
def step? (r : Replica) (now : Nat) : Option Replica :=
  match r.queue, r.loopback with
  | o :: rest, _ => some ({ r with queue := rest }.route now o)
  | [], m :: rest => some ({ r with loopback := rest }.handle now m).persist
  | [], [] => none

/-! ## The work comes to an end -/

theorem deliver_load (r : Replica) (recipient : NodeId) (message : Message) :
    (r.deliver recipient message).load ≤ r.load + message.load := by
  unfold deliver
  split
  · simp [load]; omega
  · split <;> simp [load]

theorem dispatch_load (r : Replica) (now : Nat) (message : Message) :
    (r.dispatch now message).load < r.load + message.load := by
  have handled := r.node.receive_load r.id now message
  simp only [dispatch, absorb, load, load_append]; omega

theorem load_pos (message : Message) : 0 < message.load := by
  cases message <;> simp [Message.load]

theorem forward_load (r : Replica) {now : Nat} {leader : NodeId} (message : Message)
    (found : r.forwardTarget? now = some leader) :
    (r.deliver leader message).load = r.load := by
  have other : leader ≠ r.id := by
    unfold forwardTarget? at found
    split at found
    · split at found
      · next c => simp_all
      · simp at found
    · simp at found
  unfold deliver
  rw [if_neg other]
  split <;> simp [load]

theorem submit_load (r : Replica) (now : Nat) (value : Value) :
    (r.submit now value).load < r.load + (Message.propose value).load := by
  unfold submit
  split
  · next found =>
    rw [forward_load r _ found]
    exact Nat.lt_add_of_pos_right (load_pos _)
  · exact r.dispatch_load now _

theorem handle_load (r : Replica) (now : Nat) (message : Message) :
    (r.handle now message).load < r.load + message.load := by
  have positive := load_pos message
  unfold handle
  split
  · split
    · exact r.submit_load now _
    · exact r.dispatch_load now message
  · omega

theorem persist_load (r : Replica) : r.persist.load ≤ r.load := by
  have released := r.node.persisted_load r.id
  unfold persist
  split
  · split
    · simp only [absorb, load, load_append, id] at released ⊢; omega
    · exact Nat.le_refl _
  · exact Nat.le_refl _

theorem announce_load (r : Replica) (message : Message) : (r.announce message).load = r.load := by
  unfold announce
  split <;> simp [load]

theorem route_load (r : Replica) (now : Nat) (o : Outbound) :
    (r.route now o).load < r.load + o.load := by
  cases o with
  | broadcast message =>
    have handled := r.handle_load now message
    have persisted := (r.handle now message).persist_load
    simp only [route, announce_load, Outbound.load]; omega
  | unicast recipient message =>
    have delivered := r.deliver_load recipient message
    simp only [route, Outbound.load]; omega
  | resolved ballot value => simp [route, resolve, load, Outbound.load]

theorem step?_load {r s : Replica} {now : Nat} (h : r.step? now = some s) : s.load < r.load := by
  cases queued : r.queue with
  | cons o rest =>
    have routed := { r with queue := rest }.route_load now o
    simp only [step?, queued, Option.some.injEq] at h
    subst h
    simp only [load, queued, load_cons] at routed ⊢; omega
  | nil =>
    cases looped : r.loopback with
    | cons m rest =>
      have handled := { r with loopback := rest }.handle_load now m
      have persisted := ({ r with loopback := rest }.handle now m).persist_load
      simp only [step?, queued, looped, Option.some.injEq] at h
      subst h
      simp only [load, looped, weigh_cons, queued] at handled persisted ⊢
      omega
    | nil => simp [step?, queued, looped] at h

/-- Works until nothing is left to do. -/
def settle (r : Replica) (now : Nat) : Replica :=
  match _worked : r.step? now with
  | some s => s.settle now
  | none => r
termination_by r.load
decreasing_by exact step?_load _worked

def flush (r : Replica) (now : Nat) : Replica := r.persist.settle now

/-! ## Inputs -/

inductive Input
  /-- A message from a peer or a client. -/
  | receive (message : Message)
  /-- Time for the leader's heartbeat, and for its request for votes again. -/
  | pulse
  | pollLiveness
deriving DecidableEq, Repr

def act (r : Replica) (now : Nat) : Input → Replica
  | .receive message => r.handle now message
  | .pulse =>
    let beat := r.node.pulse now
    r.absorb (beat.1, beat.2 ++ beat.1.resend)
  | .pollLiveness => r.absorb (r.node.pollLiveness now)

/-- Acts on an input and does all the work that follows. -/
def step (r : Replica) (now : Nat) (input : Input) : Replica := (r.act now input).flush now

/-! ## Start -/

/-- A replica that goes on from what its store holds. -/
def start (c : Config) (store : Store) (now : Nat) : Except Error Replica := do
  let fresh := Node.start c.setup now
  let node := match ← store.load with
    | some snapshot => fresh.recover snapshot
    | none => fresh
  return {
    node
    store
    peers := c.peers.map MemberConfig.id
    published := ← store.resolution }

end Replica

end Synod
