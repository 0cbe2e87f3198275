/-
Synod.Cluster -- nodes over a network that loses, repeats and reorders

A cluster holds its members, in ascending order of name, and the pool of envelopes
in flight.  Each member has the traffic its node asked for and that is not carried
yet, and the snapshot that its node would restart from.

An `Action` delivers, drops or repeats an envelope, moves the clock, or acts on one
member; after it the members' own traffic is carried.  A broadcast is first handled
by the node that sends it, whose snapshot then becomes durable, and only then is it
in flight to the others.  Traffic of a member that is down is lost.

`step` answers with what was put in flight, what was broadcast and what was decided.
-/
import Synod.Load

namespace Synod

set_option autoImplicit false

/-- A decision, and the node whose learner made it. -/
structure Decision where
  node : NodeId
  ballot : Ballot
  value : Value
deriving DecidableEq, Repr

/-- What carrying traffic brought about. -/
structure Carried where
  sent : List Envelope := []
  /-- What was broadcast, each message once. -/
  announced : List Message := []
  decided : List Decision := []
deriving DecidableEq, Repr

instance : Append Carried where
  append x y :=
    { sent := x.sent ++ y.sent
      announced := x.announced ++ y.announced
      decided := x.decided ++ y.decided }

/-! ## Members -/

structure Member where
  node : Node
  /-- Traffic that is not carried yet. -/
  queue : List Outbound := []
  durable : Snapshot := {}
  down : Bool := false
deriving DecidableEq, Repr

namespace Member

def load (m : Member) : Nat := Synod.load m.queue + m.node.held

/-- Takes over the result of an operation on the node. -/
def absorb (m : Member) (r : Node × List Effect) : Member :=
  { m with node := r.1, queue := m.queue ++ outbound m.node.id r.2 }

/-- Makes the node's snapshot durable, if a reply waits for that. -/
def persist (m : Member) : Member :=
  if m.node.persistenceRequired then
    { m with durable := m.node.snapshot }.absorb m.node.persisted
  else m

def receive (m : Member) (now : Nat) (message : Message) : Member :=
  m.absorb (m.node.receive now message)

/-- Carries one piece of the member's own traffic. -/
def carry (m : Member) (now : Nat) (others : List NodeId) : Outbound → Member × Carried
  | .broadcast message =>
    ((m.receive now message).persist,
      { sent := others.map fun recipient => { recipient, message }, announced := [message] })
  | .unicast recipient message => (m, { sent := [{ recipient, message }] })
  | .resolved ballot value => (m, { decided := [{ node := m.node.id, ballot, value }] })

theorem persist_load (m : Member) : m.persist.load ≤ m.load := by
  have released := m.node.persisted_load m.node.id
  unfold persist
  split
  · simp only [load, absorb, load_append]; omega
  · exact Nat.le_refl _

theorem receive_load (m : Member) (now : Nat) (message : Message) :
    (m.receive now message).load < m.load + message.load := by
  have handled := m.node.receive_load m.node.id now message
  simp only [receive, load, absorb, load_append]; omega

theorem carry_load (m : Member) (now : Nat) (others : List NodeId) (o : Outbound) :
    (m.carry now others o).1.load < m.load + o.load := by
  cases o with
  | broadcast message =>
    exact Nat.lt_of_le_of_lt (persist_load _) (m.receive_load now message)
  | unicast recipient message => simp [carry, Outbound.load]
  | resolved ballot value => simp [carry, Outbound.load]

/-- Carries the member's own traffic until none is left. -/
def collect (m : Member) (now : Nat) (others : List NodeId) : Member × Carried :=
  match traffic : m.queue with
  | [] => (m, {})
  | o :: rest =>
    if m.down then ({ m with queue := [] }, {})
    else
      let r := { m with queue := rest }.carry now others o
      let s := r.1.collect now others
      (s.1, r.2 ++ s.2)
termination_by m.load
decreasing_by
  have carried := carry_load { m with queue := rest } now others o
  simp only [load, traffic, load_cons] at carried ⊢
  omega

end Member

/-! ## The cluster -/

structure Cluster where
  quorum : Nat
  timing : Timing := {}
  /-- Who leads from the start, without an election. -/
  leader : Option NodeId := none
  members : List Member
  pool : List Envelope := []
  now : Nat := 0
deriving DecidableEq, Repr

namespace Cluster

inductive Action
  /-- Delivers the envelope at this place of the pool, counted round and round. -/
  | deliver (index : Nat)
  | drop (index : Nat)
  /-- Puts a second copy at the end of the pool. -/
  | duplicate (index : Nat)
  /-- Persists, carries and delivers in order until nothing is in flight. -/
  | settle
  | advance (duration : Nat)
  | persist (node : NodeId)
  | propose (node : NodeId) (value : Value)
  | prepare (node : NodeId) (fresh : Bool)
  | pollLiveness (node : NodeId)
  /-- A heartbeat, and the request for votes again. -/
  | pulse (node : NodeId)
  | setActive (node : NodeId) (on : Bool)
  /-- A new node, with no traffic, recovers from the durable snapshot. -/
  | restart (node : NodeId)
  | down (node : NodeId)
  | up (node : NodeId)
deriving DecidableEq, Repr

/-- Adds a name to an ascending list without repetitions. -/
def insertName (name : NodeId) : List NodeId → List NodeId
  | [] => [name]
  | n :: rest =>
    if name < n then name :: n :: rest
    else if name = n then n :: rest
    else n :: insertName name rest

def setup (c : Cluster) (id : NodeId) : Setup where
  id := id
  quorum := c.quorum
  timing := c.timing
  leader := c.leader

def start (names : List NodeId) (quorum : Nat) (timing : Timing) (leader : Option NodeId) :
    Cluster where
  quorum := quorum
  timing := timing
  leader := leader
  members := (names.foldr insertName []).map fun id =>
    { node := Node.start { id, quorum, timing, leader } 0 }

def names (c : Cluster) : List NodeId := c.members.map fun m => m.node.id

def find? (c : Cluster) (id : NodeId) : Option Member :=
  c.members.find? fun m => m.node.id = id

/-- Changes the member of this name. -/
def update (c : Cluster) (id : NodeId) (f : Member → Member) : Cluster :=
  { c with members := c.members.map fun m => if m.node.id = id then f m else m }

/-- Lets one member's node act. -/
def operate (c : Cluster) (id : NodeId) (f : Node → Node × List Effect) : Cluster :=
  c.update id fun m => m.absorb (f m.node)

def persistAll (c : Cluster) : Cluster := { c with members := c.members.map Member.persist }

/-- Nothing arrives at a member that is down. -/
def handOver (c : Cluster) (e : Envelope) : Cluster :=
  c.update e.recipient fun m => if m.down then m else m.receive c.now e.message

/-- The place in the pool that an index names, if anything is in flight. -/
def place (c : Cluster) (index : Nat) : Nat := index % c.pool.length

def addressed? (c : Cluster) (index : Nat) : Option Envelope := c.pool[c.place index]?

/-- Carries every member's own traffic, in ascending order of name. -/
def collect (c : Cluster) : Cluster × Carried :=
  let results := c.members.map fun m =>
    m.collect c.now (c.names.filter fun name => name ≠ m.node.id)
  let carried := (results.map Prod.snd).foldr (· ++ ·) {}
  ({ c with members := results.map Prod.fst, pool := c.pool ++ carried.sent }, carried)

def settle : Nat → Cluster → Cluster × Carried
  | 0, c => (c, {})
  | rounds + 1, c =>
    let r := c.persistAll.collect
    match r.1.pool with
    | [] => r
    | e :: rest =>
      let s := settle rounds ({ r.1 with pool := rest }.handOver e)
      (s.1, r.2 ++ s.2)

/-- How often settling persists, carries and delivers at most. -/
def settleRounds : Nat := 2000

def act (c : Cluster) : Action → Cluster × Carried
  | .deliver index =>
    match c.addressed? index with
    | some e => ({ c with pool := c.pool.eraseIdx (c.place index) }.handOver e, {})
    | none => (c, {})
  | .drop index => ({ c with pool := c.pool.eraseIdx (c.place index) }, {})
  | .duplicate index => ({ c with pool := c.pool ++ (c.addressed? index).toList }, {})
  | .settle => settle settleRounds c
  | .advance duration => ({ c with now := c.now + duration }, {})
  | .persist id => (c.update id Member.persist, {})
  | .propose id v => (c.operate id fun n => n.propose v, {})
  | .prepare id fresh => (c.operate id fun n => n.prepare fresh, {})
  | .pollLiveness id => (c.operate id fun n => n.pollLiveness c.now, {})
  | .pulse id => (c.operate id fun n => let r := n.pulse c.now; (r.1, r.2 ++ r.1.resend), {})
  | .setActive id on => (c.operate id fun n => (n.setActive on, []), {})
  | .restart id =>
    (c.update id fun m =>
      { m with node := Node.resume (c.setup id) c.now m.durable, queue := [] }, {})
  | .down id => (c.update id fun m => { m with down := true }, {})
  | .up id => (c.update id fun m => { m with down := false }, {})

def step (c : Cluster) (a : Action) : Cluster × Carried :=
  let r := c.act a
  let s := r.1.collect
  (s.1, r.2 ++ s.2)

def run (c : Cluster) (actions : List Action) : Cluster × Carried :=
  actions.foldl (fun r a => let s := r.1.step a; (s.1, r.2 ++ s.2)) (c, {})

end Cluster

end Synod
