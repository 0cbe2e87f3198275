/-
Synod.Service -- a replica with a clock, timers and links

A service runs a replica: it is created over a store, started, and stopped again.
While it runs, the leader's pulse is due at once and then every heartbeat interval,
and the liveness poll every poll interval, the first one interval after the start.
Timers that are due on the way fire in order, each at its own time.

What the replica sends at one moment is handed to links, one link for each peer, and
one link carries all that it was handed before the next one does.  A link to an address
that is down loses what is handed to it.

A heartbeat interval of zero is none: a service with it breaks off when it is started.
-/
import Synod.Replica

namespace Synod

set_option autoImplicit false

namespace Service

inductive Phase
  /-- Created and not started. -/
  | created
  /-- Running, with the times at which the timers are due. -/
  | running (pulseDue pollDue : Nat)
  /-- Broken off at its start. -/
  | failed
  | stopped
deriving DecidableEq, Repr

inductive Event
  /-- Proposes a value before the start. -/
  | propose (value : Value)
  | start
  | receive (message : Message)
  | advance (duration : Nat)
  | down (address : String)
  | up (address : String)
  | breakTable (table : Table)
  | fixTable (table : Table)
  | stop
  /-- Stops, mends the store, and creates a new replica on it. -/
  | restart
deriving DecidableEq, Repr

end Service

/-- Once stopped or broken off, a service holds its last replica for the sake of its
store. -/
structure Service where
  config : Config
  replica : Replica
  phase : Service.Phase := .created
  now : Nat := 0
  /-- Addresses that cannot be reached. -/
  unreachable : List String := []
  /-- What links carried since the last event, by address. -/
  carried : List (String × Message) := []

namespace Service

def create (config : Config) (store : Store) : Except Error Service := do
  let replica ← Replica.start config store 0
  return { config, replica }

/-- Lengthens the interval of the liveness poll. -/
def delayPolls (s : Service) (extra : Nat) : Service :=
  let poll := s.config.cluster.livenessPoll + extra
  { s with config := { s.config with cluster := { s.config.cluster with livenessPoll := poll } } }

/-! ## Links -/

/-- Envelopes by recipient; who comes first is served first. -/
def byRecipient (envelopes : List Envelope) : List Envelope :=
  (envelopes.map Envelope.recipient).eraseDups.flatMap fun id =>
    envelopes.filter fun e => e.recipient = id

def addressOf? (s : Service) (id : NodeId) : Option String :=
  (s.config.peers.find? fun m => m.id = id).map MemberConfig.address

/-- The address at which a link delivers an envelope, unless the link loses it. -/
def deliver? (s : Service) (e : Envelope) : Option (String × Message) :=
  match s.addressOf? e.recipient with
  | some address => if address ∈ s.unreachable then none else some (address, e.message)
  | none => none

/-- Hands the links what the replica sent. -/
def hand (s : Service) : Service :=
  { s with
    carried := s.carried ++ (byRecipient s.replica.sent).filterMap s.deliver?
    replica := { s.replica with sent := [] } }

/-! ## Timers -/

/-- Goes on to a moment; what was sent before it is handed over. -/
def moveTo (s : Service) (moment : Nat) : Service :=
  if moment = s.now then s else { s.hand with now := moment }

/-- A timer fires again after its interval, at least a millisecond later. -/
def again (now interval : Nat) : Nat := now + max interval 1

def work (s : Service) (input : Replica.Input) : Service :=
  { s with replica := s.replica.step s.now input }

/-- The pulse fires at the time it is due. -/
def firePulse (s : Service) (due pollDue : Nat) : Service :=
  { s.moveTo due with
    phase := .running (again due s.config.cluster.heartbeatInterval) pollDue }.work .pulse

/-- The liveness poll fires at the time it is due. -/
def firePoll (s : Service) (pulseDue due : Nat) : Service :=
  { s.moveTo due with
    phase := .running pulseDue (again due s.config.cluster.livenessPoll) }.work .pollLiveness

/-- How far the timers are from a moment, together. -/
def Phase.distance (moment : Nat) : Phase → Nat
  | .running pulseDue pollDue => (moment + 1 - pulseDue) + (moment + 1 - pollDue)
  | _ => 0

/-- Lets time pass up to a moment, firing what is due on the way. -/
def passUntil (s : Service) (moment : Nat) : Service :=
  match _phase : s.phase with
  | .running pulseDue pollDue =>
    if pulseDue ≤ moment ∧ pulseDue ≤ pollDue then
      (s.firePulse pulseDue pollDue).passUntil moment
    else if pollDue ≤ moment ∧ pollDue < pulseDue then
      (s.firePoll pulseDue pollDue).passUntil moment
    else { s with now := moment }
  | _ => { s with now := moment }
termination_by s.phase.distance moment
decreasing_by
  all_goals
    simp only [firePulse, firePoll, work, again, Phase.distance, _phase]
    omega

/-! ## Events -/

/-- Whether the pulse can be timed. -/
def sustainable (s : Service) : Bool := s.config.cluster.heartbeatInterval ≠ 0

/-- Stops a running replica; its state is saved a last time. -/
def halt (s : Service) : Service :=
  match s.phase with
  | .running _ _ => { s with phase := .stopped, replica := s.replica.persist }
  | .failed => { s with phase := .stopped }
  | .created | .stopped => s

def start (s : Service) : Service :=
  if s.sustainable then
    { s with phase := .running s.now (again s.now s.config.cluster.livenessPoll) }.passUntil s.now
  else { s with phase := .failed }

def act (s : Service) : Event → Service
  | .propose v =>
    if s.phase = .created then s.work (.receive (.propose v)) else s
  | .start => if s.phase = .created then s.start else s
  | .receive message =>
    match s.phase with
    | .running _ _ => s.work (.receive message)
    | _ => s
  | .advance duration => s.passUntil (s.now + duration)
  | .down address => { s with unreachable := address :: s.unreachable }
  | .up address => { s with unreachable := s.unreachable.filter (· ≠ address) }
  | .breakTable t => { s with replica := { s.replica with store := s.replica.store.breakTable t } }
  | .fixTable t => { s with replica := { s.replica with store := s.replica.store.fixTable t } }
  | .stop => s.halt
  | .restart =>
    let s := s.halt
    match Replica.start s.config s.replica.store.fixAll s.now with
    | .ok replica => { s with replica, phase := .created }
    | .error _ => { s with phase := .stopped }

/-- Acts on an event, and answers with what the links carried because of it. -/
def step (s : Service) (event : Event) : Service × List (String × Message) :=
  let s := (s.act event).hand
  ({ s with carried := [] }, s.carried)

end Service

end Synod
