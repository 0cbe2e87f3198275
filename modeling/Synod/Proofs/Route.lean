/-
Synod.Proofs.Route -- where messages can go

A replica has a route to itself and to its peers.  It hears members only, and answers whom it has
heard, be it at once or when a held promise is let go; so each of its replies has a route.

A client's value goes to the leader that the node knows, if another node leads and is alive.  Of
this leader the node has heard, unless it was started to know one.  Nobody asks whether such a
leader is a member.  If it is none, the node is misled until the timeout has passed, and the values
that clients send it are lost, one and all (`routed_unless_misled`).
-/
import Synod.Proofs.Allegiance
import Synod.Proofs.Membership

namespace Synod

set_option autoImplicit false

/-! ## Replies -/

/-- The one node that an effect is for. -/
def Effect.recipient? : Effect → Option NodeId
  | .promise x .. | .prepareNack x .. | .acceptNack x .. => some x
  | _ => none

theorem recipient_of_mem_outbound {self x : NodeId} {effects : List Effect} {message : Message}
    (mem : .unicast x message ∈ outbound self effects) : ∃ e ∈ effects, e.recipient? = some x := by
  obtain ⟨e, sent, named⟩ := List.mem_filterMap.1 mem
  refine ⟨e, sent, ?_⟩
  cases e <;> cases named <;> rfl

namespace Acceptor

def Input.sender? : Input → Option NodeId
  | .prepare source _ | .accept source .. => some source
  | _ => none

variable {names : List NodeId} {a : Acceptor}

/-- An acceptor that hears these names only, and keeps none but them waiting, answers them only,
and goes on to keep none but them waiting. -/
theorem heed_names (waiting : ∀ x ∈ a.pendingPromise, x ∈ names) (now : Nat) {order : Option Input}
    (named : ∀ o ∈ order, ∀ x ∈ o.sender?, x ∈ names) :
    (∀ x ∈ (a.heed now order).1.pendingPromise, x ∈ names) ∧
      ∀ e ∈ (a.heed now order).2, ∀ x ∈ e.recipient?, x ∈ names := by
  cases order with
  | none => exact ⟨waiting, by simp [heed]⟩
  | some o =>
    have named := named o rfl
    show (∀ x ∈ (a.step now o).1.pendingPromise, x ∈ names) ∧
      ∀ e ∈ (a.step now o).2, ∀ x ∈ e.recipient?, x ∈ names
    by_cases ordinary : o.Ordinary
    · have move := a.step_move now ordinary
      generalize (a.step now o).1 = next at move ⊢
      generalize (a.step now o).2 = effects at move ⊢
      cases move with
      | takePromise =>
        refine ⟨fun x mem => ?_, by simp⟩
        unfold waiter at mem
        split at mem
        · exact named x mem
        · cases mem
      | release =>
        refine ⟨by simp, fun e mem x recipient => ?_⟩
        split at mem
        · rcases List.mem_append.1 mem with held | held
          · obtain ⟨source, b, waits, -, rfl⟩ := mem_heldPromise held
            cases recipient
            exact waiting x waits
          · obtain ⟨source, b, v, -, -, -, rfl⟩ := mem_heldVote held
            cases recipient
        · cases mem
      | repeatPromise | rejectPrepare | rejectAccept =>
        refine ⟨waiting, fun e mem x recipient => ?_⟩
        rw [List.mem_singleton.1 mem] at recipient
        exact named x recipient
      | repeatVote => exact ⟨waiting, by simp [Effect.recipient?]⟩
      | _ => exact ⟨waiting, by simp⟩
    · cases o with
      | recover s => exact ⟨waiting, by simp [step]⟩
      | _ => exact absurd trivial ordinary

end Acceptor

namespace Node

variable {n : Node} {now : Nat} {input : Input}

/-! ## Leaders never heard of -/

/-- The timing stays, and so does the last heartbeat, as long as no ballot is followed. -/
structure Timed (n m : Node) : Prop where
  timing : m.timing = n.timing
  heard : m.leaderBallot = none → m.lastHeartbeat = n.lastHeartbeat

theorem receiveHeartbeat_timed (n : Node) (now : Nat) (source : NodeId) (b : Ballot) :
    n.Timed (n.receiveHeartbeat now source b).1 := by
  suffices timed : (n.heard now ⟨source, b⟩).watch.timing = n.watch.timing ∧
      ((n.heard now ⟨source, b⟩).watch.ballot = none →
        (n.heard now ⟨source, b⟩).watch.heard = n.watch.heard) from ⟨timed.1, timed.2⟩
  have attention := n.heartbeat_watch now source b
  generalize (n.heard now ⟨source, b⟩).watch = w at attention
  cases attention with
  | rest => exact ⟨rfl, fun _ => rfl⟩
  | adopt => exact ⟨rfl, fun unknown => nomatch unknown⟩
  | hear known => exact ⟨rfl, fun unknown => nomatch known.symm.trans unknown⟩
  | relent silent | takeOver silent => cases silent

theorem pulse_timed (n : Node) (now : Nat) : n.Timed (n.pulse now).1 := by
  unfold pulse
  split
  · exact n.receiveHeartbeat_timed now n.id n.proposer.ballot
  · exact ⟨rfl, fun _ => rfl⟩

theorem lead_timed (n : Node) (now : Nat) : n.Timed (n.lead now).1 := by
  unfold lead
  simp only
  split
  · obtain ⟨timing, heard⟩ := pulse_timed { n with acquiring := false } now
    exact ⟨timing, heard⟩
  · let seated : Node := { n with
      acquiring := false, leader := some n.id, leaderBallot := some n.proposer.ballot }
    have ballot : (seated.pulse now).1.leaderBallot = some n.proposer.ballot := by
      have seat := congrArg Seat.ballot (seated.pulse_seat now)
      split at seat <;> exact seat
    exact ⟨(seated.pulse_timed now).timing, fun unknown => nomatch ballot.symm.trans unknown⟩

theorem step_timed (n : Node) (now : Nat) (input : Input) : n.Timed (n.step now input).1 := by
  have still : n.Timed n := ⟨rfl, fun _ => rfl⟩
  have acquired : n.Timed (n.acquire now).1 := by
    unfold acquire
    split <;> exact ⟨rfl, fun _ => rfl⟩
  cases input with
  | prepare | propose | resend | persisted | setActive | recover => exact ⟨rfl, fun _ => rfl⟩
  | acquire => exact acquired
  | pollLiveness =>
    show n.Timed (n.pollLiveness now).1
    unfold pollLiveness
    split
    · exact still
    · split
      · exact ⟨rfl, fun _ => rfl⟩
      · exact acquired
  | pulse => exact n.pulse_timed now
  | receive m =>
    cases m with
    | prepare | prepareNack | accept | accepted | propose => exact ⟨rfl, fun _ => rfl⟩
    | heartbeat source b => exact n.receiveHeartbeat_timed now source b
    | promise source b vote value =>
      show n.Timed (n.receivePromise now source b vote value).1
      unfold receivePromise
      simp only
      split
      · obtain ⟨timing, heard⟩ :=
          lead_timed (n.withProposer (n.proposer.receivePromise source b vote value)).1 now
        exact ⟨timing, heard⟩
      · exact ⟨rfl, fun _ => rfl⟩
    | acceptNack source b promised =>
      show n.Timed (n.receiveAcceptNack source b promised).1
      rw [receiveAcceptNack_eq]
      split <;> exact ⟨rfl, fun _ => rfl⟩

/-- The leader a node knows is the one it knew, or itself, or whose heartbeat just came. -/
theorem Succession.leader {seat : Seat} {x : NodeId} (succession : n.Succession input seat)
    (known : seat.leader = some x) :
    seat.leader = n.leader ∧ seat.ballot = n.leaderBallot ∨ x = n.id ∨
      ∃ b, input = .receive (.heartbeat x b) := by
  cases succession with
  | stay | standDown => exact .inl ⟨rfl, rfl⟩
  | @follow source b =>
    cases known
    exact .inr (.inr ⟨b, rfl⟩)
  | confirm =>
    cases known
    exact .inr (.inl rfl)
  | win =>
    unfold seatWon at known ⊢
    split at known
    · cases known
      exact .inr (.inl rfl)
    · next stays =>
      rw [if_neg stays]
      exact .inl ⟨rfl, rfl⟩
  | resign => cases known

/-- Whom a node that is started like this may turn to, if it hears these names only: to them, or to
the leader that it was told of. -/
structure Bearings (names : List NodeId) (setup : Setup) (start : Nat) (n : Node) : Prop where
  own : n.id ∈ names
  waiting : ∀ x ∈ n.acceptor.pendingPromise, x ∈ names
  timing : n.timing = setup.timing
  leader : ∀ x ∈ n.leader, x ∈ names ∨
    setup.leader = some x ∧ n.leaderBallot = none ∧ n.lastHeartbeat = start

variable {names : List NodeId} {setup : Setup} {start : Nat}

theorem acceptorOrder_sender {o : Acceptor.Input} {x : NodeId} (ordered : o ∈ acceptorOrder input)
    (sender : x ∈ o.sender?) : ∃ message, input = .receive message ∧ message.sender? = some x := by
  unfold acceptorOrder at ordered
  split at ordered <;> cases ordered <;> cases sender <;> exact ⟨_, rfl, rfl⟩

/-- Whoever a node turns to is somebody it has heard, or turned to before. -/
theorem Bearings.step (bearings : n.Bearings names setup start) (now : Nat)
    (named : ∀ message x, input = .receive message → message.sender? = some x → x ∈ names) :
    (n.step now input).1.Bearings names setup start := by
  have roles := n.step_roles now input
  have timed := n.step_timed now input
  refine ⟨roles.id ▸ bearings.own, ?_, timed.timing.trans bearings.timing, fun x known => ?_⟩
  · rw [roles.acceptor]
    refine (Acceptor.heed_names bearings.waiting now fun o ordered x sender => ?_).1
    obtain ⟨message, received, sender⟩ := acceptorOrder_sender ordered sender
    exact named message x received sender
  · have known : (n.step now input).1.seat.leader = some x := known
    rcases (n.step_succession now input).leader known with ⟨leader, ballot⟩ | rfl | ⟨b, rfl⟩
    · rcases bearings.leader x (leader.symm.trans known) with member | ⟨told, unheard, since⟩
      · exact .inl member
      · have unheard : (n.step now input).1.leaderBallot = none := ballot.trans unheard
        exact .inr ⟨told, unheard, (timed.heard unheard).trans since⟩
    · exact .inl bearings.own
    · exact .inl (named _ x rfl rfl)

/-- What a node sends to one node alone, it sends to somebody it has heard. -/
theorem Bearings.unicast (bearings : n.Bearings names setup start) {x : NodeId} {message : Message}
    (named : ∀ message x, input = .receive message → message.sender? = some x → x ∈ names)
    (sent : .unicast x message ∈ outbound n.id (n.step now input).2) : x ∈ names := by
  obtain ⟨e, mem, recipient⟩ := recipient_of_mem_outbound sent
  obtain ⟨-, -, -, -, electoral, reports, effects⟩ := n.step_roles now input
  rw [effects] at mem
  simp only [List.mem_append] at mem
  rcases mem with ((reply | request) | decision) | report
  · refine (Acceptor.heed_names bearings.waiting now fun o ordered x sender => ?_).2 e reply x
      recipient
    obtain ⟨message, received, sender⟩ := acceptorOrder_sender ordered sender
    exact named message x received sender
  · have speaks := n.proposer.run_speaks _ e request
    cases e <;> cases recipient <;> exact speaks.elim
  · obtain ⟨b, v, rfl⟩ := n.learner.heed_resolved _ e decision
    cases recipient
  · have report := reports e report
    cases e <;> cases recipient <;> exact report.elim

theorem resume_bearings {setup : Setup} (own : setup.id ∈ names) (start : Nat) (s : Snapshot) :
    (resume setup start s).Bearings names setup start where
  own := own
  waiting x held := by cases held
  timing := rfl
  leader x known := .inr ⟨known, rfl, rfl⟩

end Node

namespace Replica

variable {r t : Replica} {c : Config} {start now : Nat} {log : List Message}

/-- Only members are turned to, the leader apart that the replica was started to know. -/
structure Routed (c : Config) (start : Nat) (r : Replica) : Prop where
  members : r.id :: r.peers = c.names
  bearings : r.node.Bearings c.names c.setup start
  unicast : ∀ x message, .unicast x message ∈ r.queue → x ∈ c.names

theorem Routed.mem_names (routed : r.Routed c start) {x : NodeId} :
    x ∈ c.names ↔ x = r.id ∨ x ∈ r.peers := by
  rw [← routed.members, List.mem_cons]

theorem Routed.operate (routed : r.Routed c start) (now : Nat) {input : Node.Input}
    (named : ∀ message x, input = .receive message → message.sender? = some x → x ∈ c.names) :
    (r.absorb (r.node.step now input)).Routed c start := by
  refine ⟨?_, routed.bearings.step now named, fun x message mem => ?_⟩
  · show (r.node.step now input).1.id :: r.peers = c.names
    rw [(r.node.step_roles now input).id]
    exact routed.members
  · rcases List.mem_append.1 mem with old | new
    · exact routed.unicast x message old
    · exact routed.bearings.unicast named new

/-- **Each change turns to members only.** -/
theorem Routed.change {taken : List Message} (routed : r.Routed c start)
    (change : Change r taken t) : t.Routed c start := by
  cases change with
  | aside same =>
    refine ⟨?_, same.node ▸ routed.bearings, same.queue ▸ routed.unicast⟩
    rw [id, same.node, same.peers]
    exact routed.members
  | operate now internal =>
    exact routed.operate now fun message x received => absurd received (internal message)
  | @hear now message known =>
    refine routed.operate now fun m x received sender => ?_
    cases received
    exact routed.members ▸ member_of_knows known sender
  | take queued | resolve queued =>
    refine ⟨routed.members, routed.bearings, fun x message mem => ?_⟩
    exact routed.unicast x message (queued ▸ List.mem_cons_of_mem _ mem)

theorem Life.routed {s : Store} {r₀ : Replica} (started : Replica.start c s start = .ok r₀)
    (life : Life r₀ log r) : r.Routed c start := by
  have fresh : r₀.Routed c start := by
    have own : c.setup.id ∈ c.names := List.mem_cons_self
    rw [start_eq started]
    exact ⟨rfl, Node.resume_bearings own start s.saved, by simp⟩
  refine life.keeps (I := fun _ r => r.Routed c start) (fun past r taken t change kept => ?_) fresh
  exact kept.change change

/-- A node still takes a stranger for the leader, as it was started to, and has not waited for it
for longer than the timeout. -/
def Misled (c : Config) (start : Nat) (r : Replica) (now : Nat) : Prop :=
  ∃ x, c.cluster.leader = some x ∧ x ∉ c.names ∧ r.node.leader = some x ∧
    now ≤ start + c.cluster.heartbeatTimeout

theorem forwardTarget?_eq_some {x : NodeId} : r.forwardTarget? now = some x ↔
    r.node.leader = some x ∧ x ≠ r.id ∧ r.node.leaderAlive now = true := by
  unfold forwardTarget?
  cases r.node.leader with
  | none => simp
  | some leader =>
    simp only [Option.ite_none_right_eq_some, Option.some.injEq]
    constructor
    · rintro ⟨⟨other, alive⟩, rfl⟩
      exact ⟨rfl, other, alive⟩
    · rintro ⟨rfl, other, alive⟩
      exact ⟨⟨other, alive⟩, rfl⟩

/-- A client's value is forwarded, or else proposed. -/
theorem handle_propose (r : Replica) (now : Nat) (v : Value) : r.handle now (.propose v) =
    match r.forwardTarget? now with
    | some x => r.deliver x (.propose v)
    | none => r.absorb (r.node.propose v) := rfl

/-- A stranger that is taken for a live leader is the one that the replica was started to know, and
counts as alive for the timeout since then. -/
theorem Routed.stranger_alive_iff (routed : r.Routed c start) {x : NodeId} (stranger : x ∉ c.names)
    (known : r.node.leader = some x) (now : Nat) :
    c.cluster.leader = some x ∧
      (r.node.leaderAlive now = true ↔ now ≤ start + c.cluster.heartbeatTimeout) := by
  obtain ⟨told, -, since⟩ := (routed.bearings.leader x known).resolve_left stranger
  have timeout : r.node.timing.heartbeatTimeout = c.cluster.heartbeatTimeout :=
    congrArg Timing.heartbeatTimeout routed.bearings.timing
  refine ⟨told, ?_⟩
  rw [Node.leaderAlive, decide_eq_true_iff, since, timeout]
  omega

/-- A value is forwarded to a stranger if the node is misled, and only then. -/
theorem Routed.misled_iff (routed : r.Routed c start) (now : Nat) :
    r.Misled c start now ↔ ∃ x, r.forwardTarget? now = some x ∧ x ∉ c.names := by
  constructor
  · rintro ⟨x, -, stranger, known, early⟩
    have other : x ≠ r.id := fun own => stranger (routed.mem_names.2 (.inl own))
    have alive := (routed.stranger_alive_iff stranger known now).2.2 early
    exact ⟨x, forwardTarget?_eq_some.2 ⟨known, other, alive⟩, stranger⟩
  · rintro ⟨x, target, stranger⟩
    obtain ⟨known, -, alive⟩ := forwardTarget?_eq_some.1 target
    obtain ⟨told, alive_iff⟩ := routed.stranger_alive_iff stranger known now
    exact ⟨x, told, stranger, known, alive_iff.1 alive⟩

/-- **Every message has a route, unless the node is misled.**  What a replica has for one node
alone is for itself or for a peer.  A client's value is proposed by its node or goes to a peer;
but it is lost, with all else as it was, if the node takes a stranger for the leader, since the
configuration names it, and not longer than the timeout after the start. -/
theorem routed_unless_misled {s : Store} {r₀ : Replica}
    (started : Replica.start c s start = .ok r₀) (life : Life r₀ log r) :
    (∀ x message, .unicast x message ∈ r.queue → x = r.id ∨ x ∈ r.peers) ∧
    (∀ now x, r.forwardTarget? now = some x → x ∈ r.peers ∨ r.Misled c start now) ∧
    ∀ now v,
      (r.Misled c start now → r.handle now (.propose v) = r) ∧
      (¬ r.Misled c start now →
        r.handle now (.propose v) = r.absorb (r.node.propose v) ∨
        ∃ x ∈ r.peers, r.handle now (.propose v) =
          { r with sent := r.sent ++ [{ recipient := x, message := .propose v }] }) := by
  have routed := life.routed started
  have other {now : Nat} {x : NodeId} (target : r.forwardTarget? now = some x) : x ≠ r.id :=
    (forwardTarget?_eq_some.1 target).2.1
  have peer_or_misled (now : Nat) (x : NodeId) (target : r.forwardTarget? now = some x) :
      x ∈ r.peers ∨ r.Misled c start now := by
    by_cases member : x ∈ c.names
    · exact .inl ((routed.mem_names.1 member).resolve_left (other target))
    · exact .inr ((routed.misled_iff now).2 ⟨x, target, member⟩)
  refine ⟨fun x message mem => routed.mem_names.1 (routed.unicast x message mem), peer_or_misled,
    fun now v => ⟨fun misled => ?_, fun sane => ?_⟩⟩
  · obtain ⟨x, target, stranger⟩ := (routed.misled_iff now).1 misled
    have unknown : x ∉ r.peers := fun known => stranger (routed.mem_names.2 (.inr known))
    rw [handle_propose, target]
    simp only [deliver, if_neg (other target), if_neg unknown]
  · rw [handle_propose]
    cases target : r.forwardTarget? now with
    | none => exact .inl rfl
    | some x =>
      have known : x ∈ r.peers := (peer_or_misled now x target).resolve_right sane
      refine .inr ⟨x, known, ?_⟩
      simp only [deliver, if_neg (other target), if_pos known]

/-- A trio that `x` is to lead, though no member is called so. -/
def strangerTrio : Config :=
  { trio with cluster := { trio.cluster with leader := some "x" } }

/-- A new node of that trio. -/
def strangerLed : Replica where
  node := .start strangerTrio.setup 0
  store := {}
  peers := ["b", "c"]

/-- The node has promised `b` a ballot, and the promise has a route.  A value is lost as long as `x`
counts as alive, and is proposed from then on. -/
theorem routed_unless_misled_promised :
    let r := (strangerLed.act 1000 (.receive (.prepare "b" ⟨1, "b"⟩))).persist
    r.queue = [.unicast "b" (.promise "a" ⟨1, "b"⟩ none none)] ∧ ("b" = r.id ∨ "b" ∈ r.peers) ∧
      r.handle 1500 (.propose "v") = r ∧
      r.handle 1501 (.propose "v") = r.absorb (r.node.propose "v") := by
  intro r
  have started : Replica.start strangerTrio {} 0 = .ok strangerLed := rfl
  have life : Life strangerLed _ r :=
    (Life.begin.input 1000 (.receive (.prepare "b" ⟨1, "b"⟩))).save
  have queued : r.queue = [.unicast "b" (.promise "a" ⟨1, "b"⟩ none none)] := by decide +kernel
  obtain ⟨routes, -, values⟩ := routed_unless_misled started life
  have misled : r.Misled strangerTrio 0 1500 :=
    ⟨"x", rfl, by decide +kernel, by decide +kernel, by decide +kernel⟩
  have sane : ¬ r.Misled strangerTrio 0 1501 := fun ⟨x, told, stranger, known, early⟩ =>
    absurd early (by decide +kernel)
  refine ⟨queued, routes "b" _ (by rw [queued]; exact List.mem_cons_self),
    (values 1500 "v").1 misled, ?_⟩
  rcases (values 1501 "v").2 sane with own | ⟨x, -, sent⟩
  · exact own
  · have unsent : (r.handle 1501 (.propose "v")).sent = [] := by decide +kernel
    rw [sent] at unsent
    simp at unsent

/-- The configuration is valid, and the first value that a client sends is neither proposed nor
sent to a peer. -/
theorem strangerLed_loses_value :
    let t := strangerLed.step 0 (.receive (.propose "v"))
    strangerTrio.validate = .ok strangerTrio ∧
      Replica.start strangerTrio {} 0 = .ok strangerLed ∧
      strangerLed.forwardTarget? 0 = some "x" ∧ "x" ≠ strangerLed.id ∧ "x" ∉ strangerLed.peers ∧
      t.node.proposer.proposal = none ∧ t.sent = [] ∧ t.queue = [] ∧ t.loopback = [] :=
  ⟨rfl, rfl, by decide +kernel⟩

end Replica

end Synod
