/-
Synod.Proofs.Loss -- what losses leave of a round

One node prepares a ballot, once, and is given a value, before or after.  Whatever is lost, the
rest belongs to the round: an acceptor and a learner hear of nothing else, and the proposer is
the round's proposer as soon as it has its value (`Proposer.Aims`).  Pulses and repeated requests
change none of that.

`Spread` says so of all nodes and of what is in flight.  Every input of the round keeps it
(`Spread.exchange`), and so does every loss (`Spread.mono`).
-/
import Synod.Proofs.Course

namespace Synod

set_option autoImplicit false

/-! ## A proposer that may wait for its value -/

namespace Proposer

variable {quorum : Nat} {b : Ballot} {v : Value} {waits : Prop} {p : Proposer}

/-- The proposer with this proposal. -/
def proposing (w : Option Value) (p : Proposer) : Proposer := { p with proposal := w }

/-- A proposer has its value, or waits for it. -/
def Aims (waits : Prop) (v : Value) (p : Proposer) : Prop :=
  p.proposal = some v ∨ waits ∧ p.proposal = none

/-- What the owner of the ballot may be told. -/
def Input.Tried (b : Ballot) (v : Value) : Input → Prop
  | .promise _ c _ value => c = b ∧ (value = none ∨ value = some v)
  | .propose w => w = v
  | .resend => True
  | _ => False

theorem Aims.mono {waits' : Prop} (aims : p.Aims waits v) (still : waits → waits') :
    p.Aims waits' v :=
  aims.imp_right fun unset => ⟨still unset.1, unset.2⟩

theorem propose_proposing (p : Proposer) (v : Value) :
    (p.propose v).1.proposing (some v) = p.proposing (some v) := by
  unfold Proposer.propose
  split <;> rfl

theorem Aims.propose (aims : p.Aims waits v) : (p.propose v).1.proposal = some v := by
  unfold Proposer.propose
  rcases aims with value | ⟨-, unset⟩
  · simp [value]
  · simp [unset]

/-- Where every vote that is reported is for `v`, promises give a proposer no other value. -/
theorem Aims.receivePromise (aims : p.Aims waits v) (source : NodeId) (vote : Option Ballot)
    {value : Option Value} (reported : value = none ∨ value = some v) :
    (p.receivePromise source p.ballot vote value).1.Aims waits v ∧
      (p.receivePromise source p.ballot vote value).1.proposing (some v) =
        ((p.proposing (some v)).receivePromise source p.ballot vote value).1 := by
  have stays : p.observe p.ballot = p := p.observe_own
  have stays' : (p.proposing (some v)).observe p.ballot = p.proposing (some v) :=
    observe_own (p.proposing (some v))
  rw [receivePromise_eq, receivePromise_eq, stays, stays']
  have alike : (p.proposing (some v)).Counts source p.ballot ↔ p.Counts source p.ballot := Iff.rfl
  simp only [alike]
  split
  · refine ⟨?_, ?_⟩
    · show (if p.highestVote < vote then value.or p.proposal else p.proposal) = some v ∨
        waits ∧ (if p.highestVote < vote then value.or p.proposal else p.proposal) = none
      split
      · rcases reported with rfl | rfl
        · exact aims
        · exact .inl rfl
      · exact aims
    · have same : some v = if p.highestVote < vote then value.or (some v) else some v := by
        rcases reported with rfl | rfl <;> simp
      exact congrArg (fun w => (p.counted source vote value).proposing w) same
  · exact ⟨aims, rfl⟩

/-- **The owner of the ballot stays in the round**, but for its value. -/
theorem Aims.step (aims : p.Aims waits v) (inRound : (p.proposing (some v)).InRound quorum b v)
    {o : Input} (tried : o.Tried b v) :
    (p.step o).1.Aims waits v ∧ ((p.step o).1.proposing (some v)).InRound quorum b v ∧
      ∀ e ∈ (p.step o).2, e.InRound b v b.owner := by
  have ballot : p.ballot = b := inRound.ballot
  have after : (p.step o).1.Aims waits v ∧
      ((p.step o).1.proposing (some v)).InRound quorum b v := by
    cases o with
    | promise source c vote value =>
      obtain ⟨rfl, reported⟩ := tried
      obtain ⟨still, same⟩ := aims.receivePromise source vote reported
      rw [ballot] at still same
      refine ⟨still, ?_⟩
      show ((p.receivePromise source c vote value).1.proposing (some v)).InRound quorum c v
      rw [same]
      exact (inRound.receivePromise source vote reported).1
    | propose w =>
      cases tried
      refine ⟨.inl aims.propose, ?_⟩
      show ((p.propose v).1.proposing (some v)).InRound quorum b v
      rwa [propose_proposing]
    | resend => exact ⟨aims, inRound⟩
    | _ => exact tried.elim
  refine ⟨after.1, after.2, fun e sent => ?_⟩
  have speaks := p.step_speaks o e sent
  cases e with
  | prepare c =>
    obtain ⟨-, fresh, rfl⟩ := step_prepare sent
    exact tried.elim
  | accept c w =>
    obtain ⟨-, here, proposal⟩ := step_accept sent
    have there : (p.step o).1.ballot = b := after.2.ballot
    refine ⟨rfl, here.symm.trans there, ?_⟩
    rcases after.1 with value | ⟨-, unset⟩
    · rw [value, Option.some.injEq] at proposal
      exact proposal.symm
    · rw [unset] at proposal
      cases proposal
  | leadershipAcquired => trivial
  | _ => exact speaks.elim

theorem Aims.run (aims : p.Aims waits v) (inRound : (p.proposing (some v)).InRound quorum b v)
    {orders : List Input} (tried : ∀ o ∈ orders, o.Tried b v) :
    (p.run orders).1.Aims waits v ∧ ((p.run orders).1.proposing (some v)).InRound quorum b v ∧
      ∀ e ∈ (p.run orders).2, e.InRound b v b.owner := by
  induction orders generalizing p with
  | nil => exact ⟨aims, inRound, by simp [Proposer.run]⟩
  | cons o rest ih =>
    obtain ⟨first, inside, sent⟩ := aims.step inRound (tried o List.mem_cons_self)
    obtain ⟨last, within, more⟩ := ih first inside fun o mem => tried o (List.mem_cons_of_mem _ mem)
    refine ⟨last, within, fun e mem => ?_⟩
    rcases List.mem_append.1 mem with old | new
    · exact sent e old
    · exact more e new

end Proposer

/-! ## Nodes of the round -/

namespace Node

variable {quorum : Nat} {b : Ballot} {v : Value} {waits : Prop} {n : Node} {now : Nat}
  {input : Input}

/-- The node with this proposal. -/
def proposing (w : Option Value) (n : Node) : Node :=
  { n with proposer := n.proposer.proposing w }

/-- What may happen to a node: something of the round, a pulse, or its value. -/
def Input.Tried (b : Ballot) (v : Value) (self : NodeId) (input : Input) : Prop :=
  input.InRound b v self ∨ input = .pulse ∨ input = .resend ∨ self = b.owner ∧ input = .propose v

theorem Input.Tried.roles (tried : input.Tried b v n.id) :
    Acceptor.Ordered b v (acceptorOrder input) ∧
      (learnerOrder input = none ∨ ∃ source, learnerOrder input = some (.accepted source b v)) := by
  rcases tried with given | rfl | rfl | ⟨-, rfl⟩
  · exact ⟨given.ordered, given.told⟩
  · exact ⟨.nothing, .inl rfl⟩
  · exact ⟨.nothing, .inl rfl⟩
  · exact ⟨.nothing, .inl rfl⟩

theorem Input.Tried.orders (tried : input.Tried b v n.id)
    (inRound : (n.proposing (some v)).InRound quorum b v) :
    ∀ o ∈ n.orders now input, o.Tried b v := by
  intro o mem
  rcases tried with given | rfl | rfl | ⟨-, rfl⟩
  · have alike : (n.proposing (some v)).orders now input = n.orders now input := rfl
    obtain ⟨-, source, vote, value, rfl, reported⟩ := inRound.orders now given o (alike ▸ mem)
    exact ⟨rfl, reported⟩
  · cases mem
  · cases List.mem_singleton.1 mem
    trivial
  · cases List.mem_singleton.1 mem
    rfl

/-- **The owner of the ballot stays in the round**, whatever is lost. -/
theorem owner_step (own : n.id = b.owner) (inRound : (n.proposing (some v)).InRound quorum b v)
    (aims : n.proposer.Aims waits v) (valid : b.Valid) (tried : input.Tried b v n.id) :
    ((n.step now input).1.proposing (some v)).InRound quorum b v ∧
      (n.step now input).1.proposer.Aims waits v ∧
      ∀ e ∈ (n.step now input).2, e.InRound b v b.owner := by
  obtain ⟨id, acceptor, proposer, learner, electoral, reports, effects⟩ := n.step_roles now input
  obtain ⟨asked, told⟩ := tried.roles
  obtain ⟨promising, replies, -⟩ := inRound.acceptor.heed valid now asked
  obtain ⟨learning, -⟩ := inRound.learner.heed valid told
  obtain ⟨still, running, requests⟩ := aims.run (inRound.runner own) (tried.orders inRound)
  refine ⟨⟨?_, ?_, fun _ => ?_, fun foreign => absurd (id.trans own) foreign⟩, ?_, ?_⟩
  · show (n.step now input).1.acceptor.InRound b v
    rw [acceptor]
    exact promising
  · show (n.step now input).1.learner.InRound quorum b v
    rw [learner]
    exact learning
  · show ((n.step now input).1.proposer.proposing (some v)).InRound quorum b v
    rw [proposer]
    exact running
  · rw [proposer]
    exact still
  · intro e sent
    rw [effects] at sent
    simp only [List.mem_append] at sent
    rcases sent with ((reply | request) | decision) | report
    · exact replies _ e reply
    · exact requests e request
    · obtain ⟨_, _, rfl⟩ := n.learner.heed_resolved _ e decision
      trivial
    · have electoral := reports e report
      cases e with
      | heartbeat leader c => exact electoral.trans own
      | leadershipAcquired | leadershipLost | leaderChanged => trivial
      | _ => exact electoral.elim

/-- Nobody else pulses, or asks for votes again. -/
theorem other_step (foreign : n.id ≠ b.owner) (inRound : n.InRound quorum b v) (valid : b.Valid)
    (tried : input.Tried b v n.id) :
    (n.step now input).1.InRound quorum b v ∧
      ∀ e ∈ (n.step now input).2, e.InRound b v n.id := by
  have follows : n.leading = false := inRound.follower foreign
  rcases tried with given | rfl | rfl | ⟨own, -⟩
  · have proceeds := inRound.step valid now given
    exact ⟨proceeds.inRound, proceeds.effects⟩
  · have silent : n.step now .pulse = (n, []) := by
      simp [step, pulse, follows]
    rw [silent]
    exact ⟨inRound, by simp⟩
  · have silent : n.step now .resend = (n, []) := by
      have idle : n.proposer.leader = false := follows
      simp [step, resend, Proposer.resend, idle]
    rw [silent]
    exact ⟨inRound, by simp⟩
  · exact absurd own foreign

end Node

/-! ## What is left of the round -/

section Spread

variable {quorum : Nat} {names : List NodeId} {b : Ballot} {v : Value} {waits : Prop}
  {node : NodeId → Node} {flight flight' base : List Envelope} {x : NodeId} {now : Nat}
  {input : Node.Input}

/-- The nodes and the traffic of a round whose owner has its value, or waits for it. -/
structure Spread (quorum : Nat) (names : List NodeId) (b : Ballot) (v : Value) (waits : Prop)
    (node : NodeId → Node) (flight : List Envelope) : Prop where
  course : Course quorum names b v
    (Function.update node b.owner ((node b.owner).proposing (some v))) flight
  aims : (node b.owner).proposer.Aims waits v

theorem Spread.mono (spread : Spread quorum names b v waits node flight) {waits' : Prop}
    (still : waits → waits') (fewer : flight' ⊆ flight) :
    Spread quorum names b v waits' node flight' where
  course :=
    { named := spread.course.named
      inRound := spread.course.inRound
      traffic := fun e mem => spread.course.traffic e (fewer mem) }
  aims := spread.aims.mono still

/-- When the owner has its value, everybody is in the round. -/
theorem Spread.settled (spread : Spread quorum names b v False node flight) :
    Course quorum names b v node flight := by
  have value : (node b.owner).proposer.proposal = some v :=
    spread.aims.resolve_right And.left
  have same : (node b.owner).proposing (some v) = node b.owner := by
    rw [← value]
    rfl
  have course := spread.course
  rwa [same, Function.update_eq_self] at course

/-- **What is left stays in the round**, whatever is lost. -/
theorem Spread.exchange (spread : Spread quorum names b v waits node flight) (valid : b.Valid)
    (owner : b.owner ∈ names) (member : x ∈ names) (tried : input.Tried b v x)
    (exchange : Exchange names x input ((node x).step now input).2 flight flight') :
    Spread quorum names b v waits
      (Function.update node x ((node x).step now input).1) flight' := by
  have named := spread.course.named x member
  have inRound := spread.course.inRound x member
  have id := ((node x).step_roles now input).id
  by_cases own : x = b.owner
  · subst own
    rw [Function.update_self] at named inRound
    have named : (node b.owner).id = b.owner := named
    obtain ⟨kept, aims, effects⟩ :=
      Node.owner_step named inRound spread.aims valid (named.symm ▸ tried)
    refine ⟨?_, ?_⟩
    · rw [Function.update_self, Function.update_idem]
      have course := spread.course.exchange owner
        (r := (((node b.owner).step now input).1.proposing (some v),
          ((node b.owner).step now input).2)) (id.trans named) kept effects exchange
      rwa [Function.update_idem] at course
    · rw [Function.update_self]
      exact aims
  · rw [Function.update_of_ne own] at named inRound
    have foreign : (node x).id ≠ b.owner := fun same => own (named.symm.trans same)
    obtain ⟨kept, effects⟩ : ((node x).step now input).1.InRound quorum b v ∧ _ :=
      Node.other_step foreign inRound valid (named.symm ▸ tried)
    rw [named] at effects
    refine ⟨?_, ?_⟩
    · rw [Function.update_of_ne (Ne.symm own), Function.update_comm own]
      exact spread.course.exchange owner (id.trans named) kept effects exchange
    · rw [Function.update_of_ne (Ne.symm own)]
      exact spread.aims

theorem spread_steady (valid : b.Valid) (owner : b.owner ∈ names) :
    Steady names b v (Spread quorum names b v waits) where
  traffic spread := spread.course.traffic
  step _ spread member given exchange := spread.exchange valid owner member (.inl given) exchange
  same spread same := spread.mono (fun waiting => waiting) fun e mem => (same e).2 mem

/-- One input of a member's node. -/
theorem Spread.absorb {m : Member} (valid : b.Valid) (owner : b.owner ∈ names) (id : m.node.id = x)
    (member : x ∈ names) (tried : input.Tried b v x) (now : Nat)
    (spread : Spread quorum names b v waits (Function.update node x m.node)
      (base ++ m.envelopes names)) :
    Spread quorum names b v waits
      (Function.update node x (m.absorb (m.node.step now input)).node)
      (base ++ (m.absorb (m.node.step now input)).envelopes names) := by
  have exchange : Exchange names x input (m.node.step now input).2 (base ++ m.envelopes names)
      (base ++ (m.absorb (m.node.step now input)).envelopes names) :=
    Member.exchange id _ (fun _ mem => .inl mem) (List.Subset.refl _)
  have self : Function.update node x m.node x = m.node := Function.update_self ..
  have stepped := spread.exchange valid owner member tried (self.symm ▸ exchange)
  rwa [self, Function.update_idem] at stepped

/-- A pulse, with the request for votes again. -/
theorem Spread.absorb_pulse {m : Member} (valid : b.Valid) (owner : b.owner ∈ names)
    (member : m.node.id ∈ names) (now : Nat)
    (spread : Spread quorum names b v waits (Function.update node m.node.id m.node)
      (base ++ m.envelopes names)) :
    Spread quorum names b v waits
      (Function.update node m.node.id
        (m.absorb (let r := m.node.pulse now; (r.1, r.2 ++ r.1.resend))).node)
      (base ++ (m.absorb (let r := m.node.pulse now; (r.1, r.2 ++ r.1.resend))).envelopes
        names) := by
  rw [Cluster.absorb_pulse]
  have id : (m.absorb (m.node.step now .pulse)).node.id = m.node.id :=
    (m.node.step_roles now .pulse).id
  have pulsed := spread.absorb valid owner rfl member (.inr (.inl rfl)) now
  exact pulsed.absorb valid owner id member (.inr (.inr (.inl rfl))) now

end Spread

end Synod
