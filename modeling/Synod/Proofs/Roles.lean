/-
Synod.Proofs.Roles -- a node is three roles and an election

What an input does to a node is what it makes of the node's roles: an order to the
acceptor or to the learner, or a few orders to the proposer (`orders`).  `step_roles`
says so, once for all inputs.  An election adds reports of its own, and heartbeats
under the node's name, but neither requests nor replies.

A message in the node's own name leaves the proposer as it is: a node
does not give way to itself (`not_yields_self`).
-/
import Synod.Node
import Synod.Outbound
import Synod.Proofs.Proposer
import Synod.Proofs.Voter

namespace Synod

set_option autoImplicit false

/-! ## Orders -/

/-- Reports of an election, and heartbeats in one's own name. -/
def Effect.Electoral (self : NodeId) : Effect → Prop
  | .heartbeat leader _ => leader = self
  | .leadershipAcquired | .leadershipLost | .leaderChanged _ _ => True
  | _ => False

def Proposer.run (p : Proposer) : List Proposer.Input → Proposer × List Effect
  | [] => (p, [])
  | order :: rest =>
    let r := p.step order
    let s := r.1.run rest
    (s.1, r.2 ++ s.2)

/-- Makes a proposer follow others, or give way to them. -/
def Proposer.Input.Subdues : Proposer.Input → Prop
  | .observe _ | .acceptNack .. | .setLeader _ => True
  | _ => False

theorem Proposer.run_speaks (p : Proposer) (orders : List Proposer.Input) :
    ∀ e ∈ (p.run orders).2, Proposer.Speaks e := by
  induction orders generalizing p with
  | nil => simp [run]
  | cons o rest ih =>
    intro e mem
    rcases List.mem_append.1 mem with mem | mem
    · exact p.step_speaks o e mem
    · exact ih (p.step o).1 e mem

theorem Proposer.run_subdued {p : Proposer} {orders : List Proposer.Input}
    (subdued : ∀ o ∈ orders, o.Subdues) : (p.run orders).2 = [] := by
  induction orders generalizing p with
  | nil => rfl
  | cons o rest ih =>
    have silent : (p.step o).2 = [] := by
      have first := subdued o List.mem_cons_self
      cases o <;> first | rfl | exact first.elim
    show (p.step o).2 ++ ((p.step o).1.run rest).2 = []
    rw [silent, ih fun o mem => subdued o (List.mem_cons_of_mem _ mem)]
    rfl

namespace Node

/-- What an input orders the acceptor to do. -/
def acceptorOrder : Input → Option Acceptor.Input
  | .receive (.prepare source b) => some (.prepare source b)
  | .receive (.accept source b v) => some (.accept source b v)
  | .persisted => some .persisted
  | .recover s => some (.recover s)
  | .setActive on => some (.setActive on)
  | _ => none

/-- What an input orders the learner to do. -/
def learnerOrder : Input → Option Learner.Input
  | .receive (.accepted source b v) => some (.accepted source b v)
  | .setActive on => some (.setActive on)
  | _ => none

/-- Whether a heartbeat ends this node's leadership. -/
def Yields (n : Node) (source : NodeId) (b : Ballot) : Prop :=
  b.Valid ∧ Ballot.Exceeds (some b) n.leaderBallot ∧ n.leading = true ∧ source ≠ n.id

instance (n : Node) (source : NodeId) (b : Ballot) : Decidable (n.Yields source b) :=
  inferInstanceAs (Decidable (_ ∧ _))

/-- Whether a rejection ends this node's leadership. -/
def Resigns (n : Node) (source : NodeId) (b promised : Ballot) : Prop :=
  n.leading = true ∧ n.proposer.quorum ≤ (n.noteRejection source b promised).rejections.length

instance (n : Node) (source : NodeId) (b promised : Ballot) :
    Decidable (n.Resigns source b promised) :=
  inferInstanceAs (Decidable (_ ∧ _))

/-- What an input orders the proposer to do. -/
def orders (n : Node) (now : Nat) : Input → List Proposer.Input
  | .prepare fresh => [.prepare fresh]
  | .propose v | .receive (.propose v) => [.propose v]
  | .resend => [.resend]
  | .pollLiveness =>
    if n.leaderAlive now = true ∨ n.prepareExpired now = false then [] else [.prepare true]
  | .acquire => if n.leaderAlive now then [] else [.prepare true]
  | .receive (.promise source b accepted value) => [.promise source b accepted value]
  | .receive (.prepareNack source b promised) => [.prepareNack source b promised]
  | .receive (.acceptNack source b promised) =>
    .acceptNack source b promised ::
      if n.Resigns source b promised then [.setLeader false, .observe promised] else []
  | .receive (.heartbeat source b) =>
    if n.Yields source b then [.setLeader false, .observe b] else []
  | .recover s =>
    match s.promised with
    | some b => [.setLeader false, .observe b]
    | none => []
  | .setActive on => [.setActive on]
  | .pulse | .persisted | .receive (.prepare ..) | .receive (.accept ..)
  | .receive (.accepted ..) => []

/-- An input makes a proposer leader only by promises. -/
theorem orders_elected (n : Node) (now : Nat) (input : Input) :
    .setLeader true ∉ n.orders now input := by
  unfold orders
  split <;> (try split) <;> simp

/-- A promise is counted as it is received, and alone. -/
theorem orders_promise {n : Node} {now : Nat} {input : Input} {source : NodeId} {b : Ballot}
    {accepted : Option Ballot} {value : Option Value}
    (mem : .promise source b accepted value ∈ n.orders now input) :
    input = .receive (.promise source b accepted value) := by
  unfold orders at mem
  split at mem <;> (try split at mem) <;> simp_all

end Node

/-! ## Replies and decisions -/

/-- What an acceptor answers. -/
def Effect.Reply : Effect → Prop
  | .promise .. | .accepted .. | .prepareNack .. | .acceptNack .. => True
  | _ => False

theorem Acceptor.Move.replies {a next : Acceptor} {now : Nat} {order : Acceptor.Input}
    {effects : List Effect} (move : Move a now order next effects) : ∀ e ∈ effects, e.Reply := by
  intro e mem
  cases move with
  | repeatPromise | rejectPrepare | repeatVote | rejectAccept =>
    rw [List.mem_singleton.1 mem]
    trivial
  | release =>
    split at mem
    · rcases List.mem_append.1 mem with held | held
      · obtain ⟨_, _, -, -, rfl⟩ := mem_heldPromise held
        trivial
      · obtain ⟨_, _, _, -, -, -, rfl⟩ := mem_heldVote held
        trivial
    · cases mem
  | _ => cases mem

theorem Acceptor.step_replies (a : Acceptor) (now : Nat) (order : Acceptor.Input) :
    ∀ e ∈ (a.step now order).2, e.Reply := by
  by_cases ordinary : order.Ordinary
  · exact (a.step_move now ordinary).replies
  · cases order with
    | recover s => simp [step]
    | _ => exact absurd trivial ordinary

theorem Learner.step_resolved (l : Learner) (order : Learner.Input) :
    ∀ e ∈ (l.step order).2, ∃ b v, e = .resolved b v := by
  intro e mem
  cases order with
  | accepted source b v =>
    simp only [step, receiveAccepted] at mem
    split at mem
    · simp at mem
    · split at mem
      · exact ⟨_, _, List.mem_singleton.1 mem⟩
      · simp at mem
  | setActive on => simp [step] at mem

def Acceptor.heed (a : Acceptor) (now : Nat) : Option Acceptor.Input → Acceptor × List Effect
  | some order => a.step now order
  | none => (a, [])

def Learner.heed (l : Learner) : Option Learner.Input → Learner × List Effect
  | some order => l.step order
  | none => (l, [])

theorem Acceptor.heed_replies (a : Acceptor) (now : Nat) (order : Option Acceptor.Input) :
    ∀ e ∈ (a.heed now order).2, e.Reply := by
  cases order with
  | none => simp [heed]
  | some order => exact a.step_replies now order

theorem Learner.heed_resolved (l : Learner) (order : Option Learner.Input) :
    ∀ e ∈ (l.heed order).2, ∃ b v, e = .resolved b v := by
  cases order with
  | none => simp [heed]
  | some order => exact l.step_resolved order

namespace Node

/-! ## What a step is made of -/

/-- The result of these orders to a node's roles. -/
structure Heeds (n : Node) (now : Nat) (toAcceptor : Option Acceptor.Input)
    (toProposer : List Proposer.Input) (toLearner : Option Learner.Input)
    (r : Node × List Effect) : Prop where
  id : r.1.id = n.id
  acceptor : r.1.acceptor = (n.acceptor.heed now toAcceptor).1
  proposer : r.1.proposer = (n.proposer.run toProposer).1
  learner : r.1.learner = (n.learner.heed toLearner).1
  effects : ∃ electoral, (∀ e ∈ electoral, e.Electoral n.id) ∧
    r.2 = (n.acceptor.heed now toAcceptor).2 ++ (n.proposer.run toProposer).2 ++
      (n.learner.heed toLearner).2 ++ electoral

/-- One order to the proposer is all that happens. -/
theorem heeds_proposer {n : Node} {now : Nat} {order : Proposer.Input} {r : Node × List Effect}
    (id : r.1.id = n.id) (acceptor : r.1.acceptor = n.acceptor)
    (proposer : r.1.proposer = (n.proposer.step order).1) (learner : r.1.learner = n.learner)
    (effects : r.2 = (n.proposer.step order).2) : Heeds n now none [order] none r :=
  ⟨id, acceptor, proposer, learner, [], by simp,
    by simp [Acceptor.heed, Learner.heed, Proposer.run, effects]⟩

/-- Nothing happens that concerns a role. -/
theorem heeds_nothing {n m : Node} {now : Nat} (id : m.id = n.id)
    (acceptor : m.acceptor = n.acceptor) (proposer : m.proposer = n.proposer)
    (learner : m.learner = n.learner) : Heeds n now none [] none (m, []) :=
  ⟨id, acceptor, proposer, learner, [], by simp, rfl⟩

theorem follow_heeds (n : Node) (now : Nat) (source : NodeId) (b : Ballot) :
    Heeds n now none
      (if n.leading = true ∧ source ≠ n.id then [.setLeader false, .observe b] else []) none
      (n.follow source b) := by
  have report : ∀ e ∈ (if n.leader = some source then ([] : List Effect)
      else [.leaderChanged n.leader (some source)]), e.Electoral n.id := by
    split <;> simp [Effect.Electoral]
  by_cases deposed : n.leading = true ∧ source ≠ n.id
  · have result : n.follow source b = _ := if_pos deposed
    rw [if_pos deposed, result]
    refine ⟨rfl, rfl, rfl, rfl, _, ?_, rfl⟩
    intro e mem
    rcases List.mem_cons.1 mem with rfl | mem
    · trivial
    · exact report e mem
  · have result : n.follow source b = _ := if_neg deposed
    rw [if_neg deposed, result]
    exact ⟨rfl, rfl, rfl, rfl, _, report, rfl⟩

theorem refresh_keeps (n : Node) (now : Nat) (b : Ballot) :
    (n.refresh now b).id = n.id ∧ (n.refresh now b).acceptor = n.acceptor ∧
      (n.refresh now b).proposer = n.proposer ∧ (n.refresh now b).learner = n.learner := by
  unfold refresh
  split <;> exact ⟨rfl, rfl, rfl, rfl⟩

theorem receiveHeartbeat_heeds (n : Node) (now : Nat) (source : NodeId) (b : Ballot) :
    Heeds n now none (if n.Yields source b then [.setLeader false, .observe b] else []) none
      (n.receiveHeartbeat now source b) := by
  unfold receiveHeartbeat
  by_cases valid : b.Valid
  · rw [if_pos valid]
    by_cases higher : Ballot.Exceeds (some b) n.leaderBallot
    · have yields : n.Yields source b ↔ n.leading = true ∧ source ≠ n.id :=
        ⟨fun h => ⟨h.2.2.1, h.2.2.2⟩, fun h => ⟨valid, higher, h.1, h.2⟩⟩
      obtain ⟨id, acceptor, proposer, learner, effects⟩ := n.follow_heeds now source b
      rw [if_congr yields rfl rfl]
      simp only [if_pos higher]
      obtain ⟨id', acceptor', proposer', learner'⟩ := (n.follow source b).1.refresh_keeps now b
      exact ⟨id'.trans id, acceptor'.trans acceptor, proposer'.trans proposer,
        learner'.trans learner, effects⟩
    · rw [if_neg fun yields => higher yields.2.1]
      simp only [if_neg higher]
      obtain ⟨id, acceptor, proposer, learner⟩ := n.refresh_keeps now b
      exact heeds_nothing id acceptor proposer learner
  · rw [if_neg valid, if_neg fun yields => valid yields.1]
    exact heeds_nothing rfl rfl rfl rfl

/-- A node does not give way to itself. -/
theorem not_yields_self (n : Node) (b : Ballot) : ¬ n.Yields n.id b := fun h => h.2.2.2 rfl

theorem pulse_heeds (n : Node) (now : Nat) : Heeds n now none [] none (n.pulse now) := by
  unfold pulse
  split
  · obtain ⟨id, acceptor, proposer, learner, electoral, reports, effects⟩ :=
      n.receiveHeartbeat_heeds now n.id n.proposer.ballot
    rw [if_neg (n.not_yields_self _)] at proposer effects
    refine ⟨id, acceptor, proposer, learner, electoral ++ [.heartbeat n.id n.proposer.ballot],
      ?_, ?_⟩
    · intro e mem
      rcases List.mem_append.1 mem with mem | mem
      · exact reports e mem
      · rw [List.mem_singleton.1 mem]
        rfl
    · show _ ++ _ = _
      rw [effects, List.append_assoc]
  · exact ⟨rfl, rfl, rfl, rfl, [], by simp, rfl⟩

theorem lead_heeds (n : Node) (now : Nat) : Heeds n now none [] none (n.lead now) := by
  unfold lead
  simp only
  split
  · obtain ⟨id, acceptor, proposer, learner, effects⟩ :=
      pulse_heeds { n with acquiring := false } now
    exact ⟨id, acceptor, proposer, learner, effects⟩
  · obtain ⟨id, acceptor, proposer, learner, electoral, reports, effects⟩ :=
      pulse_heeds { n with
        acquiring := false, leader := some n.id, leaderBallot := some n.proposer.ballot } now
    refine ⟨id, acceptor, proposer, learner, electoral ++ [.leaderChanged none (some n.id)],
      ?_, ?_⟩
    · intro e mem
      rcases List.mem_append.1 mem with mem | mem
      · exact reports e mem
      · rw [List.mem_singleton.1 mem]
        trivial
    · show _ ++ _ = _
      rw [effects, List.append_assoc]

/-! ## Steps -/

theorem acquire_heeds (n : Node) (now : Nat) :
    Heeds n now none (if n.leaderAlive now then [] else [.prepare true]) none
      (n.acquire now) := by
  unfold acquire
  split
  · exact heeds_nothing rfl rfl rfl rfl
  · exact heeds_proposer rfl rfl rfl rfl rfl

theorem pollLiveness_heeds (n : Node) (now : Nat) :
    Heeds n now none
      (if n.leaderAlive now = true ∨ n.prepareExpired now = false then [] else [.prepare true])
      none (n.pollLiveness now) := by
  unfold pollLiveness
  split
  · exact heeds_nothing rfl rfl rfl rfl
  · next quiet =>
    split
    · exact heeds_proposer rfl rfl rfl rfl rfl
    · have silent : ¬ n.leaderAlive now = true := fun alive => quiet (.inl alive)
      have acquired := n.acquire_heeds now
      rwa [if_neg silent] at acquired

theorem receivePromise_heeds (n : Node) (now : Nat) (source : NodeId) (b : Ballot)
    (accepted : Option Ballot) (value : Option Value) :
    Heeds n now none [.promise source b accepted value] none
      (n.receivePromise now source b accepted value) := by
  unfold receivePromise
  simp only
  split
  · obtain ⟨id, acceptor, proposer, learner, electoral, reports, effects⟩ :=
      lead_heeds (n.withProposer (n.proposer.receivePromise source b accepted value)).1 now
    refine ⟨id, acceptor, proposer, learner, electoral, reports, ?_⟩
    show _ ++ _ = _
    rw [effects]
    simp [Acceptor.heed, Learner.heed, Proposer.run, Proposer.step, withProposer]
  · exact heeds_proposer rfl rfl rfl rfl rfl

/-- Noting a rejection changes neither who leads nor the quorum. -/
theorem receiveAcceptNack_eq (n : Node) (source : NodeId) (b promised : Ballot) :
    n.receiveAcceptNack source b promised =
      if n.Resigns source b promised then (n.noteRejection source b promised).resign promised
      else (n.noteRejection source b promised, []) := by
  have leads : (n.noteRejection source b promised).leading = n.leading :=
    n.proposer.observe_leader promised
  have quorum : (n.noteRejection source b promised).proposer.quorum = n.proposer.quorum :=
    (n.proposer.observe_identity promised).2.1
  simp only [receiveAcceptNack, leads, quorum]
  rfl

theorem receiveAcceptNack_leading {n : Node} {source : NodeId} {b promised : Ballot} :
    (n.receiveAcceptNack source b promised).1.leading = true ↔
      n.leading = true ∧ ¬ n.Resigns source b promised := by
  have noted : (n.noteRejection source b promised).leading = n.leading :=
    n.proposer.observe_leader promised
  have resigned : ((n.noteRejection source b promised).resign promised).1.leading = false :=
    Proposer.observe_leader _ promised
  rw [receiveAcceptNack_eq]
  split
  · next resigns => simp [resigned, resigns]
  · next stays => simp [noted, stays]

theorem receiveAcceptNack_heeds (n : Node) (now : Nat) (source : NodeId) (b promised : Ballot) :
    Heeds n now none
      (.acceptNack source b promised ::
        if n.Resigns source b promised then [.setLeader false, .observe promised] else [])
      none (n.receiveAcceptNack source b promised) := by
  rw [receiveAcceptNack_eq]
  by_cases resigns : n.Resigns source b promised
  · rw [if_pos resigns, if_pos resigns]
    exact ⟨rfl, rfl, rfl, rfl, _, by simp [Effect.Electoral], rfl⟩
  · rw [if_neg resigns, if_neg resigns]
    exact heeds_proposer rfl rfl rfl rfl rfl

/-- **A step is made of orders to the roles**, and of what an election reports. -/
theorem step_roles (n : Node) (now : Nat) (input : Input) :
    Heeds n now (acceptorOrder input) (n.orders now input) (learnerOrder input)
      (n.step now input) := by
  have acceptorOnly (order : Acceptor.Input) :
      Heeds n now (some order) [] none (n.withAcceptor (n.acceptor.step now order)) :=
    ⟨rfl, rfl, rfl, rfl, [], by simp,
      by simp [Acceptor.heed, Learner.heed, Proposer.run, withAcceptor]⟩
  cases input with
  | prepare fresh | propose v | resend => exact heeds_proposer rfl rfl rfl rfl rfl
  | pollLiveness => exact n.pollLiveness_heeds now
  | acquire => exact n.acquire_heeds now
  | pulse => exact n.pulse_heeds now
  | receive m =>
    cases m with
    | prepare source b => exact acceptorOnly (.prepare source b)
    | promise source b accepted value => exact n.receivePromise_heeds now source b accepted value
    | prepareNack source b promised => exact heeds_proposer rfl rfl rfl rfl rfl
    | accept source b v => exact acceptorOnly (.accept source b v)
    | accepted source b v =>
      exact ⟨rfl, rfl, rfl, rfl, [], by simp, (List.append_nil _).symm⟩
    | acceptNack source b promised => exact n.receiveAcceptNack_heeds now source b promised
    | heartbeat source b => exact n.receiveHeartbeat_heeds now source b
    | propose v => exact heeds_proposer rfl rfl rfl rfl rfl
  | recover s =>
    refine ⟨rfl, rfl, ?_, rfl, [], by simp, ?_⟩
    · unfold orders
      cases promised : s.promised <;> simp [step, recover, promised, Proposer.run, Proposer.step]
    · unfold orders
      cases promised : s.promised <;>
        simp [step, promised, Proposer.run, Proposer.step, Acceptor.heed, Acceptor.step,
          acceptorOrder, Learner.heed, learnerOrder]
  | persisted => exact acceptorOnly .persisted
  | setActive on => exact ⟨rfl, rfl, rfl, rfl, [], by simp, rfl⟩

/-! ## What the proposer does in a step -/

/-- A step asks for what the proposer asks for, and for nothing else. -/
theorem step_request (n : Node) (now : Nat) (input : Input) :
    (∀ b, .prepare b ∈ (n.step now input).2 ↔
      .prepare b ∈ (n.proposer.run (n.orders now input)).2) ∧
    ∀ b v, .accept b v ∈ (n.step now input).2 ↔
      .accept b v ∈ (n.proposer.run (n.orders now input)).2 := by
  obtain ⟨-, -, -, -, electoral, reports, effects⟩ := n.step_roles now input
  have replies := n.acceptor.heed_replies now (acceptorOrder input)
  have resolved := n.learner.heed_resolved (learnerOrder input)
  rw [effects]
  simp only [List.mem_append]
  refine ⟨fun b => ⟨?_, fun h => .inl (.inl (.inr h))⟩,
    fun b v => ⟨?_, fun h => .inl (.inl (.inr h))⟩⟩
  · rintro (((h | h) | h) | h)
    · exact (replies _ h).elim
    · exact h
    · obtain ⟨_, _, same⟩ := resolved _ h
      cases same
    · exact (reports _ h).elim
  · rintro (((h | h) | h) | h)
    · exact (replies _ h).elim
    · exact h
    · obtain ⟨_, _, same⟩ := resolved _ h
      cases same
    · exact (reports _ h).elim

/-- What every move keeps, a step keeps. -/
theorem step_keeps {n : Node} {now : Nat} {input : Input} {P : Proposer → Prop}
    (keeps : ∀ p q, ∀ o ∈ n.orders now input, p.Move o q → P p → P q) (holds : P n.proposer) :
    P (n.step now input).1.proposer := by
  rw [(n.step_roles now input).proposer]
  have elected := n.orders_elected now input
  generalize n.orders now input = orders at keeps elected
  generalize n.proposer = p at holds
  induction orders generalizing p with
  | nil => exact holds
  | cons o rest ih =>
    have move := p.step_move (fun same => elected (same ▸ List.mem_cons_self) : o ≠ .setLeader true)
    refine ih (fun p q o' mem => keeps p q o' (List.mem_cons_of_mem _ mem))
      (fun mem => elected (List.mem_cons_of_mem _ mem)) _ ?_
    exact keeps p _ o List.mem_cons_self move holds

/-- Several orders at once only make the proposer follow others, or give way. -/
theorem orders_cases (n : Node) (now : Nat) (input : Input) :
    (∃ o, n.orders now input = [o]) ∨ ∀ o ∈ n.orders now input, o.Subdues := by
  have nothing : ∀ o ∈ ([] : List Proposer.Input), o.Subdues := by simp
  have yields (b : Ballot) :
      ∀ o ∈ [Proposer.Input.setLeader false, .observe b], o.Subdues := by
    simp [Proposer.Input.Subdues]
  cases input with
  | prepare | propose | resend | setActive => exact .inl ⟨_, rfl⟩
  | pulse | persisted => exact .inr nothing
  | pollLiveness =>
    simp only [orders]
    split
    · exact .inr nothing
    · exact .inl ⟨_, rfl⟩
  | acquire =>
    simp only [orders]
    split
    · exact .inr nothing
    · exact .inl ⟨_, rfl⟩
  | recover s =>
    refine .inr ?_
    simp only [orders]
    split
    · exact yields _
    · exact nothing
  | receive m =>
    cases m with
    | promise | prepareNack | propose => exact .inl ⟨_, rfl⟩
    | prepare | accept | accepted => exact .inr nothing
    | acceptNack source b promised =>
      refine .inr (List.forall_mem_cons.2 ⟨trivial, ?_⟩)
      split
      · exact yields _
      · exact nothing
    | heartbeat source b =>
      refine .inr ?_
      simp only [orders]
      split
      · exact yields _
      · exact nothing

/-- **Whoever asks for votes leads** when the step is over. -/
theorem step_accept {n : Node} {now : Nat} {input : Input} {b : Ballot} {v : Value}
    (mem : .accept b v ∈ (n.step now input).2) : (n.step now input).1.proposer.Asks b v := by
  have asked := (n.step_request now input).2 b v |>.1 mem
  rw [(n.step_roles now input).proposer]
  rcases n.orders_cases now input with ⟨o, one⟩ | quiet
  · rw [one] at asked ⊢
    have asked : .accept b v ∈ (n.proposer.step o).2 := by simpa [Proposer.run] using asked
    exact Proposer.step_accept asked
  · simp [Proposer.run_subdued quiet] at asked

/-- A round is announced for the current ballot, and by a preparation only. -/
theorem step_prepare {n : Node} {now : Nat} {input : Input} {b : Ballot}
    (mem : .prepare b ∈ (n.step now input).2) :
    (n.step now input).1.proposer.ballot = b ∧ ∃ fresh, n.orders now input = [.prepare fresh] := by
  have asked := (n.step_request now input).1 b |>.1 mem
  rw [(n.step_roles now input).proposer]
  rcases n.orders_cases now input with ⟨o, one⟩ | quiet
  · rw [one] at asked ⊢
    have asked : .prepare b ∈ (n.proposer.step o).2 := by simpa [Proposer.run] using asked
    obtain ⟨ballot, fresh, same⟩ := Proposer.step_prepare asked
    exact ⟨ballot, fresh, by rw [same]⟩
  · simp [Proposer.run_subdued quiet] at asked

/-! ## New nodes -/

/-- A resumed proposer is a new one, at or above the durable promise. -/
theorem resume_cases (setup : Setup) (now : Nat) (s : Snapshot) :
    s.promised = none ∧ (resume setup now s).proposer =
      (Proposer.start setup.id setup.quorum).setLeader (decide (setup.leader = some setup.id)) ∨
    ∃ b, s.promised = some b ∧ (resume setup now s).proposer =
      ((Proposer.start setup.id setup.quorum).setLeader false).observe b := by
  cases promised : s.promised with
  | none => exact .inl ⟨rfl, by simp [resume, recover, promised, start]⟩
  | some b => exact .inr ⟨b, rfl, by simp [resume, recover, promised, start, Proposer.setLeader]⟩

theorem resume_identity (setup : Setup) (now : Nat) (s : Snapshot) :
    (resume setup now s).proposer.ballot.owner = setup.id ∧
      (resume setup now s).proposer.quorum = setup.quorum := by
  rcases resume_cases setup now s with ⟨-, same⟩ | ⟨b, -, same⟩ <;> rw [same]
  · exact ⟨rfl, rfl⟩
  · exact ⟨(Proposer.observe_identity _ b).1, (Proposer.observe_identity _ b).2.1⟩

/-- A resumed proposer neither leads nor knows of a promise, if it was not named leader. -/
theorem resume_bare {setup : Setup} (unled : setup.leader ≠ some setup.id) (now : Nat)
    (s : Snapshot) :
    (resume setup now s).proposer.leader = false ∧ (resume setup now s).proposer.promises = [] ∧
      (resume setup now s).proposer.highestVote = none := by
  rcases resume_cases setup now s with ⟨-, same⟩ | ⟨b, -, same⟩ <;> rw [same]
  · exact ⟨decide_eq_false unled, rfl, rfl⟩
  · refine ⟨Proposer.observe_leader _ b, (Proposer.observe_identity _ b).2.2, ?_⟩
    rcases Proposer.observe_cases ((Proposer.start setup.id setup.quorum).setLeader false) b with
      stays | ⟨number, -, -, -, raised⟩
    · rw [stays]
      rfl
    · rw [raised]
      rfl

/-- A resumed proposer stands at or above the durable promise, as far as rounds are left. -/
theorem resume_reaches (setup : Setup) (now : Nat) {s : Snapshot} {b : Ballot}
    (promised : s.promised = some b) :
    min b.number (Ballot.lastRound - 1) ≤ (resume setup now s).proposer.ballot.number := by
  rcases resume_cases setup now s with ⟨none, -⟩ | ⟨c, found, same⟩
  · rw [promised] at none
    cases none
  · rw [promised] at found
    cases found
    rw [same]
    exact Proposer.observe_reaches rfl b

end Node

end Synod
