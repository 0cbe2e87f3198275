/-
Synod.Proofs.Validity -- no value comes from nowhere

Roles, nodes and members pass values on: what they hold and send after a step they held
before it, or it came with the input (`Node.step_values`, `Member.absorb_values`).  A
cluster starts without values.  So all that it ever holds, sends or decides some node was
asked to propose (`Cluster.values_proposed`), whatever is lost, repeated, reordered, switched
off or restarted.  Only the requests of clients bring other values into flight.
-/
import Synod.Proofs.Cluster
import Synod.Proofs.Tally

namespace Synod

set_option autoImplicit false

/-! ## What comes in and goes out -/

def Message.values : Message → List Value
  | .promise _ _ _ value => value.toList
  | .accept _ _ v | .accepted _ _ v | .propose v => [v]
  | _ => []

def Effect.values : Effect → List Value
  | .promise _ _ _ value => value.toList
  | .accept _ v | .accepted _ _ v | .resolved _ v => [v]
  | _ => []

def Outbound.values : Outbound → List Value
  | .broadcast message | .unicast _ message => message.values
  | .resolved _ v => [v]

theorem outbound_values (self : NodeId) (effects : List Effect) :
    (outbound self effects).flatMap Outbound.values ⊆ effects.flatMap Effect.values := by
  intro v mem
  obtain ⟨o, sent, held⟩ := List.mem_flatMap.1 mem
  obtain ⟨e, asked, named⟩ := List.mem_filterMap.1 sent
  refine List.mem_flatMap.2 ⟨e, asked, ?_⟩
  cases e <;> cases named <;> exact held

/-! ## Roles -/

namespace Acceptor

def Input.values : Input → List Value
  | .accept _ _ v => [v]
  | .recover s => s.value.toList
  | _ => []

/-- An acceptor votes for what it is asked to vote for, and reports its last vote. -/
theorem step_values (a : Acceptor) (now : Nat) (input : Input) :
    (a.step now input).1.value.toList ++ (a.step now input).2.flatMap Effect.values ⊆
      a.value.toList ++ input.values := by
  cases input with
  | prepare source b =>
    simp only [step, receivePrepare, takePromise, Input.values]
    grind [Effect.values]
  | accept source b v =>
    simp only [step, receiveAccept, castVote, Input.values]
    grind [Effect.values]
  | persisted =>
    refine List.append_subset.2 ⟨List.subset_append_left _ _, fun v mem => ?_⟩
    obtain ⟨e, sent, held⟩ := List.mem_flatMap.1 mem
    have released : e ∈ a.heldPromise ++ a.heldVote := by
      simp only [step, persisted] at sent
      split at sent
      · exact sent
      · cases sent
    refine List.mem_append_left _ ?_
    rcases List.mem_append.1 released with promise | vote
    · obtain ⟨_, _, -, -, rfl⟩ := mem_heldPromise promise
      exact held
    · obtain ⟨_, _, w, -, -, value, rfl⟩ := mem_heldVote vote
      rwa [value]
  | recover s => simp [step, recover, Input.values]
  | setActive on => simp [step, setActive]

theorem heed_values (a : Acceptor) (now : Nat) (order : Option Input) :
    (a.heed now order).1.value.toList ++ (a.heed now order).2.flatMap Effect.values ⊆
      a.value.toList ++ order.toList.flatMap Input.values := by
  cases order with
  | none => simp [heed]
  | some input =>
    have one : (some input).toList.flatMap Input.values = input.values := List.append_nil _
    rw [one]
    exact a.step_values now input

end Acceptor

namespace Proposer

def Input.values : Input → List Value
  | .propose v => [v]
  | .promise _ _ _ value => value.toList
  | _ => []

theorem acceptRequest_values (p : Proposer) :
    p.acceptRequest.flatMap Effect.values ⊆ p.proposal.toList := by
  unfold acceptRequest
  grind [Effect.values]

theorem observe_proposal (p : Proposer) (b : Ballot) : (p.observe b).proposal = p.proposal := by
  rcases observe_cases p b with same | ⟨number, -, -, -, raised⟩
  · rw [same]
  · rw [raised]

theorem adopt_values (p : Proposer) (accepted : Option Ballot) (value : Option Value) :
    (p.adopt accepted value).proposal.toList ⊆ p.proposal.toList ++ value.toList := by
  unfold adopt
  split
  · cases value with
    | none => simp
    | some v => simp
  · simp

/-- A proposer proposes its own value, or one that a promise reports. -/
theorem step_values (p : Proposer) (input : Input) :
    (p.step input).1.proposal.toList ++ (p.step input).2.flatMap Effect.values ⊆
      p.proposal.toList ++ input.values := by
  cases input with
  | prepare fresh =>
    simp only [step, prepare]
    grind [Effect.values]
  | propose v =>
    simp only [step, Proposer.propose, Input.values]
    grind [Effect.values, acceptRequest]
  | promise source b accepted value =>
    simp only [step, receivePromise, Input.values]
    rw [← p.observe_proposal b]
    generalize p.observe b = q
    split
    · simp
    · have new := adopt_values { q with promises := q.promises ++ [source] } accepted value
      generalize ({ q with promises := q.promises ++ [source] } : Proposer).adopt accepted value = r
        at new ⊢
      split
      · refine List.append_subset.2 ⟨new, ?_⟩
        exact List.Subset.trans (acceptRequest_values (r.setLeader true)) new
      · simpa using new
  | resend =>
    simp only [step, resend]
    grind [Effect.values, acceptRequest]
  | observe b | prepareNack _ _ b | acceptNack _ _ b =>
    simp [step, observe_proposal, Input.values]
  | setLeader leading => simp [step, setLeader]
  | setActive on => simp [step, setActive]

theorem run_values (p : Proposer) (orders : List Input) :
    (p.run orders).1.proposal.toList ++ (p.run orders).2.flatMap Effect.values ⊆
      p.proposal.toList ++ orders.flatMap Input.values := by
  induction orders generalizing p with
  | nil => simp [run]
  | cons o rest ih =>
    intro v mem
    have first := @p.step_values o v
    have later := @ih (p.step o).1 v
    simp only [run, List.flatMap_append, List.flatMap_cons, List.mem_append] at *
    tauto

end Proposer

namespace Learner

def Input.values : Input → List Value
  | .accepted _ _ v => [v]
  | _ => []

/-- The values a learner decided on or counts votes for. -/
def values (l : Learner) : List Value := l.finalValue.toList ++ l.tallies.map fun x => x.2.value

theorem released_values (l : Learner) (source : NodeId) :
    (l.released source).map (fun x => x.2.value) ⊆ l.values := by
  intro v mem
  obtain ⟨⟨b, t⟩, kept, rfl⟩ := List.mem_map.1 mem
  obtain ⟨t', old, -, same⟩ := mem_released kept
  exact List.mem_append_right _ (List.mem_map.2 ⟨(b, t'), old, same.symm⟩)

/-- A learner decides on what was voted for. -/
theorem step_values (l : Learner) (input : Input) :
    (l.step input).1.values ++ (l.step input).2.flatMap Effect.values ⊆
      l.values ++ input.values := by
  cases input with
  | accepted source b v =>
    have old := l.released_values source
    have new : (counted (l.released source) b v).value ∈ l.values ++ [v] := by
      rcases counted_cases (l.released source) b v with ⟨t, mem, -, same⟩ | ⟨-, same⟩
      · exact List.mem_append_left _ (old (List.mem_map.2 ⟨(b, t), mem, same.symm⟩))
      · simp [same]
    simp only [step, receiveAccepted, Input.values]
    split
    · simp
    · split
      · simpa [values, finalValue, Effect.values] using new
      · simp only [List.flatMap_nil, List.append_nil]
        refine List.append_subset.2 ⟨?_, ?_⟩
        · exact fun w mem => List.mem_append_left _ (List.mem_append_left _ mem)
        · intro w mem
          obtain ⟨⟨c, t⟩, kept, rfl⟩ := List.mem_map.1 mem
          rcases mem_assign.1 kept with ⟨kept, -⟩ | ⟨-, rfl⟩
          · exact List.mem_append_left _ (old (List.mem_map.2 ⟨(c, t), kept, rfl⟩))
          · exact new
  | setActive on => simp [step, setActive, values, finalValue]

theorem heed_values (l : Learner) (order : Option Input) :
    (l.heed order).1.values ++ (l.heed order).2.flatMap Effect.values ⊆
      l.values ++ order.toList.flatMap Input.values := by
  cases order with
  | none => simp [heed]
  | some input =>
    have one : (some input).toList.flatMap Input.values = input.values := List.append_nil _
    rw [one]
    exact l.step_values input

end Learner

/-! ## Nodes and members -/

namespace Node

def Input.values : Input → List Value
  | .propose v => [v]
  | .receive message => message.values
  | .recover s => s.value.toList
  | _ => []

/-- The values a node voted for, proposes, counts votes for or decided on. -/
def values (n : Node) : List Value :=
  n.acceptor.value.toList ++ n.proposer.proposal.toList ++ n.learner.values

/-- The roles are given no values but those that come in. -/
theorem orders_values (n : Node) (now : Nat) (input : Input) :
    (acceptorOrder input).toList.flatMap Acceptor.Input.values ⊆ input.values ∧
      (n.orders now input).flatMap Proposer.Input.values ⊆ input.values ∧
      (learnerOrder input).toList.flatMap Learner.Input.values ⊆ input.values := by
  refine ⟨?_, ?_, ?_⟩
  · unfold acceptorOrder
    split <;> simp [Acceptor.Input.values, Input.values, Message.values]
  · unfold orders
    split <;> (try split) <;>
      simp [Proposer.Input.values, Input.values, Message.values]
  · unfold learnerOrder
    split <;> simp [Learner.Input.values, Input.values, Message.values]

theorem electoral_values {self : NodeId} {effects : List Effect}
    (reports : ∀ e ∈ effects, e.Electoral self) : effects.flatMap Effect.values = [] := by
  refine List.flatMap_eq_nil_iff.2 fun e mem => ?_
  have report := reports e mem
  cases e <;> first | rfl | exact report.elim

/-- **A node holds and sends no values** but those that it held or that come in. -/
theorem step_values (n : Node) (now : Nat) (input : Input) :
    (n.step now input).1.values ++ (n.step now input).2.flatMap Effect.values ⊆
      n.values ++ input.values := by
  obtain ⟨-, acceptor, proposer, learner, electoral, reports, effects⟩ := n.step_roles now input
  obtain ⟨toAcceptor, toProposer, toLearner⟩ := n.orders_values now input
  have held : n.values ⊆ n.values ++ input.values := List.subset_append_left _ _
  have given : input.values ⊆ n.values ++ input.values := List.subset_append_right _ _
  generalize n.values ++ input.values = known at held given ⊢
  obtain ⟨⟨votes, proposals⟩, counts⟩ :
      (n.acceptor.value.toList ⊆ known ∧ n.proposer.proposal.toList ⊆ known) ∧
        n.learner.values ⊆ known := by
    simpa only [values, List.append_subset] using held
  have voted := List.append_subset.1 (List.Subset.trans (n.acceptor.heed_values now _)
    (List.append_subset.2 ⟨votes, List.Subset.trans toAcceptor given⟩))
  have proposed := List.append_subset.1 (List.Subset.trans (n.proposer.run_values _)
    (List.append_subset.2 ⟨proposals, List.Subset.trans toProposer given⟩))
  have counted := List.append_subset.1 (List.Subset.trans (n.learner.heed_values _)
    (List.append_subset.2 ⟨counts, List.Subset.trans toLearner given⟩))
  simp only [values, acceptor, proposer, learner, effects, List.flatMap_append,
    electoral_values reports, List.append_nil, List.append_subset]
  exact ⟨⟨⟨voted.1, proposed.1⟩, counted.1⟩, ⟨voted.2, proposed.2⟩, counted.2⟩

/-- A resumed node has the value it voted for, and no other. -/
theorem resume_values (setup : Setup) (now : Nat) (s : Snapshot) :
    (resume setup now s).values = s.value.toList := by
  have unasked : (resume setup now s).proposer.proposal = none := by
    rcases resume_cases setup now s with ⟨-, same⟩ | ⟨b, -, same⟩ <;> rw [same]
    · rfl
    · rw [Proposer.observe_proposal]
      rfl
  rw [values, unasked]
  simp [resume, recover, start, Learner.start, Learner.values, Learner.finalValue, Acceptor.recover]

end Node

/-- The values that were put in flight or decided on. -/
def Carried.values (x : Carried) : List Value :=
  (x.sent.flatMap fun e => e.message.values) ++ x.decided.map fun d => d.value

theorem Carried.mem_values_append {x y : Carried} {v : Value} :
    v ∈ (x ++ y).values ↔ v ∈ x.values ∨ v ∈ y.values := by
  simp only [values, append_def, List.flatMap_append, List.map_append, List.mem_append]
  tauto

namespace Member

/-- The values of a member's node, of its durable snapshot and of its own traffic. -/
def values (m : Member) : List Value :=
  m.node.values ++ m.durable.value.toList ++ m.queue.flatMap Outbound.values

/-- **Whatever a member takes up, it holds no values** but those it held or that come in. -/
theorem absorb_values (m : Member) (now : Nat) (input : Node.Input) :
    (m.absorb (m.node.step now input)).values ⊆ m.values ++ input.values := by
  have stepped := m.node.step_values now input
  have sent := outbound_values m.node.id (m.node.step now input).2
  intro v mem
  have inNode := @stepped v
  have inQueue := @sent v
  simp only [values, absorb, List.flatMap_append, List.mem_append] at *
  tauto

theorem persist_values (m : Member) : m.persist.values ⊆ m.values := by
  unfold persist
  split
  · have stored : ({ m with durable := m.node.snapshot } : Member).values ⊆ m.values := by
      intro v mem
      simp only [values, Node.values, Node.snapshot, Acceptor.snapshot, List.mem_append] at mem ⊢
      tauto
    have absorbed := absorb_values { m with durable := m.node.snapshot } 0 .persisted
    rw [show Node.Input.persisted.values = [] from rfl, List.append_nil] at absorbed
    exact List.Subset.trans absorbed stored
  · exact List.Subset.refl _

theorem receive_values (m : Member) (now : Nat) (message : Message) :
    (m.receive now message).values ⊆ m.values ++ message.values :=
  m.absorb_values now (.receive message)

/-- One piece of traffic brings its own values. -/
theorem carry_values (m : Member) (now : Nat) (others : List NodeId) (o : Outbound) :
    (m.carry now others o).1.values ++ (m.carry now others o).2.values ⊆ m.values ++ o.values := by
  cases o with
  | broadcast message =>
    have handled := List.Subset.trans (persist_values _) (m.receive_values now message)
    have sent : (others.map fun recipient => ({ recipient, message } : Envelope)).flatMap
        (fun e => e.message.values) ⊆ message.values := by
      intro v mem
      obtain ⟨e, copy, held⟩ := List.mem_flatMap.1 mem
      obtain ⟨recipient, -, rfl⟩ := List.mem_map.1 copy
      exact held
    refine List.append_subset.2 ⟨handled, ?_⟩
    show _ ++ [] ⊆ _
    rw [List.append_nil]
    exact List.Subset.trans sent (List.subset_append_right _ _)
  | unicast recipient message => simp [carry, Carried.values, Outbound.values]
  | resolved b v => simp [carry, Carried.values, Outbound.values]

/-- **A member's own traffic brings no values.** -/
theorem collect_values (m : Member) (now : Nat) (others : List NodeId) :
    (m.collect now others).1.values ++ (m.collect now others).2.values ⊆ m.values := by
  refine (collect_keeps now others (I := fun k acc => k.values ++ acc.values ⊆ m.values)
    ?_ ?_ ?_).1
  · intro k o rest acc traffic up kept v mem
    have carried := @carry_values { k with queue := rest } now others o v
    refine @kept v ?_
    simp only [List.mem_append, Carried.mem_values_append] at mem carried ⊢
    have held : v ∈ ({ k with queue := rest } : Member).values ∨ v ∈ o.values → v ∈ k.values := by
      simp only [values, traffic, List.flatMap_cons, List.mem_append]
      tauto
    tauto
  · intro k acc down kept v mem
    refine @kept v ?_
    simp only [values, List.flatMap_nil, List.append_nil, List.mem_append] at mem ⊢
    tauto
  · exact (List.append_nil _).symm ▸ List.Subset.refl _

end Member

namespace Cluster

/-! ## What nodes are asked to propose -/

/-- What an envelope asks a node to propose when it arrives.  Nothing arrives at a member
that is down. -/
def handed (c : Cluster) (e : Envelope) : List Value :=
  match e.message with
  | .propose v => if ∃ m ∈ c.members, m.node.id = e.recipient ∧ m.down = false then [v] else []
  | _ => []

/-- What settling asks nodes to propose. -/
def settleProposals : Nat → Cluster → List Value
  | 0, _ => []
  | rounds + 1, c =>
    let r := c.persistAll.collect
    match r.1.pool with
    | [] => []
    | e :: rest =>
      let next := { r.1 with pool := rest }
      next.handed e ++ settleProposals rounds (next.handOver e)

/-- An action, one half of a pulse alone, or a client that sends a request to a node. -/
inductive Event
  | action (a : Action)
  | heartbeat (node : NodeId)
  | resend (node : NodeId)
  | request (node : NodeId) (value : Value)
deriving DecidableEq, Repr

def perform (c : Cluster) : Event → Cluster × Carried
  | .action a => c.step a
  | .heartbeat id => (c.operate id fun n => n.pulse c.now).collect
  | .resend id => (c.operate id fun n => (n, n.resend)).collect
  | .request id v => ({ c with pool := c.pool ++ [{ recipient := id, message := .propose v }] }, {})

/-- What an event asks nodes to propose. -/
def proposals (c : Cluster) : Event → List Value
  | .action (.propose id v) => if id ∈ c.names then [v] else []
  | .action (.deliver index) => (c.addressed? index).toList.flatMap c.handed
  | .action .settle => settleProposals settleRounds c
  | _ => []

def play : Cluster → List Event → Cluster × Carried
  | c, [] => (c, {})
  | c, e :: rest =>
    let r := c.perform e
    let s := r.1.play rest
    (s.1, r.2 ++ s.2)

/-- What nodes are asked to propose in all. -/
def proposed : Cluster → List Event → List Value
  | _, [] => []
  | c, e :: rest => c.proposals e ++ (c.perform e).1.proposed rest

/-! ## Every event -/

/-- All values are known ones, those of requests of clients apart. -/
structure Sourced (known : List Value) (past : List Event) (c : Cluster) : Prop where
  held : ∀ m ∈ c.members, m.values ⊆ known
  sent : ∀ e ∈ c.pool, e.message.values ⊆ known ∨
    ∃ v, e.message = .propose v ∧ .request e.recipient v ∈ past

/-- A cluster, and what was sent and decided, without new values. -/
def Accounts (known : List Value) (past : List Event) (r : Cluster × Carried) : Prop :=
  r.1.Sourced known past ∧ r.2.values ⊆ known

variable {known more : List Value} {past longer : List Event} {c : Cluster} {r : Cluster × Carried}

theorem Sourced.mono (sourced : c.Sourced known past) (sub : known ⊆ more) :
    c.Sourced more past where
  held m mem := List.Subset.trans (sourced.held m mem) sub
  sent e mem := (sourced.sent e mem).imp_left fun old => List.Subset.trans old sub

theorem Accounts.later (accounts : Accounts known past r) (since : past ⊆ longer) :
    Accounts known longer r :=
  ⟨⟨accounts.1.held, fun e mem => (accounts.1.sent e mem).imp_right fun ⟨v, request, asked⟩ =>
    ⟨v, request, since asked⟩⟩, accounts.2⟩

/-- What comes after. -/
theorem Accounts.trans {s : Cluster × Carried} (accounts : Accounts known past r)
    (after : Accounts more longer s) (sub : known ⊆ more) :
    Accounts more longer (s.1, r.2 ++ s.2) := by
  refine ⟨after.1, fun v mem => ?_⟩
  rcases Carried.mem_values_append.1 mem with first | rest
  · exact sub (accounts.2 first)
  · exact after.2 rest

theorem Sourced.update (sourced : c.Sourced known past) {id : NodeId} {f : Member → Member}
    (changes : ∀ m ∈ c.members, m.node.id = id → (f m).values ⊆ known) :
    (c.update id f).Sourced known past where
  held x found := by
    obtain ⟨m, old, ⟨same, rfl⟩ | ⟨-, rfl⟩⟩ := mem_update found
    · exact changes m old same
    · exact sourced.held x old
  sent := sourced.sent

theorem mem_values_total {xs : List Carried} {v : Value} (mem : v ∈ (total xs).values) :
    ∃ x ∈ xs, v ∈ x.values := by
  induction xs with
  | nil => simp [total, Carried.values] at mem
  | cons x rest ih =>
    rcases Carried.mem_values_append.1 mem with here | later
    · exact ⟨x, List.mem_cons_self, here⟩
    · obtain ⟨y, old, found⟩ := ih later
      exact ⟨y, List.mem_cons_of_mem _ old, found⟩

/-- Carrying all traffic brings no values. -/
theorem Sourced.collect (sourced : c.Sourced known past) : Accounts known past c.collect := by
  rw [collect_eq]
  have each (m : Member) (mem : m ∈ c.members) := List.append_subset.1
    (List.Subset.trans (m.collect_values c.now (c.others m.node.id)) (sourced.held m mem))
  have carried : (total (c.members.map fun m =>
      (m.collect c.now (c.others m.node.id)).2)).values ⊆ known := by
    intro v mem
    obtain ⟨x, origin, found⟩ := mem_values_total mem
    obtain ⟨m, old, rfl⟩ := List.mem_map.1 origin
    exact (each m old).2 found
  refine ⟨⟨fun x found => ?_, fun e found => ?_⟩, carried⟩
  · obtain ⟨m, old, rfl⟩ := List.mem_map.1 found
    exact (each m old).1
  · rcases List.mem_append.1 found with old | new
    · exact sourced.sent e old
    · refine .inl (List.Subset.trans (fun v held => ?_) carried)
      exact List.mem_append_left _ (List.mem_flatMap.2 ⟨e, new, held⟩)

/-- One input of the node of this name. -/
theorem Sourced.operate (sourced : c.Sourced known past) (id : NodeId) (input : Node.Input)
    (given : ∀ m ∈ c.members, m.node.id = id → input.values ⊆ known) :
    (c.operate id fun n => n.step c.now input).Sourced known past :=
  sourced.update fun m mem same => List.Subset.trans (m.absorb_values c.now input)
    (List.append_subset.2 ⟨sourced.held m mem, given m mem same⟩)

theorem Sourced.handOver (sourced : c.Sourced known past) {e : Envelope}
    (source : e.message.values ⊆ known ∨
      ∃ v, e.message = .propose v ∧ .request e.recipient v ∈ past) :
    (c.handOver e).Sourced (known ++ c.handed e) past := by
  refine (sourced.mono (List.subset_append_left _ _)).update fun m mem same => ?_
  have held : m.values ⊆ known ++ c.handed e :=
    List.Subset.trans (sourced.held m mem) (List.subset_append_left _ _)
  cases down : m.down with
  | true => simpa [down] using held
  | false =>
    have arrived : e.message.values ⊆ known ++ c.handed e := by
      rcases source with old | ⟨v, request, -⟩
      · exact List.Subset.trans old (List.subset_append_left _ _)
      · have up : ∃ m ∈ c.members, m.node.id = e.recipient ∧ m.down = false :=
          ⟨m, mem, same, down⟩
        simp [handed, request, up, Message.values]
    simpa [down] using List.Subset.trans (m.receive_values c.now e.message)
      (List.append_subset.2 ⟨held, arrived⟩)

theorem Sourced.persistAll (sourced : c.Sourced known past) : c.persistAll.Sourced known past where
  held x found := by
    obtain ⟨m, old, rfl⟩ := List.mem_map.1 found
    exact List.Subset.trans m.persist_values (sourced.held m old)
  sent := sourced.sent

theorem Sourced.settle (sourced : c.Sourced known past) (rounds : Nat) :
    Accounts (known ++ settleProposals rounds c) past (settle rounds c) := by
  induction rounds generalizing c known with
  | zero => exact ⟨sourced.mono (List.subset_append_left _ _), List.nil_subset _⟩
  | succ rounds ih =>
    have collected := sourced.persistAll.collect
    cases traffic : c.persistAll.collect.1.pool with
    | nil =>
      simp only [settleProposals, Cluster.settle, traffic, List.append_nil]
      exact collected
    | cons e rest =>
      simp only [settleProposals, Cluster.settle, traffic]
      have there : e ∈ c.persistAll.collect.1.pool := by simp [traffic]
      have taken : ({ c.persistAll.collect.1 with pool := rest } : Cluster).Sourced known past :=
        ⟨collected.1.held, fun x mem => collected.1.sent x (by simp [traffic, mem])⟩
      have after := ih (taken.handOver (collected.1.sent e there))
      rw [List.append_assoc] at after
      exact collected.trans after (List.subset_append_left _ _)

/-- **Every action accounts for its values**: the known ones, and those it asks a node to
propose. -/
theorem Sourced.act (sourced : c.Sourced known past) (a : Action) :
    Accounts (known ++ c.proposals (.action a)) past (c.act a) := by
  have grown := sourced.mono (List.subset_append_left known (c.proposals (.action a)))
  have quiet : ({} : Carried).values ⊆ known ++ c.proposals (.action a) := List.nil_subset _
  cases a with
  | deliver index =>
    simp only [Cluster.act]
    split
    · next e found =>
      have there : e ∈ c.pool := List.mem_of_getElem? found
      have taken : ({ c with pool := c.pool.eraseIdx (c.place index) } : Cluster).Sourced
          known past :=
        ⟨sourced.held, fun x mem => sourced.sent x (List.mem_of_mem_eraseIdx mem)⟩
      have handed : c.proposals (.action (.deliver index)) = c.handed e := by
        simp [proposals, found]
      rw [handed]
      exact ⟨taken.handOver (sourced.sent e there), List.nil_subset _⟩
    · exact ⟨grown, quiet⟩
  | drop index =>
    exact ⟨⟨grown.held, fun x mem => grown.sent x (List.mem_of_mem_eraseIdx mem)⟩, quiet⟩
  | duplicate index =>
    refine ⟨⟨grown.held, fun x mem => ?_⟩, quiet⟩
    rcases List.mem_append.1 mem with old | copy
    · exact grown.sent x old
    · exact grown.sent x (List.mem_of_getElem? (Option.mem_toList.1 copy))
  | settle => exact sourced.settle settleRounds
  | advance duration => exact ⟨⟨grown.held, grown.sent⟩, quiet⟩
  | persist id =>
    refine ⟨grown.update fun m mem _ => ?_, quiet⟩
    exact List.Subset.trans m.persist_values (grown.held m mem)
  | propose id v =>
    refine ⟨grown.operate id (.propose v) fun m mem same => ?_, quiet⟩
    have named : id ∈ c.names := List.mem_map.2 ⟨m, mem, same⟩
    simp [proposals, named, Node.Input.values]
  | prepare id fresh =>
    exact ⟨grown.operate id (.prepare fresh) fun _ _ _ => List.nil_subset _, quiet⟩
  | pollLiveness id =>
    exact ⟨grown.operate id .pollLiveness fun _ _ _ => List.nil_subset _, quiet⟩
  | pulse id =>
    refine ⟨grown.update fun m mem _ => ?_, quiet⟩
    rw [absorb_pulse]
    have pulsed := List.Subset.trans (m.absorb_values c.now .pulse)
      (List.append_subset.2 ⟨grown.held m mem, List.nil_subset _⟩)
    exact List.Subset.trans (Member.absorb_values _ c.now .resend)
      (List.append_subset.2 ⟨pulsed, List.nil_subset _⟩)
  | setActive id on =>
    exact ⟨grown.operate id (.setActive on) fun _ _ _ => List.nil_subset _, quiet⟩
  | restart id =>
    refine ⟨grown.update fun m mem _ => List.Subset.trans ?_ (grown.held m mem), quiet⟩
    intro v held
    simp only [Member.values, Node.resume_values, List.flatMap_nil, List.append_nil,
      List.mem_append] at held ⊢
    tauto
  | down id | up id => exact ⟨grown.update fun m mem _ => grown.held m mem, quiet⟩

theorem Sourced.perform (sourced : c.Sourced known past) (e : Event) :
    Accounts (known ++ c.proposals e) (past ++ [e]) (c.perform e) := by
  cases e with
  | action a =>
    have acted := sourced.act a
    exact (acted.trans acted.1.collect (List.Subset.refl _)).later (List.subset_append_left _ _)
  | heartbeat id =>
    have grown := sourced.mono (List.subset_append_left known (c.proposals (.heartbeat id)))
    have pulsed := grown.operate id .pulse fun _ _ _ => List.nil_subset _
    exact pulsed.collect.later (List.subset_append_left _ _)
  | resend id =>
    have grown := sourced.mono (List.subset_append_left known (c.proposals (.resend id)))
    have repeated := grown.operate id .resend fun _ _ _ => List.nil_subset _
    exact repeated.collect.later (List.subset_append_left _ _)
  | request id v =>
    have grown := sourced.mono (List.subset_append_left known (c.proposals (.request id v)))
    refine ⟨⟨grown.held, fun x mem => ?_⟩, List.nil_subset _⟩
    rcases List.mem_append.1 mem with old | new
    · exact (grown.sent x old).imp_right fun ⟨w, request, asked⟩ =>
        ⟨w, request, List.mem_append_left _ asked⟩
    · rw [List.mem_singleton.1 new]
      exact .inr ⟨v, rfl, List.mem_append_right _ (List.mem_singleton_self _)⟩

/-- **So does every run.** -/
theorem Sourced.play (sourced : c.Sourced known past) (events : List Event) :
    Accounts (known ++ c.proposed events) (past ++ events) (c.play events) := by
  induction events generalizing c known past with
  | nil =>
    rw [List.append_nil]
    exact ⟨sourced.mono (List.subset_append_left _ _), List.nil_subset _⟩
  | cons e rest ih =>
    have first := sourced.perform e
    have after := ih first.1
    have all : known ++ c.proposed (e :: rest) =
        known ++ c.proposals e ++ (c.perform e).1.proposed rest := (List.append_assoc ..).symm
    rw [List.append_assoc past, ← all] at after
    exact first.trans after (all ▸ List.subset_append_left _ _)

/-- **No value comes from nowhere.**  All that members hold, and all that was sent or decided,
some node was asked to propose; and so are the values in flight, unless they are on their way
from a client. -/
theorem values_proposed (names : List NodeId) (quorum : Nat) (timing : Timing)
    (leader : Option NodeId) (events : List Event) :
    let c := start names quorum timing leader
    (∀ m ∈ (c.play events).1.members, m.values ⊆ c.proposed events) ∧
      (c.play events).2.values ⊆ c.proposed events ∧
      ∀ e ∈ (c.play events).1.pool, e.message.values ⊆ c.proposed events ∨
        ∃ v, e.message = .propose v ∧ .request e.recipient v ∈ events := by
  intro c
  have bare : c.Sourced [] [] := by
    refine ⟨fun m mem => ?_, fun e mem => absurd mem List.not_mem_nil⟩
    obtain ⟨id, -, rfl⟩ := List.mem_map.1 mem
    exact List.nil_subset _
  obtain ⟨⟨held, sent⟩, carried⟩ := bare.play events
  exact ⟨held, carried, sent⟩

/-- A request asks for nothing before it arrives. -/
example : (start ["a"] 1 {} none).proposed
    [.request "a" "x", .request "a" "y", .action (.deliver 1)] = ["y"] := by decide +kernel

end Cluster

end Synod
