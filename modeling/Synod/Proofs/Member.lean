/-
Synod.Proofs.Member -- a member's voter, and its own traffic

A member holds a voter: its node's acceptor and its durable snapshot.  Whatever a member
does moves this voter (`absorb_move`, `persist_persisted`), and once a member has persisted,
its promise is durable (`persist_durable`).

A member's own broadcasts come back to it before anybody else gets them.  They leave its
proposer as it is (`Node.orders_own`).  `collect_keeps` is the induction over all the traffic
a member carries, with what has been carried so far beside the member.
-/
import Synod.Cluster
import Synod.Proofs.Roles

namespace Synod

set_option autoImplicit false

/-! ## Carried traffic -/

namespace Carried

theorem append_def (x y : Carried) : x ++ y =
    { sent := x.sent ++ y.sent
      announced := x.announced ++ y.announced
      decided := x.decided ++ y.decided } := rfl

@[simp] theorem append_announced (x y : Carried) :
    (x ++ y).announced = x.announced ++ y.announced := rfl

@[simp] theorem append_empty (x : Carried) : x ++ ({} : Carried) = x := by
  cases x
  simp [append_def]

@[simp] theorem empty_append (x : Carried) : ({} : Carried) ++ x = x := by
  cases x
  simp [append_def]

theorem append_assoc (x y z : Carried) : x ++ y ++ z = x ++ (y ++ z) := by
  simp [append_def, List.append_assoc]

end Carried

namespace Member

/-- What every piece of a member's traffic keeps, with what was carried so far, all of its
traffic keeps. -/
theorem collect_keeps (now : Nat) (others : List NodeId) {I : Member → Carried → Prop}
    (carries : ∀ m o rest acc, m.queue = o :: rest → m.down = false → I m acc →
      I ({ m with queue := rest }.carry now others o).1
        (acc ++ ({ m with queue := rest }.carry now others o).2))
    (drops : ∀ m acc, m.down = true → I m acc → I { m with queue := [] } acc)
    {m : Member} (holds : I m {}) :
    I (m.collect now others).1 (m.collect now others).2 ∧
      (m.collect now others).1.queue = [] := by
  suffices after : ∀ acc, I m acc →
      I (m.collect now others).1 (acc ++ (m.collect now others).2) ∧
        (m.collect now others).1.queue = [] by
    have all := after {} holds
    rwa [Carried.empty_append] at all
  clear holds
  fun_induction Member.collect m now others with
  | case1 m empty =>
    intro acc kept
    exact ⟨by rwa [Carried.append_empty], empty⟩
  | case2 m o rest traffic down =>
    intro acc kept
    exact ⟨by simpa using drops m acc down kept, rfl⟩
  | case3 m o rest traffic up r s ih =>
    intro acc kept
    have next := ih _ (carries m o rest acc traffic (by simpa using up) kept)
    rw [Carried.append_assoc] at next
    exact next

theorem persist_id (m : Member) : m.persist.node.id = m.node.id := by
  unfold persist
  split <;> rfl

theorem receive_id (m : Member) (now : Nat) (message : Message) :
    (m.receive now message).node.id = m.node.id :=
  (m.node.step_roles now (.receive message)).id

theorem collect_id (m : Member) (now : Nat) (others : List NodeId) :
    (m.collect now others).1.node.id = m.node.id := by
  refine (collect_keeps now others (I := fun k _ => k.node.id = m.node.id) ?_
    (fun _ _ _ same => same) rfl).1
  intro k o rest acc _ _ same
  cases o with
  | broadcast message => exact (persist_id _).trans ((receive_id _ now message).trans same)
  | unicast | resolved => exact same

/-! ## The voter of a member -/

def voter (m : Member) : Voter := { acceptor := m.node.acceptor, durable := m.durable }

end Member

/-- What a node does in traffic: neither restarts nor storage, and no switch. -/
def Node.Input.Ordinary : Node.Input → Prop
  | .recover _ | .persisted | .setActive _ => False
  | _ => True

/-- What an input makes a node's acceptor answer. -/
def Node.replies (n : Node) (now : Nat) (input : Node.Input) : List Effect :=
  (n.acceptor.heed now (Node.acceptorOrder input)).2

namespace Member

/-- **An ordinary step moves the voter.** -/
theorem absorb_move {m : Member} (active : m.node.acceptor.active = true) (now : Nat)
    {input : Node.Input} (ordinary : input.Ordinary) :
    ∃ i, Voter.Move m.voter i (m.absorb (m.node.step now input)).voter
        (m.node.replies now input) ∧
      ∀ source b v, i = .accept source b v → input = .receive (.accept source b v) := by
  have heeds := (m.node.step_roles now input).acceptor
  have result : (m.absorb (m.node.step now input)).voter =
      { m.voter with acceptor := (m.node.acceptor.heed now (Node.acceptorOrder input)).1 } := by
    rw [← heeds]
    rfl
  have idle (none : Node.acceptorOrder input = none) :
      Voter.Move m.voter .persist (m.absorb (m.node.step now input)).voter
        (m.node.replies now input) := by
    rw [result, Node.replies, none]
    exact .stay (by simp [Acceptor.heed])
  cases input with
  | receive message =>
    cases message with
    | prepare source b =>
      rw [result]
      exact ⟨.prepare now source b, Voter.step_move active (.prepare now source b), by simp⟩
    | accept source b v =>
      rw [result]
      refine ⟨.accept source b v, Voter.step_move active (.accept source b v), ?_⟩
      rintro _ _ _ ⟨⟩
      rfl
    | _ => exact ⟨.persist, idle rfl, by simp⟩
  | recover | persisted | setActive => exact ordinary.elim
  | _ => exact ⟨.persist, idle rfl, by simp⟩

/-- Persisting changes the voter and the queue, and nothing else of the node. -/
structure Persisted (m m' : Member) (effects : List Effect) : Prop where
  move : Voter.Move m.voter .persist m'.voter effects
  replies : ∀ e ∈ effects, e.Reply
  id : m'.node.id = m.node.id
  proposer : m'.node.proposer = m.node.proposer
  learner : m'.node.learner = m.node.learner
  queue : m'.queue = m.queue ++ outbound m.node.id effects
  down : m'.down = m.down

theorem persist_persisted {m : Member} (active : m.node.acceptor.active = true) :
    ∃ effects, Persisted m m.persist effects := by
  by_cases required : m.node.persistenceRequired = true
  · have result : m.persist = { m with durable := m.node.snapshot }.absorb m.node.persisted :=
      if_pos required
    rw [result]
    exact ⟨_, Voter.step_move active .persist, m.node.acceptor.step_replies 0 .persisted, rfl, rfl,
      rfl, rfl, rfl⟩
  · have result : m.persist = m := if_neg required
    rw [result]
    exact ⟨[], .stay (by simp), by simp, rfl, rfl, rfl, by simp, rfl⟩

/-- **A persisted promise is durable.** -/
theorem persist_durable {m : Member} (sound : m.voter.Sound) :
    m.persist.durable.promised = m.node.acceptor.promised := by
  by_cases required : m.node.persistenceRequired = true
  · have result : m.persist = { m with durable := m.node.snapshot }.absorb m.node.persisted :=
      if_pos required
    rw [result]
    rfl
  · have result : m.persist = m := if_neg required
    have free : m.node.acceptor.pendingPromise = none ∧ m.node.acceptor.pendingVote = none := by
      simpa [Node.persistenceRequired, Acceptor.persistenceRequired] using required
    rw [result]
    rcases sound.promised free.1 with same | ⟨held, -⟩
    · exact same.symm
    · exact absurd free.2 held

end Member

/-! ## Traffic in one's own name -/

/-- What a node may broadcast. -/
def Message.Own (self : NodeId) : Message → Prop
  | .prepare sender _ | .accept sender _ _ | .accepted sender _ _ | .heartbeat sender _ =>
    sender = self
  | _ => False

def Outbound.Own (self : NodeId) : Outbound → Prop
  | .broadcast message => message.Own self
  | .unicast _ message => message.sender? = some self
  | .resolved .. => True

theorem Node.orders_own {n : Node} {message : Message} (own : message.Own n.id) (now : Nat) :
    n.orders now (.receive message) = [] := by
  cases message with
  | heartbeat sender b =>
    have same : sender = n.id := own
    simp [orders, Yields, same]
  | prepare | accept | accepted => rfl
  | _ => exact own.elim

/-- All that a node sends it sends in its own name, if its heartbeats are its own. -/
theorem own_of_mem_outbound {self : NodeId} {effects : List Effect} {o : Outbound}
    (pulses : ∀ leader b, .heartbeat leader b ∈ effects → leader = self)
    (mem : o ∈ outbound self effects) : o.Own self := by
  obtain ⟨e, sent, named⟩ := List.mem_filterMap.1 mem
  cases e with
  | heartbeat leader b =>
    cases named
    exact pulses leader b sent
  | leadershipAcquired | leadershipLost | leaderChanged => cases named
  | _ => cases named; first | rfl | trivial

theorem own_of_replies {self : NodeId} {effects : List Effect} {o : Outbound}
    (replies : ∀ e ∈ effects, e.Reply) (mem : o ∈ outbound self effects) : o.Own self :=
  own_of_mem_outbound (fun _ _ sent => (replies _ sent).elim) mem

theorem Node.step_own {n : Node} {now : Nat} {input : Node.Input} {o : Outbound}
    (mem : o ∈ outbound n.id (n.step now input).2) : o.Own n.id := by
  refine own_of_mem_outbound (fun leader b sent => ?_) mem
  obtain ⟨-, -, -, -, electoral, reports, effects⟩ := n.step_roles now input
  rw [effects] at sent
  simp only [List.mem_append] at sent
  rcases sent with ((reply | request) | decision) | report
  · exact (n.acceptor.heed_replies now _ _ reply).elim
  · exact (n.proposer.run_speaks _ _ request).elim
  · obtain ⟨_, _, same⟩ := n.learner.heed_resolved _ _ decision
    cases same
  · exact reports _ report

/-! ## Requests in traffic -/

/-- The ballot that a message asks promises or votes for. -/
def Message.asks? : Message → Option Ballot
  | .prepare _ b | .accept _ b _ => some b
  | _ => none

/-- A broadcast that asks for something. -/
def Outbound.Asks (o : Outbound) (b : Ballot) : Prop :=
  ∃ message, o = .broadcast message ∧ message.asks? = some b

theorem asks_of_mem_outbound {self : NodeId} {effects : List Effect} {o : Outbound} {b : Ballot}
    (mem : o ∈ outbound self effects) (asks : o.Asks b) :
    o = .broadcast (.prepare self b) ∧ .prepare b ∈ effects ∨
      ∃ v, o = .broadcast (.accept self b v) ∧ .accept b v ∈ effects := by
  obtain ⟨e, sent, named⟩ := List.mem_filterMap.1 mem
  obtain ⟨message, rfl, asked⟩ := asks
  cases e <;> cases named <;> cases asked
  · exact .inl ⟨rfl, sent⟩
  · exact .inr ⟨_, rfl, sent⟩

/-- Replies ask for nothing. -/
theorem not_asks_of_replies {self : NodeId} {effects : List Effect}
    (replies : ∀ e ∈ effects, e.Reply) {o : Outbound} (mem : o ∈ outbound self effects)
    (b : Ballot) : ¬ o.Asks b := by
  intro asks
  rcases asks_of_mem_outbound mem asks with ⟨-, sent⟩ | ⟨v, -, sent⟩
  · exact replies _ sent
  · exact replies _ sent

/-- Handling a message in one's own name asks for nothing. -/
theorem Node.not_asks_of_own {n : Node} {message : Message} (own : message.Own n.id) {now : Nat}
    {o : Outbound} (mem : o ∈ outbound n.id (n.receive now message).2) (b : Ballot) :
    ¬ o.Asks b := by
  intro asks
  have quiet := n.step_request now (.receive message)
  rw [orders_own own] at quiet
  rcases asks_of_mem_outbound mem asks with ⟨-, sent⟩ | ⟨v, -, sent⟩
  · simpa [Proposer.run] using (quiet.1 b).1 sent
  · simpa [Proposer.run] using (quiet.2 b v).1 sent

theorem Proposer.step_outbound (p : Proposer) (self : NodeId) (input : Proposer.Input) :
    outbound self (p.step input).2 = [] ∨ ∃ o, outbound self (p.step input).2 = [o] := by
  have request (q : Proposer) :
      outbound self q.acceptRequest = [] ∨ ∃ o, outbound self q.acceptRequest = [o] := by
    unfold acceptRequest
    split
    · exact .inr ⟨_, rfl⟩
    · exact .inl rfl
  cases input with
  | prepare fresh =>
    cases fresh <;> cases active : p.active <;>
      simp [step, prepare, active, outbound, Effect.outbound]
  | propose v =>
    simp only [step, Proposer.propose]
    split
    · split
      · exact request _
      · exact .inl rfl
    · exact .inl rfl
  | promise source b accepted value =>
    simp only [step, receivePromise]
    split
    · exact .inl rfl
    · split
      · exact request _
      · exact .inl rfl
  | resend =>
    simp only [step, resend]
    split
    · exact request p
    · exact .inl rfl
  | _ => exact .inl rfl

/-- **An ordinary step makes at most one request, and first of all**, and only while it
leaves the acceptor alone. -/
theorem Node.step_asks (n : Node) (now : Nat) {input : Node.Input} (ordinary : input.Ordinary) :
    (∀ o ∈ outbound n.id (n.step now input).2, ∀ b, ¬ o.Asks b) ∨
    (n.step now input).1.acceptor = n.acceptor ∧
      ∃ o rest, outbound n.id (n.step now input).2 = o :: rest ∧ ∀ o' ∈ rest, ∀ b, ¬ o'.Asks b := by
  obtain ⟨-, acceptor, -, -, electoral, reports, effects⟩ := n.step_roles now input
  have tail : ∀ o ∈ outbound n.id ((n.learner.heed (learnerOrder input)).2 ++ electoral),
      ∀ b, ¬ o.Asks b := by
    intro o mem b asks
    rcases asks_of_mem_outbound mem asks with ⟨-, sent⟩ | ⟨v, -, sent⟩ <;>
      rcases List.mem_append.1 sent with decided | report
    · obtain ⟨_, _, same⟩ := n.learner.heed_resolved _ _ decided
      cases same
    · exact reports _ report
    · obtain ⟨_, _, same⟩ := n.learner.heed_resolved _ _ decided
      cases same
    · exact reports _ report
  rw [List.append_assoc] at effects
  by_cases unheard : acceptorOrder input = none
  · rw [unheard] at effects acceptor
    have effects : (n.step now input).2 = (n.proposer.run (n.orders now input)).2 ++
        ((n.learner.heed (learnerOrder input)).2 ++ electoral) := effects
    rcases n.orders_cases now input with ⟨order, one⟩ | subdued
    · have single : (n.proposer.run [order]).2 = (n.proposer.step order).2 := by
        simp [Proposer.run]
      rw [one, single] at effects
      rw [effects, outbound_append]
      rcases n.proposer.step_outbound n.id order with silent | ⟨o, asked⟩
      · rw [silent]
        exact .inl tail
      · rw [asked]
        exact .inr ⟨acceptor, o, _, rfl, tail⟩
    · rw [Proposer.run_subdued subdued] at effects
      rw [effects]
      exact .inl tail
  · have unasked : n.orders now input = [] := by
      cases input with
      | receive message =>
        cases message with
        | prepare | accept => rfl
        | _ => exact absurd rfl unheard
      | recover | persisted | setActive => exact ordinary.elim
      | _ => exact absurd rfl unheard
    rw [unasked] at effects
    refine .inl fun o mem b asks => ?_
    rw [effects, outbound_append] at mem
    rcases List.mem_append.1 mem with reply | other
    · refine not_asks_of_replies (fun e sent => ?_) reply b asks
      rcases List.mem_append.1 sent with sent | sent
      · exact n.acceptor.heed_replies now _ e sent
      · simp [Proposer.run] at sent
    · exact tail o other b asks

end Synod
