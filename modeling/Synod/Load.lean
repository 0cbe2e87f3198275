/-
Synod.Load -- how much traffic is still to come

A node answers traffic with more traffic: a prepare with a promise, a promise with
a request for votes, that with a vote, and votes with a decision.  The chain is
finite.  `Message.load` bounds what handling a message can cause, itself included,
and `Acceptor.held` what the held replies will cause.

* `Node.receive_load`: handling a message causes less than the message weighed;
* `Node.persisted_load`: letting held replies go causes no more than they weighed.

So a loop that handles traffic until none is left comes to an end.
-/
import Synod.Node
import Synod.Outbound

namespace Synod

set_option autoImplicit false

def Message.load : Message → Nat
  | .heartbeat .. | .prepareNack .. | .acceptNack .. => 1
  | .accepted .. => 2
  | .accept .. => 3
  | .propose _ => 4
  | .promise .. => 5
  | .prepare .. => 7

/-- A message for one node is carried first and handled later. -/
def Outbound.load : Outbound → Nat
  | .broadcast m => m.load
  | .unicast _ m => m.load + 1
  | .resolved .. => 1

/-- What a list weighs, by what its elements weigh. -/
def weigh {α : Type} (weight : α → Nat) : List α → Nat
  | [] => 0
  | x :: rest => weight x + weigh weight rest

def load (traffic : List Outbound) : Nat := weigh Outbound.load traffic

/-- What the held replies will cause. -/
def Acceptor.held (a : Acceptor) : Nat :=
  (if a.pendingPromise = none then 0 else 6) + (if a.pendingVote = none then 0 else 2)

def Node.held (n : Node) : Nat := n.acceptor.held

@[simp] theorem weigh_nil {α : Type} (weight : α → Nat) : weigh weight [] = 0 := rfl

@[simp] theorem weigh_cons {α : Type} (weight : α → Nat) (x : α) (rest : List α) :
    weigh weight (x :: rest) = weight x + weigh weight rest := rfl

@[simp] theorem weigh_append {α : Type} (weight : α → Nat) (xs ys : List α) :
    weigh weight (xs ++ ys) = weigh weight xs + weigh weight ys := by
  induction xs with
  | nil => simp
  | cons x rest ih => simp [ih, Nat.add_assoc]

@[simp] theorem load_nil : load [] = 0 := rfl

@[simp] theorem load_cons (o : Outbound) (rest : List Outbound) :
    load (o :: rest) = o.load + load rest := rfl

@[simp] theorem load_append (xs ys : List Outbound) : load (xs ++ ys) = load xs + load ys :=
  weigh_append Outbound.load xs ys

@[simp] theorem outbound_nil (self : NodeId) : outbound self [] = [] := rfl

@[simp] theorem outbound_append (self : NodeId) (xs ys : List Effect) :
    outbound self (xs ++ ys) = outbound self xs ++ outbound self ys := by simp [outbound]

theorem outbound_cons (self : NodeId) (e : Effect) (rest : List Effect) :
    outbound self (e :: rest) = (e.outbound self).toList ++ outbound self rest := by
  cases h : e.outbound self <;> simp [outbound, h]

/-! ## Acceptor -/

namespace Acceptor

theorem takePromise_held (a : Acceptor) (source : NodeId) (b : Ballot) :
    (a.takePromise source b).held ≤ a.held + 6 := by
  unfold takePromise held
  split <;> grind

theorem castVote_held (a : Acceptor) (source : NodeId) (b : Ballot) (v : Value) :
    (a.castVote source b v).held ≤ a.held + 2 := by
  unfold castVote held
  split <;> grind

theorem receivePrepare_load (a : Acceptor) (self : NodeId) (now : Nat) (source : NodeId)
    (b : Ballot) :
    load (outbound self (a.receivePrepare now source b).2) + (a.receivePrepare now source b).1.held
      ≤ a.held + 6 := by
  have refresh : ∀ a : Acceptor, ({ a with lastPrepare := now } : Acceptor).held = a.held :=
    fun _ => rfl
  have take := takePromise_held { a with lastPrepare := now } source b
  rw [refresh] at take
  unfold receivePrepare
  split
  · simp only
    split
    · simpa using take
    · split
      · rw [refresh]
        split <;> simp [outbound_cons, Effect.outbound, Outbound.load, Message.load]; omega
      · split
        · rw [refresh]
          split <;> simp [outbound_cons, Effect.outbound, Outbound.load, Message.load]; omega
        · simpa using take
  · simp

theorem receiveAccept_load (a : Acceptor) (self : NodeId) (source : NodeId) (b : Ballot)
    (v : Value) :
    load (outbound self (a.receiveAccept source b v).2) + (a.receiveAccept source b v).1.held
      ≤ a.held + 2 := by
  have cast := castVote_held a source b v
  unfold receiveAccept
  split
  · split
    · split <;> simp [outbound_cons, Effect.outbound, Outbound.load, Message.load]; omega
    · split
      · simpa using cast
      · split
        · split <;> simp [outbound_cons, Effect.outbound, Outbound.load, Message.load]; omega
        · simpa using cast
  · simp

theorem heldPromise_load (a : Acceptor) (self : NodeId) :
    load (outbound self a.heldPromise) ≤ if a.pendingPromise = none then 0 else 6 := by
  unfold heldPromise
  split
  · simp_all [outbound_cons, Effect.outbound, Outbound.load, Message.load]
  · simp

theorem heldVote_load (a : Acceptor) (self : NodeId) :
    load (outbound self a.heldVote) ≤ if a.pendingVote = none then 0 else 2 := by
  unfold heldVote
  split
  · simp_all [outbound_cons, Effect.outbound, Outbound.load, Message.load]
  · simp

theorem persisted_load (a : Acceptor) (self : NodeId) :
    load (outbound self a.persisted.2) + a.persisted.1.held ≤ a.held := by
  have promise := heldPromise_load a self
  have vote := heldVote_load a self
  have none_held : a.persisted.1.held = 0 := rfl
  rw [none_held]
  unfold persisted held
  split <;> simp; omega

end Acceptor

/-! ## Proposer and learner -/

theorem Proposer.acceptRequest_load (p : Proposer) (self : NodeId) :
    load (outbound self p.acceptRequest) ≤ 3 := by
  unfold Proposer.acceptRequest
  split <;> simp [outbound_cons, Effect.outbound, Outbound.load, Message.load]

theorem Proposer.propose_load (p : Proposer) (self : NodeId) (v : Value) :
    load (outbound self (p.propose v).2) ≤ 3 := by
  unfold Proposer.propose
  split
  · simp only
    split
    · exact acceptRequest_load _ self
    · simp
  · simp

theorem Proposer.receivePromise_load (p : Proposer) (self source : NodeId) (b : Ballot)
    (accepted : Option Ballot) (value : Option Value) :
    load (outbound self (p.receivePromise source b accepted value).2) ≤ 3 := by
  unfold Proposer.receivePromise
  simp only
  split
  · simp
  · split
    · simpa [outbound_cons, Effect.outbound] using acceptRequest_load _ self
    · simp

theorem Learner.receiveAccepted_load (l : Learner) (self source : NodeId) (b : Ballot)
    (v : Value) : load (outbound self (l.receiveAccepted source b v).2) ≤ 1 := by
  unfold Learner.receiveAccepted
  simp only
  split
  · simp
  · split
    · simp [outbound_cons, Effect.outbound, Outbound.load]
    · simp

/-! ## Node -/

namespace Node

theorem follow_load (n : Node) (self source : NodeId) (b : Ballot) :
    load (outbound self (n.follow source b).2) = 0 ∧ (n.follow source b).1.held = n.held := by
  have silent : load (outbound self
      (if n.leader = some source then [] else [.leaderChanged n.leader (some source)])) = 0 := by
    split <;> simp [outbound_cons, Effect.outbound]
  unfold follow
  simp only
  split
  · exact ⟨by simpa [outbound_cons, Effect.outbound] using silent, rfl⟩
  · exact ⟨silent, rfl⟩

theorem refresh_held (n : Node) (now : Nat) (b : Ballot) : (n.refresh now b).held = n.held := by
  unfold refresh
  split <;> rfl

theorem receiveHeartbeat_load (n : Node) (self : NodeId) (now : Nat) (source : NodeId)
    (b : Ballot) :
    load (outbound self (n.receiveHeartbeat now source b).2) = 0 ∧
      (n.receiveHeartbeat now source b).1.held = n.held := by
  unfold receiveHeartbeat
  split
  · simp only [refresh_held]
    split
    · exact n.follow_load self source b
    · exact ⟨rfl, rfl⟩
  · exact ⟨rfl, rfl⟩

theorem pulse_load (n : Node) (self : NodeId) (now : Nat) :
    load (outbound self (n.pulse now).2) ≤ 1 ∧ (n.pulse now).1.held = n.held := by
  have heard := n.receiveHeartbeat_load self now n.id n.proposer.ballot
  unfold pulse
  split
  · exact ⟨by simp [heard.1, outbound_cons, Effect.outbound, Outbound.load, Message.load], heard.2⟩
  · exact ⟨by simp, rfl⟩

theorem lead_load (n : Node) (self : NodeId) (now : Nat) :
    load (outbound self (n.lead now).2) ≤ 1 ∧ (n.lead now).1.held = n.held := by
  unfold lead
  simp only
  split
  · exact pulse_load _ self now
  · have pulsed := pulse_load { n with
      acquiring := false, leader := some n.id, leaderBallot := some n.proposer.ballot } self now
    exact ⟨by simpa [outbound_cons, Effect.outbound] using pulsed.1, pulsed.2⟩

theorem receivePromise_load (n : Node) (self : NodeId) (now : Nat) (source : NodeId)
    (b : Ballot) (accepted : Option Ballot) (value : Option Value) :
    load (outbound self (n.receivePromise now source b accepted value).2) ≤ 4 ∧
      (n.receivePromise now source b accepted value).1.held = n.held := by
  have asked : load (outbound self (n.withProposer
      (n.proposer.receivePromise source b accepted value)).2) ≤ 3 :=
    n.proposer.receivePromise_load self source b accepted value
  unfold receivePromise
  simp only
  split
  · have led := lead_load
      (n.withProposer (n.proposer.receivePromise source b accepted value)).1 self now
    exact ⟨by rw [outbound_append, load_append]; omega, led.2⟩
  · exact ⟨by omega, rfl⟩

theorem receiveAcceptNack_load (n : Node) (self source : NodeId) (b promised : Ballot) :
    load (outbound self (n.receiveAcceptNack source b promised).2) = 0 ∧
      (n.receiveAcceptNack source b promised).1.held = n.held := by
  unfold receiveAcceptNack
  simp only
  split
  · exact ⟨by simp [resign, outbound_cons, Effect.outbound], rfl⟩
  · exact ⟨rfl, rfl⟩

theorem receive_load (n : Node) (self : NodeId) (now : Nat) (m : Message) :
    load (outbound self (n.receive now m).2) + (n.receive now m).1.held < n.held + m.load := by
  cases m with
  | prepare source b =>
    have := n.acceptor.receivePrepare_load self now source b
    simp only [receive, withAcceptor, held, Message.load]; omega
  | promise source b accepted value =>
    have := n.receivePromise_load self now source b accepted value
    simp only [receive, Message.load]; omega
  | prepareNack source b promised => simp [receive, held, Message.load]
  | accept source b v =>
    have := n.acceptor.receiveAccept_load self source b v
    simp only [receive, withAcceptor, held, Message.load]; omega
  | accepted source b v =>
    have := n.learner.receiveAccepted_load self source b v
    simp only [receive, withLearner, held, Message.load]; omega
  | acceptNack source b promised =>
    have := n.receiveAcceptNack_load self source b promised
    simp only [receive, Message.load]; omega
  | heartbeat source b =>
    have := n.receiveHeartbeat_load self now source b
    simp only [receive, Message.load]; omega
  | propose v =>
    have := n.proposer.propose_load self v
    simp only [receive, propose, withProposer, held, Message.load]; omega

theorem persisted_load (n : Node) (self : NodeId) :
    load (outbound self n.persisted.2) + n.persisted.1.held ≤ n.held :=
  n.acceptor.persisted_load self

end Node

end Synod
