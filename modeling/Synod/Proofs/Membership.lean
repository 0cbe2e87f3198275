/-
Synod.Proofs.Membership -- only members are counted

Messages come in under any name.  A replica drops those of names that are not members, and sends
its own under its own name; so whoever its node counts, as having promised, rejected or voted, is a
member (`Membership`).

Votes are counted by name, and a quorum of a valid configuration is more than half of its members.
So where a replica records a decision that its own learner made, more than half of them sent it
their votes for this ballot (`decided_by_majority`).
-/
import Synod.Proofs.Configuration
import Synod.Proofs.Finality
import Synod.Proofs.Rejection
import Synod.Proofs.Tally

namespace Synod

set_option autoImplicit false

/-! ## Who is counted -/

/-- Whoever has voted is the sender of this vote, or had voted before. -/
theorem Learner.receiveAccepted_voters {l : Learner} {source : NodeId} {b : Ballot} {v : Value}
    {x : NodeId × Ballot} (mem : x ∈ (l.receiveAccepted source b v).1.votes) :
    x.1 = source ∨ x ∈ l.votes := by
  unfold receiveAccepted at mem
  split at mem
  · exact .inr mem
  · simp only at mem
    split at mem
    · simp at mem
    · rcases mem_assign.1 mem with ⟨old, -⟩ | ⟨same, -⟩
      · exact .inr old
      · exact .inl same

/-- A learner goes on to count these names and votes, if the vote it hears is one of them. -/
theorem Learner.heed_counts {names : List NodeId} {votes : List Vote} {l : Learner}
    (voters : ∀ x ∈ l.votes, x.1 ∈ names) (counts : l.Counts votes) {order : Option Learner.Input}
    (heard : ∀ s b v, order = some (.accepted s b v) →
      s ∈ names ∧ { voter := s, ballot := b, value := v } ∈ votes) :
    (∀ x ∈ (l.heed order).1.votes, x.1 ∈ names) ∧ (l.heed order).1.Counts votes := by
  cases order with
  | none => exact ⟨voters, counts⟩
  | some order =>
    cases order with
    | setActive on => exact ⟨voters, counts.tally, counts.resolved⟩
    | accepted source b v =>
      obtain ⟨member, vote⟩ := heard source b v rfl
      refine ⟨fun x mem => ?_, (receiveAccepted_counts counts vote).1⟩
      rcases receiveAccepted_voters mem with same | old
      · exact same ▸ member
      · exact voters x old

theorem Node.learnerOrder_accepted {input : Node.Input} {source : NodeId} {b : Ballot} {v : Value}
    (heard : Node.learnerOrder input = some (.accepted source b v)) :
    input = .receive (.accepted source b v) := by
  unfold Node.learnerOrder at heard
  split at heard <;> simp_all

/-- The vote that a message announces. -/
def Message.vote? : Message → Option Vote
  | .accepted sender b v => some { voter := sender, ballot := b, value := v }
  | _ => none

namespace Node

variable {n : Node} {now : Nat} {input : Input}

/-- Everyone a node counts is one of these names, and what its learner counts are these votes. -/
structure Counting (names : List NodeId) (votes : List Vote) (n : Node) : Prop where
  promises : n.proposer.promises ⊆ names
  rejections : n.rejections ⊆ names
  voters : ∀ x ∈ n.learner.votes, x.1 ∈ names
  counts : n.learner.Counts votes

theorem Counting.mono {names : List NodeId} {votes more : List Vote}
    (counting : n.Counting names votes) (sub : votes ⊆ more) : n.Counting names more :=
  ⟨counting.promises, counting.rejections, counting.voters, counting.counts.mono sub⟩

/-- A resumed node counts nobody. -/
theorem resume_counting (setup : Setup) (now : Nat) (s : Snapshot) (names : List NodeId)
    (votes : List Vote) : (resume setup now s).Counting names votes := by
  have none : (resume setup now s).proposer.promises = [] := by
    rcases resume_cases setup now s with ⟨-, same⟩ | ⟨b, -, same⟩ <;> rw [same]
    · rfl
    · exact (Proposer.observe_identity _ b).2.2
  refine ⟨?_, List.nil_subset _, ?_, Learner.counts_start votes setup.quorum⟩
  · rw [none]
    exact List.nil_subset _
  · intro x mem
    cases mem

/-- **A node goes on to count these names**, if what it takes in comes under one of them. -/
theorem Counting.step {names : List NodeId} {votes : List Vote} (counting : n.Counting names votes)
    (now : Nat)
    (named : ∀ message x, input = .receive message → message.sender? = some x → x ∈ names)
    (told : ∀ message x, input = .receive message → message.vote? = some x → x ∈ votes) :
    (n.step now input).1.Counting names votes := by
  have learner := (n.step_roles now input).learner
  have heard : ∀ s b v, learnerOrder input = some (.accepted s b v) →
      s ∈ names ∧ { voter := s, ballot := b, value := v } ∈ votes := by
    intro s b v ordered
    have received := learnerOrder_accepted ordered
    exact ⟨named _ _ received rfl, told _ _ received rfl⟩
  have after := Learner.heed_counts counting.voters counting.counts heard
  refine ⟨?_, ?_, ?_, ?_⟩
  · refine step_keeps (P := fun p => p.promises ⊆ names) (fun p q o mem move kept => ?_)
      counting.promises
    cases move with
    | begin => exact List.nil_subset _
    | count =>
      intro x counted
      rcases List.mem_append.1 counted with old | new
      · rw [(p.observe_identity _).2.2] at old
        exact kept old
      · rw [List.mem_singleton.1 new]
        exact named _ _ (orders_promise mem) rfl
    | _ => exact kept
  · rw [step_rejections]
    split
    · exact List.nil_subset _
    · intro x mem
      rcases mem_noting.1 mem with old | rejected
      · exact counting.rejections old
      · obtain ⟨b, promised, rfl⟩ := rejects_received rejected
        exact named _ _ rfl rfl
  · rw [learner]
    exact after.1
  · rw [learner]
    exact after.2

end Node

namespace Replica

variable {r t : Replica} {names : List NodeId} {quorum : Nat} {log : List Message}

/-- What the log of a life shows of the members. -/
structure Membership (names : List NodeId) (quorum : Nat) (log : List Message) (r : Replica) :
    Prop where
  members : r.id :: r.peers = names
  senders : ∀ message ∈ log, ∀ x, message.sender? = some x → x ∈ names
  quorum : r.node.learner.quorum = quorum
  counting : r.node.Counting names (log.filterMap Message.vote?)

/-- A message that gets past the check comes under the name of a member, if under any. -/
theorem member_of_knows {message : Message} (known : r.knows message = true) {x : NodeId}
    (sender : message.sender? = some x) : x ∈ r.id :: r.peers := by
  simpa [knows, sender] using known

theorem Membership.sender (membership : Membership names quorum log r) {message : Message}
    (known : r.knows message = true) {x : NodeId} (sender : message.sender? = some x) :
    x ∈ names :=
  membership.members ▸ member_of_knows known sender

/-- More messages are taken in, of members. -/
theorem Membership.extend (membership : Membership names quorum log r) {taken : List Message}
    (known : ∀ message ∈ taken, r.knows message = true) :
    Membership names quorum (log ++ taken) r := by
  refine ⟨membership.members, fun message mem x sender => ?_, membership.quorum, ?_⟩
  · rcases List.mem_append.1 mem with old | new
    · exact membership.senders message old x sender
    · exact membership.sender (known message new) sender
  · rw [List.filterMap_append]
    exact membership.counting.mono (List.subset_append_left _ _)

theorem Membership.operate (membership : Membership names quorum log r) (now : Nat)
    {input : Node.Input} (logged : ∀ message, input = .receive message → message ∈ log) :
    Membership names quorum log (r.absorb (r.node.step now input)) := by
  have roles := r.node.step_roles now input
  refine ⟨?_, membership.senders, ?_, ?_⟩
  · show (r.node.step now input).1.id :: r.peers = names
    rw [roles.id]
    exact membership.members
  · show (r.node.step now input).1.learner.quorum = quorum
    rw [roles.learner, ← membership.quorum]
    cases Node.learnerOrder input with
    | none => rfl
    | some order =>
      cases order with
      | accepted source b v => exact Learner.receiveAccepted_quorum _ source b v
      | setActive on => rfl
  · refine membership.counting.step now (fun message x received sender => ?_)
      fun message x received vote => ?_
    · exact membership.senders message (logged message received) x sender
    · exact List.mem_filterMap.2 ⟨message, logged message received, vote⟩

/-- **Each change counts members only.** -/
theorem Membership.change {taken : List Message} (membership : Membership names quorum log r)
    (change : Change r taken t) : Membership names quorum (log ++ taken) t := by
  cases change with
  | aside same known =>
    have more := membership.extend known
    refine ⟨?_, more.senders, ?_, ?_⟩
    · rw [id, same.node, same.peers]
      exact more.members
    · rw [same.node]
      exact more.quorum
    · rw [same.node]
      exact more.counting
  | operate now internal =>
    rw [List.append_nil]
    exact membership.operate now fun message received => absurd received (internal message)
  | @hear now message known =>
    have one : ∀ m ∈ [message], r.knows m = true := by
      intro m mem
      rw [List.mem_singleton.1 mem]
      exact known
    refine (membership.extend one).operate now fun m received => ?_
    cases received
    exact List.mem_append_right _ (List.mem_singleton_self _)
  | take | resolve =>
    rw [List.append_nil]
    exact ⟨membership.members, membership.senders, membership.quorum, membership.counting⟩

theorem start_membership {c : Config} {s : Store} {now : Nat} (started : start c s now = .ok r) :
    Membership c.names c.quorumSize [] r := by
  rw [start_eq started]
  exact ⟨rfl, by simp, rfl, Node.resume_counting c.setup now s.saved _ _⟩

theorem Life.membership {c : Config} {s : Store} {now : Nat} {r₀ : Replica}
    (started : start c s now = .ok r₀) (life : Life r₀ log r) :
    Membership c.names c.quorumSize log r := by
  refine life.keeps (fun past r taken t change kept => ?_) (start_membership started)
  exact kept.change change

/-- More than half of the members sent their votes for this ballot, one of them for this value. -/
def Majority (c : Config) (log : List Message) (b : Ballot) (v : Value) : Prop :=
  ∃ voters : List NodeId, voters.Nodup ∧ voters ⊆ c.names ∧ c.clusterSize < 2 * voters.length ∧
    (∀ x ∈ voters, ∃ w, .accepted x b w ∈ log) ∧ ∃ x ∈ c.names, .accepted x b v ∈ log

theorem mem_votes {x : NodeId} {b : Ballot} {v : Value}
    (vote : { voter := x, ballot := b, value := v } ∈ log.filterMap Message.vote?) :
    .accepted x b v ∈ log := by
  obtain ⟨message, mem, same⟩ := List.mem_filterMap.1 vote
  cases message with
  | accepted sender c w =>
    cases same
    exact mem
  | _ => cases same

/-- What a learner resolves a majority of the members has voted for. -/
theorem Membership.majority {c : Config} (valid : c.validate = .ok c)
    (membership : Membership c.names c.quorumSize log r) {b : Ballot} {v : Value}
    (resolved : r.node.learner.resolution = some (b, v)) : Majority c log b v := by
  obtain ⟨n, voters, enough, backed⟩ := membership.counting.counts.resolved b v resolved
  have member {x : NodeId} {w : Value} (heard : .accepted x b w ∈ log) : x ∈ c.names :=
    membership.senders _ heard x rfl
  refine ⟨voters, backed.nodup, fun x mem => ?_, ?_, fun x mem => ?_, ?_⟩
  · obtain ⟨w, vote⟩ := backed.voted x mem
    exact member (mem_votes vote)
  · have majority := (Config.valid_of_validate valid).majority
    rw [membership.quorum] at enough
    rw [backed.size]
    omega
  · obtain ⟨w, vote⟩ := backed.voted x mem
    exact ⟨w, mem_votes vote⟩
  · obtain ⟨x, vote⟩ := backed.named
    exact ⟨x, member (mem_votes vote), mem_votes vote⟩

/-- **Quorums consist of members.**  In a life under a valid configuration, whatever came in and
under whatever names, only messages of members were taken in, and everyone who is counted is a
member.  A decision that the replica is about to record, or has recorded beside what its store held,
was made by a majority of the members, whose votes for its ballot were taken in. -/
theorem decided_by_majority {c : Config} (valid : c.validate = .ok c) {s : Store} {now : Nat}
    {r₀ : Replica} (started : start c s now = .ok r₀) (life : Life r₀ log r) :
    (∀ message ∈ log, ∀ x, message.sender? = some x → x ∈ c.names) ∧
    (r.node.proposer.promises ⊆ c.names ∧ r.node.rejections ⊆ c.names ∧
      ∀ x ∈ r.node.learner.votes, x.1 ∈ c.names) ∧
    (∀ b v, .resolved b v ∈ r.queue → Majority c log b v) ∧
    ∀ b v, r.store.decision = some (b, v) → s.decision = some (b, v) ∨ Majority c log b v := by
  have membership := life.membership started
  obtain ⟨told, standing⟩ := life.standing (start_standing started).2
  refine ⟨membership.senders, ?_, fun b v queued => ?_, fun b v recorded => ?_⟩
  · exact ⟨membership.counting.promises, membership.counting.rejections, membership.counting.voters⟩
  · exact membership.majority valid (standing.queued queued)
  · rcases standing.cases with ⟨-, -, same⟩ | ⟨-, p, resolved, -, same | ⟨-, new⟩⟩
    · exact .inl (same.symm.trans recorded)
    · exact .inl (same.symm.trans recorded)
    · have own : some p = some (b, v) := new.symm.trans recorded
      exact .inr (membership.majority valid (resolved.trans own))

/-- A stranger's vote, and those of two members, for a node that has not flushed yet. -/
def strangerHeard : Replica :=
  (((trioOn none).act 0 (.receive (.accepted "x" ⟨2, "c"⟩ "y"))).act 0
    (.receive (.accepted "b" ⟨2, "c"⟩ "v"))).act 0 (.receive (.accepted "c" ⟨2, "c"⟩ "v"))

/-- The two members decide. -/
theorem decided_by_majority_strangerHeard :
    let log : List Message := [.accepted "b" ⟨2, "c"⟩ "v", .accepted "c" ⟨2, "c"⟩ "v"]
    trio.validate = .ok trio ∧ start trio {} 0 = .ok (trioOn none) ∧
      Life (trioOn none) log strangerHeard ∧ strangerHeard.queue = [.resolved ⟨2, "c"⟩ "v"] ∧
      Majority trio log ⟨2, "c"⟩ "v" := by
  intro log
  have valid : trio.validate = .ok trio := rfl
  have started : start trio {} 0 = .ok (trioOn none) := rfl
  have life : Life (trioOn none) log strangerHeard :=
    ((Life.begin.input 0 (.receive (.accepted "x" ⟨2, "c"⟩ "y"))).input 0
      (.receive (.accepted "b" ⟨2, "c"⟩ "v"))).input 0 (.receive (.accepted "c" ⟨2, "c"⟩ "v"))
  have queued : strangerHeard.queue = [.resolved ⟨2, "c"⟩ "v"] := by decide +kernel
  obtain ⟨-, -, majority, -⟩ := decided_by_majority valid started life
  exact ⟨valid, started, life, queued, majority _ _ (by simp [queued])⟩

end Replica

end Synod
