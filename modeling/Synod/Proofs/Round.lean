/-
Synod.Proofs.Round -- one round, and nothing else

Suppose promises are asked for under one ballot `b` only, and votes for one value `v` only.
Then an acceptor has promised nothing, or `b`, or it has voted for `v`; the owner of `b`
counts promises until it leads; and a learner counts votes for `b` (`Node.InRound`).  A node
stays that way, whatever of the round reaches it, in any order and any number of times, and
what it sends belongs to the round (`Node.InRound.step`).

Nothing is lost in a node (`Node.Answers`).  What asks it for a reply is replied to at once,
unless a reply is held, and a held reply goes once it is durable.  A promise is counted, or
the node leads already; then it has asked for votes.  A vote is counted, or the learner has
resolved.
-/
import Synod.Proofs.Roles
import Synod.Proofs.Tally

namespace Synod

set_option autoImplicit false

variable {quorum : Nat} {b : Ballot} {v : Value}

/-- What a node may ask for in the round of `b`. -/
def Effect.InRound (b : Ballot) (v : Value) (self : NodeId) : Effect → Prop
  | .prepare c => self = b.owner ∧ c = b
  | .promise recipient c _ value => recipient = b.owner ∧ c = b ∧ (value = none ∨ value = some v)
  | .accept c w => self = b.owner ∧ c = b ∧ w = v
  | .accepted _ c w => c = b ∧ w = v
  | .heartbeat leader _ => leader = b.owner
  | .prepareNack .. | .acceptNack .. => False
  | .resolved .. | .leadershipAcquired | .leadershipLost | .leaderChanged .. => True

/-- What a node may receive in the round of `b`. -/
def Message.InRound (b : Ballot) (v : Value) (self : NodeId) : Message → Prop
  | .prepare sender c => sender = b.owner ∧ c = b
  | .promise _ c _ value => self = b.owner ∧ c = b ∧ (value = none ∨ value = some v)
  | .accept sender c w => sender = b.owner ∧ c = b ∧ w = v
  | .accepted _ c w => c = b ∧ w = v
  | .heartbeat sender _ => sender = b.owner
  | .prepareNack .. | .acceptNack .. | .propose _ => False

/-! ## Acceptors -/

namespace Acceptor

structure InRound (b : Ballot) (v : Value) (a : Acceptor) : Prop where
  active : a.active = true
  promised : a.promised = none ∨ a.promised = some b
  voted : a.accepted = none ∧ a.value = none ∨
    a.promised = some b ∧ a.accepted = some b ∧ a.value = some v
  heldPromise : a.pendingPromise = none ∨ a.pendingPromise = some b.owner ∧ a.promised = some b
  heldVote : a.pendingVote = none ∨ a.accepted = some b

/-- A reply is held, or it is given now. -/
structure Answers (b : Ballot) (v : Value) (a : Acceptor) (order : Option Input)
    (r : Acceptor × List Effect) : Prop where
  promise : a.pendingPromise ≠ none ∨ order = some (.prepare b.owner b) →
    r.1.pendingPromise ≠ none ∨ ∃ vote value, .promise b.owner b vote value ∈ r.2
  vote : a.pendingVote ≠ none ∨ order = some (.accept b.owner b v) →
    r.1.pendingVote ≠ none ∨ ∃ source, .accepted source b v ∈ r.2

/-- What the round asks of an acceptor. -/
inductive Ordered (b : Ballot) (v : Value) : Option Input → Prop
  | nothing : Ordered b v none
  | prepare : Ordered b v (some (.prepare b.owner b))
  | accept : Ordered b v (some (.accept b.owner b v))
  | persisted : Ordered b v (some .persisted)

/-- The acceptor is in the round, so is what it sends, and it answers. -/
structure Proceeds (b : Ballot) (v : Value) (a : Acceptor) (order : Option Input)
    (r : Acceptor × List Effect) : Prop where
  inRound : r.1.InRound b v
  effects : ∀ name, ∀ e ∈ r.2, e.InRound b v name
  answers : a.Answers b v order r

variable {a : Acceptor}

/-- A prepare is answered with a promise, now or once it is durable. -/
theorem InRound.receivePrepare (inRound : a.InRound b v) (valid : b.Valid) (now : Nat) :
    a.Proceeds b v (some (.prepare b.owner b)) (a.receivePrepare now b.owner b) := by
  obtain ⟨active, promised, voted, heldPromise, heldVote⟩ := inRound
  simp only [Acceptor.receivePrepare, takePromise]
  refine ⟨?kept, ?sent, ?answered⟩
  case kept => constructor <;> grind
  case sent => grind [Effect.InRound]
  case answered => constructor <;> grind

/-- A request to vote is answered with the vote, now or once it is durable. -/
theorem InRound.receiveAccept (inRound : a.InRound b v) (valid : b.Valid) :
    a.Proceeds b v (some (.accept b.owner b v)) (a.receiveAccept b.owner b v) := by
  obtain ⟨active, promised, voted, heldPromise, heldVote⟩ := inRound
  have level : ¬ b < b := Ballot.lt_irrefl b
  simp only [Acceptor.receiveAccept, castVote]
  refine ⟨?kept, ?sent, ?answered⟩
  case kept => constructor <;> grind
  case sent => grind [Effect.InRound]
  case answered => constructor <;> grind

/-- What is durable is replied. -/
theorem InRound.persisted (inRound : a.InRound b v) :
    a.Proceeds b v (some .persisted) a.persisted := by
  obtain ⟨active, promised, voted, heldPromise, heldVote⟩ := inRound
  have released : a.persisted.2 = a.heldPromise ++ a.heldVote := if_pos active
  have reported : a.value = none ∨ a.value = some v := voted.imp And.right fun h => h.2.2
  refine ⟨⟨active, promised, voted, .inl rfl, .inl rfl⟩, fun name e mem => ?_, ?_, ?_⟩
  · rw [released] at mem
    rcases List.mem_append.1 mem with promise | vote
    · rcases heldPromise with none | ⟨waits, promised⟩
      · simp [Acceptor.heldPromise, none] at promise
      · have one : e = .promise b.owner b a.accepted a.value := by
          simpa [Acceptor.heldPromise, waits, promised] using promise
        rw [one]
        exact ⟨rfl, rfl, reported⟩
    · obtain ⟨source, c, w, waits, accepted, value, rfl⟩ := Acceptor.mem_heldVote vote
      rcases voted with ⟨none, -⟩ | ⟨-, accepted', value'⟩
      · rw [none] at accepted
        cases accepted
      · rw [accepted, Option.some.injEq] at accepted'
        rw [value, Option.some.injEq] at value'
        exact ⟨accepted', value'⟩
  · intro due
    have held : a.pendingPromise = some b.owner ∧ a.promised = some b :=
      heldPromise.resolve_left (by simpa using due)
    refine .inr ⟨a.accepted, a.value, ?_⟩
    rw [released]
    simp [Acceptor.heldPromise, held]
  · intro due
    have waits : a.pendingVote ≠ none := by simpa using due
    obtain ⟨source, held⟩ := Option.ne_none_iff_exists'.1 waits
    have accepted := heldVote.resolve_left waits
    rcases voted with ⟨none, -⟩ | ⟨-, -, value⟩
    · rw [none] at accepted
      cases accepted
    · refine .inr ⟨source, ?_⟩
      rw [released]
      simp [Acceptor.heldVote, held, accepted, value]

/-- **An acceptor answers all that the round asks of it.** -/
theorem InRound.heed (inRound : a.InRound b v) (valid : b.Valid) (now : Nat)
    {order : Option Input} (ordered : Ordered b v order) :
    a.Proceeds b v order (a.heed now order) := by
  cases ordered with
  | nothing => exact ⟨inRound, by simp [Acceptor.heed], by simp [Acceptor.heed],
      by simp [Acceptor.heed]⟩
  | prepare => exact inRound.receivePrepare valid now
  | accept => exact inRound.receiveAccept valid
  | persisted => exact inRound.persisted

end Acceptor

/-! ## The proposer of the round -/

namespace Proposer

/-- The owner of the ballot, from its prepare on. -/
structure InRound (quorum : Nat) (b : Ballot) (v : Value) (p : Proposer) : Prop where
  active : p.active = true
  ballot : p.ballot = b
  size : p.quorum = quorum
  proposal : p.proposal = some v
  leader : p.leader = decide (quorum ≤ p.promises.length)

/-- Whether a proposer needs a node's promise no more. -/
def Counted (p : Proposer) (source : NodeId) : Prop := p.leader = true ∨ source ∈ p.promises

theorem observe_own (p : Proposer) : p.observe p.ballot = p := by
  unfold observe
  have low : ¬ p.ballot.number < min p.ballot.number (Ballot.lastRound - 1) := by
    show ¬ p.ballot.number < if p.ballot.number ≤ Ballot.lastRound - 1 then _ else _
    split
    · exact UInt64.lt_irrefl _
    · next above => exact fun less => above (UInt64.le_of_lt less)
  simp [low]

/-- **A promise of the round is counted**, or there was a quorum without it.  With the quorum
the proposer asks for votes. -/
theorem InRound.receivePromise {p : Proposer} (inRound : p.InRound quorum b v) (source : NodeId)
    (accepted : Option Ballot) {value : Option Value} (reported : value = none ∨ value = some v) :
    (p.receivePromise source b accepted value).1.InRound quorum b v ∧
      (∀ e ∈ (p.receivePromise source b accepted value).2, e.InRound b v b.owner) ∧
      (p.receivePromise source b accepted value).1.Counted source ∧
      (∀ s, p.Counted s → (p.receivePromise source b accepted value).1.Counted s) ∧
      ((p.receivePromise source b accepted value).1.leader = true →
        p.leader = true ∨ .accept b v ∈ (p.receivePromise source b accepted value).2) := by
  obtain ⟨active, ballot, size, proposal, leader⟩ := inRound
  have stays : p.observe b = p := by rw [← ballot, observe_own]
  simp only [Proposer.receivePromise, stays]
  split
  · next ignored =>
    have counted : p.Counted source := by
      rcases ignored with leads | other | heard
      · exact .inl leads
      · exact absurd ballot.symm other
      · exact .inr heard
    exact ⟨⟨active, ballot, size, proposal, leader⟩, by simp, counted, fun _ old => old, .inl⟩
  · next counts =>
    simp only [not_or, Bool.not_eq_true] at counts
    -- a vote that is reported is for `v`, so it changes nothing but the highest vote
    obtain ⟨highest, adopted⟩ : ∃ highest,
        ({ p with promises := p.promises ++ [source] } : Proposer).adopt accepted value =
          { p with promises := p.promises ++ [source], highestVote := highest } := by
      unfold adopt
      split
      · refine ⟨accepted, ?_⟩
        rcases reported with rfl | rfl <;> simp [proposal]
      · exact ⟨p.highestVote, rfl⟩
    rw [adopted]
    simp only
    split
    · next enough =>
      have asked : ({ p with promises := p.promises ++ [source], highestVote := highest } :
          Proposer).acceptRequest = [.accept b v] := by
        simp [acceptRequest, active, proposal, ballot]
      rw [asked]
      refine ⟨⟨active, ballot, size, proposal, ?_⟩, ?_, .inl rfl, fun _ _ => .inl rfl, ?_⟩
      · exact (decide_eq_true (size ▸ enough)).symm
      · simp [Effect.InRound]
      · simp
    · next few =>
      refine ⟨⟨active, ballot, size, proposal, ?_⟩, by simp, ?_, fun s old => ?_, .inl⟩
      · exact counts.1.trans (decide_eq_false (size ▸ few)).symm
      · exact .inr (List.mem_append_right _ (List.mem_singleton_self _))
      · exact old.imp_right (List.mem_append_left _)

/-- Promises of the round, one after the other. -/
theorem InRound.run {p : Proposer} (inRound : p.InRound quorum b v) {orders : List Input}
    (ordered : ∀ o ∈ orders, ∃ source vote value,
      o = .promise source b vote value ∧ (value = none ∨ value = some v)) :
    (p.run orders).1.InRound quorum b v ∧ (∀ e ∈ (p.run orders).2, e.InRound b v b.owner) ∧
      (∀ s, p.Counted s ∨ (∃ vote value, .promise s b vote value ∈ orders) →
        (p.run orders).1.Counted s) ∧
      ((p.run orders).1.leader = true → p.leader = true ∨ .accept b v ∈ (p.run orders).2) := by
  induction orders generalizing p with
  | nil => exact ⟨inRound, by simp [Proposer.run], fun s old => old.resolve_right (by simp), .inl⟩
  | cons o rest ih =>
    obtain ⟨source, vote, value, rfl, reported⟩ := ordered o List.mem_cons_self
    obtain ⟨first, sent, here, kept, won⟩ := inRound.receivePromise source vote reported
    obtain ⟨last, more, later, asked⟩ :=
      ih first fun o mem => ordered o (List.mem_cons_of_mem _ mem)
    refine ⟨last, fun e mem => ?_, fun s due => ?_, fun leads => ?_⟩
    · rcases List.mem_append.1 mem with old | new
      · exact sent e old
      · exact more e new
    · rcases due with old | ⟨vote', value', mem⟩
      · exact later s (.inl (kept s old))
      · rcases List.mem_cons.1 mem with same | mem
        · cases same
          exact later _ (.inl here)
        · exact later s (.inr ⟨vote', value', mem⟩)
    · rcases asked leads with early | late
      · exact (won early).imp_right (List.mem_append_left _)
      · exact .inr (List.mem_append_right _ late)

end Proposer

/-! ## Learners -/

namespace Learner

/-- A learner that hears of votes for `v` under `b` only. -/
structure InRound (quorum : Nat) (b : Ballot) (v : Value) (l : Learner) : Prop where
  size : l.quorum = quorum
  votes : ∀ x ∈ l.votes, x.2 = b
  count : l.resolution = some (b, v) ∨ l.resolution = none ∧ l.votes.length < quorum ∧
    (l.votes = [] ∧ l.tallies = [] ∨
      ∃ t, l.tallies = [(b, t)] ∧ t.cast = l.votes.length ∧ t.value = v)

/-- Whether a learner needs a node's vote no more. -/
def Heard (l : Learner) (source : NodeId) : Prop :=
  l.complete = true ∨ source ∈ l.votes.map Prod.fst

/-- The latest vote of everybody who voted is for `b`. -/
theorem InRound.lookup {l : Learner} (inRound : l.InRound quorum b v) (source : NodeId) :
    l.votes.lookup source = if source ∈ l.votes.map Prod.fst then some b else none := by
  split
  · next known =>
    obtain ⟨⟨s, c⟩, mem, rfl⟩ := List.mem_map.1 known
    have there : l.votes.lookup s ≠ none := fun none =>
      absurd (List.lookup_eq_none_iff.1 none _ mem) (by simp)
    obtain ⟨c', found⟩ := Option.ne_none_iff_exists'.1 there
    obtain ⟨before, after, split, -⟩ := List.lookup_eq_some_iff.1 found
    rw [found, ← inRound.votes (s, c') (by simp [split])]
  · next unknown =>
    refine List.lookup_eq_none_iff.2 fun x mem => ?_
    simpa using fun same : source = x.1 => unknown (same ▸ List.mem_map_of_mem mem)

/-- One more vote for `v`. -/
theorem InRound.count_new {l : Learner} (inRound : l.InRound quorum b v)
    (unresolved : l.resolution = none) {source : NodeId}
    (unknown : source ∉ l.votes.map Prod.fst) :
    (counted (l.released source) b v).cast = l.votes.length + 1 ∧
      (counted (l.released source) b v).value = v ∧
      (∀ t, assign (l.released source) b t = [(b, t)]) ∧
      assign l.votes source b = l.votes ++ [(source, b)] := by
  have kept : l.released source = l.tallies := by
    unfold released
    rw [inRound.lookup, if_neg unknown]
  have more : assign l.votes source b = l.votes ++ [(source, b)] := by
    unfold assign
    rw [List.filter_eq_self.2]
    intro x mem
    exact decide_eq_true fun same => unknown (same ▸ List.mem_map_of_mem mem)
  rw [kept]
  rcases inRound.count with resolved | ⟨-, -, ⟨none, empty⟩ | ⟨t, one, cast, value⟩⟩
  · rw [unresolved] at resolved
    cases resolved
  · exact ⟨by simp [counted, none, empty], by simp [counted, empty], by simp [assign, empty], more⟩
  · exact ⟨by simp [counted, one, cast], by simp [counted, one, value], by simp [assign, one], more⟩

/-- **A vote of the round is counted**, or there was a quorum without it. -/
theorem InRound.receiveAccepted {l : Learner} (inRound : l.InRound quorum b v) (valid : b.Valid)
    (source : NodeId) :
    (l.receiveAccepted source b v).1.InRound quorum b v ∧
      (l.receiveAccepted source b v).1.Heard source ∧
      ∀ s, l.Heard s → (l.receiveAccepted source b v).1.Heard s := by
  have lookup := inRound.lookup source
  rcases inRound.count with resolved | ⟨unresolved, few, -⟩
  · have ignored : l.receiveAccepted source b v = (l, []) := by
      simp [Learner.receiveAccepted, complete, resolved]
    rw [ignored]
    exact ⟨inRound, .inl (by simp [complete, resolved]), fun _ old => old⟩
  by_cases known : source ∈ l.votes.map Prod.fst
  · have ignored : l.receiveAccepted source b v = (l, []) := by
      rw [if_pos known] at lookup
      simp [Learner.receiveAccepted, lookup, Ballot.Exceeds]
    rw [ignored]
    exact ⟨inRound, .inr known, fun _ old => old⟩
  · obtain ⟨cast, value, tallies, more⟩ := inRound.count_new unresolved known
    have fresh : ¬ (l.complete = true ∨ ¬ b.Valid ∨
        ¬ Ballot.Exceeds (some b) (l.votes.lookup source)) := by
      rw [if_neg known] at lookup
      simp [complete, unresolved, valid, lookup, Ballot.Exceeds]
    rw [Learner.receiveAccepted, if_neg fresh]
    simp only [tallies, more]
    split
    · exact ⟨⟨inRound.size, by simp, .inl (by rw [value])⟩, .inl rfl, fun _ _ => .inl rfl⟩
    · next less =>
      have short : l.votes.length + 1 < quorum := by
        have size := inRound.size
        omega
      refine ⟨⟨inRound.size, fun x mem => ?_, .inr ⟨unresolved, ?_, .inr ⟨_, rfl, ?_, value⟩⟩⟩,
        .inr (by simp), fun s old => old.imp_right fun heard => ?_⟩
      · rcases List.mem_append.1 mem with old | new
        · exact inRound.votes x old
        · rw [List.mem_singleton.1 new]
      · simpa using short
      · simp [cast]
      · rw [List.map_append]
        exact List.mem_append_left _ heard

/-- What the round tells a learner. -/
theorem InRound.heed {l : Learner} (inRound : l.InRound quorum b v) (valid : b.Valid)
    {order : Option Input} (told : order = none ∨ ∃ source, order = some (.accepted source b v)) :
    (l.heed order).1.InRound quorum b v ∧
      ∀ s, l.Heard s ∨ order = some (.accepted s b v) → (l.heed order).1.Heard s := by
  rcases told with rfl | ⟨source, rfl⟩
  · exact ⟨inRound, fun s old => old.resolve_right (by simp)⟩
  · obtain ⟨kept, here, others⟩ := inRound.receiveAccepted valid source
    refine ⟨kept, fun s due => ?_⟩
    rcases due with old | same
    · exact others s old
    · cases same
      exact here

end Learner

/-! ## Nodes -/

namespace Node

structure InRound (quorum : Nat) (b : Ballot) (v : Value) (n : Node) : Prop where
  acceptor : n.acceptor.InRound b v
  learner : n.learner.InRound quorum b v
  runner : n.id = b.owner → n.proposer.InRound quorum b v
  follower : n.id ≠ b.owner → n.leading = false

/-- What may happen to a node in the round. -/
def Input.InRound (b : Ballot) (v : Value) (self : NodeId) : Input → Prop
  | .receive message => message.InRound b v self
  | .persisted => True
  | _ => False

/-- Nothing is lost in a node. -/
structure Answers (b : Ballot) (v : Value) (n : Node) (input : Input) (r : Node × List Effect) :
    Prop where
  promise : n.acceptor.pendingPromise ≠ none ∨ input = .receive (.prepare b.owner b) →
    r.1.acceptor.pendingPromise ≠ none ∨ ∃ vote value, .promise b.owner b vote value ∈ r.2
  vote : n.acceptor.pendingVote ≠ none ∨ input = .receive (.accept b.owner b v) →
    r.1.acceptor.pendingVote ≠ none ∨ ∃ source, .accepted source b v ∈ r.2
  count : n.id = b.owner → ∀ s, n.proposer.Counted s ∨
    (∃ vote value, input = .receive (.promise s b vote value)) → r.1.proposer.Counted s
  lead : r.1.leading = true → n.leading = true ∨ .accept b v ∈ r.2
  hear : ∀ s, n.learner.Heard s ∨ input = .receive (.accepted s b v) → r.1.learner.Heard s

/-- The node is in the round, so is what it sends, and it answers. -/
structure Proceeds (quorum : Nat) (b : Ballot) (v : Value) (n : Node) (input : Input)
    (r : Node × List Effect) : Prop where
  id : r.1.id = n.id
  inRound : r.1.InRound quorum b v
  effects : ∀ e ∈ r.2, e.InRound b v n.id
  answers : n.Answers b v input r

variable {n : Node} {now : Nat} {input : Input}

/-- Only a leader sends heartbeats. -/
theorem step_heartbeat {leader : NodeId} {c : Ballot}
    (sent : .heartbeat leader c ∈ (n.step now input).2) : (n.step now input).1.leading = true := by
  have pulsed {n : Node} (sent : .heartbeat leader c ∈ (n.pulse now).2) :
      (n.pulse now).1.leading = true := by
    have same : (n.pulse now).1.proposer = n.proposer := (n.pulse_heeds now).proposer
    unfold leading
    rw [same]
    unfold pulse at sent
    split at sent
    · next leads => exact leads
    · cases sent
  have asked (order : Proposer.Input) : .heartbeat leader c ∉ (n.proposer.step order).2 :=
    fun sent => n.proposer.step_speaks order _ sent
  cases input with
  | prepare fresh => exact (asked (.prepare fresh) sent).elim
  | propose w => exact (asked (.propose w) sent).elim
  | resend => exact (asked .resend sent).elim
  | pollLiveness =>
    simp only [step, pollLiveness, acquire] at sent
    split at sent
    · cases sent
    · split at sent
      · exact (asked (.prepare true) sent).elim
      · split at sent
        · cases sent
        · exact (asked (.prepare true) sent).elim
  | acquire =>
    simp only [step, acquire] at sent
    split at sent
    · cases sent
    · exact (asked (.prepare true) sent).elim
  | pulse => exact pulsed sent
  | receive message =>
    cases message with
    | prepare sender d => exact (n.acceptor.step_replies now (.prepare sender d) _ sent).elim
    | accept sender d w => exact (n.acceptor.step_replies now (.accept sender d w) _ sent).elim
    | accepted sender d w =>
      obtain ⟨_, _, same⟩ := n.learner.step_resolved (.accepted sender d w) _ sent
      cases same
    | promise sender d vote value =>
      simp only [step, receive, receivePromise] at sent ⊢
      split at sent
      · next elected =>
        rw [if_pos elected]
        have same := (lead_heeds (n.withProposer
          (n.proposer.receivePromise sender d vote value)).1 now).proposer
        exact (congrArg Proposer.leader same).trans elected.2
      · exact (asked (.promise sender d vote value) sent).elim
    | prepareNack => cases sent
    | acceptNack sender d e =>
      simp only [step, receive, receiveAcceptNack, resign] at sent
      split at sent <;> simp at sent
    | heartbeat sender d =>
      simp only [step, receive, receiveHeartbeat, follow] at sent
      grind
    | propose w => exact (asked (.propose w) sent).elim
  | recover => cases sent
  | persisted => exact (n.acceptor.step_replies now .persisted _ sent).elim
  | setActive => cases sent

theorem Input.InRound.ordered (given : input.InRound b v n.id) :
    Acceptor.Ordered b v (acceptorOrder input) := by
  cases input with
  | receive message =>
    cases message with
    | prepare sender c =>
      obtain ⟨rfl, rfl⟩ := given
      exact .prepare
    | accept sender c w =>
      obtain ⟨rfl, rfl, rfl⟩ := given
      exact .accept
    | _ => exact .nothing
  | persisted => exact .persisted
  | _ => exact given.elim

theorem Input.InRound.told (given : input.InRound b v n.id) :
    learnerOrder input = none ∨ ∃ source, learnerOrder input = some (.accepted source b v) := by
  cases input with
  | receive message =>
    cases message with
    | accepted sender c w =>
      obtain ⟨rfl, rfl⟩ := given
      exact .inr ⟨sender, rfl⟩
    | _ => exact .inl rfl
  | persisted => exact .inl rfl
  | _ => exact given.elim

theorem InRound.orders (inRound : n.InRound quorum b v) (now : Nat)
    (given : input.InRound b v n.id) :
    ∀ o ∈ n.orders now input, n.id = b.owner ∧ ∃ source vote value,
      o = .promise source b vote value ∧ (value = none ∨ value = some v) := by
  intro o mem
  cases input with
  | receive message =>
    cases message with
    | promise sender c vote value =>
      obtain ⟨own, rfl, reported⟩ := given
      exact ⟨own, sender, vote, value, List.mem_singleton.1 mem, reported⟩
    | heartbeat sender c =>
      -- the owner hears itself only, and nobody else leads
      have stays : ¬ n.Yields sender c := by
        rintro ⟨-, -, leads, other⟩
        have foreign : n.id ≠ b.owner := fun own => other (Eq.trans given own.symm)
        rw [inRound.follower foreign] at leads
        cases leads
      simp [orders, stays] at mem
    | prepareNack | acceptNack | propose => exact given.elim
    | prepare | accept | accepted => cases mem
  | persisted => cases mem
  | _ => exact given.elim

/-- Nobody but the owner of the ballot is given an order, so nobody else leads. -/
theorem InRound.step_foreign (inRound : n.InRound quorum b v) (given : input.InRound b v n.id)
    (foreign : n.id ≠ b.owner) :
    n.orders now input = [] ∧ (n.step now input).1.leading = false := by
  have idle : n.orders now input = [] :=
    List.eq_nil_iff_forall_not_mem.2 fun o mem => foreign (inRound.orders now given o mem).1
  refine ⟨idle, ?_⟩
  rw [leading, (n.step_roles now input).proposer, idle]
  exact inRound.follower foreign

/-- What a node of the round sends belongs to the round. -/
theorem InRound.step_effects (inRound : n.InRound quorum b v) (valid : b.Valid)
    (given : input.InRound b v n.id) : ∀ e ∈ (n.step now input).2, e.InRound b v n.id := by
  obtain ⟨-, -, -, -, electoral, reports, effects⟩ := n.step_roles now input
  intro e sent
  have parts := sent
  rw [effects] at parts
  simp only [List.mem_append] at parts
  rcases parts with ((reply | request) | decision) | report
  · exact (inRound.acceptor.heed valid now given.ordered).effects n.id e reply
  · by_cases own : n.id = b.owner
    · rw [own]
      have ran := (inRound.runner own).run fun o mem => (inRound.orders now given o mem).2
      exact ran.2.1 e request
    · rw [(inRound.step_foreign given own).1] at request
      cases request
  · obtain ⟨_, _, rfl⟩ := n.learner.heed_resolved _ e decision
    trivial
  · cases e with
    | heartbeat leader c =>
      have self : leader = n.id := reports _ report
      refine self.trans (not_not.1 fun foreign => ?_)
      have leads := step_heartbeat sent
      rw [(inRound.step_foreign given foreign).2] at leads
      cases leads
    | leadershipAcquired | leadershipLost | leaderChanged => trivial
    | _ => exact (reports _ report).elim

/-- **A node of the round stays in it**, and loses nothing. -/
theorem InRound.step (inRound : n.InRound quorum b v) (valid : b.Valid) (now : Nat)
    (given : input.InRound b v n.id) : n.Proceeds quorum b v input (n.step now input) := by
  obtain ⟨id, acceptor, proposer, learner, electoral, -, effects⟩ := n.step_roles now input
  obtain ⟨promising, -, ⟨promise, vote⟩⟩ := inRound.acceptor.heed valid now given.ordered
  obtain ⟨learning, heard⟩ := inRound.learner.heed valid given.told
  have runs (own : n.id = b.owner) :=
    (inRound.runner own).run fun o mem => (inRound.orders now given o mem).2
  have replied {e : Effect} (mem : e ∈ (n.acceptor.heed now (acceptorOrder input)).2) :
      e ∈ (n.step now input).2 := by
    simp [effects, mem]
  refine ⟨id, ⟨acceptor ▸ promising, learner ▸ learning, fun own => ?_, fun foreign => ?_⟩,
    inRound.step_effects valid given, ⟨?_, ?_, fun own s due => ?_, fun leads => ?_, ?_⟩⟩
  · rw [proposer]
    exact (runs (id ▸ own)).1
  · exact (inRound.step_foreign given (id ▸ foreign)).2
  · rw [acceptor]
    rintro (held | rfl)
    · exact (promise (.inl held)).imp_right fun ⟨w, x, mem⟩ => ⟨w, x, replied mem⟩
    · exact (promise (.inr rfl)).imp_right fun ⟨w, x, mem⟩ => ⟨w, x, replied mem⟩
  · rw [acceptor]
    rintro (held | rfl)
    · exact (vote (.inl held)).imp_right fun ⟨source, mem⟩ => ⟨source, replied mem⟩
    · exact (vote (.inr rfl)).imp_right fun ⟨source, mem⟩ => ⟨source, replied mem⟩
  · rw [proposer]
    refine (runs own).2.2.1 s (due.imp_right fun ⟨w, x, same⟩ => ⟨w, x, ?_⟩)
    rw [same]
    exact List.mem_singleton_self _
  · by_cases own : n.id = b.owner
    · rw [leading, proposer] at leads
      refine ((runs own).2.2.2 leads).imp_right fun mem => ?_
      simp [effects, mem]
    · rw [(inRound.step_foreign given own).2] at leads
      cases leads
  · rw [learner]
    rintro s (old | rfl)
    · exact heard s (.inl old)
    · exact heard s (.inr rfl)

end Node

end Synod
