/-
Synod.Proofs.Discipline -- a member among others, and the history it adds to

A member counts promises that were given and votes that were cast (`Fit`), and what it
sends is backed by the history (`Outbound.Backed`).  An ordinary step keeps both
(`Busy.absorb`), and so does persisting (`Busy.persist`).

A request for votes enters the history when it is broadcast.  It keeps the history lawful
if no other value was asked for under its ballot, and if the node stood at this ballot
before it had any promise: then the promises it counts are those of this ballot, and they
justify the value (`justified`).  `Busy.collect` carries a member's whole traffic.
-/
import Synod.Proofs.Member
import Synod.Proofs.Tally

namespace Synod

set_option autoImplicit false

/-! ## Promises that justify a request -/

def History.Heard (h : History) (r : NodeId) (b : Ballot) (accepted : Option Ballot)
    (value : Option Value) : Prop :=
  { voter := r, ballot := b, accepted, value } ∈ h.promises

namespace Proposer

/-- The highest vote a proposer heard of is one that some promise to it reports, and its
proposal is the value of that vote. -/
def Reports (h : History) (p : Proposer) : Prop :=
  ∀ a, p.highestVote = some a → ∃ g ∈ h.promises, ∃ v, g.accepted = some a ∧
    g.value = some v ∧ p.proposal = some v ∧ g.ballot.owner = p.ballot.owner ∧
    g.ballot.number ≤ p.ballot.number

theorem Reports.mono {h k : History} (grows : h.Grows k) {p : Proposer} (reports : p.Reports h) :
    p.Reports k := by
  intro a found
  obtain ⟨g, mem, rest⟩ := reports a found
  exact ⟨g, grows.promises mem, rest⟩

theorem Reports.raise {h : History} {p : Proposer} (reports : p.Reports h) {b : Ballot}
    (owner : b.owner = p.ballot.owner) (number : p.ballot.number ≤ b.number) :
    ({ p with ballot := b } : Proposer).Reports h := by
  intro a found
  obtain ⟨g, mem, v, accepted, value, proposal, own, le⟩ := reports a found
  exact ⟨g, mem, v, accepted, value, proposal, own.trans owner.symm, UInt64.le_trans le number⟩

theorem Reports.observe {h : History} {p : Proposer} (reports : p.Reports h) (b : Ballot) :
    (p.observe b).Reports h := by
  rcases observe_cases p b with same | ⟨number, -, higher, -, raised⟩
  · rw [same]
    exact reports
  · rw [raised]
    exact reports.raise rfl (UInt64.le_of_lt higher)

theorem Reports.count {h : History} {p : Proposer} (reports : p.Reports h) {source : NodeId}
    {accepted : Option Ballot} {value : Option Value}
    (heard : h.Heard source p.ballot accepted value)
    (named : ∀ a, accepted = some a → ∃ v, value = some v) :
    (p.counted source accepted value).Reports h := by
  intro a found
  by_cases higher : p.highestVote < accepted
  · have found : accepted = some a := (if_pos higher).symm.trans found
    obtain ⟨v, hv⟩ := named a found
    refine ⟨_, heard, v, found, hv, ?_, rfl, UInt64.le_refl _⟩
    exact (if_pos higher).trans (by rw [hv]; rfl)
  · obtain ⟨g, mem, v, reported, names, proposal, rest⟩ :=
      reports a ((if_neg higher).symm.trans found)
    exact ⟨g, mem, v, reported, names, (if_neg higher).trans proposal, rest⟩

/-- Every move keeps what the proposer reports, if the promise it may count was given. -/
theorem Reports.move {h : History} {p q : Proposer} (reports : p.Reports h) {input : Input}
    (move : Move p input q)
    (heard : ∀ s b a v, input = .promise s b a v → h.Heard s b a v)
    (named : ∀ g ∈ h.promises, ∀ a, g.accepted = some a → ∃ v, g.value = some v) :
    q.Reports h := by
  cases move with
  | stay | depose | setActive => exact reports
  | follow _ higher => exact reports.raise rfl (UInt64.le_of_lt higher)
  | begin => exact reports.raise (Ballot.next_owner _) (Ballot.number_le_next _)
  | propose free =>
    intro a found
    obtain ⟨-, -, v, -, -, proposal, -⟩ := reports a found
    rw [free] at proposal
    cases proposal
  | count counts =>
    have given := heard _ _ _ _ rfl
    exact (reports.observe _).count (counts.2.1 ▸ given) (named _ given)

end Proposer

section Justified

variable {names : List NodeId} {quorum : Nat} {voters : NodeId → Voter} {h : History}
  {fresh : Ballot → Prop} {p : Proposer} {b : Ballot} {v : Value}

/-- Promises of distinct nodes, one for each name. -/
theorem promises_of_names (rs : List NodeId) {P : Promise → Prop}
    (each : ∀ r ∈ rs, ∃ g ∈ h.promises, g.voter = r ∧ P g) :
    ∃ given : List Promise, given.map Promise.voter = rs ∧ ∀ g ∈ given, g ∈ h.promises ∧ P g := by
  induction rs with
  | nil => exact ⟨[], rfl, by simp⟩
  | cons r rest ih =>
    obtain ⟨g, mem, rfl, holds⟩ := each r List.mem_cons_self
    obtain ⟨given, names, all⟩ := ih fun r mem => each r (List.mem_cons_of_mem _ mem)
    refine ⟨g :: given, by rw [List.map_cons, names], ?_⟩
    intro k found
    rcases List.mem_cons.1 found with rfl | found
    · exact ⟨mem, holds⟩
    · exact all k found

/-- **A leader's promises justify its request**, if they were all collected since it came
to its ballot. -/
theorem justified (lawful : h.Lawful names quorum voters)
    (collected : p.Collected h.Heard fresh) (reports : p.Reports h) (size : p.quorum = quorum)
    (at_fresh : fresh p.ballot) (asks : p.Asks b v) (first : ∀ w, (b, w) ∉ h.requests) :
    h.Justified quorum b v := by
  obtain ⟨leading, rfl, proposal⟩ := asks
  have enough : quorum ≤ p.promises.length := size ▸ collected.won leading
  obtain ⟨given, voters, all⟩ := promises_of_names (h := h) (p.promises.take quorum)
    (P := fun g => g.ballot = p.ballot ∧ g.accepted ≤ p.highestVote) (by
      intro r mem
      obtain ⟨a, v, heard, le⟩ := collected.promised at_fresh r (List.mem_of_mem_take mem)
      exact ⟨_, heard, rfl, rfl, le⟩)
  have size : given.length = quorum := by
    rw [← List.length_map (f := Promise.voter), voters, List.length_take, Nat.min_eq_left enough]
  refine ⟨given, fun g mem => (all g mem).1, ?_, size, fun g mem => (all g mem).2.1, ?_⟩
  · rw [voters]
    exact (collected.distinct at_fresh).sublist (List.take_sublist _ _)
  · cases highest : p.highestVote with
    | none =>
      refine .inl fun g mem => ?_
      have le := (all g mem).2.2
      rw [highest] at le
      exact le_antisymm le (by simp)
    | some a =>
      obtain ⟨g, mem, w, accepted, value, same, owner, number⟩ := reports a highest
      rw [proposal] at same
      cases same
      refine .inr ⟨g, mem, a, accepted, value, ?_, fun g' mem' => highest ▸ (all g' mem').2.2⟩
      obtain ⟨u, -, requested, le⟩ := lawful.reported g mem a accepted
      have below : a ≤ p.ballot := le.trans (Ballot.le_of_number_le owner number)
      -- a vote at the ballot itself would have been asked for before
      refine lt_of_le_of_ne below ?_
      rintro rfl
      exact first u requested

end Justified

/-! ## What is sent is backed -/

/-- What a message says has happened. -/
def Message.Backed (h : History) : Message → Prop
  | .promise s b vote value => h.Heard s b vote value
  | .accept _ b v => (b, v) ∈ h.requests
  | .accepted s b v => { voter := s, ballot := b, value := v } ∈ h.votes
  | _ => True

theorem Message.Backed.mono {h k : History} (grows : h.Grows k) {x : Message}
    (backed : x.Backed h) : x.Backed k := by
  cases x with
  | promise => exact grows.promises backed
  | accept => exact grows.requests backed
  | accepted => exact grows.votes backed
  | _ => trivial

section Discipline

variable (names : List NodeId) (quorum : Nat)

/-- Traffic that is not carried yet: a request is still the proposer's. -/
def Outbound.Backed (h : History) (p : Proposer) : Outbound → Prop
  | .broadcast (.accept _ b v) => p.Asks b v
  | .broadcast x | .unicast _ x => x.Backed h
  | .resolved b v => h.Chosen names quorum b v

/-- What holds of a member between its operations. -/
structure Member.Fit (h : History) (fresh : NodeId → Ballot → Prop) (m : Member) : Prop where
  member : m.node.id ∈ names
  owner : m.node.proposer.ballot.owner = m.node.id
  size : m.node.proposer.quorum = quorum
  collected : m.node.proposer.Collected h.Heard (fresh m.node.id)
  reports : m.node.proposer.Reports h
  learner : m.node.learner.quorum = quorum
  counts : m.node.learner.Counts h.votes

/-- A fit member with traffic, among the other voters. -/
structure Member.Busy (others : NodeId → Voter) (fresh : NodeId → Ballot → Prop) (h : History)
    (m : Member) : Prop where
  fit : m.Fit names quorum h fresh
  lawful : h.Lawful names quorum (Function.update others m.node.id m.voter)
  own : ∀ o ∈ m.queue, o.Own m.node.id
  backed : ∀ o ∈ m.queue, o.Backed names quorum h m.node.proposer

/-- A member that is busy as it should be, once the replies it gave are in the history. -/
def Member.Answers (others : NodeId → Voter) (fresh : NodeId → Ballot → Prop) (h : History)
    (m : Member) : Prop :=
  ∃ k, h.Grows k ∧ k.requests = h.requests ∧ m.Busy names quorum others fresh k

end Discipline

variable {names : List NodeId} {quorum : Nat} {others : NodeId → Voter}
  {fresh : NodeId → Ballot → Prop} {h k : History} {m : Member}

theorem Outbound.Backed.mono (grows : h.Grows k) {p : Proposer} {o : Outbound}
    (backed : o.Backed names quorum h p) : o.Backed names quorum k p := by
  cases o with
  | broadcast x =>
    cases x with
    | accept => exact backed
    | promise => exact grows.promises backed
    | accepted => exact grows.votes backed
    | _ => exact trivial
  | unicast r x => exact Message.Backed.mono (x := x) grows backed
  | resolved b v => exact History.Chosen.mono grows backed

/-- Replies are backed once they are recorded. -/
theorem backed_of_replies {self : NodeId} {effects : List Effect}
    (replies : ∀ e ∈ effects, e.Reply) {p : Proposer} {o : Outbound}
    (mem : o ∈ outbound self effects) :
    o.Backed names quorum (h.record self effects) p := by
  obtain ⟨e, sent, named⟩ := List.mem_filterMap.1 mem
  cases e with
  | promise r b accepted value =>
    cases named
    have recorded : (h.record self effects).Heard self b accepted value :=
      History.mem_record_promises.2 (.inr ⟨rfl, r, sent⟩)
    exact recorded
  | accepted r b v =>
    cases named
    have recorded : { voter := self, ballot := b, value := v } ∈ (h.record self effects).votes :=
      History.mem_record_votes.2 (.inr ⟨rfl, r, sent⟩)
    exact recorded
  | prepareNack | acceptNack => cases named; exact trivial
  | _ => exact (replies _ sent).elim

namespace Member

theorem Fit.mono (grows : h.Grows k) (fit : m.Fit names quorum h fresh) :
    m.Fit names quorum k fresh where
  member := fit.member
  owner := fit.owner
  size := fit.size
  collected := fit.collected.mono fun _ _ _ _ heard => grows.promises heard
  reports := fit.reports.mono grows
  learner := fit.learner
  counts := fit.counts.mono grows.votes

theorem Fit.renew (fit : m.Fit names quorum h fresh) {next : NodeId → Ballot → Prop}
    (sub : ∀ b, next m.node.id b →
      fresh m.node.id b ∨ b = m.node.proposer.ballot ∧ m.node.proposer.promises = []) :
    m.Fit names quorum h next :=
  { fit with collected := fit.collected.renew sub }

/-! ## Operations -/

/-- What a learner hears in a step. -/
theorem heed_counts {l : Learner} {votes : List Vote} (counts : l.Counts votes)
    {input : Node.Input} (ordinary : input.Ordinary)
    (backed : ∀ s b v, input = .receive (.accepted s b v) →
      { voter := s, ballot := b, value := v } ∈ votes) :
    ((l.heed (Node.learnerOrder input)).1.quorum = l.quorum ∧
      (l.heed (Node.learnerOrder input)).1.Counts votes) ∧
    ∀ b v, .resolved b v ∈ (l.heed (Node.learnerOrder input)).2 →
      ∃ n q, l.quorum ≤ n ∧ Backed votes b v n q := by
  cases input with
  | receive x =>
    cases x with
    | accepted s b v =>
      obtain ⟨after, resolved⟩ := Learner.receiveAccepted_counts counts (backed s b v rfl)
      exact ⟨⟨Learner.receiveAccepted_quorum l s b v, after⟩, resolved⟩
    | _ => exact ⟨⟨rfl, counts⟩, by simp [Learner.heed, Node.learnerOrder]⟩
  | setActive => exact ordinary.elim
  | _ => exact ⟨⟨rfl, counts⟩, by simp [Learner.heed, Node.learnerOrder]⟩

/-- What a step sends is backed, once its replies are recorded. -/
theorem step_backed {n : Node} {now : Nat} {input : Node.Input}
    (decided : ∀ b v, .resolved b v ∈ (n.learner.heed (Node.learnerOrder input)).2 →
      (h.record n.id (n.replies now input)).Chosen names quorum b v)
    {o : Outbound} (mem : o ∈ outbound n.id (n.step now input).2) :
    o.Backed names quorum (h.record n.id (n.replies now input)) (n.step now input).1.proposer := by
  obtain ⟨-, -, -, -, electoral, reports, effects⟩ := n.step_roles now input
  obtain ⟨e, sent, named⟩ := List.mem_filterMap.1 mem
  have parts := sent
  rw [effects] at parts
  simp only [List.mem_append] at parts
  rcases parts with ((reply | spoken) | decision) | report
  · exact backed_of_replies (n.acceptor.heed_replies now _)
      (List.mem_filterMap.2 ⟨e, reply, named⟩)
  · have speaks := n.proposer.run_speaks _ _ spoken
    cases e with
    | prepare => cases named; exact trivial
    | accept b v => cases named; exact Node.step_accept sent
    | leadershipAcquired => cases named
    | _ => exact speaks.elim
  · obtain ⟨b, v, rfl⟩ := n.learner.heed_resolved _ _ decision
    cases named
    exact decided b v decision
  · have electoral := reports e report
    cases e with
    | heartbeat => cases named; exact trivial
    | leadershipAcquired | leadershipLost | leaderChanged => cases named
    | _ => exact electoral.elim

/-- **An ordinary step keeps a member busy as it should be**, if the message it receives
is backed, and if it leaves what is not carried yet to its proposer. -/
theorem Busy.absorb (busy : m.Busy names quorum others fresh h) (now : Nat)
    {input : Node.Input} (ordinary : input.Ordinary)
    (backed : ∀ x, input = .receive x → x.Backed h)
    (still : m.queue = [] ∨ (m.node.step now input).1.proposer = m.node.proposer) :
    (m.absorb (m.node.step now input)).Answers names quorum others fresh h := by
  have self : Function.update others m.node.id m.voter m.node.id = m.voter :=
    Function.update_self ..
  have sound : m.voter.Sound := self ▸ busy.lawful.sound m.node.id busy.fit.member
  have roles := m.node.step_roles now input
  obtain ⟨i, move, asked⟩ := m.absorb_move sound.active now ordinary
  let k := h.record m.node.id (m.node.replies now input)
  have grows : h.Grows k := History.grows_record _ _ _
  have lawful : k.Lawful names quorum
      (Function.update others m.node.id (m.absorb (m.node.step now input)).voter) := by
    rw [← Function.update_idem]
    refine busy.lawful.move busy.fit.member (self.symm ▸ move) fun s b v same => ?_
    exact backed _ (asked s b v same)
  have named : ∀ g ∈ k.promises, ∀ a, g.accepted = some a → ∃ v, g.value = some v :=
    fun g mem a found => (lawful.reported g mem a found).imp fun _ h => h.1
  have fit := busy.fit.mono grows
  have heard (s : NodeId) (b : Ballot) (a : Option Ballot) (v : Option Value)
      (mem : .promise s b a v ∈ m.node.orders now input) : k.Heard s b a v :=
    grows.promises (backed _ (Node.orders_promise mem))
  obtain ⟨⟨learner, counts⟩, resolved⟩ := heed_counts fit.counts ordinary
    fun s b v same => grows.votes (backed _ same)
  rw [← roles.learner] at learner counts
  refine ⟨k, grows, rfl, ⟨roles.id ▸ fit.member, ?_, ?_, ?_, ?_, learner.trans fit.learner, counts⟩,
    ?_, ?_, ?_⟩
  · exact (Node.step_keeps (P := fun p => p.ballot.owner = m.node.id)
      (fun p q o _ move => move.owner.trans) fit.owner).trans roles.id.symm
  · exact Node.step_keeps (P := fun p => p.quorum = quorum)
      (fun p q o _ move => move.quorum.trans) fit.size
  · rw [show (m.absorb (m.node.step now input)).node.id = m.node.id from roles.id]
    refine Node.step_keeps (P := fun p => p.Collected k.Heard (fresh m.node.id))
      (fun p q o mem move collected => ?_) fit.collected
    exact collected.move move fun s b a v same => heard s b a v (same ▸ mem)
  · refine Node.step_keeps (P := fun p => p.Reports k)
      (fun p q o mem move reports => ?_) fit.reports
    exact reports.move move (fun s b a v same => heard s b a v (same ▸ mem)) named
  · rw [show (m.absorb (m.node.step now input)).node.id = m.node.id from roles.id]
    exact lawful
  · intro o mem
    rcases List.mem_append.1 mem with old | new
    · exact roles.id.symm ▸ busy.own o old
    · exact roles.id.symm ▸ Node.step_own new
  · intro o mem
    rcases List.mem_append.1 mem with old | new
    · rcases still with none | same
      · simp [none] at old
      · exact same.symm ▸ (busy.backed o old).mono grows
    · refine step_backed (fun b v decision => ?_) new
      obtain ⟨n, q, enough, backed⟩ := resolved b v decision
      exact lawful.chosen_of_backed (fit.learner ▸ enough) backed

theorem Busy.voter (busy : m.Busy names quorum others fresh h) : m.voter.Sound := by
  have sound := busy.lawful.sound m.node.id busy.fit.member
  rwa [Function.update_self] at sound

theorem Busy.answers (busy : m.Busy names quorum others fresh h) :
    m.Answers names quorum others fresh h :=
  ⟨h, .refl h, rfl, busy⟩

/-- Persisting keeps a member busy as it should be. -/
theorem Busy.persist (busy : m.Busy names quorum others fresh h) :
    m.persist.Answers names quorum others fresh h := by
  obtain ⟨effects, persisted⟩ := m.persist_persisted busy.voter.active
  let k := h.record m.node.id effects
  have grows : h.Grows k := History.grows_record _ _ _
  have fit := busy.fit.mono grows
  refine ⟨k, grows, rfl, ⟨?_, ?_, ?_, ?_, ?_, ?_, ?_⟩, ?_, ?_, ?_⟩
  · exact persisted.id ▸ fit.member
  · exact persisted.proposer ▸ fit.owner.trans persisted.id.symm
  · exact persisted.proposer ▸ fit.size
  · rw [persisted.id, persisted.proposer]
    exact fit.collected
  · exact persisted.proposer ▸ fit.reports
  · exact persisted.learner ▸ fit.learner
  · exact persisted.learner ▸ fit.counts
  · rw [persisted.id, ← Function.update_idem]
    have move := persisted.move
    rw [← Function.update_self (f := others) m.node.id m.voter] at move
    exact busy.lawful.move busy.fit.member move (fun _ _ _ same => by cases same)
  · intro o mem
    rw [persisted.queue] at mem
    rw [persisted.id]
    rcases List.mem_append.1 mem with old | new
    · exact busy.own o old
    · exact own_of_replies persisted.replies new
  · intro o mem
    rw [persisted.queue] at mem
    rw [persisted.proposer]
    rcases List.mem_append.1 mem with old | new
    · exact (busy.backed o old).mono grows
    · exact backed_of_replies persisted.replies new

/-! ## Carrying -/

/-- A member may lose traffic, and go down or up. -/
theorem Busy.fewer (busy : m.Busy names quorum others fresh h) {less : Member}
    (node : less.node = m.node) (durable : less.durable = m.durable)
    (sub : less.queue ⊆ m.queue) : less.Busy names quorum others fresh h := by
  obtain ⟨member, owner, size, collected, reports, learner, counts⟩ := busy.fit
  have voter : less.voter = m.voter := by
    unfold Member.voter
    rw [node, durable]
  rw [← node] at member owner size collected reports learner counts
  refine ⟨⟨member, owner, size, collected, reports, learner, counts⟩, ?_, fun o mem => ?_,
    fun o mem => ?_⟩
  · rw [node, voter]
    exact busy.lawful
  · rw [node]
    exact busy.own o (sub mem)
  · rw [node]
    exact busy.backed o (sub mem)

theorem Busy.ask (busy : m.Busy names quorum others fresh h) {b : Ballot} {v : Value}
    (asks : m.node.proposer.Asks b v) (at_fresh : fresh m.node.id b)
    (same : ∀ w, (b, w) ∈ h.requests → w = v) :
    m.Busy names quorum others fresh (h.ask b v) where
  fit := busy.fit.mono (History.grows_ask h b v)
  lawful := busy.lawful.ask same fun first => justified busy.lawful busy.fit.collected
    busy.fit.reports busy.fit.size (asks.ballot.symm ▸ at_fresh) asks first
  own := busy.own
  backed o mem := (busy.backed o mem).mono (History.grows_ask h b v)

/-- A member handles its own broadcast, and persists. -/
theorem Busy.handle (busy : m.Busy names quorum others fresh h) (now : Nat) {x : Message}
    (own : x.Own m.node.id) (backed : x.Backed h) :
    (m.receive now x).persist.Answers names quorum others fresh h := by
  have still : (m.node.step now (.receive x)).1.proposer = m.node.proposer := by
    rw [(m.node.step_roles now (.receive x)).proposer, Node.orders_own own]
    rfl
  obtain ⟨k, grows, requests, received⟩ := busy.absorb now
    (show (Node.Input.receive x).Ordinary from trivial)
    (fun y same => by cases same; exact backed) (.inr still)
  obtain ⟨l, more, requests', persisted⟩ := received.persist
  exact ⟨l, grows.trans more, requests'.trans requests, persisted⟩

end Member

/-! ## All the traffic -/

def Message.request? : Message → Option (Ballot × Value)
  | .accept _ b v => some (b, v)
  | _ => none

/-- The requests for votes among messages. -/
def requests (announced : List Message) : List (Ballot × Value) :=
  announced.filterMap Message.request?

/-- Under each ballot votes are asked for one value. -/
def UsedOnce (asked : List (Ballot × Value)) : Prop :=
  ∀ x ∈ asked, ∀ y ∈ asked, x.1 = y.1 → x.2 = y.2

instance (asked : List (Ballot × Value)) : Decidable (UsedOnce asked) :=
  inferInstanceAs (Decidable (∀ x ∈ asked, ∀ y ∈ asked, x.1 = y.1 → x.2 = y.2))

theorem UsedOnce.mono {asked more : List (Ballot × Value)} (once : UsedOnce more)
    (sub : asked ⊆ more) : UsedOnce asked :=
  fun x hx y hy => once x (sub hx) y (sub hy)

theorem requests_append (first rest : List Message) :
    requests (first ++ rest) = requests first ++ requests rest :=
  List.filterMap_append

/-- What may be asked for, after these requests: a ballot that is fresh to the node that
asks, and one value under it. -/
structure Permitted (fresh : NodeId → Ballot → Prop) (prior : List (Ballot × Value))
    (announced : List Message) : Prop where
  fresh : ∀ s b v, .accept s b v ∈ announced → fresh s b
  once : UsedOnce (prior ++ requests announced)

theorem Permitted.initial {prior : List (Ballot × Value)} {first rest : List Message}
    (permitted : Permitted fresh prior (first ++ rest)) : Permitted fresh prior first where
  fresh s b v mem := permitted.fresh s b v (List.mem_append_left _ mem)
  once := by
    refine permitted.once.mono ?_
    rw [requests_append, ← List.append_assoc]
    exact List.subset_append_left _ _

theorem Permitted.next {prior later : List (Ballot × Value)} {first rest : List Message}
    (permitted : Permitted fresh prior (first ++ rest))
    (reached : later = prior ++ requests first) : Permitted fresh later rest where
  fresh s b v mem := permitted.fresh s b v (List.mem_append_right _ mem)
  once := by
    rw [reached, List.append_assoc, ← requests_append]
    exact permitted.once

/-- The history that a member's carried traffic leads to. -/
structure Delivers (names : List NodeId) (quorum : Nat) (h k : History) (acc : Carried) : Prop where
  grows : h.Grows k
  requests : k.requests = h.requests ++ requests acc.announced
  sent : ∀ e ∈ acc.sent, e.message.Backed k
  decided : ∀ d ∈ acc.decided, k.Chosen names quorum d.ballot d.value

theorem Delivers.refl (h : History) : Delivers names quorum h h {} where
  grows := History.Grows.refl h
  requests := (List.append_nil _).symm
  sent := by simp
  decided := by simp

theorem Delivers.trans {l : History} {x y : Carried} (hk : Delivers names quorum h k x)
    (kl : Delivers names quorum k l y) : Delivers names quorum h l (x ++ y) where
  grows := hk.grows.trans kl.grows
  requests := by
    rw [kl.requests, hk.requests, Carried.append_announced, requests_append, List.append_assoc]
  sent e mem := by
    rcases List.mem_append.1 mem with old | new
    · exact (hk.sent e old).mono kl.grows
    · exact kl.sent e new
  decided d mem := by
    rcases List.mem_append.1 mem with old | new
    · exact (hk.decided d old).mono kl.grows
    · exact kl.decided d new

namespace Member

/-- **Carrying one piece of traffic keeps a member busy as it should be.** -/
theorem Busy.carry (busy : m.Busy names quorum others fresh h) {o : Outbound}
    {rest : List Outbound} (traffic : m.queue = o :: rest) (now : Nat) (peers : List NodeId)
    (permitted : Permitted fresh h.requests
      ({ m with queue := rest }.carry now peers o).2.announced) :
    ∃ k, Delivers names quorum h k ({ m with queue := rest }.carry now peers o).2 ∧
      ({ m with queue := rest }.carry now peers o).1.Busy names quorum others fresh k := by
  have first : o ∈ m.queue := traffic ▸ List.mem_cons_self
  have own := busy.own o first
  have backed := busy.backed o first
  have left : ({ m with queue := rest } : Member).Busy names quorum others fresh h :=
    busy.fewer rfl rfl (traffic ▸ List.subset_cons_self o rest)
  cases o with
  | broadcast x =>
    -- the envelopes hold the message itself, and no decision is made
    have delivers {h' k : History} (grows : h.Grows h') (more : h'.Grows k)
        (asked : h'.requests = h.requests ++ requests [x]) (same : k.requests = h'.requests)
        (backed : x.Backed h') : Delivers names quorum h k
          ({ m with queue := rest }.carry now peers (.broadcast x)).2 := by
      refine ⟨grows.trans more, same.trans asked, fun e mem => ?_, by simp [Member.carry]⟩
      obtain ⟨r, -, rfl⟩ := List.mem_map.1 mem
      exact backed.mono more
    have named : x.Own m.node.id := own
    cases x with
    | accept s b v =>
      have same : ∀ w, (b, w) ∈ h.requests → w = v := fun w asked =>
        permitted.once (b, w) (List.mem_append_left _ asked) (b, v)
          (List.mem_append_right _ (List.mem_singleton_self (b, v))) rfl
      have at_fresh : fresh m.node.id b :=
        named ▸ permitted.fresh s b v (List.mem_singleton_self _)
      have asked := left.ask backed at_fresh same
      have entered : (b, v) ∈ (h.ask b v).requests := History.mem_ask.2 (.inr ⟨rfl, rfl⟩)
      obtain ⟨k, grows, requests, after⟩ := asked.handle now named entered
      exact ⟨k, delivers (History.grows_ask h b v) grows rfl requests entered, after⟩
    | prepare | accepted | heartbeat =>
      obtain ⟨k, grows, requests, after⟩ := left.handle now named backed
      exact ⟨k, delivers (History.Grows.refl h) grows (List.append_nil _).symm requests backed,
        after⟩
    | _ => exact own.elim
  | unicast r x =>
    have nothing : Delivers names quorum h h {} := .refl h
    refine ⟨h, ⟨nothing.grows, nothing.requests, fun e mem => ?_, nothing.decided⟩, left⟩
    rw [List.mem_singleton.1 mem]
    exact backed
  | resolved b v =>
    have nothing : Delivers names quorum h h {} := .refl h
    refine ⟨h, ⟨nothing.grows, nothing.requests, nothing.sent, fun d mem => ?_⟩, left⟩
    rw [List.mem_singleton.1 mem]
    exact backed

/-- **Carrying all of a member's traffic keeps it fit**, if what it announces is permitted. -/
theorem Busy.collect (busy : m.Busy names quorum others fresh h) (now : Nat)
    (peers : List NodeId)
    (permitted : Permitted fresh h.requests (m.collect now peers).2.announced) :
    ∃ k, Delivers names quorum h k (m.collect now peers).2 ∧
      (m.collect now peers).1.Busy names quorum others fresh k ∧
      (m.collect now peers).1.queue = [] := by
  obtain ⟨kept, quiet⟩ := collect_keeps now peers (m := m)
    (I := fun m acc => Permitted fresh h.requests acc.announced →
      ∃ k, Delivers names quorum h k acc ∧ m.Busy names quorum others fresh k)
    (fun m o rest acc traffic _ kept permitted => by
      obtain ⟨k, delivers, busy⟩ := kept permitted.initial
      obtain ⟨l, more, after⟩ := busy.carry traffic now peers (permitted.next delivers.requests)
      exact ⟨l, delivers.trans more, after⟩)
    (fun m acc _ kept permitted => by
      obtain ⟨k, delivers, busy⟩ := kept permitted
      exact ⟨k, delivers, busy.fewer rfl rfl (List.nil_subset _)⟩)
    (fun _ => ⟨h, .refl h, busy⟩)
  obtain ⟨k, delivers, after⟩ := kept permitted
  exact ⟨k, delivers, after, quiet⟩

end Member

end Synod
