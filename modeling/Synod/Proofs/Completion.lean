/-
Synod.Proofs.Completion -- an uncontended round completes

One node proposes a value and prepares a ballot, and messages are delivered, repeated and
made durable in any order.  Then for each node, its promise is asked for, held, in flight or
counted (`PromiseComes`); and once the proposer leads, so is its vote at each learner
(`VoteComes`).  No exchange loses either.  So when nothing is in flight or held, every promise
and then every vote has been counted, and all learners have resolved
(`Cluster.uncontended_completes`).
-/
import Synod.Proofs.Course

namespace Synod

set_option autoImplicit false

/-! ## Promises and votes that come -/

/-- A node's promise is asked for, held, in flight or counted. -/
def PromiseComes (b : Ballot) (node : NodeId → Node) (flight : List Envelope) (r : NodeId) :
    Prop :=
  { recipient := r, message := .prepare b.owner b } ∈ flight ∨
    (node r).acceptor.pendingPromise ≠ none ∨
    (∃ vote value, { recipient := b.owner, message := .promise r b vote value } ∈ flight) ∨
    (node b.owner).proposer.Counted r

/-- A node's vote is asked for, held, or, at each learner, in flight or counted. -/
def VoteComes (names : List NodeId) (b : Ballot) (v : Value) (node : NodeId → Node)
    (flight : List Envelope) (r : NodeId) : Prop :=
  { recipient := r, message := .accept b.owner b v } ∈ flight ∨
    (node r).acceptor.pendingVote ≠ none ∨
    ∀ s ∈ names, { recipient := s, message := .accepted r b v } ∈ flight ∨
      (node s).learner.Heard r

section Step

variable {quorum : Nat} {names : List NodeId} {b : Ballot} {v : Value} {node : NodeId → Node}
  {flight flight' : List Envelope} {x r : NodeId} {now : Nat} {input : Node.Input}

/-- **A promise that comes still comes**, whatever happens in the round. -/
theorem PromiseComes.step (comes : PromiseComes b node flight r)
    (answers : (node x).Answers b v input ((node x).step now input))
    (id : (node b.owner).id = b.owner)
    (exchange : Exchange names x input ((node x).step now input).2 flight flight') :
    PromiseComes b (Function.update node x ((node x).step now input).1) flight' r := by
  -- node `r` is asked for its promise, or was asked before
  have asked (due : r = x) (held : (node x).acceptor.pendingPromise ≠ none ∨
      input = .receive (.prepare b.owner b)) :
      PromiseComes b (Function.update node x ((node x).step now input).1) flight' r := by
    subst due
    rcases answers.promise held with held | ⟨vote, value, sent⟩
    · refine .inr (.inl ?_)
      rwa [Function.update_self]
    · exact .inr (.inr (.inl ⟨vote, value,
        exchange.envelope sent rfl (List.mem_singleton_self _)⟩))
  have counted (due : b.owner = x) (given : (node x).proposer.Counted r ∨
      ∃ vote value, input = .receive (.promise r b vote value)) :
      PromiseComes b (Function.update node x ((node x).step now input).1) flight' r := by
    subst due
    refine .inr (.inr (.inr ?_))
    rw [Function.update_self]
    exact answers.count id r given
  rcases comes with asks | held | ⟨vote, value, given⟩ | known
  · rcases exchange.kept _ asks with still | ⟨here, received⟩
    · exact .inl still
    · exact asked here (.inr received)
  · by_cases here : r = x
    · exact asked here (.inl (here ▸ held))
    · refine .inr (.inl ?_)
      rwa [Function.update_of_ne here]
  · rcases exchange.kept _ given with still | ⟨here, received⟩
    · exact .inr (.inr (.inl ⟨vote, value, still⟩))
    · exact counted here (.inr ⟨vote, value, received⟩)
  · by_cases here : b.owner = x
    · exact counted here (.inl (here ▸ known))
    · refine .inr (.inr (.inr ?_))
      rwa [Function.update_of_ne here]

/-- **A vote that comes still comes.** -/
theorem VoteComes.step (comes : VoteComes names b v node flight r)
    (answers : (node x).Answers b v input ((node x).step now input))
    (exchange : Exchange names x input ((node x).step now input).2 flight flight') :
    VoteComes names b v (Function.update node x ((node x).step now input).1) flight' r := by
  have asked (due : r = x) (held : (node x).acceptor.pendingVote ≠ none ∨
      input = .receive (.accept b.owner b v)) :
      VoteComes names b v (Function.update node x ((node x).step now input).1) flight' r := by
    subst due
    rcases answers.vote held with held | ⟨source, sent⟩
    · refine .inr (.inl ?_)
      rwa [Function.update_self]
    · exact .inr (.inr fun s known => .inl
        (exchange.envelope sent rfl (List.mem_map_of_mem known)))
  rcases comes with asks | held | spread
  · rcases exchange.kept _ asks with still | ⟨here, received⟩
    · exact .inl still
    · exact asked here (.inr received)
  · by_cases here : r = x
    · exact asked here (.inl (here ▸ held))
    · refine .inr (.inl ?_)
      rwa [Function.update_of_ne here]
  · refine .inr (.inr fun s known => ?_)
    have heard (here : s = x) (given : (node x).learner.Heard r ∨
        input = .receive (.accepted r b v)) :
        (Function.update node x ((node x).step now input).1 s).learner.Heard r := by
      rw [here, Function.update_self]
      exact answers.hear r given
    rcases spread s known with given | old
    · rcases exchange.kept _ given with still | ⟨here, received⟩
      · exact .inl still
      · exact .inr (heard here (.inr received))
    · by_cases here : s = x
      · exact .inr (heard here (.inl (here ▸ old)))
      · rw [Function.update_of_ne here]
        exact .inr old

/-- A round in which nothing is lost.  Votes are due once the proposer leads. -/
structure Underway (quorum : Nat) (names : List NodeId) (b : Ballot) (v : Value)
    (node : NodeId → Node) (flight : List Envelope) : Prop extends
    Course quorum names b v node flight where
  promises : ∀ r ∈ names, PromiseComes b node flight r
  votes : (node b.owner).leading = true → ∀ r ∈ names, VoteComes names b v node flight r

theorem Underway.step (underway : Underway quorum names b v node flight) (valid : b.Valid)
    (owner : b.owner ∈ names) (member : x ∈ names) (given : input.InRound b v x)
    (exchange : Exchange names x input ((node x).step now input).2 flight flight') :
    Underway quorum names b v (Function.update node x ((node x).step now input).1) flight' := by
  have answers := (underway.toCourse.proceeds valid member now given).answers
  refine ⟨underway.toCourse.step valid owner member given exchange, fun r known => ?_,
    fun leads r known => ?_⟩
  · exact (underway.promises r known).step answers (underway.named b.owner owner) exchange
  · by_cases early : (node b.owner).leading = true
    · exact (underway.votes early r known).step answers exchange
    · -- the owner has just won, and asks everybody to vote
      have here : b.owner = x := by
        by_contra other
        rw [Function.update_of_ne other] at leads
        exact early leads
      subst here
      rw [Function.update_self] at leads
      have asks := (answers.lead leads).resolve_left early
      exact .inl (exchange.envelope asks rfl (List.mem_map_of_mem known))

theorem PromiseComes.mono (comes : PromiseComes b node flight r) (sub : flight ⊆ flight') :
    PromiseComes b node flight' r :=
  comes.imp (fun mem => sub mem) <| .imp_right <| .imp_left fun ⟨vote, value, mem⟩ =>
    ⟨vote, value, sub mem⟩

theorem VoteComes.mono (comes : VoteComes names b v node flight r) (sub : flight ⊆ flight') :
    VoteComes names b v node flight' r :=
  comes.imp (fun mem => sub mem) <| .imp_right fun spread s known =>
    (spread s known).imp_left fun mem => sub mem

theorem underway_steady (valid : b.Valid) (owner : b.owner ∈ names) :
    Steady names b v (Underway quorum names b v) where
  traffic underway := underway.toCourse.traffic
  step _ underway member given exchange := underway.step valid owner member given exchange
  same underway same :=
    { named := underway.named
      inRound := underway.inRound
      traffic := fun e mem => underway.traffic e ((same e).2 mem)
      promises := fun r known => (underway.promises r known).mono fun e mem => (same e).1 mem
      votes := fun leads r known =>
        (underway.votes leads r known).mono fun e mem => (same e).1 mem }

end Step

/-! ## Quiet -/

section Quiet

variable {quorum : Nat} {names : List NodeId} {b : Ballot} {v : Value} {node : NodeId → Node}

/-- No reply is held. -/
def Quiet (names : List NodeId) (node : NodeId → Node) : Prop :=
  ∀ r ∈ names, (node r).persistenceRequired = false

theorem Quiet.held (quiet : Quiet names node) {r : NodeId} (known : r ∈ names) :
    (node r).acceptor.pendingPromise = none ∧ (node r).acceptor.pendingVote = none := by
  simpa [Node.persistenceRequired, Acceptor.persistenceRequired] using quiet r known

/-- When all promises have been counted, the proposer leads. -/
theorem Underway.leads (underway : Underway quorum names b v node [])
    (quiet : Quiet names node) (owner : b.owner ∈ names) (distinct : names.Nodup)
    (enough : quorum ≤ names.length) : (node b.owner).leading = true := by
  by_contra follows
  have counted : names ⊆ (node b.owner).proposer.promises := by
    intro r known
    rcases underway.promises r known with asks | held | ⟨_, _, given⟩ | leads | counted
    · cases asks
    · exact absurd (quiet.held known).1 held
    · cases given
    · exact absurd leads follows
    · exact counted
  have fewer := (List.subperm_of_subset distinct counted).length_le
  have runner := (underway.inRound b.owner owner).runner (underway.named b.owner owner)
  exact follows (runner.leader.trans (decide_eq_true (enough.trans fewer)))

/-- When all votes have been counted, the learners have resolved. -/
theorem Course.resolved (course : Course quorum names b v node []) (quiet : Quiet names node)
    (distinct : names.Nodup) (enough : quorum ≤ names.length)
    (votes : ∀ r ∈ names, VoteComes names b v node [] r) :
    ∀ s ∈ names, (node s).learner.resolution = some (b, v) := by
  intro s member
  rcases (course.inRound s member).learner.count with resolved | ⟨unresolved, few, -⟩
  · exact resolved
  have counted : names ⊆ (node s).learner.votes.map Prod.fst := by
    intro r known
    rcases votes r known with asks | held | spread
    · cases asks
    · exact absurd (quiet.held known).2 held
    · rcases spread s member with given | complete | counted
      · cases given
      · rw [Learner.complete, unresolved] at complete
        cases complete
      · exact counted
  have fewer := (List.subperm_of_subset distinct counted).length_le
  rw [List.length_map] at fewer
  omega

end Quiet

/-! ## From the start -/

section Start

variable {quorum : Nat} {names : List NodeId}

/-- A node before anything happens. -/
def fresh (quorum : Nat) (timing : Timing) (id : NodeId) : Node :=
  Node.start { id, quorum, timing } 0

/-- A node that proposes a value and has prepared its first ballot. -/
def opened (quorum : Nat) (timing : Timing) (id : NodeId) (v : Value) : Node :=
  (((fresh quorum timing id).propose v).1.prepare true).1

theorem Acceptor.start_inRound (b : Ballot) (v : Value) (now window : Nat) :
    (Acceptor.start now window).InRound b v :=
  ⟨rfl, .inl rfl, .inl ⟨rfl, rfl⟩, .inl rfl, .inl rfl⟩

theorem Learner.start_inRound (size : 1 ≤ quorum) (b : Ballot) (v : Value) :
    (Learner.start quorum).InRound quorum b v :=
  ⟨rfl, fun _ mem => absurd mem List.not_mem_nil, .inr ⟨rfl, size, .inl ⟨rfl, rfl⟩⟩⟩

theorem fresh_inRound {b : Ballot} {v : Value} (timing : Timing) (size : 1 ≤ quorum) (id : NodeId)
    (foreign : id ≠ b.owner) : (fresh quorum timing id).InRound quorum b v where
  acceptor := Acceptor.start_inRound b v 0 timing.livenessWindow
  learner := Learner.start_inRound size b v
  runner own := absurd own foreign
  follower _ := rfl

theorem opened_inRound (timing : Timing) (size : 1 ≤ quorum) (id : NodeId) (v : Value) :
    (opened quorum timing id v).InRound quorum { number := 1, owner := id } v where
  acceptor := Acceptor.start_inRound _ v 0 timing.livenessWindow
  learner := Learner.start_inRound size _ v
  runner _ := ⟨rfl, rfl, rfl, rfl, (decide_eq_false (Nat.not_le_of_gt size)).symm⟩
  follower foreign := absurd rfl foreign

theorem opened_underway (timing : Timing) (size : 1 ≤ quorum) (p : NodeId) (v : Value) :
    Underway quorum names { number := 1, owner := p } v
      (Function.update (fresh quorum timing) p (opened quorum timing p v))
      ((Outbound.broadcast (.prepare p { number := 1, owner := p })).envelopes names) := by
  refine ⟨⟨fun r _ => ?_, fun r _ => ?_, fun e mem => ?_⟩, fun r known => ?_, fun leads => ?_⟩
  · by_cases same : r = p
    · rw [same, Function.update_self]
      rfl
    · rw [Function.update_of_ne same]
      rfl
  · by_cases same : r = p
    · rw [same, Function.update_self]
      exact opened_inRound timing size p v
    · rw [Function.update_of_ne same]
      exact fresh_inRound timing size r same
  · obtain ⟨r, known, rfl⟩ := List.mem_map.1 mem
    exact ⟨known, rfl, rfl⟩
  · exact .inl (List.mem_map_of_mem known)
  · rw [Function.update_self] at leads
    cases leads

end Start

namespace Cluster

variable {names : List NodeId} {quorum : Nat} {timing : Timing} {p : NodeId}

theorem follows_start (names : List NodeId) (quorum : Nat) (timing : Timing) :
    (start names quorum timing none).Follows (start names quorum timing none).names
      (fun node flight => node = fresh quorum timing ∧ flight = []) (fresh quorum timing) := by
  obtain ⟨distinct, idle, up, -⟩ := reported_start names quorum timing none
  refine ⟨rfl, distinct, idle, up, fun m mem => ?_, rfl, rfl⟩
  obtain ⟨id, -, rfl⟩ := List.mem_map.1 mem
  rfl

/-- A value is proposed. -/
theorem Follows.propose {c : Cluster} (follows : c.Follows names
    (fun node flight => node = fresh quorum timing ∧ flight = []) (fresh quorum timing))
    (member : p ∈ names) (v : Value) :
    (c.step (.propose p v)).1.Follows names
      (fun node flight => node = Function.update (fresh quorum timing) p
        ((fresh quorum timing p).propose v).1 ∧ flight = [])
      (Function.update (fresh quorum timing) p ((fresh quorum timing p).propose v).1) := by
  obtain ⟨m, mem, rfl⟩ := follows.find member
  have same := follows.holds m mem
  have silent : m.absorb (m.node.propose v) = { m with node := (m.node.propose v).1 } := by
    rw [← same]
    simp [Member.absorb, fresh, Node.start, Node.propose, Node.withProposer, Proposer.propose,
      Proposer.start, Proposer.setLeader]
  have collected : (m.absorb (m.node.propose v)).collect c.now
      (names.filter fun name => name ≠ m.node.id) = (m.absorb (m.node.propose v), {}) :=
    collect_of_idle (by rw [silent]; exact follows.idle m mem) _ _
  have elementary : (Action.propose m.node.id v).Elementary := trivial
  have after := follows.deed (f := fun k => k.absorb (k.node.propose v))
    (P := fun node flight => node = Function.update (fresh quorum timing) m.node.id
      (m.node.propose v).1 ∧ flight = []) mem rfl (follows.up m mem) collected
    ⟨by rw [silent], (List.append_nil _).trans follows.state.2⟩
  rw [silent] at after
  rw [step_elementary c elementary, same]
  exact after

/-- A ballot is prepared. -/
theorem Follows.prepare {c : Cluster} {v : Value} (size : 1 ≤ quorum) (valid : p ≠ "")
    (follows : c.Follows names
      (fun node flight => node = Function.update (fresh quorum timing) p
        ((fresh quorum timing p).propose v).1 ∧ flight = [])
      (Function.update (fresh quorum timing) p ((fresh quorum timing p).propose v).1))
    (member : p ∈ names) :
    ∃ node, (c.step (.prepare p true)).1.Follows names
      (Underway quorum names { number := 1, owner := p } v) node := by
  obtain ⟨m, mem, rfl⟩ := follows.find member
  have same := follows.holds m mem
  rw [Function.update_self] at same
  have elementary : (Action.prepare m.node.id true).Elementary := trivial
  rw [step_elementary c elementary]
  have node : (m.absorb (m.node.prepare true)).node = opened quorum timing m.node.id v := by
    rw [opened, same]
    rfl
  have asks : (m.node.prepare true).2 = [.prepare { number := 1, owner := m.node.id }] := by
    rw [← same]
    rfl
  have envelopes : (m.absorb (m.node.prepare true)).envelopes names =
      (Outbound.broadcast (.prepare m.node.id { number := 1, owner := m.node.id })).envelopes
        names := by
    simp [Member.envelopes, Member.absorb, follows.idle m mem, asks, outbound, Effect.outbound]
  have owned : ({ number := 1, owner := m.node.id } : Ballot).Valid := valid
  refine follows.act (f := fun k => k.absorb (k.node.prepare true))
    (underway_steady owned member) mem rfl (follows.up m mem) ?_
  rw [follows.state.2, node, envelopes, Function.update_idem]
  exact opened_underway timing size m.node.id v

theorem Follows.quiet {P : (NodeId → Node) → List Envelope → Prop} {c : Cluster}
    {node : NodeId → Node} (follows : c.Follows names P node)
    (unheld : ∀ m ∈ c.members, m.node.persistenceRequired = false) : Quiet names node := by
  intro s known
  obtain ⟨m, mem, rfl⟩ := follows.find known
  rw [follows.holds m mem]
  exact unheld m mem

/-- When nothing is in flight or held, the round is complete. -/
theorem Follows.resolved {c : Cluster} {b : Ballot} {v : Value} {node : NodeId → Node}
    (follows : c.Follows names (Underway quorum names b v) node) (owner : b.owner ∈ names)
    (enough : quorum ≤ names.length) (empty : c.pool = [])
    (unheld : ∀ m ∈ c.members, m.node.persistenceRequired = false) :
    ∀ m ∈ c.members, m.node.learner.resolution = some (b, v) := by
  have underway := follows.state
  rw [empty] at underway
  have quiet := follows.quiet unheld
  have distinct : names.Nodup := follows.named ▸ follows.distinct
  have leads := underway.leads quiet owner distinct enough
  have resolved := underway.toCourse.resolved quiet distinct enough (underway.votes leads)
  intro m mem
  rw [← follows.holds m mem]
  exact resolved m.node.id (follows.member mem)

/-- **An uncontended round completes.**  One node proposes a value and prepares its first
ballot, and messages are delivered, repeated and made durable in any order.  When nothing is in
flight or held any more, every learner has resolved, and every node has reported that once. -/
theorem uncontended_completes {names : List NodeId} {quorum : Nat} (timing : Timing) {p : NodeId}
    (v : Value) {actions : List Action} (distinct : names.Nodup) (size : 1 ≤ quorum)
    (enough : quorum ≤ names.length) (member : p ∈ names) (valid : p ≠ "")
    (lossless : ∀ a ∈ actions, a.Lossless) :
    let r := (start names quorum timing none).run (.propose p v :: .prepare p true :: actions)
    r.1.pool = [] → (∀ m ∈ r.1.members, m.node.persistenceRequired = false) →
      (∀ m ∈ r.1.members, m.node.learner.resolution = some ({ number := 1, owner := p }, v)) ∧
      ∀ s ∈ names, r.2.decided.filter (fun d => d.node = s) =
        [{ node := s, ballot := { number := 1, owner := p }, value := v }] := by
  intro r empty unheld
  have known : p ∈ (start names quorum timing none).names := mem_names_start.2 member
  have fewer : names.length ≤ (start names quorum timing none).names.length :=
    (List.subperm_of_subset distinct fun s mem => mem_names_start.2 mem).length_le
  have owned : ({ number := 1, owner := p } : Ballot).Valid := valid
  obtain ⟨node, follows⟩ : ∃ node, r.1.Follows (start names quorum timing none).names
      (Underway quorum (start names quorum timing none).names { number := 1, owner := p } v)
      node := by
    have proposed := (follows_start names quorum timing).propose known v
    obtain ⟨node, prepared⟩ := proposed.prepare size valid known
    show ∃ node, (run _ _).1.Follows _ _ node
    rw [run_cons, run_cons]
    exact prepared.run (underway_steady owned known) lossless
  have resolved := follows.resolved known (enough.trans fewer) empty unheld
  refine ⟨resolved, fun s mem => ?_⟩
  -- each of them has been told once
  have lasting : ∀ a ∈ .propose p v :: .prepare p true :: actions, a.Lasting := by
    simp only [List.forall_mem_cons]
    exact ⟨⟨trivial, by simp, by simp⟩, ⟨trivial, by simp, by simp⟩,
      fun a mem => (lossless a mem).lasting⟩
  have told := (reported_start names quorum timing none).run lasting
  rw [List.nil_append] at told
  obtain ⟨m, old, rfl⟩ := follows.find (mem_names_start.2 mem)
  rw [told.outcome m old, Node.outcome, Learner.outcome, resolved m old]
  rfl

/-- A prepare is repeated, one request to vote overtakes a prepare, and two votes are held for
a while. -/
def overtaken : List Action :=
  [ .duplicate 0, .deliver 2, .deliver 0, .persist "a", .deliver 2, .deliver 2, .deliver 2,
    .deliver 0, .persist "c", .persist "a" ] ++ List.replicate 11 (.deliver 0)

theorem uncontended_completes_overtaken :
    (["a", "b", "c"] : List NodeId).Nodup ∧ (∀ a ∈ overtaken, a.Lossless) ∧
      let r := (start ["a", "b", "c"] 2 {} none).run
        (.propose "b" "x" :: .prepare "b" true :: overtaken)
      r.1.pool = [] ∧ (∀ m ∈ r.1.members, m.node.persistenceRequired = false) ∧
        (∀ m ∈ r.1.members, m.node.learner.resolution = some ({ number := 1, owner := "b" }, "x")) ∧
        ∀ s ∈ ["a", "b", "c"], r.2.decided.filter (fun d => d.node = s) =
          [{ node := s, ballot := { number := 1, owner := "b" }, value := "x" }] := by
  have distinct : (["a", "b", "c"] : List NodeId).Nodup := by decide
  have lossless : ∀ a ∈ overtaken, a.Lossless := by simp [overtaken, Action.Lossless]
  have empty : ((start ["a", "b", "c"] 2 {} none).run
      (.propose "b" "x" :: .prepare "b" true :: overtaken)).1.pool = [] := by decide +kernel
  have unheld : ∀ m ∈ ((start ["a", "b", "c"] 2 {} none).run
      (.propose "b" "x" :: .prepare "b" true :: overtaken)).1.members,
      m.node.persistenceRequired = false := by decide +kernel
  exact ⟨distinct, lossless, empty, unheld, uncontended_completes {} "x" distinct (by decide)
    (by decide) (by decide) (by decide) lossless empty unheld⟩

end Cluster

end Synod
