/-
Synod.Proofs.Course -- a cluster in one round

In a round, all nodes are in it and so is all that is in flight (`Course`).  One node acts at a
time: it takes an envelope out of flight, or makes its replies durable, and puts in flight what
it sends (`Exchange`).  What every such exchange keeps is `Steady`; a member that carries its own
traffic keeps it (`Steady.collect`), and so does a cluster in which messages are delivered,
repeated and made durable (`Cluster.Follows.run`).
-/
import Synod.Proofs.Report
import Synod.Proofs.Round

namespace Synod

set_option autoImplicit false

/-! ## Traffic in flight -/

/-- The envelopes of a piece of traffic, the sender's own included. -/
def Outbound.envelopes (names : List NodeId) : Outbound → List Envelope
  | .broadcast message => names.map fun recipient => { recipient, message }
  | .unicast recipient message => [{ recipient, message }]
  | .resolved .. => []

/-- What an input of one node takes out of flight and puts in flight. -/
structure Exchange (names : List NodeId) (x : NodeId) (input : Node.Input)
    (effects : List Effect) (flight flight' : List Envelope) : Prop where
  kept : ∀ e ∈ flight, e ∈ flight' ∨ e.recipient = x ∧ input = .receive e.message
  sent : ∀ o ∈ outbound x effects, o.envelopes names ⊆ flight'
  source : ∀ e ∈ flight', e ∈ flight ∨ ∃ o ∈ outbound x effects, e ∈ o.envelopes names

/-- The nodes and the traffic of one round. -/
structure Course (quorum : Nat) (names : List NodeId) (b : Ballot) (v : Value)
    (node : NodeId → Node) (flight : List Envelope) : Prop where
  named : ∀ r ∈ names, (node r).id = r
  inRound : ∀ r ∈ names, (node r).InRound quorum b v
  traffic : ∀ e ∈ flight, e.recipient ∈ names ∧ e.message.InRound b v e.recipient

section Step

variable {quorum : Nat} {names : List NodeId} {b : Ballot} {v : Value} {node : NodeId → Node}
  {flight flight' : List Envelope} {x r : NodeId} {now : Nat} {input : Node.Input}

/-- What an effect of the round puts in flight belongs to the round. -/
theorem Effect.InRound.envelope {e : Effect} (inRound : e.InRound b v x) (owner : b.owner ∈ names)
    {o : Outbound} (named : e.outbound x = some o) {y : Envelope} (mem : y ∈ o.envelopes names) :
    y.recipient ∈ names ∧ y.message.InRound b v y.recipient := by
  have broadcast {message : Message} (all : ∀ r, message.InRound b v r)
      (mem : y ∈ (Outbound.broadcast message).envelopes names) :
      y.recipient ∈ names ∧ y.message.InRound b v y.recipient := by
    obtain ⟨r, member, rfl⟩ := List.mem_map.1 mem
    exact ⟨member, all r⟩
  cases e with
  | prepare c =>
    cases named
    have all (r : NodeId) : (Message.prepare x c).InRound b v r := inRound
    exact broadcast all mem
  | promise recipient c vote value =>
    cases named
    obtain ⟨rfl, same, reported⟩ := inRound
    rw [List.mem_singleton.1 mem]
    exact ⟨owner, rfl, same, reported⟩
  | accept c w =>
    cases named
    have all (r : NodeId) : (Message.accept x c w).InRound b v r := inRound
    exact broadcast all mem
  | accepted source c w =>
    cases named
    have all (r : NodeId) : (Message.accepted x c w).InRound b v r := inRound
    exact broadcast all mem
  | heartbeat leader c =>
    cases named
    have all (r : NodeId) : (Message.heartbeat leader c).InRound b v r := inRound
    exact broadcast all mem
  | resolved =>
    cases named
    cases mem
  | prepareNack | acceptNack => exact inRound.elim
  | leadershipAcquired | leadershipLost | leaderChanged => cases named

theorem Course.proceeds (course : Course quorum names b v node flight) (valid : b.Valid)
    (member : x ∈ names) (now : Nat) (given : input.InRound b v x) :
    (node x).Proceeds quorum b v input ((node x).step now input) :=
  (course.inRound x member).step valid now ((course.named x member).symm ▸ given)

/-- A node that stays in the round, and sends what belongs to it, stays on course. -/
theorem Course.exchange (course : Course quorum names b v node flight) (owner : b.owner ∈ names)
    {r : Node × List Effect} (id : r.1.id = x) (inRound : r.1.InRound quorum b v)
    (effects : ∀ e ∈ r.2, e.InRound b v x) (exchange : Exchange names x input r.2 flight flight') :
    Course quorum names b v (Function.update node x r.1) flight' := by
  refine ⟨fun s known => ?_, fun s known => ?_, fun e mem => ?_⟩
  · by_cases same : s = x
    · rw [same, Function.update_self, id]
    · rw [Function.update_of_ne same, course.named s known]
  · by_cases same : s = x
    · rw [same, Function.update_self]
      exact inRound
    · rw [Function.update_of_ne same]
      exact course.inRound s known
  · rcases exchange.source e mem with old | ⟨o, sent, within⟩
    · exact course.traffic e old
    · obtain ⟨effect, asked, named⟩ := List.mem_filterMap.1 sent
      exact (effects effect asked).envelope owner named within

/-- **An input of the round stays on course.** -/
theorem Course.step (course : Course quorum names b v node flight) (valid : b.Valid)
    (owner : b.owner ∈ names) (member : x ∈ names) (given : input.InRound b v x)
    (exchange : Exchange names x input ((node x).step now input).2 flight flight') :
    Course quorum names b v (Function.update node x ((node x).step now input).1) flight' := by
  obtain ⟨id, inRound, effects, -⟩ := course.proceeds valid member now given
  rw [course.named x member] at id effects
  exact course.exchange owner id inRound effects exchange

/-- What an effect puts in flight is in flight. -/
theorem Exchange.envelope {effects : List Effect}
    (exchange : Exchange names x input effects flight flight') {e : Effect} (sent : e ∈ effects)
    {o : Outbound} (named : e.outbound x = some o) {y : Envelope} (mem : y ∈ o.envelopes names) :
    y ∈ flight' :=
  exchange.sent o (List.mem_filterMap.2 ⟨e, sent, named⟩) mem

end Step

/-! ## Members in the round -/

/-- A property of a round that no input breaks. -/
structure Steady (names : List NodeId) (b : Ballot) (v : Value)
    (P : (NodeId → Node) → List Envelope → Prop) : Prop where
  traffic : ∀ {node flight}, P node flight →
    ∀ e ∈ flight, e.recipient ∈ names ∧ e.message.InRound b v e.recipient
  step : ∀ {node flight flight' x input} now, P node flight → x ∈ names → input.InRound b v x →
    Exchange names x input ((node x).step now input).2 flight flight' →
    P (Function.update node x ((node x).step now input).1) flight'
  same : ∀ {node flight flight'}, P node flight → (∀ e, e ∈ flight ↔ e ∈ flight') → P node flight'

/-- The envelopes of all of a member's own traffic. -/
def Member.envelopes (names : List NodeId) (m : Member) : List Envelope :=
  m.queue.flatMap (Outbound.envelopes names)

section Members

variable {names : List NodeId} {b : Ballot} {v : Value}
  {P : (NodeId → Node) → List Envelope → Prop} {node : NodeId → Node}
  {flight base : List Envelope} {x : NodeId} {m : Member}

/-- What a member's node does is an exchange: the member's own traffic is in flight. -/
theorem Member.exchange (id : m.node.id = x) {input : Node.Input} (r : Node × List Effect)
    (kept : ∀ e ∈ flight, e ∈ base ++ m.envelopes names ∨
      e.recipient = x ∧ input = .receive e.message)
    (source : base ++ m.envelopes names ⊆ flight) :
    Exchange names x input r.2 flight (base ++ (m.absorb r).envelopes names) := by
  have after : (m.absorb r).envelopes names =
      m.envelopes names ++ (outbound x r.2).flatMap (Outbound.envelopes names) := by
    simp only [Member.envelopes, Member.absorb, List.flatMap_append, id]
  rw [after, ← List.append_assoc]
  refine ⟨fun e mem => ?_, fun o sent e mem => ?_, fun e mem => ?_⟩
  · exact (kept e mem).imp_left (List.mem_append_left _)
  · exact List.mem_append_right _ (List.mem_flatMap.2 ⟨o, sent, mem⟩)
  · rcases List.mem_append.1 mem with old | new
    · exact .inl (source old)
    · exact .inr (List.mem_flatMap.1 new)

/-- One input of a member's node. -/
theorem Steady.absorb (steady : Steady names b v P) (id : m.node.id = x)
    (member : x ∈ names) {input : Node.Input} (given : input.InRound b v x) (now : Nat)
    (holds : P (Function.update node x m.node) flight)
    (kept : ∀ e ∈ flight, e ∈ base ++ m.envelopes names ∨
      e.recipient = x ∧ input = .receive e.message)
    (source : base ++ m.envelopes names ⊆ flight) :
    P (Function.update node x (m.absorb (m.node.step now input)).node)
      (base ++ (m.absorb (m.node.step now input)).envelopes names) := by
  have exchange := Member.exchange id (m.node.step now input) kept source
  have self : Function.update node x m.node x = m.node := Function.update_self ..
  have stepped := steady.step now holds member given (self.symm ▸ exchange)
  rwa [self, Function.update_idem] at stepped

theorem Steady.persist (steady : Steady names b v P) (id : m.node.id = x)
    (member : x ∈ names)
    (holds : P (Function.update node x m.node) (base ++ m.envelopes names)) :
    P (Function.update node x m.persist.node) (base ++ m.persist.envelopes names) := by
  have given : Node.Input.persisted.InRound b v x := trivial
  unfold Member.persist
  split
  · exact Steady.absorb (m := { m with durable := m.node.snapshot }) steady id member given 0 holds
      (fun _ mem => .inl mem) (List.Subset.refl _)
  · exact holds

/-- What is in flight to everybody, and what the sender hands to itself. -/
theorem mem_broadcast {message : Message} {e : Envelope} :
    e ∈ (Outbound.broadcast message).envelopes names ↔
      e.recipient ∈ names ∧ e.message = message := by
  constructor
  · intro mem
    obtain ⟨r, known, rfl⟩ := List.mem_map.1 mem
    exact ⟨known, rfl⟩
  · rintro ⟨known, rfl⟩
    exact List.mem_map.2 ⟨e.recipient, known, rfl⟩

theorem mem_others {message : Message} {e : Envelope} :
    e ∈ (names.filter fun name => name ≠ x).map
        (fun recipient => ({ recipient, message } : Envelope)) ↔
      e.recipient ∈ names ∧ e.recipient ≠ x ∧ e.message = message := by
  constructor
  · intro mem
    obtain ⟨r, known, rfl⟩ := List.mem_map.1 mem
    obtain ⟨known, other⟩ := List.mem_filter.1 known
    exact ⟨known, of_decide_eq_true other, rfl⟩
  · rintro ⟨known, other, rfl⟩
    exact List.mem_map.2 ⟨e.recipient, List.mem_filter.2 ⟨known, decide_eq_true other⟩, rfl⟩

/-- **A member's own traffic keeps what is steady.** -/
theorem Steady.collect (steady : Steady names b v P) (id : m.node.id = x)
    (member : x ∈ names) (up : m.down = false) (now : Nat)
    (holds : P (Function.update node x m.node) (base ++ m.envelopes names)) :
    P (Function.update node x
        (m.collect now (names.filter fun name => name ≠ x)).1.node)
      (base ++ (m.collect now (names.filter fun name => name ≠ x)).2.sent) := by
  have all := Member.collect_keeps now (names.filter fun name => name ≠ x)
    (I := fun k acc => k.node.id = x ∧ k.down = false ∧
      P (Function.update node x k.node) (base ++ acc.sent ++ k.envelopes names))
    ?carries ?drops (m := m) ⟨id, up, by simpa using holds⟩
  case carries =>
    rintro k o rest acc traffic - ⟨id, up, holds⟩
    have split : k.envelopes names = o.envelopes names ++
        ({ k with queue := rest } : Member).envelopes names := by
      simp only [Member.envelopes, traffic, List.flatMap_cons]
    rw [split] at holds
    cases o with
    | broadcast message =>
      refine ⟨(Member.persist_id _).trans ((Member.receive_id _ now message).trans id),
        (Member.persist_down _).trans up, ?_⟩
      have own : ({ recipient := x, message } : Envelope) ∈
          (Outbound.broadcast message).envelopes names := mem_broadcast.2 ⟨member, rfl⟩
      have given : (Node.Input.receive message).InRound b v x :=
        (steady.traffic holds _
          (List.mem_append_right _ (List.mem_append_left _ own))).2
      have sent : (acc ++ (({ k with queue := rest } : Member).carry now
          (names.filter fun name => name ≠ x) (.broadcast message)).2).sent = acc.sent ++
            (names.filter fun name => name ≠ x).map
              fun recipient => ({ recipient, message } : Envelope) := rfl
      rw [sent]
      refine steady.persist ((Member.receive_id _ now message).trans id) member
        (steady.absorb (m := { k with queue := rest }) id member given now holds ?_ ?_)
      · -- the sender's own copy is handled, and the others go into flight
        intro e mem
        simp only [List.mem_append, mem_broadcast, mem_others] at mem ⊢
        rcases mem with old | ⟨known, rfl⟩ | later
        · exact .inl (.inl (by tauto))
        · by_cases here : e.recipient = x
          · exact .inr ⟨here, rfl⟩
          · exact .inl (.inl (.inr (.inr ⟨known, here, rfl⟩)))
        · exact .inl (.inr later)
      · intro e mem
        simp only [List.mem_append, mem_broadcast, mem_others] at mem ⊢
        tauto
    | unicast recipient message =>
      refine ⟨id, up, steady.same holds fun e => ?_⟩
      simp [Member.carry, Carried.append_def, Outbound.envelopes, Member.envelopes]
    | resolved c w =>
      refine ⟨id, up, steady.same holds fun e => ?_⟩
      simp [Member.carry, Carried.append_def, Outbound.envelopes, Member.envelopes]
  case drops =>
    rintro k acc down ⟨-, up, -⟩
    rw [up] at down
    cases down
  obtain ⟨⟨-, -, after⟩, empty⟩ := all
  rwa [Member.envelopes, empty, List.flatMap_nil, List.append_nil] at after

end Members

namespace Cluster

/-! ## Clusters in the round -/

/-- All members are up and have carried their traffic, and the nodes and the pool have a
property. -/
structure Follows (names : List NodeId) (P : (NodeId → Node) → List Envelope → Prop)
    (node : NodeId → Node) (c : Cluster) : Prop where
  named : c.names = names
  distinct : c.Distinct
  idle : c.Idle
  up : c.Up
  holds : ∀ m ∈ c.members, node m.node.id = m.node
  state : P node c.pool

/-- Delivers, repeats or makes durable. -/
def Action.Lossless : Action → Prop
  | .deliver _ | .duplicate _ | .persist _ => True
  | _ => False

theorem Action.Lossless.elementary {a : Action} (lossless : a.Lossless) : a.Elementary := by
  cases a <;> trivial

theorem Action.Lossless.lasting {a : Action} (lossless : a.Lossless) : a.Lasting := by
  refine ⟨lossless.elementary, ?_, ?_⟩ <;> rintro id rfl <;> exact lossless.elim

variable {names : List NodeId} {b : Ballot} {v : Value}
  {P Q : (NodeId → Node) → List Envelope → Prop} {node : NodeId → Node} {c : Cluster} {m : Member}

theorem Follows.find (follows : c.Follows names P node) {id : NodeId} (known : id ∈ names) :
    ∃ m ∈ c.members, m.node.id = id := by
  rw [← follows.named] at known
  obtain ⟨m, mem, same⟩ := List.mem_map.1 known
  exact ⟨m, mem, same⟩

theorem Follows.member (follows : c.Follows names P node) (mem : m ∈ c.members) :
    m.node.id ∈ names := by
  rw [← follows.named]
  exact List.mem_map_of_mem mem

/-- One member acts, and its traffic is carried. -/
theorem Follows.deed (follows : c.Follows names Q node) (mem : m ∈ c.members)
    {f : Member → Member} (named : (f m).node.id = m.node.id) (up : (f m).down = false)
    {pool : List Envelope} {r : Member × Carried}
    (collected : (f m).collect c.now (names.filter fun name => name ≠ m.node.id) = r)
    (state : P (Function.update node m.node.id r.1.node) (pool ++ r.2.sent)) :
    (({ c with pool } : Cluster).update m.node.id f).collect.1.Follows names P
      (Function.update node m.node.id r.1.node) := by
  have acts : ({ c with pool } : Cluster).Acts m f :=
    ⟨follows.distinct, follows.idle, mem, named, up⟩
  have peers : ({ c with pool } : Cluster).others m.node.id =
      names.filter fun name => name ≠ m.node.id := by
    rw [← follows.named]
    rfl
  refine ⟨acts.names_after.trans follows.named, acts.distinct_after, acts.idle_after,
    acts.up_after follows.up, fun x found => ?_, ?_⟩
  · have after := acts.members_after found
    rw [peers, collected] at after
    rcases after with rfl | ⟨old, other⟩
    · have id : r.1.node.id = m.node.id := by
        rw [← collected]
        exact ((f m).collect_id c.now _).trans named
      rw [id, Function.update_self]
    · rw [Function.update_of_ne other, follows.holds x old]
  · rw [collect_update acts.distinct acts.idle mem named, peers, collected]
    exact state

/-- The member's own traffic comes after what it did. -/
theorem Follows.act (steady : Steady names b v P) (follows : c.Follows names Q node)
    (mem : m ∈ c.members) {f : Member → Member} (named : (f m).node.id = m.node.id)
    (up : (f m).down = false) {pool : List Envelope}
    (state : P (Function.update node m.node.id (f m).node) (pool ++ (f m).envelopes names)) :
    ∃ node', (({ c with pool } : Cluster).update m.node.id f).collect.1.Follows names P node' :=
  ⟨_, follows.deed mem named up rfl
    (steady.collect named (follows.member mem) up c.now state)⟩

theorem Follows.still (follows : c.Follows names P node) : c.collect.1.Follows names P node := by
  rw [collect_idle follows.idle]
  exact follows

theorem Follows.before (follows : c.Follows names P node) (mem : m ∈ c.members) :
    P (Function.update node m.node.id m.node) c.pool ∧ m.envelopes names = [] := by
  refine ⟨?_, by simp [Member.envelopes, follows.idle m mem]⟩
  rw [Function.update_eq_self_iff.2 (follows.holds m mem).symm]
  exact follows.state

/-- **Delivering, repeating and making durable keep what is steady.** -/
theorem Follows.step (steady : Steady names b v P) (follows : c.Follows names P node)
    {a : Action} (lossless : a.Lossless) : ∃ node', (c.step a).1.Follows names P node' := by
  rw [step_elementary c lossless.elementary]
  cases a with
  | deliver index =>
    simp only [Cluster.act]
    split
    · next e found =>
      obtain ⟨inside, rfl⟩ := List.getElem?_eq_some_iff.1 found
      have taken := List.getElem_cons_eraseIdx_perm inside
      generalize c.pool[c.place index] = e at taken
      have there : e ∈ c.pool := taken.subset List.mem_cons_self
      obtain ⟨known, given⟩ := steady.traffic follows.state e there
      obtain ⟨m, mem, same⟩ := follows.find known
      obtain ⟨state, bare⟩ := follows.before mem
      have up := follows.up m mem
      have receives : (if m.down then m else m.receive c.now e.message) =
          m.receive c.now e.message := by simp [up]
      unfold handOver
      rw [← same] at given ⊢
      refine follows.act steady mem ?_ ?_ ?_
      · rw [receives]
        exact m.receive_id c.now e.message
      · rw [receives]
        exact up
      · rw [receives]
        have heard : (Node.Input.receive e.message).InRound b v m.node.id := given
        refine steady.absorb rfl (follows.member mem) heard c.now state (fun e' old => ?_) ?_
        · rw [bare, List.append_nil]
          rcases List.mem_cons.1 (taken.symm.subset old) with rfl | other
          · exact .inr ⟨same.symm, rfl⟩
          · exact .inl other
        · rw [bare, List.append_nil]
          exact List.eraseIdx_subset
    · exact ⟨node, follows.still⟩
  | duplicate index =>
    have twice : ({ c with pool := c.pool ++ (c.addressed? index).toList } :
        Cluster).Follows names P node := by
      refine { follows with state := steady.same follows.state fun e => ?_ }
      rw [List.mem_append]
      refine ⟨.inl, fun mem => mem.elim id fun copy => ?_⟩
      exact List.mem_of_getElem? (Option.mem_toList.1 copy)
    exact ⟨node, twice.still⟩
  | persist id =>
    by_cases known : ∃ m ∈ c.members, m.node.id = id
    · obtain ⟨m, mem, rfl⟩ := known
      obtain ⟨state, bare⟩ := follows.before mem
      refine follows.act steady mem m.persist_id (m.persist_down.trans (follows.up m mem))
        (steady.persist rfl (follows.member mem) ?_)
      rwa [bare, List.append_nil]
    · have absent : c.update id Member.persist = c :=
        update_absent (fun m mem same => known ⟨m, mem, same⟩) _
      refine ⟨node, ?_⟩
      show (c.update id Member.persist).collect.1.Follows names P node
      rw [absent]
      exact follows.still
  | _ => exact lossless.elim

theorem Follows.run (steady : Steady names b v P) (follows : c.Follows names P node)
    {actions : List Action} (lossless : ∀ a ∈ actions, a.Lossless) :
    ∃ node', (c.run actions).1.Follows names P node' := by
  induction actions generalizing c node with
  | nil => exact ⟨node, follows⟩
  | cons a rest ih =>
    obtain ⟨node', first⟩ := follows.step steady (lossless a List.mem_cons_self)
    rw [run_cons]
    exact ih first fun b mem => lossless b (List.mem_cons_of_mem _ mem)

end Cluster

end Synod
