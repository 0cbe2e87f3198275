/-
Synod.Proofs.Nameless -- a node without a name never leads

A ballot without an owner is not valid, and nobody promises it.  So where only a node without a
name prepares, no node leads or holds a reply, and nothing is in flight that a node would heed
(`Cluster.Calm`).  Every step keeps that (`Cluster.Calm.step`).
-/
import Synod.Proofs.Cluster

namespace Synod

set_option autoImplicit false

/-! ## Calm members -/

/-- No node heeds the message. -/
def Message.Unheeded (message : Message) : Prop :=
  ∀ (n : Node) (now : Nat), n.receive now message = (n, [])

theorem Message.unheeded_prepare {b : Ballot} (invalid : ¬ b.Valid) (source : NodeId) :
    (Message.prepare source b).Unheeded := by
  intro n now
  have dropped : n.acceptor.receivePrepare now source b = (n.acceptor, []) := if_neg invalid
  show n.withAcceptor (n.acceptor.receivePrepare now source b) = (n, [])
  rw [dropped]
  rfl

namespace Member

/-- A member that neither leads nor holds a reply, and says nothing that is heeded. -/
structure Calm (m : Member) : Prop where
  unheld : m.node.persistenceRequired = false
  follows : m.node.leading = false
  owner : m.node.proposer.ballot.owner = m.node.id
  traffic : ∀ o ∈ m.queue, ∃ message : Message, o = .broadcast message ∧ message.Unheeded

variable {m : Member}

theorem persist_unheld (unheld : m.node.persistenceRequired = false) : m.persist = m := by
  simp [persist, unheld]

theorem receive_unheeded {message : Message} (unheeded : message.Unheeded) (now : Nat) :
    m.receive now message = m := by
  simp [receive, unheeded m.node now, absorb, outbound]

theorem pulse_follower (follows : m.node.leading = false) (now : Nat) :
    m.absorb (let r := m.node.pulse now; (r.1, r.2 ++ r.1.resend)) = m := by
  have idle : m.node.proposer.leader = false := follows
  simp [Node.pulse, Node.resend, Proposer.resend, follows, idle, absorb, outbound]

/-- A follower that is given a value says nothing. -/
theorem Calm.propose (calm : m.Calm) (v : Value) : (m.absorb (m.node.propose v)).Calm := by
  have idle : m.node.proposer.leader = false := calm.follows
  obtain ⟨ballot, leader, silent⟩ : (m.node.proposer.propose v).1.ballot = m.node.proposer.ballot ∧
      (m.node.proposer.propose v).1.leader = false ∧ (m.node.proposer.propose v).2 = [] := by
    unfold Proposer.propose
    split
    · exact ⟨rfl, idle, by simp [idle]⟩
    · exact ⟨rfl, idle, rfl⟩
  have queue : (m.absorb (m.node.propose v)).queue = m.queue := by
    simp [absorb, Node.propose, Node.withProposer, silent, outbound]
  exact ⟨calm.unheld, leader, (congrArg Ballot.owner ballot).trans calm.owner,
    queue ▸ calm.traffic⟩

/-- What a node without a name prepares is not heeded. -/
theorem Calm.prepare (calm : m.Calm) (nameless : m.node.id = "") (fresh : Bool) :
    (m.absorb (m.node.prepare fresh)).Calm := by
  obtain ⟨owner, leader⟩ : (m.node.proposer.prepare fresh).1.ballot.owner = m.node.id ∧
      (m.node.proposer.prepare fresh).1.leader = false := by
    cases fresh with
    | true => exact ⟨m.node.proposer.ballot.next_owner.trans calm.owner, rfl⟩
    | false => exact ⟨calm.owner, calm.follows⟩
  refine ⟨calm.unheld, leader, owner, fun o mem => ?_⟩
  rcases List.mem_append.1 mem with old | new
  · exact calm.traffic o old
  · obtain ⟨e, sent, named⟩ := List.mem_filterMap.1 new
    have asks : e = .prepare (m.node.proposer.prepare fresh).1.ballot := by
      have sent : e ∈ if (m.node.proposer.prepare fresh).1.active then
        [.prepare (m.node.proposer.prepare fresh).1.ballot] else [] := sent
      split at sent
      · exact List.mem_singleton.1 sent
      · cases sent
    subst asks
    cases named
    exact ⟨_, rfl, Message.unheeded_prepare (fun valid => valid (owner.trans nameless)) _⟩

/-- **A calm member stays calm** when its traffic is carried. -/
theorem Calm.collect (calm : m.Calm) (now : Nat) (others : List NodeId) :
    (m.collect now others).1.Calm ∧
      ∀ e ∈ (m.collect now others).2.sent, e.message.Unheeded := by
  refine (collect_keeps now others
    (I := fun k acc => k.Calm ∧ ∀ e ∈ acc.sent, e.message.Unheeded) ?_ ?_ ⟨calm, by simp⟩).1
  · rintro k o rest acc traffic - ⟨calm, unheeded⟩
    obtain ⟨message, rfl, ignored⟩ := calm.traffic o (traffic ▸ List.mem_cons_self)
    have later : ({ k with queue := rest } : Member).Calm :=
      { calm with
        traffic := fun o mem => calm.traffic o (traffic ▸ List.mem_cons_of_mem _ mem) }
    refine ⟨?_, fun e mem => ?_⟩
    · show (({ k with queue := rest } : Member).receive now message).persist.Calm
      rw [receive_unheeded ignored, persist_unheld later.unheld]
      exact later
    · rcases List.mem_append.1 mem with old | new
      · exact unheeded e old
      · obtain ⟨recipient, -, rfl⟩ := List.mem_map.1 new
        exact ignored
  · rintro k acc - ⟨calm, unheeded⟩
    exact ⟨{ calm with traffic := by simp }, unheeded⟩

end Member

namespace Cluster

/-! ## Calm clusters -/

/-- All members are calm, and nothing in flight is heeded. -/
structure Calm (names : List NodeId) (c : Cluster) : Prop where
  named : c.names = names
  members : ∀ m ∈ c.members, m.Calm
  pool : ∀ e ∈ c.pool, e.message.Unheeded

/-- No node prepares a ballot, or restarts, but one without a name prepares. -/
def Action.Unowned : Action → Prop
  | .deliver _ | .drop _ | .duplicate _ | .persist _ | .propose .. | .pulse _ => True
  | .prepare id _ => id = ""
  | _ => False

variable {names : List NodeId} {c : Cluster} {a : Action}

theorem calm_start (names : List NodeId) (quorum : Nat) (timing : Timing) :
    (start names quorum timing none).Calm (start names quorum timing none).names := by
  refine ⟨rfl, fun m mem => ?_, fun e mem => absurd mem List.not_mem_nil⟩
  obtain ⟨id, -, rfl⟩ := List.mem_map.1 mem
  exact ⟨rfl, rfl, rfl, fun o mem => absurd mem List.not_mem_nil⟩

theorem Calm.update (calm : c.Calm names) {id : NodeId} {f : Member → Member}
    (named : ∀ m, (f m).node.id = m.node.id)
    (keeps : ∀ m ∈ c.members, m.node.id = id → (f m).Calm) : (c.update id f).Calm names := by
  refine ⟨(names_update fun m _ same => (named m).trans same).trans calm.named,
    fun x found => ?_, calm.pool⟩
  obtain ⟨m, old, ⟨same, rfl⟩ | ⟨-, rfl⟩⟩ := mem_update found
  · exact keeps m old same
  · exact calm.members x old

theorem Calm.collect (calm : c.Calm names) : c.collect.1.Calm names := by
  have each (m : Member) (mem : m ∈ c.members) :=
    (calm.members m mem).collect c.now (c.others m.node.id)
  rw [collect_eq]
  refine ⟨?_, fun x found => ?_, fun e mem => ?_⟩
  · rw [← calm.named]
    unfold Cluster.names
    rw [List.map_map]
    exact List.map_congr_left fun m _ => m.collect_id c.now (c.others m.node.id)
  · obtain ⟨m, old, rfl⟩ := List.mem_map.1 found
    exact (each m old).1
  · rcases List.mem_append.1 mem with old | new
    · exact calm.pool e old
    · rw [sent_total] at new
      obtain ⟨x, origin, sent⟩ := List.mem_flatMap.1 new
      obtain ⟨m, old, rfl⟩ := List.mem_map.1 origin
      exact (each m old).2 e sent

/-- **A calm cluster stays calm.** -/
theorem Calm.step (calm : c.Calm names) (unowned : a.Unowned) : (c.step a).1.Calm names := by
  have elementary : a.Elementary := by cases a <;> trivial
  rw [step_elementary c elementary]
  refine Calm.collect ?_
  cases a with
  | deliver index =>
    simp only [act]
    split
    · next e found =>
      have ignored := calm.pool e (List.mem_of_getElem? found)
      have taken : ({ c with pool := c.pool.eraseIdx (c.place index) } : Cluster).Calm names :=
        { calm with pool := fun e mem => calm.pool e (List.mem_of_mem_eraseIdx mem) }
      have unchanged : ({ c with pool := c.pool.eraseIdx (c.place index) } : Cluster).handOver e =
          { c with pool := c.pool.eraseIdx (c.place index) } :=
        update_same fun m _ _ => by simp [Member.receive_unheeded ignored]
      rw [unchanged]
      exact taken
    · exact calm
  | drop index =>
    exact { calm with pool := fun e mem => calm.pool e (List.mem_of_mem_eraseIdx mem) }
  | duplicate index =>
    refine { calm with pool := fun e mem => ?_ }
    rcases List.mem_append.1 mem with old | copy
    · exact calm.pool e old
    · exact calm.pool e (List.mem_of_getElem? (Option.mem_toList.1 copy))
  | persist id =>
    have unchanged : c.update id Member.persist = c :=
      update_same fun m mem _ => Member.persist_unheld (calm.members m mem).unheld
    show (c.update id Member.persist).Calm names
    rwa [unchanged]
  | pulse id =>
    have unchanged : (c.act (.pulse id)).1 = c :=
      update_same fun m mem _ => Member.pulse_follower (calm.members m mem).follows c.now
    rwa [unchanged]
  | propose id v => exact calm.update (fun _ => rfl) fun m mem _ => (calm.members m mem).propose v
  | prepare id fresh =>
    exact calm.update (fun _ => rfl) fun m mem same =>
      (calm.members m mem).prepare (same.trans unowned) fresh
  | _ => exact unowned.elim

theorem Calm.run (calm : c.Calm names) {actions : List Action}
    (unowned : ∀ a ∈ actions, a.Unowned) : (c.run actions).1.Calm names := by
  induction actions generalizing c with
  | nil => exact calm
  | cons a rest ih =>
    rw [run_cons]
    exact ih (calm.step (unowned a List.mem_cons_self)) fun b mem =>
      unowned b (List.mem_cons_of_mem _ mem)

/-- **A node without a name never leads**, if nobody else prepares. -/
theorem nameless_follows (names : List NodeId) (quorum : Nat) (timing : Timing)
    {actions : List Action} (unowned : ∀ a ∈ actions, a.Unowned) :
    let c := (start names quorum timing none).run actions
    c.1.names = (start names quorum timing none).names ∧
      ∀ m ∈ c.1.members, m.node.leading = false := by
  intro c
  have calm := (calm_start names quorum timing).run unowned
  exact ⟨calm.named, fun m mem => (calm.members m mem).follows⟩

end Cluster

end Synod
