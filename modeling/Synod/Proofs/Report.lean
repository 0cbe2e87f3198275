/-
Synod.Proofs.Report -- a node reports its resolution, and once

What a node's learner resolves the node reports, once and as it is (`Node.step_outcome`).  A
report goes with the rest of a member's own traffic.  So where no member goes down or
restarts, the decisions that are told are those that the learners made, each of them once
(`Reported.run`).
-/
import Synod.Proofs.Cluster

namespace Synod

set_option autoImplicit false

/-! ## Nodes -/

def Effect.decision? (self : NodeId) : Effect → Option Decision
  | .resolved b v => some { node := self, ballot := b, value := v }
  | _ => none

def Outbound.decision? (self : NodeId) : Outbound → Option Decision
  | .resolved b v => some { node := self, ballot := b, value := v }
  | _ => none

theorem outbound_decisions (self : NodeId) (effects : List Effect) :
    (outbound self effects).filterMap (Outbound.decision? self) =
      effects.filterMap (Effect.decision? self) := by
  unfold outbound
  rw [List.filterMap_filterMap]
  refine List.filterMap_congr fun e _ => ?_
  cases e <;> rfl

/-- The decision of a learner of this name, if it made one. -/
def Learner.outcome (l : Learner) (self : NodeId) : List Decision :=
  l.resolution.toList.map fun x => { node := self, ballot := x.1, value := x.2 }

theorem Learner.heed_outcome (l : Learner) (self : NodeId) (order : Option Learner.Input) :
    (l.heed order).1.outcome self =
      l.outcome self ++ (l.heed order).2.filterMap (Effect.decision? self) := by
  cases order with
  | none => simp [heed]
  | some input =>
    cases input with
    | accepted source b v =>
      simp only [heed, step, receiveAccepted]
      split
      · simp
      · next counted =>
        have unresolved : l.resolution = none := by
          simpa [complete] using fun done => counted (.inl done)
        split <;> simp [outcome, unresolved, Effect.decision?]
    | setActive on => simp [heed, step, setActive, outcome]

namespace Node

def outcome (n : Node) : List Decision := n.learner.outcome n.id

/-- **A node reports what its learner resolves**, as it resolves it. -/
theorem step_outcome (n : Node) (now : Nat) (input : Input) :
    (n.step now input).1.outcome =
      n.outcome ++ (n.step now input).2.filterMap (Effect.decision? n.id) := by
  obtain ⟨id, -, -, learner, electoral, reports, effects⟩ := n.step_roles now input
  have replies : (n.acceptor.heed now (acceptorOrder input)).2.filterMap
      (Effect.decision? n.id) = [] := by
    refine List.filterMap_eq_nil_iff.2 fun e mem => ?_
    have reply := n.acceptor.heed_replies now _ e mem
    cases e <;> first | rfl | exact reply.elim
  have requests : (n.proposer.run (n.orders now input)).2.filterMap
      (Effect.decision? n.id) = [] := by
    refine List.filterMap_eq_nil_iff.2 fun e mem => ?_
    have speaks := n.proposer.run_speaks _ e mem
    cases e <;> first | rfl | exact speaks.elim
  have news : electoral.filterMap (Effect.decision? n.id) = [] := by
    refine List.filterMap_eq_nil_iff.2 fun e mem => ?_
    have report := reports e mem
    cases e <;> first | rfl | exact report.elim
  rw [effects]
  simp only [List.filterMap_append, replies, requests, news, List.nil_append, List.append_nil]
  unfold outcome
  rw [id, learner, Learner.heed_outcome]

end Node

/-! ## Members -/

namespace Member

/-- What is told of a member, with what it is about to tell, is what its learner resolved. -/
def Tells (told : List Decision) (m : Member) : Prop :=
  told ++ m.queue.filterMap (Outbound.decision? m.node.id) = m.node.outcome

variable {told : List Decision} {m : Member}

theorem Tells.absorb (tells : m.Tells told) (now : Nat) (input : Node.Input) :
    (m.absorb (m.node.step now input)).Tells told := by
  have id : (m.node.step now input).1.id = m.node.id := (m.node.step_roles now input).id
  unfold Tells at tells ⊢
  simp only [Member.absorb, List.filterMap_append, id]
  rw [outbound_decisions, ← List.append_assoc, tells, Node.step_outcome]

theorem Tells.persist (tells : m.Tells told) : m.persist.Tells told := by
  unfold Member.persist
  split
  · exact Tells.absorb (m := { m with durable := m.node.snapshot }) tells 0 .persisted
  · exact tells

theorem persist_down (m : Member) : m.persist.down = m.down := by
  unfold Member.persist
  split <;> rfl

theorem collect_down (m : Member) (now : Nat) (others : List NodeId) :
    (m.collect now others).1.down = m.down := by
  refine (collect_keeps now others (I := fun k _ => k.down = m.down) ?_
    (fun _ _ _ same => same) rfl).1
  intro k o rest acc _ _ same
  cases o with
  | broadcast message => exact (persist_down _).trans same
  | unicast | resolved => exact same

theorem collect_queue (m : Member) (now : Nat) (others : List NodeId) :
    (m.collect now others).1.queue = [] :=
  (collect_keeps now others (I := fun _ _ => True) (fun _ _ _ _ _ _ _ => trivial)
    (fun _ _ _ _ => trivial) trivial).2

/-- **A member tells all that it has to tell**, and nothing but its own decisions. -/
theorem Tells.collect (tells : m.Tells told) (up : m.down = false) (now : Nat)
    (others : List NodeId) :
    told ++ (m.collect now others).2.decided = (m.collect now others).1.node.outcome ∧
      ∀ d ∈ (m.collect now others).2.decided, d.node = m.node.id := by
  have all := (collect_keeps now others (I := fun k acc => k.node.id = m.node.id ∧
    k.down = false ∧ k.Tells (told ++ acc.decided) ∧ ∀ d ∈ acc.decided, d.node = m.node.id)
    ?carries ?drops (m := m) ⟨rfl, up, by simpa using tells, by simp⟩).1
  case carries =>
    rintro k o rest acc traffic - ⟨id, up, tells, own⟩
    unfold Tells at tells
    rw [traffic] at tells
    cases o with
    | broadcast message =>
      have before : ({ k with queue := rest } : Member).Tells (told ++ acc.decided) := tells
      refine ⟨(persist_id _).trans ((receive_id _ now message).trans id),
        (persist_down _).trans up, ?_, ?_⟩
      · show Tells (told ++ (acc.decided ++ [])) _
        rw [List.append_nil]
        exact (before.absorb now (.receive message)).persist
      · show ∀ d ∈ acc.decided ++ [], _
        rwa [List.append_nil]
    | unicast recipient message =>
      refine ⟨id, up, ?_, ?_⟩
      · show Tells (told ++ (acc.decided ++ [])) _
        rw [List.append_nil]
        exact tells
      · show ∀ d ∈ acc.decided ++ [], _
        rwa [List.append_nil]
    | resolved b v =>
      refine ⟨id, up, ?_, fun d mem => ?_⟩
      · show _ = k.node.outcome
        rw [← tells]
        simp [carry, Outbound.decision?, Carried.append_def]
      · rcases List.mem_append.1 mem with old | new
        · exact own d old
        · rw [List.mem_singleton.1 new]
          exact id
  case drops =>
    rintro k acc down ⟨-, up, -⟩
    rw [up] at down
    cases down
  obtain ⟨-, -, after, own⟩ := all
  unfold Tells at after
  rw [collect_queue, List.filterMap_nil, List.append_nil] at after
  exact ⟨after, own⟩

end Member

namespace Cluster

/-! ## Clusters -/

/-- No member is down. -/
def Up (c : Cluster) : Prop := ∀ m ∈ c.members, m.down = false

/-- One member of a cluster in which all traffic is carried acts, and stays up. -/
structure Acts (c : Cluster) (m : Member) (f : Member → Member) : Prop where
  distinct : c.Distinct
  idle : c.Idle
  mem : m ∈ c.members
  named : (f m).node.id = m.node.id
  up : (f m).down = false

namespace Acts

variable {c : Cluster} {m x : Member} {f : Member → Member}

/-- The member has carried its traffic, and the others are as they were. -/
theorem members_after (acts : c.Acts m f) (found : x ∈ (c.update m.node.id f).collect.1.members) :
    x = ((f m).collect c.now (c.others m.node.id)).1 ∨ x ∈ c.members ∧ x.node.id ≠ m.node.id := by
  rw [collect_update acts.distinct acts.idle acts.mem acts.named] at found
  obtain ⟨k, old, ⟨-, rfl⟩ | ⟨other, rfl⟩⟩ := mem_update found
  · exact .inl rfl
  · exact .inr ⟨old, other⟩

/-- What is told is what the member has to tell. -/
theorem told (acts : c.Acts m f) : (c.update m.node.id f).collect.2.decided =
    ((f m).collect c.now (c.others m.node.id)).2.decided := by
  rw [collect_update acts.distinct acts.idle acts.mem acts.named]

theorem names_after (acts : c.Acts m f) : (c.update m.node.id f).collect.1.names = c.names := by
  rw [collect_update acts.distinct acts.idle acts.mem acts.named]
  exact names_update fun _ _ _ =>
    ((f m).collect_id c.now (c.others m.node.id)).trans acts.named

theorem distinct_after (acts : c.Acts m f) : (c.update m.node.id f).collect.1.Distinct :=
  (congrArg List.Nodup acts.names_after).mpr acts.distinct

theorem idle_after (acts : c.Acts m f) : (c.update m.node.id f).collect.1.Idle := by
  intro x found
  rcases acts.members_after found with rfl | ⟨old, -⟩
  · exact (f m).collect_queue c.now (c.others m.node.id)
  · exact acts.idle x old

theorem up_after (acts : c.Acts m f) (up : c.Up) : (c.update m.node.id f).collect.1.Up := by
  intro x found
  rcases acts.members_after found with rfl | ⟨old, -⟩
  · exact ((f m).collect_down c.now (c.others m.node.id)).trans acts.up
  · exact up x old

end Acts

/-- What was told is what the learners resolved. -/
structure Reported (told : List Decision) (c : Cluster) : Prop where
  distinct : c.Distinct
  idle : c.Idle
  up : c.Up
  outcome : ∀ m ∈ c.members, told.filter (fun d => d.node = m.node.id) = m.node.outcome

/-- An elementary action that neither restarts a node nor takes it off the network. -/
def Action.Lasting (a : Action) : Prop :=
  a.Elementary ∧ (∀ id, a ≠ .restart id) ∧ ∀ id, a ≠ .down id

variable {told : List Decision} {c : Cluster}

theorem reported_start (names : List NodeId) (quorum : Nat) (timing : Timing)
    (leader : Option NodeId) : (start names quorum timing leader).Reported [] := by
  have origin : ∀ m ∈ (start names quorum timing leader).members,
      ∃ id, m = { node := Node.start { id, quorum, timing, leader } 0 } := by
    intro m mem
    obtain ⟨id, -, rfl⟩ := List.mem_map.1 mem
    exact ⟨id, rfl⟩
  refine ⟨(distinct_start names quorum timing leader).1, ?_, ?_, ?_⟩ <;> intro m mem <;>
    obtain ⟨id, rfl⟩ := origin m mem <;> rfl

theorem Reported.tells (reported : c.Reported told) {m : Member} (mem : m ∈ c.members) :
    m.Tells (told.filter fun d => d.node = m.node.id) := by
  unfold Member.Tells
  rw [reported.idle m mem, List.filterMap_nil, List.append_nil]
  exact reported.outcome m mem

/-- One member acts, and tells what it has to tell. -/
theorem Reported.update (reported : c.Reported told) {id : NodeId} {f : Member → Member}
    (named : ∀ m, (f m).node.id = m.node.id) (up : ∀ m, m.down = false → (f m).down = false)
    (tells : ∀ m ∈ c.members, m.node.id = id →
      (f m).Tells (told.filter fun d => d.node = m.node.id)) :
    (c.update id f).collect.1.Reported (told ++ (c.update id f).collect.2.decided) := by
  by_cases known : ∃ m ∈ c.members, m.node.id = id
  · obtain ⟨m, mem, rfl⟩ := known
    have acts : c.Acts m f :=
      ⟨reported.distinct, reported.idle, mem, named m, up m (reported.up m mem)⟩
    obtain ⟨whole, own⟩ := (tells m mem rfl).collect acts.up c.now (c.others m.node.id)
    rw [named] at own
    refine ⟨acts.distinct_after, acts.idle_after, acts.up_after reported.up, fun x found => ?_⟩
    rw [acts.told, List.filter_append]
    rcases acts.members_after found with rfl | ⟨old, other⟩
    · rw [((f m).collect_id c.now (c.others m.node.id)).trans acts.named, ← whole]
      congr 1
      exact List.filter_eq_self.2 fun d mem => decide_eq_true (own d mem)
    · rw [reported.outcome x old, List.filter_eq_nil_iff.2 fun d mem => ?_, List.append_nil]
      rw [own d mem]
      exact fun same => other (of_decide_eq_true same).symm
  · have absent : c.update id f = c :=
      update_absent (fun m mem same => known ⟨m, mem, same⟩) f
    rw [absent, collect_idle reported.idle]
    simpa using reported

/-- Messages may be lost and repeated, and time may pass. -/
theorem Reported.network (reported : c.Reported told) (pool : List Envelope) (now : Nat) :
    ({ c with pool, now } : Cluster).collect.1.Reported
      (told ++ ({ c with pool, now } : Cluster).collect.2.decided) := by
  have still : ({ c with pool, now } : Cluster).Idle := reported.idle
  rw [collect_idle still]
  exact ⟨reported.distinct, reported.idle, reported.up, by simpa using reported.outcome⟩

/-- One input of the node of this name. -/
theorem Reported.operate (reported : c.Reported told) (id : NodeId) (input : Node.Input) :
    (c.operate id fun n => n.step c.now input).collect.1.Reported
      (told ++ (c.operate id fun n => n.step c.now input).collect.2.decided) :=
  reported.update (fun m => (m.node.step_roles c.now input).id) (fun _ up => up)
    fun _ mem _ => (reported.tells mem).absorb c.now input

/-- **An action tells what is resolved in it.** -/
theorem Reported.step (reported : c.Reported told) {a : Action} (lasting : a.Lasting) :
    (c.step a).1.Reported (told ++ (c.step a).2.decided) := by
  obtain ⟨elementary, lives, stays⟩ := lasting
  rw [step_elementary c elementary]
  cases a with
  | deliver index =>
    simp only [act]
    split
    · next e found =>
      have taken : ({ c with pool := c.pool.eraseIdx (c.place index) } : Cluster).Reported told :=
        { reported with }
      refine taken.update (fun m => ?_) (fun m up => ?_) fun m mem _ => ?_
      · split
        · rfl
        · exact m.receive_id c.now e.message
      · split <;> exact up
      · rw [if_neg (by simp [reported.up m mem])]
        exact (reported.tells mem).absorb c.now (.receive e.message)
    · exact reported.network c.pool c.now
  | drop index => exact reported.network _ c.now
  | duplicate index => exact reported.network _ c.now
  | advance duration => exact reported.network c.pool _
  | persist id =>
    exact reported.update Member.persist_id (fun m up => m.persist_down.trans up)
      fun m mem _ => (reported.tells mem).persist
  | propose id v => exact reported.operate id (.propose v)
  | prepare id fresh => exact reported.operate id (.prepare fresh)
  | pollLiveness id => exact reported.operate id .pollLiveness
  | pulse id =>
    refine reported.update (fun m => (m.node.step_roles c.now .pulse).id) (fun _ up => up)
      fun m mem _ => ?_
    rw [absorb_pulse]
    exact ((reported.tells mem).absorb c.now .pulse).absorb c.now .resend
  | up id =>
    refine reported.update (fun m => rfl) (fun _ _ => rfl) fun m mem _ => ?_
    exact reported.tells mem
  | settle | setActive => exact elementary.elim
  | restart id => exact absurd rfl (lives id)
  | down id => exact absurd rfl (stays id)

/-- **So does a run.** -/
theorem Reported.run (reported : c.Reported told) {actions : List Action}
    (lasting : ∀ a ∈ actions, a.Lasting) :
    (c.run actions).1.Reported (told ++ (c.run actions).2.decided) := by
  induction actions generalizing c told with
  | nil => simpa [Cluster.run] using reported
  | cons a rest ih =>
    have first := reported.step (lasting a List.mem_cons_self)
    have after := ih first fun b mem => lasting b (List.mem_cons_of_mem _ mem)
    rw [run_cons, List.append_assoc] at *
    exact after

end Cluster

end Synod
