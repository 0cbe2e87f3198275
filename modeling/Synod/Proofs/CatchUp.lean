/-
Synod.Proofs.CatchUp -- one pulse of the leader makes up for every loss

Messages of a round are lost, repeated, made durable and delivered in any order.  What is left
belongs to the round (`Spread`), from the prepare on (`Cluster.spread_run`).

When the owner of the ballot leads, its next pulse asks everybody for a vote.  If nothing is lost
from then on, every vote comes (`Asked`), and when nothing is in flight or held any more, all
learners have resolved (`Cluster.pulse_catches_up`).
-/
import Synod.Proofs.Completion
import Synod.Proofs.Loss
import Synod.Proofs.Nameless

namespace Synod

set_option autoImplicit false

/-! ## Everybody is asked -/

section Asked

variable {quorum : Nat} {names : List NodeId} {b : Ballot} {v : Value}

/-- A round in which everybody was asked for a vote, and nothing is lost any more. -/
structure Asked (quorum : Nat) (names : List NodeId) (b : Ballot) (v : Value)
    (node : NodeId → Node) (flight : List Envelope) : Prop extends
    Course quorum names b v node flight where
  votes : ∀ r ∈ names, VoteComes names b v node flight r

theorem asked_steady (valid : b.Valid) (owner : b.owner ∈ names) :
    Steady names b v (Asked quorum names b v) where
  traffic asked := asked.toCourse.traffic
  step now asked member given exchange :=
    { toCourse := asked.toCourse.step valid owner member given exchange
      votes := fun r known => (asked.votes r known).step
        (asked.toCourse.proceeds valid member now given).answers exchange }
  same asked same :=
    { named := asked.named
      inRound := asked.inRound
      traffic := fun e mem => asked.traffic e ((same e).2 mem)
      votes := fun r known => (asked.votes r known).mono fun e mem => (same e).1 mem }

end Asked

namespace Cluster

variable {names : List NodeId} {quorum : Nat} {b : Ballot} {v : Value} {waits : Prop}
  {p : NodeId} {timing : Timing} {node : NodeId → Node} {c : Cluster} {a : Action}

/-! ## Losses -/

/-- Delivers, loses, repeats, makes durable, pulses, or gives node `p` its value. -/
def Action.Lossy (p : NodeId) (v : Value) : Action → Prop
  | .deliver _ | .drop _ | .duplicate _ | .persist _ | .pulse _ => True
  | .propose q w => q = p ∧ w = v
  | _ => False

theorem Action.Lossy.elementary (lossy : a.Lossy p v) : a.Elementary := by
  cases a <;> trivial

theorem run_append (c : Cluster) (first rest : List Action) :
    (c.run (first ++ rest)).1 = ((c.run first).1.run rest).1 := by
  induction first generalizing c with
  | nil => rfl
  | cons a first ih =>
    rw [List.cons_append, run_cons, run_cons]
    exact ih (c.step a).1

/-- A member is changed, if there is one of this name. -/
theorem Follows.perform {P Q : (NodeId → Node) → List Envelope → Prop} {id : NodeId}
    {f : Member → Member} (follows : c.Follows names Q node)
    (there : ∀ m ∈ c.members, m.node.id = id →
      ∃ node', (c.update id f).collect.1.Follows names P node')
    (absent : P node c.pool) : ∃ node', (c.update id f).collect.1.Follows names P node' := by
  by_cases known : ∃ m ∈ c.members, m.node.id = id
  · obtain ⟨m, mem, same⟩ := known
    exact there m mem same
  · rw [update_absent (fun m mem same => known ⟨m, mem, same⟩)]
    exact ⟨node, ({ follows with state := absent } : c.Follows names P node).still⟩

theorem pulse_id (n : Node) (now : Nat) : (n.pulse now).1.id = n.id := (n.step_roles now .pulse).id

/-- **A lossy step leaves what belongs to the round.** -/
theorem Follows.lossy (valid : b.Valid) (owner : b.owner ∈ names)
    (follows : c.Follows names (Spread quorum names b v waits) node)
    (lossy : a.Lossy b.owner v) :
    ∃ node', (c.step a).1.Follows names
      (Spread quorum names b v (waits ∧ a ≠ .propose b.owner v)) node' := by
  have steady {waits : Prop} : Steady names b v (Spread quorum names b v waits) :=
    spread_steady valid owner
  have lossless (one : a.Lossless) : ∃ node', (c.step a).1.Follows names
      (Spread quorum names b v (waits ∧ a ≠ .propose b.owner v)) node' := by
    obtain ⟨node', after⟩ := follows.step steady one
    have other : a ≠ .propose b.owner v := by
      rintro rfl
      exact one.elim
    exact ⟨node', { after with
      state := after.state.mono (fun waiting => ⟨waiting, other⟩) (List.Subset.refl _) }⟩
  have elementary := lossy.elementary
  cases a with
  | deliver | duplicate | persist => exact lossless trivial
  | drop index =>
    have fewer : ({ c with pool := c.pool.eraseIdx (c.place index) } : Cluster).Follows names
        (Spread quorum names b v (waits ∧ Action.drop index ≠ .propose b.owner v)) node :=
      { follows with
        state := follows.state.mono (fun waiting => ⟨waiting, by simp⟩) List.eraseIdx_subset }
    rw [step_elementary c elementary]
    exact ⟨node, fewer.still⟩
  | pulse id =>
    have still : waits → waits ∧ Action.pulse id ≠ .propose b.owner v :=
      fun waiting => ⟨waiting, by simp⟩
    rw [step_elementary c elementary]
    refine follows.perform (fun m mem same => ?_) (follows.state.mono still (List.Subset.refl _))
    subst same
    obtain ⟨state, bare⟩ := follows.before mem
    refine follows.act steady mem (pulse_id m.node c.now) (follows.up m mem) ?_
    refine Spread.absorb_pulse valid owner (follows.member mem) c.now ?_
    rw [bare, List.append_nil]
    exact state.mono still (List.Subset.refl _)
  | propose id w =>
    obtain ⟨own, rfl⟩ := lossy
    rw [step_elementary c elementary]
    obtain ⟨m, mem, same⟩ := follows.find owner
    obtain rfl : id = m.node.id := own.trans same.symm
    obtain ⟨state, bare⟩ := follows.before mem
    have aims := state.aims
    rw [← own, Function.update_self] at aims
    have proposed := Spread.absorb (m := m) valid owner rfl (follows.member mem)
      (.inr (.inr (.inr ⟨own, rfl⟩))) c.now (by rwa [bare, List.append_nil])
    -- the owner does not wait any more
    have after : Spread quorum names b w
        (waits ∧ Action.propose m.node.id w ≠ .propose b.owner w)
        (Function.update node m.node.id (m.absorb (m.node.propose w)).node)
        (c.pool ++ (m.absorb (m.node.propose w)).envelopes names) := by
      refine ⟨proposed.course, .inl ?_⟩
      rw [← own, Function.update_self]
      exact aims.propose
    exact follows.act (f := fun k => k.absorb (k.node.propose w)) steady mem rfl
      (follows.up m mem) after
  | _ => exact lossy.elim

theorem Follows.run_lossy {actions : List Action} (valid : b.Valid) (owner : b.owner ∈ names)
    (follows : c.Follows names (Spread quorum names b v waits) node)
    (lossy : ∀ a ∈ actions, a.Lossy b.owner v) :
    ∃ node', (c.run actions).1.Follows names
      (Spread quorum names b v (waits ∧ .propose b.owner v ∉ actions)) node' := by
  induction actions generalizing c node waits with
  | nil =>
    exact ⟨node, { follows with
      state := follows.state.mono (fun waiting => ⟨waiting, by simp⟩) (List.Subset.refl _) }⟩
  | cons a rest ih =>
    obtain ⟨node₁, first⟩ := follows.lossy valid owner (lossy a List.mem_cons_self)
    obtain ⟨node₂, last⟩ := ih first fun a mem => lossy a (List.mem_cons_of_mem _ mem)
    rw [run_cons]
    refine ⟨node₂, { last with state := last.state.mono ?_ (List.Subset.refl _) }⟩
    rintro ⟨⟨waiting, other⟩, later⟩
    refine ⟨waiting, fun mem => ?_⟩
    rcases List.mem_cons.1 mem with same | mem
    · exact other same.symm
    · exact later mem

/-! ## Before the round -/

/-- The nodes of a cluster in which at most node `p` has been given a value. -/
def unopened (quorum : Nat) (timing : Timing) (p : NodeId) (w : Option Value) : NodeId → Node :=
  Function.update (fresh quorum timing) p ((fresh quorum timing p).proposing w)

/-- Nothing happens in a cluster where nothing is in flight or held and nobody leads. -/
theorem step_calm (idle : c.Idle) (empty : c.pool = [])
    (calm : ∀ m ∈ c.members, m.node.persistenceRequired = false ∧ m.node.leading = false)
    (lossy : a.Lossy p v) (other : a ≠ .propose p v) : (c.step a).1 = c := by
  have unchanged {id : NodeId} {f : Member → Member} (same : ∀ m ∈ c.members, f m = m) :
      (c.update id f).collect.1 = c := by
    rw [update_same fun m mem _ => same m mem, collect_idle idle]
  have unaddressed (index : Nat) : c.addressed? index = none := by simp [addressed?, empty]
  have unspent (index : Nat) : c.pool.eraseIdx (c.place index) = c.pool := by simp [empty]
  rw [step_elementary c lossy.elementary]
  cases a with
  | deliver index => simp only [act, unaddressed, collect_idle idle]
  | drop index => simp only [act, unspent, collect_idle idle]
  | duplicate index =>
    simp only [act, unaddressed, Option.toList_none, List.append_nil, collect_idle idle]
  | persist id => exact unchanged fun m mem => Member.persist_unheld (calm m mem).1
  | pulse id => exact unchanged fun m mem => Member.pulse_follower (calm m mem).2 c.now
  | propose id w =>
    obtain ⟨rfl, rfl⟩ := lossy
    exact absurd rfl other
  | _ => exact lossy.elim

/-- **Before the round nothing happens**, but node `p` may be given its value. -/
theorem Follows.wait {w : Option Value} (unset : w = none ∨ w = some v)
    (follows : c.Follows names (fun _ flight => flight = []) (unopened quorum timing p w))
    (member : p ∈ names) (lossy : a.Lossy p v) :
    ∃ w', (w' = none ∨ w' = some v) ∧ (w' = none → w = none ∧ a ≠ .propose p v) ∧
      (c.step a).1.Follows names (fun _ flight => flight = []) (unopened quorum timing p w') := by
  by_cases given : a = .propose p v
  · subst given
    refine ⟨some v, .inr rfl, by simp, ?_⟩
    obtain ⟨m, mem, rfl⟩ := follows.find member
    have same := follows.holds m mem
    rw [unopened, Function.update_self] at same
    have proposed : m.node.propose v =
        ((fresh quorum timing m.node.id).proposing (some v), []) := by
      rw [← same]
      rcases unset with rfl | rfl <;> rfl
    have collected : (m.absorb (m.node.propose v)).collect c.now
        (names.filter fun name => name ≠ m.node.id) = (m.absorb (m.node.propose v), {}) := by
      refine collect_of_idle ?_ _ _
      simp [Member.absorb, proposed, follows.idle m mem]
    have after := follows.deed (P := fun _ flight => flight = [])
      (f := fun k => k.absorb (k.node.propose v)) mem rfl (follows.up m mem) collected
      ((List.append_nil _).trans follows.state)
    rw [step_elementary c lossy.elementary]
    have node : (m.absorb (m.node.propose v)).node =
        (fresh quorum timing m.node.id).proposing (some v) := congrArg Prod.fst proposed
    rw [node, unopened, Function.update_idem] at after
    exact after
  · have same : (c.step a).1 = c := by
      refine step_calm follows.idle follows.state (fun m mem => ?_) lossy given
      rw [← follows.holds m mem, unopened]
      by_cases own : m.node.id = p
      · rw [own, Function.update_self]
        exact ⟨rfl, rfl⟩
      · rw [Function.update_of_ne own]
        exact ⟨rfl, rfl⟩
    rw [same]
    exact ⟨w, unset, fun none => ⟨none, given⟩, follows⟩

theorem Follows.run_wait {w : Option Value} {actions : List Action} (unset : w = none ∨ w = some v)
    (follows : c.Follows names (fun _ flight => flight = []) (unopened quorum timing p w))
    (member : p ∈ names) (lossy : ∀ a ∈ actions, a.Lossy p v) :
    ∃ w', (w' = none ∨ w' = some v) ∧ (w' = none → w = none ∧ .propose p v ∉ actions) ∧
      (c.run actions).1.Follows names (fun _ flight => flight = [])
        (unopened quorum timing p w') := by
  induction actions generalizing c w with
  | nil => exact ⟨w, unset, fun none => ⟨none, by simp⟩, follows⟩
  | cons a rest ih =>
    obtain ⟨w₁, unset₁, missing₁, first⟩ := follows.wait unset member (lossy a List.mem_cons_self)
    obtain ⟨w₂, unset₂, missing₂, last⟩ :=
      ih unset₁ first fun a mem => lossy a (List.mem_cons_of_mem _ mem)
    rw [run_cons]
    refine ⟨w₂, unset₂, fun none => ?_, last⟩
    obtain ⟨still, later⟩ := missing₂ none
    obtain ⟨before, other⟩ := missing₁ still
    exact ⟨before, fun mem => (List.mem_cons.1 mem).elim (fun same => other same.symm) later⟩

/-- The ballot is prepared. -/
theorem Follows.opens {w : Option Value} (size : 1 ≤ quorum) (valid : p ≠ "")
    (unset : w = none ∨ w = some v)
    (follows : c.Follows names (fun _ flight => flight = []) (unopened quorum timing p w))
    (member : p ∈ names) :
    ∃ node, (c.step (.prepare p true)).1.Follows names
      (Spread quorum names { number := 1, owner := p } v (w = none)) node := by
  obtain ⟨m, mem, rfl⟩ := follows.find member
  have same := follows.holds m mem
  rw [unopened, Function.update_self] at same
  have elementary : (Action.prepare m.node.id true).Elementary := trivial
  rw [step_elementary c elementary]
  have asks : (m.node.prepare true).2 = [.prepare { number := 1, owner := m.node.id }] := by
    rw [← same]
    rfl
  have envelopes : (m.absorb (m.node.prepare true)).envelopes names =
      (Outbound.broadcast (.prepare m.node.id { number := 1, owner := m.node.id })).envelopes
        names := by
    simp [Member.envelopes, Member.absorb, follows.idle m mem, asks, outbound, Effect.outbound]
  have owned : ({ number := 1, owner := m.node.id } : Ballot).Valid := valid
  refine follows.act (f := fun k => k.absorb (k.node.prepare true))
    (spread_steady owned member) mem rfl (follows.up m mem) ?_
  rw [follows.state, envelopes, unopened, Function.update_idem]
  have node : (m.absorb (m.node.prepare true)).node.proposing (some v) =
      opened quorum timing m.node.id v := by
    show (m.node.prepare true).1.proposing (some v) = opened quorum timing m.node.id v
    rw [← same]
    rfl
  have proposal : (m.absorb (m.node.prepare true)).node.proposer.proposal = w := by
    show (m.node.prepare true).1.proposer.proposal = w
    rw [← same]
    rfl
  refine ⟨?_, ?_⟩
  · rw [Function.update_self, Function.update_idem, node]
    exact (opened_underway timing size m.node.id v).toCourse
  · rw [Function.update_self]
    rcases unset with rfl | rfl
    · exact .inr ⟨rfl, proposal⟩
    · exact .inl proposal

/-! ## After the pulse -/

/-- A leader in the round asks for votes again. -/
theorem resend_after_pulse {n : Node} (inRound : n.InRound quorum b v) (own : n.id = b.owner)
    (leads : n.leading = true) (now : Nat) : (n.pulse now).1.resend = [.accept b v] := by
  obtain ⟨active, ballot, -, proposal, -⟩ := inRound.runner own
  have still : (n.pulse now).1.proposer = n.proposer := (n.pulse_heeds now).proposer
  have leads : n.proposer.leader = true := leads
  simp [Node.resend, still, Proposer.resend, leads, Proposer.acceptRequest, active, proposal, ballot]

/-- **The leader's pulse asks everybody for a vote.** -/
theorem Follows.pulse (valid : b.Valid) (owner : b.owner ∈ names)
    (follows : c.Follows names (Spread quorum names b v False) node)
    (leads : ∀ m ∈ c.members, m.node.id = b.owner → m.node.leading = true) :
    ∃ node', (c.step (.pulse b.owner)).1.Follows names (Asked quorum names b v) node' := by
  obtain ⟨m, mem, own⟩ := follows.find owner
  have member := follows.member mem
  have elementary : (Action.pulse b.owner).Elementary := trivial
  rw [step_elementary c elementary, ← own]
  obtain ⟨state, bare⟩ := follows.before mem
  have spread := Spread.absorb_pulse valid owner member c.now
    (by rwa [bare, List.append_nil])
  refine follows.act (asked_steady valid owner) mem (pulse_id m.node c.now) (follows.up m mem)
    ⟨spread.settled, fun r known => .inl ?_⟩
  have inRound := state.settled.inRound m.node.id member
  rw [Function.update_self] at inRound
  have asks := resend_after_pulse inRound own (leads m mem own) c.now
  have exchange : Exchange names m.node.id .pulse
      ((m.node.pulse c.now).2 ++ (m.node.pulse c.now).1.resend) (c.pool ++ m.envelopes names)
      (c.pool ++ (m.absorb ((m.node.pulse c.now).1,
        (m.node.pulse c.now).2 ++ (m.node.pulse c.now).1.resend)).envelopes names) :=
    Member.exchange rfl ((m.node.pulse c.now).1, _) (fun _ mem => .inl mem) (List.Subset.refl _)
  have sent : .accept b v ∈ (m.node.pulse c.now).2 ++ (m.node.pulse c.now).1.resend := by
    rw [asks]
    exact List.mem_append_right _ (List.mem_singleton_self _)
  rw [← own]
  exact exchange.envelope sent rfl (List.mem_map_of_mem known)

/-- When nothing is in flight or held, everybody has resolved. -/
theorem Follows.asked_resolved (follows : c.Follows names (Asked quorum names b v) node)
    (enough : quorum ≤ names.length) (empty : c.pool = [])
    (unheld : ∀ m ∈ c.members, m.node.persistenceRequired = false) :
    ∀ m ∈ c.members, m.node.learner.resolution = some (b, v) := by
  have asked := follows.state
  rw [empty] at asked
  have distinct : names.Nodup := follows.named ▸ follows.distinct
  have resolved := asked.toCourse.resolved (follows.quiet unheld) distinct enough asked.votes
  intro m mem
  rw [← follows.holds m mem]
  exact resolved m.node.id (follows.member mem)

theorem Action.Lossy.unowned (lossy : a.Lossy p v) : a.Unowned := by
  cases a <;> trivial

/-- Only a node with a name comes to lead. -/
theorem named_of_leads {early late : List Action}
    (member : p ∈ (start names quorum timing none).names)
    (lossy : ∀ a ∈ early ++ late, a.Lossy p v)
    (leads : ∀ m ∈ ((start names quorum timing none).run
      (early ++ .prepare p true :: late)).1.members, m.node.id = p → m.node.leading = true) :
    p ≠ "" := by
  rintro rfl
  have unowned : ∀ a ∈ early ++ .prepare "" true :: late, a.Unowned := by
    intro a mem
    rcases List.mem_append.1 mem with before | mem
    · exact (lossy a (List.mem_append_left _ before)).unowned
    · rcases List.mem_cons.1 mem with rfl | after
      · rfl
      · exact (lossy a (List.mem_append_right _ after)).unowned
  obtain ⟨kept, follow⟩ := nameless_follows names quorum timing unowned
  obtain ⟨m, mem, same⟩ := List.mem_map.1 (kept ▸ member)
  have led := leads m mem same
  rw [follow m mem] at led
  cases led

/-- What is left of a round whose owner has been given its value. -/
theorem spread_run {names known : List NodeId} {quorum : Nat} {timing : Timing} {p : NodeId}
    {v : Value} {early late : List Action} (size : 1 ≤ quorum) (valid : p ≠ "")
    (all : (start names quorum timing none).names = known) (member : p ∈ known)
    (lossy : ∀ a ∈ early ++ late, a.Lossy p v) (given : .propose p v ∈ early ++ late) :
    ∃ node, ((start names quorum timing none).run (early ++ .prepare p true :: late)).1.Follows
      known (Spread quorum known { number := 1, owner := p } v False) node := by
  subst all
  have owned : ({ number := 1, owner := p } : Ballot).Valid := valid
  have started := follows_start names quorum timing
  have bare : unopened quorum timing p none = fresh quorum timing :=
    Function.update_eq_self_iff.2 rfl
  have calm : (start names quorum timing none).Follows (start names quorum timing none).names
      (fun _ flight => flight = []) (unopened quorum timing p none) := by
    rw [bare]
    exact { started with state := started.state.2 }
  obtain ⟨w, unset, missing, waiting⟩ := calm.run_wait (.inl rfl) member
    fun a mem => lossy a (List.mem_append_left _ mem)
  obtain ⟨node, opened⟩ := waiting.opens size valid unset member
  obtain ⟨node', spread⟩ := opened.run_lossy owned member
    fun a mem => lossy a (List.mem_append_right _ mem)
  rw [run_append, run_cons]
  refine ⟨node', { spread with state := spread.state.mono ?_ (List.Subset.refl _) }⟩
  rintro ⟨none, later⟩
  exact (List.mem_append.1 given).elim (missing none).2 later

/-- **One pulse of the leader makes up for every loss.**  One node prepares its first ballot, and
is given its value, before or after.  Messages are delivered, lost, repeated and made durable in
any order, and nodes pulse.  If this node leads and pulses once more, and nothing is lost from
then on, every learner has resolved when nothing is in flight or held. -/
theorem pulse_catches_up {names : List NodeId} {quorum : Nat} (timing : Timing) {p : NodeId}
    {v : Value} {early late after : List Action} (distinct : names.Nodup) (size : 1 ≤ quorum)
    (enough : quorum ≤ names.length) (member : p ∈ names)
    (lossy : ∀ a ∈ early ++ late, a.Lossy p v) (given : .propose p v ∈ early ++ late)
    (leads : ∀ m ∈ ((start names quorum timing none).run
      (early ++ .prepare p true :: late)).1.members, m.node.id = p → m.node.leading = true)
    (lossless : ∀ a ∈ after, a.Lossless) :
    let c := ((start names quorum timing none).run
      (early ++ .prepare p true :: late ++ .pulse p :: after)).1
    c.pool = [] → (∀ m ∈ c.members, m.node.persistenceRequired = false) →
      ∀ m ∈ c.members, m.node.learner.resolution = some ({ number := 1, owner := p }, v) := by
  intro c empty unheld
  have known : p ∈ (start names quorum timing none).names := mem_names_start.2 member
  have fewer : names.length ≤ (start names quorum timing none).names.length :=
    (List.subperm_of_subset distinct fun s mem => mem_names_start.2 mem).length_le
  have valid : p ≠ "" := named_of_leads known lossy leads
  have owned : ({ number := 1, owner := p } : Ballot).Valid := valid
  obtain ⟨node, spread⟩ := spread_run size valid rfl known lossy given
  obtain ⟨node', asked⟩ := spread.pulse owned known leads
  obtain ⟨node'', last⟩ := asked.run (asked_steady owned known) lossless
  have reached : c.Follows (start names quorum timing none).names (Asked quorum
      (start names quorum timing none).names { number := 1, owner := p } v) node'' := by
    show (run _ _).1.Follows _ _ _
    rw [run_append, run_cons]
    exact last
  exact reached.asked_resolved (enough.trans fewer) empty unheld

/-- Node `a` gets its value late and leads with the promise of `b`.  Then `b` hears the request to
vote, `c` hears nothing at all, and everything else is lost. -/
def mostlyLost : List Action :=
  [ .deliver 0, .persist "b", .drop 0, .propose "a" "x", .deliver 1, .deliver 0, .deliver 0 ] ++
    List.replicate 5 (.drop 0)

/-- One request to vote is repeated, and a vote is held for a while. -/
def caughtUp : List Action :=
  [.duplicate 3, .deliver 3, .persist "b"] ++ List.replicate 4 (.deliver 0) ++ [.persist "c"] ++
    List.replicate 10 (.deliver 0)

theorem pulse_catches_up_mostlyLost :
    (["a", "b", "c"] : List NodeId).Nodup ∧
    (∀ a ∈ [.pulse "a"] ++ mostlyLost, a.Lossy "a" "x") ∧
    .propose "a" "x" ∈ [.pulse "a"] ++ mostlyLost ∧
    (∀ m ∈ ((start ["a", "b", "c"] 2 {} none).run
      ([.pulse "a"] ++ .prepare "a" true :: mostlyLost)).1.members,
      m.node.id = "a" → m.node.leading = true) ∧
    (∀ a ∈ caughtUp, a.Lossless) ∧
    let c := ((start ["a", "b", "c"] 2 {} none).run
      ([.pulse "a"] ++ .prepare "a" true :: mostlyLost ++ .pulse "a" :: caughtUp)).1
    c.pool = [] ∧ (∀ m ∈ c.members, m.node.persistenceRequired = false) ∧
      ∀ m ∈ c.members, m.node.learner.resolution = some ({ number := 1, owner := "a" }, "x") := by
  have distinct : (["a", "b", "c"] : List NodeId).Nodup := by decide
  have lossy : ∀ a ∈ [.pulse "a"] ++ mostlyLost, a.Lossy "a" "x" := by
    simp [mostlyLost, Action.Lossy]
  have given : .propose "a" "x" ∈ [.pulse "a"] ++ mostlyLost := by decide
  have leads : ∀ m ∈ ((start ["a", "b", "c"] 2 {} none).run
      ([.pulse "a"] ++ .prepare "a" true :: mostlyLost)).1.members,
      m.node.id = "a" → m.node.leading = true := by decide +kernel
  have lossless : ∀ a ∈ caughtUp, a.Lossless := by simp [caughtUp, Action.Lossless]
  have empty : ((start ["a", "b", "c"] 2 {} none).run
      ([.pulse "a"] ++ .prepare "a" true :: mostlyLost ++ .pulse "a" :: caughtUp)).1.pool = [] := by
    decide +kernel
  have unheld : ∀ m ∈ ((start ["a", "b", "c"] 2 {} none).run
      ([.pulse "a"] ++ .prepare "a" true :: mostlyLost ++ .pulse "a" :: caughtUp)).1.members,
      m.node.persistenceRequired = false := by decide +kernel
  exact ⟨distinct, lossy, given, leads, lossless, empty, unheld,
    pulse_catches_up {} distinct (by decide) (by decide) (by decide) lossy given leads lossless
      empty unheld⟩

end Cluster

end Synod
