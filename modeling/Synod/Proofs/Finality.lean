/-
Synod.Proofs.Finality -- the decision on record, and the one published

A decision is kept in three places.  The learner resolves once, but starts each life afresh.  The
store keeps the first decision that could be recorded.  What is published is overwritten each time.

`Standing` ties them together.  A life publishes what its store held at the start, until its own
learner resolves and this is routed; the learner's resolution is recorded only in a store that held
none.  So a decision that is published stays so, and is the one on record, unless the life began
with it on record and its learner resolved once more (`decision_final`).
-/
import Synod.Proofs.Life
import Synod.Proofs.Report

namespace Synod

set_option autoImplicit false

/-- What was decided, without who decided it. -/
def Decision.outcome (d : Decision) : Ballot × Value := (d.ballot, d.value)

theorem Node.mem_outcome {n : Node} {d : Decision} :
    d ∈ n.outcome ↔ d.node = n.id ∧ n.learner.resolution = some d.outcome := by
  unfold Node.outcome Learner.outcome Decision.outcome
  cases n.learner.resolution with
  | none => simp
  | some p =>
    obtain ⟨node, ballot, value⟩ := d
    simp [Prod.ext_iff, eq_comm]

/-- The decisions in a queue. -/
theorem mem_decisions {queue : List Outbound} {self : NodeId} {b : Ballot} {v : Value} :
    { node := self, ballot := b, value := v } ∈ queue.filterMap (Outbound.decision? self) ↔
      .resolved b v ∈ queue := by
  rw [List.mem_filterMap]
  constructor
  · rintro ⟨o, mem, same⟩
    cases o with
    | broadcast | unicast => cases same
    | resolved c w =>
      cases same
      exact mem
  · intro mem
    exact ⟨_, mem, rfl⟩

theorem Node.outcome_length (n : Node) : n.outcome.length ≤ 1 := by
  unfold Node.outcome Learner.outcome
  cases n.learner.resolution <;> simp

namespace Replica

variable {r t : Replica} {taken : List Message}

/-! ## The record -/

/-- A decision is recorded if there is none, unless that fails. -/
theorem resolve_decision (r : Replica) (b : Ballot) (v : Value) :
    (r.resolve b v).store.decision = r.store.decision ∨
      r.store.decision = none ∧ (r.resolve b v).store.decision = some (b, v) := by
  unfold resolve
  cases recorded : r.store.record b v with
  | error e => exact .inl rfl
  | ok store =>
    have added := Store.record_decision recorded
    cases found : r.store.decision with
    | none =>
      rw [found] at added
      exact .inr ⟨rfl, added⟩
    | some d =>
      rw [found] at added
      exact .inl added

/-- A recorded decision stays. -/
theorem Change.recorded (change : Change r taken t) {d : Ballot × Value}
    (found : r.store.decision = some d) : t.store.decision = some d := by
  cases change with
  | aside same => exact same.decision.trans found
  | operate | hear | take => exact found
  | @resolve b v rest =>
    rcases { r with queue := rest }.resolve_decision b v with same | ⟨new, -⟩
    · exact same.trans found
    · have unrecorded : r.store.decision = none := new
      rw [found] at unrecorded
      cases unrecorded

theorem Life.recorded {log : List Message} (life : Life r log t) {d : Ballot × Value}
    (found : r.store.decision = some d) : t.store.decision = some d := by
  refine life.keeps (I := fun _ t => t.store.decision = some d) ?_ found
  intro past r taken t change kept
  exact change.recorded kept

/-! ## What is published -/

/-- Where the decision of a life stands that began with `inherited` on record, when these decisions
were routed. -/
structure Standing (inherited : Option (Ballot × Value)) (told : List Decision) (r : Replica) :
    Prop where
  tells : r.member.Tells told
  published : r.published = (told.head?.map Decision.outcome).or inherited
  recorded : r.store.decision = inherited ∨
    inherited = none ∧ r.store.decision = told.head?.map Decision.outcome

section Standing

variable {inherited : Option (Ballot × Value)} {told : List Decision}

theorem Standing.accounts (standing : Standing inherited told r) :
    told ++ r.queue.filterMap (Outbound.decision? r.node.id) = r.node.outcome :=
  standing.tells

/-- What was routed is what the learner resolved. -/
theorem Standing.resolution (standing : Standing inherited told r) {d : Decision}
    (routed : d ∈ told) : r.node.learner.resolution = some d.outcome := by
  have made : d ∈ r.node.outcome := standing.accounts ▸ List.mem_append_left _ routed
  exact (Node.mem_outcome.1 made).2

/-- What is about to be routed is what the learner resolved. -/
theorem Standing.queued (standing : Standing inherited told r) {b : Ballot} {v : Value}
    (queued : .resolved b v ∈ r.queue) : r.node.learner.resolution = some (b, v) := by
  have made : ⟨r.node.id, b, v⟩ ∈ r.node.outcome :=
    standing.accounts ▸ List.mem_append_right _ (mem_decisions.2 queued)
  exact (Node.mem_outcome.1 made).2

/-- A resolution that was not routed yet waits in the queue. -/
theorem Standing.waits (standing : Standing inherited [] r) {p : Ballot × Value}
    (resolved : r.node.learner.resolution = some p) : .resolved p.1 p.2 ∈ r.queue := by
  have made : ⟨r.node.id, p.1, p.2⟩ ∈ r.node.outcome := Node.mem_outcome.2 ⟨rfl, resolved⟩
  rw [← standing.accounts] at made
  exact mem_decisions.1 made

/-- Nothing was routed yet, or what was routed is published. -/
theorem Standing.cases (standing : Standing inherited told r) :
    told = [] ∧ r.published = inherited ∧ r.store.decision = inherited ∨
      told ≠ [] ∧ ∃ p, r.node.learner.resolution = some p ∧ r.published = some p ∧
        (r.store.decision = inherited ∨ inherited = none ∧ r.store.decision = some p) := by
  have published := standing.published
  have recorded := standing.recorded
  cases told with
  | nil =>
    rcases recorded with same | ⟨none, found⟩
    · exact .inl ⟨rfl, published, same⟩
    · exact .inl ⟨rfl, published, found.trans none.symm⟩
  | cons d rest =>
    have resolved := standing.resolution List.mem_cons_self
    exact .inr ⟨by simp, d.outcome, resolved, published, recorded⟩

/-- **Each change keeps the standing**, and takes back nothing that was routed. -/
theorem Standing.change (standing : Standing inherited told r) (change : Change r taken t) :
    ∃ more, Standing inherited (told ++ more) t := by
  obtain ⟨tells, published, recorded⟩ := standing
  -- all changes but one route no decision
  have still (kept : Standing inherited told t) : ∃ more, Standing inherited (told ++ more) t :=
    ⟨[], by rwa [List.append_nil]⟩
  cases change with
  | aside same =>
    refine still ⟨?_, same.published.trans published, same.decision ▸ recorded⟩
    unfold Member.Tells member at tells ⊢
    simp only [same.node, same.queue]
    exact tells
  | @operate now input => exact still ⟨tells.absorb now input, published, recorded⟩
  | @hear now message => exact still ⟨tells.absorb now (.receive message), published, recorded⟩
  | @take o rest queued traffic =>
    refine still ⟨?_, published, recorded⟩
    have silent : o.decision? r.node.id = none := by
      cases o with
      | broadcast | unicast => rfl
      | resolved b v => exact absurd rfl (traffic b v)
    unfold Member.Tells member at tells ⊢
    simpa [queued, List.filterMap_cons_none silent] using tells
  | @resolve b v rest queued =>
    let d : Decision := { node := r.node.id, ballot := b, value := v }
    refine ⟨[d], ?_⟩
    -- the learner resolves once, so that nothing was routed before
    have routed : told ++ d :: rest.filterMap (Outbound.decision? r.node.id) = r.node.outcome := by
      unfold Member.Tells member at tells
      simpa [queued, Outbound.decision?] using tells
    have first : told = [] := by
      have short := congrArg List.length routed
      have once := r.node.outcome_length
      rw [← List.length_eq_zero_iff]
      simp only [List.length_append, List.length_cons] at short
      omega
    subst first
    refine ⟨?_, rfl, ?_⟩
    · have leaves := ({ r with queue := rest } : Replica).resolve_leaves b v
      rw [leaves.member]
      exact routed
    · have before : r.store.decision = inherited := by
        rcases recorded with same | ⟨none, found⟩
        · exact same
        · exact found.trans none.symm
      rcases ({ r with queue := rest } : Replica).resolve_decision b v with same | ⟨none, new⟩
      · exact .inl (same.trans before)
      · exact .inr ⟨before.symm.trans none, new⟩

theorem Life.standing {log : List Message} (life : Life r log t)
    (standing : Standing inherited told r) : ∃ more, Standing inherited (told ++ more) t := by
  refine life.keeps (I := fun _ t => ∃ more, Standing inherited (told ++ more) t) ?_ ⟨[], ?_⟩
  · rintro past r taken t change ⟨more, kept⟩
    obtain ⟨last, after⟩ := kept.change change
    rw [List.append_assoc] at after
    exact ⟨_, after⟩
  · rwa [List.append_nil]

end Standing

/-- A life starts with what its store holds. -/
theorem start_standing {c : Config} {s : Store} {now : Nat} (started : start c s now = .ok r) :
    r.published = s.decision ∧ Standing s.decision [] r := by
  rw [start_eq started]
  exact ⟨rfl, rfl, rfl, .inl rfl⟩

/-! ## Finality -/

/-- What a store may become over several lives, one after another. -/
inductive Inherits (s : Store) : Store → Prop
  | same : Inherits s s
  | life {u : Store} {c : Config} {now : Nat} {r t : Replica} {log : List Message}
      (inherits : Inherits s u) (started : start c u now = .ok r) (life : Life r log t) :
      Inherits s t.store

theorem Inherits.recorded {s u : Store} (inherits : Inherits s u) {d : Ballot × Value}
    (found : s.decision = some d) : u.decision = some d := by
  induction inherits with
  | same => exact found
  | life _ started life ih =>
    rw [start_eq started] at life
    exact life.recorded ih

/-- The life began with `d` on record, and now publishes what its own learner has resolved. -/
def Superseded (s : Store) (d : Ballot × Value) (r : Replica) : Prop :=
  s.decision = some d ∧ ∃ p, r.node.learner.resolution = some p ∧ r.published = some p

/-- **What is final about a decision.**  Take a life that started on any store, one moment of it,
and a later one.

* The decision on record stays, in this life and in all that follow.
* What is published is at first what the store held, and what the learner resolved as soon as this
  was routed.
* A published decision stays published, unless it is superseded.
* The decision on record is the one that is published, unless it is superseded. -/
theorem decision_final {c : Config} {s : Store} {now : Nat} {r₀ : Replica} {log more : List Message}
    (started : start c s now = .ok r₀) (life : Life r₀ log r) (later : Life r more t) :
    (∀ d, r.store.decision = some d →
      t.store.decision = some d ∧ ∀ u, Inherits t.store u → u.decision = some d) ∧
    (r₀.published = s.decision ∧
      (r.published = s.decision ∧
          (∀ p, r.node.learner.resolution = some p → .resolved p.1 p.2 ∈ r.queue) ∨
        ∃ p, r.node.learner.resolution = some p ∧ r.published = some p)) ∧
    (∀ d, r.published = some d → t.published = some d ∨ t.Superseded s d) ∧
    (∀ d, r.store.decision = some d → r.published = some d ∨ r.Superseded s d) := by
  obtain ⟨published, fresh⟩ := start_standing started
  obtain ⟨told, standing⟩ := life.standing fresh
  obtain ⟨last, after⟩ := later.standing standing
  rw [List.nil_append] at standing after
  refine ⟨fun d found => ⟨later.recorded found, fun u inherits => ?_⟩, ⟨published, ?_⟩, ?_, ?_⟩
  · exact inherits.recorded (later.recorded found)
  · rcases standing.cases with ⟨rfl, held, -⟩ | ⟨-, p, resolved, routed, -⟩
    · exact .inl ⟨held, fun p => standing.waits⟩
    · exact .inr ⟨p, resolved, routed⟩
  · intro d found
    rcases standing.cases with ⟨rfl, held, -⟩ | ⟨told, -⟩
    · -- the life has told nothing yet: so `d` is what it found on record
      rw [held] at found
      rcases after.cases with ⟨-, still, -⟩ | ⟨-, p, resolved, routed, -⟩
      · exact .inl (still.trans found)
      · exact .inr ⟨found, p, resolved, routed⟩
    · obtain ⟨d', rest, rfl⟩ := List.exists_cons_of_ne_nil told
      have same : t.published = r.published := after.published.trans standing.published.symm
      exact .inl (same.trans found)
  · intro d found
    rcases standing.cases with ⟨-, held, same⟩ | ⟨-, p, resolved, routed, same | ⟨-, new⟩⟩
    · exact .inl (held.trans (same.symm.trans found))
    · exact .inr ⟨same.symm.trans found, p, resolved, routed⟩
    · exact .inl (routed.trans (new.symm.trans found))

/-- A node with two peers. -/
def trio : Config where
  node := { id := "a", bindAddress := "127.0.0.1:4000" }
  cluster := { members := [
    { id := "b", address := "127.0.0.1:4001" }, { id := "c", address := "127.0.0.1:4002" } ] }

/-- The node of a trio on a store that may have a decision on record. -/
def trioOn (row : Option Store.ResolutionRow) : Replica where
  node := .start trio.setup 0
  store := { resolutionRow := row }
  peers := ["b", "c"]
  published := row.map Store.ResolutionRow.toDecision

/-- Both peers tell of their votes for a ballot of `c`. -/
def hearVotes (r : Replica) : Replica :=
  (r.step 0 (.receive (.accepted "b" ⟨2, "c"⟩ "x"))).step 0 (.receive (.accepted "c" ⟨2, "c"⟩ "x"))

theorem hearVotes_life (r : Replica) : ∃ log, Life r log r.hearVotes := by
  obtain ⟨_, first⟩ := (Life.begin (r := r)).step 0 (.receive (.accepted "b" ⟨2, "c"⟩ "x"))
  obtain ⟨_, second⟩ := first.step 0 (.receive (.accepted "c" ⟨2, "c"⟩ "x"))
  exact ⟨_, second⟩

/-- On an empty store, the decision is recorded, and is final. -/
theorem decision_final_trio :
    let r := (trioOn none).hearVotes
    let t := r.step 5000 .pollLiveness
    start trio {} 0 = .ok (trioOn none) ∧ r.published = some (⟨2, "c"⟩, "x") ∧
      t.published = some (⟨2, "c"⟩, "x") ∧
      ∀ u, Inherits t.store u → u.decision = some (⟨2, "c"⟩, "x") := by
  intro r t
  have started : start trio {} 0 = .ok (trioOn none) := rfl
  obtain ⟨log, life⟩ := hearVotes_life (trioOn none)
  obtain ⟨more, later⟩ := (Life.begin (r := r)).step 5000 .pollLiveness
  have published : r.published = some (⟨2, "c"⟩, "x") := by decide +kernel
  have recorded : r.store.decision = some (⟨2, "c"⟩, "x") := by decide +kernel
  obtain ⟨record, -, final, -⟩ := decision_final started life later
  refine ⟨started, published, ?_, (record _ recorded).2⟩
  rcases final _ published with still | ⟨inherited, -⟩
  · exact still
  · cases inherited

/-- On a store with a decision on record, the learner resolves again when the votes for a later
ballot come in, and replaces the published decision, but not the one on record. -/
theorem recorded_decision_replaced :
    let row : Store.ResolutionRow := .ofDecision ⟨1, "b"⟩ "x"
    trio.validate = .ok trio ∧ start trio { resolutionRow := some row } 0 = .ok (trioOn row) ∧
      (trioOn row).published = some (⟨1, "b"⟩, "x") ∧
      (∃ log, Life (trioOn row) log (trioOn row).hearVotes) ∧
      (trioOn row).hearVotes.published = some (⟨2, "c"⟩, "x") ∧
      (trioOn row).hearVotes.store.decision = some (⟨1, "b"⟩, "x") := by
  intro row
  exact ⟨rfl, rfl, by decide, hearVotes_life _, by decide +kernel, by decide +kernel⟩

end Replica

end Synod
