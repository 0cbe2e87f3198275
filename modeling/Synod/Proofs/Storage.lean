/-
Synod.Proofs.Storage -- a store, and the member that a replica keeps in it

What is saved is read back unchanged (`StateRow.toSnapshot_ofSnapshot`), and saving fails on
a broken table only (`save_cases`).

A replica's node, its traffic and what the store holds of it are a `Member`, and a replica does
to it what a member does.  Handling a message is receiving it, or nothing (`handle_member`);
persisting is persisting, or nothing while the state table is broken (`persist_cases`); and
everything else leaves the member alone (`Leaves`).
-/
import Synod.Proofs.Member
import Synod.Replica

namespace Synod

set_option autoImplicit false

/-! ## The store -/

namespace Store

theorem joinBallot_split (b : Option Ballot) :
    joinBallot (b.map numberOf) (b.map Ballot.owner) = b := by
  cases b with
  | none => rfl
  | some b => simp [joinBallot, numberOf]

/-- What is saved is read back unchanged, rounds from 2⁶³ on among it. -/
theorem StateRow.toSnapshot_ofSnapshot (s : Snapshot) : (ofSnapshot s).toSnapshot = s := by
  simp only [toSnapshot, ofSnapshot, joinBallot_split]

@[simp] theorem ResolutionRow.toDecision_ofDecision (b : Ballot) (v : Value) :
    (ofDecision b v).toDecision = (b, v) := by
  simp [toDecision, ofDecision, numberOf]

/-- The snapshot that the state table holds; an empty table holds the empty one. -/
def saved (s : Store) : Snapshot := (s.stateRow.map StateRow.toSnapshot).getD {}

/-- The decision on record. -/
def decision (s : Store) : Option (Ballot × Value) := s.resolutionRow.map ResolutionRow.toDecision

section Tables

variable {s t : Store}

/-- A call fails on a broken table, and only there. -/
theorem check_bind {α : Type} (s : Store) (table : Table) (x : α) :
    (do s.check table; return x : Except Error α) =
      if table ∈ s.brokenTables then .error (.storage "no such table") else .ok x := by
  unfold check
  split <;> rfl

theorem check_bind_eq_ok {α : Type} {table : Table} {x y : α} :
    (do s.check table; return x : Except Error α) = .ok y ↔ table ∉ s.brokenTables ∧ x = y := by
  rw [check_bind]
  split <;> simp [*]

theorem save_eq_ok {snapshot : Snapshot} : s.save snapshot = .ok t ↔
    .state ∉ s.brokenTables ∧ { s with stateRow := some (.ofSnapshot snapshot) } = t :=
  check_bind_eq_ok

theorem load_eq_ok {found : Option Snapshot} : s.load = .ok found ↔
    .state ∉ s.brokenTables ∧ s.stateRow.map StateRow.toSnapshot = found :=
  check_bind_eq_ok

theorem record_eq_ok {b : Ballot} {v : Value} : s.record b v = .ok t ↔
    .resolution ∉ s.brokenTables ∧
      { s with resolutionRow := s.resolutionRow.or (some (.ofDecision b v)) } = t :=
  check_bind_eq_ok

theorem resolution_eq_ok {found : Option (Ballot × Value)} : s.resolution = .ok found ↔
    .resolution ∉ s.brokenTables ∧ s.decision = found :=
  check_bind_eq_ok

theorem saved_of_load {found : Option Snapshot} (loaded : s.load = .ok found) :
    found.getD {} = s.saved := by
  obtain ⟨-, rfl⟩ := load_eq_ok.1 loaded
  rfl

/-- Saving fails on a broken table, and only there. -/
theorem save_cases (s : Store) (snapshot : Snapshot) :
    .state ∈ s.brokenTables ∧ (∃ e, s.save snapshot = .error e) ∨
      .state ∉ s.brokenTables ∧ ∃ t, s.save snapshot = .ok t ∧ t.saved = snapshot := by
  by_cases broken : .state ∈ s.brokenTables
  · exact .inl ⟨broken, _, (check_bind ..).trans (if_pos broken)⟩
  · exact .inr ⟨broken, _, save_eq_ok.2 ⟨broken, rfl⟩, StateRow.toSnapshot_ofSnapshot snapshot⟩

theorem save_decision {snapshot : Snapshot} (saved : s.save snapshot = .ok t) :
    t.decision = s.decision := by
  obtain ⟨-, rfl⟩ := save_eq_ok.1 saved
  rfl

theorem save_broken {snapshot : Snapshot} (saved : s.save snapshot = .ok t) :
    t.brokenTables = s.brokenTables := by
  obtain ⟨-, rfl⟩ := save_eq_ok.1 saved
  rfl

theorem load_ok (works : .state ∉ s.brokenTables) :
    s.load = .ok (s.stateRow.map StateRow.toSnapshot) :=
  load_eq_ok.2 ⟨works, rfl⟩

theorem record_saved {b : Ballot} {v : Value} (recorded : s.record b v = .ok t) :
    t.saved = s.saved ∧ t.brokenTables = s.brokenTables := by
  obtain ⟨-, rfl⟩ := record_eq_ok.1 recorded
  exact ⟨rfl, rfl⟩

/-- The first decision that is recorded stays. -/
theorem record_decision {b : Ballot} {v : Value} (recorded : s.record b v = .ok t) :
    t.decision = s.decision.or (some (b, v)) := by
  obtain ⟨-, rfl⟩ := record_eq_ok.1 recorded
  cases row : s.resolutionRow <;> simp [decision, row]

end Tables

end Store

/-! ## The member in a replica -/

namespace Replica

/-- The node, its traffic, and what the store holds of it. -/
def member (r : Replica) : Member where
  node := r.node
  queue := r.queue
  durable := r.store.saved

/-- Neither the member nor what is broken changes. -/
structure Leaves (r t : Replica) : Prop where
  member : t.member = r.member
  broken : t.store.brokenTables = r.store.brokenTables

theorem deliver_leaves (r : Replica) (recipient : NodeId) (message : Message) :
    Leaves r (r.deliver recipient message) := by
  unfold deliver
  split
  · exact ⟨rfl, rfl⟩
  · split <;> exact ⟨rfl, rfl⟩

theorem announce_leaves (r : Replica) (message : Message) : Leaves r (r.announce message) := by
  unfold announce
  split <;> exact ⟨rfl, rfl⟩

theorem resolve_leaves (r : Replica) (b : Ballot) (v : Value) : Leaves r (r.resolve b v) := by
  unfold resolve
  cases recorded : r.store.record b v with
  | ok t =>
    obtain ⟨saved, broken⟩ := Store.record_saved recorded
    exact ⟨by simp [member, saved], broken⟩
  | error e => exact ⟨rfl, rfl⟩

/-- Handling changes a member as receiving does, or not at all. -/
theorem handle_member (r : Replica) (now : Nat) (message : Message) :
    (r.handle now message).member = r.member ∨
      (r.handle now message).member = r.member.receive now message := by
  unfold handle
  split
  · split
    · next v =>
      unfold submit
      split
      · exact .inl (r.deliver_leaves _ _).member
      · exact .inr rfl
    · exact .inr rfl
  · exact .inl rfl

/-- A broadcast of one's own is never dropped or passed on. -/
theorem handle_own {r : Replica} {message : Message} (own : message.Own r.id) (now : Nat) :
    r.handle now message = r.dispatch now message := by
  cases message with
  | prepare sender | accept sender | accepted sender | heartbeat sender =>
    have same : sender = r.id := own
    simp [handle, knows, Message.sender?, same]
  | _ => exact own.elim

/-- Persisting works, or the state table is broken and nothing happens. -/
theorem persist_cases (r : Replica) :
    r.persist = r ∧ .state ∈ r.store.brokenTables ∧ r.node.persistenceRequired = true ∨
      r.persist.member = r.member.persist ∧ r.persist.node.persistenceRequired = false ∧
        (.state ∈ r.store.brokenTables → r.node.persistenceRequired = false) := by
  unfold persist
  split
  · next required =>
    have result : r.member.persist =
        { r.member with durable := r.node.snapshot }.absorb r.node.persisted := if_pos required
    rcases r.store.save_cases r.node.snapshot with
      ⟨broken, e, failed⟩ | ⟨works, t, saved, holds⟩
    · rw [failed]
      exact .inl ⟨rfl, broken, required⟩
    · rw [saved, result, ← holds]
      exact .inr ⟨rfl, rfl, fun broken => absurd broken works⟩
  · next idle =>
    have result : r.member.persist = r.member := if_neg idle
    have idle : r.node.persistenceRequired = false := by simpa using idle
    exact .inr ⟨result.symm, idle, fun _ => idle⟩

theorem persist_sent (r : Replica) : r.persist.sent = r.sent ∧ r.persist.peers = r.peers := by
  unfold persist
  split
  · split <;> exact ⟨rfl, rfl⟩
  · exact ⟨rfl, rfl⟩

/-- The heartbeat and the requests that follow it are two steps of the node. -/
theorem act_pulse (r : Replica) (now : Nat) : r.act now .pulse =
    (r.absorb (r.node.step now .pulse)).absorb ((r.node.step now .pulse).1.step now .resend) := by
  have id : (r.node.pulse now).1.id = r.node.id := (r.node.step_roles now .pulse).id
  simp [act, absorb, Node.step, outbound_append, id, Replica.id]

/-- What is left to do is one piece of traffic, or one message to oneself. -/
theorem step?_cases {r t : Replica} {now : Nat} (worked : r.step? now = some t) :
    (∃ o rest, r.queue = o :: rest ∧ t = { r with queue := rest }.route now o) ∨
      ∃ m rest, r.queue = [] ∧ r.loopback = m :: rest ∧
        t = ({ r with loopback := rest }.handle now m).persist := by
  cases queued : r.queue with
  | cons o rest =>
    simp only [step?, queued, Option.some.injEq] at worked
    exact .inl ⟨o, rest, rfl, worked.symm⟩
  | nil =>
    cases looped : r.loopback with
    | cons m rest =>
      simp only [step?, queued, looped, Option.some.injEq] at worked
      exact .inr ⟨m, rest, rfl, rfl, worked.symm⟩
    | nil => simp [step?, queued, looped] at worked

end Replica

end Synod
