/-
Synod.Proofs.Commitment -- what an acceptor is committed to

An acceptor may be restarted from its own snapshot, again and again, and be switched on and off.
Wherever this leads it, its snapshot is in order (`WellFormed`): it names a vote and its value
together, the promise covers the vote, and no ballot in it is without an owner.

From there both its promise and its vote only move up, a held vote stays what it is, and a promise
that it sends is its snapshot at that moment (`commitments_hold`).
-/
import Synod.Proofs.Acceptor
import Synod.Proofs.Voter

namespace Synod

set_option autoImplicit false

/-- A coherent snapshot whose ballots have owners. -/
structure Snapshot.WellFormed (s : Snapshot) : Prop extends Voter.Coherent s where
  promisedValid : ∀ b, s.promised = some b → b.Valid
  acceptedValid : ∀ b, s.accepted = some b → b.Valid

namespace Acceptor

variable {a next : Acceptor} {now : Nat} {i : Input} {effects : List Effect}

theorem start_wellFormed (now window : Nat) : (start now window).snapshot.WellFormed where
  toCoherent := Voter.coherent_empty
  promisedValid _ promised := by cases promised
  acceptedValid _ accepted := by cases accepted

/-! ## Moves -/

theorem Move.wellFormed (move : Move a now i next effects) (wellFormed : a.snapshot.WellFormed) :
    next.snapshot.WellFormed := by
  cases move with
  | @takePromise source b valid higher free =>
    refine ⟨⟨wellFormed.covered.trans higher.le, wellFormed.paired⟩, fun c promised => ?_,
      wellFormed.acceptedValid⟩
    exact Option.some.inj promised ▸ valid
  | @castVote source b v valid allowed free =>
    refine ⟨⟨le_rfl, rfl⟩, fun c promised => ?_, fun c accepted => ?_⟩
    · exact Option.some.inj promised ▸ valid
    · exact Option.some.inj accepted ▸ valid
  | _ => exact wellFormed

theorem Move.promised_le (move : Move a now i next effects) : a.promised ≤ next.promised := by
  cases move with
  | takePromise _ higher => exact higher.le
  | castVote _ allowed => exact allowed
  | _ => exact le_rfl

/-- A vote is cast at or above the promise, which covers the vote before. -/
theorem Move.accepted_le (move : Move a now i next effects) (covered : a.accepted ≤ a.promised) :
    a.accepted ≤ next.accepted := by
  cases move with
  | castVote _ allowed => exact covered.trans allowed
  | _ => exact le_rfl

theorem Move.vote_held (move : Move a now i next effects) (held : a.pendingVote ≠ none) :
    next.accepted = a.accepted ∧ next.value = a.value := by
  cases move with
  | castVote _ _ free => exact absurd free held
  | _ => exact ⟨rfl, rfl⟩

/-- A promise says what the snapshot is, before and after. -/
theorem Move.promise_current (move : Move a now i next effects) {recipient : NodeId} {b : Ballot}
    {vote : Option Ballot} {value : Option Value}
    (mem : .promise recipient b vote value ∈ effects) :
    a.snapshot = { promised := some b, accepted := vote, value := value } ∧
      next.snapshot = a.snapshot := by
  cases move with
  | repeatPromise _ known _ =>
    simp only [List.mem_singleton, Effect.promise.injEq] at mem
    obtain ⟨-, rfl, rfl, rfl⟩ := mem
    exact ⟨by rw [← known]; rfl, rfl⟩
  | release =>
    split at mem
    · rcases List.mem_append.1 mem with held | held
      · obtain ⟨source, c, -, known, same⟩ := mem_heldPromise held
        cases same
        exact ⟨by rw [← known]; rfl, rfl⟩
      · obtain ⟨_, _, _, -, -, -, same⟩ := mem_heldVote held
        cases same
    · cases mem
  | _ => simp at mem

/-! ## Runs -/

/-- The acceptors that come about by starting new ones, empty or from the snapshot of one that came
about before, and by all inputs but recoveries. -/
inductive Reachable : Acceptor → Prop
  | start (now window : Nat) : Reachable (start now window)
  | resume {a : Acceptor} (reachable : Reachable a) (now window : Nat) :
      Reachable ((Acceptor.start now window).recover a.snapshot)
  | step {a : Acceptor} (reachable : Reachable a) (now : Nat) {i : Input} (ordinary : i.Ordinary) :
      Reachable (a.step now i).1

theorem Reachable.wellFormed (reachable : a.Reachable) : a.snapshot.WellFormed := by
  induction reachable with
  | start now window => exact start_wellFormed now window
  | resume _ now window ih => exact ih
  | step _ now ordinary ih => exact (step_move _ now ordinary).wellFormed ih

theorem Reachable.run (reachable : a.Reachable) {inputs : List (Nat × Input)}
    (ordinary : ∀ i ∈ inputs, i.2.Ordinary) : (a.run inputs).1.Reachable := by
  induction inputs generalizing a with
  | nil => exact reachable
  | cons i rest ih =>
    exact ih (reachable.step i.1 (ordinary i List.mem_cons_self)) fun j mem =>
      ordinary j (List.mem_cons_of_mem _ mem)

/-- **A run keeps the snapshot in order**, and neither the promise nor the vote goes back. -/
theorem run_ascends (wellFormed : a.snapshot.WellFormed) {inputs : List (Nat × Input)}
    (ordinary : ∀ i ∈ inputs, i.2.Ordinary) :
    (a.run inputs).1.snapshot.WellFormed ∧ a.promised ≤ (a.run inputs).1.promised ∧
      a.accepted ≤ (a.run inputs).1.accepted := by
  induction inputs generalizing a with
  | nil => exact ⟨wellFormed, le_rfl, le_rfl⟩
  | cons i rest ih =>
    have move := a.step_move i.1 (ordinary i List.mem_cons_self)
    obtain ⟨formed, promised, accepted⟩ :=
      ih (move.wellFormed wellFormed) fun j mem => ordinary j (List.mem_cons_of_mem _ mem)
    exact ⟨formed, move.promised_le.trans promised,
      (move.accepted_le wellFormed.covered).trans accepted⟩

/-- **What an acceptor is committed to.**

* Its snapshot names a vote exactly when it names a value, the vote is at most the promise, and
  both ballots are valid.
* Neither the promise nor the vote ever goes back.
* While a vote is held, the vote and its value stay.
* A promise that is sent carries the snapshot of that moment, with a vote that is at most the
  promised ballot. -/
theorem commitments_hold (reachable : a.Reachable) :
    a.snapshot.WellFormed ∧
    (∀ inputs : List (Nat × Input), (∀ i ∈ inputs, i.2.Ordinary) →
      a.promised ≤ (a.run inputs).1.promised ∧ a.accepted ≤ (a.run inputs).1.accepted) ∧
    ∀ (now : Nat) (i : Input), i.Ordinary →
      (a.pendingVote ≠ none →
        (a.step now i).1.accepted = a.accepted ∧ (a.step now i).1.value = a.value) ∧
      ∀ recipient b vote value, .promise recipient b vote value ∈ (a.step now i).2 →
        a.snapshot = { promised := some b, accepted := vote, value := value } ∧
        (a.step now i).1.snapshot = a.snapshot ∧ vote ≤ some b := by
  have wellFormed := reachable.wellFormed
  refine ⟨wellFormed, fun inputs ordinary => (run_ascends wellFormed ordinary).2,
    fun now i ordinary => ⟨(a.step_move now ordinary).vote_held, ?_⟩⟩
  intro recipient b vote value sent
  obtain ⟨current, same⟩ := (a.step_move now ordinary).promise_current sent
  have covered := wellFormed.covered
  rw [current] at covered
  exact ⟨current, same, covered⟩

/-- An acceptor that was restarted with a vote, and holds a promise and another vote: a request for
a higher vote is ignored, and the promise that it sends reports the vote that it holds. -/
theorem commitments_hold_resumed :
    let first := ((start 0 2000).run [(0, .accept "p" ⟨1, "p"⟩ "x")]).1
    let a := (((start 5 2000).recover first.snapshot).run
      [ (5, .prepare "q" ⟨2, "q"⟩), (6, .accept "r" ⟨3, "r"⟩ "y"),
        (7, .accept "s" ⟨4, "s"⟩ "z") ]).1
    a.Reachable ∧ a.pendingVote ≠ none ∧
    .promise "q" ⟨3, "r"⟩ (some ⟨3, "r"⟩) (some "y") ∈ (a.step 8 .persisted).2 ∧
    a.snapshot = { promised := some ⟨3, "r"⟩, accepted := some ⟨3, "r"⟩, value := some "y" } ∧
    a.snapshot.WellFormed ∧ (a.step 8 (.accept "s" ⟨5, "s"⟩ "z")).1.accepted = a.accepted ∧
    a.promised ≤ (a.run [(8, .persisted), (9, .prepare "s" ⟨4, "s"⟩)]).1.promised := by
  intro first a
  have past : Reachable first := (Reachable.start 0 2000).run (by decide)
  have reachable : a.Reachable := (past.resume 5 2000).run (by decide)
  have held : a.pendingVote ≠ none := by decide
  have sent : .promise "q" ⟨3, "r"⟩ (some ⟨3, "r"⟩) (some "y") ∈ (a.step 8 .persisted).2 := by
    decide
  obtain ⟨wellFormed, ascends, each⟩ := commitments_hold reachable
  obtain ⟨-, promises⟩ := each 8 .persisted trivial
  obtain ⟨stays, -⟩ := each 8 (.accept "s" ⟨5, "s"⟩ "z") trivial
  exact ⟨reachable, held, sent, (promises _ _ _ _ sent).1, wellFormed, (stays held).1,
    (ascends [(8, .persisted), (9, .prepare "s" ⟨4, "s"⟩)] (by decide)).1⟩

end Acceptor

end Synod
