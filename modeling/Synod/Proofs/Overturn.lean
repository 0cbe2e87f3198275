/-
Synod.Proofs.Overturn -- when a ballot is used for two values

A node that lost the lead keeps its ballot and the promises of it.  One more promise of
that ballot makes it leader again, and if this promise reports a vote above all votes
reported before, the value it asks for is no longer the one it asked for already.  This
is the only way to ask for two values under one ballot in one life of a node
(`two_values_iff_overturned`).

`Steady` is what a node's steps keep: every value asked for under the current ballot is
still proposed, or was overturned.
-/
import Mathlib.Data.List.Induction
import Synod.Proofs.Roles

namespace Synod

set_option autoImplicit false

namespace Node

def run (n : Node) (inputs : List (Nat × Input)) : Node × List Effect :=
  inputs.foldl (fun r i => let s := r.1.step i.1 i.2; (s.1, r.2 ++ s.2)) (n, [])

theorem run_concat (n : Node) (inputs : List (Nat × Input)) (i : Nat × Input) :
    n.run (inputs ++ [i]) = (((n.run inputs).1.step i.1 i.2).1,
      (n.run inputs).2 ++ ((n.run inputs).1.step i.1 i.2).2) := by
  simp [run, List.foldl_append]

theorem run_append (n : Node) (first rest : List (Nat × Input)) :
    n.run (first ++ rest) = (((n.run first).1.run rest).1,
      (n.run first).2 ++ ((n.run first).1.run rest).2) := by
  induction rest using List.reverseRecOn with
  | nil => simp [run]
  | append_singleton rest i ih =>
    rw [← List.append_assoc, run_concat, run_concat, ih, List.append_assoc]

theorem run_cons (n : Node) (i : Nat × Input) (rest : List (Nat × Input)) :
    n.run (i :: rest) = (((n.step i.1 i.2).1.run rest).1,
      (n.step i.1 i.2).2 ++ ((n.step i.1 i.2).1.run rest).2) := by
  have once : n.run [i] = n.step i.1 i.2 := by simp [run]
  rw [← List.singleton_append, run_append, once]

/-- Whether a node that does not lead counts this promise of its ballot, and takes from it
a value `x` other than one that it asked for under this ballot. -/
def Overturns (n : Node) (asked : List Effect) (b : Ballot) (x : Value) : Input → Prop
  | .receive (.promise source c accepted value) =>
    n.leading = false ∧ n.proposer.ballot = b ∧ c = b ∧ source ∉ n.proposer.promises ∧
      Ballot.Exceeds accepted n.proposer.highestVote ∧ value = some x ∧
      ∃ v, v ≠ x ∧ .accept b v ∈ asked
  | _ => False

/-- Somewhere in a run, a promise overturned what was asked for under a ballot. -/
def Overturned (n : Node) (inputs : List (Nat × Input)) (b : Ballot) (x : Value) : Prop :=
  ∃ before i after, inputs = before ++ i :: after ∧
    (n.run before).1.Overturns (n.run before).2 b x i.2

theorem Overturned.mono {n : Node} {inputs : List (Nat × Input)} {b : Ballot} {x : Value}
    (overturned : n.Overturned inputs b x) (i : Nat × Input) :
    n.Overturned (inputs ++ [i]) b x := by
  obtain ⟨before, j, after, rfl, overturns⟩ := overturned
  exact ⟨before, j, after ++ [i], by simp, overturns⟩

/-! ## What is asked for stays proposed -/

/-- Requests were made in the proposer's own name and not above its ballot, and those of
the current ballot are for what it proposes, except as `excused` tells. -/
structure Steady (asked : List Effect) (excused : Ballot → Value → Prop) (p : Proposer) : Prop where
  own : ∀ b v, .accept b v ∈ asked → b.owner = p.ballot.owner ∧ b.number ≤ p.ballot.number
  proposed : ∀ b v, .accept b v ∈ asked → b = p.ballot →
    ∃ w, p.proposal = some w ∧ (v = w ∨ excused b w)
  single : ∀ b v w, .accept b v ∈ asked → .accept b w ∈ asked → v = w ∨ excused b v ∨ excused b w

variable {asked : List Effect} {excused : Ballot → Value → Prop} {p q : Proposer}

theorem Steady.mono {wider : Ballot → Value → Prop} (steady : Steady asked excused p)
    (sub : ∀ b x, excused b x → wider b x) : Steady asked wider p where
  own := steady.own
  proposed b v mem same := by
    obtain ⟨w, proposal, cause⟩ := steady.proposed b v mem same
    exact ⟨w, proposal, cause.imp_right (sub b w)⟩
  single b v w hv hw := (steady.single b v w hv hw).imp_right (Or.imp (sub b v) (sub b w))

/-- A move keeps requests steady, if `excused` covers the promise it may count. -/
theorem Steady.move (steady : Steady asked excused p) {o : Proposer.Input}
    (move : Proposer.Move p o q)
    (covered : ∀ v x, .accept p.ballot v ∈ asked → v ≠ x → q.ballot = p.ballot →
      p.Overturns x o → excused p.ballot x) : Steady asked excused q where
  own b v mem := by
    obtain ⟨owner, number⟩ := steady.own b v mem
    exact ⟨owner.trans move.owner.symm, UInt64.le_trans number move.number_le⟩
  proposed b v mem same := by
    obtain ⟨owner, number⟩ := steady.own b v mem
    -- the ballot that was asked for is the highest there was, so the move has kept it
    have stays : p.ballot = b := by
      have up := move.number_le
      rw [← same] at up
      exact Ballot.ext' (UInt64.le_antisymm up number) owner.symm
    subst stays
    obtain ⟨w, proposal, cause⟩ := steady.proposed _ v mem rfl
    rcases move.proposal proposal with keeps | ⟨x, other, overturns, changed⟩
    · exact ⟨w, keeps, cause⟩
    · refine ⟨x, changed, ?_⟩
      by_cases equal : v = x
      · exact .inl equal
      · exact .inr (covered v x mem equal same.symm overturns)
  single := steady.single

/-- Requests made for the current ballot and proposal are steady. -/
theorem Steady.ask (steady : Steady asked excused p) {new : List Effect}
    (asks : ∀ b v, .accept b v ∈ new → p.Asks b v) : Steady (asked ++ new) excused p where
  own b v mem := by
    rcases List.mem_append.1 mem with old | new
    · exact steady.own b v old
    · rw [(asks b v new).ballot]
      exact ⟨rfl, UInt64.le_refl _⟩
  proposed b v mem same := by
    rcases List.mem_append.1 mem with old | new
    · exact steady.proposed b v old same
    · exact ⟨v, (asks b v new).proposal, .inl rfl⟩
  single b v w hv hw := by
    have newer : ∀ {v w}, .accept b v ∈ asked → .accept b w ∈ new → v = w ∨ excused b w := by
      intro v w old new
      have asked := asks b w new
      obtain ⟨x, proposal, cause⟩ := steady.proposed b v old asked.ballot.symm
      rw [asked.proposal] at proposal
      cases proposal
      exact cause
    rcases List.mem_append.1 hv with oldv | newv <;> rcases List.mem_append.1 hw with oldw | neww
    · exact steady.single b v w oldv oldw
    · exact (newer oldv neww).imp_right .inr
    · exact (newer oldw newv).imp Eq.symm .inl
    · have same := (asks b v newv).proposal.symm.trans (asks b w neww).proposal
      cases same
      exact .inl rfl

/-! ## Steps and runs -/

/-- A proposer is overturned when its node is, by a promise of a ballot it has asked for. -/
theorem overturns_of_proposer {n : Node} {input : Input} {o : Proposer.Input} {v x : Value}
    {now : Nat} (ordered : o ∈ n.orders now input) (mem : .accept n.proposer.ballot v ∈ asked)
    (other : v ≠ x) (stays : (n.proposer.step o).1.ballot = n.proposer.ballot)
    (overturns : n.proposer.Overturns x o) :
    n.Overturns asked n.proposer.ballot x input := by
  cases o with
  | promise source c accepted value =>
    rw [orders_promise ordered]
    obtain ⟨counts, higher, names⟩ := overturns
    have result : (n.proposer.receivePromise source c accepted value).1 =
        (n.proposer.observe c).counted source accepted value := by
      rw [Proposer.receivePromise_eq, if_pos counts]
    have stays : (n.proposer.receivePromise source c accepted value).1.ballot =
        n.proposer.ballot := stays
    rw [result] at stays
    have idle := Proposer.observe_eq_of_ballot (p := n.proposer) (b := c) stays
    rw [idle] at counts higher
    exact ⟨counts.1, rfl, counts.2.1, counts.2.2, Ballot.exceeds_iff.2 higher, names, v, other,
      mem⟩
  | _ => exact overturns.elim

/-- **A step keeps requests steady**, if `excused` covers what it may overturn. -/
theorem Steady.step {n : Node} (steady : Steady asked excused n.proposer) (now : Nat)
    (input : Input) (covered : ∀ b x, n.Overturns asked b x input → excused b x) :
    Steady (asked ++ (n.step now input).2) excused (n.step now input).1.proposer := by
  refine Steady.ask ?_ fun b v mem => n.step_accept mem
  rcases n.orders_cases now input with ⟨o, one⟩ | quiet
  · rw [(n.step_roles now input).proposer, one]
    have ordered : o ∈ n.orders now input := one ▸ List.mem_singleton_self o
    have elected : o ≠ .setLeader true := fun same => n.orders_elected now input (same ▸ ordered)
    refine steady.move (n.proposer.step_move elected) fun v x mem other stays overturns => ?_
    exact covered _ x (overturns_of_proposer ordered mem other stays overturns)
  · refine step_keeps (fun p q o mem move steady => ?_) steady
    refine steady.move move fun v x _ _ _ overturns => ?_
    have subdued := quiet o mem
    cases o <;> first | exact overturns.elim | exact subdued.elim

theorem steady_run (n : Node) (inputs : List (Nat × Input)) :
    Steady (n.run inputs).2 (n.Overturned inputs) (n.run inputs).1.proposer := by
  induction inputs using List.reverseRecOn with
  | nil => exact ⟨by simp [run], by simp [run], by simp [run]⟩
  | append_singleton inputs i ih =>
    have wider : Steady (n.run inputs).2 (n.Overturned (inputs ++ [i])) (n.run inputs).1.proposer :=
      ih.mono fun b x late => late.mono i
    rw [run_concat]
    exact wider.step i.1 i.2 fun b x overturns => ⟨inputs, i, [], rfl, overturns⟩

/-- What is overturned was asked for with another value. -/
theorem Overturned.other {n : Node} {inputs : List (Nat × Input)} {b : Ballot} {x : Value}
    (overturned : n.Overturned inputs b x) : ∃ v, v ≠ x ∧ .accept b v ∈ (n.run inputs).2 := by
  obtain ⟨before, ⟨now, input⟩, after, rfl, overturns⟩ := overturned
  have asked : ∃ v, v ≠ x ∧ .accept b v ∈ (n.run before).2 := by
    unfold Overturns at overturns
    split at overturns
    · exact overturns.2.2.2.2.2.2
    · exact overturns.elim
  obtain ⟨v, other, mem⟩ := asked
  rw [run_append]
  exact ⟨v, other, List.mem_append_left _ mem⟩

/-- **A node asks for two values under one ballot exactly when a promise overturned the
first one.** -/
theorem two_values_iff_overturned (setup : Setup) (start : Nat) (inputs : List (Nat × Input))
    (b : Ballot) :
    (∃ v w, v ≠ w ∧ .accept b v ∈ ((Node.start setup start).run inputs).2 ∧
      .accept b w ∈ ((Node.start setup start).run inputs).2) ↔
    ∃ x, (Node.start setup start).Overturned inputs b x ∧
      .accept b x ∈ ((Node.start setup start).run inputs).2 := by
  constructor
  · rintro ⟨v, w, other, hv, hw⟩
    rcases (steady_run _ inputs).single b v w hv hw with same | late | late
    · exact absurd same other
    · exact ⟨v, late, hv⟩
    · exact ⟨w, late, hw⟩
  · rintro ⟨x, late, hx⟩
    obtain ⟨v, other, hv⟩ := late.other
    exact ⟨v, x, other, hv, hx⟩

/-- Node `a` wins its second round and asks for `x`.  A rival of the same round number
takes the lead, and then a third promise of the ballot arrives. -/
def lateReport : List (Nat × Input) :=
  [ (0, .propose "x"), (0, .prepare true), (0, .prepare true),
    (0, .receive (.promise "a" ⟨2, "a"⟩ none none)),
    (0, .receive (.promise "b" ⟨2, "a"⟩ none none)),
    (0, .receive (.heartbeat "c" ⟨2, "c"⟩)),
    (0, .receive (.promise "c" ⟨2, "a"⟩ (some ⟨1, "c"⟩) (some "y"))) ]

/-- The late promise makes it lead again, and ask for `y` under the same ballot. -/
theorem lateReport_two_values :
    .accept ⟨2, "a"⟩ "x" ∈ ((Node.start { id := "a", quorum := 2 } 0).run lateReport).2 ∧
    .accept ⟨2, "a"⟩ "y" ∈ ((Node.start { id := "a", quorum := 2 } 0).run lateReport).2 ∧
    ((Node.start { id := "a", quorum := 2 } 0).run lateReport).1.proposer.ballot.number <
      Ballot.lastRound := by
  decide +kernel

end Node

end Synod
