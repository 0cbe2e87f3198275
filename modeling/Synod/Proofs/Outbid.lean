/-
Synod.Proofs.Outbid -- what the next round outbids

A rejection reports the promise that stands in the way, and the next round should be above it.  So
a node follows what is reported; its ballot never goes back, and a round begins above it.

But a leader's ballot stays, and a leader follows nothing.  What is reported to a node that leads,
and that goes on to lead, is forgotten (`disregarded_step`).  When it gives up in the end, it
follows the promise that was reported last, which need not be the highest
(`higherReportFirst_underbid`).  Whatever a node has not disregarded, it outbids
(`next_round_outbids`).
-/
import Synod.Proofs.Redelivery

namespace Synod

set_option autoImplicit false

namespace Node

variable {n : Node} {now : Nat} {input : Input}

/-! ## Rounds -/

/-- Whether an input begins a round. -/
def Begins (n : Node) (now : Nat) : Input → Prop
  | .prepare fresh => fresh = true
  | .pollLiveness => n.leaderAlive now = false ∧ n.prepareExpired now = true
  | .acquire => n.leaderAlive now = false
  | _ => False

instance (n : Node) (now : Nat) : (input : Input) → Decidable (n.Begins now input)
  | .prepare fresh => inferInstanceAs (Decidable (fresh = true))
  | .pollLiveness => inferInstanceAs (Decidable (_ ∧ _))
  | .acquire => inferInstanceAs (Decidable (_ = false))
  | .propose _ | .resend | .pulse | .receive _ | .recover _ | .persisted | .setActive _ =>
    inferInstanceAs (Decidable False)

/-- A round is begun by a fresh preparation, which is all that the proposer is ordered then. -/
theorem begins_orders (begins : n.Begins now input) : n.orders now input = [.prepare true] := by
  unfold Begins at begins
  split at begins
  · rw [begins]
    rfl
  · exact if_neg (by simp [begins])
  · exact if_neg (by simp [begins])
  · exact begins.elim

/-- A round that begins is the next one. -/
theorem begins_ballot (begins : n.Begins now input) :
    (n.step now input).1.proposer.ballot = n.proposer.ballot.next := by
  rw [(n.step_roles now input).proposer, begins_orders begins]
  rfl

theorem step_number_le (n : Node) (now : Nat) (input : Input) :
    n.proposer.ballot.number ≤ (n.step now input).1.proposer.ballot.number :=
  step_keeps (P := fun p => n.proposer.ballot.number ≤ p.ballot.number)
    (fun _ _ _ _ move le => UInt64.le_trans le move.number_le) (UInt64.le_refl _)

theorem run_number_le (n : Node) (inputs : List (Nat × Input)) :
    n.proposer.ballot.number ≤ (n.run inputs).1.proposer.ballot.number := by
  induction inputs using List.reverseRecOn with
  | nil => exact UInt64.le_refl _
  | append_singleton inputs i ih =>
    rw [run_concat]
    exact UInt64.le_trans ih (step_number_le _ i.1 i.2)

/-! ## Rejections that are heard -/

/-- The promise that a rejection reports. -/
def Input.reported? : Input → Option Ballot
  | .receive (.prepareNack _ _ promised) | .receive (.acceptNack _ _ promised) => some promised
  | _ => none

/-- Whether an input finds the node leading and leaves it so. -/
def Disregards (n : Node) (now : Nat) (input : Input) : Prop :=
  n.leading = true ∧ (n.step now input).1.leading = true

instance (n : Node) (now : Nat) (input : Input) : Decidable (n.Disregards now input) :=
  inferInstanceAs (Decidable (_ ∧ _))

theorem reported_cases {promised : Ballot} (reported : input.reported? = some promised) :
    ∃ source b, input = .receive (.prepareNack source b promised) ∨
      input = .receive (.acceptNack source b promised) := by
  unfold Input.reported? at reported
  split at reported
  · exact ⟨_, _, .inl (by rw [Option.some.inj reported])⟩
  · exact ⟨_, _, .inr (by rw [Option.some.inj reported])⟩
  · cases reported

/-- **A node reaches the promise that is reported to it**, as far as rounds are left, unless it
disregards it. -/
theorem step_reaches {promised : Ballot} (reported : input.reported? = some promised)
    (heard : ¬ n.Disregards now input) :
    min promised.number (Ballot.lastRound - 1) ≤ (n.step now input).1.proposer.ballot.number := by
  have follows (kept : (n.step now input).1.leading = n.leading) : n.proposer.leader = false :=
    Bool.eq_false_iff.2 fun leads => heard ⟨leads, kept.trans leads⟩
  obtain ⟨source, b, rfl | rfl⟩ := reported_cases reported
  · exact Proposer.observe_reaches (follows (n.proposer.observe_leader promised)) promised
  · have rejected : (n.step now (.receive (.acceptNack source b promised))).1 =
        (n.receiveAcceptNack source b promised).1 := rfl
    rw [rejected] at follows ⊢
    rw [receiveAcceptNack_eq] at follows ⊢
    by_cases resigns : n.Resigns source b promised
    · rw [if_pos resigns]
      exact Proposer.observe_reaches rfl promised
    · rw [if_neg resigns] at follows ⊢
      exact Proposer.observe_reaches (follows (n.proposer.observe_leader promised)) promised

/-- Of a rejection that is disregarded nothing is left but who sent it. -/
theorem disregarded_step {promised : Ballot} (reported : input.reported? = some promised)
    (disregards : n.Disregards now input) :
    ∃ names, n.step now input = ({ n with rejections := names }, []) := by
  obtain ⟨leads, still⟩ := disregards
  have kept : n.proposer.observe promised = n.proposer := Proposer.observe_reached (.inl leads)
  obtain ⟨source, b, rfl | rfl⟩ := reported_cases reported
  · refine ⟨n.rejections, ?_⟩
    show (({ n with proposer := n.proposer.observe promised } : Node), []) = _
    rw [kept]
  · have stays := (receiveAcceptNack_leading.1 still).2
    exact ⟨n.noted source b, receiveAcceptNack_followed kept fun _ =>
      Nat.not_le.1 fun enough => stays ⟨leads, enough⟩⟩

/-! ## What a round outbids -/

/-- A round that begins is above every round reached before, unless the rounds are spent. -/
theorem begins_above (begins : n.Begins now input)
    (left : n.proposer.ballot.number < Ballot.lastRound) {b : Ballot}
    (reached : b.number ≤ n.proposer.ballot.number) :
    b < (n.step now input).1.proposer.ballot := by
  have next := n.proposer.ballot.next_number
  rw [if_neg (UInt64.ne_of_lt left), ← begins_ballot begins] at next
  refine Ballot.lt_def.2 (.inl ?_)
  rw [UInt64.le_iff_toNat_le] at reached
  rw [UInt64.lt_iff_toNat_lt, next]
  omega

/-- **A round outbids every promise that was reported before it**, as long as rounds are left.  The
only exception is a report that the node has disregarded, and that names a round which the node has
not reached since; of such a report nothing is left but who sent it. -/
theorem next_round_outbids {n : Node} {i j : Nat × Input} {between : List (Nat × Input)}
    {promised : Ballot} (reported : i.2.reported? = some promised)
    (bounded : promised.number < Ballot.lastRound)
    (begins : (n.run (i :: between)).1.Begins j.1 j.2)
    (left : (n.run (i :: between)).1.proposer.ballot.number < Ballot.lastRound) :
    (promised < (n.run (i :: between ++ [j])).1.proposer.ballot ∨ n.Disregards i.1 i.2 ∧
      (n.run (i :: between)).1.proposer.ballot.number < promised.number) ∧
    (n.Disregards i.1 i.2 → ∃ names, n.step i.1 i.2 = ({ n with rejections := names }, [])) := by
  refine ⟨?_, disregarded_step reported⟩
  rw [run_concat]
  by_cases reached : promised.number ≤ (n.run (i :: between)).1.proposer.ballot.number
  · exact .inl (begins_above begins left reached)
  · refine .inr ⟨?_, UInt64.not_le.1 reached⟩
    by_contra heard
    have reaches := UInt64.le_trans (Ballot.le_cap (UInt64.le_refl _) bounded)
      (step_reaches reported heard)
    rw [← List.singleton_append, run_append] at reached
    exact reached (UInt64.le_trans reaches (run_number_le _ between))

/-- A leader is deposed, and then hears of a promise that stood in the way of its last request.
When the new leader is silent, it begins a round that is above both. -/
theorem next_round_outbids_deposed :
    let n := ((Node.start { id := "a", quorum := 2 } 0).run
      [ (0, .prepare true), (0, .receive (.promise "a" ⟨1, "a"⟩ none none)),
        (0, .receive (.promise "b" ⟨1, "a"⟩ none none)),
        (100, .receive (.heartbeat "c" ⟨2, "c"⟩)) ]).1
    let i : Nat × Input := (200, .receive (.acceptNack "b" ⟨1, "a"⟩ ⟨5, "d"⟩))
    let between : List (Nat × Input) := [(300, .receive (.heartbeat "c" ⟨2, "c"⟩))]
    let j : Nat × Input := (5000, .pollLiveness)
    i.2.reported? = some ⟨5, "d"⟩ ∧ (n.run (i :: between)).1.Begins j.1 j.2 ∧
    (n.run (i :: between ++ [j])).1.proposer.ballot = ⟨6, "a"⟩ ∧
    ⟨5, "d"⟩ < (n.run (i :: between ++ [j])).1.proposer.ballot := by
  intro n i between j
  have begins : (n.run (i :: between)).1.Begins j.1 j.2 := by decide
  obtain ⟨outbids, -⟩ := next_round_outbids (n := n) (i := i) (j := j) rfl (by decide) begins
    (by decide)
  exact ⟨rfl, begins, by decide, outbids.resolve_right fun disregarded =>
    absurd disregarded.1 (by decide)⟩

/-- A leader is rejected by two nodes, which end its lead.  The first of them has reported the
higher promise. -/
def higherReportFirst : List (Nat × Input) :=
  [ (0, .prepare true), (0, .receive (.promise "a" ⟨1, "a"⟩ none none)),
    (0, .receive (.promise "b" ⟨1, "a"⟩ none none)),
    (0, .receive (.acceptNack "b" ⟨1, "a"⟩ ⟨9, "c"⟩)),
    (0, .receive (.acceptNack "c" ⟨1, "a"⟩ ⟨2, "c"⟩)) ]

/-- The next round is only above the promise that was reported last. -/
theorem higherReportFirst_underbid :
    let n := ((Node.start { id := "a", quorum := 2 } 0).run higherReportFirst).1
    n.leading = false ∧ (n.step 0 (.prepare true)).2 = [.prepare ⟨3, "a"⟩] ∧
      (⟨3, "a"⟩ : Ballot) < ⟨9, "c"⟩ := by
  decide +kernel

end Node

end Synod
