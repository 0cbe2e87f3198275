/-
Synod.Proofs.Rejection -- who ends a lead by rejecting it

A leader that is told by a quorum that its requests for votes were rejected gives up.  The names it
counts are forgotten when a round begins, and noted at any time, whether it leads or not; and the
ballot that they belong to is the one it stands at, which others can move.

Still they are always the right ones.  If nobody promises it what it never asked for, a node leads
only a ballot that it has asked promises for; so its ballot has not moved between the beginning of
the round and its lead (`Stage`).  The names are then those of the nodes that have rejected this
ballot since its round began, each once, and the node gives up with the rejection that makes them a
quorum (`resigns_iff_rejected`).
-/
import Mathlib.Data.Finset.Card
import Mathlib.Data.Finset.Dedup
import Synod.Proofs.Leadership
import Synod.Proofs.Outbid

namespace Synod

set_option autoImplicit false

namespace Node

variable {n : Node} {now : Nat} {input : Input}

/-! ## What is noted -/

theorem receiveHeartbeat_rejections (n : Node) (now : Nat) (source : NodeId) (b : Ballot) :
    (n.receiveHeartbeat now source b).1.rejections = n.rejections := by
  have refreshed (m : Node) : (m.refresh now b).rejections = m.rejections := by
    unfold refresh
    split <;> rfl
  unfold receiveHeartbeat
  split
  · simp only [refreshed]
    split
    · unfold follow
      simp only
      split <;> rfl
    · rfl
  · rfl

theorem pulse_rejections (n : Node) (now : Nat) : (n.pulse now).1.rejections = n.rejections := by
  unfold pulse
  split
  · exact n.receiveHeartbeat_rejections now _ _
  · rfl

theorem receivePromise_rejections (n : Node) (now : Nat) (source : NodeId) (b : Ballot)
    (vote : Option Ballot) (value : Option Value) :
    (n.receivePromise now source b vote value).1.rejections = n.rejections := by
  unfold receivePromise
  simp only
  split
  · unfold lead
    simp only
    split <;> exact pulse_rejections _ now
  · rfl

/-- The names that are noted after an input that begins no round. -/
def noting (n : Node) : Input → List NodeId
  | .receive (.acceptNack source b _) => n.noted source b
  | _ => n.rejections

/-- **Rejections are noted as they come in**, and forgotten when a round begins. -/
theorem step_rejections (n : Node) (now : Nat) (input : Input) :
    (n.step now input).1.rejections = if n.Begins now input then [] else n.noting input := by
  have acquired (m : Node) : (m.acquire now).1.rejections =
      if m.leaderAlive now = false then [] else m.rejections := by
    unfold acquire
    cases alive : m.leaderAlive now <;> rfl
  cases input with
  | prepare fresh => cases fresh <;> rfl
  | acquire => exact acquired n
  | pollLiveness =>
    show (n.pollLiveness now).1.rejections = _
    unfold pollLiveness
    split
    · next waits => exact (if_neg fun quiet : _ ∧ _ => by simp [quiet] at waits).symm
    · next quiet =>
      have silent : n.leaderAlive now = false ∧ n.prepareExpired now = true := by
        simpa using quiet
      rw [if_pos (show n.Begins now .pollLiveness from silent)]
      split
      · rfl
      · rw [acquired, if_pos silent.1]
  | pulse => exact n.pulse_rejections now
  | receive message =>
    cases message with
    | promise source b vote value => exact n.receivePromise_rejections now source b vote value
    | acceptNack source b promised => exact receiveAcceptNack_rejections
    | heartbeat source b => exact n.receiveHeartbeat_rejections now source b
    | _ => rfl
  | _ => rfl

theorem note_nodup {names : List NodeId} (distinct : names.Nodup) (name : NodeId) :
    (note names name).Nodup := by
  unfold note
  split
  · exact distinct
  · next new =>
    refine List.nodup_append.2 ⟨distinct, by simp, ?_⟩
    rintro s old _ last rfl
    exact new (List.mem_singleton.1 last ▸ old)

/-! ## Legal runs -/

/-- Whether an input may come after these effects: a preparation begins a round, and a promise of
a ballot of this node answers a prepare that it has sent. -/
def Fair (n : Node) (sent : List Effect) : Input → Prop
  | .prepare fresh => fresh = true
  | .receive (.promise _ c _ _) => c.owner = n.id → .prepare c ∈ sent
  | _ => True

instance (n : Node) (sent : List Effect) : (input : Input) → Decidable (n.Fair sent input)
  | .prepare fresh => inferInstanceAs (Decidable (fresh = true))
  | .receive (.promise _ c _ _) =>
    inferInstanceAs (Decidable (c.owner = n.id → Effect.prepare c ∈ sent))
  | .receive (.prepare ..) | .receive (.accept ..) | .receive (.accepted ..)
  | .receive (.prepareNack ..) | .receive (.acceptNack ..) | .receive (.heartbeat ..)
  | .receive (.propose ..) | .propose _ | .resend | .pulse | .acquire | .pollLiveness
  | .recover _ | .persisted | .setActive _ => inferInstanceAs (Decidable True)

/-- Each input is fair where it comes. -/
def Legal (n : Node) (sent : List Effect) : List (Nat × Input) → Prop
  | [] => True
  | i :: rest => n.Fair sent i.2 ∧ Legal (n.step i.1 i.2).1 (sent ++ (n.step i.1 i.2).2) rest

instance decidableLegal (n : Node) (sent : List Effect) :
    (inputs : List (Nat × Input)) → Decidable (n.Legal sent inputs)
  | [] => inferInstanceAs (Decidable True)
  | i :: rest =>
    have := decidableLegal (n.step i.1 i.2).1 (sent ++ (n.step i.1 i.2).2) rest
    inferInstanceAs (Decidable (_ ∧ _))

theorem legal_concat (n : Node) (sent : List Effect) (inputs : List (Nat × Input))
    (i : Nat × Input) :
    n.Legal sent (inputs ++ [i]) ↔
      n.Legal sent inputs ∧ (n.run inputs).1.Fair (sent ++ (n.run inputs).2) i.2 := by
  induction inputs generalizing n sent with
  | nil => simp [Legal, run]
  | cons first rest ih =>
    simp [Legal, run_cons, ih, and_assoc]

/-! ## Rounds and leads -/

theorem step_owner (n : Node) (now : Nat) (input : Input) :
    (n.step now input).1.proposer.ballot.owner = n.proposer.ballot.owner :=
  step_keeps (P := fun p => p.ballot.owner = n.proposer.ballot.owner)
    (fun _ _ _ _ move own => move.owner.trans own) rfl

/-- Promises are asked for when a round begins, or by repeating a preparation. -/
theorem orders_prepare {fresh : Bool} (ordered : .prepare fresh ∈ n.orders now input) :
    n.Begins now input ∨ input = .prepare false := by
  unfold orders at ordered
  split at ordered <;> (try split at ordered) <;> simp_all [Begins]

/-- A round that begins ends the lead of the last one. -/
theorem begins_follows (begins : n.Begins now input) : (n.step now input).1.leading = false := by
  show (n.step now input).1.proposer.leader = false
  rw [(n.step_roles now input).proposer, begins_orders begins]
  rfl

/-- **A lead begins with a promise** of the ballot that is led. -/
theorem step_wins (follows : n.leading = false) (leads : (n.step now input).1.leading = true) :
    ∃ source c vote value, input = .receive (.promise source c vote value) ∧
      (n.step now input).1.proposer.ballot = c := by
  have succession := n.step_succession now input
  have leads : (n.step now input).1.seat.leading = true := leads
  generalize (n.step now input).1.seat = seat at succession leads
  cases succession with
  | stay => exact absurd (follows.symm.trans leads) Bool.false_ne_true
  | standDown | resign => cases leads
  | follow => simp [follows] at leads
  | confirm leading => exact absurd (follows.symm.trans leading) Bool.false_ne_true
  | @win source c vote value _ won =>
    refine ⟨source, c, vote, value, rfl, ?_⟩
    show (n.receivePromise now source c vote value).1.proposer.ballot = c
    rw [(n.receivePromise_heeds now source c vote value).proposer]
    show (n.proposer.receivePromise source c vote value).1.ballot = c
    rw [Proposer.receivePromise_eq] at won ⊢
    split at won
    · next counts =>
      rw [if_pos counts]
      exact counts.2.1.symm
    · rw [Proposer.observe_leader] at won
      exact absurd (follows.symm.trans won) Bool.false_ne_true

/-! ## Rejections of one ballot -/

/-- Who rejects a request for votes for this ballot. -/
def Input.rejects? (b : Ballot) : Input → Option NodeId
  | .receive (.acceptNack source c _) => if c = b then some source else none
  | _ => none

theorem rejects_received {b : Ballot} {s : NodeId} (rejected : input.rejects? b = some s) :
    ∃ c promised, input = .receive (.acceptNack s c promised) := by
  unfold Input.rejects? at rejected
  split at rejected
  · split at rejected
    · exact ⟨_, _, by rw [Option.some.inj rejected]⟩
    · cases rejected
  · cases rejected

/-- The nodes that have rejected a request for votes for this ballot. -/
def rejecters (b : Ballot) (inputs : List (Nat × Input)) : Finset NodeId :=
  (inputs.filterMap fun i => i.2.rejects? b).toFinset

theorem mem_rejecters_concat {b : Ballot} {inputs : List (Nat × Input)} {i : Nat × Input}
    {s : NodeId} :
    s ∈ rejecters b (inputs ++ [i]) ↔ s ∈ rejecters b inputs ∨ i.2.rejects? b = some s := by
  cases rejected : i.2.rejects? b <;> simp [rejecters, rejected, eq_comm, or_comm]

/-- A node notes who rejects the ballot that it stands at. -/
theorem mem_noting {s : NodeId} :
    s ∈ n.noting input ↔ s ∈ n.rejections ∨ input.rejects? n.proposer.ballot = some s := by
  unfold noting Input.rejects?
  split
  · next source b promised =>
    unfold noted
    split
    · rw [mem_note, Option.some.injEq, eq_comm (a := s)]
    · simp
  · simp

theorem noting_nodup (distinct : n.rejections.Nodup) (input : Input) : (n.noting input).Nodup := by
  unfold noting
  split
  · unfold noted
    split
    · exact note_nodup distinct _
    · exact distinct
  · exact distinct

/-! ## Stages of a run -/

/-- A node whose last round was that of ballot `b`, or that stands where it started: what it has
asked for, and what came in since then.  `led` tells whether it may lead at all. -/
structure Stage (led : Prop) (b : Ballot) (asked : List Effect) (since : List (Nat × Input))
    (n : Node) : Prop where
  named : b.owner = n.id
  owner : n.proposer.ballot.owner = b.owner
  reached : b.number ≤ n.proposer.ballot.number
  issued : ∀ c, .prepare c ∈ asked → led ∧ c.number ≤ b.number
  leads : n.leading = true → led ∧ n.proposer.ballot = b
  distinct : n.rejections.Nodup
  noted : n.proposer.ballot = b → ∀ s, s ∈ n.rejections ↔ s ∈ rejecters b since

section Stage

variable {led : Prop} {b : Ballot} {asked : List Effect} {since : List (Nat × Input)}

theorem stage_start (setup : Setup) (start : Nat) :
    Stage (setup.leader = some setup.id) ⟨0, setup.id⟩ [] [] (Node.start setup start) where
  named := rfl
  owner := rfl
  reached := UInt64.le_refl _
  issued _ mem := by cases mem
  leads leading := ⟨of_decide_eq_true leading, rfl⟩
  distinct := List.nodup_nil
  noted _ s := by simp [Node.start, rejecters]

/-- A round that begins is a stage of its own. -/
theorem Stage.begin (stage : Stage led b asked since n) (begins : n.Begins now input) :
    Stage True (n.step now input).1.proposer.ballot (asked ++ (n.step now input).2) []
      (n.step now input).1 where
  named := by
    rw [step_owner, (n.step_roles now input).id]
    exact stage.owner.trans stage.named
  owner := rfl
  reached := UInt64.le_refl _
  issued c mem := by
    refine ⟨trivial, ?_⟩
    rcases List.mem_append.1 mem with old | new
    · exact UInt64.le_trans (UInt64.le_trans (stage.issued c old).2 stage.reached)
        (n.step_number_le now input)
    · rw [(step_prepare new).1]
      exact UInt64.le_refl _
  leads leading := absurd ((begins_follows begins).symm.trans leading) Bool.false_ne_true
  distinct := by
    rw [step_rejections, if_pos begins]
    exact List.nodup_nil
  noted _ s := by
    rw [step_rejections, if_pos begins]
    simp [rejecters]

/-- **Until the next round begins**, whoever rejects the ballot of this one is noted, as long as the
node stands at it; and it leads nothing else. -/
theorem Stage.step (stage : Stage led b asked since n) (goes_on : ¬ n.Begins now input)
    (fair : n.Fair asked input) :
    Stage led b (asked ++ (n.step now input).2) (since ++ [(now, input)]) (n.step now input).1 := by
  have raised := n.step_number_le now input
  have owner : (n.step now input).1.proposer.ballot.owner = b.owner :=
    (n.step_owner now input).trans stage.owner
  have rejections : (n.step now input).1.rejections = n.noting input := by
    rw [step_rejections, if_neg goes_on]
  refine ⟨?_, owner, UInt64.le_trans stage.reached raised, ?_, ?_, ?_, ?_⟩
  · rw [(n.step_roles now input).id]
    exact stage.named
  · intro c mem
    rcases List.mem_append.1 mem with old | new
    · exact stage.issued c old
    · obtain ⟨-, again, one⟩ := step_prepare new
      rcases orders_prepare (one ▸ List.mem_singleton_self _) with begins | repeated
      · exact absurd begins goes_on
      · subst repeated
        exact absurd fair Bool.false_ne_true
  · intro leading
    cases before : n.leading with
    | true =>
      obtain ⟨may, ballot⟩ := stage.leads before
      exact ⟨may, (step_ballot before leading).trans ballot⟩
    | false =>
      -- the promise is of a ballot that was asked for, so that the node cannot have moved on
      obtain ⟨source, c, vote, value, rfl, ballot⟩ := step_wins before leading
      have own : c.owner = n.id := (ballot ▸ owner).trans stage.named
      obtain ⟨may, below⟩ := stage.issued c (fair own)
      refine ⟨may, Ballot.ext' (UInt64.le_antisymm ?_ ?_) owner⟩
      · rw [ballot]
        exact below
      · exact UInt64.le_trans stage.reached raised
  · rw [rejections]
    exact noting_nodup stage.distinct input
  · intro ballot s
    have stood : n.proposer.ballot = b := by
      refine Ballot.ext' (UInt64.le_antisymm ?_ stage.reached) stage.owner
      rw [ballot] at raised
      exact raised
    rw [rejections, mem_noting, stage.noted stood, mem_rejecters_concat, stood]

/-- While a node stands at its ballot, it has noted as many names as there are nodes that have
rejected it. -/
theorem Stage.noting_length (stage : Stage led b asked since n) (stands : n.proposer.ballot = b)
    (now : Nat) (input : Input) :
    (n.noting input).length = (rejecters b (since ++ [(now, input)])).card := by
  rw [← List.toFinset_card_of_nodup (noting_nodup stage.distinct input)]
  congr 1
  ext s
  rw [List.mem_toFinset, mem_noting, stage.noted stands, mem_rejecters_concat, stands]

end Stage

/-! ## Runs -/

/-- These inputs end with the one that begins the round of ballot `b`; or there are none, and the
node starts with this ballot, as a leader. -/
inductive Begun (n : Node) (b : Ballot) : List (Nat × Input) → Prop
  | initial (leads : n.leading = true) (ballot : n.proposer.ballot = b) : Begun n b []
  | begin {past : List (Nat × Input)} {i : Nat × Input} (begins : (n.run past).1.Begins i.1 i.2)
      (ballot : (n.run (past ++ [i])).1.proposer.ballot = b) : Begun n b (past ++ [i])

theorem run_quorum (n : Node) (inputs : List (Nat × Input)) :
    (n.run inputs).1.proposer.quorum = n.proposer.quorum := by
  induction inputs using List.reverseRecOn with
  | nil => rfl
  | append_singleton inputs i ih =>
    rw [run_concat]
    exact step_keeps (P := fun p => p.quorum = n.proposer.quorum)
      (fun _ _ _ _ move same => move.quorum.trans same) ih

/-- **Every legal run is at some stage**: a round has begun, or none has yet. -/
theorem run_stage (setup : Setup) (start : Nat) {inputs : List (Nat × Input)}
    (legal : (Node.start setup start).Legal [] inputs) :
    ∃ led b past since, inputs = past ++ since ∧
      (led → (Node.start setup start).Begun b past) ∧
      Stage led b ((Node.start setup start).run inputs).2 since
        ((Node.start setup start).run inputs).1 := by
  induction inputs using List.reverseRecOn with
  | nil =>
    refine ⟨_, _, [], [], rfl, fun led => ?_, stage_start setup start⟩
    exact .initial (decide_eq_true led) rfl
  | append_singleton inputs i ih =>
    obtain ⟨before, fair⟩ := (legal_concat _ _ _ _).1 legal
    obtain ⟨led, b, past, since, split, begun, stage⟩ := ih before
    by_cases begins : ((Node.start setup start).run inputs).1.Begins i.1 i.2
    · refine ⟨True, _, inputs ++ [i], [], by simp, fun _ => .begin begins rfl, ?_⟩
      rw [run_concat]
      exact stage.begin begins
    · refine ⟨led, b, past, since ++ [i], by simp [split], begun, ?_⟩
      rw [run_concat]
      exact stage.step begins fair

/-- **A leader gives up exactly when a quorum has rejected its ballot.**  Somewhere in the run the
round of this ballot began, or the node started with it as a leader.  A rejection ends the lead if
with it the nodes that have rejected exactly this ballot since then, each counted once, are at
least a quorum; and otherwise it does not. -/
theorem resigns_iff_rejected {setup : Setup} {start : Nat} {inputs : List (Nat × Input)}
    (legal : (Node.start setup start).Legal [] inputs)
    (leads : ((Node.start setup start).run inputs).1.leading = true) :
    let n := ((Node.start setup start).run inputs).1
    ∃ past since, inputs = past ++ since ∧
      (Node.start setup start).Begun n.proposer.ballot past ∧
      ∀ now source c promised,
        let rejection : Input := .receive (.acceptNack source c promised)
        (n.step now rejection).1.leading = false ↔
          setup.quorum ≤ (rejecters n.proposer.ballot (since ++ [(now, rejection)])).card := by
  intro n
  obtain ⟨led, b, past, since, split, begun, stage⟩ := run_stage setup start legal
  obtain ⟨may, ballot⟩ := stage.leads leads
  have quorum : n.proposer.quorum = setup.quorum := run_quorum _ inputs
  refine ⟨past, since, split, ballot ▸ begun may, fun now source c promised => ?_⟩
  intro rejection
  rw [ballot, ← stage.noting_length ballot now, ← quorum]
  have resigns_iff : (n.receiveAcceptNack source c promised).1.leading = false ↔
      n.Resigns source c promised := by
    rw [Bool.eq_false_iff, ne_eq, receiveAcceptNack_leading, not_and_not_right]
    exact ⟨fun resigns => resigns leads, fun resigns _ => resigns⟩
  exact resigns_iff.trans (and_iff_right leads)

/-- A leader is rejected twice by one node, and by another one for an older ballot. -/
def rejectedTwiceByOne : List (Nat × Input) :=
  [ (0, .prepare true), (0, .receive (.promise "a" ⟨1, "a"⟩ none none)),
    (0, .receive (.promise "b" ⟨1, "a"⟩ none none)),
    (0, .receive (.acceptNack "b" ⟨1, "a"⟩ ⟨2, "c"⟩)),
    (0, .receive (.acceptNack "c" ⟨0, "a"⟩ ⟨2, "c"⟩)),
    (0, .receive (.acceptNack "b" ⟨1, "a"⟩ ⟨2, "c"⟩)) ]

/-- It still leads, and gives up when a second node rejects its ballot. -/
theorem resigns_iff_rejected_rejectedTwiceByOne :
    let start := Node.start { id := "a", quorum := 2 } 0
    let n := (start.run rejectedTwiceByOne).1
    let rejection : Input := .receive (.acceptNack "c" ⟨1, "a"⟩ ⟨2, "c"⟩)
    start.Legal [] rejectedTwiceByOne ∧ n.leading = true ∧ (n.step 0 rejection).1.leading = false ∧
    ∃ past since, rejectedTwiceByOne = past ++ since ∧ start.Begun ⟨1, "a"⟩ past ∧
      2 ≤ (rejecters ⟨1, "a"⟩ (since ++ [(0, rejection)])).card := by
  intro start n rejection
  have legal : start.Legal [] rejectedTwiceByOne := by decide +kernel
  have leads : n.leading = true := by decide +kernel
  have resigns : (n.step 0 rejection).1.leading = false := by decide +kernel
  have ballot : ((Node.start { id := "a", quorum := 2 } 0).run
      rejectedTwiceByOne).1.proposer.ballot = ⟨1, "a"⟩ := by decide +kernel
  obtain ⟨past, since, split, begun, resigns_iff⟩ := resigns_iff_rejected legal leads
  have rejected := (resigns_iff 0 "c" ⟨1, "a"⟩ ⟨2, "c"⟩).1 resigns
  rw [ballot] at begun rejected
  exact ⟨legal, leads, resigns, past, since, split, begun, rejected⟩

end Node

end Synod
