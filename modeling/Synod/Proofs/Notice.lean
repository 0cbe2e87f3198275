/-
Synod.Proofs.Notice -- what a node tells of who leads

A node gives notice when it takes another node for leader than before, of both of them.
`step_notices` says once which notices an input makes: one if the known leader changes, and none
otherwise.

A node that is rejected by a quorum tells that it was the leader itself, without looking whom it
knew.  That is wrong when it led unaware (`Misreports`), and everything else that it ever tells is
right.  So the notices of a run make a chain, each one going on where the last one ended, exactly
as long as the node does not give up unaware (`notices_linked_iff`).
-/
import Synod.Proofs.Leadership

namespace Synod

set_option autoImplicit false

/-! ## Notices -/

/-- Who was known to lead, and who is now. -/
structure Notice where
  old : Option NodeId
  new : Option NodeId
deriving DecidableEq, Repr

def Effect.notice? : Effect → Option Notice
  | .leaderChanged old new => some { old, new }
  | _ => none

def notices (effects : List Effect) : List Notice := effects.filterMap Effect.notice?

@[simp] theorem notices_append (first rest : List Effect) :
    notices (first ++ rest) = notices first ++ notices rest := List.filterMap_append

theorem notices_eq_nil {effects : List Effect} (silent : ∀ e ∈ effects, e.notice? = none) :
    notices effects = [] := List.filterMap_eq_nil_iff.2 silent

namespace Notice

/-- The true notice of a change, if there is a change. -/
def ofChange (old new : Option NodeId) : List Notice := if new = old then [] else [{ old, new }]

@[simp] theorem ofChange_self (known : Option NodeId) : ofChange known known = [] := if_pos rfl

/-- The first notice starts from the leader known before it, and each other one from where the
last one ended. -/
def Linked (known : Option NodeId) : List Notice → Prop
  | [] => True
  | x :: rest => x.old = known ∧ Linked x.new rest

instance decidableLinked (known : Option NodeId) :
    (told : List Notice) → Decidable (Linked known told)
  | [] => inferInstanceAs (Decidable True)
  | x :: rest =>
    have := decidableLinked x.new rest
    inferInstanceAs (Decidable (x.old = known ∧ Linked x.new rest))

/-- True notices do not break a chain. -/
theorem linked_ofChange_append {old new : Option NodeId} {rest : List Notice} :
    Linked old (ofChange old new ++ rest) ↔ Linked new rest := by
  unfold ofChange
  split
  · next same => rw [same, List.nil_append]
  · exact and_iff_right rfl

end Notice

/-! ## Roles tell nothing -/

theorem Proposer.step_notices (p : Proposer) (order : Proposer.Input) :
    notices (p.step order).2 = [] := by
  refine notices_eq_nil fun e mem => ?_
  have speaks := p.step_speaks order e mem
  cases e <;> first | rfl | exact speaks.elim

theorem Acceptor.step_notices (a : Acceptor) (now : Nat) (order : Acceptor.Input) :
    notices (a.step now order).2 = [] := by
  refine notices_eq_nil fun e mem => ?_
  have reply := a.step_replies now order e mem
  cases e <;> first | rfl | exact reply.elim

theorem Learner.step_notices (l : Learner) (order : Learner.Input) :
    notices (l.step order).2 = [] := by
  refine notices_eq_nil fun e mem => ?_
  obtain ⟨b, v, rfl⟩ := l.step_resolved order e mem
  rfl

namespace Node

open Notice

variable {n : Node} {now : Nat} {input : Input}

/-! ## Elections tell of changes -/

theorem follow_notices (n : Node) (source : NodeId) (b : Ballot) :
    notices (n.follow source b).2 = ofChange n.leader (some source) := by
  have changed : notices (if n.leader = some source then []
      else [.leaderChanged n.leader (some source)]) = ofChange n.leader (some source) := by
    by_cases same : n.leader = some source
    · simp [same, notices]
    · simp [same, Ne.symm same, notices, Effect.notice?, ofChange]
  unfold follow
  simp only
  split
  · exact changed
  · exact changed

theorem receiveHeartbeat_notices (n : Node) (now : Nat) (source : NodeId) (b : Ballot) :
    notices (n.receiveHeartbeat now source b).2 =
      ofChange n.leader (n.receiveHeartbeat now source b).1.leader := by
  have leader := congrArg Seat.leader (n.receiveHeartbeat_seat now source b)
  by_cases outranked : n.Outranked b
  · have followed : (n.receiveHeartbeat now source b).2 = (n.follow source b).2 := by
      simp only [receiveHeartbeat, if_pos outranked.1, if_pos outranked.2]
    rw [if_pos outranked] at leader
    have leader : (n.receiveHeartbeat now source b).1.leader = some source := leader
    rw [followed, leader]
    exact n.follow_notices source b
  · have silent : (n.receiveHeartbeat now source b).2 = [] := by
      unfold receiveHeartbeat
      split
      · next valid =>
        have low : ¬ Ballot.Exceeds (some b) n.leaderBallot := fun high => outranked ⟨valid, high⟩
        simp only [if_neg low]
      · rfl
    rw [if_neg outranked] at leader
    have leader : (n.receiveHeartbeat now source b).1.leader = n.leader := leader
    rw [silent, leader, ofChange_self]
    rfl

theorem pulse_notices (n : Node) (now : Nat) :
    notices (n.pulse now).2 = ofChange n.leader (n.pulse now).1.leader := by
  unfold pulse
  split
  · rw [notices_append, receiveHeartbeat_notices]
    exact List.append_nil _
  · exact (ofChange_self _).symm

/-- A node that knew of no leader has taken the seat before it pulses, and tells of it after. -/
theorem lead_notices (n : Node) (now : Nat) :
    notices (n.lead now).2 = ofChange n.leader (n.lead now).1.leader := by
  unfold lead
  simp only
  split
  · exact pulse_notices { n with acquiring := false } now
  · next unknown =>
    let seated : Node := { n with
      acquiring := false, leader := some n.id, leaderBallot := some n.proposer.ballot }
    have leader : (seated.pulse now).1.leader = some n.id := by
      have seat := congrArg Seat.leader (seated.pulse_seat now)
      split at seat <;> exact seat
    have pulsed := seated.pulse_notices now
    show notices ((seated.pulse now).2 ++ _) = ofChange n.leader (seated.pulse now).1.leader
    rw [notices_append, pulsed, leader, unknown]
    exact congrArg (· ++ _) (ofChange_self (some n.id))

theorem receivePromise_notices (n : Node) (now : Nat) (source : NodeId) (b : Ballot)
    (vote : Option Ballot) (value : Option Value) :
    notices (n.receivePromise now source b vote value).2 =
      ofChange n.leader (n.receivePromise now source b vote value).1.leader := by
  have counted : notices (n.proposer.receivePromise source b vote value).2 = [] :=
    n.proposer.step_notices (.promise source b vote value)
  unfold receivePromise
  simp only
  split
  · rw [notices_append, lead_notices]
    show notices (n.proposer.receivePromise source b vote value).2 ++ _ = _
    rw [counted]
    rfl
  · exact counted.trans (ofChange_self _).symm

/-! ## Inputs -/

/-- Whether a node that leads unaware is made to give up. -/
def Misreports (n : Node) : Input → Prop
  | .receive (.acceptNack source b promised) => n.Unaware ∧ n.Resigns source b promised
  | _ => False

instance (n : Node) : (input : Input) → Decidable (n.Misreports input)
  | .receive (.acceptNack source b promised) =>
    inferInstanceAs (Decidable ((_ ∧ _) ∧ n.Resigns source b promised))
  | .receive (.prepare ..) | .receive (.promise ..) | .receive (.prepareNack ..)
  | .receive (.accept ..) | .receive (.accepted ..) | .receive (.heartbeat ..)
  | .receive (.propose ..) | .prepare _ | .propose _ | .resend | .pollLiveness | .acquire | .pulse
  | .recover _ | .persisted | .setActive _ => inferInstanceAs (Decidable False)

/-- A node that gives up tells that it was the leader itself. -/
theorem receiveAcceptNack_notices (n : Node) (now : Nat) (source : NodeId) (b promised : Ballot) :
    let rejection : Input := .receive (.acceptNack source b promised)
    notices (n.step now rejection).2 =
      if n.Misreports rejection then [{ old := some n.id, new := none }]
      else ofChange n.leader (n.step now rejection).1.leader := by
  intro rejection
  show notices (n.receiveAcceptNack source b promised).2 =
    if n.Misreports rejection then [{ old := some n.id, new := none }]
    else ofChange n.leader (n.receiveAcceptNack source b promised).1.leader
  rw [receiveAcceptNack_eq]
  by_cases resigns : n.Resigns source b promised
  · simp only [if_pos resigns]
    by_cases unaware : n.Unaware
    · exact (if_pos (⟨unaware, resigns⟩ : n.Misreports rejection)).symm
    · have own : n.leader = some n.id := by
        by_contra other
        exact unaware ⟨resigns.1, other⟩
      rw [if_neg fun misreports : n.Misreports rejection => unaware misreports.1, own]
      rfl
  · simp only [if_neg resigns]
    rw [if_neg fun misreports : n.Misreports rejection => resigns misreports.2]
    exact (ofChange_self n.leader).symm

/-- **A node tells the truth about every change of the leader it knows**, and of nothing else,
unless it gives up unaware. -/
theorem step_notices (n : Node) (now : Nat) (input : Input) :
    notices (n.step now input).2 =
      if n.Misreports input then [{ old := some n.id, new := none }]
      else ofChange n.leader (n.step now input).1.leader := by
  have kept {r : Node × List Effect} (silent : notices r.2 = []) (same : r.1.leader = n.leader) :
      notices r.2 = ofChange n.leader r.1.leader := by
    rw [silent, same, ofChange_self]
  have acquired : notices (n.acquire now).2 = ofChange n.leader (n.acquire now).1.leader := by
    unfold acquire
    split
    · exact kept rfl rfl
    · exact kept (n.proposer.step_notices (.prepare true)) rfl
  cases input with
  | prepare fresh => exact kept (n.proposer.step_notices (.prepare fresh)) rfl
  | propose v => exact kept (n.proposer.step_notices (.propose v)) rfl
  | resend => exact kept (n.proposer.step_notices .resend) rfl
  | pulse => exact n.pulse_notices now
  | acquire => exact acquired
  | pollLiveness =>
    show notices (n.pollLiveness now).2 = ofChange n.leader (n.pollLiveness now).1.leader
    unfold pollLiveness
    split
    · exact kept rfl rfl
    · split
      · exact kept (n.proposer.step_notices (.prepare true)) rfl
      · exact acquired
  | persisted => exact kept (n.acceptor.step_notices now .persisted) rfl
  | recover | setActive => exact kept rfl rfl
  | receive m =>
    cases m with
    | prepare source b => exact kept (n.acceptor.step_notices now (.prepare source b)) rfl
    | accept source b v => exact kept (n.acceptor.step_notices now (.accept source b v)) rfl
    | accepted source b v => exact kept (n.learner.step_notices (.accepted source b v)) rfl
    | promise source b vote value => exact n.receivePromise_notices now source b vote value
    | prepareNack => exact kept rfl rfl
    | acceptNack source b promised => exact n.receiveAcceptNack_notices now source b promised
    | heartbeat source b => exact n.receiveHeartbeat_notices now source b
    | propose v => exact kept (n.proposer.step_notices (.propose v)) rfl

theorem Misreports.unaware (misreports : n.Misreports input) : n.Unaware := by
  unfold Misreports at misreports
  split at misreports
  · exact misreports.1
  · exact misreports.elim

/-- A node that gives up knows of no leader. -/
theorem Misreports.vacant (misreports : n.Misreports input) (now : Nat) :
    (n.step now input).1.leader = none := by
  unfold Misreports at misreports
  split at misreports
  · next source b promised =>
    show (n.receiveAcceptNack source b promised).1.leader = none
    rw [receiveAcceptNack_eq, if_pos misreports.2]
    rfl
  · exact misreports.elim

/-! ## Runs -/

/-- Somewhere in a run, the node gives up unaware. -/
def Misreported (n : Node) : List (Nat × Input) → Prop
  | [] => False
  | i :: rest => n.Misreports i.2 ∨ (n.step i.1 i.2).1.Misreported rest

/-- The chain of notices breaks where a node gives up unaware, and nowhere else. -/
theorem linked_iff (n : Node) (inputs : List (Nat × Input)) :
    Linked n.leader (notices (n.run inputs).2) ↔ ¬ n.Misreported inputs := by
  induction inputs generalizing n with
  | nil => exact iff_of_true trivial not_false
  | cons i rest ih =>
    rw [run_cons, notices_append, step_notices, Misreported, not_or, ← ih]
    by_cases misreports : n.Misreports i.2
    · rw [if_pos misreports]
      have other : some n.id ≠ n.leader := misreports.unaware.2.symm
      exact iff_of_false (fun linked => other linked.1) fun both => both.1 misreports
    · rw [if_neg misreports, linked_ofChange_append]
      exact (and_iff_right misreports).symm

/-- A node that leads knows of some leader. -/
theorem run_knows (setup : Setup) (start : Nat) (inputs : List (Nat × Input)) :
    let n := ((Node.start setup start).run inputs).1
    n.leading = true → n.leader ≠ none := by
  induction inputs using List.reverseRecOn with
  | nil =>
    intro n leads unknown
    have own : setup.leader = some setup.id := of_decide_eq_true leads
    exact Option.some_ne_none _ (own.symm.trans unknown)
  | append_singleton inputs i ih =>
    intro n
    have after : n = (((Node.start setup start).run inputs).1.step i.1 i.2).1 := by
      simp only [n, run_concat]
    rw [after]
    generalize ((Node.start setup start).run inputs).1 = m at ih
    show (m.step i.1 i.2).1.seat.leading = true → (m.step i.1 i.2).1.seat.leader ≠ none
    have succession := m.step_succession i.1 i.2
    generalize (m.step i.1 i.2).1.seat = seat at succession
    generalize i.2 = input at succession
    intro leads
    cases succession with
    | stay => exact ih leads
    | standDown | resign => cases leads
    | follow | confirm => exact Option.some_ne_none _
    | win =>
      unfold seatWon
      split
      · exact Option.some_ne_none _
      · next stays => exact (not_or.1 stays).1

/-- **What a node tells of who leads.**  A call gives one notice if the known leader changes, and
none otherwise.  The notice names the leader that is known after the call, and the one known
before it; only where the node gives up unaware, it names itself in place of the latter.  So the
notices of a run link up, from the configured leader on, exactly if the node never did so. -/
theorem notices_linked_iff (setup : Setup) (start : Nat) (inputs : List (Nat × Input)) :
    let n := ((Node.start setup start).run inputs).1
    (∀ now input, let r := n.step now input
      notices r.2 = if r.1.leader = n.leader then []
        else [{ old := if n.Misreports input then some n.id else n.leader, new := r.1.leader }]) ∧
    (Linked setup.leader (notices ((Node.start setup start).run inputs).2) ↔
      ¬ (Node.start setup start).Misreported inputs) := by
  intro n
  refine ⟨fun now input => ?_, linked_iff (Node.start setup start) inputs⟩
  intro r
  have told : notices r.2 = _ := n.step_notices now input
  rw [told]
  by_cases misreports : n.Misreports input
  · have vacant : r.1.leader = none := misreports.vacant now
    have known : n.leader ≠ none := run_knows setup start inputs misreports.unaware.1
    rw [if_pos misreports, if_pos misreports, vacant, if_neg known.symm]
  · rw [if_neg misreports, if_neg misreports]
    rfl

/-- Node `a` wins a round while it takes `b` for leader, and its requests are rejected once. -/
def outrankedRejection : List (Nat × Input) :=
  [ (0, .receive (.heartbeat "b" ⟨9, "b"⟩)), (0, .prepare true),
    (0, .receive (.promise "a" ⟨1, "a"⟩ none none)),
    (0, .receive (.promise "c" ⟨1, "a"⟩ none none)),
    (0, .receive (.acceptNack "b" ⟨1, "a"⟩ ⟨9, "b"⟩)) ]

/-- When they are rejected once more, it gives up, and tells that `a` was the leader it knew. -/
theorem outrankedRejection_misreported :
    let r := (Node.start { id := "a", quorum := 2 } 0).run outrankedRejection
    let s := r.1.step 0 (.receive (.acceptNack "c" ⟨1, "a"⟩ ⟨9, "b"⟩))
    r.1.leader = some "b" ∧ notices r.2 = [{ old := none, new := some "b" }] ∧
      notices s.2 = [{ old := some "a", new := none }] ∧
      ¬ Linked none (notices (r.2 ++ s.2)) := by
  decide +kernel

end Node

end Synod
