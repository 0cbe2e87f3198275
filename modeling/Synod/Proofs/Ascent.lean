/-
Synod.Proofs.Ascent -- ballots only move forward

Of a proposer's ballot only the round changes, and it never goes back.  A fresh round is the next
one; what the proposer hears of can move it up, but not to the last round.  So the last round is
reached from the one before it, and by beginning it (`step_lastRound`).

A proposer that leads without a break keeps its ballot, and its value once it has one
(`step_reign`).  So whatever it asks votes for in one reign is one ballot with one value
(`ballots_ascend`).
-/
import Synod.Proofs.Mandate

namespace Synod

set_option autoImplicit false

namespace Proposer

/-! ## The last round -/

/-- **The last round is begun**, and only from the one before it. -/
theorem step_lastRound {p : Proposer} {i : Input}
    (reached : (p.step i).1.ballot.number = Ballot.lastRound) :
    p.ballot.number = Ballot.lastRound ∨
      i = .prepare true ∧ p.ballot.number = Ballot.lastRound - 1 := by
  by_cases elected : i = .setLeader true
  · rw [elected] at reached
    exact .inl reached
  have move := p.step_move elected
  generalize (p.step i).1 = q at move reached
  have observed (b : Ballot) (there : (p.observe b).ballot.number = Ballot.lastRound) :
      p.ballot.number = Ballot.lastRound := by
    rcases observe_cases p b with same | ⟨number, -, -, capped, raised⟩
    · rwa [same] at there
    · rw [raised] at there
      have number : number = Ballot.lastRound := there
      exact absurd capped (number ▸ UInt64.lt_irrefl _)
  cases move with
  | follow _ _ capped =>
    have number : _ = Ballot.lastRound := reached
    exact absurd capped (number ▸ UInt64.lt_irrefl _)
  | count => exact .inl (observed _ reached)
  | begin =>
    by_cases spent : p.ballot.number = Ballot.lastRound
    · exact .inl spent
    · have next := p.ballot.next_number
      rw [if_neg spent, show p.ballot.next.number = Ballot.lastRound from reached] at next
      have last : Ballot.lastRound.toNat = 18446744073709551615 := rfl
      have before : (Ballot.lastRound - 1).toNat = 18446744073709551614 := rfl
      exact .inr ⟨rfl, UInt64.toNat_inj.1 (by omega)⟩
  | _ => exact .inl reached

theorem run_owner (p : Proposer) (inputs : List Input) :
    (p.run inputs).1.ballot.owner = p.ballot.owner := by
  induction inputs generalizing p with
  | nil => rfl
  | cons i rest ih => exact (ih _).trans (p.step_owner i)

theorem run_number_le (p : Proposer) (inputs : List Input) :
    p.ballot.number ≤ (p.run inputs).1.ballot.number := by
  induction inputs generalizing p with
  | nil => exact UInt64.le_refl _
  | cons i rest ih => exact UInt64.le_trans (p.step_number_le i) (ih _)

theorem run_lastRound {p : Proposer} {inputs : List Input}
    (reached : (p.run inputs).1.ballot.number = Ballot.lastRound) :
    p.ballot.number = Ballot.lastRound ∨ ∃ before after,
      inputs = before ++ .prepare true :: after ∧
        (p.run before).1.ballot.number = Ballot.lastRound - 1 := by
  induction inputs generalizing p with
  | nil => exact .inl reached
  | cons i rest ih =>
    rcases ih reached with there | ⟨before, after, rfl, last⟩
    · rcases step_lastRound there with spent | ⟨rfl, last⟩
      · exact .inl spent
      · exact .inr ⟨[], rest, rfl, last⟩
    · exact .inr ⟨i :: before, after, rfl, last⟩

/-! ## Reigns -/

/-- The proposer leads after each of these inputs. -/
def Reigns (p : Proposer) : List Input → Prop
  | [] => True
  | i :: rest => (p.step i).1.leader = true ∧ Reigns (p.step i).1 rest

instance decidableReigns (p : Proposer) : (inputs : List Input) → Decidable (p.Reigns inputs)
  | [] => inferInstanceAs (Decidable True)
  | i :: rest =>
    have := decidableReigns (p.step i).1 rest
    inferInstanceAs (Decidable (_ ∧ _))

/-- **A leader that goes on to lead** keeps its ballot, and its value if it has one. -/
theorem step_reign {p : Proposer} {i : Input} (leads : p.leader = true)
    (still : (p.step i).1.leader = true) :
    (p.step i).1.ballot = p.ballot ∧
      ∀ v, p.proposal = some v → (p.step i).1.proposal = some v := by
  by_cases elected : i = .setLeader true
  · rw [elected]
    exact ⟨rfl, fun _ own => own⟩
  have move := p.step_move elected
  generalize (p.step i).1 = q at move still
  cases move with
  | stay | setActive => exact ⟨rfl, fun _ own => own⟩
  | follow idle => exact absurd (leads.symm.trans idle) (by simp)
  | begin | depose => cases still
  | propose free =>
    refine ⟨rfl, fun v proposal => ?_⟩
    rw [free] at proposal
    cases proposal
  | @count _ b _ _ counts =>
    have idle := counts.1
    rw [observe_leader] at idle
    exact absurd (leads.symm.trans idle) (by simp)

/-- What a leader asks votes for in the rest of its reign is what it ends with. -/
theorem Reigns.steady {p : Proposer} {inputs : List Input} (reigns : p.Reigns inputs)
    (leads : p.leader = true) :
    (p.run inputs).1.ballot = p.ballot ∧
      (∀ v, p.proposal = some v → (p.run inputs).1.proposal = some v) ∧
      ∀ b v, .accept b v ∈ (p.run inputs).2 →
        (p.run inputs).1.ballot = b ∧ (p.run inputs).1.proposal = some v := by
  induction inputs generalizing p with
  | nil => exact ⟨rfl, fun _ own => own, by simp [run]⟩
  | cons i rest ih =>
    obtain ⟨still, reigns⟩ := reigns
    obtain ⟨ballot, proposal⟩ := step_reign leads still
    obtain ⟨ballot', proposal', asked⟩ := ih reigns still
    refine ⟨ballot'.trans ballot, fun v own => proposal' v (proposal v own), fun b v mem => ?_⟩
    rcases List.mem_append.1 mem with now | later
    · have asks := step_accept now
      exact ⟨ballot'.trans asks.ballot, proposal' v asks.proposal⟩
    · exact asked b v later

/-- The input that begins a reign belongs to it. -/
theorem Reigns.asks {p : Proposer} {inputs : List Input} (reigns : p.Reigns inputs) :
    ∀ b v, .accept b v ∈ (p.run inputs).2 →
      (p.run inputs).1.ballot = b ∧ (p.run inputs).1.proposal = some v := by
  cases inputs with
  | nil => simp [run]
  | cons i rest =>
    obtain ⟨leads, reigns⟩ := reigns
    obtain ⟨ballot, proposal, asked⟩ := reigns.steady leads
    intro b v mem
    rcases List.mem_append.1 mem with now | later
    · have asks := step_accept now
      exact ⟨ballot.trans asks.ballot, proposal v asks.proposal⟩
    · exact asked b v later

theorem Reigns.ballot_eq {p : Proposer} {i : Input} {before after : List Input}
    (reigns : p.Reigns (i :: before ++ after)) :
    (p.run (i :: before)).1.ballot = (p.run (i :: before ++ after)).1.ballot := by
  induction before generalizing p i with
  | nil =>
    obtain ⟨leads, reigns⟩ := reigns
    exact (reigns.steady leads).1.symm
  | cons j rest ih => exact ih reigns.2

/-- **Ballots only move forward.**  Take a proposer at one moment of a run from its start, and the
inputs that follow.

* The owner of its ballot is the proposer itself, and its round never goes back.
* A fresh round is the next one, unless the rounds are spent.
* The last round is reached by beginning it from the one before, and not otherwise.
* If it leads after each of these inputs, then its ballot is the same after each of them, and all
  the votes it asks for are for this ballot and one value. -/
theorem ballots_ascend (id : NodeId) (quorum : Nat) (past inputs : List Input) :
    let p := ((start id quorum).run past).1
    let q := (p.run inputs).1
    (q.ballot.owner = id ∧ p.ballot.number ≤ q.ballot.number) ∧
    (p.step (.prepare true)).1.ballot.number.toNat =
      (if p.ballot.number = Ballot.lastRound then p.ballot.number.toNat
        else p.ballot.number.toNat + 1) ∧
    (q.ballot.number = Ballot.lastRound → p.ballot.number = Ballot.lastRound ∨
      ∃ before after, inputs = before ++ .prepare true :: after ∧
        (p.run before).1.ballot.number = Ballot.lastRound - 1) ∧
    (p.Reigns inputs →
      (∀ i before after, inputs = i :: before ++ after →
        (p.run (i :: before)).1.ballot = q.ballot) ∧
      ∀ b v c w, .accept b v ∈ (p.run inputs).2 → .accept c w ∈ (p.run inputs).2 →
        b = q.ballot ∧ c = q.ballot ∧ v = w) := by
  intro p q
  have owner : p.ballot.owner = id := (start id quorum).run_owner past
  refine ⟨⟨(p.run_owner inputs).trans owner, p.run_number_le inputs⟩, p.ballot.next_number,
    run_lastRound, fun reigns => ⟨?_, ?_⟩⟩
  · rintro i before after rfl
    exact reigns.ballot_eq
  · intro b v c w first second
    obtain ⟨ballot, proposal⟩ := reigns.asks b v first
    obtain ⟨ballot', proposal'⟩ := reigns.asks c w second
    exact ⟨ballot.symm, ballot'.symm, Option.some.inj (proposal.symm.trans proposal')⟩

/-- A proposer wins the round before the last, hears of the last one and of a vote for another
value, and is asked to repeat its request; it still asks for the same. -/
theorem ballots_ascend_beforeLast :
    let past : List Input :=
      [.propose "mine", .observe ⟨Ballot.lastRound - 2, "q"⟩, .prepare true]
    let inputs : List Input := [.promise "a" ⟨Ballot.lastRound - 1, "p"⟩ none none,
      .observe ⟨Ballot.lastRound, "q"⟩,
      .promise "b" ⟨Ballot.lastRound - 1, "p"⟩ (some ⟨7, "q"⟩) (some "other"), .resend]
    let p := ((start "p" 1).run past).1
    p.Reigns inputs ∧ (p.run inputs).2 = [.leadershipAcquired,
      .accept ⟨Ballot.lastRound - 1, "p"⟩ "mine", .accept ⟨Ballot.lastRound - 1, "p"⟩ "mine"] ∧
    ∀ b v c w, .accept b v ∈ (p.run inputs).2 → .accept c w ∈ (p.run inputs).2 →
      b = (p.run inputs).1.ballot ∧ c = (p.run inputs).1.ballot ∧ v = w := by
  intro past inputs p
  have reigns : p.Reigns inputs := by decide
  obtain ⟨-, -, -, steady⟩ := ballots_ascend "p" 1 past inputs
  exact ⟨reigns, by decide, (steady reigns).2⟩

end Proposer

end Synod
