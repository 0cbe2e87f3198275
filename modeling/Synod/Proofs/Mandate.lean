/-
Synod.Proofs.Mandate -- what a proposer has behind it when it takes the lead

A proposer takes the lead by the promise that completes its quorum.  Ideally it began the round
of its ballot itself, or asked for promises of it, and a quorum of distinct nodes promised exactly
this ballot: it has `Earned` the lead.

But its ballot also moves when it hears of others, and then it `Drifts`: it forgets no promise, and
it asks for none.  So what it counted may be promises of the ballots it stood at before (`Strayed`),
and nobody may have been asked to promise the ballot that it leads (`Unissued`).  Both last until
the proposer prepares again, and nothing else can be missing (`takes_lead_earned`).
-/
import Synod.Proofs.Warrant

namespace Synod

set_option autoImplicit false

namespace Proposer

/-! ## Ballots that move -/

section Step

variable {p : Proposer} {i : Input}

theorem step_owner (p : Proposer) (i : Input) : (p.step i).1.ballot.owner = p.ballot.owner := by
  by_cases elected : i = .setLeader true
  · rw [elected]
    rfl
  · exact (step_move p elected).owner

theorem step_number_le (p : Proposer) (i : Input) :
    p.ballot.number ≤ (p.step i).1.ballot.number := by
  by_cases elected : i = .setLeader true
  · rw [elected]
    exact UInt64.le_refl _
  · exact (step_move p elected).number_le

/-- Whether an input moves the ballot and begins no round. -/
def Drifts (p : Proposer) (i : Input) : Prop :=
  i ≠ .prepare true ∧ (p.step i).1.ballot ≠ p.ballot

instance (p : Proposer) (i : Input) : Decidable (p.Drifts i) :=
  inferInstanceAs (Decidable (_ ∧ _))

/-- Whether an input begins a round, or asks for promises once more. -/
def Issues (p : Proposer) (i : Input) : Prop :=
  i = .prepare true ∨ i = .prepare false ∧ p.active = true

instance (p : Proposer) (i : Input) : Decidable (p.Issues i) :=
  inferInstanceAs (Decidable (_ ∨ _))

theorem Drifts.number_lt (drifts : p.Drifts i) :
    p.ballot.number < (p.step i).1.ballot.number := by
  apply UInt64.lt_of_le_of_ne (step_number_le p i)
  intro number
  exact drifts.2 (Ballot.ext' number.symm (step_owner p i))

theorem Drifts.not_issues (drifts : p.Drifts i) : ¬ p.Issues i := by
  rintro (rfl | ⟨rfl, -⟩)
  · exact drifts.1 rfl
  · exact drifts.2 rfl

/-- Without a fresh round and without drifting, the ballot stays. -/
theorem step_ballot_eq (goes_on : i ≠ .prepare true) (steady : ¬ p.Drifts i) :
    (p.step i).1.ballot = p.ballot := by
  by_contra moved
  exact steady ⟨goes_on, moved⟩

/-! ## Promises -/

theorem counts?_eq_some {g : Promise} (counted : p.counts? i = some g) :
    i = .promise g.voter g.ballot g.accepted g.value ∧
      (p.observe g.ballot).Counts g.voter g.ballot := by
  unfold counts? at counted
  split at counted
  · split at counted
    · next counts =>
      cases counted
      exact ⟨rfl, counts⟩
    · cases counted
  · cases counted

/-- A promise that is counted is one of the ballot the proposer then stands at. -/
theorem counts?_ballot {g : Promise} (counted : p.counts? i = some g) :
    (p.step i).1.ballot = g.ballot := by
  obtain ⟨rfl, counts⟩ := counts?_eq_some counted
  show (p.receivePromise _ _ _ _).1.ballot = _
  rw [receivePromise_eq, if_pos counts]
  exact counts.2.1.symm

/-- Who has promised changes with a fresh round, and by promises that are counted. -/
theorem step_promises (p : Proposer) (i : Input) :
    (p.step i).1.promises =
      if i = .prepare true then [] else p.promises ++ (p.counts? i).toList.map (·.voter) := by
  cases i with
  | prepare fresh => cases fresh <;> simp [step, prepare, counts?]
  | propose v =>
    show (p.propose v).1.promises = _
    unfold Proposer.propose
    split <;> simp [counts?]
  | promise source b accepted value =>
    show (p.receivePromise source b accepted value).1.promises = _
    rw [receivePromise_eq]
    by_cases counts : (p.observe b).Counts source b
    · simp [counts?, counts, counted, (observe_identity p b).2.2]
    · simp [counts?, counts, (observe_identity p b).2.2]
  | observe b => simp [step, counts?, (observe_identity p b).2.2]
  | prepareNack _ _ b => simp [step, counts?, (observe_identity p b).2.2]
  | acceptNack _ _ b => simp [step, counts?, (observe_identity p b).2.2]
  | resend | setLeader _ | setActive _ => simp [step, counts?, setLeader, setActive]

/-- Only a promise that is counted, and completes the quorum, makes a follower lead. -/
theorem step_leads (follows : p.leader = false) (elected : i ≠ .setLeader true)
    (leads : (p.step i).1.leader = true) :
    (∃ g, p.counts? i = some g) ∧ p.quorum ≤ (p.step i).1.promises.length := by
  have move := p.step_move elected
  generalize after : (p.step i).1 = q at move leads
  cases move with
  | @count source b accepted value counts =>
    refine ⟨⟨⟨source, b, accepted, value⟩, if_pos counts⟩, ?_⟩
    have enough : (p.observe b).quorum ≤ (p.observe b).promises.length + 1 :=
      of_decide_eq_true leads
    rw [(observe_identity p b).2.1] at enough
    simpa [counted] using enough
  | begin | depose => cases leads
  | _ =>
    have leads : p.leader = true := leads
    rw [follows] at leads
    cases leads

end Step

/-! ## Promises held -/

/-- The promises that are counted when a run ends: those since its last fresh round. -/
def gathered (p : Proposer) (held : List Promise) : List Input → List Promise
  | [] => held
  | i :: rest =>
    gathered (p.step i).1 (if i = .prepare true then [] else held ++ (p.counts? i).toList) rest

theorem gathered_concat (p : Proposer) (held : List Promise) (inputs : List Input) (i : Input) :
    p.gathered held (inputs ++ [i]) =
      if i = .prepare true then []
      else p.gathered held inputs ++ ((p.run inputs).1.counts? i).toList := by
  induction inputs generalizing p held with
  | nil => rfl
  | cons first rest ih =>
    show (p.step first).1.gathered _ (rest ++ [i]) = _
    rw [ih]
    rfl

/-- What a proposer holds are promises that came in, from distinct nodes, of ballots it has
stood at. -/
structure Holds (inputs : List Input) (held : List Promise) (p : Proposer) : Prop where
  voters : p.promises = held.map (·.voter)
  distinct : p.promises.Nodup
  received : ∀ g ∈ held, .promise g.voter g.ballot g.accepted g.value ∈ inputs
  reached : ∀ g ∈ held, g.ballot.number ≤ p.ballot.number

theorem Holds.step {inputs : List Input} {held : List Promise} {p : Proposer}
    (holds : Holds inputs held p) (i : Input) :
    Holds (inputs ++ [i]) (if i = .prepare true then [] else held ++ (p.counts? i).toList)
      (p.step i).1 := by
  have promises := step_promises p i
  by_cases fresh : i = .prepare true
  · rw [if_pos fresh] at promises ⊢
    exact ⟨promises, promises ▸ List.nodup_nil, by simp, by simp⟩
  · rw [if_neg fresh] at promises ⊢
    have voters : (p.step i).1.promises = (held ++ (p.counts? i).toList).map (·.voter) := by
      rw [promises, holds.voters, List.map_append]
    refine ⟨voters, ?_, ?_, ?_⟩
    · rw [promises]
      cases counted : p.counts? i with
      | none => simpa using holds.distinct
      | some g =>
        have new := (counts?_eq_some counted).2.2.2
        rw [(observe_identity p g.ballot).2.2] at new
        refine List.nodup_append.2 ⟨holds.distinct, by simp, ?_⟩
        rintro voter old _ last rfl
        exact new (by simpa [List.mem_singleton.1 last] using old)
    · intro g mem
      rcases List.mem_append.1 mem with old | new
      · exact List.mem_append_left _ (holds.received g old)
      · rw [← (counts?_eq_some (Option.mem_toList.1 new)).1]
        simp
    · intro g mem
      rcases List.mem_append.1 mem with old | new
      · exact UInt64.le_trans (holds.reached g old) (step_number_le p i)
      · rw [counts?_ballot (Option.mem_toList.1 new)]
        exact UInt64.le_refl _

theorem run_holds (id : NodeId) (quorum : Nat) (inputs : List Input) :
    Holds inputs ((start id quorum).gathered [] inputs) ((start id quorum).run inputs).1 := by
  induction inputs using List.reverseRecOn with
  | nil => exact ⟨rfl, List.nodup_nil, by simp [gathered], by simp [gathered]⟩
  | append_singleton inputs i ih =>
    rw [gathered_concat, run_concat]
    exact ih.step i

theorem run_quorum (p : Proposer) (inputs : List Input) : (p.run inputs).1.quorum = p.quorum := by
  induction inputs using List.reverseRecOn with
  | nil => rfl
  | append_singleton inputs i ih =>
    rw [run_concat, ← ih]
    by_cases elected : i = .setLeader true
    · rw [elected]
      rfl
    · exact (step_move _ elected).quorum

/-! ## Promises of other ballots -/

/-- The ballot has moved while promises were held, and no round has begun since. -/
inductive Strayed (p : Proposer) : List Input → Prop
  | drift {past : List Input} {i : Input} (drifts : (p.run past).1.Drifts i)
      (holding : (p.run past).1.promises ≠ []) : Strayed p (past ++ [i])
  | remain {past : List Input} {i : Input} (strayed : Strayed p past)
      (goes_on : i ≠ .prepare true) : Strayed p (past ++ [i])

theorem strayed_concat {p : Proposer} {past : List Input} {i : Input} :
    p.Strayed (past ++ [i]) ↔
      (p.run past).1.Drifts i ∧ (p.run past).1.promises ≠ [] ∨
        p.Strayed past ∧ i ≠ .prepare true := by
  constructor
  · intro strayed
    generalize same : past ++ [i] = all at strayed
    cases strayed with
    | drift drifts holding =>
      obtain ⟨rfl, one⟩ := List.append_inj' same rfl
      cases one
      exact .inl ⟨drifts, holding⟩
    | remain strayed goes_on =>
      obtain ⟨rfl, one⟩ := List.append_inj' same rfl
      cases one
      exact .inr ⟨strayed, goes_on⟩
  · rintro (⟨drifts, holding⟩ | ⟨strayed, goes_on⟩)
    · exact .drift drifts holding
    · exact .remain strayed goes_on

theorem not_strayed_nil (p : Proposer) : ¬ p.Strayed [] := by
  intro strayed
  generalize same : ([] : List Input) = all at strayed
  cases strayed <;> simp at same

/-- **A proposer has strayed if it holds a promise of another ballot.** -/
theorem strayed_iff (id : NodeId) (quorum : Nat) (inputs : List Input) :
    (start id quorum).Strayed inputs ↔ ∃ g ∈ (start id quorum).gathered [] inputs,
      g.ballot ≠ ((start id quorum).run inputs).1.ballot := by
  induction inputs using List.reverseRecOn with
  | nil => exact iff_of_false (not_strayed_nil _) (by simp [gathered])
  | append_singleton past i ih =>
    have holds := run_holds id quorum past
    rw [strayed_concat, gathered_concat, run_concat]
    generalize ((start id quorum).run past).1 = p at ih holds ⊢
    generalize (start id quorum).gathered [] past = held at ih holds ⊢
    by_cases fresh : i = .prepare true
    · -- a fresh round has nothing to hold on to
      rw [if_pos fresh]
      simp [Drifts, fresh]
    · -- the promise that came last is one of the ballot it came to
      have latest : (∃ g ∈ held ++ (p.counts? i).toList, g.ballot ≠ (p.step i).1.ballot) ↔
          ∃ g ∈ held, g.ballot ≠ (p.step i).1.ballot := by
        constructor
        · rintro ⟨g, mem, other⟩
          rcases List.mem_append.1 mem with old | new
          · exact ⟨g, old, other⟩
          · exact absurd (counts?_ballot (Option.mem_toList.1 new)).symm other
        · rintro ⟨g, old, other⟩
          exact ⟨g, List.mem_append_left _ old, other⟩
      rw [if_neg fresh, latest, ih]
      by_cases drifts : p.Drifts i
      · -- whatever was held before is of a lower ballot now
        have lower : ∀ g ∈ held, g.ballot ≠ (p.step i).1.ballot := by
          intro g mem same
          have below := holds.reached g mem
          rw [same] at below
          exact UInt64.not_le.2 drifts.number_lt below
        constructor
        · rintro (⟨-, holding⟩ | ⟨⟨g, mem, -⟩, -⟩)
          · rw [holds.voters] at holding
            obtain ⟨g, mem⟩ := List.exists_mem_of_ne_nil held (by simpa using holding)
            exact ⟨g, mem, lower g mem⟩
          · exact ⟨g, mem, lower g mem⟩
        · rintro ⟨g, mem, -⟩
          refine .inl ⟨drifts, fun none => ?_⟩
          rw [holds.voters, List.map_eq_nil_iff] at none
          simp [none] at mem
      · rw [step_ballot_eq fresh drifts]
        simp [drifts, fresh]

/-! ## Ballots nobody asked for -/

/-- The ballot has never been issued since the proposer came to it. -/
inductive Unissued (p : Proposer) : List Input → Prop
  | initial : Unissued p []
  | drift {past : List Input} {i : Input} (drifts : (p.run past).1.Drifts i) :
      Unissued p (past ++ [i])
  | remain {past : List Input} {i : Input} (unissued : Unissued p past)
      (waits : ¬ (p.run past).1.Issues i) : Unissued p (past ++ [i])

theorem unissued_concat {p : Proposer} {past : List Input} {i : Input} :
    p.Unissued (past ++ [i]) ↔
      (p.run past).1.Drifts i ∨ p.Unissued past ∧ ¬ (p.run past).1.Issues i := by
  constructor
  · intro unissued
    generalize same : past ++ [i] = all at unissued
    cases unissued with
    | initial => simp at same
    | drift drifts =>
      obtain ⟨rfl, one⟩ := List.append_inj' same rfl
      cases one
      exact .inl drifts
    | remain unissued waits =>
      obtain ⟨rfl, one⟩ := List.append_inj' same rfl
      cases one
      exact .inr ⟨unissued, waits⟩
  · rintro (drifts | ⟨unissued, waits⟩)
    · exact .drift drifts
    · exact .remain unissued waits

/-- The proposer began the round of `b`, or asked for promises of it, somewhere in the run. -/
def Issued (p : Proposer) (inputs : List Input) (b : Ballot) : Prop :=
  ∃ past i rest, inputs = past ++ i :: rest ∧ (p.run past).1.Issues i ∧
    (p.run (past ++ [i])).1.ballot = b

theorem issued_concat {p : Proposer} {past : List Input} {i : Input} {b : Ballot} :
    p.Issued (past ++ [i]) b ↔ p.Issued past b ∨
      (p.run past).1.Issues i ∧ ((p.run past).1.step i).1.ballot = b := by
  constructor
  · rintro ⟨earlier, j, rest, split, issues, ballot⟩
    rcases List.eq_nil_or_concat rest with rfl | ⟨later, k, rfl⟩
    · obtain ⟨rfl, one⟩ := List.append_inj' split rfl
      cases one
      rw [run_concat] at ballot
      exact .inr ⟨issues, ballot⟩
    · rw [List.concat_eq_append, ← List.cons_append, ← List.append_assoc] at split
      obtain ⟨rfl, -⟩ := List.append_inj' split rfl
      exact .inl ⟨earlier, j, later, rfl, issues, ballot⟩
  · rintro (⟨earlier, j, rest, rfl, issues, ballot⟩ | ⟨issues, ballot⟩)
    · exact ⟨earlier, j, rest ++ [i], by simp, issues, ballot⟩
    · refine ⟨past, i, [], rfl, issues, ?_⟩
      rw [run_concat]
      exact ballot

theorem Issued.number_le {p : Proposer} {inputs : List Input} {b : Ballot}
    (issued : p.Issued inputs b) : b.number ≤ (p.run inputs).1.ballot.number := by
  induction inputs using List.reverseRecOn with
  | nil =>
    obtain ⟨past, i, rest, split, -⟩ := issued
    simp at split
  | append_singleton past i ih =>
    rw [run_concat]
    rcases issued_concat.1 issued with old | ⟨-, rfl⟩
    · exact UInt64.le_trans (ih old) (step_number_le _ i)
    · exact UInt64.le_refl _

/-- **A ballot was issued unless it came by drifting**, and the proposer has waited since. -/
theorem issued_iff (p : Proposer) (inputs : List Input) :
    p.Issued inputs (p.run inputs).1.ballot ↔ ¬ p.Unissued inputs := by
  induction inputs using List.reverseRecOn with
  | nil =>
    refine iff_of_false ?_ (not_not.2 .initial)
    rintro ⟨past, i, rest, split, -⟩
    simp at split
  | append_singleton past i ih =>
    rw [unissued_concat, issued_concat, run_concat]
    by_cases issues : (p.run past).1.Issues i
    · have steady : ¬ (p.run past).1.Drifts i := fun drifts => drifts.not_issues issues
      simp [issues, steady]
    · by_cases drifts : (p.run past).1.Drifts i
      · have new : ¬ p.Issued past ((p.run past).1.step i).1.ballot := fun issued =>
          UInt64.not_le.2 drifts.number_lt issued.number_le
        simp [issues, drifts, new]
      · have goes_on : i ≠ .prepare true := fun fresh => issues (.inl fresh)
        rw [step_ballot_eq goes_on drifts]
        simp [issues, drifts, ih]

/-! ## Taking the lead -/

/-- The proposer issued this ballot, and a quorum of distinct nodes promised it. -/
def Earned (p : Proposer) (inputs : List Input) (quorum : Nat) (b : Ballot) : Prop :=
  p.Issued inputs b ∧ ∃ senders : List NodeId, senders.Nodup ∧ quorum ≤ senders.length ∧
    ∀ s ∈ senders, ∃ accepted value, .promise s b accepted value ∈ inputs

/-- **What is behind a proposer that takes the lead.**  It takes it by a promise of its ballot,
which completes a quorum of promises from distinct nodes.  All of them are promises of this ballot
unless it has strayed, and it issued the ballot unless it came by drifting; so it has earned the
lead if neither happened. -/
theorem takes_lead_earned {id : NodeId} {quorum : Nat} {past : List Input} {i : Input}
    (follows : ((start id quorum).run past).1.leader = false) (elected : i ≠ .setLeader true)
    (leads : (((start id quorum).run past).1.step i).1.leader = true) :
    let p := start id quorum
    let b := (((start id quorum).run past).1.step i).1.ballot
    let held := p.gathered [] (past ++ [i])
    (∃ source accepted value, i = .promise source b accepted value) ∧
    ((held.map (·.voter)).Nodup ∧ quorum ≤ held.length ∧
      ∀ g ∈ held, .promise g.voter g.ballot g.accepted g.value ∈ past ++ [i]) ∧
    ((∀ g ∈ held, g.ballot = b) ↔ ¬ p.Strayed (past ++ [i])) ∧
    (p.Issued (past ++ [i]) b ↔ ¬ p.Unissued (past ++ [i])) ∧
    (¬ p.Strayed (past ++ [i]) → ¬ p.Unissued (past ++ [i]) → p.Earned (past ++ [i]) quorum b) := by
  intro p b held
  have last : (p.run (past ++ [i])).1 = ((p.run past).1.step i).1 := by rw [run_concat]
  have holds := run_holds id quorum (past ++ [i])
  have strayed := strayed_iff id quorum (past ++ [i])
  have issued := p.issued_iff (past ++ [i])
  obtain ⟨⟨g, counted⟩, enough⟩ := step_leads follows elected leads
  have full : quorum ≤ held.length := by
    have voters := holds.voters
    rw [run_quorum, ← last, voters, List.length_map] at enough
    exact enough
  have own : (∀ g ∈ held, g.ballot = b) ↔ ¬ p.Strayed (past ++ [i]) := by
    rw [strayed, last]
    simp [held, b, p]
  rw [last] at issued
  refine ⟨?_, ⟨holds.voters ▸ holds.distinct, full, holds.received⟩, own, issued, ?_⟩
  · refine ⟨g.voter, g.accepted, g.value, ?_⟩
    rw [show b = g.ballot from counts?_ballot counted]
    exact (counts?_eq_some counted).1
  · intro steady prepared
    refine ⟨issued.2 prepared, held.map (·.voter), holds.voters ▸ holds.distinct, ?_, ?_⟩
    · rw [List.length_map]
      exact full
    · intro s mem
      obtain ⟨h, counted, rfl⟩ := List.mem_map.1 mem
      refine ⟨h.accepted, h.value, ?_⟩
      rw [← own.2 steady h counted]
      exact holds.received h counted

/-- A round in which nothing else is heard of; the second promise completes its quorum. -/
theorem takes_lead_undisturbed :
    let past : List Input := [.prepare true, .promise "a" ⟨1, "p"⟩ none none]
    let last : Input := .promise "b" ⟨1, "p"⟩ none none
    ((start "p" 2).run past).1.leader = false ∧
      (((start "p" 2).run past).1.step last).1.leader = true ∧
      (start "p" 2).Earned (past ++ [last]) 2 ⟨1, "p"⟩ := by
  intro past last
  have follows : ((start "p" 2).run past).1.leader = false := by decide
  have leads : (((start "p" 2).run past).1.step last).1.leader = true := by decide
  obtain ⟨-, -, own, issued, earned⟩ := takes_lead_earned follows (by simp [last]) leads
  have steady := own.1 (by decide)
  have prepared := issued.1 ⟨[], .prepare true, past.tail ++ [last], rfl, .inl rfl, rfl⟩
  exact ⟨follows, leads, earned steady prepared⟩

/-- A ballot is promised once; then its proposer hears of a higher one, and asks for promises of
the ballot that this has brought it to. -/
def raisedRound : List Input :=
  [ .prepare true, .promise "a" ⟨1, "p"⟩ none none, .observe ⟨2, "q"⟩, .prepare false ]

/-- One promise of the new ballot is enough to lead, since the one of the old ballot counts. -/
theorem raisedRound_unearned :
    let last : Input := .promise "b" ⟨2, "p"⟩ none none
    ((start "p" 2).run raisedRound).1.leader = false ∧
      (((start "p" 2).run raisedRound).1.step last).1.leader = true ∧
      (((start "p" 2).run raisedRound).1.step last).1.ballot = ⟨2, "p"⟩ ∧
      ¬ (start "p" 2).Earned (raisedRound ++ [last]) 2 ⟨2, "p"⟩ := by
  refine ⟨by decide, by decide, by decide, ?_⟩
  rintro ⟨-, senders, distinct, enough, promised⟩
  have only : senders ⊆ ["b"] := by
    intro s mem
    obtain ⟨accepted, value, heard⟩ := promised s mem
    have named : s = "b" ∧ accepted = none ∧ value = none := by simpa [raisedRound] using heard
    exact List.mem_singleton.2 named.1
  have few : senders.length ≤ 1 := (distinct.subperm only).length_le
  omega

end Proposer

end Synod
