/-
Synod.Proofs.Warrant -- what entitles a proposer to ask for votes

One proposer runs from its start through any `Legal` inputs: it starts afresh each time it
prepares, nobody makes it leader by order, and the promises it hears of its own ballots
answer a prepare that it has sent.

Every request for votes then has a warrant (`request_warranted`).  Since the round of its
ballot began, promises of exactly this ballot came from a quorum of distinct nodes; and the
value is the one that came with the highest vote among all promises ever counted, or the
first one proposed if none of them reported a vote.

The promises counted are forgotten only when a round begins, while the ballot also moves
when others are observed.  `Footing` ties the two together: if the current ballot was
announced, the promises counted are promises of it, all from its own round; a ballot that has
moved on by itself was never announced, so no promise is counted for it.
-/
import Mathlib.Data.List.Induction
import Synod.Proofs.History
import Synod.Proofs.Roles

namespace Synod

set_option autoImplicit false

namespace Proposer

/-! ## Runs -/

theorem run_concat (p : Proposer) (inputs : List Input) (i : Input) :
    p.run (inputs ++ [i]) = (((p.run inputs).1.step i).1,
      (p.run inputs).2 ++ ((p.run inputs).1.step i).2) := by
  induction inputs generalizing p with
  | nil => simp [run]
  | cons first rest ih => simp [run, ih]

/-- Whether an input may come after these effects: rounds only ever begin afresh, nobody makes
the proposer leader, a promise of one of its ballots answers a prepare, and a promise reports
a ballot and a value, or neither. -/
def Fair (p : Proposer) (sent : List Effect) : Input → Prop
  | .prepare fresh => fresh = true
  | .setLeader leading => leading = false
  | .promise _ b accepted value =>
    (b.owner = p.id → .prepare b ∈ sent) ∧ accepted.isSome = value.isSome
  | _ => True

instance (p : Proposer) (sent : List Effect) : (i : Input) → Decidable (p.Fair sent i)
  | .prepare fresh => inferInstanceAs (Decidable (fresh = true))
  | .setLeader leading => inferInstanceAs (Decidable (leading = false))
  | .promise _ b accepted value => inferInstanceAs (Decidable
      ((b.owner = p.id → Effect.prepare b ∈ sent) ∧ accepted.isSome = value.isSome))
  | .propose _ | .observe _ | .prepareNack .. | .acceptNack .. | .resend | .setActive _ =>
    inferInstanceAs (Decidable True)

/-- Only the beginning of a round announces a ballot. -/
theorem Fair.silent {p : Proposer} {sent : List Effect} {i : Input} (fair : p.Fair sent i)
    (goes_on : i ≠ .prepare true) (b : Ballot) : .prepare b ∉ (p.step i).2 := by
  intro announced
  obtain ⟨-, fresh, rfl⟩ := step_prepare announced
  have fresh : fresh = true := fair
  exact goes_on (by rw [fresh])

/-- Each input is fair where it comes. -/
def Legal (p : Proposer) (sent : List Effect) : List Input → Prop
  | [] => True
  | i :: rest => p.Fair sent i ∧ Legal (p.step i).1 (sent ++ (p.step i).2) rest

instance decidableLegal (p : Proposer) (sent : List Effect) :
    (inputs : List Input) → Decidable (p.Legal sent inputs)
  | [] => inferInstanceAs (Decidable True)
  | i :: rest =>
    have := decidableLegal (p.step i).1 (sent ++ (p.step i).2) rest
    inferInstanceAs (Decidable (_ ∧ _))

theorem legal_concat (p : Proposer) (sent : List Effect) (inputs : List Input) (i : Input) :
    p.Legal sent (inputs ++ [i]) ↔
      p.Legal sent inputs ∧ (p.run inputs).1.Fair (sent ++ (p.run inputs).2) i := by
  induction inputs generalizing p sent with
  | nil => simp [Legal, run]
  | cons first rest ih => simp [Legal, run, ih, and_assoc]

/-- The promise that an input makes the proposer count. -/
def counts? (p : Proposer) : Input → Option Promise
  | .promise voter b accepted value =>
    if (p.observe b).Counts voter b then some { voter, ballot := b, accepted, value } else none
  | _ => none

/-- The promises counted in a run, over all its rounds. -/
def reports (p : Proposer) : List Input → List Promise
  | [] => []
  | i :: rest => (p.counts? i).toList ++ reports (p.step i).1 rest

theorem reports_concat (p : Proposer) (inputs : List Input) (i : Input) :
    p.reports (inputs ++ [i]) = p.reports inputs ++ ((p.run inputs).1.counts? i).toList := by
  induction inputs generalizing p with
  | nil => simp [reports, run]
  | cons first rest ih => simp [reports, run, ih]

def proposed? : Input → Option Value
  | .propose v => some v
  | _ => none

/-- The first value proposed. -/
def own (inputs : List Input) : Option Value := inputs.findSome? proposed?

theorem own_concat (inputs : List Input) (i : Input) :
    own (inputs ++ [i]) = (own inputs).or (proposed? i) := by
  simp [own, List.findSome?_append]

/-! ## The value -/

/-- The highest vote of some reports, and the value to propose: the value that came first
with this vote, and one's own if there is no vote. -/
inductive Choice (reports : List Promise) (own : Option Value) :
    Option Ballot → Option Value → Prop
  | own (unvoted : ∀ g ∈ reports, g.accepted = none) : Choice reports own none own
  | reported {before after : List Promise} {g : Promise} {a : Ballot} {v : Value}
      (split : reports = before ++ g :: after)
      (accepted : g.accepted = some a) (value : g.value = some v)
      (first : ∀ h ∈ before, h.accepted < some a)
      (highest : ∀ h ∈ after, h.accepted ≤ some a) : Choice reports own (some a) (some v)

section Choice

variable {reports : List Promise} {mine value : Option Value} {vote : Option Ballot}

theorem Choice.le (choice : Choice reports mine vote value) : ∀ g ∈ reports, g.accepted ≤ vote := by
  intro g mem
  cases choice with
  | own unvoted => exact (unvoted g mem).le
  | reported split accepted _ first highest =>
    rw [split] at mem
    rcases List.mem_append.1 mem with before | here
    · exact (first g before).le
    · rcases List.mem_cons.1 here with rfl | after
      · exact accepted.le
      · exact highest g after

/-- A higher vote is taken over, with its value. -/
theorem Choice.count (choice : Choice reports mine vote value) {g : Promise}
    (paired : g.accepted.isSome = g.value.isSome) :
    Choice (reports ++ [g]) mine (if vote < g.accepted then g.accepted else vote)
      (if vote < g.accepted then g.value.or value else value) := by
  by_cases higher : vote < g.accepted
  · rw [if_pos higher, if_pos higher]
    cases accepted : g.accepted with
    | none =>
      rw [accepted] at higher
      simp at higher
    | some a =>
      obtain ⟨v, named⟩ : ∃ v, g.value = some v := by
        rw [accepted] at paired
        exact Option.isSome_iff_exists.1 paired.symm
      rw [named]
      refine .reported (rfl : _ = reports ++ g :: []) accepted named (fun h mem => ?_) (by simp)
      exact (choice.le h mem).trans_lt (accepted ▸ higher)
  · rw [if_neg higher, if_neg higher]
    have lower : g.accepted ≤ vote := not_lt.1 higher
    cases choice with
    | own unvoted =>
      refine .own fun h mem => ?_
      rcases List.mem_append.1 mem with old | new
      · exact unvoted h old
      · rw [List.mem_singleton.1 new]
        simpa using lower
    | reported split accepted named first highest =>
      refine .reported (by rw [split, List.append_assoc, List.cons_append]) accepted named first
        fun h mem => ?_
      rcases List.mem_append.1 mem with old | new
      · exact highest h old
      · rw [List.mem_singleton.1 new]
        exact lower

/-- A value that is proposed counts while there is none. -/
theorem Choice.propose (choice : Choice reports mine vote value) (v : Value) :
    Choice reports (mine.or (some v)) vote (value.or (some v)) := by
  cases choice with
  | own unvoted => exact .own unvoted
  | reported split accepted named first highest =>
    exact .reported split accepted named first highest

end Choice

/-! ## Footing -/

/-- What a proposer stands on after it sent these effects: in the `round` since it last
prepared, it counted promises of an announced ballot, it leads only such a ballot, and it
proposes the choice. -/
structure Footing (quorum : Nat) (sent : List Effect) (round : List Input)
    (reports : List Promise) (mine : Option Value) (p : Proposer) : Prop where
  size : p.quorum = quorum
  collected : Collected (fun s b a v => .promise s b a v ∈ round ∧ ⟨s, b, a, v⟩ ∈ reports)
    (fun b => .prepare b ∈ sent) p
  leads : p.leader = true → .prepare p.ballot ∈ sent
  choice : Choice reports mine p.highestVote p.proposal

section Footing

variable {quorum : Nat} {sent : List Effect} {round : List Input} {reports : List Promise}
  {mine : Option Value} {p : Proposer}

theorem footing_start (id : NodeId) (quorum : Nat) :
    Footing quorum [] [] [] none (start id quorum) where
  size := rfl
  collected := (collected_bare _ rfl rfl).renew fun b announced => absurd announced (by simp)
  leads := by simp [start]
  choice := .own (by simp)

/-- More inputs in a round, and more effects that announce nothing. -/
theorem Footing.extend (footing : Footing quorum sent round reports mine p)
    (inputs : List Input) {effects : List Effect} (silent : ∀ b, .prepare b ∉ effects) :
    Footing quorum (sent ++ effects) (round ++ inputs) reports mine p where
  size := footing.size
  collected := by
    refine (footing.collected.mono ?_).renew fun b announced => .inl ?_
    · rintro s b a v ⟨heard, counted⟩
      exact ⟨List.mem_append_left _ heard, counted⟩
    · exact (List.mem_append.1 announced).resolve_right (silent b)
  leads leading := List.mem_append_left _ (footing.leads leading)
  choice := footing.choice

theorem Footing.observe (footing : Footing quorum sent round reports mine p) (b : Ballot) :
    Footing quorum sent round reports mine (p.observe b) := by
  have collected := footing.collected.observe b
  rcases observe_cases p b with same | ⟨number, idle, -, -, raised⟩
  · rw [same]
    exact footing
  · rw [raised] at collected ⊢
    refine ⟨footing.size, collected, fun leading => ?_, footing.choice⟩
    exact absurd (idle.symm.trans leading) (by simp)

theorem Footing.count (footing : Footing quorum sent round reports mine p) {g : Promise}
    (counts : p.Counts g.voter g.ballot) (announced : .prepare g.ballot ∈ sent)
    (heard : .promise g.voter g.ballot g.accepted g.value ∈ round)
    (paired : g.accepted.isSome = g.value.isSome) :
    Footing quorum sent round (reports ++ [g]) mine (p.counted g.voter g.accepted g.value) where
  size := footing.size
  collected := by
    refine (footing.collected.mono ?_).count counts ⟨heard, by simp⟩
    rintro s b a v ⟨heard, counted⟩
    exact ⟨heard, List.mem_append_left _ counted⟩
  leads _ := by
    show .prepare p.ballot ∈ sent
    rw [← counts.2.1]
    exact announced
  choice := footing.choice.count paired

/-- A new round has heard nothing. -/
theorem Footing.begin (footing : Footing quorum sent round reports mine p) :
    Footing quorum (sent ++ (p.step (.prepare true)).2) [] reports mine
      (p.step (.prepare true)).1 := by
  have bare : (p.step (.prepare true)).1.promises = [] := rfl
  refine ⟨footing.size, ?_, by simp [step, prepare], footing.choice⟩
  refine ⟨fun b announced => ?_, fun _ => ?_, fun _ r mem => ?_, by simp [Won, step, prepare]⟩
  · rcases List.mem_append.1 announced with old | new
    · obtain ⟨owner, number⟩ := footing.collected.reached b old
      exact ⟨owner.trans (Ballot.next_owner _).symm,
        UInt64.le_trans number (Ballot.number_le_next _)⟩
    · rw [← (step_prepare new).1]
      exact ⟨rfl, UInt64.le_refl _⟩
  · rw [bare]
    exact List.nodup_nil
  · simp [bare] at mem

/-- A promise in the current round, counted or not. -/
theorem Footing.promise (footing : Footing quorum sent round reports mine p) {s : NodeId}
    {b : Ballot} {a : Option Ballot} {v : Option Value} (fair : p.Fair sent (.promise s b a v)) :
    Footing quorum sent (round ++ [.promise s b a v])
      (reports ++ (p.counts? (.promise s b a v)).toList) mine
      (p.step (.promise s b a v)).1 := by
  have heard := footing.extend [.promise s b a v] (fun _ => List.not_mem_nil)
  rw [List.append_nil] at heard
  have observed := heard.observe b
  show Footing quorum sent _ _ mine (p.receivePromise s b a v).1
  rw [receivePromise_eq]
  by_cases counts : (p.observe b).Counts s b
  · have announced : .prepare b ∈ sent := by
      refine fair.1 ?_
      rw [counts.2.1]
      exact (observe_identity p b).1
    simpa [counts?, counts] using
      observed.count (g := ⟨s, b, a, v⟩) counts announced (by simp) fair.2
  · simpa [counts?, counts] using observed

theorem Footing.propose (footing : Footing quorum sent round reports mine p) (v : Value) :
    Footing quorum sent round reports (mine.or (some v)) (p.propose v).1 := by
  have choice := footing.choice.propose v
  unfold Proposer.propose
  split
  · next free =>
    rw [free] at choice
    exact ⟨footing.size, footing.collected.move (.propose free) (by simp), footing.leads,
      choice⟩
  · next taken =>
    obtain ⟨w, proposal⟩ := Option.ne_none_iff_exists'.1 taken
    have same : p.proposal.or (some v) = p.proposal := by rw [proposal, Option.some_or]
    rw [same] at choice
    exact ⟨footing.size, footing.collected, footing.leads, choice⟩

/-- **A proposer keeps its footing** through a fair input that begins no round. -/
theorem Footing.step (footing : Footing quorum sent round reports mine p) {i : Input}
    (fair : p.Fair sent i) (goes_on : i ≠ .prepare true) :
    Footing quorum (sent ++ (p.step i).2) (round ++ [i]) (reports ++ (p.counts? i).toList)
      (mine.or (proposed? i)) (p.step i).1 := by
  have kept := footing.extend [i] (fair.silent goes_on)
  -- most inputs make the proposer count nothing, and name no value
  have unheard (uncounted : p.counts? i = none) (nameless : proposed? i = none)
      (stands : Footing quorum (sent ++ (p.step i).2) (round ++ [i]) reports mine (p.step i).1) :
      Footing quorum (sent ++ (p.step i).2) (round ++ [i]) (reports ++ (p.counts? i).toList)
        (mine.or (proposed? i)) (p.step i).1 := by
    simpa [uncounted, nameless] using stands
  cases i with
  | prepare fresh =>
    have fresh : fresh = true := fair
    exact absurd (by rw [fresh]) goes_on
  | promise s b a v =>
    have counted := (footing.promise fair).extend [] (fair.silent goes_on)
    rw [List.append_nil] at counted
    simpa only [proposed?, Option.or_none] using counted
  | propose v =>
    have proposed := kept.propose v
    rw [← List.append_nil reports] at proposed
    exact proposed
  | observe b | prepareNack _ _ b | acceptNack _ _ b => exact unheard rfl rfl (kept.observe b)
  | resend => exact unheard rfl rfl kept
  | setActive on =>
    have collected := kept.collected.move (.setActive : Move p (.setActive on) _) (by simp)
    exact unheard rfl rfl ⟨kept.size, collected, kept.leads, kept.choice⟩
  | setLeader leading =>
    have follows : leading = false := fair
    subst follows
    have collected := kept.collected.move .depose (by simp)
    exact unheard rfl rfl ⟨kept.size, collected, Bool.noConfusion, kept.choice⟩

/-- A ballot that moved on by itself was not announced. -/
theorem Footing.ballot_eq (footing : Footing quorum sent round reports mine p) {i : Input}
    (fair : p.Fair sent i) (announced : .prepare (p.step i).1.ballot ∈ sent) :
    (p.step i).1.ballot = p.ballot := by
  have elected : i ≠ .setLeader true := by
    rintro rfl
    exact absurd fair (by simp [Fair])
  obtain ⟨owner, number⟩ := footing.collected.reached _ announced
  exact Ballot.ext' (UInt64.le_antisymm number (step_move p elected).number_le) owner

end Footing

/-! ## Rounds -/

/-- The inputs of a run since the round of `b` began; there was no other round since. -/
structure Round (p : Proposer) (inputs : List Input) (b : Ballot) (round : List Input) :
    Prop where
  begun : ∃ earlier, inputs = earlier ++ .prepare true :: round ∧
    (p.run (earlier ++ [.prepare true])).1.ballot = b
  last : .prepare true ∉ round

theorem Round.extend {p : Proposer} {inputs round : List Input} {b : Ballot}
    (current : p.Round inputs b round) {i : Input} (goes_on : i ≠ .prepare true) :
    p.Round (inputs ++ [i]) b (round ++ [i]) := by
  obtain ⟨⟨earlier, split, ballot⟩, last⟩ := current
  refine ⟨⟨earlier, by rw [split, List.append_assoc, List.cons_append], ballot⟩, fun mem => ?_⟩
  rcases List.mem_append.1 mem with old | new
  · exact last old
  · exact goes_on (List.mem_singleton.1 new).symm

/-- **A legal run ends with the proposer on its footing**; and if its ballot was announced,
the current round began with this ballot. -/
theorem Legal.footing {id : NodeId} {quorum : Nat} {inputs : List Input}
    (legal : (start id quorum).Legal [] inputs) :
    ∃ round, Footing quorum ((start id quorum).run inputs).2 round
        ((start id quorum).reports inputs) (own inputs) ((start id quorum).run inputs).1 ∧
      (.prepare ((start id quorum).run inputs).1.ballot ∈ ((start id quorum).run inputs).2 →
        (start id quorum).Round inputs ((start id quorum).run inputs).1.ballot round) := by
  induction inputs using List.reverseRecOn with
  | nil => exact ⟨[], footing_start id quorum, by simp [run]⟩
  | append_singleton past i ih =>
    obtain ⟨legal, fair⟩ := (legal_concat _ _ _ _).1 legal
    obtain ⟨round, footing, current⟩ := ih legal
    rw [reports_concat, own_concat]
    by_cases begins : i = .prepare true
    · -- a new round has heard nothing, and began with the ballot the proposer now stands at
      subst begins
      refine ⟨[], ?_, fun _ => ⟨⟨past, rfl, rfl⟩, by simp⟩⟩
      rw [run_concat]
      simpa [counts?, proposed?] using footing.begin
    · -- the round goes on; if the ballot is an announced one, it is still the same
      have stands := footing.step fair begins
      refine ⟨round ++ [i], ?_, fun announced => ?_⟩
      · rw [run_concat]
        exact stands
      · rw [run_concat] at announced ⊢
        have old := (List.mem_append.1 announced).resolve_right (fair.silent begins _)
        have same := footing.ballot_eq fair old
        rw [same] at old ⊢
        exact (current old).extend begins

/-! ## Requests -/

/-- **Every request for votes is warranted.**  Since the round of its ballot began, a quorum of
distinct nodes promised this ballot; and the value asked for is the choice among all the
promises counted so far, those of this quorum being some of them. -/
theorem request_warranted {id : NodeId} {quorum : Nat} {past : List Input} {i : Input}
    {b : Ballot} {v : Value} (legal : (start id quorum).Legal [] (past ++ [i]))
    (asked : .accept b v ∈ (((start id quorum).run past).1.step i).2) :
    (∃ round, (start id quorum).Round (past ++ [i]) b round ∧
      ∃ senders : List NodeId, senders.Nodup ∧ quorum ≤ senders.length ∧
        ∀ s ∈ senders, ∃ accepted value, .promise s b accepted value ∈ round ∧
          ⟨s, b, accepted, value⟩ ∈ (start id quorum).reports (past ++ [i])) ∧
    ∃ vote, Choice ((start id quorum).reports (past ++ [i])) (own (past ++ [i])) vote (some v) := by
  obtain ⟨round, footing, current⟩ := legal.footing
  obtain ⟨leading, ballot, proposal⟩ := step_accept asked
  have last : ((start id quorum).run (past ++ [i])).1 =
      (((start id quorum).run past).1.step i).1 := by rw [run_concat]
  rw [← last] at leading ballot proposal
  have announced := footing.leads leading
  refine ⟨⟨round, ballot ▸ current announced, _, footing.collected.distinct announced,
    footing.size.ge.trans (footing.collected.won leading), fun s mem => ?_⟩, _,
    proposal ▸ footing.choice⟩
  obtain ⟨accepted, value, heard, -⟩ := footing.collected.promised announced s mem
  rw [ballot] at heard
  exact ⟨accepted, value, heard⟩

/-- A value proposed, a round among three nodes, and two votes reported of earlier rounds. -/
def twoVotes : List Input :=
  [ .propose "mine", .observe ⟨3, "q"⟩, .prepare true, .promise "a" ⟨4, "p"⟩ none none,
    .promise "b" ⟨4, "p"⟩ (some ⟨1, "q"⟩) (some "old") ]

/-- The promise that completes the quorum reports the higher vote, and its value is asked for. -/
theorem request_warranted_twoVotes :
    let last : Input := .promise "c" ⟨4, "p"⟩ (some ⟨3, "q"⟩) (some "newer")
    (start "p" 3).Legal [] (twoVotes ++ [last]) ∧
    (((start "p" 3).run twoVotes).1.step last).2 =
      [.leadershipAcquired, .accept ⟨4, "p"⟩ "newer"] ∧
    (∃ round, (start "p" 3).Round (twoVotes ++ [last]) ⟨4, "p"⟩ round ∧
      ∃ senders : List NodeId, senders.Nodup ∧ 3 ≤ senders.length ∧
        ∀ s ∈ senders, ∃ accepted value, .promise s ⟨4, "p"⟩ accepted value ∈ round ∧
          ⟨s, ⟨4, "p"⟩, accepted, value⟩ ∈ (start "p" 3).reports (twoVotes ++ [last])) ∧
    ∃ vote, Choice ((start "p" 3).reports (twoVotes ++ [last])) (own (twoVotes ++ [last])) vote
      (some "newer") := by
  intro last
  have legal : (start "p" 3).Legal [] (twoVotes ++ [last]) := by decide
  have sent : (((start "p" 3).run twoVotes).1.step last).2 =
      [.leadershipAcquired, .accept ⟨4, "p"⟩ "newer"] := by decide
  exact ⟨legal, sent, request_warranted legal (by simp [sent])⟩

end Proposer

end Synod
