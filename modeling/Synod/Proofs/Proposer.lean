/-
Synod.Proofs.Proposer -- what an order can do to a proposer

`Move` says once what each input does to a proposer's state, except the one that makes
it leader without an election.  The rounds a proposer stands at never go back, promises
are collected for as long as the ballot stays, and the first value stays until a promise
reports a vote above all those reported before.

Every request for votes is made while leading, for the current ballot and the current
proposal (`step_accept`).
-/
import Synod.Proofs.Ballot
import Synod.Proposer

namespace Synod

set_option autoImplicit false

namespace Proposer

/-! ## What a step does -/

/-- A follower after one more promise; a quorum of them makes it leader. -/
def counted (p : Proposer) (source : NodeId) (accepted : Option Ballot)
    (value : Option Value) : Proposer :=
  { p with
    proposal := if p.highestVote < accepted then value.or p.proposal else p.proposal
    highestVote := if p.highestVote < accepted then accepted else p.highestVote
    promises := p.promises ++ [source]
    leader := decide (p.quorum ≤ p.promises.length + 1) }

/-- Whether a promise is counted. -/
def Counts (p : Proposer) (source : NodeId) (b : Ballot) : Prop :=
  p.leader = false ∧ b = p.ballot ∧ source ∉ p.promises

instance (p : Proposer) (source : NodeId) (b : Ballot) : Decidable (p.Counts source b) :=
  inferInstanceAs (Decidable (_ ∧ _))

/-- Everything an input can do to a proposer, elections apart. -/
inductive Move (p : Proposer) : Input → Proposer → Prop
  | stay {input : Input} : Move p input p
  | follow {input : Input} {number : UInt64} (idle : p.leader = false)
      (higher : p.ballot.number < number) (capped : number < Ballot.lastRound) :
      Move p input { p with ballot := { p.ballot with number } }
  | begin : Move p (.prepare true)
      { p with ballot := p.ballot.next, promises := [], leader := false }
  | propose {v : Value} (free : p.proposal = none) :
      Move p (.propose v) { p with proposal := some v }
  | count {source : NodeId} {b : Ballot} {accepted : Option Ballot} {value : Option Value}
      (counts : (p.observe b).Counts source b) :
      Move p (.promise source b accepted value) ((p.observe b).counted source accepted value)
  | depose : Move p (.setLeader false) (p.setLeader false)
  | setActive {on : Bool} : Move p (.setActive on) (p.setActive on)

theorem cap_lt (n : UInt64) : min n (Ballot.lastRound - 1) < Ballot.lastRound := by
  have below : Ballot.lastRound - 1 < Ballot.lastRound := by decide
  show (if n ≤ Ballot.lastRound - 1 then n else Ballot.lastRound - 1) < Ballot.lastRound
  split
  · next small => exact UInt64.lt_of_le_of_lt small below
  · exact below

theorem observe_move (p : Proposer) (b : Ballot) (input : Input) :
    Move p input (p.observe b) := by
  unfold observe
  split
  · exact .stay
  · next idle =>
    simp only
    split
    · next higher => exact .follow (by simpa using idle) higher (cap_lt _)
    · exact .stay

/-- A promise that counts is counted; any other one is only observed. -/
theorem receivePromise_eq (p : Proposer) (source : NodeId) (b : Ballot)
    (accepted : Option Ballot) (value : Option Value) :
    (p.receivePromise source b accepted value).1 =
      if (p.observe b).Counts source b then (p.observe b).counted source accepted value
      else p.observe b := by
  by_cases counts : (p.observe b).Counts source b
  · obtain ⟨idle, own, new⟩ := counts
    rw [if_pos ⟨idle, own, new⟩]
    unfold receivePromise
    generalize p.observe b = q at idle own new ⊢
    subst own
    simp only [adopt, counted, Ballot.exceeds_iff, idle, new, ne_eq, not_true_eq_false,
      Bool.false_eq_true, or_self, if_false]
    split <;> split <;> simp_all [setLeader]
  · rw [if_neg counts]
    unfold receivePromise
    simp only
    rw [if_pos]
    simp only [Counts, not_and_or] at counts
    rcases counts with leads | other | heard
    · exact .inl (by simpa using leads)
    · exact .inr (.inl other)
    · exact .inr (.inr (by simpa using heard))

theorem receivePromise_move (p : Proposer) (source : NodeId) (b : Ballot)
    (accepted : Option Ballot) (value : Option Value) :
    Move p (.promise source b accepted value) (p.receivePromise source b accepted value).1 := by
  rw [receivePromise_eq]
  split
  · next counts => exact .count counts
  · exact observe_move p b _

/-- **A step is a move**, unless it makes the proposer leader by order. -/
theorem step_move (p : Proposer) {input : Input} (elected : input ≠ .setLeader true) :
    Move p input (p.step input).1 := by
  cases input with
  | prepare fresh =>
    cases fresh with
    | true => exact .begin
    | false => exact .stay
  | propose v =>
    show Move p _ (p.propose v).1
    unfold Proposer.propose
    split
    · next free => exact .propose free
    · exact .stay
  | promise source b accepted value => exact receivePromise_move p source b accepted value
  | observe b => exact observe_move p b _
  | prepareNack _ _ promised => exact observe_move p promised _
  | acceptNack _ _ promised => exact observe_move p promised _
  | resend => exact .stay
  | setLeader leading =>
    cases leading with
    | true => exact absurd rfl elected
    | false => exact .depose
  | setActive on => exact .setActive

/-! ## What every move keeps -/

/-- A proposer that hears of a ballot stays as it is, or goes to a higher round. -/
theorem observe_cases (p : Proposer) (b : Ballot) :
    p.observe b = p ∨ ∃ number, p.leader = false ∧ p.ballot.number < number ∧
      number < Ballot.lastRound ∧ p.observe b = { p with ballot := { p.ballot with number } } := by
  unfold observe
  split
  · exact .inl rfl
  · next idle =>
    simp only
    split
    · next higher => exact .inr ⟨_, by simpa using idle, higher, cap_lt _, rfl⟩
    · exact .inl rfl

theorem observe_number_le (p : Proposer) (b : Ballot) :
    p.ballot.number ≤ (p.observe b).ballot.number := by
  rcases observe_cases p b with same | ⟨number, -, higher, -, raised⟩
  · rw [same]
    exact UInt64.le_refl _
  · rw [raised]
    exact UInt64.le_of_lt higher

/-- A follower reaches every round it hears of, up to the one before the last. -/
theorem observe_reaches {p : Proposer} (idle : p.leader = false) (b : Ballot) :
    min b.number (Ballot.lastRound - 1) ≤ (p.observe b).ballot.number := by
  unfold observe
  rw [if_neg (by simp [idle])]
  simp only
  split
  · exact UInt64.le_refl _
  · next lower => exact UInt64.not_lt.1 lower

/-- A proposer that stays at its ballot while it hears of another is unchanged. -/
theorem observe_eq_of_ballot {p : Proposer} {b : Ballot} (same : (p.observe b).ballot = p.ballot) :
    p.observe b = p := by
  rcases observe_cases p b with stay | ⟨number, -, higher, -, raised⟩
  · exact stay
  · rw [raised] at same
    have number : number = p.ballot.number := congrArg Ballot.number same
    exact absurd higher (number ▸ UInt64.lt_irrefl _)

@[simp] theorem observe_leader (p : Proposer) (b : Ballot) : (p.observe b).leader = p.leader := by
  rcases observe_cases p b with same | ⟨number, -, -, -, raised⟩
  · rw [same]
  · rw [raised]

theorem observe_identity (p : Proposer) (b : Ballot) :
    (p.observe b).ballot.owner = p.ballot.owner ∧ (p.observe b).quorum = p.quorum ∧
      (p.observe b).promises = p.promises := by
  rcases observe_cases p b with same | ⟨number, -, -, -, raised⟩
  · rw [same]
    exact ⟨rfl, rfl, rfl⟩
  · rw [raised]
    exact ⟨rfl, rfl, rfl⟩

section Move

variable {p q : Proposer} {input : Input}

theorem Move.owner (move : Move p input q) : q.ballot.owner = p.ballot.owner := by
  cases move with
  | begin => exact Ballot.next_owner p.ballot
  | count => exact (observe_identity p _).1
  | _ => rfl

theorem Move.quorum (move : Move p input q) : q.quorum = p.quorum := by
  cases move with
  | count => exact (observe_identity p _).2.1
  | _ => rfl

theorem Move.number_le (move : Move p input q) : p.ballot.number ≤ q.ballot.number := by
  cases move with
  | follow idle higher => exact UInt64.le_of_lt higher
  | begin => exact Ballot.number_le_next p.ballot
  | count => exact observe_number_le p _
  | _ => exact UInt64.le_refl _

/-- A quorum promised the ballot of a leader. -/
def Won (p : Proposer) : Prop := p.leader = true → p.quorum ≤ p.promises.length

/-- A counted promise that reports a vote above all votes reported before, and so
replaces the proposal by `x`. -/
def Overturns (p : Proposer) (x : Value) : Input → Prop
  | .promise source b accepted value => (p.observe b).Counts source b ∧
      (p.observe b).highestVote < accepted ∧ value = some x
  | _ => False

/-- **A value stays proposed** until a promise overturns it. -/
theorem Move.proposal (move : Move p input q) {v : Value} (proposal : p.proposal = some v) :
    q.proposal = some v ∨ ∃ x ≠ v, Overturns p x input ∧ q.proposal = some x := by
  cases move with
  | propose free => rw [free] at proposal; cases proposal
  | @count source b accepted value counts =>
    have proposal : (p.observe b).proposal = some v := by
      rcases observe_cases p b with same | ⟨number, -, -, -, raised⟩
      · rw [same, proposal]
      · rw [raised, ← proposal]
    rcases le_or_gt accepted (p.observe b).highestVote with lower | higher
    · exact .inl ((if_neg (not_lt.2 lower)).trans proposal)
    · have changed : ((p.observe b).counted source accepted value).proposal =
          value.or (p.observe b).proposal := if_pos higher
      cases value with
      | none => exact .inl (changed.trans proposal)
      | some x =>
        by_cases same : x = v
        · exact .inl (changed.trans (by rw [same]; rfl))
        · exact .inr ⟨x, same, ⟨counts, higher, rfl⟩, changed⟩
  | _ => exact .inl proposal

end Move

/-! ## Promises -/

/-- What a proposer has collected: of a ballot it stood at before it had any promise
(`fresh`), it counts distinct nodes, whose promises it has heard. -/
structure Collected (heard : NodeId → Ballot → Option Ballot → Option Value → Prop)
    (fresh : Ballot → Prop) (p : Proposer) : Prop where
  reached : ∀ c, fresh c → c.owner = p.ballot.owner ∧ c.number ≤ p.ballot.number
  distinct : fresh p.ballot → p.promises.Nodup
  promised : fresh p.ballot → ∀ r ∈ p.promises, ∃ accepted value,
    heard r p.ballot accepted value ∧ accepted ≤ p.highestVote
  won : p.Won

section Collected

variable {heard : NodeId → Ballot → Option Ballot → Option Value → Prop}
  {fresh : Ballot → Prop} {p q : Proposer}

theorem Collected.mono {more : NodeId → Ballot → Option Ballot → Option Value → Prop}
    (collected : Collected heard fresh p) (sub : ∀ r b a v, heard r b a v → more r b a v) :
    Collected more fresh p where
  reached := collected.reached
  distinct := collected.distinct
  promised at_fresh r mem := by
    obtain ⟨accepted, value, told, le⟩ := collected.promised at_fresh r mem
    exact ⟨accepted, value, sub _ _ _ _ told, le⟩
  won := collected.won

/-- A ballot without promises is fresh, and fresh ballots may be forgotten. -/
theorem Collected.renew {next : Ballot → Prop} (collected : Collected heard fresh p)
    (sub : ∀ c, next c → fresh c ∨ c = p.ballot ∧ p.promises = []) : Collected heard next p where
  reached := by
    intro c new
    rcases sub c new with old | ⟨rfl, -⟩
    · exact collected.reached c old
    · exact ⟨rfl, UInt64.le_refl _⟩
  distinct new := by
    rcases sub _ new with old | ⟨-, none⟩
    · exact collected.distinct old
    · simp [none]
  promised new := by
    rcases sub _ new with old | ⟨-, none⟩
    · exact collected.promised old
    · simp [none]
  won := collected.won

/-- A ballot above all ballots reached so far is not fresh. -/
theorem Collected.raise (collected : Collected heard fresh p) {number : UInt64}
    (higher : p.ballot.number < number) :
    Collected heard fresh { p with ballot := { p.ballot with number } } := by
  have stale : ¬ fresh { p.ballot with number } := fun at_fresh =>
    absurd (collected.reached _ at_fresh).2 (UInt64.not_le.2 higher)
  refine ⟨fun c old => ?_, fun at_fresh => absurd at_fresh stale,
    fun at_fresh => absurd at_fresh stale, collected.won⟩
  exact ⟨(collected.reached c old).1,
    UInt64.le_trans (collected.reached c old).2 (UInt64.le_of_lt higher)⟩

theorem Collected.observe (collected : Collected heard fresh p) (b : Ballot) :
    Collected heard fresh (p.observe b) := by
  rcases observe_cases p b with same | ⟨number, -, higher, -, raised⟩
  · rw [same]
    exact collected
  · rw [raised]
    exact collected.raise higher

theorem Collected.count (collected : Collected heard fresh p) {source : NodeId} {b : Ballot}
    {accepted : Option Ballot} {value : Option Value} (counts : p.Counts source b)
    (told : heard source b accepted value) :
    Collected heard fresh (p.counted source accepted value) := by
  obtain ⟨idle, rfl, new⟩ := counts
  have higher : p.highestVote ≤ (p.counted source accepted value).highestVote ∧
      accepted ≤ (p.counted source accepted value).highestVote := by
    show _ ≤ (if _ then _ else _) ∧ _ ≤ (if _ then _ else _)
    split
    · next less => exact ⟨less.le, le_rfl⟩
    · next more => exact ⟨le_rfl, not_lt.1 more⟩
  refine ⟨collected.reached, fun at_fresh => ?_, fun at_fresh r mem => ?_, ?_⟩
  · refine List.nodup_append.2 ⟨collected.distinct at_fresh, by simp, ?_⟩
    rintro r old s last rfl
    exact new (List.mem_singleton.1 last ▸ old)
  · rcases List.mem_append.1 mem with old | last
    · obtain ⟨a, v, heard_r, le⟩ := collected.promised at_fresh r old
      exact ⟨a, v, heard_r, le.trans higher.1⟩
    · rw [List.mem_singleton.1 last]
      exact ⟨accepted, value, told, higher.2⟩
  · intro leads
    simpa [counted] using leads

/-- **Every move keeps what is collected**, if the promise it may count was heard. -/
theorem Collected.move (collected : Collected heard fresh p) {input : Input}
    (move : Move p input q)
    (hears : ∀ s b a v, input = .promise s b a v → heard s b a v) : Collected heard fresh q := by
  cases move with
  | stay => exact collected
  | propose | setActive => exact ⟨collected.reached, collected.distinct, collected.promised,
      collected.won⟩
  | follow _ higher => exact collected.raise higher
  | begin =>
    refine ⟨fun c old => ?_, fun _ => List.nodup_nil, fun _ r mem => ?_, Bool.noConfusion⟩
    · obtain ⟨owner, number⟩ := collected.reached c old
      exact ⟨owner.trans (Ballot.next_owner _).symm,
        UInt64.le_trans number (Ballot.number_le_next _)⟩
    · simp at mem
  | count counts => exact (collected.observe _).count counts (hears _ _ _ _ rfl)
  | depose => exact ⟨collected.reached, collected.distinct, collected.promised, Bool.noConfusion⟩

/-- A new proposer has collected nothing, wherever it starts from. -/
theorem collected_bare (heard : NodeId → Ballot → Option Ballot → Option Value → Prop)
    (idle : p.leader = false) (none : p.promises = []) :
    Collected heard (fun c => c = p.ballot) p where
  reached := by
    rintro c rfl
    exact ⟨rfl, UInt64.le_refl _⟩
  distinct _ := by simp [none]
  promised _ := by simp [none]
  won leads := absurd leads (by simp [idle])

end Collected

/-! ## Requests -/

theorem mem_acceptRequest {p : Proposer} {e : Effect} (mem : e ∈ p.acceptRequest) :
    ∃ v, p.active = true ∧ p.proposal = some v ∧ e = .accept p.ballot v := by
  unfold acceptRequest at mem
  split at mem
  · next v active proposal => exact ⟨v, active, proposal, by simpa using mem⟩
  · simp at mem

/-- What a proposer asks for, or reports. -/
def Speaks : Effect → Prop
  | .prepare .. | .accept .. | .leadershipAcquired => True
  | _ => False

theorem acceptRequest_speaks (p : Proposer) : ∀ e ∈ p.acceptRequest, Speaks e := by
  intro e mem
  obtain ⟨v, -, -, same⟩ := mem_acceptRequest mem
  rw [same]
  trivial

theorem step_speaks (p : Proposer) (input : Input) : ∀ e ∈ (p.step input).2, Speaks e := by
  intro e mem
  cases input with
  | prepare fresh =>
    cases fresh with
    | true =>
      have sent : p.active = true ∧ e = .prepare p.ballot.next := by simpa [step, prepare] using mem
      rw [sent.2]
      trivial
    | false =>
      have sent : p.active = true ∧ e = .prepare p.ballot := by simpa [step, prepare] using mem
      rw [sent.2]
      trivial
  | propose v =>
    simp only [step, Proposer.propose] at mem
    split at mem
    · split at mem
      · exact acceptRequest_speaks _ e mem
      · simp at mem
    · simp at mem
  | promise source b accepted value =>
    simp only [step, receivePromise] at mem
    split at mem
    · simp at mem
    · split at mem
      · rcases List.mem_cons.1 mem with rfl | mem
        · trivial
        · exact acceptRequest_speaks _ e mem
      · simp at mem
  | resend =>
    simp only [step, resend] at mem
    split at mem
    · exact acceptRequest_speaks p e mem
    · simp at mem
  | _ => simp [step] at mem

/-- Votes are asked for while leading, for the current ballot and proposal. -/
structure Asks (p : Proposer) (b : Ballot) (v : Value) : Prop where
  leading : p.leader = true
  ballot : p.ballot = b
  proposal : p.proposal = some v

theorem asks_of_mem {p : Proposer} (leading : p.leader = true) {b : Ballot} {v : Value}
    (mem : .accept b v ∈ p.acceptRequest) : p.Asks b v := by
  obtain ⟨w, -, proposal, same⟩ := mem_acceptRequest mem
  cases same
  exact ⟨leading, rfl, proposal⟩

/-- **Whoever asks for votes leads**, and asks for its ballot and its proposal. -/
theorem step_accept {p : Proposer} {input : Input} {b : Ballot} {v : Value}
    (mem : .accept b v ∈ (p.step input).2) : (p.step input).1.Asks b v := by
  cases input with
  | prepare fresh =>
    simp only [step, prepare] at mem
    split at mem <;> simp at mem
  | propose w =>
    simp only [step, Proposer.propose] at mem ⊢
    split at mem
    · next free =>
      rw [if_pos free]
      split at mem
      · next leading => exact asks_of_mem (p := { p with proposal := some w }) leading mem
      · simp at mem
    · simp at mem
  | promise source c accepted value =>
    simp only [step, receivePromise] at mem ⊢
    split at mem
    · simp at mem
    · next heard =>
      rw [if_neg heard]
      split at mem
      · next enough =>
        rw [if_pos enough]
        have mem := (List.mem_cons.1 mem).resolve_left (by simp)
        obtain ⟨leading, ballot, proposal⟩ := asks_of_mem (p := Proposer.setLeader _ true) rfl mem
        exact ⟨leading, ballot, proposal⟩
      · simp at mem
  | resend =>
    simp only [step, resend] at mem ⊢
    split at mem
    · next leading => exact asks_of_mem leading mem
    · simp at mem
  | _ => simp [step] at mem

/-- A round is announced for the current ballot, and by a preparation only. -/
theorem step_prepare {p : Proposer} {input : Input} {b : Ballot}
    (mem : .prepare b ∈ (p.step input).2) :
    (p.step input).1.ballot = b ∧ ∃ fresh, input = .prepare fresh := by
  have silent {q : Proposer} : .prepare b ∉ q.acceptRequest := by
    intro asked
    obtain ⟨_, -, -, same⟩ := mem_acceptRequest asked
    cases same
  cases input with
  | prepare fresh =>
    refine ⟨?_, fresh, rfl⟩
    cases fresh with
    | true =>
      have sent : p.active = true ∧ b = p.ballot.next := by simpa [step, prepare] using mem
      exact sent.2.symm
    | false =>
      have sent : p.active = true ∧ b = p.ballot := by simpa [step, prepare] using mem
      exact sent.2.symm
  | propose w =>
    simp only [step, Proposer.propose] at mem
    split at mem
    · split at mem
      · exact absurd mem silent
      · simp at mem
    · simp at mem
  | promise source c accepted value =>
    simp only [step, receivePromise] at mem
    split at mem
    · simp at mem
    · split at mem
      · exact absurd ((List.mem_cons.1 mem).resolve_left (by simp)) silent
      · simp at mem
  | resend =>
    simp only [step, resend] at mem
    split at mem
    · exact absurd mem silent
    · simp at mem
  | _ => simp [step] at mem

end Proposer

end Synod
