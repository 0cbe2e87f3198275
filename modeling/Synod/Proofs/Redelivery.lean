/-
Synod.Proofs.Redelivery -- the same message once more

A network may repeat a message.  A role that has handled a message has nothing more to learn
from it: an acceptor at the same instant, a proposer and a learner at any (`receivePrepare_twice`
to `receiveAccepted_twice`).  A node is as it was, too, and only a repeated request is answered
again (`receive_twice`).

There is one exception.  A rejection is noted if it names the ballot that the node stands at when
it arrives, and then the node follows the promise that stood in the way.  So a rejection of a
ballot that the node reaches only in this way is not noted, but it is when it comes again
(`Node.NotesLater`).
-/
import Synod.Proofs.Overturn

namespace Synod

set_option autoImplicit false

/-! ## Acceptors -/

namespace Acceptor

variable {a : Acceptor} {now : Nat} {source : NodeId} {b : Ballot} {v : Value}

/-- A prepare for no more than the promise, or while a promise is held, changes only when an
acceptor last heard one. -/
theorem receivePrepare_stale (heard : a.lastPrepare = now)
    (stale : some b ≤ a.promised ∨ a.pendingPromise ≠ none) :
    (a.receivePrepare now source b).1 = a := by
  have again : ({ a with lastPrepare := now } : Acceptor) = a := by rw [← heard]
  have kept (low : ¬ some b ≤ a.promised) : a.takePromise source b = a :=
    if_neg (stale.resolve_left low)
  unfold receivePrepare
  simp only [again]
  split
  · split
    · next unpromised => exact kept (by simp [unpromised])
    · next p promised =>
      split
      · rfl
      · next other =>
        split
        · rfl
        · next notLess =>
          refine kept fun low => ?_
          rw [promised, Option.some_le_some] at low
          exact notLess (lt_of_le_of_ne low other)
  · rfl

theorem receivePrepare_heard (valid : b.Valid) :
    (a.receivePrepare now source b).1.lastPrepare = now ∧
      (some b ≤ (a.receivePrepare now source b).1.promised ∨
        (a.receivePrepare now source b).1.pendingPromise ≠ none) := by
  have move := a.receivePrepare_move now source b
  generalize (a.receivePrepare now source b).1 = next at move ⊢
  generalize (a.receivePrepare now source b).2 = effects at move
  cases move with
  | dropPrepare invalid => exact absurd valid invalid
  | ignorePrepare stale => exact ⟨rfl, stale⟩
  | repeatPromise _ known => exact ⟨rfl, .inl known.ge⟩
  | rejectPrepare _ promised lower =>
    exact ⟨rfl, .inl (by simpa [heard, promised] using lower.le)⟩
  | takePromise => exact ⟨rfl, .inl le_rfl⟩

theorem receivePrepare_twice (a : Acceptor) (now : Nat) (source : NodeId) (b : Ballot) :
    ((a.receivePrepare now source b).1.receivePrepare now source b).1 =
      (a.receivePrepare now source b).1 := by
  by_cases valid : b.Valid
  · obtain ⟨heard, stale⟩ := @receivePrepare_heard a now source b valid
    exact receivePrepare_stale heard stale
  · have dropped (a : Acceptor) : a.receivePrepare now source b = (a, []) := if_neg valid
    rw [dropped, dropped]

/-- A request to vote is stale once the vote is cast, a higher promise stands, or a vote is
held. -/
theorem receiveAccept_stale (stale : (a.accepted = some b ∧ a.value = some v) ∨
    some b < a.promised ∨ a.pendingVote ≠ none) : (a.receiveAccept source b v).1 = a := by
  unfold receiveAccept
  split
  · split
    · rfl
    · next new =>
      have stale := stale.resolve_left new
      split
      · next unpromised => exact if_neg (stale.resolve_left (by simp [unpromised]))
      · next p promised =>
        split
        · rfl
        · next notLess =>
          refine if_neg (stale.resolve_left fun low => ?_)
          rw [promised, Option.some_lt_some] at low
          exact notLess low
  · rfl

theorem receiveAccept_heard (valid : b.Valid) :
    ((a.receiveAccept source b v).1.accepted = some b ∧
      (a.receiveAccept source b v).1.value = some v) ∨
      some b < (a.receiveAccept source b v).1.promised ∨
      (a.receiveAccept source b v).1.pendingVote ≠ none := by
  have move := a.receiveAccept_move 0 source b v
  generalize (a.receiveAccept source b v).1 = next at move ⊢
  generalize (a.receiveAccept source b v).2 = effects at move
  cases move with
  | dropAccept invalid => exact absurd valid invalid
  | ignoreAccept stale => exact stale
  | repeatVote _ known value => exact .inl ⟨known, value⟩
  | rejectAccept _ promised lower => exact .inr (.inl (by simpa [promised] using lower))
  | castVote => exact .inl ⟨rfl, rfl⟩

theorem receiveAccept_twice (a : Acceptor) (source : NodeId) (b : Ballot) (v : Value) :
    ((a.receiveAccept source b v).1.receiveAccept source b v).1 =
      (a.receiveAccept source b v).1 := by
  by_cases valid : b.Valid
  · exact receiveAccept_stale (receiveAccept_heard valid)
  · have dropped (a : Acceptor) : a.receiveAccept source b v = (a, []) := if_neg valid
    rw [dropped, dropped]

end Acceptor

/-! ## Proposers -/

namespace Proposer

theorem propose_twice (p : Proposer) (v : Value) :
    (p.propose v).1.propose v = ((p.propose v).1, []) := by
  unfold propose
  by_cases free : p.proposal = none
  · simp [free]
  · simp [free]

/-- A leader keeps its ballot, and a ballot that is high enough is kept. -/
theorem observe_reached {p : Proposer} {b : Ballot}
    (reached : p.leader = true ∨ min b.number (Ballot.lastRound - 1) ≤ p.ballot.number) :
    p.observe b = p := by
  unfold observe
  split
  · rfl
  · next follows => exact if_neg (UInt64.not_lt.2 (reached.resolve_left follows))

theorem observe_twice (p : Proposer) (b : Ballot) : (p.observe b).observe b = p.observe b := by
  refine observe_reached ?_
  by_cases leads : p.leader = true
  · exact .inl ((observe_leader p b).trans leads)
  · exact .inr (observe_reaches (by simpa using leads) b)

theorem receivePromise_ignored {p : Proposer} {source : NodeId} {b : Ballot}
    (heard : p.observe b = p) (ignored : ¬ p.Counts source b) (accepted : Option Ballot)
    (value : Option Value) : p.receivePromise source b accepted value = (p, []) := by
  unfold receivePromise
  simp only [heard]
  refine if_pos ?_
  simpa only [Counts, not_and_or, Bool.not_eq_false, not_not] using ignored

/-- A promise that was counted makes its sender known. -/
theorem receivePromise_twice (p : Proposer) (source : NodeId) (b : Ballot)
    (accepted : Option Ballot) (value : Option Value) :
    (p.receivePromise source b accepted value).1.receivePromise source b accepted value =
      ((p.receivePromise source b accepted value).1, []) := by
  rw [receivePromise_eq]
  split
  · next counts =>
    have known : ¬ ((p.observe b).counted source accepted value).Counts source b :=
      fun again => again.2.2 (List.mem_append_right _ (List.mem_singleton_self _))
    refine receivePromise_ignored (observe_reached (.inr ?_)) known accepted value
    have follows : p.leader = false := (observe_leader p b).symm.trans counts.1
    exact observe_reaches follows b
  · next ignored => exact receivePromise_ignored (observe_twice p b) ignored accepted value

end Proposer

/-! ## Learners -/

/-- A vote that was counted is its sender's latest, and a learner that resolved counts none. -/
theorem Learner.receiveAccepted_twice (l : Learner) (source : NodeId) (b : Ballot) (v : Value) :
    (l.receiveAccepted source b v).1.receiveAccepted source b v =
      ((l.receiveAccepted source b v).1, []) := by
  have ignored {l : Learner} (stale : l.complete = true ∨ ¬ b.Valid ∨
      ¬ Ballot.Exceeds (some b) (l.votes.lookup source)) :
      l.receiveAccepted source b v = (l, []) := if_pos stale
  by_cases stale : l.complete = true ∨ ¬ b.Valid ∨
      ¬ Ballot.Exceeds (some b) (l.votes.lookup source)
  · rw [ignored stale, ignored stale]
  · refine ignored ?_
    unfold receiveAccepted
    rw [if_neg stale]
    simp only
    split
    · exact .inl rfl
    · refine .inr (.inr ?_)
      simp only [lookup_assign, if_pos]
      exact Ballot.lt_irrefl b

/-! ## Nodes -/

namespace Node

theorem refresh_twice (n : Node) (now : Nat) (b : Ballot) :
    (n.refresh now b).refresh now b = n.refresh now b := by
  unfold refresh
  by_cases known : n.leaderBallot = some b
  · simp [known]
  · simp [known]

theorem receiveHeartbeat_stale {n : Node} {now : Nat} {source : NodeId} {b : Ballot}
    (valid : b.Valid) (stale : ¬ Ballot.Exceeds (some b) n.leaderBallot) :
    n.receiveHeartbeat now source b = (n.refresh now b, []) := by
  simp only [receiveHeartbeat, if_pos valid, if_neg stale]

/-- A heartbeat that was followed does not exceed the leader's ballot any more. -/
theorem receiveHeartbeat_twice (n : Node) (now : Nat) (source : NodeId) (b : Ballot) :
    (n.receiveHeartbeat now source b).1.receiveHeartbeat now source b =
      ((n.receiveHeartbeat now source b).1, []) := by
  have refreshed (n : Node) : (n.refresh now b).leaderBallot = n.leaderBallot := by
    unfold refresh
    split <;> rfl
  by_cases valid : b.Valid
  · by_cases higher : Ballot.Exceeds (some b) n.leaderBallot
    · have first : (n.receiveHeartbeat now source b).1 = (n.follow source b).1.refresh now b := by
        simp only [receiveHeartbeat, if_pos valid, if_pos higher]
      have followed : (n.follow source b).1.leaderBallot = some b := by
        simp only [follow]
        split <;> rfl
      have low : ¬ Ballot.Exceeds (some b) ((n.follow source b).1.refresh now b).leaderBallot := by
        rw [refreshed, followed]
        exact Ballot.lt_irrefl b
      rw [first, receiveHeartbeat_stale valid low, refresh_twice]
    · have low : ¬ Ballot.Exceeds (some b) (n.refresh now b).leaderBallot := by
        rwa [refreshed]
      rw [receiveHeartbeat_stale valid higher, receiveHeartbeat_stale valid low, refresh_twice]
  · have dropped (n : Node) : n.receiveHeartbeat now source b = (n, []) := if_neg valid
    rw [dropped, dropped]

theorem receivePromise_twice (n : Node) (now : Nat) (source : NodeId) (b : Ballot)
    (accepted : Option Ballot) (value : Option Value) :
    (n.receivePromise now source b accepted value).1.receivePromise now source b accepted value =
      ((n.receivePromise now source b accepted value).1, []) := by
  have proposer : (n.receivePromise now source b accepted value).1.proposer =
      (n.proposer.receivePromise source b accepted value).1 :=
    (n.receivePromise_heeds now source b accepted value).proposer
  generalize (n.receivePromise now source b accepted value).1 = once at proposer
  have same : once.withProposer (once.proposer.receivePromise source b accepted value) =
      (once, []) := by
    rw [proposer, Proposer.receivePromise_twice, ← proposer]
    rfl
  unfold receivePromise
  rw [same]
  exact if_neg fun elected => Bool.false_ne_true (elected.1.symm.trans elected.2)

/-! ## Rejections -/

theorem mem_note {names : List NodeId} {name s : NodeId} :
    s ∈ note names name ↔ s ∈ names ∨ s = name := by
  unfold note
  split
  · next known => exact ⟨.inl, fun either => either.elim (fun old => old) fun same => same ▸ known⟩
  · simp

/-- Who rejected the current ballot, with a node that rejects this one. -/
def noted (n : Node) (source : NodeId) (b : Ballot) : List NodeId :=
  if b = n.proposer.ballot then note n.rejections source else n.rejections

/-- Whether a rejection names a ballot that the node does not stand at, but follows it to, and
comes from a node that is not noted. -/
def NotesLater (n : Node) : Message → Prop
  | .acceptNack source b promised => n.proposer.ballot ≠ b ∧
      (n.receiveAcceptNack source b promised).1.proposer.ballot = b ∧ source ∉ n.rejections
  | _ => False

section Rejection

variable {n : Node} {source : NodeId} {b promised : Ballot}

/-- A rejection is judged by the ballot at which it finds the node. -/
theorem receiveAcceptNack_rejections :
    (n.receiveAcceptNack source b promised).1.rejections = n.noted source b := by
  unfold receiveAcceptNack
  simp only
  split <;> rfl

theorem noteRejection_followed (followed : n.proposer.observe promised = n.proposer) :
    n.noteRejection source b promised = { n with rejections := n.noted source b } := by
  rw [noteRejection, followed]
  rfl

/-- A node that has followed the promise at most notes who rejected it. -/
theorem receiveAcceptNack_followed (followed : n.proposer.observe promised = n.proposer)
    (stays : n.leading = true → (n.noted source b).length < n.proposer.quorum) :
    n.receiveAcceptNack source b promised = ({ n with rejections := n.noted source b }, []) := by
  have goes_on : ¬ n.Resigns source b promised := fun ⟨leads, enough⟩ =>
    absurd (stays leads) (Nat.not_lt.2 enough)
  rw [receiveAcceptNack_eq, if_neg goes_on, noteRejection_followed followed]

/-- Noting a rejection twice is noting it once, as long as the ballot stays. -/
theorem noted_again : ({ n with rejections := n.noted source b } : Node).noted source b =
    n.noted source b := by
  unfold noted
  split
  · exact if_pos (mem_note.2 (.inr rfl))
  · rfl

/-- **A rejection that comes again** is noted if it names the ballot now, and does nothing else. -/
theorem receiveAcceptNack_twice (n : Node) (source : NodeId) (b promised : Ballot) :
    let once := (n.receiveAcceptNack source b promised).1
    once.receiveAcceptNack source b promised =
      ({ once with rejections := once.noted source b }, []) := by
  intro once
  by_cases resigns : n.Resigns source b promised
  · have resigned : once = ((n.noteRejection source b promised).resign promised).1 := by
      simp only [once, receiveAcceptNack_eq, if_pos resigns]
    have follows : once.leading = false := by
      rw [resigned]
      exact Proposer.observe_leader _ promised
    refine receiveAcceptNack_followed ?_ fun leads => ?_
    · rw [resigned]
      exact Proposer.observe_twice _ promised
    · rw [follows] at leads
      cases leads
  · have stays : once = n.noteRejection source b promised := by
      simp only [once, receiveAcceptNack_eq, if_neg resigns]
    rw [stays] at *
    refine receiveAcceptNack_followed (Proposer.observe_twice n.proposer promised) fun leads => ?_
    -- a leader keeps its ballot, so that the rejection is judged as before
    have leads : n.leading = true := (Proposer.observe_leader _ promised).symm.trans leads
    have few := not_le.1 fun enough => resigns ⟨leads, enough⟩
    rw [noteRejection_followed (Proposer.observe_reached (.inl leads))] at few ⊢
    rwa [noted_again]

end Rejection

/-! ## Messages -/

theorem notesLater_iff {n : Node} {source : NodeId} {b promised : Ballot} :
    n.NotesLater (.acceptNack source b promised) ↔
      (n.receiveAcceptNack source b promised).1.proposer.ballot = b ∧
        source ∉ (n.receiveAcceptNack source b promised).1.rejections := by
  rw [receiveAcceptNack_rejections, noted]
  constructor
  · rintro ⟨other, reached, new⟩
    rw [if_neg (Ne.symm other)]
    exact ⟨reached, new⟩
  · rintro ⟨reached, new⟩
    have other : b ≠ n.proposer.ballot := by
      intro same
      rw [if_pos same] at new
      exact new (mem_note.2 (.inr rfl))
    rw [if_neg other] at new
    exact ⟨other.symm, reached, new⟩

/-- A rejection that is noted later adds its sender when it comes again. -/
theorem receiveAcceptNack_later {n : Node} {source : NodeId} {b promised : Ballot}
    (later : n.NotesLater (.acceptNack source b promised)) :
    let once := (n.receiveAcceptNack source b promised).1
    source ∉ once.rejections ∧ once.receiveAcceptNack source b promised =
      ({ once with rejections := once.rejections ++ [source] }, []) := by
  intro once
  have ⟨(reached : once.proposer.ballot = b), (new : source ∉ once.rejections)⟩ :=
    notesLater_iff.1 later
  have noted : once.noted source b = once.rejections ++ [source] := by
    rw [noted, if_pos reached.symm, note, if_neg new]
  refine ⟨new, ?_⟩
  rw [← noted]
  exact n.receiveAcceptNack_twice source b promised

/-- Any other rejection does nothing when it comes again. -/
theorem receiveAcceptNack_before {n : Node} {source : NodeId} {b promised : Ballot}
    (before : ¬ n.NotesLater (.acceptNack source b promised)) :
    let once := (n.receiveAcceptNack source b promised).1
    once.receiveAcceptNack source b promised = (once, []) := by
  intro once
  have noted : once.noted source b = once.rejections := by
    unfold noted
    split
    · next reached =>
      have known : source ∈ once.rejections := by
        by_contra new
        exact before (notesLater_iff.2 ⟨reached.symm, new⟩)
      exact if_pos known
    · rfl
  calc once.receiveAcceptNack source b promised
      = ({ once with rejections := once.noted source b }, []) :=
        n.receiveAcceptNack_twice source b promised
    _ = (once, []) := by rw [noted]

/-- **A message that comes again at the same instant changes nothing**, but for a rejection that
is noted later.  It is answered again only if it asks for a promise or a vote. -/
theorem receive_twice (n : Node) (now : Nat) (m : Message) :
    let once := n.receive now m
    let twice := once.1.receive now m
    (twice.1 = once.1 ↔ ¬ n.NotesLater m) ∧
      (twice.1 = once.1 ∨ ∃ source b promised, m = .acceptNack source b promised ∧
        twice.1 = { once.1 with rejections := once.1.rejections ++ [source] }) ∧
      (twice.2 = [] ∨ (∃ source b, m = .prepare source b) ∨
        ∃ source b v, m = .accept source b v) := by
  intro once twice
  have silent (quiet : ¬ n.NotesLater m) (same : twice = (once.1, [])) :
      (twice.1 = once.1 ↔ ¬ n.NotesLater m) ∧
      (twice.1 = once.1 ∨ ∃ source b promised, m = .acceptNack source b promised ∧
        twice.1 = { once.1 with rejections := once.1.rejections ++ [source] }) ∧
      (twice.2 = [] ∨ (∃ source b, m = .prepare source b) ∨
        ∃ source b v, m = .accept source b v) := by
    rw [same]
    exact ⟨iff_of_true rfl quiet, .inl rfl, .inl rfl⟩
  cases m with
  | prepare source b =>
    have same : twice.1 = once.1 := congrArg (fun a => ({ once.1 with acceptor := a } : Node))
      (n.acceptor.receivePrepare_twice now source b)
    exact ⟨iff_of_true same not_false, .inl same, .inr (.inl ⟨source, b, rfl⟩)⟩
  | accept source b v =>
    have same : twice.1 = once.1 := congrArg (fun a => ({ once.1 with acceptor := a } : Node))
      (n.acceptor.receiveAccept_twice source b v)
    exact ⟨iff_of_true same not_false, .inl same, .inr (.inr ⟨source, b, v, rfl⟩)⟩
  | promise source b vote value =>
    exact silent not_false (n.receivePromise_twice now source b vote value)
  | prepareNack source b promised =>
    refine silent not_false ?_
    exact congrArg (fun p => (({ once.1 with proposer := p } : Node), ([] : List Effect)))
      (n.proposer.observe_twice promised)
  | accepted source b v =>
    exact silent not_false (congrArg once.1.withLearner
      (n.learner.receiveAccepted_twice source b v))
  | acceptNack source b promised =>
    by_cases later : n.NotesLater (.acceptNack source b promised)
    · have ⟨(new : source ∉ once.1.rejections), (again : twice =
        ({ once.1 with rejections := once.1.rejections ++ [source] }, []))⟩ :=
        receiveAcceptNack_later later
      rw [again]
      refine ⟨iff_of_false (fun same => ?_) (not_not.2 later), .inr ⟨source, b, promised, rfl, rfl⟩,
        .inl rfl⟩
      exact new (congrArg rejections same ▸ List.mem_append_right _ (List.mem_singleton_self _))
    · exact silent later (receiveAcceptNack_before later)
  | heartbeat source b => exact silent not_false (n.receiveHeartbeat_twice now source b)
  | propose v =>
    exact silent not_false (congrArg once.1.withProposer (n.proposer.propose_twice v))

/-- Node `b` rejects a ballot that node `a` does not stand at yet. -/
def earlyRejection : Message := .acceptNack "b" ⟨5, "a"⟩ ⟨5, "c"⟩

/-- Heard twice, the rejection counts: when `a` leads under this ballot, one more makes a
quorum.  Heard once, it does not. -/
theorem earlyRejection_noted_later :
    let n := Node.start { id := "a", quorum := 2 } 0
    let elected : List (Nat × Input) :=
      [ (0, .receive (.promise "a" ⟨5, "a"⟩ none none)),
        (0, .receive (.promise "b" ⟨5, "a"⟩ none none)),
        (0, .receive (.acceptNack "c" ⟨5, "a"⟩ ⟨6, "c"⟩)) ]
    let once := (n.receive 0 earlyRejection).1
    let twice := (once.receive 0 earlyRejection).1
    twice ≠ once ∧ (once.run elected).1.leading = true ∧ (twice.run elected).1.leading = false := by
  decide +kernel

end Node

end Synod
