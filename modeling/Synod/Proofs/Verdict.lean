/-
Synod.Proofs.Verdict -- a learner resolves once, and a quorum stands behind it

`Move` says once what a vote does to a learner: it is ignored, counted, or completes a quorum.

A learner that hears any votes, under any names and for any ballots, resolves once at most.  What
it resolves is a valid ballot that a quorum of different acceptors has voted for, with a value that
one of these votes was for; and from then on nothing changes any more (`resolution_sound`).
-/
import Synod.Proofs.Tally

namespace Synod

set_option autoImplicit false

namespace Learner

def receive (l : Learner) (x : Vote) : Learner × List Effect :=
  l.receiveAccepted x.voter x.ballot x.value

def hear (l : Learner) : List Vote → Learner × List Effect
  | [] => (l, [])
  | x :: rest =>
    let r := l.receive x
    let s := r.1.hear rest
    (s.1, r.2 ++ s.2)

theorem hear_append (l : Learner) (xs ys : List Vote) :
    l.hear (xs ++ ys) =
      (((l.hear xs).1.hear ys).1, (l.hear xs).2 ++ ((l.hear xs).1.hear ys).2) := by
  induction xs generalizing l with
  | nil => rfl
  | cons x rest ih => simp [hear, ih]

theorem hear_concat (l : Learner) (xs : List Vote) (x : Vote) :
    l.hear (xs ++ [x]) =
      (((l.hear xs).1.receive x).1, (l.hear xs).2 ++ ((l.hear xs).1.receive x).2) := by
  simp [hear_append, hear]

/-! ## What a vote does -/

/-- The count of the ballot voted for, this vote included. -/
def tally (l : Learner) (x : Vote) : Tally := counted (l.released x.voter) x.ballot x.value

/-- A vote that counts: it moves its acceptor forward, and nothing is resolved yet. -/
structure Heeds (l : Learner) (x : Vote) : Prop where
  unresolved : l.resolution = none
  valid : x.ballot.Valid
  forward : l.votes.lookup x.voter < some x.ballot

inductive Move (l : Learner) (x : Vote) : Learner → List Effect → Prop
  | ignore (stale : ¬ l.Heeds x) : Move l x l []
  | count (heeds : l.Heeds x) (short : (l.tally x).cast < l.quorum) :
      Move l x { l with
        tallies := assign (l.released x.voter) x.ballot (l.tally x)
        votes := assign l.votes x.voter x.ballot } []
  | resolve (heeds : l.Heeds x) (enough : l.quorum ≤ (l.tally x).cast) :
      Move l x { l with
        tallies := []
        votes := []
        resolution := some (x.ballot, (l.tally x).value) } [.resolved x.ballot (l.tally x).value]

theorem receive_move (l : Learner) (x : Vote) : Move l x (l.receive x).1 (l.receive x).2 := by
  unfold receive receiveAccepted
  split
  · next ignored =>
    refine .ignore fun heeds => ?_
    rcases ignored with done | unowned | behind
    · simp [complete, heeds.unresolved] at done
    · exact unowned heeds.valid
    · exact behind (Ballot.exceeds_iff.2 heeds.forward)
  · next counted =>
    simp only [not_or, not_not, Ballot.exceeds_iff] at counted
    obtain ⟨unresolved, valid, forward⟩ := counted
    have heeds : l.Heeds x := ⟨by simpa [complete] using unresolved, valid, forward⟩
    simp only
    split
    · next enough => exact .resolve heeds enough
    · next short => exact .count heeds (by simpa [tally] using short)

/-- A learner that has resolved hears nothing any more. -/
theorem receive_resolved {l : Learner} (done : l.resolution ≠ none) (x : Vote) :
    l.receive x = (l, []) := by
  have move := l.receive_move x
  generalize l.receive x = r at move
  obtain ⟨s, effects⟩ := r
  cases move with
  | ignore => rfl
  | count heeds | resolve heeds => exact absurd heeds.unresolved done

theorem hear_resolved {l : Learner} (done : l.resolution ≠ none) (votes : List Vote) :
    l.hear votes = (l, []) := by
  induction votes with
  | nil => rfl
  | cons x rest ih => simp [hear, receive_resolved done, ih]

/-- A learner that has not resolved has reported nothing. -/
theorem hear_unresolved {l : Learner} {votes : List Vote}
    (unresolved : (l.hear votes).1.resolution = none) :
    l.resolution = none ∧ (l.hear votes).2 = [] := by
  induction votes generalizing l with
  | nil => exact ⟨unresolved, rfl⟩
  | cons x rest ih =>
    obtain ⟨still, silent⟩ := ih unresolved
    have move := l.receive_move x
    show _ ∧ (l.receive x).2 ++ ((l.receive x).1.hear rest).2 = []
    rw [silent]
    generalize (l.receive x).1 = s at move still
    generalize (l.receive x).2 = effects at move
    cases move with
    | ignore => exact ⟨still, rfl⟩
    | count heeds => exact ⟨heeds.unresolved, rfl⟩
    | resolve => cases still

theorem hear_quorum (l : Learner) (votes : List Vote) : (l.hear votes).1.quorum = l.quorum := by
  induction votes generalizing l with
  | nil => rfl
  | cons x rest ih => exact (ih _).trans (l.receiveAccepted_quorum ..)

theorem hear_counts {all votes : List Vote} {l : Learner} (counts : l.Counts all)
    (heard : votes ⊆ all) : (l.hear votes).1.Counts all := by
  induction votes generalizing l with
  | nil => exact counts
  | cons x rest ih =>
    have vote : { voter := x.voter, ballot := x.ballot, value := x.value } ∈ all :=
      heard List.mem_cons_self
    exact ih (receiveAccepted_counts counts vote).1 fun y mem => heard (List.mem_cons_of_mem _ mem)

/-! ## Resolutions -/

/-- A vote that makes a learner resolve makes it report this, and nothing else. -/
theorem receive_resolves {l : Learner} {x : Vote} {b : Ballot} {v : Value}
    (resolves : .resolved b v ∈ (l.receive x).2) :
    l.Heeds x ∧ b = x.ballot ∧ (l.receive x).2 = [.resolved b v] ∧
      (l.receive x).1.resolution = some (b, v) := by
  have move := l.receive_move x
  generalize (l.receive x).1 = s at move ⊢
  generalize (l.receive x).2 = effects at move resolves ⊢
  cases move with
  | ignore | count => simp at resolves
  | resolve heeds =>
    cases List.mem_singleton.1 resolves
    exact ⟨heeds, rfl, rfl, rfl⟩

theorem hear_once (l : Learner) (votes : List Vote) : (l.hear votes).2.length ≤ 1 := by
  induction votes generalizing l with
  | nil => exact Nat.zero_le 1
  | cons x rest ih =>
    have move := l.receive_move x
    show ((l.receive x).2 ++ ((l.receive x).1.hear rest).2).length ≤ 1
    generalize (l.receive x).1 = s at move ⊢
    generalize (l.receive x).2 = effects at move ⊢
    cases move with
    | ignore | count => exact ih _
    | resolve => simp [hear_resolved]

/-- A run through a vote that makes the learner resolve ends there. -/
theorem hear_through {l : Learner} {past : List Vote} {x : Vote} {b : Ballot} {v : Value}
    (resolves : .resolved b v ∈ ((l.hear past).1.receive x).2) (later : List Vote) :
    l.hear (past ++ x :: later) = (((l.hear past).1.receive x).1, [.resolved b v]) := by
  obtain ⟨heeds, -, report, resolution⟩ := receive_resolves resolves
  have silent := (hear_unresolved heeds.unresolved).2
  have done : ((l.hear past).1.receive x).1.resolution ≠ none := by simp [resolution]
  simp [hear_append, hear, silent, report, hear_resolved done]

/-- Enough different acceptors voted for the ballot, and one of them for this value. -/
def Carried (votes : List Vote) (quorum : Nat) (b : Ballot) (v : Value) : Prop :=
  ∃ voters : List NodeId, voters.Nodup ∧ quorum ≤ voters.length ∧
    (∀ r ∈ voters, ∃ w, { voter := r, ballot := b, value := w } ∈ votes) ∧
    ∃ r, { voter := r, ballot := b, value := v } ∈ votes

theorem carried_of_resolves {quorum : Nat} {past : List Vote} {x : Vote} {b : Ballot} {v : Value}
    (resolves : .resolved b v ∈ (((start quorum).hear past).1.receive x).2) :
    Carried (past ++ [x]) quorum b v := by
  have counts : ((start quorum).hear past).1.Counts (past ++ [x]) :=
    hear_counts (counts_start _ quorum) (List.subset_append_left _ _)
  have vote : { voter := x.voter, ballot := x.ballot, value := x.value } ∈ past ++ [x] := by simp
  obtain ⟨n, voters, enough, backed⟩ := (receiveAccepted_counts counts vote).2 b v resolves
  rw [hear_quorum] at enough
  exact ⟨voters, backed.nodup, backed.size ▸ enough, backed.voted, backed.named⟩

/-- **A resolution is carried by a quorum, and it is final.**  A learner reports one resolution at
most.  At the vote that makes it resolve, the ballot is a valid one, and the votes heard so far
carry it with this value.  Whatever votes follow, the learner stays as this vote has left it,
complete with this ballot and value, and reports nothing more. -/
theorem resolution_sound (quorum : Nat) (votes : List Vote) :
    ((start quorum).hear votes).2.length ≤ 1 ∧
    ∀ past x later b v, votes = past ++ x :: later →
      .resolved b v ∈ (((start quorum).hear past).1.receive x).2 →
      (b.Valid ∧ Carried (past ++ [x]) quorum b v) ∧
      (start quorum).hear votes = ((((start quorum).hear past).1.receive x).1, [.resolved b v]) ∧
      ((start quorum).hear votes).1.finalBallot = some b ∧
      ((start quorum).hear votes).1.finalValue = some v ∧
      ((start quorum).hear votes).1.complete = true := by
  refine ⟨(start quorum).hear_once votes, ?_⟩
  rintro past x later b v rfl resolves
  obtain ⟨heeds, same, -, resolution⟩ := receive_resolves resolves
  have ends := hear_through resolves later
  have last : ((start quorum).hear (past ++ x :: later)).1.resolution = some (b, v) := by
    rw [ends]
    exact resolution
  refine ⟨⟨same ▸ heeds.valid, carried_of_resolves resolves⟩, ends, ?_⟩
  simp [finalBallot, finalValue, complete, last]

/-- Of three acceptors one moves on, two vote twice and out of order, and one has no ballot; the
quorum of three is there when the third one votes, with the value that came first. -/
theorem resolution_sound_switched :
    let past : List Vote := [⟨"a", ⟨1, "p"⟩, "x"⟩, ⟨"b", ⟨1, "p"⟩, "y"⟩, ⟨"a", ⟨2, "q"⟩, "z"⟩,
      ⟨"a", ⟨1, "p"⟩, "x"⟩, ⟨"d", ⟨1, ""⟩, "x"⟩, ⟨"b", ⟨1, "p"⟩, "y"⟩]
    let x : Vote := ⟨"c", ⟨1, "p"⟩, "y"⟩
    let later : List Vote := [⟨"b", ⟨2, "q"⟩, "z"⟩, ⟨"c", ⟨2, "q"⟩, "z"⟩]
    .resolved ⟨1, "p"⟩ "x" ∈ (((start 3).hear past).1.receive x).2 ∧
      Carried (past ++ [x]) 3 ⟨1, "p"⟩ "x" ∧
      ((start 3).hear (past ++ x :: later)).2 = [.resolved ⟨1, "p"⟩ "x"] := by
  intro past x later
  have resolves : .resolved ⟨1, "p"⟩ "x" ∈ (((start 3).hear past).1.receive x).2 := by decide
  obtain ⟨-, sound⟩ := resolution_sound 3 (past ++ x :: later)
  obtain ⟨⟨-, carried⟩, ends, -⟩ := sound past x later _ _ rfl resolves
  exact ⟨resolves, carried, by rw [ends]⟩

end Learner

end Synod
