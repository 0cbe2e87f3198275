/-
Synod.Proofs.Bookkeeping -- a learner's counts stay within bounds, and nothing is left over

A learner keeps two maps and two counts for each ballot.  Each vote moves an acceptor from one
ballot to another, takes it off one count and adds it to two others, and may throw all of it away.
`Balanced` says what each vote keeps of that (`Balanced.move`): a count is never taken below zero,
because each tally retains somebody; and a ballot that nobody's latest vote is for has no tally.
Hence the same holds after any votes (`books_balanced`).
-/
import Synod.Proofs.Retention

namespace Synod.Learner

set_option autoImplicit false

/-- What the books of a learner keep to, whatever it hears. -/
structure Balanced (l : Learner) : Prop where
  kept : l.Kept
  voters : (l.votes.map Prod.fst).Nodup
  bounded : ∀ b t, l.tallies.lookup b = some t → t.retained ≤ t.cast ∧ t.cast < l.quorum
  closed : l.complete = true → l.tallies = [] ∧ l.votes = []

theorem balanced_start (quorum : Nat) : (start quorum).Balanced where
  kept := kept_start quorum
  voters := List.nodup_nil
  bounded := by simp [start]
  closed _ := ⟨rfl, rfl⟩

section Balanced

variable {l : Learner} {x : Vote}

/-- A vote adds to both counts of its ballot. -/
theorem Balanced.tally_le (balanced : l.Balanced) (heeds : l.Heeds x) :
    (l.tally x).retained ≤ (l.tally x).cast := by
  rw [balanced.kept.tally_eq heeds]
  split
  · next t found => exact Nat.succ_le_succ (balanced.bounded _ t found).1
  · exact le_rfl

/-- A vote that is taken away only makes a count smaller. -/
theorem Balanced.released_bounded (balanced : l.Balanced) {r : NodeId} {b : Ballot} {t : Tally}
    (found : (l.released r).lookup b = some t) : t.retained ≤ t.cast ∧ t.cast < l.quorum := by
  rw [balanced.kept.released] at found
  obtain ⟨old, before, found⟩ := Option.bind_eq_some_iff.1 found
  obtain ⟨le, short⟩ := balanced.bounded b old before
  split at found
  · unfold Tally.dropped at found
    split at found
    · cases found
    · cases found
      exact ⟨(Nat.sub_le _ _).trans le, short⟩
  · cases found
    exact ⟨le, short⟩

theorem Balanced.move {s : Learner} {effects : List Effect} (balanced : l.Balanced)
    (move : Move l x s effects) : s.Balanced := by
  have kept := balanced.kept.move move
  cases move with
  | ignore => exact balanced
  | resolve => exact ⟨kept, List.nodup_nil, by simp, fun _ => ⟨rfl, rfl⟩⟩
  | count heeds short =>
    refine ⟨kept, assign_distinct balanced.voters _ _, fun b t => ?_, fun done => ?_⟩
    · rw [lookup_assign]
      split
      · rintro ⟨⟩
        exact ⟨balanced.tally_le heeds, short⟩
      · exact balanced.released_bounded
    · simp [complete, heeds.unresolved] at done

theorem Balanced.hear (balanced : l.Balanced) (votes : List Vote) : (l.hear votes).1.Balanced := by
  induction votes generalizing l with
  | nil => exact balanced
  | cons x rest ih => exact ih (balanced.move (l.receive_move x))

/-- The ballots that are tracked are those that somebody's latest vote is for. -/
theorem Balanced.mem_ballots (balanced : l.Balanced) (b : Ballot) :
    b ∈ l.tallies.map Prod.fst ↔ ∃ r, l.votes.lookup r = some b := by
  have untracked := balanced.kept.lookup_eq_none b
  rw [List.lookup_eq_none_iff] at untracked
  rw [← not_iff_not, not_exists, ← untracked]
  simp only [List.mem_map, not_exists, not_and, bne_iff_ne, ne_eq]
  exact forall₂_congr fun pair _ => not_congr eq_comm

theorem Balanced.retained_pos (balanced : l.Balanced) {b : Ballot} {t : Tally}
    (found : l.tallies.lookup b = some t) : 1 ≤ t.retained := by
  obtain ⟨r, held⟩ : ∃ r, l.votes.lookup r = some b := by
    by_contra unheld
    rw [(balanced.kept.lookup_eq_none b).2 (not_exists.1 unheld)] at found
    cases found
  rw [balanced.kept.retained_eq found]
  exact Finset.card_pos.2 ⟨r, mem_holders.2 held⟩

end Balanced

/-- **The books of a learner balance**, whatever votes it has heard.  It tracks exactly the
ballots that are some acceptor's latest vote, each once, as it holds one latest vote of an acceptor.
A tally retains as many acceptors as have their latest vote there, and at least one, so that there
always is one to take away; it retains no more than were ever cast, and these are too few for a
quorum.  Nothing is tracked any more once the learner is complete. -/
theorem books_balanced (quorum : Nat) (votes : List Vote) :
    let l := ((start quorum).hear votes).1
    ((l.tallies.map Prod.fst).Nodup ∧ (l.votes.map Prod.fst).Nodup) ∧
      (∀ b, b ∈ l.tallies.map Prod.fst ↔ ∃ r, l.votes.lookup r = some b) ∧
      (∀ b t, l.tallies.lookup b = some t →
        t.retained = (holders l.votes b).card ∧ 1 ≤ t.retained ∧
          t.retained ≤ t.cast ∧ t.cast < quorum) ∧
      (l.complete = true → l.tallies = [] ∧ l.votes = []) := by
  intro l
  have balanced : l.Balanced := (balanced_start quorum).hear votes
  have quorum_eq : l.quorum = quorum := hear_quorum _ votes
  refine ⟨⟨balanced.kept.distinct, balanced.voters⟩, balanced.mem_ballots, fun b t found => ?_,
    balanced.closed⟩
  obtain ⟨le, short⟩ := balanced.bounded b t found
  exact ⟨balanced.kept.retained_eq found, balanced.retained_pos found, le, quorum_eq ▸ short⟩

/-- Of three acceptors two vote and one of them moves on, so that a ballot with two votes cast
retains one; the third vote completes the quorum, and all is gone. -/
theorem books_balanced_moved :
    let past : List Vote := [⟨"a", ⟨1, "p"⟩, "x"⟩, ⟨"b", ⟨1, "p"⟩, "x"⟩, ⟨"a", ⟨2, "q"⟩, "x"⟩]
    let l := ((start 3).hear past).1
    let done := ((start 3).hear (past ++ [⟨"c", ⟨1, "p"⟩, "x"⟩])).1
    l.tallies.lookup ⟨1, "p"⟩ = some ⟨2, 1, "x"⟩ ∧ (holders l.votes ⟨1, "p"⟩).card = 1 ∧
      (∃ r, l.votes.lookup r = some ⟨2, "q"⟩) ∧
      done.complete = true ∧ done.tallies = [] ∧ done.votes = [] := by
  intro past l done
  have found : l.tallies.lookup ⟨1, "p"⟩ = some ⟨2, 1, "x"⟩ := by decide
  have complete : done.complete = true := by decide
  obtain ⟨-, tracked, counts, -⟩ := books_balanced 3 past
  obtain ⟨-, -, -, closed⟩ := books_balanced 3 (past ++ [⟨"c", ⟨1, "p"⟩, "x"⟩])
  exact ⟨found, (counts _ _ found).1.symm, (tracked ⟨2, "q"⟩).1 (by decide), complete,
    closed complete⟩

end Synod.Learner
