/-
Synod.Proofs.Archive -- what a learner loses by forgetting

An `Archive` is a learner that forgets nothing: it keeps every vote, and resolves once enough
acceptors have ever voted for one ballot.  A learner drops the count of a ballot that everybody has
left, and counts from one again when somebody votes for it after all.  Until then the two agree on
every count (`Matches`), so the learner keeps pace with the archive up to its resolution, and at it
unless the ballot resolved has been abandoned and revived (`keepsPace_iff`).
-/
import Mathlib.Data.List.Induction
import Synod.Proofs.Retention

namespace Synod

set_option autoImplicit false

structure Archive where
  quorum : Nat
  heard : List Vote := []
  /-- The votes heard that moved their acceptor forward. -/
  cast : List Vote := []
  resolution : Option Ballot := none

namespace Archive

/-- A vote for a valid ballot, above those its acceptor has voted for before. -/
def Forward (heard : List Vote) (x : Vote) : Prop :=
  x.ballot.Valid ∧ ∀ y ∈ heard, y.voter = x.voter → y.ballot.Valid → y.ballot < x.ballot

instance (heard : List Vote) (x : Vote) : Decidable (Forward heard x) :=
  inferInstanceAs (Decidable (_ ∧ _))

/-- The acceptors that ever voted for the ballot. -/
def supporters (cast : List Vote) (b : Ballot) : Finset NodeId :=
  ((cast.filter fun y => y.ballot = b).map Vote.voter).toFinset

def receive (a : Archive) (x : Vote) : Archive :=
  if a.resolution.isSome then a
  else if Forward a.heard x then
    let cast := a.cast ++ [x]
    { a with
      heard := a.heard ++ [x]
      cast := cast
      resolution := if a.quorum ≤ (supporters cast x.ballot).card then some x.ballot else none }
  else { a with heard := a.heard ++ [x] }

def hear (a : Archive) (votes : List Vote) : Archive := votes.foldl receive a

theorem hear_concat (a : Archive) (votes : List Vote) (x : Vote) :
    a.hear (votes ++ [x]) = (a.hear votes).receive x := by
  simp [hear]

theorem receive_stale {a : Archive} {x : Vote} (ongoing : a.resolution = none)
    (stale : ¬ Forward a.heard x) : a.receive x = { a with heard := a.heard ++ [x] } := by
  simp [receive, ongoing, stale]

theorem receive_forward {a : Archive} {x : Vote} (ongoing : a.resolution = none)
    (forward : Forward a.heard x) :
    a.receive x = { a with
      heard := a.heard ++ [x]
      cast := a.cast ++ [x]
      resolution := if a.quorum ≤ (supporters (a.cast ++ [x]) x.ballot).card
        then some x.ballot else none } := by
  simp [receive, ongoing, forward]

theorem receive_resolved {a : Archive} {b : Ballot} (done : a.resolution = some b) (x : Vote) :
    a.receive x = a := by
  simp [receive, done]

/-! ## Supporters -/

theorem mem_supporters {cast : List Vote} {b : Ballot} {r : NodeId} :
    r ∈ supporters cast b ↔ ∃ y ∈ cast, y.ballot = b ∧ y.voter = r := by
  simp [supporters, and_assoc]

theorem supporters_concat (cast : List Vote) (x : Vote) :
    supporters (cast ++ [x]) x.ballot = insert x.voter (supporters cast x.ballot) := by
  ext r
  simp only [mem_supporters, Finset.mem_insert, List.mem_append, List.mem_singleton]
  constructor
  · rintro ⟨y, old | rfl, same, rfl⟩
    · exact .inr ⟨y, old, same, rfl⟩
    · exact .inl rfl
  · rintro (rfl | ⟨y, old, same, rfl⟩)
    · exact ⟨x, .inr rfl, rfl, rfl⟩
    · exact ⟨y, .inl old, same, rfl⟩

theorem supporters_concat_other {cast : List Vote} {x : Vote} {b : Ballot} (other : x.ballot ≠ b) :
    supporters (cast ++ [x]) b = supporters cast b := by
  simp [supporters, other]

/-! ## Abandoned ballots -/

/-- Everybody who voted for the ballot has voted for a higher one too. -/
def Abandoned (cast : List Vote) (b : Ballot) : Prop :=
  ∀ y ∈ cast, y.ballot = b → ∃ z ∈ cast, z.voter = y.voter ∧ b < z.ballot

/-- Somebody voted for the ballot when those who had done so before had all abandoned it. -/
def Revived (cast : List Vote) (b : Ballot) : Prop :=
  ∃ earlier x later, cast = earlier ++ x :: later ∧ x.ballot = b ∧
    (supporters earlier b).Nonempty ∧ Abandoned earlier b

theorem revived_concat (cast : List Vote) (x : Vote) (b : Ballot) :
    Revived (cast ++ [x]) b ↔
      Revived cast b ∨ x.ballot = b ∧ (supporters cast b).Nonempty ∧ Abandoned cast b := by
  constructor
  · rintro ⟨earlier, y, later, split, revives⟩
    rcases List.eq_nil_or_concat later with rfl | ⟨middle, z, rfl⟩
    · obtain ⟨rfl, last⟩ := List.append_inj' split rfl
      cases last
      exact .inr revives
    · have split : cast ++ [x] = (earlier ++ y :: middle) ++ [z] := by simpa using split
      exact .inl ⟨earlier, y, middle, (List.append_inj' split rfl).1, revives⟩
  · rintro (⟨earlier, y, later, rfl, revives⟩ | revives)
    · exact ⟨earlier, y, later ++ [x], by simp, revives⟩
    · exact ⟨cast, x, [], rfl, revives⟩

theorem Revived.nonempty {cast : List Vote} {b : Ballot} (revived : Revived cast b) :
    (supporters cast b).Nonempty := by
  obtain ⟨earlier, x, later, rfl, same, -⟩ := revived
  exact ⟨x.voter, mem_supporters.2 ⟨x, by simp, same, rfl⟩⟩

/-- A ballot revived has been voted for before the latest vote. -/
theorem Revived.earlier {cast : List Vote} {x : Vote} {b : Ballot}
    (revived : Revived (cast ++ [x]) b) : (supporters cast b).Nonempty :=
  ((revived_concat cast x b).1 revived).elim Revived.nonempty fun h => h.2.1

/-- A count that is short of the supporters only where the ballot was revived. -/
structure Accounts (cast : List Vote) (b : Ballot) (n : Nat) : Prop where
  le : n ≤ (supporters cast b).card
  eq_iff : n = (supporters cast b).card ↔ ¬ Revived cast b

/-! ## The learner beside the archive -/

/-- Neither of them has resolved, and the learner's counts account for the archive's votes. -/
structure Matches (l : Learner) (a : Archive) : Prop where
  quorum : l.quorum = a.quorum
  unresolved : l.resolution = none
  ongoing : a.resolution = none
  kept : l.Kept
  heard : ∀ y ∈ a.cast, y ∈ a.heard ∧ y.ballot.Valid
  below : ∀ r b, l.votes.lookup r < some b ↔
    ∀ y ∈ a.heard, y.voter = r → y.ballot.Valid → y.ballot < b
  latest : ∀ r b, l.votes.lookup r = some b → ∃ y ∈ a.cast, y.ballot = b ∧ y.voter = r
  tallies : ∀ b t, l.tallies.lookup b = some t → Accounts a.cast b t.cast
  short : ∀ b, (supporters a.cast b).Nonempty → (supporters a.cast b).card < a.quorum

theorem matches_start (quorum : Nat) : Matches (.start quorum) { quorum } where
  quorum := rfl
  unresolved := rfl
  ongoing := rfl
  kept := Learner.kept_start quorum
  heard := by simp
  below r b := by simp [Learner.start]
  latest := by simp [Learner.start]
  tallies := by simp [Learner.start]
  short b some := by simp [supporters] at some

section Matches

variable {l : Learner} {a : Archive} {x : Vote}

theorem Matches.forward_iff (m : Matches l a) : Forward a.heard x ↔ l.Heeds x := by
  constructor
  · rintro ⟨valid, above⟩
    exact ⟨m.unresolved, valid, (m.below _ _).2 above⟩
  · intro heeds
    exact ⟨heeds.valid, (m.below _ _).1 heeds.forward⟩

/-- The ballots without a tally are those that nobody holds on to. -/
theorem Matches.abandoned_iff (m : Matches l a) (b : Ballot) :
    Abandoned a.cast b ↔ l.tallies.lookup b = none := by
  rw [m.kept.lookup_eq_none]
  constructor
  · intro abandoned r holds
    obtain ⟨y, cast, same, rfl⟩ := m.latest r b holds
    obtain ⟨z, cast, voter, above⟩ := abandoned y cast same
    have under : l.votes.lookup y.voter < some z.ballot := by simpa [holds] using above
    obtain ⟨heard, valid⟩ := m.heard z cast
    exact lt_irrefl _ ((m.below _ _).1 under z heard voter valid)
  · rintro left y cast rfl
    obtain ⟨heard, valid⟩ := m.heard y cast
    have above : some y.ballot < l.votes.lookup y.voter := by
      refine lt_of_le_of_ne (not_lt.1 fun under => ?_) (left y.voter).symm
      exact lt_irrefl _ ((m.below _ _).1 under y heard rfl valid)
    cases held : l.votes.lookup y.voter with
    | none => simp [held] at above
    | some c =>
      obtain ⟨z, cast, rfl, voter⟩ := m.latest _ _ held
      exact ⟨z, cast, voter, by simpa [held] using above⟩

theorem Matches.supporters_card (m : Matches l a) (heeds : l.Heeds x) :
    (supporters (a.cast ++ [x]) x.ballot).card = (supporters a.cast x.ballot).card + 1 := by
  have new : x.voter ∉ supporters a.cast x.ballot := by
    intro old
    obtain ⟨y, cast, ballot, voter⟩ := mem_supporters.1 old
    obtain ⟨heard, valid⟩ := m.heard y cast
    exact ((m.forward_iff.2 heeds).2 y heard voter valid).ne ballot
  rw [supporters_concat, Finset.card_insert_of_notMem new]

/-- A vote that counts leaves its ballot with a count that accounts for it. -/
theorem Matches.tally (m : Matches l a) (heeds : l.Heeds x) :
    Accounts (a.cast ++ [x]) x.ballot (l.tally x).cast := by
  have size := m.supporters_card heeds
  have revived := revived_concat a.cast x x.ballot
  rw [m.kept.tally_eq heeds]
  cases found : l.tallies.lookup x.ballot with
  | some t =>
    obtain ⟨le, eq_iff⟩ := m.tallies _ _ found
    have held : ¬ Abandoned a.cast x.ballot := by simp [m.abandoned_iff, found]
    simp only [held, and_false, or_false] at revived
    constructor
    · simpa [size] using le
    · simpa [size, revived] using eq_iff
  | none =>
    have left : Abandoned a.cast x.ballot := (m.abandoned_iff _).2 found
    -- the count begins again, which is right just when it begins for the first time
    have again : Revived (a.cast ++ [x]) x.ballot ↔ (supporters a.cast x.ballot).Nonempty :=
      ⟨Revived.earlier, fun some => revived.2 (.inr ⟨rfl, some, left⟩)⟩
    constructor
    · simp [size]
    · rw [again, size, Finset.not_nonempty_iff_eq_empty, ← Finset.card_eq_zero]
      simp [eq_comm]

theorem Matches.ignore (m : Matches l a) (stale : ¬ Forward a.heard x) :
    Matches l { a with heard := a.heard ++ [x] } where
  quorum := m.quorum
  unresolved := m.unresolved
  ongoing := m.ongoing
  kept := m.kept
  heard y mem := (m.heard y mem).imp_left (List.mem_append_left _)
  below r b := by
    rw [m.below]
    simp only [List.mem_append, List.mem_singleton, or_imp, forall_and, forall_eq]
    refine ⟨fun above => ⟨above, fun voter valid => ?_⟩, And.left⟩
    -- an earlier vote of this acceptor is for the same ballot or a higher one
    obtain ⟨y, heard, same, valid, reached⟩ : ∃ y ∈ a.heard, y.voter = x.voter ∧ y.ballot.Valid ∧
        x.ballot ≤ y.ballot := by simpa [Forward, valid] using stale
    exact reached.trans_lt (above y heard (same.trans voter) valid)
  latest := m.latest
  tallies := m.tallies
  short := m.short

theorem Matches.count (m : Matches l a) (heeds : l.Heeds x)
    (more : (supporters (a.cast ++ [x]) x.ballot).card < a.quorum) :
    Matches
      { l with
        tallies := assign (l.released x.voter) x.ballot (l.tally x)
        votes := assign l.votes x.voter x.ballot }
      { a with heard := a.heard ++ [x], cast := a.cast ++ [x], resolution := none } where
  quorum := m.quorum
  unresolved := m.unresolved
  ongoing := rfl
  kept := by
    refine m.kept.move (.count heeds (lt_of_le_of_lt (m.tally heeds).le ?_))
    rwa [m.quorum]
  heard := by
    simp only [List.mem_append, List.mem_singleton]
    rintro y (old | rfl)
    · exact (m.heard y old).imp_left .inl
    · exact ⟨.inr rfl, heeds.valid⟩
  below r b := by
    simp only [lookup_assign, List.mem_append, List.mem_singleton, or_imp, forall_and, forall_eq]
    by_cases own : r = x.voter
    · subst own
      have above := (m.forward_iff.2 heeds).2
      simp only [if_true, Option.some_lt_some, heeds.valid, forall_const]
      exact ⟨fun lt => ⟨fun y heard voter valid => (above y heard voter valid).trans lt, lt⟩,
        And.right⟩
    · simp [own, Ne.symm own, m.below]
  latest r b := by
    rw [lookup_assign]
    by_cases own : r = x.voter
    · rw [if_pos own]
      rintro ⟨⟩
      exact ⟨x, by simp, rfl, own.symm⟩
    · rw [if_neg own]
      intro held
      obtain ⟨y, mem, same⟩ := m.latest r b held
      exact ⟨y, List.mem_append_left _ mem, same⟩
  tallies b t := by
    rw [lookup_assign]
    by_cases here : b = x.ballot
    · rw [if_pos here]
      rintro ⟨⟩
      exact here ▸ m.tally heeds
    · rw [if_neg here]
      intro found
      obtain ⟨old, found, cast⟩ := m.kept.released_cast found
      obtain ⟨le, eq_iff⟩ := m.tallies b old found
      constructor
      · rwa [supporters_concat_other (Ne.symm here), cast]
      · rw [supporters_concat_other (Ne.symm here), cast, eq_iff, revived_concat]
        simp [Ne.symm here]
  short b := by
    by_cases here : x.ballot = b
    · subst here
      exact fun _ => more
    · rw [supporters_concat_other here]
      exact m.short b

/-- **One vote.**  The two go on side by side, or the archive resolves; then the learner does so
too, except for a revived ballot. -/
theorem Matches.receive (m : Matches l a) (x : Vote) :
    Matches (l.receive x).1 (a.receive x) ∨
      ∃ b, (a.receive x).resolution = some b ∧
        (¬ Revived (a.receive x).cast b → (l.receive x).1.finalBallot = some b) ∧
        (Revived (a.receive x).cast b → (l.receive x).1.resolution = none) := by
  have move := l.receive_move x
  generalize (l.receive x).1 = s at move ⊢
  generalize (l.receive x).2 = effects at move
  by_cases heeds : l.Heeds x
  swap
  · have stale := mt m.forward_iff.1 heeds
    rw [receive_stale m.ongoing stale]
    cases move with
    | ignore => exact .inl (m.ignore stale)
    | count counts | resolve counts => exact absurd counts heeds
  rw [receive_forward m.ongoing (m.forward_iff.2 heeds)]
  obtain ⟨le, eq_iff⟩ := m.tally heeds
  have quorum := m.quorum
  by_cases enough : a.quorum ≤ (supporters (a.cast ++ [x]) x.ballot).card
  · refine .inr ⟨x.ballot, if_pos enough, fun steady => ?_, fun revived => ?_⟩
    · have full := eq_iff.2 steady
      cases move with
      | ignore stale => exact absurd heeds stale
      | count _ short => omega
      | resolve => rfl
    · -- one supporter less was not enough, and the learner counts at most so many
      have short := m.short _ revived.earlier
      have size := m.supporters_card heeds
      have lost : (l.tally x).cast ≠ _ := mt eq_iff.1 (not_not.2 revived)
      cases move with
      | ignore | count => exact m.unresolved
      | resolve _ full => omega
  · rw [if_neg enough]
    left
    cases move with
    | ignore stale => exact absurd heeds stale
    | count => exact m.count heeds (not_le.1 enough)
    | resolve _ full => omega

end Matches

/-! ## Keeping pace -/

/-- After each of the votes, the learner has resolved just what the archive has. -/
def KeepsPace (quorum : Nat) (votes : List Vote) : Prop :=
  ∀ past, past <+: votes →
    ((Learner.start quorum).hear past).1.finalBallot = (hear { quorum } past).resolution

theorem keepsPace_concat (quorum : Nat) (votes : List Vote) (x : Vote) :
    KeepsPace quorum (votes ++ [x]) ↔ KeepsPace quorum votes ∧
      ((Learner.start quorum).hear (votes ++ [x])).1.finalBallot =
        (hear { quorum } (votes ++ [x])).resolution := by
  simp only [KeepsPace, List.prefix_concat_iff, or_imp, forall_and, forall_eq]
  exact and_comm

/-- The two are still side by side, or the archive has resolved, and it has outpaced the learner
just if the ballot was revived. -/
theorem hear_cases (quorum : Nat) (votes : List Vote) :
    (KeepsPace quorum votes ∧
      Matches ((Learner.start quorum).hear votes).1 (hear { quorum } votes)) ∨
    ∃ b, (hear { quorum } votes).resolution = some b ∧
      (KeepsPace quorum votes ↔ ¬ Revived (hear { quorum } votes).cast b) := by
  induction votes using List.reverseRecOn with
  | nil =>
    refine .inl ⟨fun past mem => ?_, matches_start quorum⟩
    rw [List.prefix_nil.1 mem]
    rfl
  | append_singleton votes x ih =>
    rw [keepsPace_concat, Learner.hear_concat, hear_concat]
    rcases ih with ⟨pace, m⟩ | ⟨b, resolved, pace⟩
    · simp only [pace, true_and]
      rcases m.receive x with m | ⟨b, resolved, steady, revived⟩
      · refine .inl ⟨?_, m⟩
        simp [Learner.finalBallot, m.unresolved, m.ongoing]
      · refine .inr ⟨b, resolved, ?_⟩
        rw [resolved]
        constructor
        · intro final revives
          simp [Learner.finalBallot, revived revives] at final
        · exact steady
    · refine .inr ⟨b, ?_⟩
      rw [receive_resolved resolved, resolved, ← pace]
      refine ⟨rfl, And.left, fun pace => ⟨pace, ?_⟩⟩
      -- the learner has resolved the same ballot, and ignores the vote as the archive does
      have final := pace votes List.prefix_rfl
      rw [resolved] at final
      have done : ((Learner.start quorum).hear votes).1.resolution ≠ none := by
        rintro none
        simp [Learner.finalBallot, none] at final
      rw [Learner.receive_resolved done, final]

/-- **What forgetting costs.**  The learner resolves what the archive does, and at the same vote, if
and only if the ballot that the archive resolves was not revived.  Until the archive resolves, the
learner does not resolve either, and the ballots it keeps no tally of are those abandoned; and at a
vote that makes the archive resolve a revived ballot, the learner does not resolve. -/
theorem keepsPace_iff (quorum : Nat) (votes : List Vote) :
    let a := hear { quorum } votes
    let l := ((Learner.start quorum).hear votes).1
    (KeepsPace quorum votes ↔ ∀ b, a.resolution = some b → ¬ Revived a.cast b) ∧
    (a.resolution = none → l.resolution = none ∧
      (∀ b, l.tallies.lookup b = none ↔ Abandoned a.cast b) ∧
      ∀ x b, (a.receive x).resolution = some b → Revived (a.receive x).cast b →
        (l.receive x).1.resolution = none) := by
  intro a l
  rcases hear_cases quorum votes with ⟨pace, m⟩ | ⟨b, resolved, pace⟩
  · have ongoing : a.resolution = none := m.ongoing
    refine ⟨by simp [pace, ongoing], fun _ => ⟨m.unresolved, fun b => (m.abandoned_iff b).symm, ?_⟩⟩
    intro x b resolved revives
    rcases m.receive x with m | ⟨c, resolved', -, revived⟩
    · exact m.unresolved
    · cases resolved.symm.trans resolved'
      exact revived revives
  · have done : a.resolution = some b := resolved
    simp [pace, done, a]

/-- Two acceptors have voted for the ballot, but the first one had left it, and taken its count
away, before the second one came. -/
theorem abandoned_vote_outpaced :
    ¬ KeepsPace 2 [⟨"a", ⟨1, "p"⟩, "x"⟩, ⟨"a", ⟨2, "q"⟩, "y"⟩, ⟨"b", ⟨1, "p"⟩, "x"⟩] := by
  intro pace
  have same := pace _ List.prefix_rfl
  revert same
  decide

end Archive

end Synod
