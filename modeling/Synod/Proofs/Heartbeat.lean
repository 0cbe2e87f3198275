/-
Synod.Proofs.Heartbeat -- heartbeats in any order

A node that does not lead keeps the highest leader ballot it has heard of, and the instant at
which it last heard of it; lower ballots leave it as it is (`heard_of_lt`).  So of two heartbeats
of one instant, the lower one leaves no trace, be it the first (`heard_overrules`) or the second
(`heard_absorbs`), and of a whole list only its highest ballot counts (`hear_highest`).

A ballot must not come in under two names, since a node follows the name that it hears first.
-/
import Mathlib.Data.List.MinMax
import Synod.Proofs.Leadership
import Synod.Proofs.Redelivery

namespace Synod

set_option autoImplicit false

/-- Who sends a heartbeat, and the ballot it carries. -/
structure Beat where
  source : NodeId
  ballot : Ballot
deriving DecidableEq, Repr

namespace Node

variable {n : Node} {now : Nat} {x y : Beat} {beats : List Beat}

/-- A node once it has heard a heartbeat. -/
def heard (n : Node) (now : Nat) (x : Beat) : Node :=
  (n.step now (.receive (.heartbeat x.source x.ballot))).1

/-- A node once it has heard some heartbeats, all at one instant. -/
def hear (n : Node) (now : Nat) (beats : List Beat) : Node :=
  (n.run (beats.map fun x => (now, .receive (.heartbeat x.source x.ballot)))).1

theorem hear_cons (n : Node) (now : Nat) (x : Beat) (beats : List Beat) :
    n.hear now (x :: beats) = (n.heard now x).hear now beats := by
  simp only [hear, List.map_cons, run_cons]
  rfl

/-! ## One heartbeat -/

theorem heard_follows (follows : n.leading = false) (now : Nat) (x : Beat) :
    (n.heard now x).leading = false := by
  have seat := congrArg Seat.leading (n.receiveHeartbeat_seat now x.source x.ballot)
  split at seat
  · exact seat.trans (by rw [follows]; rfl)
  · exact seat.trans follows

/-- A higher ballot is adopted, with its sender. -/
theorem heard_of_gt (follows : n.leading = false) (outranked : n.Outranked x.ballot) :
    n.heard now x = { n with
      acquiring := false, leader := some x.source, leaderBallot := some x.ballot,
      lastHeartbeat := now } := by
  have leader : ¬ (n.leading = true ∧ x.source ≠ n.id) := by simp [follows]
  show (n.receiveHeartbeat now x.source x.ballot).1 = _
  simp only [receiveHeartbeat, if_pos outranked.1, if_pos outranked.2, follow, if_neg leader,
    refresh, if_true]

/-- The known ballot is proof of life, whoever sends it. -/
theorem heard_of_eq (valid : x.ballot.Valid) (known : n.leaderBallot = some x.ballot) :
    n.heard now x = { n with lastHeartbeat := now } := by
  have stale : ¬ Ballot.Exceeds (some x.ballot) n.leaderBallot := by
    rw [known]
    exact Ballot.lt_irrefl x.ballot
  show (n.receiveHeartbeat now x.source x.ballot).1 = _
  rw [receiveHeartbeat_stale valid stale, refresh, if_pos known]

theorem receiveHeartbeat_of_lt {source : NodeId} {b : Ballot} (lower : some b < n.leaderBallot) :
    n.receiveHeartbeat now source b = (n, []) := by
  by_cases valid : b.Valid
  · have stale := Ballot.not_exceeds_iff.2 lower.le
    rw [receiveHeartbeat_stale valid stale, refresh, if_neg lower.ne']
  · rw [receiveHeartbeat, if_neg valid]

theorem heard_of_lt (lower : some x.ballot < n.leaderBallot) : n.heard now x = n :=
  congrArg Prod.fst (receiveHeartbeat_of_lt lower)

/-- A node knows of a ballot at least as high as the one it has just heard; and if it knows of
that very ballot, it has just heard of it. -/
theorem heard_ballot (follows : n.leading = false) (valid : x.ballot.Valid) (now : Nat) :
    some x.ballot ≤ (n.heard now x).leaderBallot ∧
      ((n.heard now x).leaderBallot = some x.ballot → (n.heard now x).lastHeartbeat = now) := by
  rcases lt_trichotomy (some x.ballot) n.leaderBallot with lower | known | higher
  · rw [heard_of_lt lower]
    exact ⟨lower.le, fun same => absurd same lower.ne'⟩
  · rw [heard_of_eq valid known.symm]
    exact ⟨known.le, fun _ => rfl⟩
  · rw [heard_of_gt follows ⟨valid, Ballot.exceeds_iff.2 higher⟩]
    exact ⟨le_rfl, fun _ => rfl⟩

/-! ## Two heartbeats of one instant -/

/-- After a heartbeat, one of no higher ballot changes nothing. -/
theorem heard_absorbs (follows : n.leading = false) (valid : x.ballot.Valid)
    (le : y.ballot ≤ x.ballot) : (n.heard now x).heard now y = n.heard now x := by
  obtain ⟨reached, recent⟩ := heard_ballot follows valid now
  generalize n.heard now x = m at reached recent
  rcases le.lt_or_eq with lower | same
  · exact heard_of_lt ((Option.some_lt_some.2 lower).trans_le reached)
  · rw [← same] at valid reached recent
    rcases reached.lt_or_eq with lower | known
    · exact heard_of_lt lower
    · rw [heard_of_eq valid known.symm, ← recent known.symm]

/-- Before a heartbeat, one of no higher ballot makes no difference. -/
theorem heard_overrules (follows : n.leading = false) (validx : x.ballot.Valid)
    (valid : y.ballot.Valid) (le : x.ballot ≤ y.ballot)
    (owned : x.ballot = y.ballot → x.source = y.source) :
    (n.heard now x).heard now y = n.heard now y := by
  rcases le.lt_or_eq with lower | same
  · have lower : some x.ballot < some y.ballot := Option.some_lt_some.2 lower
    by_cases higher : n.leaderBallot < some y.ballot
    · -- all that the first heartbeat may set is set again
      have outranked : n.Outranked y.ballot := ⟨valid, Ballot.exceeds_iff.2 higher⟩
      rw [heard_of_gt follows outranked]
      rcases lt_trichotomy (some x.ballot) n.leaderBallot with below | known | above
      · rw [heard_of_lt below, heard_of_gt follows outranked]
      · rw [heard_of_eq validx known.symm]
        exact heard_of_gt follows outranked
      · rw [heard_of_gt follows ⟨validx, Ballot.exceeds_iff.2 above⟩]
        exact heard_of_gt follows ⟨valid, Ballot.exceeds_iff.2 lower⟩
    · rw [heard_of_lt (lower.trans_le (not_lt.1 higher))]
  · have equal : x = y := by
      cases x
      cases y
      cases same
      cases owned rfl
      rfl
    rw [equal]
    exact heard_absorbs follows valid le_rfl

/-! ## Heartbeats of one instant -/

theorem hear_absorbed (follows : n.leading = false) (valid : x.ballot.Valid)
    (le : ∀ y ∈ beats, y.ballot ≤ x.ballot) : (n.heard now x).hear now beats = n.heard now x := by
  induction beats with
  | nil => rfl
  | cons y beats ih =>
    rw [hear_cons, heard_absorbs follows valid (le y List.mem_cons_self)]
    exact ih fun z mem => le z (List.mem_cons_of_mem y mem)

/-- **Only the highest ballot counts.** -/
theorem hear_highest (follows : n.leading = false) (valid : ∀ y ∈ beats, y.ballot.Valid)
    (mem : x ∈ beats) (le : ∀ y ∈ beats, y.ballot ≤ x.ballot)
    (owned : ∀ y ∈ beats, y.ballot = x.ballot → y.source = x.source) :
    n.hear now beats = n.heard now x := by
  induction beats generalizing n with
  | nil => cases mem
  | cons y beats ih =>
    rw [hear_cons]
    rcases List.mem_cons.1 mem with rfl | mem
    · exact hear_absorbed follows (valid x List.mem_cons_self) fun z mem =>
        le z (List.mem_cons_of_mem x mem)
    · have rest := ih (heard_follows follows now y)
        (fun z mem => valid z (List.mem_cons_of_mem y mem)) mem
        (fun z mem => le z (List.mem_cons_of_mem y mem))
        (fun z mem => owned z (List.mem_cons_of_mem y mem))
      rw [rest]
      exact heard_overrules follows (valid y List.mem_cons_self)
        (valid x (List.mem_cons_of_mem y mem)) (le y List.mem_cons_self)
        (owned y List.mem_cons_self)

theorem heard_leader (n : Node) (now : Nat) (x : Beat) :
    (n.heard now x).leader = if n.Outranked x.ballot then some x.source else n.leader := by
  have seat := congrArg Seat.leader (n.receiveHeartbeat_seat now x.source x.ballot)
  exact seat.trans (apply_ite Seat.leader _ _ _)

theorem exists_highest (beats : List Beat) :
    beats = [] ∨ ∃ top ∈ beats, ∀ x ∈ beats, x.ballot ≤ top.ballot := by
  cases most : beats.argmax Beat.ballot with
  | none => exact .inl (List.argmax_eq_none.1 most)
  | some top =>
    exact .inr ⟨top, List.argmax_mem most, fun x mem => List.le_of_mem_argmax mem most⟩

/-- **The order of heartbeats does not matter to a follower**, nor how often each of them comes.
It then takes the sender of the highest ballot for the leader, if that exceeds the ballot it knew,
and otherwise whom it took for the leader before. -/
theorem hear_order (follows : n.leading = false) (valid : ∀ x ∈ beats, x.ballot.Valid)
    (owned : ∀ x ∈ beats, ∀ y ∈ beats, x.ballot = y.ballot → x.source = y.source) (now : Nat) :
    (∀ others : List Beat, (∀ x, x ∈ others ↔ x ∈ beats) →
      n.hear now others = n.hear now beats) ∧
    (∀ top ∈ beats, (∀ x ∈ beats, x.ballot ≤ top.ballot) →
      Ballot.Exceeds (some top.ballot) n.leaderBallot →
      (n.hear now beats).leader = some top.source) ∧
    ((∀ x ∈ beats, ¬ Ballot.Exceeds (some x.ballot) n.leaderBallot) →
      (n.hear now beats).leader = n.leader) := by
  have highest {top : Beat} (mem : top ∈ beats) (le : ∀ x ∈ beats, x.ballot ≤ top.ballot) :
      n.hear now beats = n.heard now top :=
    hear_highest follows valid mem le fun x memx => owned x memx top mem
  refine ⟨fun others same => ?_, fun top mem le higher => ?_, fun low => ?_⟩
  · rcases exists_highest beats with rfl | ⟨top, mem, le⟩
    · have empty : others = [] := List.eq_nil_iff_forall_not_mem.2 fun x memx =>
        List.not_mem_nil ((same x).1 memx)
      rw [empty]
    · rw [highest mem le]
      exact hear_highest follows (fun x memx => valid x ((same x).1 memx)) ((same top).2 mem)
        (fun x memx => le x ((same x).1 memx)) fun x memx => owned x ((same x).1 memx) top mem
  · rw [highest mem le, heard_leader, if_pos ⟨valid top mem, higher⟩]
  · rcases exists_highest beats with rfl | ⟨top, mem, le⟩
    · rfl
    · rw [highest mem le, heard_leader, if_neg fun outranked => low top mem outranked.2]

/-- A node that follows `b`, and then hears of lower, equal and higher ballots, some of them more
than once. -/
theorem hear_order_shuffled :
    let n := (Node.start { id := "a", quorum := 2 } 0).heard 0 ⟨"b", ⟨3, "b"⟩⟩
    let beats : List Beat := [⟨"c", ⟨2, "c"⟩⟩, ⟨"d", ⟨5, "d"⟩⟩, ⟨"b", ⟨3, "b"⟩⟩, ⟨"b", ⟨4, "b"⟩⟩]
    let others : List Beat :=
      [⟨"b", ⟨4, "b"⟩⟩, ⟨"b", ⟨3, "b"⟩⟩, ⟨"d", ⟨5, "d"⟩⟩, ⟨"c", ⟨2, "c"⟩⟩, ⟨"d", ⟨5, "d"⟩⟩]
    n.hear 7 others = n.hear 7 beats ∧ (n.hear 7 beats).leader = some "d" := by
  intro n beats others
  have order := @hear_order n beats (by decide +kernel) (by decide +kernel) (by decide +kernel) 7
  refine ⟨order.1 others fun x => ?_, order.2.1 ⟨"d", ⟨5, "d"⟩⟩ ?_ ?_ ?_⟩
  · simp only [others, beats, List.mem_cons, List.not_mem_nil]
    tauto
  · decide +kernel
  · decide +kernel
  · decide +kernel

end Node

end Synod
