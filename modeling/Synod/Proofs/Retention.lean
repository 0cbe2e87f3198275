/-
Synod.Proofs.Retention -- which tallies a learner keeps

An acceptor that votes again takes its latest vote away from the ballot it was for, and the last
one to do so takes the ballot's tally away.  So the ballots that have a tally are exactly those
that somebody's latest vote is for, and each tally knows how many acceptors these are (`Kept`).
-/
import Mathlib.Data.Finset.Card
import Mathlib.Data.Finset.Dedup
import Synod.Proofs.Verdict

namespace Synod

set_option autoImplicit false

/-- A tally with one latest vote less; the last one takes the tally away. -/
def Tally.dropped (t : Tally) : Option Tally :=
  if t.retained ≤ 1 then none else some { t with retained := t.retained - 1 }

theorem Tally.dropped_cast {t s : Tally} (dropped : t.dropped = some s) : s.cast = t.cast := by
  unfold Tally.dropped at dropped
  split at dropped <;> cases dropped
  rfl

theorem assign_distinct {α β : Type} [DecidableEq α] {pairs : List (α × β)}
    (distinct : (pairs.map Prod.fst).Nodup) (key : α) (value : β) :
    ((assign pairs key value).map Prod.fst).Nodup := by
  have others : ((pairs.filter fun pair => pair.1 ≠ key).map Prod.fst).Nodup :=
    distinct.sublist (List.filter_sublist.map _)
  rw [assign, List.map_append]
  refine List.nodup_append.2 ⟨others, by simp, ?_⟩
  rintro k old _ last rfl
  obtain ⟨pair, kept, rfl⟩ := List.mem_map.1 old
  have other : pair.1 ≠ key := by simpa using (List.mem_filter.1 kept).2
  exact other (by simpa using last)

namespace Learner

/-! ## Tallies that lose a vote -/

theorem withdraw_cons (c : Ballot) (t : Tally) (rest : List (Ballot × Tally)) (b : Ballot) :
    withdraw ((c, t) :: rest) b =
      ((if c = b then t.dropped else some t).map (c, ·)).toList ++ withdraw rest b := by
  unfold withdraw Tally.dropped
  rw [List.filterMap_cons]
  by_cases here : c = b
  · by_cases last : t.retained ≤ 1 <;> simp [here, last]
  · simp [here]

theorem withdraw_ballots (tallies : List (Ballot × Tally)) (b : Ballot) :
    ((withdraw tallies b).map Prod.fst).Sublist (tallies.map Prod.fst) := by
  induction tallies with
  | nil => exact List.Sublist.refl _
  | cons pair rest ih =>
    obtain ⟨c, t⟩ := pair
    rw [withdraw_cons]
    cases (if c = b then t.dropped else some t) with
    | none => exact ih.cons c
    | some _ => exact ih.cons_cons c

theorem lookup_withdraw {tallies : List (Ballot × Tally)}
    (distinct : (tallies.map Prod.fst).Nodup) (b c : Ballot) :
    (withdraw tallies b).lookup c =
      (tallies.lookup c).bind fun t => if c = b then t.dropped else some t := by
  induction tallies with
  | nil => rfl
  | cons pair rest ih =>
    obtain ⟨d, t⟩ := pair
    obtain ⟨new, distinct⟩ := List.nodup_cons.1 distinct
    have ih := ih distinct
    rw [withdraw_cons, List.lookup_append, ih]
    by_cases here : c = d
    · -- the ballot has no second tally that could come to light
      subst here
      have none : rest.lookup c = none := by
        rw [List.lookup_eq_none_iff]
        intro pair mem
        have other : c ≠ pair.1 := fun same => new (List.mem_map.2 ⟨pair, mem, same.symm⟩)
        simpa using other
      rw [none]
      cases kept : (if c = b then t.dropped else some t) <;> simp [kept]
    · have other : (c == d) = false := beq_eq_false_iff_ne.2 here
      cases (if d = b then t.dropped else some t) <;> simp [List.lookup_cons, other]

/-! ## Latest votes -/

/-- The acceptors whose latest vote is for the ballot. -/
def holders (votes : List (NodeId × Ballot)) (b : Ballot) : Finset NodeId :=
  (votes.map Prod.fst).toFinset.filter fun r => votes.lookup r = some b

section Holders

variable {votes : List (NodeId × Ballot)} {b c : Ballot} {r : NodeId}

theorem mem_holders : r ∈ holders votes b ↔ votes.lookup r = some b := by
  unfold holders
  rw [Finset.mem_filter, and_iff_right_iff_imp]
  intro latest
  obtain ⟨before, after, split, -⟩ := List.lookup_eq_some_iff.1 latest
  simp [split]

theorem holders_assign : holders (assign votes r b) b = insert r (holders votes b) := by
  ext s
  by_cases own : s = r <;> simp [mem_holders, lookup_assign, own]

theorem holders_assign_other (other : c ≠ b) :
    holders (assign votes r b) c = (holders votes c).erase r := by
  ext s
  by_cases own : s = r <;> simp [mem_holders, lookup_assign, own, other.symm]

end Holders

/-- One tally for each ballot that has holders, and it counts them. -/
structure Kept (l : Learner) : Prop where
  distinct : (l.tallies.map Prod.fst).Nodup
  retained : ∀ b, (l.tallies.lookup b).map Tally.retained =
    if holders l.votes b = ∅ then none else some (holders l.votes b).card

theorem kept_start (quorum : Nat) : (start quorum).Kept where
  distinct := List.nodup_nil
  retained b := by simp [start, holders]

section Kept

variable {l : Learner} {x : Vote}

theorem Kept.lookup_eq_none (kept : l.Kept) (b : Ballot) :
    l.tallies.lookup b = none ↔ ∀ r, l.votes.lookup r ≠ some b := by
  have retained := kept.retained b
  rw [← Option.map_eq_none_iff (f := Tally.retained), retained]
  simp [Finset.eq_empty_iff_forall_notMem, mem_holders]

theorem Kept.retained_eq (kept : l.Kept) {b : Ballot} {t : Tally}
    (found : l.tallies.lookup b = some t) : t.retained = (holders l.votes b).card := by
  have retained := kept.retained b
  rw [found] at retained
  split at retained
  · cases retained
  · exact Option.some.inj retained

theorem Kept.released (kept : l.Kept) (r : NodeId) (c : Ballot) :
    (l.released r).lookup c = (l.tallies.lookup c).bind fun t =>
      if l.votes.lookup r = some c then t.dropped else some t := by
  unfold Learner.released
  split
  · next b latest =>
    rw [latest, lookup_withdraw kept.distinct]
    simp [eq_comm]
  · next none => simp [none]

/-- A vote taken away leaves what was ever cast for the ballot. -/
theorem Kept.released_cast (kept : l.Kept) {r : NodeId} {c : Ballot} {t : Tally}
    (found : (l.released r).lookup c = some t) :
    ∃ old, l.tallies.lookup c = some old ∧ t.cast = old.cast := by
  rw [kept.released] at found
  obtain ⟨old, before, found⟩ := Option.bind_eq_some_iff.1 found
  refine ⟨old, before, ?_⟩
  split at found
  · exact Tally.dropped_cast found
  · cases found
    rfl

/-- A vote that counts adds to the tally of its ballot, or begins one. -/
theorem Kept.tally_eq (kept : l.Kept) (heeds : l.Heeds x) :
    l.tally x = match l.tallies.lookup x.ballot with
      | some t => { t with cast := t.cast + 1, retained := t.retained + 1 }
      | none => { cast := 1, retained := 1, value := x.value } := by
  have new : l.votes.lookup x.voter ≠ some x.ballot := heeds.forward.ne
  have same : (l.released x.voter).lookup x.ballot = l.tallies.lookup x.ballot := by
    rw [kept.released]
    simp [new]
  cases found : l.tallies.lookup x.ballot <;> simp [tally, counted, same, found]

theorem Kept.tally_retained (kept : l.Kept) (heeds : l.Heeds x) :
    (l.tally x).retained = (insert x.voter (holders l.votes x.ballot)).card := by
  have new : x.voter ∉ holders l.votes x.ballot := fun old => heeds.forward.ne (mem_holders.1 old)
  rw [kept.tally_eq heeds, Finset.card_insert_of_notMem new]
  split
  · next t found => simp [kept.retained_eq found]
  · next none =>
    have empty : holders l.votes x.ballot = ∅ := by
      rw [Finset.eq_empty_iff_forall_notMem]
      exact fun r mem => (kept.lookup_eq_none _).1 none r (mem_holders.1 mem)
    simp [empty]

theorem Kept.released_retained (kept : l.Kept) (r : NodeId) (c : Ballot) :
    ((l.released r).lookup c).map Tally.retained =
      if (holders l.votes c).erase r = ∅ then none else some ((holders l.votes c).erase r).card := by
  have retained := kept.retained c
  rw [kept.released]
  by_cases left : l.votes.lookup r = some c
  · have held : r ∈ holders l.votes c := mem_holders.2 left
    have size := Finset.card_erase_of_mem held
    rw [if_neg (Finset.nonempty_iff_ne_empty.1 ⟨r, held⟩)] at retained
    obtain ⟨t, found, count⟩ := Option.map_eq_some_iff.1 retained
    have last : (holders l.votes c).erase r = ∅ ↔ t.retained ≤ 1 := by
      rw [← Finset.card_eq_zero, size, count]
      omega
    by_cases one : t.retained ≤ 1
    · simp [found, left, Tally.dropped, one, last.2 one]
    · rw [if_neg (mt last.1 one), found, size, ← count]
      simp [left, Tally.dropped, one]
  · have stays : r ∉ holders l.votes c := fun held => left (mem_holders.1 held)
    rw [Finset.erase_eq_of_notMem stays, ← retained]
    simp [left]

/-- **Every vote keeps the tallies of the ballots that have holders.** -/
theorem Kept.move {s : Learner} {effects : List Effect} (kept : l.Kept)
    (move : Move l x s effects) : s.Kept := by
  cases move with
  | ignore => exact kept
  | resolve => exact ⟨List.nodup_nil, fun b => by simp [holders]⟩
  | count heeds =>
    refine ⟨assign_distinct ?_ _ _, fun c => ?_⟩
    · unfold Learner.released
      split
      · exact kept.distinct.sublist (withdraw_ballots _ _)
      · exact kept.distinct
    · simp only [lookup_assign]
      by_cases here : c = x.ballot
      · rw [if_pos here, here, holders_assign, if_neg (Finset.insert_ne_empty _ _)]
        exact congrArg some (kept.tally_retained heeds)
      · rw [if_neg here, holders_assign_other here]
        exact kept.released_retained x.voter c

end Kept

end Learner

end Synod
