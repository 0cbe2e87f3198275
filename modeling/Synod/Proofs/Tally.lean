/-
Synod.Proofs.Tally -- a learner counts each acceptor once

A learner hears votes, each under its acceptor's name, and any of them any number of
times.  The count of a ballot is matched by as many different acceptors that voted for
it (`Backed`), although counts are dropped and begun again: an acceptor is counted for
a ballot only when that moves it forward, so never twice.  Hence what a learner
resolves, a quorum has voted for (`Learner.receiveAccepted_counts`).
-/
import Synod.Learner
import Synod.Proofs.History

namespace Synod

set_option autoImplicit false

/-- Different acceptors voted for a ballot, `n` of them, and one for this value. -/
structure Backed (votes : List Vote) (b : Ballot) (v : Value) (n : Nat) (q : List NodeId) :
    Prop where
  nodup : q.Nodup
  size : q.length = n
  voted : ∀ r ∈ q, ∃ w, { voter := r, ballot := b, value := w } ∈ votes
  named : ∃ r, { voter := r, ballot := b, value := v } ∈ votes

theorem Backed.mono {votes more : List Vote} (sub : votes ⊆ more) {b : Ballot} {v : Value}
    {n : Nat} {q : List NodeId} (backed : Backed votes b v n q) : Backed more b v n q where
  nodup := backed.nodup
  size := backed.size
  voted r mem := (backed.voted r mem).imp fun _ hw => sub hw
  named := backed.named.imp fun _ hr => sub hr

/-- One more acceptor. -/
theorem Backed.cons {votes : List Vote} {b : Ballot} {v w : Value} {n : Nat}
    {q : List NodeId} {r : NodeId} (backed : Backed votes b v n q) (new : r ∉ q)
    (vote : { voter := r, ballot := b, value := w } ∈ votes) :
    Backed votes b v (n + 1) (r :: q) where
  nodup := List.nodup_cons.2 ⟨new, backed.nodup⟩
  size := by rw [List.length_cons, backed.size]
  voted := by
    intro s mem
    rcases List.mem_cons.1 mem with rfl | mem
    · exact ⟨w, vote⟩
    · exact backed.voted s mem
  named := backed.named

theorem backed_one {votes : List Vote} {b : Ballot} {v : Value} {r : NodeId}
    (vote : { voter := r, ballot := b, value := v } ∈ votes) : Backed votes b v 1 [r] where
  nodup := by simp
  size := rfl
  voted := by
    intro s mem
    rw [List.mem_singleton.1 mem]
    exact ⟨v, vote⟩
  named := ⟨r, vote⟩

namespace Learner

/-! ## Tallies that lose a vote -/

theorem mem_withdraw {tallies : List (Ballot × Tally)} {b c : Ballot} {t : Tally}
    (mem : (c, t) ∈ withdraw tallies b) :
    ∃ t', (c, t') ∈ tallies ∧ t.cast = t'.cast ∧ t.value = t'.value := by
  obtain ⟨⟨d, t'⟩, mem', found⟩ := List.mem_filterMap.1 mem
  simp only at found
  split at found
  · split at found
    · simp at found
    · cases found
      exact ⟨t', mem', rfl, rfl⟩
  · cases found
    exact ⟨_, mem', rfl, rfl⟩

theorem mem_released {l : Learner} {source : NodeId} {c : Ballot} {t : Tally}
    (mem : (c, t) ∈ l.released source) :
    ∃ t', (c, t') ∈ l.tallies ∧ t.cast = t'.cast ∧ t.value = t'.value := by
  unfold released at mem
  split at mem
  · exact mem_withdraw mem
  · exact ⟨t, mem, rfl, rfl⟩

theorem counted_cases (tallies : List (Ballot × Tally)) (b : Ballot) (v : Value) :
    (∃ t, (b, t) ∈ tallies ∧ (counted tallies b v).cast = t.cast + 1 ∧
      (counted tallies b v).value = t.value) ∨
    (counted tallies b v).cast = 1 ∧ (counted tallies b v).value = v := by
  unfold counted
  split
  · next t found =>
    obtain ⟨before, after, same, -⟩ := List.lookup_eq_some_iff.1 found
    exact .inl ⟨t, by simp [same], rfl, rfl⟩
  · exact .inr ⟨rfl, rfl⟩

/-! ## Counting -/

/-- Each acceptor behind a tally has its latest vote at that ballot or above it. -/
structure Counts (votes : List Vote) (l : Learner) : Prop where
  tally : ∀ b t, (b, t) ∈ l.tallies → ∃ q, Backed votes b t.value t.cast q ∧
    ∀ r ∈ q, some b ≤ l.votes.lookup r
  resolved : ∀ b v, l.resolution = some (b, v) →
    ∃ n q, l.quorum ≤ n ∧ Backed votes b v n q

theorem counts_start (votes : List Vote) (quorum : Nat) : (start quorum).Counts votes where
  tally := by simp [start]
  resolved := by simp [start]

theorem Counts.mono {votes more : List Vote} (sub : votes ⊆ more) {l : Learner}
    (counts : l.Counts votes) : l.Counts more where
  tally b t mem := by
    obtain ⟨q, backed, latest⟩ := counts.tally b t mem
    exact ⟨q, backed.mono sub, latest⟩
  resolved b v found := by
    obtain ⟨n, q, enough, backed⟩ := counts.resolved b v found
    exact ⟨n, q, enough, backed.mono sub⟩

/-- The new count of the ballot just voted for. -/
theorem Counts.counted {votes : List Vote} {l : Learner} (counts : l.Counts votes)
    {source : NodeId} {b : Ballot} {v : Value}
    (vote : { voter := source, ballot := b, value := v } ∈ votes)
    (forward : l.votes.lookup source < some b) :
    ∃ q, Backed votes b (Learner.counted (l.released source) b v).value
        (Learner.counted (l.released source) b v).cast q ∧
      ∀ r ∈ q, r = source ∨ some b ≤ l.votes.lookup r := by
  rcases counted_cases (l.released source) b v with ⟨t, mem, cast, value⟩ | ⟨cast, value⟩
  · obtain ⟨t', mem', cast', value'⟩ := mem_released mem
    obtain ⟨q, backed, latest⟩ := counts.tally b t' mem'
    have new : source ∉ q := fun old => absurd (latest source old) (not_le.2 forward)
    refine ⟨source :: q, ?_, ?_⟩
    · rw [cast, value, cast', value']
      exact backed.cons new vote
    · intro r mem
      exact (List.mem_cons.1 mem).imp_right (latest r)
  · refine ⟨[source], ?_, ?_⟩
    · rw [cast, value]
      exact backed_one vote
    · intro r mem
      exact .inl (List.mem_singleton.1 mem)

/-- **Counting a vote keeps every count backed**, and what is resolved by it is backed by
a quorum. -/
theorem receiveAccepted_counts {votes : List Vote} {l : Learner} (counts : l.Counts votes)
    {source : NodeId} {b : Ballot} {v : Value}
    (vote : { voter := source, ballot := b, value := v } ∈ votes) :
    (l.receiveAccepted source b v).1.Counts votes ∧
      ∀ c w, .resolved c w ∈ (l.receiveAccepted source b v).2 →
        ∃ n q, l.quorum ≤ n ∧ Backed votes c w n q := by
  unfold receiveAccepted
  split
  · exact ⟨counts, by simp⟩
  · next accepted =>
    simp only [not_or, not_not, Ballot.exceeds_iff] at accepted
    obtain ⟨-, -, forward⟩ := accepted
    obtain ⟨q, backed, latest⟩ := counts.counted vote forward
    simp only
    split
    · next enough =>
      refine ⟨⟨by simp, ?_⟩, ?_⟩
      · intro c w same
        cases same
        exact ⟨_, q, enough, backed⟩
      · intro c w mem
        cases List.mem_singleton.1 mem
        exact ⟨_, q, enough, backed⟩
    · refine ⟨⟨?_, counts.resolved⟩, by simp⟩
      -- a vote that moves forward leaves its acceptor behind no ballot it was counted for
      have ahead : ∀ c, ∀ r, r = source ∧ c ≤ b ∨ some c ≤ l.votes.lookup r →
          some c ≤ (assign l.votes source b).lookup r := by
        intro c r behind
        rw [lookup_assign]
        split
        · next same =>
          rcases behind with ⟨-, le⟩ | le
          · exact Option.some_le_some.2 le
          · exact (same ▸ le).trans forward.le
        · next other => exact behind.resolve_left fun same => other same.1
      intro c t mem
      rcases mem_assign.1 mem with ⟨mem, -⟩ | ⟨rfl, rfl⟩
      · obtain ⟨t', mem', cast, value⟩ := mem_released mem
        obtain ⟨q', backed', latest'⟩ := counts.tally c t' mem'
        exact ⟨q', cast ▸ value ▸ backed', fun r hr => ahead c r (.inr (latest' r hr))⟩
      · refine ⟨q, backed, fun r hr => ahead c r ?_⟩
        exact (latest r hr).imp_left fun same => ⟨same, le_rfl⟩

theorem receiveAccepted_quorum (l : Learner) (source : NodeId) (b : Ballot) (v : Value) :
    (l.receiveAccepted source b v).1.quorum = l.quorum := by
  unfold receiveAccepted
  split
  · rfl
  · simp only
    split <;> rfl

/-- A resolution is an old one or is announced now. -/
theorem receiveAccepted_resolution {l : Learner} {source : NodeId} {b c : Ballot} {v w : Value}
    (found : (l.receiveAccepted source b v).1.resolution = some (c, w)) :
    l.resolution = some (c, w) ∨ .resolved c w ∈ (l.receiveAccepted source b v).2 := by
  unfold receiveAccepted at found ⊢
  split
  · next ignored => exact .inl (by rwa [if_pos ignored] at found)
  · next counted =>
    rw [if_neg counted] at found
    simp only at found ⊢
    split
    · next enough =>
      rw [if_pos enough] at found
      cases found
      exact .inr (List.mem_singleton_self _)
    · next short =>
      rw [if_neg short] at found
      exact .inl found

end Learner

/-- What a quorum backs is chosen: a ballot is used for one value. -/
theorem History.Lawful.chosen_of_backed {names : List NodeId} {quorum n : Nat}
    {voters : NodeId → Voter} {h : History} (lawful : h.Lawful names quorum voters)
    {b : Ballot} {v : Value} {q : List NodeId} (enough : quorum ≤ n)
    (backed : Backed h.votes b v n q) : h.Chosen names quorum b v := by
  obtain ⟨s, named⟩ := backed.named
  refine ⟨q, ⟨backed.nodup, fun r mem => ?_, backed.size ▸ enough⟩, fun r mem => ?_⟩
  · obtain ⟨w, vote⟩ := backed.voted r mem
    exact lawful.voter _ vote
  · obtain ⟨w, vote⟩ := backed.voted r mem
    have same := lawful.single b v w (lawful.asked _ named) (lawful.asked _ vote)
    exact same ▸ vote

end Synod
