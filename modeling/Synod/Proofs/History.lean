/-
Synod.Proofs.History -- what was promised, asked and voted, and why one value wins

A history collects every promise and vote that acceptors have sent and every request
for votes that was made.  `Lawful` ties it to the acceptors' durable state.  Two kinds
of steps keep it: a move of one voter (`Lawful.move`), and a new request, if its first
one for a ballot is `Justified` by a quorum of promises (`Lawful.ask`).

The heart is `Safe`: for every ballot below a requested one there is a quorum whose
members have voted for the requested value there or can no longer vote there.  Since
quorums meet, two chosen values are equal (`Lawful.chosen_unique`).
-/
import Mathlib.Data.List.Perm.Subperm
import Mathlib.Logic.Function.Basic
import Synod.Proofs.Voter

namespace Synod

set_option autoImplicit false

/-- A promise, and who gave it. -/
structure Promise where
  voter : NodeId
  ballot : Ballot
  accepted : Option Ballot
  value : Option Value
deriving DecidableEq, Repr

structure Vote where
  voter : NodeId
  ballot : Ballot
  value : Value
deriving DecidableEq, Repr

structure History where
  promises : List Promise := []
  requests : List (Ballot × Value) := []
  votes : List Vote := []
deriving DecidableEq, Repr

/-! ## Quorums -/

/-- Enough distinct names. -/
structure Quorum (names : List NodeId) (size : Nat) (q : List NodeId) : Prop where
  nodup : q.Nodup
  members : q ⊆ names
  enough : size ≤ q.length

theorem Quorum.meet {names q r : List NodeId} {size : Nat} (majority : names.length < 2 * size)
    (hq : Quorum names size q) (hr : Quorum names size r) : ∃ x ∈ q, x ∈ r := by
  by_contra apart
  have disjoint : ∀ x ∈ q, ∀ y ∈ r, x ≠ y := fun x xq y yr same => apart ⟨x, xq, same ▸ yr⟩
  have all : (q ++ r).Nodup := List.nodup_append.2 ⟨hq.nodup, hr.nodup, disjoint⟩
  have inside : q ++ r ⊆ names := List.append_subset.2 ⟨hq.members, hr.members⟩
  have small := (all.subperm inside).length_le
  have := hq.enough
  have := hr.enough
  rw [List.length_append] at small
  omega

namespace History

/-! ## Recording -/

def promise? (voter : NodeId) : Effect → Option Promise
  | .promise _ b accepted value => some { voter, ballot := b, accepted, value }
  | _ => none

def vote? (voter : NodeId) : Effect → Option Vote
  | .accepted _ b v => some { voter, ballot := b, value := v }
  | _ => none

/-- The history after a voter has sent these replies. -/
def record (h : History) (voter : NodeId) (effects : List Effect) : History :=
  { h with
    promises := h.promises ++ effects.filterMap (promise? voter)
    votes := h.votes ++ effects.filterMap (vote? voter) }

/-- The history after votes were asked for. -/
def ask (h : History) (b : Ballot) (v : Value) : History :=
  { h with requests := h.requests ++ [(b, v)] }

theorem mem_record_promises {h : History} {voter : NodeId} {effects : List Effect}
    {p : Promise} :
    p ∈ (h.record voter effects).promises ↔ p ∈ h.promises ∨ p.voter = voter ∧
      ∃ recipient, .promise recipient p.ballot p.accepted p.value ∈ effects := by
  simp only [record, List.mem_append, List.mem_filterMap]
  refine or_congr_right ⟨?_, ?_⟩
  · rintro ⟨e, mem, he⟩
    cases e <;> simp only [promise?, Option.some.injEq, reduceCtorEq] at he
    subst he
    exact ⟨rfl, _, mem⟩
  · rintro ⟨rfl, recipient, mem⟩
    exact ⟨_, mem, rfl⟩

theorem mem_record_votes {h : History} {voter : NodeId} {effects : List Effect} {x : Vote} :
    x ∈ (h.record voter effects).votes ↔ x ∈ h.votes ∨ x.voter = voter ∧
      ∃ recipient, .accepted recipient x.ballot x.value ∈ effects := by
  simp only [record, List.mem_append, List.mem_filterMap]
  refine or_congr_right ⟨?_, ?_⟩
  · rintro ⟨e, mem, he⟩
    cases e <;> simp only [vote?, Option.some.injEq, reduceCtorEq] at he
    subst he
    exact ⟨rfl, _, mem⟩
  · rintro ⟨rfl, recipient, mem⟩
    exact ⟨_, mem, rfl⟩

theorem mem_ask {h : History} {b c : Ballot} {v w : Value} :
    (c, w) ∈ (h.ask b v).requests ↔ (c, w) ∈ h.requests ∨ c = b ∧ w = v := by
  simp [ask]

/-- Nothing that was said is taken back. -/
structure Grows (h k : History) : Prop where
  promises : h.promises ⊆ k.promises
  requests : h.requests ⊆ k.requests
  votes : h.votes ⊆ k.votes

theorem Grows.refl (h : History) : Grows h h :=
  ⟨List.Subset.refl _, List.Subset.refl _, List.Subset.refl _⟩

theorem Grows.trans {h k l : History} (hk : Grows h k) (kl : Grows k l) : Grows h l :=
  ⟨List.Subset.trans hk.promises kl.promises, List.Subset.trans hk.requests kl.requests,
    List.Subset.trans hk.votes kl.votes⟩

theorem grows_record (h : History) (voter : NodeId) (effects : List Effect) :
    Grows h (h.record voter effects) :=
  ⟨List.subset_append_left _ _, List.Subset.refl _, List.subset_append_left _ _⟩

theorem grows_ask (h : History) (b : Ballot) (v : Value) : Grows h (h.ask b v) :=
  ⟨List.Subset.refl _, List.subset_append_left _ _, List.Subset.refl _⟩

/-! ## Safe ballots -/

section Safety

variable (names : List NodeId) (quorum : Nat) (voters : NodeId → Voter) (h : History)

/-- The voter has cast no vote for this ballot and never will. -/
def Barred (r : NodeId) (c : Ballot) : Prop :=
  some c < (voters r).durable.promised ∧ ∀ x ∈ h.votes, x.voter = r → x.ballot ≠ c

/-- No other value can be chosen at a lower ballot. -/
def Safe (b : Ballot) (v : Value) : Prop :=
  ∀ c < b, ∃ q, Quorum names quorum q ∧
    ∀ r ∈ q, { voter := r, ballot := c, value := v } ∈ h.votes ∨ Barred voters h r c

/-- A quorum voted for this value at this ballot. -/
def Chosen (b : Ballot) (v : Value) : Prop :=
  ∃ q, Quorum names quorum q ∧ ∀ r ∈ q, { voter := r, ballot := b, value := v } ∈ h.votes

/-- Why votes may be asked for: a quorum promised the ballot, and the value is one that
was reported with a vote at least as high as any these promises report, if they report
one. -/
def Justified (b : Ballot) (v : Value) : Prop :=
  ∃ given : List Promise, given ⊆ h.promises ∧ (given.map Promise.voter).Nodup ∧
    given.length = quorum ∧ (∀ p ∈ given, p.ballot = b) ∧
    ((∀ p ∈ given, p.accepted = none) ∨
      ∃ p ∈ h.promises, ∃ a, p.accepted = some a ∧ p.value = some v ∧ a < b ∧
        ∀ p' ∈ given, p'.accepted ≤ some a)

/-- How a history and the acceptors' state are related. -/
structure Lawful : Prop where
  sound : ∀ r ∈ names, (voters r).Sound
  promiser : ∀ p ∈ h.promises, p.voter ∈ names
  voter : ∀ x ∈ h.votes, x.voter ∈ names
  /-- A ballot is used for one value. -/
  single : ∀ b v w, (b, v) ∈ h.requests → (b, w) ∈ h.requests → v = w
  asked : ∀ x ∈ h.votes, (x.ballot, x.value) ∈ h.requests
  current : ∀ r ∈ names, ∀ b v, (voters r).acceptor.accepted = some b →
    (voters r).acceptor.value = some v → (b, v) ∈ h.requests
  announced : ∀ r ∈ names, ∀ b v, (voters r).durable.accepted = some b →
    (voters r).durable.value = some v → { voter := r, ballot := b, value := v } ∈ h.votes
  kept : ∀ x ∈ h.votes, some x.ballot ≤ (voters x.voter).durable.accepted
  /-- Until votes are asked for at its ballot, a promise is durable and reports all votes
  below it. -/
  honest : ∀ p ∈ h.promises, (∃ v, (p.ballot, v) ∈ h.requests) ∨
    some p.ballot ≤ (voters p.voter).durable.promised ∧
      ∀ x ∈ h.votes, x.voter = p.voter → x.ballot < p.ballot → some x.ballot ≤ p.accepted
  reported : ∀ p ∈ h.promises, ∀ a, p.accepted = some a →
    ∃ v, p.value = some v ∧ (a, v) ∈ h.requests ∧ a ≤ p.ballot
  safe : ∀ b v, (b, v) ∈ h.requests → Safe names quorum voters h b v

end Safety

variable {names : List NodeId} {quorum : Nat} {voters : NodeId → Voter} {h : History}

theorem lawful_start (now window : NodeId → Nat) :
    Lawful names quorum (fun r => Voter.start (now r) (window r)) {} where
  sound r _ := Voter.sound_start (now r) (window r)
  promiser := by simp
  voter := by simp
  single := by simp
  asked := by simp
  current := by simp [Voter.start, Acceptor.start]
  announced := by simp [Voter.start]
  kept := by simp
  honest := by simp
  reported := by simp
  safe := by simp

theorem Chosen.mono {k : History} (grows : Grows h k) {b : Ballot} {v : Value}
    (chosen : Chosen names quorum h b v) : Chosen names quorum k b v := by
  obtain ⟨q, quorate, voted⟩ := chosen
  exact ⟨q, quorate, fun r mem => grows.votes (voted r mem)⟩

/-- **Two chosen values are equal.** -/
theorem Lawful.chosen_unique (lawful : Lawful names quorum voters h)
    (majority : names.length < 2 * quorum) {b c : Ballot} {v w : Value}
    (hv : Chosen names quorum h b v) (hw : Chosen names quorum h c w) : v = w := by
  -- a lower chosen ballot has a voter in common with the quorum that makes the higher one safe
  have below : ∀ {b c : Ballot} {v w : Value}, b < c → Chosen names quorum h b v →
      Chosen names quorum h c w → v = w := by
    intro b c v w less ⟨q, hq, votes⟩ ⟨q', hq', votes'⟩
    obtain ⟨someone, there, -⟩ := hq'.meet majority hq'
    have requested := lawful.asked _ (votes' someone there)
    obtain ⟨s, hs, safe⟩ := lawful.safe c w requested b less
    obtain ⟨r, rq, rs⟩ := hq.meet majority hs
    rcases safe r rs with same | barred
    · exact lawful.single b v w (lawful.asked _ (votes r rq)) (lawful.asked _ same)
    · exact absurd rfl (barred.2 _ (votes r rq) rfl)
  rcases lt_trichotomy b c with less | same | more
  · exact below less hv hw
  · subst same
    obtain ⟨q, hq, votes⟩ := hv
    obtain ⟨q', hq', votes'⟩ := hw
    obtain ⟨r, rq, rq'⟩ := hq.meet majority hq'
    exact lawful.single b v w (lawful.asked _ (votes r rq)) (lawful.asked _ (votes' r rq'))
  · exact (below more hw hv).symm

/-! ## A move of one voter -/

section Move

variable {r : NodeId} {input : Voter.Input} {w : Voter} {effects : List Effect}

/-- Where a moved voter's vote comes from. -/
theorem Lawful.moved_current (lawful : Lawful names quorum voters h) (member : r ∈ names)
    (move : Voter.Move (voters r) input w effects)
    (requested : ∀ source b v, input = .accept source b v → (b, v) ∈ h.requests)
    {b : Ballot} {v : Value} (accepted : w.acceptor.accepted = some b)
    (value : w.acceptor.value = some v) : (b, v) ∈ h.requests := by
  cases move with
  | castVote =>
    cases accepted
    cases value
    exact requested _ _ _ rfl
  | restart => exact lawful.asked _ (lawful.announced r member b v accepted value)
  | _ => exact lawful.current r member b v accepted value

/-- A vote in the new history is an old one, or the voter has just made it durable and
its durable promise allowed it. -/
theorem Lawful.moved_votes (lawful : Lawful names quorum voters h) (member : r ∈ names)
    (move : Voter.Move (voters r) input w effects) {x : Vote}
    (mem : x ∈ (h.record r effects).votes) :
    x ∈ h.votes ∨ x.voter = r ∧ (voters r).durable.promised ≤ some x.ballot ∧
      w.durable.accepted = some x.ballot ∧ w.durable.value = some x.value := by
  rcases mem_record_votes.1 mem with old | ⟨rfl, recipient, sent⟩
  · exact .inl old
  · obtain ⟨accepted, value⟩ := move.vote_durable (lawful.sound _ member) sent
    rcases move.new_vote (lawful.sound _ member) accepted value with before | ⟨-, allowed⟩
    · exact .inl (lawful.announced _ member _ _ before.1 before.2)
    · exact .inr ⟨rfl, allowed, accepted, value⟩

theorem Lawful.moved_promised (lawful : Lawful names quorum voters h) (member : r ∈ names)
    (move : Voter.Move (voters r) input w effects) (n : NodeId) :
    (voters n).durable.promised ≤ (Function.update voters r w n).durable.promised := by
  by_cases same : n = r
  · subst same
    rw [Function.update_self]
    exact move.durable_promised_le (lawful.sound n member)
  · rw [Function.update_of_ne same]

theorem Lawful.moved_accepted (lawful : Lawful names quorum voters h) (member : r ∈ names)
    (move : Voter.Move (voters r) input w effects) (n : NodeId) :
    (voters n).durable.accepted ≤ (Function.update voters r w n).durable.accepted := by
  by_cases same : n = r
  · subst same
    rw [Function.update_self]
    exact move.durable_accepted_le (lawful.sound n member)
  · rw [Function.update_of_ne same]

/-- What was safe stays safe: whoever was barred from a ballot stays barred. -/
theorem Lawful.moved_safe (lawful : Lawful names quorum voters h) (member : r ∈ names)
    (move : Voter.Move (voters r) input w effects) {b : Ballot} {v : Value}
    (safe : Safe names quorum voters h b v) :
    Safe names quorum (Function.update voters r w) (h.record r effects) b v := by
  intro c less
  obtain ⟨q, hq, each⟩ := safe c less
  refine ⟨q, hq, fun n hn => ?_⟩
  rcases each n hn with voted | ⟨above, silent⟩
  · exact .inl ((grows_record h r effects).votes voted)
  · refine .inr ⟨above.trans_le (lawful.moved_promised member move n), fun x mem own => ?_⟩
    rcases lawful.moved_votes member move mem with old | ⟨by_r, allowed, -, -⟩
    · exact silent x old own
    · intro at_c
      subst at_c
      rw [← by_r, own] at allowed
      exact absurd above (not_lt.2 allowed)

/-- Until votes are asked for at its ballot, a promise that was honest stays so. -/
theorem Lawful.moved_honest (lawful : Lawful names quorum voters h) (member : r ∈ names)
    (move : Voter.Move (voters r) input w effects)
    (requested : ∀ source b v, input = .accept source b v → (b, v) ∈ h.requests)
    {p : Promise} (mem : p ∈ (h.record r effects).promises) :
    (∃ v, (p.ballot, v) ∈ h.requests) ∨
      some p.ballot ≤ (Function.update voters r w p.voter).durable.promised ∧
        ∀ x ∈ (h.record r effects).votes, x.voter = p.voter → x.ballot < p.ballot →
          some x.ballot ≤ p.accepted := by
  have sound := lawful.sound r member
  have after := move.sound sound
  rcases mem_record_promises.1 mem with old | ⟨own, recipient, sent⟩
  · refine (lawful.honest p old).imp_right fun ⟨promised, reports⟩ => ⟨?_, ?_⟩
    · exact promised.trans (lawful.moved_promised member move p.voter)
    · intro x xmem same less
      rcases lawful.moved_votes member move xmem with xold | ⟨by_r, allowed, -, -⟩
      · exact reports x xold same less
      · rw [← by_r, same] at allowed
        exact absurd (promised.trans allowed) (not_le.2 (Option.some_lt_some.2 less))
  · obtain ⟨promised, accepted, value, saved⟩ := move.promise_current sound sent
    rcases saved with saved | repeated
    · refine .inr ⟨by rw [own, Function.update_self, saved], fun x xmem same less => ?_⟩
      have kept : some x.ballot ≤ w.durable.accepted := by
        rcases lawful.moved_votes member move xmem with xold | ⟨-, -, now, -⟩
        · rw [own] at same
          exact (same ▸ lawful.kept x xold).trans (move.durable_accepted_le sound)
        · exact now.ge
      exact kept.trans (accepted ▸ after.accepted_le)
    · -- the prepare was repeated while the vote for its own ballot is held
      have voted : w.acceptor.value.isSome := by
        rw [← after.current.paired, accepted, repeated]
        rfl
      obtain ⟨v, hv⟩ := Option.isSome_iff_exists.1 voted
      exact .inl ⟨v, lawful.moved_current member move requested (accepted.trans repeated) hv⟩

/-- **A voter's move keeps the history lawful**, if it votes for nothing that was not
asked for. -/
theorem Lawful.move (lawful : Lawful names quorum voters h) (member : r ∈ names)
    (move : Voter.Move (voters r) input w effects)
    (requested : ∀ source b v, input = .accept source b v → (b, v) ∈ h.requests) :
    Lawful names quorum (Function.update voters r w) (h.record r effects) where
  sound n hn := by
    by_cases same : n = r
    · rw [same, Function.update_self]
      exact move.sound (lawful.sound r member)
    · rw [Function.update_of_ne same]
      exact lawful.sound n hn
  promiser p mem := by
    rcases mem_record_promises.1 mem with old | ⟨rfl, -⟩
    · exact lawful.promiser p old
    · exact member
  voter x mem := by
    rcases mem_record_votes.1 mem with old | ⟨rfl, -⟩
    · exact lawful.voter x old
    · exact member
  single := lawful.single
  asked x mem := by
    rcases lawful.moved_votes member move mem with old | ⟨rfl, -, accepted, value⟩
    · exact lawful.asked x old
    · cases move with
      | release => exact lawful.current _ member _ _ accepted value
      | _ => exact lawful.asked _ (lawful.announced _ member _ _ accepted value)
  current n hn b v accepted value := by
    by_cases same : n = r
    · rw [same, Function.update_self] at accepted value
      exact lawful.moved_current member move requested accepted value
    · rw [Function.update_of_ne same] at accepted value
      exact lawful.current n hn b v accepted value
  announced n hn b v accepted value := by
    by_cases same : n = r
    · subst same
      rw [Function.update_self] at accepted value
      rcases move.new_vote (lawful.sound n member) accepted value with before | ⟨sent, -⟩
      · exact (grows_record h n effects).votes (lawful.announced n hn b v before.1 before.2)
      · exact mem_record_votes.2 (.inr ⟨rfl, sent⟩)
    · rw [Function.update_of_ne same] at accepted value
      exact (grows_record h r effects).votes (lawful.announced n hn b v accepted value)
  kept x mem := by
    rcases lawful.moved_votes member move mem with old | ⟨own, -, accepted, -⟩
    · exact (lawful.kept x old).trans (lawful.moved_accepted member move x.voter)
    · rw [own, Function.update_self, accepted]
  honest p mem := lawful.moved_honest member move requested mem
  reported p mem a reports := by
    rcases mem_record_promises.1 mem with old | ⟨-, recipient, sent⟩
    · exact lawful.reported p old a reports
    · have after := (move.sound (lawful.sound r member)).current
      obtain ⟨promised, accepted, value, -⟩ := move.promise_current (lawful.sound r member) sent
      have named : w.acceptor.value.isSome := by
        rw [← after.paired, accepted, reports]
        rfl
      obtain ⟨v, hv⟩ := Option.isSome_iff_exists.1 named
      refine ⟨v, value ▸ hv,
        lawful.moved_current member move requested (accepted.trans reports) hv, ?_⟩
      have covered := after.covered
      rwa [accepted, reports, promised, Option.some_le_some] at covered
  safe b v mem := lawful.moved_safe member move (lawful.safe b v mem)

end Move

/-! ## A new request -/

/-- A justified ballot is safe: below the highest reported vote by induction, at it by
that vote, and above it because the quorum can vote there no more. -/
theorem Lawful.safe_of_justified (lawful : Lawful names quorum voters h) {b : Ballot}
    {v : Value} (first : ∀ w, (b, w) ∉ h.requests) (justified : Justified quorum h b v) :
    Safe names quorum voters h b v := by
  obtain ⟨given, sent, distinct, enough, at_b, value⟩ := justified
  have honest : ∀ p ∈ given, some b ≤ (voters p.voter).durable.promised ∧
      ∀ x ∈ h.votes, x.voter = p.voter → x.ballot < b → some x.ballot ≤ p.accepted := by
    intro p mem
    rcases lawful.honest p (sent mem) with ⟨w, asked⟩ | honest
    · exact absurd (at_b p mem ▸ asked) (first w)
    · rwa [at_b p mem] at honest
  have quorate : Quorum names quorum (given.map Promise.voter) := by
    refine ⟨distinct, fun r mem => ?_, by simp [enough]⟩
    obtain ⟨p, hp, rfl⟩ := List.mem_map.1 mem
    exact lawful.promiser p (sent hp)
  -- above every reported vote the promising quorum is barred
  have above : ∀ c < b, (∀ p ∈ given, p.accepted < some c) →
      ∀ r ∈ given.map Promise.voter, Barred voters h r c := by
    intro c less high r mem
    obtain ⟨p, hp, rfl⟩ := List.mem_map.1 mem
    obtain ⟨promised, reports⟩ := honest p hp
    refine ⟨(Option.some_lt_some.2 less).trans_le promised, fun x hx same at_c => ?_⟩
    subst at_c
    exact absurd (reports x hx same less) (not_le.2 (high p hp))
  intro c less
  rcases value with unreported | ⟨p, hp, a, reports, names_v, lower, highest⟩
  · refine ⟨_, quorate, fun r mem => .inr (above c less (fun p hp => ?_) r mem)⟩
    simp [unreported p hp]
  · obtain ⟨v', hv', requested, -⟩ := lawful.reported p hp a reports
    rw [names_v, Option.some.injEq] at hv'
    subst hv'
    rcases lt_trichotomy c a with beneath | same | higher
    · exact lawful.safe a v requested c beneath
    · subst same
      refine ⟨_, quorate, fun r mem => ?_⟩
      by_cases voted : ∃ x ∈ h.votes, x.voter = r ∧ x.ballot = c
      · obtain ⟨x, hx, rfl, rfl⟩ := voted
        have same := lawful.single _ _ _ requested (lawful.asked x hx)
        exact .inl (by rw [same]; exact hx)
      · obtain ⟨p', hp', rfl⟩ := List.mem_map.1 mem
        refine .inr ⟨(Option.some_lt_some.2 less).trans_le (honest p' hp').1, ?_⟩
        exact fun x hx own at_c => voted ⟨x, hx, own, at_c⟩
    · refine ⟨_, quorate, fun r mem => .inr (above c less (fun p' hp' => ?_) r mem)⟩
      exact (highest p' hp').trans_lt (Option.some_lt_some.2 higher)

/-- **A request keeps the history lawful**, if its ballot was asked for no other value
and its first request is justified. -/
theorem Lawful.ask (lawful : Lawful names quorum voters h) {b : Ballot} {v : Value}
    (same : ∀ w, (b, w) ∈ h.requests → w = v)
    (justified : (∀ w, (b, w) ∉ h.requests) → Justified quorum h b v) :
    Lawful names quorum voters (h.ask b v) where
  sound := lawful.sound
  promiser := lawful.promiser
  voter := lawful.voter
  single c x y hx hy := by
    rcases mem_ask.1 hx with oldx | ⟨rfl, rfl⟩
    · rcases mem_ask.1 hy with oldy | ⟨rfl, rfl⟩
      · exact lawful.single c x y oldx oldy
      · exact same x oldx
    · rcases mem_ask.1 hy with oldy | ⟨-, rfl⟩
      · exact (same y oldy).symm
      · rfl
  asked x mem := (grows_ask h b v).requests (lawful.asked x mem)
  current r member c w accepted value :=
    (grows_ask h b v).requests (lawful.current r member c w accepted value)
  announced := lawful.announced
  kept := lawful.kept
  honest p mem := (lawful.honest p mem).imp_left fun ⟨w, asked⟩ =>
    ⟨w, (grows_ask h b v).requests asked⟩
  reported p mem a reports := by
    obtain ⟨w, value, asked, le⟩ := lawful.reported p mem a reports
    exact ⟨w, value, (grows_ask h b v).requests asked, le⟩
  safe c w mem := by
    rcases mem_ask.1 mem with old | ⟨rfl, rfl⟩
    · exact lawful.safe c w old
    · by_cases asked : ∃ x, (c, x) ∈ h.requests
      · obtain ⟨x, hx⟩ := asked
        exact lawful.safe c w (same x hx ▸ hx)
      · exact lawful.safe_of_justified (not_exists.1 asked)
          (justified (not_exists.1 asked))

end History

end Synod
