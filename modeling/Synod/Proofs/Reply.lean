/-
Synod.Proofs.Reply -- what a voter's replies hold it to

A voter runs through any inputs, restarts among them, and its replies are listed in
order.  A vote that was announced holds for good: no later reply reports or announces a
lower one (`votes_kept`).

A promise of a ballot holds, too: no later promise is lower, and below its ballot no vote
is announced but the one that the promise itself reported (`promise_kept`).  That one may
be announced again and again, and even for the first time, with the promise.

There is one exception.  A prepare for the very ballot of a vote that is still held is
answered at once, with a promise that reports this vote.  If the voter then restarts before
it makes its snapshot durable, nothing is left of either (`hasty_promise_lost`).
-/
import Mathlib.Data.List.Pairwise
import Synod.Proofs.Voter

namespace Synod

set_option autoImplicit false

namespace Voter

variable {w w' : Voter} {input : Input} {effects : List Effect}

/-! ## Runs -/

def run (w : Voter) : List Input → Voter × List Effect
  | [] => (w, [])
  | i :: rest =>
    let r := w.step i
    let s := r.1.run rest
    (s.1, r.2 ++ s.2)

/-- A new voter comes to this through some inputs. -/
def Reachable (w : Voter) : Prop :=
  ∃ now window inputs, ((start now window).run inputs).1 = w

theorem Sound.step (sound : w.Sound) (i : Input) : (w.step i).1.Sound :=
  (step_move sound.active i).sound sound

theorem Sound.run (sound : w.Sound) (inputs : List Input) : (w.run inputs).1.Sound := by
  induction inputs generalizing w with
  | nil => exact sound
  | cons i rest ih => exact ih (sound.step i)

theorem Reachable.sound (reachable : w.Reachable) : w.Sound := by
  obtain ⟨now, window, inputs, rfl⟩ := reachable
  exact (sound_start now window).run inputs

/-! ## Nothing held -/

/-- With no reply held, the current snapshot is durable. -/
theorem Sound.durable_eq (sound : w.Sound) (idle : w.acceptor.persistenceRequired = false) :
    w.durable = w.acceptor.snapshot := by
  have free : w.acceptor.pendingPromise = none ∧ w.acceptor.pendingVote = none := by
    simpa [Acceptor.persistenceRequired] using idle
  obtain ⟨accepted, value⟩ := sound.settled free.2
  have promised : w.acceptor.promised = w.durable.promised := by
    rcases sound.promised free.1 with same | ⟨held, -⟩
    · exact same
    · exact absurd free.2 held
  show w.durable = w.acceptor.toSnapshot
  cases current : w.acceptor.toSnapshot with
  | mk p a v =>
    cases saved : w.durable with
    | mk p' a' v' =>
      simp only [current, saved] at promised accepted value
      rw [promised, accepted, value]

/-! ## Votes -/

/-- A reply that reports or announces no vote below this ballot. -/
def Upholds (b : Ballot) : Effect → Prop
  | .promise _ _ vote _ => some b ≤ vote
  | .accepted _ c _ => b ≤ c
  | _ => True

/-- Replies speak of votes that are not below the durable one. -/
theorem Move.upholds (move : Move w input w' effects) (sound : w.Sound) {b : Ballot}
    (durable : some b ≤ w'.durable.accepted) : ∀ e ∈ effects, Upholds b e := by
  intro e mem
  cases e with
  | promise recipient c vote value =>
    obtain ⟨-, current, -, -⟩ := move.promise_current sound mem
    show some b ≤ vote
    rw [← current]
    exact durable.trans (move.sound sound).accepted_le
  | accepted recipient c v =>
    obtain ⟨announced, -⟩ := move.vote_durable sound mem
    rw [announced] at durable
    exact Option.some_le_some.1 durable
  | _ => trivial

theorem Sound.run_upholds (sound : w.Sound) {b : Ballot} (durable : some b ≤ w.durable.accepted)
    (inputs : List Input) : ∀ e ∈ (w.run inputs).2, Upholds b e := by
  induction inputs generalizing w with
  | nil => simp [Voter.run]
  | cons i rest ih =>
    have move := step_move sound.active i
    have later : some b ≤ (w.step i).1.durable.accepted :=
      durable.trans (move.durable_accepted_le sound)
    intro e mem
    rcases List.mem_append.1 mem with now | next
    · exact move.upholds sound later e now
    · exact ih (sound.step i) later e next

/-- A reply that comes after an announced vote does not fall behind it. -/
def After : Effect → Effect → Prop
  | .accepted _ b _, later => Upholds b later
  | _, _ => True

theorem Sound.run_after (sound : w.Sound) (inputs : List Input) :
    (w.run inputs).2.Pairwise After := by
  induction inputs generalizing w with
  | nil => exact List.Pairwise.nil
  | cons i rest ih =>
    have move := step_move sound.active i
    -- an announced vote is durable when the step is over, and so bounds every reply from there
    have bounded : ∀ earlier ∈ (w.step i).2, ∀ later,
        later ∈ (w.step i).2 ∨ later ∈ ((w.step i).1.run rest).2 → After earlier later := by
      intro earlier sent later mem
      cases earlier with
      | accepted recipient b v =>
        have durable : some b ≤ (w.step i).1.durable.accepted :=
          (move.vote_durable sound sent).1.ge
        rcases mem with now | next
        · exact move.upholds sound durable later now
        · exact (sound.step i).run_upholds durable rest later next
      | _ => trivial
    refine List.pairwise_append.2 ⟨?_, ih (sound.step i), fun earlier sent later next => ?_⟩
    · exact List.pairwise_of_forall_mem_list fun earlier sent later now =>
        bounded earlier sent later (.inl now)
    · exact bounded earlier sent later (.inr next)

/-- **An announced vote is kept**, in this life and in all later ones: no promise reports a
lower vote or none at all, and no lower vote is announced. -/
theorem votes_kept (now window : Nat) (inputs : List Input) :
    ((start now window).run inputs).2.Pairwise After :=
  (sound_start now window).run_after inputs

/-! ## Promises -/

/-- A reply that keeps a promise of this ballot, given with the report of this vote. -/
def Honours (b : Ballot) (vote : Option Ballot) (value : Option Value) : Effect → Prop
  | .promise _ c _ _ => b ≤ c
  | .accepted _ c v => b ≤ c ∨ vote = some c ∧ value = some v
  | _ => True

/-- The promise of this ballot is on record, and no vote below it but the one reported. -/
structure Bound (b : Ballot) (vote : Option Ballot) (value : Option Value) (s : Snapshot) :
    Prop where
  promised : some b ≤ s.promised
  voted : s.accepted = vote ∧ s.value = value ∨ some b ≤ s.accepted

section Bound

variable {b : Ballot} {vote : Option Ballot} {value : Option Value}

/-- Replies speak of the snapshot that they leave behind. -/
theorem Move.honours (move : Move w input w' effects)
    (bound : Bound b vote value w'.acceptor.toSnapshot) :
    ∀ e ∈ effects, Honours b vote value e := by
  have promise {recipient : NodeId} {c : Ballot} {a : Option Ballot} {x : Option Value}
      (known : w'.acceptor.promised = some c) :
      Honours b vote value (.promise recipient c a x) := by
    have le := bound.promised
    rw [known] at le
    exact Option.some_le_some.1 le
  have announce {recipient : NodeId} {c : Ballot} {v : Value}
      (accepted : w'.acceptor.accepted = some c) (named : w'.acceptor.value = some v) :
      Honours b vote value (.accepted recipient c v) := by
    rcases bound.voted with ⟨reported, same⟩ | above
    · exact .inr ⟨reported ▸ accepted, same ▸ named⟩
    · rw [accepted] at above
      exact .inl (Option.some_le_some.1 above)
  intro e mem
  cases move with
  | stay rejects | hear rejects =>
    have rejected := rejects e mem
    cases e with
    | promise | accepted => exact rejected.elim
    | _ => trivial
  | takePromise | castVote | restart => simp at mem
  | repeatPromise known free =>
    rw [List.mem_singleton.1 mem]
    exact promise known
  | repeatVote known named free =>
    rw [List.mem_singleton.1 mem]
    exact announce known named
  | release =>
    rcases List.mem_append.1 mem with held | held
    · obtain ⟨source, c, -, known, rfl⟩ := Acceptor.mem_heldPromise held
      exact promise known
    · obtain ⟨source, c, v, -, accepted, named, rfl⟩ := Acceptor.mem_heldVote held
      exact announce accepted named

/-- Only a restart can undo what a voter is bound to, if it was not durable. -/
theorem Move.bound (move : Move w input w' effects)
    (bound : Bound b vote value w.acceptor.toSnapshot)
    (lasts : Bound b vote value w.durable ∨ ∀ now window, input ≠ .restart now window) :
    Bound b vote value w'.acceptor.toSnapshot := by
  cases move with
  | stay | hear | repeatPromise | repeatVote | release => exact bound
  | takePromise higher free => exact ⟨bound.promised.trans higher.le, bound.voted⟩
  | castVote allowed free =>
    have above := bound.promised.trans allowed
    exact ⟨above, .inr above⟩
  | restart =>
    rcases lasts with durable | other
    · exact durable
    · exact absurd rfl (other _ _)

theorem Move.bound_durable (move : Move w input w' effects)
    (bound : Bound b vote value w.acceptor.toSnapshot) (durable : Bound b vote value w.durable) :
    Bound b vote value w'.durable := by
  cases move with
  | release => exact bound
  | _ => exact durable

/-- Whether the voter restarts before it next makes its snapshot durable. -/
def Forgets : List Input → Prop
  | [] | .persist :: _ => False
  | .restart .. :: _ => True
  | .prepare .. :: rest | .accept .. :: rest => Forgets rest

theorem Bound.run (bound : Bound b vote value w.acceptor.toSnapshot) (sound : w.Sound)
    {inputs : List Input} (lasts : Bound b vote value w.durable ∨ ¬ Forgets inputs) :
    ∀ e ∈ (w.run inputs).2, Honours b vote value e := by
  induction inputs generalizing w with
  | nil => simp [Voter.run]
  | cons i rest ih =>
    have move := step_move sound.active i
    have holds : Bound b vote value (w.step i).1.acceptor.toSnapshot := by
      refine move.bound bound (lasts.imp_right fun kept now window same => kept ?_)
      rw [same]
      trivial
    have next : Bound b vote value (w.step i).1.durable ∨ ¬ Forgets rest := by
      rcases lasts with durable | kept
      · exact .inl (move.bound_durable bound durable)
      · cases i with
        | persist => exact .inl bound
        | restart => exact absurd trivial kept
        | prepare | accept => exact .inr kept
    intro e mem
    rcases List.mem_append.1 mem with now | later
    · exact move.honours holds e now
    · exact ih holds (sound.step i) next e later

/-- A promise is durable, with the vote it reports, unless a vote is held. -/
theorem Move.promise_durable (move : Move w input w' effects) (sound : w.Sound)
    {recipient : NodeId} (mem : .promise recipient b vote value ∈ effects)
    (free : w.acceptor.pendingVote = none ∨ input = .persist) :
    Bound b vote value w'.durable := by
  cases move with
  | stay rejects | hear rejects => exact (rejects _ mem).elim
  | takePromise | castVote | restart => simp at mem
  | repeatVote => simp at mem
  | repeatPromise known unheld =>
    have none_held : w.acceptor.pendingVote = none := by simpa using free
    simp only [List.mem_singleton, Effect.promise.injEq] at mem
    obtain ⟨-, rfl, rfl, rfl⟩ := mem
    obtain ⟨accepted, named⟩ := sound.settled none_held
    refine ⟨?_, .inl ⟨accepted.symm, named.symm⟩⟩
    rcases sound.promised unheld with same | ⟨held, -⟩
    · exact (same.symm.trans known).ge
    · exact absurd none_held held
  | release =>
    rcases List.mem_append.1 mem with held | held
    · obtain ⟨source, c, -, known, same⟩ := Acceptor.mem_heldPromise held
      cases same
      exact ⟨known.ge, .inl ⟨rfl, rfl⟩⟩
    · obtain ⟨_, _, _, -, -, -, same⟩ := Acceptor.mem_heldVote held
      cases same

end Bound

/-- Whether an input is answered while a vote is held.  A promise given then may report
this vote, which is not durable. -/
def Hasty (w : Voter) (i : Input) : Prop := w.acceptor.pendingVote ≠ none ∧ i ≠ .persist

/-- **A promise is kept**, in this life and in all later ones: whatever is sent after it, no
promise is lower, and the only vote below it is the one that it reported.  Nothing is said of
a promise that was given while a vote was held, if the voter restarts before it persists. -/
theorem promise_kept {w : Voter} (reachable : w.Reachable) {i : Input} {rest : List Input}
    {sent more : List Effect} {recipient : NodeId} {b : Ballot} {vote : Option Ballot}
    {value : Option Value}
    (given : (w.step i).2 = sent ++ .promise recipient b vote value :: more) :
    (∀ e ∈ more ++ ((w.step i).1.run rest).2, Honours b vote value e) ∨
      Hasty w i ∧ Forgets rest := by
  have sound := reachable.sound
  have move := step_move sound.active i
  have mem : .promise recipient b vote value ∈ (w.step i).2 := by simp [given]
  obtain ⟨promised, accepted, named, -⟩ := move.promise_current sound mem
  have bound : Bound b vote value (w.step i).1.acceptor.toSnapshot :=
    ⟨promised.ge, .inl ⟨accepted, named⟩⟩
  have kept (lasts : Bound b vote value (w.step i).1.durable ∨ ¬ Forgets rest) :
      ∀ e ∈ more ++ ((w.step i).1.run rest).2, Honours b vote value e := by
    intro e mem
    rcases List.mem_append.1 mem with now | later
    · exact move.honours bound e (by simp [given, now])
    · exact bound.run (sound.step i) lasts e later
  by_cases hasty : Hasty w i
  · by_cases forgets : Forgets rest
    · exact .inr ⟨hasty, forgets⟩
    · exact .inl (kept (.inr forgets))
  · have free : w.acceptor.pendingVote = none ∨ i = .persist := by
      simpa only [Hasty, ne_eq, not_and_or, not_not] using hasty
    exact .inl (kept (.inl (move.promise_durable sound mem free)))

/-- A vote, the promise of a higher ballot, and the request for that vote again. -/
def repeatedVote : List Input :=
  [ .accept "p" ⟨1, "p"⟩ "x", .persist, .prepare 0 "q" ⟨2, "q"⟩, .persist,
    .accept "p" ⟨1, "p"⟩ "x" ]

/-- The vote is announced again, below the promise. -/
theorem repeatedVote_below_promise :
    ((start 0 0).run repeatedVote).2 =
      [ .accepted "p" ⟨1, "p"⟩ "x", .promise "q" ⟨2, "q"⟩ (some ⟨1, "p"⟩) (some "x"),
        .accepted "p" ⟨1, "p"⟩ "x" ] ∧
    (⟨1, "p"⟩ : Ballot) < ⟨2, "q"⟩ := by
  decide

/-- The promise of that run: after a restart, the vote that it reported is announced once
more, and the same ballot with another value is rejected. -/
theorem promise_kept_repeatedVote :
    let w := ((start 0 0).run (repeatedVote.take 3)).1
    let rest : List Input :=
      [.restart 0 0, .accept "p" ⟨1, "p"⟩ "x", .accept "p" ⟨1, "p"⟩ "y", .persist]
    w.Reachable ∧
    (w.step .persist).2 = [] ++ .promise "q" ⟨2, "q"⟩ (some ⟨1, "p"⟩) (some "x") :: [] ∧
    ((w.step .persist).1.run rest).2 =
      [.accepted "p" ⟨1, "p"⟩ "x", .acceptNack "p" ⟨1, "p"⟩ ⟨2, "q"⟩] ∧
    ∀ e ∈ [] ++ ((w.step .persist).1.run rest).2,
      Honours ⟨2, "q"⟩ (some ⟨1, "p"⟩) (some "x") e := by
  intro w rest
  have reachable : w.Reachable := ⟨0, 0, repeatedVote.take 3, rfl⟩
  have given : (w.step .persist).2 =
      [] ++ .promise "q" ⟨2, "q"⟩ (some ⟨1, "p"⟩) (some "x") :: [] := by decide
  refine ⟨reachable, given, by decide, ?_⟩
  have held : _ ∨ Hasty w .persist ∧ Forgets rest := promise_kept reachable given
  rcases held with kept | ⟨⟨-, other⟩, -⟩
  · exact kept
  · exact absurd rfl other

/-- The exception is real.  A vote is held when its ballot is prepared again; the promise goes
out at once, and is forgotten with the vote. -/
theorem hasty_promise_lost :
    ((start 0 0).run
      [ .accept "p" ⟨2, "p"⟩ "x", .prepare 0 "p" ⟨2, "p"⟩, .restart 0 0,
        .accept "q" ⟨1, "q"⟩ "y", .persist ]).2 =
      [ .promise "p" ⟨2, "p"⟩ (some ⟨2, "p"⟩) (some "x"), .accepted "q" ⟨1, "q"⟩ "y" ] := by
  decide

end Voter

end Synod
