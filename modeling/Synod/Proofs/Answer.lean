/-
Synod.Proofs.Answer -- to what an acceptor's replies answer

Most replies go at once, and answer the request that has just come in.  The others are held, and of
a held reply the acceptor keeps only to whom it goes: what it says is read off the snapshot when it
is let go.

While a vote is held, the vote stays.  So a vote that was held is the one that its recipient has
asked for.  But while a promise is held, a vote may raise the promise, and then the recipient is
promised a ballot that it never asked for (`outgrownPromise_unasked`).  The vote that did so is
the one that this promise reports, and there is no other way to a reply that answers nothing
(`replies_answer`).
-/
import Mathlib.Data.List.Induction
import Synod.Proofs.Acceptor

namespace Synod

set_option autoImplicit false

namespace Acceptor

variable {past : List (Nat × Input)} {a : Acceptor}

/-! ## Requests that wait -/

/-- Since the last release, this node has asked for a promise of `b`; or of a lower ballot, and
then somebody asked for the vote for `b` that the promise reports. -/
def PromiseDue (past : List (Nat × Input)) (recipient : NodeId) (b : Ballot) (vote : Option Ballot)
    (value : Option Value) : Prop :=
  ∃ before now c after, past = before ++ (now, .prepare recipient c) :: after ∧
    (∀ t, (t, Input.persisted) ∉ after) ∧
    (c = b ∨ c < b ∧ vote = some b ∧
      ∃ t source v, value = some v ∧ (t, Input.accept source b v) ∈ after)

/-- This node has asked for this vote. -/
def VoteDue (past : List (Nat × Input)) (recipient : NodeId) (b : Ballot) (v : Value) : Prop :=
  ∃ now, (now, .accept recipient b v) ∈ past

/-- To what a reply answers, when it is sent at an input `i` that comes after `past`. -/
def Requested (past : List (Nat × Input)) (i : Input) : Effect → Prop
  | .promise recipient b vote value =>
    i = .prepare recipient b ∨ i = .persisted ∧ PromiseDue past recipient b vote value
  | .accepted recipient b v =>
    i = .accept recipient b v ∨ i = .persisted ∧ VoteDue past recipient b v
  | .prepareNack recipient b promised => i = .prepare recipient b ∧ b < promised
  | .acceptNack recipient b promised => (∃ v, i = .accept recipient b v) ∧ b < promised
  | _ => False

section Due

variable {recipient : NodeId} {b c : Ballot} {vote : Option Ballot} {value : Option Value}

theorem PromiseDue.extend (due : PromiseDue past recipient b vote value) {i : Nat × Input}
    (holds : i.2 ≠ .persisted) : PromiseDue (past ++ [i]) recipient b vote value := by
  obtain ⟨before, now, c, after, rfl, unreleased, cause⟩ := due
  refine ⟨before, now, c, after ++ [i], by simp, fun t mem => ?_, ?_⟩
  · rcases List.mem_append.1 mem with old | last
    · exact unreleased t old
    · exact holds (congrArg Prod.snd (List.mem_singleton.1 last)).symm
  · rcases cause with same | ⟨lower, reported, t, source, v, named, asked⟩
    · exact .inl same
    · exact .inr ⟨lower, reported, t, source, v, named, List.mem_append_left _ asked⟩

theorem promiseDue_concat (now : Nat) :
    PromiseDue (past ++ [(now, .prepare recipient b)]) recipient b vote value :=
  ⟨past, now, b, [], rfl, by simp, .inl rfl⟩

/-- A vote that raises the promise becomes what the promise reports. -/
theorem PromiseDue.raise (due : PromiseDue past recipient b vote value) (le : b ≤ c) (now : Nat)
    (source : NodeId) (v : Value) :
    PromiseDue (past ++ [(now, .accept source c v)]) recipient c (some c) (some v) := by
  obtain ⟨before, t, asked, after, rfl, unreleased, cause⟩ := due
  have reached : asked ≤ c := by
    rcases cause with rfl | ⟨lower, -⟩
    · exact le
    · exact lower.le.trans le
  refine ⟨before, t, asked, after ++ [(now, .accept source c v)], by simp, ?_, ?_⟩
  · simpa using unreleased
  · rcases reached.eq_or_lt with same | lower
    · exact .inl same
    · exact .inr ⟨lower, rfl, now, source, v, rfl, by simp⟩

theorem VoteDue.extend {v : Value} (due : VoteDue past recipient b v) (i : Nat × Input) :
    VoteDue (past ++ [i]) recipient b v := by
  obtain ⟨now, asked⟩ := due
  exact ⟨now, List.mem_append_left _ asked⟩

end Due

/-! ## What is held is due -/

/-- Whoever waits for a reply has asked for what the snapshot would let it be told. -/
structure Owes (past : List (Nat × Input)) (a : Acceptor) : Prop where
  promise : ∀ recipient, a.pendingPromise = some recipient →
    ∃ b, a.promised = some b ∧ PromiseDue past recipient b a.accepted a.value
  vote : ∀ recipient, a.pendingVote = some recipient →
    ∃ b v, a.accepted = some b ∧ a.value = some v ∧ VoteDue past recipient b v

theorem owes_resumed (s : Snapshot) (now window : Nat) :
    Owes [] ((start now window).recover s) := by
  constructor <;> intro recipient waits <;> cases waits

/-- An acceptor that goes on to hold what it holds, beside the same snapshot, still owes it. -/
theorem Owes.extend {next : Acceptor} (owes : Owes past a) (snapshot : next.snapshot = a.snapshot)
    (promise : next.pendingPromise = a.pendingPromise) (vote : next.pendingVote = a.pendingVote)
    {i : Nat × Input} (holds : i.2 ≠ .persisted) : Owes (past ++ [i]) next := by
  have promised : next.promised = a.promised := congrArg Snapshot.promised snapshot
  have accepted : next.accepted = a.accepted := congrArg Snapshot.accepted snapshot
  have value : next.value = a.value := congrArg Snapshot.value snapshot
  refine ⟨fun recipient waits => ?_, fun recipient waits => ?_⟩
  · obtain ⟨b, own, due⟩ := owes.promise recipient (promise ▸ waits)
    rw [accepted, value]
    exact ⟨b, promised.trans own, due.extend holds⟩
  · obtain ⟨b, v, own, named, due⟩ := owes.vote recipient (vote ▸ waits)
    exact ⟨b, v, accepted.trans own, value.trans named, due.extend i⟩

theorem eq_of_waiter {source recipient : NodeId} (waits : a.waiter source = some recipient) :
    source = recipient := by
  unfold waiter at waits
  split at waits
  · exact Option.some.inj waits
  · cases waits

/-- **A step keeps what is owed due.** -/
theorem Owes.step (owes : Owes past a) {i : Nat × Input} (ordinary : i.2.Ordinary) :
    Owes (past ++ [i]) (a.step i.1 i.2).1 := by
  obtain ⟨now, i⟩ := i
  have move := a.step_move now ordinary
  generalize (a.step now i).2 = effects at move
  show Owes _ (a.step now i).1
  generalize (a.step now i).1 = next at move ⊢
  cases move with
  | dropPrepare | ignorePrepare | repeatPromise | rejectPrepare | dropAccept | ignoreAccept
  | repeatVote | rejectAccept | setActive => exact owes.extend (by rfl) (by rfl) (by rfl) (by simp)
  | @takePromise source b valid higher free =>
    refine ⟨fun recipient waits => ?_, fun recipient waits => ?_⟩
    · rw [← eq_of_waiter waits]
      exact ⟨b, rfl, promiseDue_concat now⟩
    · obtain ⟨c, v, accepted, value, due⟩ := owes.vote recipient waits
      exact ⟨c, v, accepted, value, due.extend _⟩
  | @castVote source b v valid allowed free =>
    refine ⟨fun recipient waits => ?_, fun recipient waits => ?_⟩
    · -- the vote may raise a promise that is held
      obtain ⟨p, promised, due⟩ := owes.promise recipient waits
      rw [promised, Option.some_le_some] at allowed
      exact ⟨b, rfl, due.raise allowed now source v⟩
    · rw [← eq_of_waiter waits]
      exact ⟨b, v, rfl, rfl, now, by simp⟩
  | release => constructor <;> intro recipient waits <;> cases waits

/-- **What an acceptor sends answers a request**, if whoever waits is owed what it is told. -/
theorem Owes.answers (owes : Owes past a) {now : Nat} {i : Input} (ordinary : i.Ordinary) :
    ∀ e ∈ (a.step now i).2, Requested past i e := by
  have move := a.step_move now ordinary
  generalize (a.step now i).1 = next at move
  generalize (a.step now i).2 = effects at move ⊢
  intro e mem
  cases move with
  | dropPrepare | ignorePrepare | takePromise | dropAccept | ignoreAccept | castVote | setActive =>
    cases mem
  | repeatPromise | repeatVote =>
    rw [List.mem_singleton.1 mem]
    exact .inl rfl
  | rejectPrepare _ _ lower =>
    rw [List.mem_singleton.1 mem]
    exact ⟨rfl, lower⟩
  | rejectAccept _ _ lower =>
    rw [List.mem_singleton.1 mem]
    exact ⟨⟨_, rfl⟩, lower⟩
  | release =>
    split at mem
    · rcases List.mem_append.1 mem with held | held
      · obtain ⟨recipient, b, waits, promised, rfl⟩ := mem_heldPromise held
        obtain ⟨c, same, due⟩ := owes.promise recipient waits
        rw [promised, Option.some.injEq] at same
        exact .inr ⟨rfl, same ▸ due⟩
      · obtain ⟨recipient, b, v, waits, accepted, value, rfl⟩ := mem_heldVote held
        obtain ⟨c, w, same, same', due⟩ := owes.vote recipient waits
        rw [accepted, Option.some.injEq] at same
        rw [value, Option.some.injEq] at same'
        exact .inr ⟨rfl, same ▸ same' ▸ due⟩
    · cases mem

/-! ## Runs -/

theorem run_owes (s : Snapshot) (now window : Nat) {past : List (Nat × Input)}
    (ordinary : ∀ i ∈ past, i.2.Ordinary) :
    Owes past (((start now window).recover s).run past).1 := by
  induction past using List.reverseRecOn with
  | nil => exact owes_resumed s now window
  | append_singleton past i ih =>
    rw [run_concat]
    exact (ih fun j mem => ordinary j (List.mem_append_left _ mem)).step (ordinary i (by simp))

/-- **Every reply answers a request of its recipient**, new or recovered as the acceptor may be.
A vote that is announced is one that the recipient has asked for.  A rejection answers the request
that has just come in, and names a higher ballot.  A promise is of the ballot that the recipient has
asked for, unless it was held, and a vote for a higher ballot was asked for meanwhile; then it is of
that ballot, and reports that vote. -/
theorem replies_answer (s : Snapshot) (start window : Nat) {past : List (Nat × Input)}
    (ordinary : ∀ i ∈ past, i.2.Ordinary) (now : Nat) {i : Input} (next : i.Ordinary) :
    ∀ e ∈ ((((Acceptor.start start window).recover s).run past).1.step now i).2,
      Requested past i e :=
  (run_owes s start window ordinary).answers next

/-- Node `p` waits for a promise of its first ballot when node `q` asks for a vote for a higher
one. -/
def outgrownPromise : List (Nat × Input) :=
  [ (0, .prepare "p" ⟨1, "p"⟩), (0, .accept "q" ⟨2, "q"⟩ "x") ]

/-- Then `p` is promised the ballot of `q`, which it never asked for. -/
theorem outgrownPromise_unasked :
    .promise "p" ⟨2, "q"⟩ (some ⟨2, "q"⟩) (some "x") ∈
      (((start 0 2000).run outgrownPromise).1.step 0 .persisted).2 ∧
    ∀ now, (now, .prepare "p" ⟨2, "q"⟩) ∉ outgrownPromise ++ [(0, .persisted)] := by
  refine ⟨by decide, fun now mem => ?_⟩
  simp [outgrownPromise] at mem

/-- Two replies are held, one for each of two nodes; a third node is refused meanwhile.  When they
are let go, each node is told of the ballot that it has asked for. -/
theorem replies_answer_heldTwice :
    let past : List (Nat × Input) := [ (0, .accept "p" ⟨1, "p"⟩ "x"), (1, .prepare "q" ⟨2, "q"⟩),
      (2, .setActive false), (2, .prepare "r" ⟨3, "r"⟩), (3, .setActive true) ]
    let a := ((start 0 2000).run past).1
    (∀ i ∈ past, i.2.Ordinary) ∧ Input.persisted.Ordinary ∧
    (a.step 4 .persisted).2 = [ .promise "q" ⟨2, "q"⟩ (some ⟨1, "p"⟩) (some "x"),
      .accepted "p" ⟨1, "p"⟩ "x" ] ∧
    ∀ e ∈ (a.step 4 .persisted).2, Requested past .persisted e := by
  intro past a
  have ordinary : ∀ i ∈ past, i.2.Ordinary := by decide
  have next : Input.persisted.Ordinary := trivial
  exact ⟨ordinary, next, by decide, replies_answer {} 0 2000 ordinary 4 next⟩

end Acceptor

end Synod
