/-
Synod.Proofs.Assembly -- acceptors and learners under disciplined proposers

An assembly is a set of voters and of learners, with no proposer in it.  Any prepare
may arrive, at any time and under any ballot.  A request for votes enters only as
`Allowed` says: a ballot is used for one value, and its first request is justified by
promises that were given.  Voters make their snapshot durable and restart whenever they
like, and a learner hears, under its voter's name, any vote that was ever announced.

Whatever the order, learners resolve one value (`resolutions_agree`): each action keeps
`Orderly` (`Orderly.apply`), and so does a run.
-/
import Synod.Proofs.Tally

namespace Synod

set_option autoImplicit false

structure Resolution where
  learner : Nat
  ballot : Ballot
  value : Value
deriving DecidableEq, Repr

structure Assembly where
  voters : NodeId → Voter
  learners : Nat → Learner
  /-- What the voters sent, and what votes were asked for. -/
  history : History := {}
  resolutions : List Resolution := []

namespace Assembly

inductive Action
  | vote (voter : NodeId) (input : Voter.Input)
  /-- A request for votes enters. -/
  | ask (ballot : Ballot) (value : Value)
  /-- A learner hears a vote. -/
  | count (learner : Nat) (vote : Vote)
deriving DecidableEq, Repr

def start (quorum : Nat) (now window : NodeId → Nat) : Assembly where
  voters r := .start (now r) (window r)
  learners _ := .start quorum

def resolution? (learner : Nat) : Effect → Option Resolution
  | .resolved b v => some { learner, ballot := b, value := v }
  | _ => none

def apply (s : Assembly) : Action → Assembly
  | .vote r input =>
    let moved := (s.voters r).step input
    { s with
      voters := Function.update s.voters r moved.1
      history := s.history.record r moved.2 }
  | .ask b v => { s with history := s.history.ask b v }
  | .count i x =>
    let counted := (s.learners i).receiveAccepted x.voter x.ballot x.value
    { s with
      learners := Function.update s.learners i counted.1
      resolutions := s.resolutions ++ counted.2.filterMap (resolution? i) }

def run (s : Assembly) (actions : List Action) : Assembly := actions.foldl apply s

section Discipline

variable (names : List NodeId) (quorum : Nat)

def Allowed (s : Assembly) : Action → Prop
  | .vote r (.accept _ b v) => r ∈ names ∧ (b, v) ∈ s.history.requests
  | .vote r _ => r ∈ names
  | .ask b v => (∀ asked ∈ s.history.requests, asked.1 = b → asked.2 = v) ∧
      ((∀ asked ∈ s.history.requests, asked.1 ≠ b) → History.Justified quorum s.history b v)
  | .count _ x => x ∈ s.history.votes

/-- Each action is allowed where it is taken. -/
def Legal : Assembly → List Action → Prop
  | _, [] => True
  | s, a :: rest => s.Allowed names quorum a ∧ Legal (s.apply a) rest

/-- What every action keeps. -/
structure Orderly (s : Assembly) : Prop where
  lawful : s.history.Lawful names quorum s.voters
  counts : ∀ i, (s.learners i).quorum = quorum ∧ (s.learners i).Counts s.history.votes
  chosen : ∀ x ∈ s.resolutions, s.history.Chosen names quorum x.ballot x.value
  recorded : ∀ i b v, (s.learners i).resolution = some (b, v) →
    { learner := i, ballot := b, value := v } ∈ s.resolutions

end Discipline

variable {names : List NodeId} {quorum : Nat}

theorem orderly_start (now window : NodeId → Nat) :
    (start quorum now window).Orderly names quorum where
  lawful := History.lawful_start now window
  counts _ := ⟨rfl, Learner.counts_start _ quorum⟩
  chosen := by simp [start]
  recorded := by simp [start, Learner.start]

/-- A voter hears of a vote only when it was asked for. -/
theorem Allowed.requested {s : Assembly} {r : NodeId} {input : Voter.Input}
    (allowed : s.Allowed names quorum (.vote r input)) :
    r ∈ names ∧ ∀ source b v, input = .accept source b v → (b, v) ∈ s.history.requests := by
  cases input with
  | accept source b v =>
    refine ⟨allowed.1, ?_⟩
    intro source' b' v' same
    cases same
    exact allowed.2
  | _ => exact ⟨allowed, by simp⟩

theorem Orderly.vote {s : Assembly} (orderly : s.Orderly names quorum) {r : NodeId}
    {input : Voter.Input} (allowed : s.Allowed names quorum (.vote r input)) :
    (s.apply (.vote r input)).Orderly names quorum := by
  obtain ⟨member, requested⟩ := allowed.requested
  have move := Voter.step_move (orderly.lawful.sound r member).active input
  have grows := History.grows_record s.history r ((s.voters r).step input).2
  refine ⟨orderly.lawful.move member move requested, fun i => ?_, fun x mem => ?_,
    orderly.recorded⟩
  · exact ⟨(orderly.counts i).1, (orderly.counts i).2.mono grows.votes⟩
  · exact (orderly.chosen x mem).mono grows

theorem Orderly.ask {s : Assembly} (orderly : s.Orderly names quorum) {b : Ballot} {v : Value}
    (allowed : s.Allowed names quorum (.ask b v)) :
    (s.apply (.ask b v)).Orderly names quorum where
  lawful := by
    refine orderly.lawful.ask (fun w asked => allowed.1 _ asked rfl) fun none => allowed.2 ?_
    rintro ⟨c, w⟩ asked rfl
    exact none w asked
  counts := orderly.counts
  chosen x mem := (orderly.chosen x mem).mono (History.grows_ask s.history b v)
  recorded := orderly.recorded

theorem Orderly.count {s : Assembly} (orderly : s.Orderly names quorum) {i : Nat} {x : Vote}
    (allowed : s.Allowed names quorum (.count i x)) :
    (s.apply (.count i x)).Orderly names quorum := by
  obtain ⟨size, counts⟩ := orderly.counts i
  obtain ⟨after, backed⟩ := Learner.receiveAccepted_counts counts (show _ ∈ _ from allowed)
  refine ⟨orderly.lawful, fun j => ?_, fun y mem => ?_, fun j b v found => ?_⟩
  · by_cases same : j = i
    · subst same
      show (Function.update s.learners j _ j).quorum = quorum ∧
        (Function.update s.learners j _ j).Counts s.history.votes
      rw [Function.update_self]
      exact ⟨(Learner.receiveAccepted_quorum ..).trans size, after⟩
    · show (Function.update s.learners i _ j).quorum = quorum ∧
        (Function.update s.learners i _ j).Counts s.history.votes
      rw [Function.update_of_ne same]
      exact orderly.counts j
  · rcases List.mem_append.1 mem with old | new
    · exact orderly.chosen y old
    · obtain ⟨e, sent, found⟩ := List.mem_filterMap.1 new
      cases e <;> simp only [resolution?, Option.some.injEq, reduceCtorEq] at found
      subst found
      obtain ⟨n, q, enough, backed⟩ := backed _ _ sent
      exact orderly.lawful.chosen_of_backed (size ▸ enough) backed
  · have found : (Function.update s.learners i _ j).resolution = some (b, v) := found
    by_cases same : j = i
    · subst same
      rw [Function.update_self] at found
      rcases Learner.receiveAccepted_resolution found with before | sent
      · exact List.mem_append_left _ (orderly.recorded j b v before)
      · exact List.mem_append_right _ (List.mem_filterMap.2 ⟨_, sent, rfl⟩)
    · rw [Function.update_of_ne same] at found
      exact List.mem_append_left _ (orderly.recorded j b v found)

/-- **Every allowed action keeps an assembly orderly.** -/
theorem Orderly.apply {s : Assembly} (orderly : s.Orderly names quorum) {a : Action}
    (allowed : s.Allowed names quorum a) : (s.apply a).Orderly names quorum := by
  cases a with
  | vote r input => exact orderly.vote allowed
  | ask b v => exact orderly.ask allowed
  | count i x => exact orderly.count allowed

theorem Orderly.run {s : Assembly} (orderly : s.Orderly names quorum) {actions : List Action}
    (legal : Legal names quorum s actions) : (s.run actions).Orderly names quorum := by
  induction actions generalizing s with
  | nil => exact orderly
  | cons a rest ih => exact ih (orderly.apply legal.1) legal.2

/-- A chosen value was asked for. -/
theorem Orderly.requested {s : Assembly} (orderly : s.Orderly names quorum)
    (some : 0 < quorum) {x : Resolution} (mem : x ∈ s.resolutions) :
    (x.ballot, x.value) ∈ s.history.requests := by
  obtain ⟨q, quorate, voted⟩ := orderly.chosen x mem
  have someone : 0 < q.length := some.trans_le quorate.enough
  exact orderly.lawful.asked _ (voted _ (List.getElem_mem someone))

/-- **Learners resolve one value.**  All resolutions of a legal run are equal, they are
what the learners hold, and what they hold was asked for. -/
theorem resolutions_agree (now window : NodeId → Nat) {actions : List Action}
    (majority : names.length < 2 * quorum)
    (legal : Legal names quorum (start quorum now window) actions) :
    (∀ x ∈ ((start quorum now window).run actions).resolutions,
      ∀ y ∈ ((start quorum now window).run actions).resolutions, x.value = y.value) ∧
    (∀ i b v, (((start quorum now window).run actions).learners i).resolution = some (b, v) →
      { learner := i, ballot := b, value := v } ∈
        ((start quorum now window).run actions).resolutions) ∧
    ∀ x ∈ ((start quorum now window).run actions).resolutions,
      (x.ballot, x.value) ∈ ((start quorum now window).run actions).history.requests := by
  have orderly := (orderly_start now window).run legal
  refine ⟨fun x hx y hy => ?_, orderly.recorded, fun x hx => ?_⟩
  · exact orderly.lawful.chosen_unique majority (orderly.chosen x hx) (orderly.chosen y hy)
  · exact orderly.requested (by omega) hx

/-- Two rounds among three voters.  The first one resolves at learner 0, then the voter
both rounds share restarts, and its promise of the second ballot reports its vote. -/
def twoRounds : List Action :=
  [ .vote "a" (.prepare 0 "p" ⟨1, "p"⟩), .vote "b" (.prepare 0 "p" ⟨1, "p"⟩),
    .vote "a" .persist, .vote "b" .persist, .ask ⟨1, "p"⟩ "x",
    .vote "a" (.accept "p" ⟨1, "p"⟩ "x"), .vote "b" (.accept "p" ⟨1, "p"⟩ "x"),
    .vote "a" .persist, .vote "b" .persist,
    .count 0 ⟨"a", ⟨1, "p"⟩, "x"⟩, .count 0 ⟨"b", ⟨1, "p"⟩, "x"⟩,
    .vote "b" (.restart 0 0),
    .vote "b" (.prepare 0 "q" ⟨2, "q"⟩), .vote "c" (.prepare 0 "q" ⟨2, "q"⟩),
    .vote "b" .persist, .vote "c" .persist, .ask ⟨2, "q"⟩ "x",
    .vote "b" (.accept "q" ⟨2, "q"⟩ "x"), .vote "c" (.accept "q" ⟨2, "q"⟩ "x"),
    .vote "b" .persist, .vote "c" .persist,
    .count 1 ⟨"b", ⟨2, "q"⟩, "x"⟩, .count 1 ⟨"c", ⟨2, "q"⟩, "x"⟩ ]

theorem twoRounds_legal :
    Legal ["a", "b", "c"] 2 (start 2 (fun _ => 0) (fun _ => 0)) twoRounds := by
  have a : "a" ∈ ["a", "b", "c"] := by decide
  have b : "b" ∈ ["a", "b", "c"] := by decide
  have c : "c" ∈ ["a", "b", "c"] := by decide
  refine ⟨a, b, a, b, ⟨by decide +kernel, fun _ => ?first⟩, ⟨a, by decide +kernel⟩,
    ⟨b, by decide +kernel⟩, a, b, (by decide +kernel : _ ∈ _), (by decide +kernel : _ ∈ _), b, b, c,
    b, c, ⟨by decide +kernel, fun _ => ?second⟩, ⟨b, by decide +kernel⟩, ⟨c, by decide +kernel⟩,
    b, c, (by decide +kernel : _ ∈ _), (by decide +kernel : _ ∈ _), trivial⟩
  case first =>
    refine ⟨[⟨"a", ⟨1, "p"⟩, none, none⟩, ⟨"b", ⟨1, "p"⟩, none, none⟩], by decide +kernel,
      by decide, rfl, by decide, .inl (by decide)⟩
  case second =>
    refine ⟨[⟨"b", ⟨2, "q"⟩, some ⟨1, "p"⟩, some "x"⟩, ⟨"c", ⟨2, "q"⟩, none, none⟩],
      by decide +kernel, by decide, rfl, by decide, .inr ?_⟩
    exact ⟨⟨"b", ⟨2, "q"⟩, some ⟨1, "p"⟩, some "x"⟩, by decide +kernel, ⟨1, "p"⟩, rfl, rfl,
      by decide, by decide⟩

/-- Both rounds resolve, at different learners and under different ballots. -/
theorem resolutions_agree_twoRounds :
    (["a", "b", "c"] : List NodeId).length < 2 * 2 ∧
    Legal ["a", "b", "c"] 2 (start 2 (fun _ => 0) (fun _ => 0)) twoRounds ∧
    ((start 2 (fun _ => 0) (fun _ => 0)).run twoRounds).resolutions =
      [⟨0, ⟨1, "p"⟩, "x"⟩, ⟨1, ⟨2, "q"⟩, "x"⟩] ∧
    ∀ x ∈ ((start 2 (fun _ => 0) (fun _ => 0)).run twoRounds).resolutions,
      ∀ y ∈ ((start 2 (fun _ => 0) (fun _ => 0)).run twoRounds).resolutions, x.value = y.value :=
  ⟨by decide, twoRounds_legal, by decide +kernel,
    (resolutions_agree (fun _ => 0) (fun _ => 0) (by decide) twoRounds_legal).1⟩

end Assembly

end Synod
