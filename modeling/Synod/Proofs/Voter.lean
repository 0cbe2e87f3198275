/-
Synod.Proofs.Voter -- an acceptor and what it has made durable

A voter is an active acceptor beside the snapshot it would restart from.  It hears
prepares and requests for votes, makes its snapshot durable, and restarts.

`Voter.Move` says once what each input can do, and `Voter.Sound` how the durable
snapshot and the current one are related: they differ only while a reply is held.
From these two follows what a reply speaks of:

* a vote is announced only when it is durable (`Move.vote_durable`);
* a promise is durable when it is given, or it is given for the very ballot the
  acceptor has just voted for (`Move.promise_current`).

The second case is real: a repeated prepare for a ballot whose vote is still held is
answered at once.
-/
import Synod.Proofs.Acceptor

namespace Synod

set_option autoImplicit false

structure Voter where
  acceptor : Acceptor
  durable : Snapshot := {}
deriving DecidableEq, Repr

namespace Voter

def start (now window : Nat) : Voter where
  acceptor := .start now window

inductive Input
  | prepare (now : Nat) (source : NodeId) (ballot : Ballot)
  | accept (source : NodeId) (ballot : Ballot) (value : Value)
  /-- Makes the snapshot durable and lets the held replies go. -/
  | persist
  /-- A new acceptor recovers from the durable snapshot. -/
  | restart (now window : Nat)
deriving DecidableEq, Repr

def step (w : Voter) : Input → Voter × List Effect
  | .prepare now source b =>
    let r := w.acceptor.receivePrepare now source b
    ({ w with acceptor := r.1 }, r.2)
  | .accept source b v =>
    let r := w.acceptor.receiveAccept source b v
    ({ w with acceptor := r.1 }, r.2)
  | .persist =>
    ({ acceptor := w.acceptor.persisted.1, durable := w.acceptor.snapshot },
      w.acceptor.persisted.2)
  | .restart now window =>
    ({ w with acceptor := (Acceptor.start now window).recover w.durable }, [])

/-! ## What a step does -/

/-- Replies that promise nothing and announce no vote. -/
def Rejects : Effect → Prop
  | .prepareNack .. | .acceptNack .. => True
  | _ => False

/-- The voter after it has heard a prepare. -/
def heard (w : Voter) (now : Nat) : Voter :=
  { w with acceptor := { w.acceptor with lastPrepare := now } }

/-- Everything a step of an active voter can do. -/
inductive Move (w : Voter) : Input → Voter → List Effect → Prop
  | stay {input : Input} {effects : List Effect} (rejects : ∀ e ∈ effects, Rejects e) :
      Move w input w effects
  | hear {now : Nat} {source : NodeId} {b : Ballot} {effects : List Effect}
      (rejects : ∀ e ∈ effects, Rejects e) :
      Move w (.prepare now source b) (w.heard now) effects
  | repeatPromise {now : Nat} {source : NodeId} {b : Ballot}
      (known : w.acceptor.promised = some b) (free : w.acceptor.pendingPromise = none) :
      Move w (.prepare now source b) (w.heard now)
        [.promise source b w.acceptor.accepted w.acceptor.value]
  | takePromise {now : Nat} {source : NodeId} {b : Ballot}
      (higher : w.acceptor.promised < some b) (free : w.acceptor.pendingPromise = none) :
      Move w (.prepare now source b)
        { w with acceptor := { w.acceptor with
          lastPrepare := now, promised := some b, pendingPromise := some source } } []
  | repeatVote {source : NodeId} {b : Ballot} {v : Value}
      (known : w.acceptor.accepted = some b) (value : w.acceptor.value = some v)
      (free : w.acceptor.pendingVote = none) :
      Move w (.accept source b v) w [.accepted source b v]
  | castVote {source : NodeId} {b : Ballot} {v : Value}
      (allowed : w.acceptor.promised ≤ some b) (free : w.acceptor.pendingVote = none) :
      Move w (.accept source b v)
        { w with acceptor := { w.acceptor with
          promised := some b, accepted := some b, value := some v,
          pendingVote := some source } } []
  | release :
      Move w .persist
        { acceptor := { w.acceptor with pendingPromise := none, pendingVote := none }
          durable := w.acceptor.toSnapshot }
        (w.acceptor.heldPromise ++ w.acceptor.heldVote)
  | restart {now window : Nat} :
      Move w (.restart now window)
        { w with acceptor := (Acceptor.start now window).recover w.durable } []

theorem prepare_move {w : Voter} (active : w.acceptor.active = true) (now : Nat)
    (source : NodeId) (b : Ballot) :
    Move w (.prepare now source b) (w.step (.prepare now source b)).1
      (w.step (.prepare now source b)).2 := by
  have move := w.acceptor.receivePrepare_move now source b
  show Move w _ { w with acceptor := (w.acceptor.receivePrepare now source b).1 }
    (w.acceptor.receivePrepare now source b).2
  generalize (w.acceptor.receivePrepare now source b).1 = next at move ⊢
  generalize (w.acceptor.receivePrepare now source b).2 = effects at move ⊢
  cases move with
  | dropPrepare => exact .stay (by simp)
  | ignorePrepare => exact .hear (by simp)
  | repeatPromise _ known free => exact .repeatPromise known free
  | rejectPrepare => exact .hear (by simp [Rejects])
  | takePromise _ higher free =>
    simpa [Acceptor.heard, Acceptor.waiter, active] using Move.takePromise higher free

theorem accept_move {w : Voter} (active : w.acceptor.active = true) (source : NodeId)
    (b : Ballot) (v : Value) :
    Move w (.accept source b v) (w.step (.accept source b v)).1
      (w.step (.accept source b v)).2 := by
  have move := w.acceptor.receiveAccept_move 0 source b v
  show Move w _ { w with acceptor := (w.acceptor.receiveAccept source b v).1 }
    (w.acceptor.receiveAccept source b v).2
  generalize (w.acceptor.receiveAccept source b v).1 = next at move ⊢
  generalize (w.acceptor.receiveAccept source b v).2 = effects at move ⊢
  cases move with
  | dropAccept | ignoreAccept => exact .stay (by simp)
  | repeatVote _ known value free => exact .repeatVote known value free
  | rejectAccept => exact .stay (by simp [Rejects])
  | castVote _ allowed free => simpa [Acceptor.waiter, active] using Move.castVote allowed free

theorem step_move {w : Voter} (active : w.acceptor.active = true) (input : Input) :
    Move w input (w.step input).1 (w.step input).2 := by
  cases input with
  | prepare now source b => exact prepare_move active now source b
  | accept source b v => exact accept_move active source b v
  | persist =>
    simp only [step, Acceptor.persisted, if_pos active]
    exact .release
  | restart now window => exact .restart

/-! ## Durable and current state -/

/-- A vote names its value and is covered by the promise. -/
structure Coherent (s : Snapshot) : Prop where
  covered : s.accepted ≤ s.promised
  paired : s.accepted.isSome = s.value.isSome

theorem coherent_empty : Coherent {} := ⟨by simp, rfl⟩

/-- How the durable snapshot and the current one are related. -/
structure Sound (w : Voter) : Prop where
  active : w.acceptor.active = true
  durable : Coherent w.durable
  current : Coherent w.acceptor.toSnapshot
  raised : w.durable.promised ≤ w.acceptor.promised
  /-- With no vote held, the durable vote is the current one. -/
  settled : w.acceptor.pendingVote = none →
    w.acceptor.accepted = w.durable.accepted ∧ w.acceptor.value = w.durable.value
  /-- A held vote was allowed by the durable promise. -/
  held : w.acceptor.pendingVote ≠ none →
    w.acceptor.accepted ≠ none ∧ w.durable.promised ≤ w.acceptor.accepted
  /-- With no promise held, the current promise is durable or that of the held vote. -/
  promised : w.acceptor.pendingPromise = none →
    w.acceptor.promised = w.durable.promised ∨
      w.acceptor.pendingVote ≠ none ∧ w.acceptor.promised = w.acceptor.accepted

theorem sound_start (now window : Nat) : (start now window).Sound where
  active := rfl
  durable := coherent_empty
  current := coherent_empty
  raised := le_rfl
  settled _ := ⟨rfl, rfl⟩
  held h := absurd rfl h
  promised _ := .inl rfl

theorem sound_restart {s : Snapshot} (coherent : Coherent s) (now window : Nat) :
    Sound { acceptor := (Acceptor.start now window).recover s, durable := s } :=
  ⟨rfl, coherent, coherent, le_rfl, fun _ => ⟨rfl, rfl⟩, fun h => absurd rfl h,
    fun _ => .inl rfl⟩

theorem Move.sound {w w' : Voter} {input : Input} {effects : List Effect}
    (move : Move w input w' effects) (sound : w.Sound) : w'.Sound := by
  cases move with
  | stay | repeatVote => exact sound
  | hear | repeatPromise =>
    exact ⟨sound.active, sound.durable, sound.current, sound.raised, sound.settled, sound.held,
      sound.promised⟩
  | takePromise higher free =>
    refine ⟨sound.active, sound.durable, ⟨?_, sound.current.paired⟩, ?_, sound.settled,
      sound.held, fun h => absurd h (by simp)⟩
    · exact sound.current.covered.trans higher.le
    · exact sound.raised.trans higher.le
  | castVote allowed free =>
    refine ⟨sound.active, sound.durable, ⟨le_rfl, rfl⟩, sound.raised.trans allowed,
      fun h => absurd h (by simp), fun _ => ⟨by simp, sound.raised.trans allowed⟩,
      fun _ => .inr ⟨by simp, rfl⟩⟩
  | release =>
    exact ⟨sound.active, sound.current, sound.current, le_rfl, fun _ => ⟨rfl, rfl⟩,
      fun h => absurd rfl h, fun _ => .inl rfl⟩
  | restart => exact sound_restart sound.durable _ _

/-- The durable vote never lags behind a promise that is durable. -/
theorem Sound.accepted_le {w : Voter} (sound : w.Sound) :
    w.durable.accepted ≤ w.acceptor.accepted := by
  by_cases free : w.acceptor.pendingVote = none
  · exact (sound.settled free).1.ge
  · exact sound.durable.covered.trans (sound.held free).2

theorem Move.durable_promised_le {w w' : Voter} {input : Input} {effects : List Effect}
    (move : Move w input w' effects) (sound : w.Sound) :
    w.durable.promised ≤ w'.durable.promised := by
  cases move with
  | release => exact sound.raised
  | _ => exact le_rfl

theorem Move.durable_accepted_le {w w' : Voter} {input : Input} {effects : List Effect}
    (move : Move w input w' effects) (sound : w.Sound) :
    w.durable.accepted ≤ w'.durable.accepted := by
  cases move with
  | release => exact sound.accepted_le
  | _ => exact le_rfl

/-! ## What replies speak of -/

/-- A promise reports the current vote, and is durable unless it repeats the ballot
of a held vote. -/
theorem Move.promise_current {w w' : Voter} {input : Input} {effects : List Effect}
    (move : Move w input w' effects) (sound : w.Sound) {recipient : NodeId} {b : Ballot}
    {accepted : Option Ballot} {value : Option Value}
    (mem : .promise recipient b accepted value ∈ effects) :
    w'.acceptor.promised = some b ∧ w'.acceptor.accepted = accepted ∧
      w'.acceptor.value = value ∧ (w'.durable.promised = some b ∨ accepted = some b) := by
  cases move with
  | stay rejects | hear rejects => exact (rejects _ mem).elim
  | takePromise | castVote | restart => simp at mem
  | repeatVote => simp at mem
  | repeatPromise known free =>
    simp only [List.mem_singleton, Effect.promise.injEq] at mem
    obtain ⟨-, rfl, rfl, rfl⟩ := mem
    refine ⟨known, rfl, rfl, ?_⟩
    rcases sound.promised free with same | ⟨-, same⟩
    · exact .inl (same.symm.trans known)
    · exact .inr (same.symm.trans known)
  | release =>
    rcases List.mem_append.1 mem with mem | mem
    · obtain ⟨source, c, -, promised, same⟩ := Acceptor.mem_heldPromise mem
      cases same
      exact ⟨promised, rfl, rfl, .inl promised⟩
    · obtain ⟨_, _, _, -, -, -, same⟩ := Acceptor.mem_heldVote mem
      cases same

/-- A vote is announced only once it is durable. -/
theorem Move.vote_durable {w w' : Voter} {input : Input} {effects : List Effect}
    (move : Move w input w' effects) (sound : w.Sound) {recipient : NodeId} {b : Ballot}
    {v : Value} (mem : .accepted recipient b v ∈ effects) :
    w'.durable.accepted = some b ∧ w'.durable.value = some v := by
  cases move with
  | stay rejects | hear rejects => exact (rejects _ mem).elim
  | takePromise | castVote | restart => simp at mem
  | repeatPromise => simp at mem
  | repeatVote known value free =>
    simp only [List.mem_singleton, Effect.accepted.injEq] at mem
    obtain ⟨-, rfl, rfl⟩ := mem
    exact ⟨(sound.settled free).1 ▸ known, (sound.settled free).2 ▸ value⟩
  | release =>
    rcases List.mem_append.1 mem with mem | mem
    · obtain ⟨_, _, -, -, same⟩ := Acceptor.mem_heldPromise mem
      cases same
    · obtain ⟨_, _, _, -, accepted, value, same⟩ := Acceptor.mem_heldVote mem
      cases same
      exact ⟨accepted, value⟩

/-- A vote that becomes durable is announced, and the durable promise allowed it. -/
theorem Move.new_vote {w w' : Voter} {input : Input} {effects : List Effect}
    (move : Move w input w' effects) (sound : w.Sound) {b : Ballot} {v : Value}
    (accepted : w'.durable.accepted = some b) (value : w'.durable.value = some v) :
    w.durable.accepted = some b ∧ w.durable.value = some v ∨
      (∃ recipient, .accepted recipient b v ∈ effects) ∧ w.durable.promised ≤ some b := by
  cases move with
  | release =>
    by_cases free : w.acceptor.pendingVote = none
    · exact .inl ⟨(sound.settled free).1 ▸ accepted, (sound.settled free).2 ▸ value⟩
    · obtain ⟨source, held⟩ := Option.ne_none_iff_exists'.1 free
      have accepted : w.acceptor.accepted = some b := accepted
      have value : w.acceptor.value = some v := value
      refine .inr ⟨⟨source, List.mem_append_right _ ?_⟩, accepted ▸ (sound.held free).2⟩
      simp [Acceptor.heldVote, held, accepted, value]
  | _ => exact .inl ⟨accepted, value⟩

end Voter

end Synod
