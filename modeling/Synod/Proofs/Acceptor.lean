/-
Synod.Proofs.Acceptor -- what an input can do to an acceptor

`Move` says once what each input does to an acceptor, active or not, and what the acceptor
answers.  Only a recovery is left out: it comes before all traffic and replaces the snapshot.

An input is dropped, or refused, or it repeats what the snapshot says already; or it changes the
snapshot.  A promise is taken for a higher ballot while no promise is held, and a vote is cast at
or above the promise while no vote is held.  A vote raises the promise whether or not a promise
is held.  What is ignored is stale: it comes too late, or while a reply of its kind is held.
-/
import Synod.Acceptor
import Synod.Proofs.Ballot

namespace Synod

set_option autoImplicit false

namespace Acceptor

/-- Every input but a recovery. -/
def Input.Ordinary : Input → Prop
  | .recover _ => False
  | _ => True

instance : (i : Input) → Decidable i.Ordinary
  | .recover _ => inferInstanceAs (Decidable False)
  | .prepare .. | .accept .. | .persisted | .setActive _ => inferInstanceAs (Decidable True)

/-- An acceptor that has just heard a prepare. -/
def heard (a : Acceptor) (now : Nat) : Acceptor := { a with lastPrepare := now }

/-- Who waits for a reply that is not durable yet: nobody waits for an inactive acceptor. -/
def waiter (a : Acceptor) (source : NodeId) : Option NodeId :=
  if a.active then some source else none

/-- Everything an input can do, recoveries apart. -/
inductive Move (a : Acceptor) (now : Nat) : Input → Acceptor → List Effect → Prop
  | dropPrepare {source : NodeId} {b : Ballot} (invalid : ¬ b.Valid) :
      Move a now (.prepare source b) a []
  | ignorePrepare {source : NodeId} {b : Ballot}
      (stale : some b ≤ a.promised ∨ a.pendingPromise ≠ none) :
      Move a now (.prepare source b) (a.heard now) []
  | repeatPromise {source : NodeId} {b : Ballot} (active : a.active = true)
      (known : a.promised = some b) (free : a.pendingPromise = none) :
      Move a now (.prepare source b) (a.heard now) [.promise source b a.accepted a.value]
  | rejectPrepare {source : NodeId} {b p : Ballot} (active : a.active = true)
      (promised : a.promised = some p) (lower : b < p) :
      Move a now (.prepare source b) (a.heard now) [.prepareNack source b p]
  | takePromise {source : NodeId} {b : Ballot} (valid : b.Valid) (higher : a.promised < some b)
      (free : a.pendingPromise = none) :
      Move a now (.prepare source b)
        { a.heard now with promised := some b, pendingPromise := a.waiter source } []
  | dropAccept {source : NodeId} {b : Ballot} {v : Value} (invalid : ¬ b.Valid) :
      Move a now (.accept source b v) a []
  | ignoreAccept {source : NodeId} {b : Ballot} {v : Value}
      (stale : (a.accepted = some b ∧ a.value = some v) ∨ some b < a.promised ∨
        a.pendingVote ≠ none) :
      Move a now (.accept source b v) a []
  | repeatVote {source : NodeId} {b : Ballot} {v : Value} (active : a.active = true)
      (known : a.accepted = some b) (value : a.value = some v) (free : a.pendingVote = none) :
      Move a now (.accept source b v) a [.accepted source b v]
  | rejectAccept {source : NodeId} {b p : Ballot} {v : Value} (active : a.active = true)
      (promised : a.promised = some p) (lower : b < p) :
      Move a now (.accept source b v) a [.acceptNack source b p]
  | castVote {source : NodeId} {b : Ballot} {v : Value} (valid : b.Valid)
      (allowed : a.promised ≤ some b) (free : a.pendingVote = none) :
      Move a now (.accept source b v)
        { a with
          promised := some b, accepted := some b, value := some v
          pendingVote := a.waiter source } []
  | release : Move a now .persisted { a with pendingPromise := none, pendingVote := none }
      (if a.active then a.heldPromise ++ a.heldVote else [])
  | setActive {on : Bool} : Move a now (.setActive on) (a.setActive on) []

theorem mem_heldPromise {a : Acceptor} {e : Effect} (mem : e ∈ a.heldPromise) :
    ∃ source b, a.pendingPromise = some source ∧ a.promised = some b ∧
      e = .promise source b a.accepted a.value := by
  unfold heldPromise at mem
  split at mem
  · next source b held promised => exact ⟨source, b, held, promised, by simpa using mem⟩
  · simp at mem

theorem mem_heldVote {a : Acceptor} {e : Effect} (mem : e ∈ a.heldVote) :
    ∃ source b v, a.pendingVote = some source ∧ a.accepted = some b ∧ a.value = some v ∧
      e = .accepted source b v := by
  unfold heldVote at mem
  split at mem
  · next source b v held accepted value =>
    exact ⟨source, b, v, held, accepted, value, by simpa using mem⟩
  · simp at mem

variable (a : Acceptor) (now : Nat)

theorem receivePrepare_move (source : NodeId) (b : Ballot) :
    Move a now (.prepare source b) (a.receivePrepare now source b).1
      (a.receivePrepare now source b).2 := by
  unfold receivePrepare
  split
  case isFalse invalid => exact .dropPrepare invalid
  case isTrue valid =>
    have raise (higher : a.promised < some b) :
        Move a now (.prepare source b) ((a.heard now).takePromise source b) [] := by
      unfold takePromise
      split
      · next free => exact .takePromise valid higher free
      · next held => exact .ignorePrepare (.inr held)
    simp only
    split
    · next unpromised => exact raise (by simp [unpromised])
    · next p promised =>
      split
      · next same =>
        subst same
        split
        · next free => exact .repeatPromise free.1 promised free.2
        · exact .ignorePrepare (.inl promised.ge)
      · next other =>
        split
        · next lower =>
          split
          · next active => exact .rejectPrepare active promised lower
          · refine .ignorePrepare (.inl ?_)
            rw [promised, Option.some_le_some]
            exact lower.le
        · next high =>
          refine raise ?_
          rw [promised, Option.some_lt_some]
          exact lt_of_le_of_ne high (Ne.symm other)

theorem receiveAccept_move (source : NodeId) (b : Ballot) (v : Value) :
    Move a now (.accept source b v) (a.receiveAccept source b v).1
      (a.receiveAccept source b v).2 := by
  unfold receiveAccept
  split
  case isFalse invalid => exact .dropAccept invalid
  case isTrue valid =>
    have cast (allowed : a.promised ≤ some b) :
        Move a now (.accept source b v) (a.castVote source b v) [] := by
      unfold castVote
      split
      · next free => exact .castVote valid allowed free
      · next held => exact .ignoreAccept (.inr (.inr held))
    split
    · next known =>
      split
      · next free => exact .repeatVote free.1 known.1 known.2 free.2
      · exact .ignoreAccept (.inl known)
    · split
      · next unpromised => exact cast (by simp [unpromised])
      · next p promised =>
        split
        · next lower =>
          split
          · next active => exact .rejectAccept active promised lower
          · refine .ignoreAccept (.inr (.inl ?_))
            rw [promised, Option.some_lt_some]
            exact lower
        · next high =>
          refine cast ?_
          rw [promised, Option.some_le_some]
          exact high

/-- **A step is a move**, unless it recovers a snapshot. -/
theorem step_move {i : Input} (ordinary : i.Ordinary) :
    Move a now i (a.step now i).1 (a.step now i).2 := by
  cases i with
  | prepare source b => exact a.receivePrepare_move now source b
  | accept source b v => exact a.receiveAccept_move now source b v
  | persisted => exact .release
  | recover s => exact ordinary.elim
  | setActive on => exact .setActive

/-! ## Runs -/

/-- Each input with the instant at which it comes. -/
def run (a : Acceptor) : List (Nat × Input) → Acceptor × List Effect
  | [] => (a, [])
  | i :: rest =>
    let r := a.step i.1 i.2
    let s := r.1.run rest
    (s.1, r.2 ++ s.2)

theorem run_concat (inputs : List (Nat × Input)) (i : Nat × Input) :
    a.run (inputs ++ [i]) = (((a.run inputs).1.step i.1 i.2).1,
      (a.run inputs).2 ++ ((a.run inputs).1.step i.1 i.2).2) := by
  induction inputs generalizing a with
  | nil => simp [run]
  | cons first rest ih => simp [run, ih]

end Acceptor

end Synod
