/-
Synod.Proofs.Silence -- what an inactive acceptor keeps to itself

Only held replies tell that storage is due.  An active acceptor that changes its snapshot holds a
reply, so the change is noticed until it is saved.  An inactive acceptor changes its snapshot and
holds nothing.  Such a change is overlooked, until the snapshot is saved for another reason.

Nothing else escapes: when storage is not due and no change is overlooked, the snapshot is
durable, and a reply that goes at once speaks of the durable snapshot
(`Voter.snapshot_durable`).
-/
import Synod.Proofs.Voter

namespace Synod

set_option autoImplicit false

/-! ## Changes that are noticed -/

/-- What a reply says about the acceptor that sends it. -/
def Effect.SpeaksOf (s : Snapshot) : Effect → Prop
  | .promise _ b vote value => s.promised = some b ∧ s.accepted = vote ∧ s.value = value
  | .accepted _ b v => s.accepted = some b ∧ s.value = some v
  | .prepareNack _ _ promised | .acceptNack _ _ promised => s.promised = some promised
  | _ => False

namespace Acceptor

/-- From `a` to `a'` no held reply goes, and a change is held unless the acceptor is inactive. -/
structure Notes (a a' : Acceptor) : Prop where
  held : a.persistenceRequired = true → a'.persistenceRequired = true
  noticed : a'.snapshot = a.snapshot ∨ a'.persistenceRequired = true ∨ a.active = false

theorem notes_same {a a' : Acceptor} (snapshot : a'.snapshot = a.snapshot)
    (required : a'.persistenceRequired = a.persistenceRequired) : a.Notes a' :=
  ⟨fun held => required.trans held, .inl snapshot⟩

variable {a next : Acceptor} {now : Nat} {i : Input} {effects : List Effect}

/-- Until the held replies are let go, whatever changes is noted. -/
theorem Move.notes (move : Move a now i next effects) (holds : i ≠ .persisted) :
    a.Notes next := by
  cases move with
  | takePromise _ _ free =>
    refine ⟨fun held => ?_, .inr ?_⟩
    · have vote : a.pendingVote.isSome = true := by simpa [persistenceRequired, free] using held
      simp [persistenceRequired, heard, vote]
    · cases active : a.active
      · exact .inr rfl
      · exact .inl (by simp [persistenceRequired, waiter, active])
  | castVote _ _ free =>
    refine ⟨fun held => ?_, .inr ?_⟩
    · have promise : a.pendingPromise.isSome = true := by
        simpa [persistenceRequired, free] using held
      simp [persistenceRequired, promise]
    · cases active : a.active
      · exact .inr rfl
      · exact .inl (by simp [persistenceRequired, waiter, active])
  | release => exact absurd rfl holds
  | _ => exact notes_same rfl rfl

/-- A reply that goes at once speaks of the snapshot as it is. -/
theorem Move.speaks (move : Move a now i next effects) (holds : i ≠ .persisted) :
    ∀ e ∈ effects, e.SpeaksOf a.snapshot := by
  intro e mem
  cases move with
  | repeatPromise _ known =>
    rw [List.mem_singleton.1 mem]
    exact ⟨known, rfl, rfl⟩
  | repeatVote _ known value =>
    rw [List.mem_singleton.1 mem]
    exact ⟨known, value⟩
  | rejectPrepare _ promised | rejectAccept _ promised =>
    rw [List.mem_singleton.1 mem]
    exact promised
  | release => exact absurd rfl holds
  | _ => cases mem

end Acceptor

/-! ## Voters that are switched on and off -/

namespace Voter

/-- What happens to a voter between two restarts. -/
inductive Deed
  | prepare (now : Nat) (source : NodeId) (ballot : Ballot)
  | accept (source : NodeId) (ballot : Ballot) (value : Value)
  /-- Makes the snapshot durable, if a held reply waits for that. -/
  | persist
  | setActive (on : Bool)
deriving DecidableEq, Repr

def perform (w : Voter) : Deed → Voter × List Effect
  | .prepare now source b => w.step (.prepare now source b)
  | .accept source b v => w.step (.accept source b v)
  | .persist => if w.acceptor.persistenceRequired then w.step .persist else (w, [])
  | .setActive on => ({ w with acceptor := w.acceptor.setActive on }, [])

def after (w : Voter) : List Deed → Voter
  | [] => w
  | d :: rest => (w.perform d).1.after rest

/-- A voter that recovered from a durable snapshot; a new one from the empty snapshot. -/
def resumed (s : Snapshot) (now window : Nat) : Voter where
  acceptor := (Acceptor.start now window).recover s
  durable := s

def saves (w : Voter) (d : Deed) : Bool :=
  decide (d = .persist) && w.acceptor.persistenceRequired

/-- Whether an inactive acceptor changes its snapshot. -/
def overlooks (w : Voter) (d : Deed) : Bool :=
  !w.acceptor.active && decide ((w.perform d).1.acceptor.snapshot ≠ w.acceptor.snapshot)

/-- Whether a change is overlooked in the end: made while inactive, and not saved since. -/
def overlooked (w : Voter) (before : Bool) : List Deed → Bool
  | [] => before
  | d :: rest => (w.perform d).1.overlooked (!w.saves d && (before || w.overlooks d)) rest

/-- Storage is due, or the snapshot is durable, or a change is overlooked. -/
def Tracked (w : Voter) (overlooked : Bool) : Prop :=
  w.acceptor.persistenceRequired = true ∨ w.acceptor.snapshot = w.durable ∨ overlooked = true

theorem perform_speaks (w : Voter) (free : w.acceptor.persistenceRequired = false) (d : Deed) :
    ∀ e ∈ (w.perform d).2, e.SpeaksOf w.acceptor.snapshot := by
  cases d with
  | prepare now source b => exact (w.acceptor.receivePrepare_move now source b).speaks (by simp)
  | accept source b v => exact (w.acceptor.receiveAccept_move 0 source b v).speaks (by simp)
  | persist => simp [perform, free]
  | setActive on => simp [perform]

/-- Without a save, the durable snapshot stays and changes are noted. -/
theorem perform_notes {w : Voter} {d : Deed} (unsaved : w.saves d = false) :
    (w.perform d).1.durable = w.durable ∧ w.acceptor.Notes (w.perform d).1.acceptor := by
  cases d with
  | prepare now source b =>
    exact ⟨rfl, (w.acceptor.receivePrepare_move now source b).notes (by simp)⟩
  | accept source b v => exact ⟨rfl, (w.acceptor.receiveAccept_move 0 source b v).notes (by simp)⟩
  | persist =>
    have free : w.acceptor.persistenceRequired = false := by simpa [saves] using unsaved
    simp only [perform, free]
    exact ⟨rfl, Acceptor.notes_same rfl rfl⟩
  | setActive on => exact ⟨rfl, Acceptor.notes_same rfl rfl⟩

/-- **A change is noticed or overlooked**, and a save makes up for both. -/
theorem Tracked.perform {w : Voter} {before : Bool} (tracked : w.Tracked before) (d : Deed) :
    (w.perform d).1.Tracked (!w.saves d && (before || w.overlooks d)) := by
  cases unsaved : w.saves d with
  | true =>
    obtain ⟨rfl, due⟩ : d = .persist ∧ w.acceptor.persistenceRequired = true := by
      simpa [saves] using unsaved
    refine .inr (.inl ?_)
    simp only [Voter.perform, due, if_true]
    rfl
  | false =>
    obtain ⟨durable, held, noticed⟩ := perform_notes unsaved
    simp only [Bool.not_false, Bool.true_and, Bool.or_eq_true, Tracked]
    rcases tracked with due | same | before
    · exact .inl (held due)
    · rcases noticed with stays | due | inactive
      · exact .inr (.inl (by rw [stays, same, durable]))
      · exact .inl due
      · by_cases stays : (w.perform d).1.acceptor.snapshot = w.acceptor.snapshot
        · exact .inr (.inl (by rw [stays, same, durable]))
        · exact .inr (.inr (.inr (by simp [overlooks, inactive, stays])))
    · exact .inr (.inr (.inl before))

theorem Tracked.after {w : Voter} {before : Bool} (tracked : w.Tracked before)
    (deeds : List Deed) : (w.after deeds).Tracked (w.overlooked before deeds) := by
  induction deeds generalizing w before with
  | nil => exact tracked
  | cons d rest ih => exact ih (tracked.perform d)

/-- **What is not due for storage is durable**, unless it was changed while inactive.  What is
said at once then is durable, too. -/
theorem snapshot_durable (s : Snapshot) (now window : Nat) (deeds : List Deed)
    (free : ((resumed s now window).after deeds).acceptor.persistenceRequired = false)
    (seen : (resumed s now window).overlooked false deeds = false) :
    let w := (resumed s now window).after deeds
    w.acceptor.snapshot = w.durable ∧ ∀ d, ∀ e ∈ (w.perform d).2, e.SpeaksOf w.durable := by
  intro w
  have start : (resumed s now window).Tracked false := .inr (.inl rfl)
  have durable : w.acceptor.snapshot = w.durable := by
    rcases start.after deeds with due | same | overlooked
    · exact absurd due (by simp [free])
    · exact same
    · exact absurd overlooked (by simp [seen])
  refine ⟨durable, fun d e mem => ?_⟩
  rw [← durable]
  exact w.perform_speaks free d e mem

/-- A promise is held while the voter is switched off, and saved while it is off; a vote is cast
and saved when it is on again. -/
def toggled : List Deed :=
  [ .prepare 0 "p" ⟨1, "p"⟩, .setActive false, .prepare 0 "q" ⟨2, "q"⟩, .persist,
    .prepare 0 "p" ⟨1, "p"⟩, .setActive true, .accept "p" ⟨1, "p"⟩ "x", .persist ]

theorem snapshot_durable_toggled :
    ((resumed {} 0 2000).after toggled).acceptor.persistenceRequired = false ∧
    (resumed {} 0 2000).overlooked false toggled = false ∧
    let w := (resumed {} 0 2000).after toggled
    w.acceptor.snapshot = w.durable ∧ ∀ d, ∀ e ∈ (w.perform d).2, e.SpeaksOf w.durable := by
  have free : ((resumed {} 0 2000).after toggled).acceptor.persistenceRequired = false := by
    decide +kernel
  have seen : (resumed {} 0 2000).overlooked false toggled = false := by decide +kernel
  exact ⟨free, seen, snapshot_durable {} 0 2000 toggled free seen⟩

/-- A promise of an inactive acceptor. -/
def silentPromise : List Deed :=
  [ .setActive false, .prepare 0 "p" ⟨5, "p"⟩, .setActive true ]

/-- Storage is not due, and the promise is given when it is asked for again.  A restart
forgets it. -/
theorem silentPromise_overlooked :
    let w := (resumed {} 0 2000).after silentPromise
    w.acceptor.persistenceRequired = false ∧ w.acceptor.snapshot ≠ w.durable ∧
      (w.perform (.prepare 0 "p" ⟨5, "p"⟩)).2 = [.promise "p" ⟨5, "p"⟩ none none] ∧
      w.durable.promised = none := by
  decide +kernel

end Voter

end Synod
