/-
Synod.Proofs.Registration -- whether a node's own request reaches its durable promise

A node hears its own request first, and saves its snapshot before others hear of it.  Meanwhile
saves may have lagged behind, and restarts may have come between: `Lives` is everything such a
node may come to.

What it then saves promises the ballot it asks for, unless its acceptor ignored the request because
a reply of this kind was held for something lower.  In that case it saves the lower promise, and
nothing is held any more that would tell (`own_request_durable_iff`).
-/
import Synod.Proofs.Durable

namespace Synod

set_option autoImplicit false

/-- A request that is ignored leaves the promise as it is. -/
theorem Acceptor.Ignores.promised_eq {a : Acceptor} {message : Message} {b : Ballot}
    (ignores : a.Ignores message) (asks : message.asks? = some b) (valid : b.Valid) (now : Nat) :
    a.promised < some b ∧
      (a.heed now (Node.acceptorOrder (.receive message))).1.promised = a.promised := by
  cases message with
  | prepare source c =>
    cases asks
    obtain ⟨held, lower⟩ := ignores.resolve_left (not_not.2 valid)
    refine ⟨lower, ?_⟩
    show (a.receivePrepare now source b).1.promised = a.promised
    have kept : { a with lastPrepare := now }.takePromise source b =
        { a with lastPrepare := now } := if_neg held
    simp only [receivePrepare, if_pos valid, kept]
    repeat' split
    all_goals rfl
  | accept source c v =>
    cases asks
    obtain ⟨held, lower⟩ := ignores.resolve_left (not_not.2 valid)
    refine ⟨lower, ?_⟩
    show (a.receiveAccept source b v).1.promised = a.promised
    have kept : a.castVote source b v = a := if_neg held
    simp only [receiveAccept, if_pos valid, kept]
    repeat' split
    all_goals rfl
  | _ => cases asks

namespace Member

/-- What a node of this name may come to while saves lag behind, over all its lives. -/
inductive Lives (name : NodeId) : Member → Prop
  | start {setup : Setup} {now : Nat} (named : setup.id = name) :
      Lives name { node := .start setup now }
  | operate {m : Member} (lives : Lives name m) (now : Nat) {input : Node.Input}
      (ordinary : input.Ordinary) : Lives name (m.absorb (m.node.step now input))
  | save {m : Member} (lives : Lives name m) : Lives name m.persist
  | restart {m : Member} (lives : Lives name m) {setup : Setup} {now : Nat}
      (named : setup.id = name) : Lives name (begin setup now m.durable)

variable {name : NodeId} {m : Member}

/-- A new life is sturdy, if it begins from a coherent snapshot. -/
theorem begin_sturdy {setup : Setup} (named : setup.id = name) (now : Nat) {s : Snapshot}
    (coherent : Voter.Coherent s) : (begin setup now s).Sturdy name where
  id := named
  owner := (Node.resume_identity setup now s).1.trans named
  sound := Voter.sound_restart coherent _ _
  own := by simp [begin]
  asks := by simp [begin]

theorem Lives.sturdy (lives : Lives name m) : m.Sturdy name := by
  induction lives with
  | start named => exact begin_sturdy named _ Voter.coherent_empty
  | operate _ now ordinary ih => exact ih.absorb now ordinary
  | save _ ih => exact ih.persist
  | restart _ named ih => exact begin_sturdy named _ ih.sound.durable

/-- **When a node's own request becomes durable.**  Once the node has heard a request it made in
this life, and has persisted, the snapshot saved last promises the ballot of the request, unless the
acceptor ignored it.  If it did, this snapshot promises what the node had promised before, which is
less, and no reply is held. -/
theorem own_request_durable_iff (named : name ≠ "") (lives : Lives name m) {x : Message}
    {b : Ballot} (asked : .broadcast x ∈ m.queue) (asks : x.asks? = some b) (now : Nat) :
    let saved := (m.receive now x).persist
    (some b ≤ saved.durable.promised ↔ ¬ m.node.acceptor.Ignores x) ∧
    (m.node.acceptor.Ignores x → saved.durable.promised = m.node.acceptor.promised ∧
      m.node.acceptor.promised < some b ∧ saved.node.persistenceRequired = false) := by
  intro saved
  have sturdy := lives.sturdy
  have owner : b.owner = name := sturdy.asks _ asked b ⟨x, rfl, asks⟩
  have valid : b.Valid := fun unowned => named (owner.symm.trans unowned)
  have durable : saved.durable.promised = (m.receive now x).node.acceptor.promised :=
    persist_durable (sturdy.receive now x).sound
  -- an ignored request changes nothing, so that the lower promise is what gets saved
  have unchanged (ignores : m.node.acceptor.Ignores x) :
      saved.durable.promised = m.node.acceptor.promised ∧ m.node.acceptor.promised < some b := by
    obtain ⟨lower, kept⟩ := ignores.promised_eq asks valid now
    refine ⟨durable.trans ?_, lower⟩
    have heeds := (m.node.step_roles now (.receive x)).acceptor
    exact (congrArg (·.promised) heeds).trans kept
  refine ⟨⟨fun promised ignores => ?_, fun heard => ?_⟩, fun ignores => ?_⟩
  · obtain ⟨same, lower⟩ := unchanged ignores
    rw [same] at promised
    exact absurd lower (not_lt.2 promised)
  · rw [durable]
    exact (m.receive_registers sturdy.sound now asks).resolve_left heard
  · obtain ⟨same, lower⟩ := unchanged ignores
    refine ⟨same, lower, ?_⟩
    show (m.receive now x).persist.node.persistenceRequired = false
    unfold Member.persist
    split
    · rfl
    · next idle => simpa using idle

/-- Node `b` holds the promise of a rival's ballot. -/
def rivalPromised : Member :=
  ({ node := .start { id := "b", quorum := 2 } 0 } : Member).receive 0 (.prepare "a" ⟨1, "a"⟩)

theorem lives_rivalPromised : Lives "b" rivalPromised := by
  have ordinary : (Node.Input.receive (.prepare "a" ⟨1, "a"⟩)).Ordinary := trivial
  have fresh : Lives "b" { node := .start { id := "b", quorum := 2 } 0 } := .start rfl
  exact fresh.operate 0 ordinary

/-- The member after its node has begun a round. -/
def asking (m : Member) : Member := m.absorb (m.node.step 0 (.prepare true))

/-- If that promise is saved before `b` asks for one itself, its own ballot becomes durable. -/
theorem own_request_durable_saved :
    let m := rivalPromised.persist.asking
    "b" ≠ "" ∧ Lives "b" m ∧ .broadcast (.prepare "b" ⟨1, "b"⟩) ∈ m.queue ∧
      some ⟨1, "b"⟩ ≤ (m.receive 0 (.prepare "b" ⟨1, "b"⟩)).persist.durable.promised := by
  intro m
  have begins : (Node.Input.prepare true).Ordinary := trivial
  have lives : Lives "b" m := lives_rivalPromised.save.operate 0 begins
  have asked : .broadcast (.prepare "b" ⟨1, "b"⟩) ∈ m.queue := by decide
  have heard : ¬ m.node.acceptor.Ignores (.prepare "b" ⟨1, "b"⟩) := by
    rintro (unowned | ⟨held, -⟩)
    · exact unowned (by decide)
    · exact held (by decide)
  exact ⟨by decide, lives, asked,
    (own_request_durable_iff (by decide) lives asked rfl 0).1.2 heard⟩

/-- If it is not, `b` saves the rival's ballot only, and nothing shows that its own is missing. -/
theorem rivalPromised_unrecorded :
    let m := rivalPromised.asking
    let saved := (m.receive 0 (.prepare "b" ⟨1, "b"⟩)).persist
    Lives "b" m ∧ m.queue.getLast? = some (.broadcast (.prepare "b" ⟨1, "b"⟩)) ∧
      saved.durable.promised = some ⟨1, "a"⟩ ∧ ¬ some ⟨1, "b"⟩ ≤ saved.durable.promised ∧
      saved.node.persistenceRequired = false := by
  have begins : (Node.Input.prepare true).Ordinary := trivial
  exact ⟨lives_rivalPromised.operate 0 begins, by decide, by decide, by decide, by decide⟩

end Member

end Synod
