/-
Synod.Proofs.Durable -- what peers hear of is on disk

`Course` is the history of one node.  A replica starts on an empty store or on what an
earlier life has left, wherever that life ended.  Before each input tables may break or work
again, and each piece of work that follows the input is a step of its own.

Whenever a broadcast is routed, it is held back, or else the peers get it and the store
holds the node's current snapshot; and if it asks for promises or votes, then its ballot is
promised there (`broadcast_durable`).

While the state table works, nothing is held between two pieces of work (`Flushed`), so that
the node's own acceptor ignores none of its requests.  While the table is broken, what was
held stays held, and so does the broadcast.
-/
import Synod.Proofs.Configuration
import Synod.Proofs.Reply
import Synod.Proofs.Restart
import Synod.Proofs.Storage

namespace Synod

set_option autoImplicit false

/-! ## Sturdy members -/

/-- Between restarts, a held reply is held until the voter persists. -/
theorem Voter.Move.holds {w w' : Voter} {input : Voter.Input} {effects : List Effect}
    (move : Voter.Move w input w' effects) (request : input ≠ .persist)
    (stays_up : ∀ now window, input ≠ .restart now window)
    (held : w.acceptor.persistenceRequired = true) : w'.acceptor.persistenceRequired = true := by
  cases move with
  | stay | hear | repeatPromise | repeatVote => exact held
  | takePromise | castVote => simp [Acceptor.persistenceRequired]
  | release => exact absurd rfl request
  | restart => exact absurd rfl (stays_up _ _)

/-- What everything a replica does keeps of its member: replies are held until they are
durable, and traffic is in the member's own name and asks for its own ballots. -/
structure Member.Sturdy (name : NodeId) (m : Member) : Prop where
  id : m.node.id = name
  owner : m.node.proposer.ballot.owner = name
  sound : m.voter.Sound
  own : ∀ o ∈ m.queue, o.Own name
  asks : ∀ o ∈ m.queue, ∀ b, o.Asks b → b.owner = name

namespace Member

variable {name : NodeId} {m : Member}

theorem Sturdy.absorb (sturdy : Sturdy name m) (now : Nat) {input : Node.Input}
    (ordinary : input.Ordinary) : Sturdy name (m.absorb (m.node.step now input)) := by
  have id : (m.node.step now input).1.id = name := (m.node.step_roles now input).id.trans sturdy.id
  have owner : (m.node.step now input).1.proposer.ballot.owner = name :=
    Node.step_keeps (P := fun p => p.ballot.owner = name)
      (fun p q o _ move same => move.owner.trans same) sturdy.owner
  obtain ⟨i, move, -⟩ := m.absorb_move sturdy.sound.active now ordinary
  refine ⟨id, owner, move.sound sturdy.sound, fun o mem => ?_, fun o mem b asks => ?_⟩
  · rcases List.mem_append.1 mem with old | new
    · exact sturdy.own o old
    · exact sturdy.id ▸ Node.step_own new
  · rcases List.mem_append.1 mem with old | new
    · exact sturdy.asks o old b asks
    · rw [← owner]
      rcases asks_of_mem_outbound new asks with ⟨-, sent⟩ | ⟨v, -, sent⟩
      · rw [(Node.step_prepare sent).1]
      · rw [(Node.step_accept sent).ballot]

theorem Sturdy.receive (sturdy : Sturdy name m) (now : Nat) (message : Message) :
    Sturdy name (m.receive now message) := by
  have ordinary : (Node.Input.receive message).Ordinary := trivial
  exact sturdy.absorb now ordinary

theorem Sturdy.persist (sturdy : Sturdy name m) : Sturdy name m.persist := by
  obtain ⟨effects, persisted⟩ := m.persist_persisted sturdy.sound.active
  refine ⟨persisted.id.trans sturdy.id, persisted.proposer ▸ sturdy.owner,
    persisted.move.sound sturdy.sound, fun o mem => ?_, fun o mem b asks => ?_⟩
  · rw [persisted.queue] at mem
    rcases List.mem_append.1 mem with old | reply
    · exact sturdy.own o old
    · exact sturdy.id ▸ own_of_replies persisted.replies reply
  · rw [persisted.queue] at mem
    rcases List.mem_append.1 mem with old | reply
    · exact sturdy.asks o old b asks
    · exact absurd asks (not_asks_of_replies persisted.replies reply b)

theorem Sturdy.tail {o : Outbound} {rest : List Outbound} (sturdy : Sturdy name m)
    (queued : m.queue = o :: rest) : Sturdy name { m with queue := rest } := by
  refine ⟨sturdy.id, sturdy.owner, sturdy.sound, fun o' mem => ?_, fun o' mem => ?_⟩
  · exact sturdy.own o' (queued ▸ List.mem_cons_of_mem _ mem)
  · exact sturdy.asks o' (queued ▸ List.mem_cons_of_mem _ mem)

/-- A request keeps what is held. -/
theorem receive_holds (active : m.node.acceptor.active = true) (now : Nat) {message : Message}
    {b : Ballot} (asks : message.asks? = some b) (held : m.node.persistenceRequired = true) :
    (m.receive now message).node.persistenceRequired = true := by
  cases message with
  | prepare source c =>
    have move : Voter.Move m.voter _ _ _ := Voter.step_move active (.prepare now source c)
    exact move.holds (by simp) (by simp) held
  | accept source c v =>
    have move : Voter.Move m.voter _ _ _ := Voter.step_move active (.accept source c v)
    exact move.holds (by simp) (by simp) held
  | _ => cases asks

end Member

namespace Replica

variable {name : NodeId} {r t : Replica}

/-- While the state table works, nothing is held. -/
def Flushed (r : Replica) : Prop :=
  .state ∉ r.store.brokenTables → r.node.persistenceRequired = false

theorem Leaves.flushed (leaves : Leaves r t) (flushed : r.Flushed) : t.Flushed := by
  intro works
  have same : t.node = r.node := congrArg Member.node leaves.member
  rw [same]
  exact flushed (leaves.broken ▸ works)

theorem Leaves.sturdy (leaves : Leaves r t) (sturdy : r.member.Sturdy name) :
    t.member.Sturdy name := by
  rw [leaves.member]
  exact sturdy

theorem persist_flushed (r : Replica) : r.persist.Flushed := by
  intro works
  rcases r.persist_cases with ⟨same, broken, -⟩ | ⟨-, idle, -⟩
  · rw [same] at works
    exact absurd broken works
  · exact idle

theorem sturdy_handle (sturdy : r.member.Sturdy name) (now : Nat) (message : Message) :
    (r.handle now message).member.Sturdy name := by
  rcases r.handle_member now message with same | received
  · rw [same]
    exact sturdy
  · rw [received]
    exact sturdy.receive now message

theorem sturdy_persist (sturdy : r.member.Sturdy name) : r.persist.member.Sturdy name := by
  rcases r.persist_cases with ⟨same, -, -⟩ | ⟨same, -, -⟩
  · rw [same]
    exact sturdy
  · rw [same]
    exact sturdy.persist

theorem sturdy_act (sturdy : r.member.Sturdy name) (now : Nat) (input : Input) :
    (r.act now input).member.Sturdy name := by
  cases input with
  | receive message => exact sturdy_handle sturdy now message
  | pollLiveness =>
    have ordinary : Node.Input.pollLiveness.Ordinary := trivial
    exact sturdy.absorb now ordinary
  | pulse =>
    have pulse : Node.Input.pulse.Ordinary := trivial
    have resend : Node.Input.resend.Ordinary := trivial
    rw [act_pulse]
    exact (sturdy.absorb now pulse).absorb now resend

theorem sturdy_route (sturdy : r.member.Sturdy name) (now : Nat) (o : Outbound) :
    (r.route now o).member.Sturdy name := by
  cases o with
  | broadcast message =>
    have announced := (r.handle now message).persist.announce_leaves message
    exact announced.sturdy (sturdy_persist (sturdy_handle sturdy now message))
  | unicast recipient message => exact (r.deliver_leaves recipient message).sturdy sturdy
  | resolved b v => exact (r.resolve_leaves b v).sturdy sturdy

/-- **Each piece of work keeps a member sturdy.** -/
theorem sturdy_step? (sturdy : r.member.Sturdy name) {now : Nat} (worked : r.step? now = some t) :
    t.member.Sturdy name := by
  rcases step?_cases worked with ⟨o, rest, queued, rfl⟩ | ⟨m, rest, -, -, rfl⟩
  · have behind : { r with queue := rest }.member.Sturdy name := sturdy.tail queued
    exact sturdy_route behind now o
  · have behind : { r with loopback := rest }.member.Sturdy name := sturdy
    exact sturdy_persist (sturdy_handle behind now m)

theorem route_flushed (flushed : r.Flushed) (now : Nat) (o : Outbound) :
    (r.route now o).Flushed := by
  cases o with
  | broadcast message =>
    have announced := (r.handle now message).persist.announce_leaves message
    exact announced.flushed (persist_flushed _)
  | unicast recipient message => exact (r.deliver_leaves recipient message).flushed flushed
  | resolved b v => exact (r.resolve_leaves b v).flushed flushed

theorem step?_flushed (flushed : r.Flushed) {now : Nat} (worked : r.step? now = some t) :
    t.Flushed := by
  rcases step?_cases worked with ⟨o, rest, -, rfl⟩ | ⟨m, rest, -, -, rfl⟩
  · have behind : { r with queue := rest }.Flushed := flushed
    exact route_flushed behind now o
  · exact persist_flushed _

/-! ## Lives -/

/-- A replica starts with what its store holds. -/
theorem start_eq {c : Config} {s : Store} {now : Nat} (started : start c s now = .ok r) :
    r = { node := .resume c.setup now s.saved, store := s, peers := c.peers.map MemberConfig.id,
          published := s.decision } := by
  unfold start at started
  cases loaded : s.load with
  | error e =>
    rw [loaded] at started
    cases started
  | ok found =>
    cases known : s.resolution with
    | error e =>
      rw [loaded, known] at started
      cases started
    | ok recorded =>
      rw [loaded, known] at started
      have saved := Store.saved_of_load loaded
      obtain ⟨-, rfl⟩ := Store.resolution_eq_ok.1 known
      cases started
      cases found <;> rw [← saved] <;> rfl

theorem start_member {c : Config} {s : Store} {now : Nat} (started : start c s now = .ok r) :
    r.member = { node := .resume c.setup now s.saved, durable := s.saved } := by
  rw [start_eq started]
  rfl

/-- A new life is sturdy, if what its store holds is coherent. -/
theorem sturdy_start {c : Config} {s : Store} {now : Nat} (started : start c s now = .ok r)
    (coherent : Voter.Coherent s.saved) : r.member.Sturdy c.node.id := by
  rw [start_member started]
  obtain ⟨owner, -⟩ := Node.resume_identity c.setup now s.saved
  exact ⟨rfl, owner, Voter.sound_restart coherent _ _, by simp, by simp⟩

/-- The same replica, with other tables broken. -/
def under (r : Replica) (broken : List Table) : Replica :=
  { r with store := { r.store with brokenTables := broken } }

inductive Phase
  /-- Waits for an input. -/
  | waiting
  /-- Does the work that followed an input. -/
  | working
  | stopped
deriving DecidableEq, Repr

/-- What a node of this name may come to, over all its lives. -/
inductive Course (name : NodeId) : Phase → Replica → Prop
  | first {c : Config} {now : Nat} {r : Replica} (valid : c.validate = .ok c)
      (named : c.node.id = name) (started : start c {} now = .ok r) : Course name .waiting r
  /-- A life ends anywhere, and another one starts on its store. -/
  | again {phase : Phase} {t : Replica} {broken : List Table} {c : Config} {now : Nat} {r : Replica}
      (course : Course name phase t) (valid : c.validate = .ok c) (named : c.node.id = name)
      (started : start c (t.under broken).store now = .ok r) : Course name .waiting r
  | input {s : Replica} (course : Course name .waiting s) (broken : List Table) (now : Nat)
      (input : Input) : Course name .working ((s.under broken).act now input).persist
  | work {s t : Replica} {now : Nat} (course : Course name .working s)
      (worked : s.step? now = some t) : Course name .working t
  | rest {s : Replica} {now : Nat} (course : Course name .working s)
      (idle : s.step? now = none) : Course name .waiting s
  | stop {s : Replica} (course : Course name .waiting s) (broken : List Table) :
      Course name .stopped (s.under broken).persist

/-- A flush is a course of its pieces of work. -/
theorem Course.settle {s : Replica} {now : Nat} (course : Course name .working s) :
    Course name .waiting (s.settle now) := by
  fun_induction Replica.settle s now with
  | case1 s t worked ih => exact ih (course.work worked)
  | case2 s idle => exact course.rest idle

theorem Course.step {s : Replica} (course : Course name .waiting s) (broken : List Table)
    (now : Nat) (input : Input) : Course name .waiting ((s.under broken).step now input) :=
  (course.input broken now input).settle

/-- What a course keeps. -/
structure Steady (name : NodeId) (phase : Phase) (r : Replica) : Prop where
  named : name ≠ ""
  sturdy : r.member.Sturdy name
  flushed : phase = .working → r.Flushed

theorem Course.steady {phase : Phase} (course : Course name phase r) : Steady name phase r := by
  induction course with
  | first valid named started =>
    subst named
    have named := (Config.valid_of_validate valid).named
    exact ⟨named, sturdy_start started Voter.coherent_empty, by simp⟩
  | again _ valid named started ih =>
    subst named
    have named := (Config.valid_of_validate valid).named
    exact ⟨named, sturdy_start started ih.sturdy.sound.durable, by simp⟩
  | @input s _ broken now input ih =>
    have sturdy : (s.under broken).member.Sturdy name := ih.sturdy
    exact ⟨ih.named, sturdy_persist (sturdy_act sturdy now input), fun _ => persist_flushed _⟩
  | work _ worked ih =>
    exact ⟨ih.named, sturdy_step? ih.sturdy worked, fun _ => step?_flushed (ih.flushed rfl) worked⟩
  | rest _ _ ih => exact ⟨ih.named, ih.sturdy, by simp⟩
  | @stop s _ broken ih =>
    have sturdy : (s.under broken).member.Sturdy name := ih.sturdy
    exact ⟨ih.named, sturdy_persist sturdy, by simp⟩

/-! ## Broadcasts -/

/-- A request for one's own ballot is registered, or something held before is held still. -/
theorem request_registered (named : name ≠ "") (sturdy : r.member.Sturdy name)
    (flushed : r.Flushed) (now : Nat) {message : Message} {b : Ballot}
    (asks : message.asks? = some b) (owner : b.owner = name) :
    (r.dispatch now message).persist.node.persistenceRequired = true ∨
      some b ≤ (r.dispatch now message).node.acceptor.promised := by
  have valid : b.Valid := fun unowned => named (owner.symm.trans unowned)
  rcases r.member.receive_registers sturdy.sound now asks with ignores | registered
  · have held : r.node.persistenceRequired = true := ignores.held asks valid
    have broken : .state ∈ r.store.brokenTables := by
      by_contra works
      exact absurd held (by simp [flushed works])
    have holds : (r.dispatch now message).node.persistenceRequired = true :=
      r.member.receive_holds sturdy.sound.active now asks held
    rcases (r.dispatch now message).persist_cases with ⟨same, -, -⟩ | ⟨-, -, idle⟩
    · rw [same]
      exact .inl holds
    · exact absurd holds (by simp [idle broken])
  · exact .inr registered

/-- A broadcast is held back while something waits for the store.  Otherwise it is handed
over, and what the peers hear of is durable. -/
theorem route_durable (named : name ≠ "") (sturdy : r.member.Sturdy name) (flushed : r.Flushed)
    (now : Nat) {message : Message} (own : message.Own r.id)
    (asks : ∀ b, message.asks? = some b → b.owner = name)
    (routed : r.route now (.broadcast message) = t) :
    t.sent = r.sent ∧ t.node.persistenceRequired = true ∨
      t.sent = r.sent ++ r.peers.map (fun recipient => ⟨recipient, message⟩) ∧
        t.store.saved = t.node.snapshot ∧
        ∀ b, message.asks? = some b → some b ≤ t.store.saved.promised := by
  have handled : (r.dispatch now message).member.Sturdy name := sturdy.receive now message
  have after := sturdy_persist handled
  obtain ⟨sent, peers⟩ := (r.dispatch now message).persist_sent
  have routed : (r.dispatch now message).persist.announce message = t := by
    rw [← routed, route, handle_own own]
  cases required : (r.dispatch now message).persist.node.persistenceRequired with
  | true =>
    rw [announce, if_pos required] at routed
    subst routed
    exact .inl ⟨sent, required⟩
  | false =>
    rw [announce, if_neg (by simp [required])] at routed
    subst routed
    have durable : (r.dispatch now message).persist.store.saved =
        (r.dispatch now message).persist.node.snapshot := after.sound.durable_eq required
    refine .inr ⟨by rw [sent, peers]; rfl, durable, fun b asked => ?_⟩
    show some b ≤ (r.dispatch now message).persist.store.saved.promised
    rcases request_registered named sturdy flushed now asked (asks b asked) with held | registered
    · rw [required] at held
      cases held
    · rcases (r.dispatch now message).persist_cases with ⟨same, -, held⟩ | ⟨persisted, -, -⟩
      · rw [same, held] at required
        cases required
      · have kept := Member.persist_durable handled.sound
        rw [← persisted] at kept
        exact registered.trans kept.ge

/-- **Durable before peers.**  When a broadcast is routed, it is held back, with something
waiting for the store; or the peers get it, and the store holds the node's current snapshot,
where the ballot is promised that the broadcast asks for. -/
theorem broadcast_durable {s : Replica} {now : Nat} {message : Message} {rest : List Outbound}
    (course : Course name .working s) (queued : s.queue = .broadcast message :: rest)
    (worked : s.step? now = some t) :
    t.sent = s.sent ∧ t.node.persistenceRequired = true ∨
      t.sent = s.sent ++ s.peers.map (fun recipient => ⟨recipient, message⟩) ∧
        t.store.saved = t.node.snapshot ∧
        ∀ b, message.asks? = some b → some b ≤ t.store.saved.promised := by
  obtain ⟨named, sturdy, flushed⟩ := course.steady
  let r : Replica := { s with queue := rest }
  have next : .broadcast message ∈ s.queue := queued ▸ List.mem_cons_self
  have own : message.Own r.id := by
    have self : r.id = name := sturdy.id
    rw [self]
    exact sturdy.own _ next
  have asks (b : Ballot) (asked : message.asks? = some b) : b.owner = name :=
    sturdy.asks _ next b ⟨message, rfl, asked⟩
  have routed : r.route now (.broadcast message) = t := by
    rw [step?, queued] at worked
    exact Option.some.inj worked
  have still : r.member.Sturdy name := sturdy.tail queued
  exact route_durable named still (flushed rfl) now own asks routed

/-- A node with one peer. -/
def pair : Config where
  node := { id := "a", bindAddress := "127.0.0.1:4000" }
  cluster := { members := [{ id := "b", address := "127.0.0.1:4001" }] }

/-- The first round of a pair's node, which it starts while the state table is broken. -/
def firstRound : Replica :=
  let new : Replica := { node := .start pair.setup 0, store := {}, peers := ["b"] }
  ((new.under [.state]).act 5000 .pollLiveness).persist

def heldBack : Replica :=
  { firstRound with queue := [] }.route 5000 (.broadcast (.prepare "a" ⟨1, "a"⟩))

/-- The second round, once the first was held back and the table works again. -/
def secondRound : Replica := ((heldBack.under []).act 8000 .pollLiveness).persist

theorem course_secondRound : Course "a" .working secondRound := by
  have new : Course "a" .waiting { node := .start pair.setup 0, store := {}, peers := ["b"] } :=
    .first (c := pair) rfl rfl (rfl : start pair {} 0 = _)
  have first : Course "a" .working firstRound := new.input [.state] 5000 .pollLiveness
  have queued : firstRound.queue = [.broadcast (.prepare "a" ⟨1, "a"⟩)] := by decide +kernel
  have worked : firstRound.step? 5000 = some heldBack := by
    rw [step?, queued]
    rfl
  have idle : heldBack.step? 5000 = none := by decide +kernel
  exact ((first.work worked).rest idle).input [] 8000 .pollLiveness

/-- The peer hears of the second round alone. -/
theorem broadcast_durable_secondRound :
    ∃ last, secondRound.step? 8000 = some last ∧ Course "a" .working secondRound ∧
      secondRound.queue = .broadcast (.prepare "a" ⟨2, "a"⟩) ::
        [.unicast "a" (.promise "a" ⟨1, "a"⟩ none none)] ∧
      last.sent = [⟨"b", .prepare "a" ⟨2, "a"⟩⟩] ∧
      last.store.saved = last.node.snapshot ∧
      some ⟨2, "a"⟩ ≤ last.store.saved.promised := by
  have queued : secondRound.queue = .broadcast (.prepare "a" ⟨2, "a"⟩) ::
      [.unicast "a" (.promise "a" ⟨1, "a"⟩ none none)] := by decide +kernel
  obtain ⟨last, worked⟩ : ∃ last, secondRound.step? 8000 = some last := ⟨_, by rw [step?, queued]⟩
  have released : last.node.persistenceRequired = false := by
    have found : (secondRound.step? 8000).map (·.node.persistenceRequired) = some false := by
      decide +kernel
    rw [worked] at found
    exact Option.some.inj found
  refine ⟨last, worked, course_secondRound, queued, ?_⟩
  rcases broadcast_durable course_secondRound queued worked with
    ⟨-, waits⟩ | ⟨sent, durable, promised⟩
  · rw [released] at waits
    cases waits
  · exact ⟨sent, durable, promised _ rfl⟩

end Replica

end Synod
