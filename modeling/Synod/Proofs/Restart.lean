/-
Synod.Proofs.Restart -- what a restarted node may repeat

A member lives through turns: an operation on its node or a chance to persist, after which
its own traffic is carried.  A life that ends is followed by another one, which starts from
the durable snapshot alone.

Whatever a member asks for reaches its own acceptor first, and unless the acceptor ignores
it the ballot is durably promised before anybody else hears of it (`Settled.turn`).  So
the next life resumes at or above all ballots of the last one, and asks for votes under an
old ballot only where it resumed, by promises that were given to the life before
(`reused_ballot_cases`).
-/
import Mathlib.Data.List.Induction
import Synod.Proofs.Member

namespace Synod

set_option autoImplicit false

/-! ## What an acceptor ignores -/

/-- Whether a request for this ballot leaves no trace: the ballot has no owner, or a reply
of this kind is held for something lower. -/
def Acceptor.Ignores (a : Acceptor) : Message → Prop
  | .prepare _ b => ¬ b.Valid ∨ a.pendingPromise ≠ none ∧ a.promised < some b
  | .accept _ b _ => ¬ b.Valid ∨ a.pendingVote ≠ none ∧ a.promised < some b
  | _ => False

theorem Acceptor.receivePrepare_registers (a : Acceptor) (now : Nat) (source : NodeId)
    (b : Ballot) :
    a.Ignores (.prepare source b) ∨ some b ≤ (a.receivePrepare now source b).1.promised := by
  have move := a.receivePrepare_move now source b
  generalize (a.receivePrepare now source b).1 = next at move ⊢
  generalize (a.receivePrepare now source b).2 = effects at move
  cases move with
  | dropPrepare invalid => exact .inl (.inl invalid)
  | ignorePrepare stale =>
    rcases lt_or_ge a.promised (some b) with lower | enough
    · exact .inl (.inr ⟨stale.resolve_left lower.not_ge, lower⟩)
    · exact .inr enough
  | repeatPromise _ known => exact .inr known.ge
  | rejectPrepare _ promised lower => exact .inr (by simpa [heard, promised] using lower.le)
  | takePromise => exact .inr le_rfl

theorem Acceptor.receiveAccept_registers {a : Acceptor} (covered : a.accepted ≤ a.promised)
    (source : NodeId) (b : Ballot) (v : Value) :
    a.Ignores (.accept source b v) ∨ some b ≤ (a.receiveAccept source b v).1.promised := by
  have move := a.receiveAccept_move 0 source b v
  generalize (a.receiveAccept source b v).1 = next at move ⊢
  generalize (a.receiveAccept source b v).2 = effects at move
  cases move with
  | dropAccept invalid => exact .inl (.inl invalid)
  | ignoreAccept stale =>
    rcases lt_or_ge a.promised (some b) with lower | enough
    · rcases stale with ⟨known, -⟩ | higher | held
      · exact .inr (known ▸ covered)
      · exact .inr higher.le
      · exact .inl (.inr ⟨held, lower⟩)
    · exact .inr enough
  | repeatVote _ known => exact .inr (known ▸ covered)
  | rejectAccept _ promised lower => exact .inr (by simpa [promised] using lower.le)
  | castVote => exact .inr le_rfl

/-- A request for a ballot with an owner is ignored only while a reply is held. -/
theorem Acceptor.Ignores.held {a : Acceptor} {message : Message} {b : Ballot}
    (ignores : a.Ignores message) (asks : message.asks? = some b) (valid : b.Valid) :
    a.persistenceRequired = true := by
  have waits {reply : Option NodeId} (held : reply ≠ none) : reply.isSome = true :=
    Option.isSome_iff_ne_none.2 held
  cases message with
  | prepare | accept =>
    cases asks
    rcases ignores with invalid | ⟨held, -⟩
    · exact absurd valid invalid
    · simp [persistenceRequired, waits held]
  | _ => cases asks

namespace Member

/-- A request in one's own name is registered, unless it is ignored. -/
theorem receive_registers {m : Member} (sound : m.voter.Sound) (now : Nat) {message : Message}
    {b : Ballot} (asks : message.asks? = some b) :
    m.node.acceptor.Ignores message ∨
      some b ≤ (m.receive now message).node.acceptor.promised := by
  cases message with
  | prepare source c =>
    cases asks
    exact m.node.acceptor.receivePrepare_registers now source b
  | accept source c v =>
    cases asks
    exact Acceptor.receiveAccept_registers sound.current.covered source b v
  | _ => cases asks

/-! ## Turns -/

inductive Turn
  | operate (input : Node.Input)
  | persist
deriving DecidableEq, Repr

def turn (m : Member) (now : Nat) (others : List NodeId) : Turn → Member × Carried
  | .operate input => (m.absorb (m.node.step now input)).collect now others
  | .persist => m.persist.collect now others

/-- A node stays active, and restarts only between lives. -/
def Turn.Ordinary : Turn → Prop
  | .operate input => input.Ordinary
  | .persist => True

/-- What holds while a member carries the traffic of a turn, which it began as `m₀`. -/
structure Carrying (m₀ m : Member) (acc : Carried) : Prop where
  up : m.down = false
  id : m.node.id = m₀.node.id
  proposer : m.node.proposer = m₀.node.proposer
  sound : m.voter.Sound
  raised : m₀.durable.promised ≤ m.durable.promised
  own : ∀ o ∈ m.queue, o.Own m₀.node.id
  /-- A request is carried first, before the acceptor has changed. -/
  pending : (∀ o ∈ m.queue, ∀ b, ¬ o.Asks b) ∨
    m.node.acceptor = m₀.node.acceptor ∧ ∃ o rest, m.queue = o :: rest ∧ o ∈ m₀.queue ∧
      ∀ o' ∈ rest, ∀ b, ¬ o'.Asks b
  registered : ∀ x ∈ acc.announced, ∀ b, x.asks? = some b → .broadcast x ∈ m₀.queue ∧
    (m₀.node.acceptor.Ignores x ∨ some b ≤ m.durable.promised)

/-- The traffic behind the first piece asks for nothing. -/
theorem Carrying.rest {m₀ m : Member} {acc : Carried} (carrying : Carrying m₀ m acc)
    {o : Outbound} {rest : List Outbound} (traffic : m.queue = o :: rest) :
    ∀ o' ∈ rest, ∀ b, ¬ o'.Asks b := by
  rcases carrying.pending with quiet | ⟨-, o', rest', same, -, quiet⟩
  · rw [traffic] at quiet
    exact fun o' mem => quiet o' (List.mem_cons_of_mem _ mem)
  · rw [traffic] at same
    cases same
    exact quiet

theorem Carrying.broadcast {m₀ m : Member} {acc : Carried} (carrying : Carrying m₀ m acc)
    {x : Message} {rest : List Outbound} (traffic : m.queue = .broadcast x :: rest) (now : Nat)
    (sent : List Envelope) :
    Carrying m₀ ({ m with queue := rest }.receive now x).persist
      (acc ++ { sent := sent, announced := [x] }) := by
  have own : x.Own m.node.id := by
    rw [carrying.id]
    exact carrying.own (.broadcast x) (traffic ▸ List.mem_cons_self)
  let m₁ : Member := { m with queue := rest }
  have sound₁ : m₁.voter.Sound := carrying.sound
  have roles := m₁.node.step_roles now (.receive x)
  have ordinary : (Node.Input.receive x).Ordinary := trivial
  obtain ⟨i, move, -⟩ := m₁.absorb_move sound₁.active now ordinary
  have sound₂ := move.sound sound₁
  obtain ⟨effects, persisted⟩ := persist_persisted sound₂.active
  have still : (m₁.node.step now (.receive x)).1.proposer = m.node.proposer := by
    rw [roles.proposer, Node.orders_own own]
    rfl
  have queue : (m₁.receive now x).persist.queue =
      rest ++ outbound m₁.node.id (m₁.node.step now (.receive x)).2 ++
        outbound (m₁.receive now x).node.id effects := persisted.queue
  have self : (m₁.receive now x).node.id = m₀.node.id := roles.id.trans carrying.id
  refine ⟨persisted.down.trans carrying.up, persisted.id.trans self,
    persisted.proposer.trans (still.trans carrying.proposer), persisted.move.sound sound₂,
    carrying.raised.trans (persisted.move.durable_promised_le sound₂), ?own, .inl ?quiet,
    ?registered⟩
  case own =>
    intro o mem
    rw [queue] at mem
    rcases List.mem_append.1 mem with mem | reply
    · rcases List.mem_append.1 mem with old | new
      · exact carrying.own o (traffic ▸ List.mem_cons_of_mem _ old)
      · exact carrying.id ▸ Node.step_own new
    · exact self ▸ own_of_replies persisted.replies reply
  case quiet =>
    intro o mem b
    rw [queue] at mem
    rcases List.mem_append.1 mem with mem | reply
    · rcases List.mem_append.1 mem with old | new
      · exact carrying.rest traffic o old b
      · exact Node.not_asks_of_own own new b
    · exact not_asks_of_replies persisted.replies reply b
  case registered =>
    intro y mem b asks
    rcases List.mem_append.1 mem with old | new
    · obtain ⟨origin, kept⟩ := carrying.registered y old b asks
      refine ⟨origin, kept.imp_right fun le => ?_⟩
      exact le.trans (persisted.move.durable_promised_le sound₂)
    · rw [List.mem_singleton.1 new] at asks ⊢
      rcases carrying.pending with quiet | ⟨same, o, rest', split, origin, -⟩
      · exact absurd ⟨x, rfl, asks⟩ (quiet (.broadcast x) (traffic ▸ List.mem_cons_self) b)
      · rw [traffic] at split
        cases split
        refine ⟨origin, (m₁.receive_registers sound₁ now asks).imp (fun ignores => ?_) fun le => ?_⟩
        · exact same ▸ ignores
        · exact le.trans (persist_durable sound₂).ge

theorem Carrying.carry {m₀ m : Member} {acc : Carried} (carrying : Carrying m₀ m acc)
    {o : Outbound} {rest : List Outbound} (traffic : m.queue = o :: rest) (now : Nat)
    (others : List NodeId) :
    Carrying m₀ ({ m with queue := rest }.carry now others o).1
      (acc ++ ({ m with queue := rest }.carry now others o).2) := by
  cases o with
  | broadcast x => exact carrying.broadcast traffic now _
  | unicast | resolved =>
    refine ⟨carrying.up, carrying.id, carrying.proposer, carrying.sound, carrying.raised,
      fun o mem => carrying.own o (traffic ▸ List.mem_cons_of_mem _ mem),
      .inl (carrying.rest traffic), fun x mem => carrying.registered x ?_⟩
    simpa [Member.carry] using mem

/-- **All the traffic of a turn is carried, and its requests are registered.** -/
theorem Carrying.collect {m₀ m : Member} (carrying : Carrying m₀ m {}) (now : Nat)
    (others : List NodeId) :
    Carrying m₀ (m.collect now others).1 (m.collect now others).2 ∧
      (m.collect now others).1.queue = [] :=
  collect_keeps now others (I := Carrying m₀)
    (fun m o rest acc traffic _ carrying => carrying.carry traffic now others)
    (fun m acc down carrying => absurd carrying.up (by simp [down])) carrying

/-! ## A turn -/

/-- A member between turns. -/
structure Settled (name : NodeId) (quorum : Nat) (m : Member) : Prop where
  idle : m.queue = []
  up : m.down = false
  id : m.node.id = name
  owner : m.node.proposer.ballot.owner = name
  quorum : m.node.proposer.quorum = quorum
  sound : m.voter.Sound

theorem carrying_start {m₀ : Member} (up : m₀.down = false) (sound : m₀.voter.Sound)
    (own : ∀ o ∈ m₀.queue, o.Own m₀.node.id)
    (pending : (∀ o ∈ m₀.queue, ∀ b, ¬ o.Asks b) ∨
      ∃ o rest, m₀.queue = o :: rest ∧ ∀ o' ∈ rest, ∀ b, ¬ o'.Asks b) :
    Carrying m₀ m₀ {} := by
  refine ⟨up, rfl, rfl, sound, le_rfl, own, pending.imp_right ?_, by simp⟩
  rintro ⟨o, rest, split, quiet⟩
  exact ⟨rfl, o, rest, split, split ▸ List.mem_cons_self, quiet⟩

/-- What a turn does to a settled member. -/
structure Turned (m m' : Member) (t : Turn) (announced : List Message) : Prop where
  raised : m.durable.promised ≤ m'.durable.promised
  /-- What moves keep, the turn keeps; only an operation orders any. -/
  keeps : ∀ P : Proposer → Prop,
    (∀ p q o, o ≠ .setLeader true → (∀ s b a v, o = .promise s b a v →
      t = .operate (.receive (.promise s b a v))) → p.Move o q → P p → P q) →
    P m.node.proposer → P m'.node.proposer
  /-- Requests are for the ballot the member stands at, and leave their trace. -/
  registered : ∀ x ∈ announced, ∀ b, x.asks? = some b →
    m'.node.proposer.ballot = b ∧ (m.node.acceptor.Ignores x ∨ some b ≤ m'.durable.promised)
  asks : ∀ s b v, .accept s b v ∈ announced → m'.node.proposer.Asks b v

/-- A turn ends with a settled member, and what its node's step has kept is kept. -/
theorem Carrying.settled {m₀ m : Member} {acc : Carried} (carrying : Carrying m₀ m acc)
    (idle : m.queue = []) {self : NodeId} {quorum : Nat} (id : m₀.node.id = self)
    (owner : m₀.node.proposer.ballot.owner = self) (size : m₀.node.proposer.quorum = quorum) :
    Settled self quorum m :=
  ⟨idle, carrying.up, carrying.id.trans id, carrying.proposer ▸ owner, carrying.proposer ▸ size,
    carrying.sound⟩

theorem Settled.operate {self : NodeId} {quorum : Nat} {m : Member}
    (settled : Settled self quorum m) (now : Nat) (others : List NodeId) {input : Node.Input}
    (ordinary : input.Ordinary) :
    Settled self quorum (m.turn now others (.operate input)).1 ∧
      Turned m (m.turn now others (.operate input)).1 (.operate input)
        (m.turn now others (.operate input)).2.announced := by
  obtain ⟨i, move, -⟩ := m.absorb_move settled.sound.active now ordinary
  have queue : (m.absorb (m.node.step now input)).queue =
      outbound m.node.id (m.node.step now input).2 := by
    show m.queue ++ _ = _
    rw [settled.idle, List.nil_append]
  have roles := m.node.step_roles now input
  have asked := m.node.step_asks now ordinary
  rw [← queue] at asked
  have start :
      Carrying (m.absorb (m.node.step now input)) (m.absorb (m.node.step now input)) {} := by
    refine carrying_start settled.up (move.sound settled.sound) (fun o mem => ?_)
      (asked.imp_right And.right)
    rw [queue] at mem
    exact roles.id.symm ▸ Node.step_own mem
  obtain ⟨carried, idle⟩ := start.collect now others
  have keeps (P : Proposer → Prop)
      (moves : ∀ p q o, o ≠ .setLeader true → (∀ s b a v, o = .promise s b a v →
        Turn.operate input = .operate (.receive (.promise s b a v))) → p.Move o q → P p → P q)
      (holds : P m.node.proposer) : P (m.node.step now input).1.proposer := by
    refine Node.step_keeps (fun p q o mem move => moves p q o ?_ ?_ move) holds
    · exact fun same => m.node.orders_elected now input (same ▸ mem)
    · exact fun s b a v same => congrArg _ (Node.orders_promise (same ▸ mem))
  refine ⟨carried.settled idle (roles.id.trans settled.id) ?_ ?_, ?_⟩
  · exact keeps (fun p => p.ballot.owner = self) (fun p q o _ _ move => move.owner.trans)
      settled.owner
  · exact keeps (fun p => p.quorum = quorum) (fun p q o _ _ move => move.quorum.trans)
      settled.quorum
  have proposer : (m.turn now others (.operate input)).1.node.proposer =
      (m.node.step now input).1.proposer := carried.proposer
  refine ⟨carried.raised, fun P moves holds => proposer ▸ keeps P moves holds, ?_, ?_⟩
  · intro x mem b asks
    obtain ⟨origin, trace⟩ := carried.registered x mem b asks
    have unchanged : (m.node.step now input).1.acceptor = m.node.acceptor := by
      rcases asked with quiet | ⟨same, -⟩
      · exact absurd ⟨x, rfl, asks⟩ (quiet _ origin b)
      · exact same
    refine ⟨?_, trace.imp_left fun ignores => unchanged ▸ ignores⟩
    rw [proposer]
    rw [queue] at origin
    rcases asks_of_mem_outbound origin ⟨x, rfl, asks⟩ with ⟨-, sent⟩ | ⟨v, -, sent⟩
    · exact (Node.step_prepare sent).1
    · exact (Node.step_accept sent).ballot
  · intro s b v mem
    obtain ⟨origin, -⟩ := carried.registered _ mem b rfl
    rw [queue] at origin
    rw [proposer]
    rcases asks_of_mem_outbound origin ⟨_, rfl, rfl⟩ with ⟨same, -⟩ | ⟨w, same, sent⟩
    · cases same
    · cases same
      exact Node.step_accept sent

theorem Settled.persist {self : NodeId} {quorum : Nat} {m : Member}
    (settled : Settled self quorum m) (now : Nat) (others : List NodeId) :
    Settled self quorum (m.turn now others .persist).1 ∧
      Turned m (m.turn now others .persist).1 .persist
        (m.turn now others .persist).2.announced := by
  obtain ⟨effects, persisted⟩ := m.persist_persisted settled.sound.active
  have queue : m.persist.queue = outbound m.node.id effects := by
    rw [persisted.queue, settled.idle, List.nil_append]
  have quiet : ∀ o ∈ m.persist.queue, ∀ b, ¬ o.Asks b := fun o mem =>
    not_asks_of_replies persisted.replies (queue ▸ mem)
  have start : Carrying m.persist m.persist {} := by
    refine carrying_start (persisted.down.trans settled.up) (persisted.move.sound settled.sound)
      (fun o mem => ?_) (.inl quiet)
    rw [queue] at mem
    exact persisted.id.symm ▸ own_of_replies persisted.replies mem
  obtain ⟨carried, idle⟩ := start.collect now others
  have silent : ∀ x ∈ (m.turn now others .persist).2.announced, ∀ b, x.asks? ≠ some b := by
    intro x mem b asks
    exact quiet _ (carried.registered x mem b asks).1 b ⟨x, rfl, asks⟩
  refine ⟨carried.settled idle (persisted.id.trans settled.id) (persisted.proposer ▸ settled.owner)
    (persisted.proposer ▸ settled.quorum), ?_, fun P _ holds => ?_, ?_, ?_⟩
  · exact (persisted.move.durable_promised_le settled.sound).trans carried.raised
  · exact carried.proposer ▸ persisted.proposer ▸ holds
  · exact fun x mem b asks => absurd asks (silent x mem b)
  · exact fun s b v mem => absurd rfl (silent _ mem b)

/-- **A turn registers what it asks for**, and ends settled. -/
theorem Settled.turn {self : NodeId} {quorum : Nat} {m : Member}
    (settled : Settled self quorum m) (now : Nat) (others : List NodeId) {t : Turn}
    (ordinary : t.Ordinary) :
    Settled self quorum (m.turn now others t).1 ∧
      Turned m (m.turn now others t).1 t (m.turn now others t).2.announced := by
  cases t with
  | operate input => exact settled.operate now others ordinary
  | persist => exact settled.persist now others

/-! ## Lives -/

def live (m : Member) (others : List NodeId) (turns : List (Nat × Turn)) : Member × Carried :=
  turns.foldl (fun r t => let s := r.1.turn t.1 others t.2; (s.1, r.2 ++ s.2)) (m, {})

theorem live_concat (m : Member) (others : List NodeId) (turns : List (Nat × Turn))
    (t : Nat × Turn) :
    m.live others (turns ++ [t]) = (((m.live others turns).1.turn t.1 others t.2).1,
      (m.live others turns).2 ++ ((m.live others turns).1.turn t.1 others t.2).2) := by
  simp [live, List.foldl_append]

/-- A new node, recovered from what is durable. -/
def begin (setup : Setup) (now : Nat) (s : Snapshot) : Member where
  node := Node.resume setup now s
  durable := s

/-- Somewhere in a life, a request for this ballot was ignored by the member's own
acceptor. -/
def Ignored (m : Member) (others : List NodeId) (turns : List (Nat × Turn)) (b : Ballot) : Prop :=
  ∃ before t after, turns = before ++ t :: after ∧
    ∃ x ∈ ((m.live others before).1.turn t.1 others t.2).2.announced, x.asks? = some b ∧
      (m.live others before).1.node.acceptor.Ignores x

/-- A quorum of nodes sent promises of this ballot, which arrived in this life. -/
def Promised (turns : List (Nat × Turn)) (quorum : Nat) (b : Ballot) : Prop :=
  ∃ senders : List NodeId, senders.Nodup ∧ quorum ≤ senders.length ∧ ∀ s ∈ senders,
    ∃ now accepted value, (now, .operate (.receive (.promise s b accepted value))) ∈ turns

theorem Ignored.mono {m : Member} {others : List NodeId} {turns : List (Nat × Turn)} {b : Ballot}
    (ignored : m.Ignored others turns b) (t : Nat × Turn) : m.Ignored others (turns ++ [t]) b := by
  obtain ⟨before, u, after, rfl, found⟩ := ignored
  exact ⟨before, u, after ++ [t], by simp, found⟩

theorem Promised.mono {turns : List (Nat × Turn)} {quorum : Nat} {b : Ballot}
    (promised : Promised turns quorum b) (t : Nat × Turn) : Promised (turns ++ [t]) quorum b := by
  obtain ⟨senders, distinct, enough, heard⟩ := promised
  refine ⟨senders, distinct, enough, fun s mem => ?_⟩
  obtain ⟨now, accepted, value, received⟩ := heard s mem
  exact ⟨now, accepted, value, List.mem_append_left _ received⟩

theorem begin_settled (setup : Setup) (now : Nat) {s : Snapshot} (coherent : Voter.Coherent s) :
    Settled setup.id setup.quorum (begin setup now s) where
  idle := rfl
  up := rfl
  id := rfl
  owner := (Node.resume_identity setup now s).1
  quorum := (Node.resume_identity setup now s).2
  sound := Voter.sound_restart coherent _ _

/-- What a life leaves behind of its requests. -/
theorem Settled.live_registers {self : NodeId} {quorum : Nat} {m : Member}
    (settled : Settled self quorum m) (others : List NodeId) {turns : List (Nat × Turn)}
    (ordinary : ∀ t ∈ turns, t.2.Ordinary) :
    Settled self quorum (m.live others turns).1 ∧
      ∀ x ∈ (m.live others turns).2.announced, ∀ b, x.asks? = some b →
        b.owner = self ∧ b.number ≤ (m.live others turns).1.node.proposer.ballot.number ∧
          (m.Ignored others turns b ∨ some b ≤ (m.live others turns).1.durable.promised) := by
  induction turns using List.reverseRecOn with
  | nil => exact ⟨settled, by simp [live]⟩
  | append_singleton turns t ih =>
    obtain ⟨before, registered⟩ := ih fun u mem => ordinary u (List.mem_append_left _ mem)
    obtain ⟨after, turned⟩ := before.turn t.1 others (ordinary t (by simp))
    rw [live_concat]
    refine ⟨after, fun x mem b asks => ?_⟩
    rcases List.mem_append.1 mem with old | new
    · obtain ⟨owner, number, trace⟩ := registered x old b asks
      refine ⟨owner, ?_, trace.imp (fun ignored => ignored.mono t) fun le => le.trans turned.raised⟩
      exact turned.keeps (fun p => b.number ≤ p.ballot.number)
        (fun p q o _ _ move le => UInt64.le_trans le move.number_le) number
    · obtain ⟨ballot, trace⟩ := turned.registered x new b asks
      subst ballot
      refine ⟨after.owner, UInt64.le_refl _, trace.imp_left fun ignores => ?_⟩
      exact ⟨turns, t, [], rfl, x, new, asks, ignores⟩

/-- What a life that began without promises asks votes for. -/
theorem Settled.live_asks {self : NodeId} {quorum : Nat} {m : Member}
    (settled : Settled self quorum m) (idle : m.node.proposer.leader = false)
    (bare : m.node.proposer.promises = []) (others : List NodeId) {turns : List (Nat × Turn)}
    (ordinary : ∀ t ∈ turns, t.2.Ordinary) :
    Settled self quorum (m.live others turns).1 ∧
      Proposer.Collected
        (fun s b accepted value =>
          ∃ now, (now, .operate (.receive (.promise s b accepted value))) ∈ turns)
        (fun c => c = m.node.proposer.ballot) (m.live others turns).1.node.proposer ∧
      ∀ s b v, .accept s b v ∈ (m.live others turns).2.announced →
        b.owner = self ∧ m.node.proposer.ballot.number ≤ b.number ∧
          (b = m.node.proposer.ballot → Promised turns quorum b) := by
  induction turns using List.reverseRecOn with
  | nil => exact ⟨settled, Proposer.collected_bare _ idle bare, by simp [live]⟩
  | append_singleton turns t ih =>
    obtain ⟨before, collected, asked⟩ := ih fun u mem => ordinary u (List.mem_append_left _ mem)
    obtain ⟨after, turned⟩ := before.turn t.1 others (ordinary t (by simp))
    rw [live_concat]
    have wider := collected.mono fun s b a v ⟨now, mem⟩ =>
      (⟨now, List.mem_append_left [t] mem⟩ :
        ∃ now, (now, Turn.operate (.receive (.promise s b a v))) ∈ turns ++ [t])
    have more := turned.keeps _ (fun p q o _ hears move collected =>
      Proposer.Collected.move collected move fun s b a v same =>
        ⟨t.1, List.mem_append_right _ (by rw [List.mem_singleton, ← hears s b a v same])⟩) wider
    refine ⟨after, more, fun s b v mem => ?_⟩
    rcases List.mem_append.1 mem with old | new
    · obtain ⟨owner, number, promised⟩ := asked s b v old
      exact ⟨owner, number, fun same => (promised same).mono t⟩
    · obtain ⟨leading, ballot, -⟩ := turned.asks s b v new
      subst ballot
      refine ⟨after.owner, (more.reached _ rfl).2, fun same => ?_⟩
      refine ⟨_, more.distinct same, after.quorum ▸ more.won leading, fun r mem => ?_⟩
      obtain ⟨accepted, value, ⟨now, received⟩, -⟩ := more.promised same r mem
      exact ⟨now, accepted, value, received⟩

/-- **A ballot is used in two lives for one of two reasons.**  Either the second life
resumed at this very ballot, and a quorum of promises of it arrived; or the first life's
own acceptor ignored a request for it. -/
theorem reused_ballot_cases {setup : Setup} (unled : setup.leader ≠ some setup.id)
    {s : Snapshot} (coherent : Voter.Coherent s) (now later : Nat) (others : List NodeId)
    {first second : List (Nat × Turn)}
    (ordinary : (∀ t ∈ first, t.2.Ordinary) ∧ ∀ t ∈ second, t.2.Ordinary)
    (left : ((begin setup now s).live others first).1.node.proposer.ballot.number <
      Ballot.lastRound)
    {x : Message} {b : Ballot} {source : NodeId} {v : Value}
    (before : x ∈ ((begin setup now s).live others first).2.announced) (asks : x.asks? = some b)
    (after : .accept source b v ∈ ((begin setup later
      ((begin setup now s).live others first).1.durable).live others second).2.announced) :
    b = (begin setup later
          ((begin setup now s).live others first).1.durable).node.proposer.ballot ∧
        Promised second setup.quorum b ∨
      Ignored (begin setup now s) others first b := by
  obtain ⟨settled, registered⟩ :=
    (begin_settled setup now coherent).live_registers others ordinary.1
  obtain ⟨owner, number, trace⟩ := registered x before b asks
  rcases trace with ignored | durable
  · exact .inr ignored
  refine .inl ?_
  generalize ((begin setup now s).live others first).1 = ended at *
  have resumed := begin_settled setup later settled.sound.durable
  obtain ⟨idle, bare, -⟩ := Node.resume_bare unled later ended.durable
  obtain ⟨-, -, asked⟩ := resumed.live_asks idle bare others ordinary.2
  obtain ⟨-, above, promised⟩ := asked source b v after
  -- the durable promise is at least `b`, so the second life resumed at least there
  obtain ⟨p, known⟩ : ∃ p, ended.durable.promised = some p := by
    cases known : ended.durable.promised with
    | none => simp [known] at durable
    | some p => exact ⟨p, rfl⟩
  have reached := Node.resume_reaches setup later known
  rw [known, Option.some_le_some] at durable
  have covered : b.number ≤ (begin setup later ended.durable).node.proposer.ballot.number :=
    UInt64.le_trans (Ballot.le_cap (Ballot.number_le_of_le durable)
      (UInt64.lt_of_le_of_lt number left)) reached
  have same : b = (begin setup later ended.durable).node.proposer.ballot :=
    Ballot.ext' (UInt64.le_antisymm covered above) (owner.trans resumed.owner.symm)
  exact ⟨same, promised same⟩

/-- Node `a`, with a quorum of two. -/
def nodeA : Setup := { id := "a", quorum := 2 }

/-- A round that is won, and ends with the life. -/
def wonRound : List (Nat × Turn) :=
  [ (0, .operate (.propose "x")), (0, .operate (.prepare true)),
    (0, .operate (.receive (.promise "a" ⟨1, "a"⟩ none none))),
    (0, .operate (.receive (.promise "b" ⟨1, "a"⟩ none none))) ]

/-- The promises of that round arrive again, after another value was proposed. -/
def latePromises : List (Nat × Turn) :=
  [ (0, .operate (.propose "y")),
    (0, .operate (.receive (.promise "a" ⟨1, "a"⟩ none none))),
    (0, .operate (.receive (.promise "b" ⟨1, "a"⟩ none none))) ]

/-- The restarted node counts the late promises, and asks for `y` under the ballot under
which it has asked for promises, and for `x`. -/
theorem latePromises_reuse_ballot :
    let ended := (begin nodeA 0 {}).live ["b"] wonRound
    .prepare "a" ⟨1, "a"⟩ ∈ ended.2.announced ∧ .accept "a" ⟨1, "a"⟩ "x" ∈ ended.2.announced ∧
      .accept "a" ⟨1, "a"⟩ "y" ∈
        ((begin nodeA 0 ended.1.durable).live ["b"] latePromises).2.announced := by
  decide +kernel

theorem reused_ballot_cases_latePromises :
    (∀ t ∈ wonRound, t.2.Ordinary) ∧ (∀ t ∈ latePromises, t.2.Ordinary) ∧
    (⟨1, "a"⟩ = (begin nodeA 0
          ((begin nodeA 0 {}).live ["b"] wonRound).1.durable).node.proposer.ballot ∧
        Promised latePromises 2 ⟨1, "a"⟩ ∨
      Ignored (begin nodeA 0 {}) ["b"] wonRound ⟨1, "a"⟩) := by
  have first : ∀ t ∈ wonRound, t.2.Ordinary := by
    simp [wonRound, Turn.Ordinary, Node.Input.Ordinary]
  have second : ∀ t ∈ latePromises, t.2.Ordinary := by
    simp [latePromises, Turn.Ordinary, Node.Input.Ordinary]
  have left : ((begin nodeA 0 {}).live ["b"] wonRound).1.node.proposer.ballot.number <
      Ballot.lastRound := by
    decide +kernel
  have before : .prepare "a" ⟨1, "a"⟩ ∈ ((begin nodeA 0 {}).live ["b"] wonRound).2.announced := by
    decide +kernel
  have after : .accept "a" ⟨1, "a"⟩ "y" ∈ ((begin nodeA 0
      ((begin nodeA 0 {}).live ["b"] wonRound).1.durable).live ["b"] latePromises).2.announced := by
    decide +kernel
  exact ⟨first, second, reused_ballot_cases (by decide) Voter.coherent_empty 0 0 ["b"]
    ⟨first, second⟩ left before rfl after⟩

/-- The other reason.  While the promise of a rival's prepare is held, the own prepare of
a second round goes unregistered; the life ends, and the promises that others gave of that
round arrive in the next one. -/
theorem ignored_prepare_reuses_ballot :
    let ended := (begin nodeA 0 {}).live ["b", "c"]
      [ (0, .operate (.prepare true)), (0, .operate (.receive (.prepare "c" ⟨1, "c"⟩))),
        (0, .operate (.prepare true)) ]
    let resumed := begin nodeA 0 ended.1.durable
    .prepare "a" ⟨2, "a"⟩ ∈ ended.2.announced ∧ resumed.node.proposer.ballot = ⟨1, "a"⟩ ∧
      .accept "a" ⟨2, "a"⟩ "y" ∈ (resumed.live ["b", "c"]
        [ (0, .operate (.propose "y")),
          (0, .operate (.receive (.promise "b" ⟨2, "a"⟩ none none))),
          (0, .operate (.receive (.promise "c" ⟨2, "a"⟩ none none))) ]).2.announced := by
  decide +kernel

end Member

end Synod
