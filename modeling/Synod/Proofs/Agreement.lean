/-
Synod.Proofs.Agreement -- decisions agree where ballots are begun, and used once

A node begins a ballot when it stands at it and has no promise.  It earns its requests for
votes (`Earned`) if it has begun their ballots since it last restarted: then it counts
promises of these ballots only.  Where all requests are earned, and a ballot is used for one
value, every elementary action keeps a cluster `Sane` (`Sane.step`), and no two decisions
differ (`decisions_agree`), whatever is lost, repeated, reordered or restarted.

The nodes guarantee neither.  A restarted node counts promises its last life was given, and
asks for another value (`repeatedPromise_disagrees`).  Or it resumes below a ballot of its
last life, for which its acceptor ignored the prepare, and adds a promise of this ballot to
those of a lower one (`mixedPromises_disagree`).
-/
import Synod.Proofs.Cluster
import Synod.Proofs.Discipline

namespace Synod

set_option autoImplicit false

/-! ## Ballots that are begun -/

/-- Who asks for votes in this message, and under which ballot. -/
def Message.asker? : Message → Option (NodeId × Ballot)
  | .accept s b _ => some (s, b)
  | _ => none

namespace Cluster

/-- The ballots that nodes stand at without a promise. -/
def begun (c : Cluster) : List (NodeId × Ballot) :=
  (c.members.filter fun m => m.node.proposer.promises = []).map fun m =>
    (m.node.id, m.node.proposer.ballot)

/-- A node that restarts has begun nothing. -/
def Action.forget (started : List (NodeId × Ballot)) : Action → List (NodeId × Ballot)
  | .restart id => started.filter fun x => x.1 ≠ id
  | _ => started

/-- In each step, votes are asked for by nodes that have begun the ballot since they last
restarted. -/
def Earned : List (NodeId × Ballot) → Cluster → List Action → Prop
  | _, _, [] => True
  | started, c, a :: rest =>
    (c.step a).2.announced.filterMap Message.asker? ⊆ started ∧
      Earned (a.forget started ++ (c.step a).1.begun) (c.step a).1 rest

instance decidableEarned : (started : List (NodeId × Ballot)) → (c : Cluster) →
    (actions : List Action) → Decidable (Earned started c actions)
  | _, _, [] => .isTrue trivial
  | started, c, a :: rest =>
    have := decidableEarned (a.forget started ++ (c.step a).1.begun) (c.step a).1 rest
    inferInstanceAs (Decidable ((c.step a).2.announced.filterMap Message.asker? ⊆ started ∧
      Earned (a.forget started ++ (c.step a).1.begun) (c.step a).1 rest))

/-- What every elementary action keeps. -/
structure Sane (names : List NodeId) (quorum : Nat) (voters : NodeId → Voter)
    (started : List (NodeId × Ballot)) (h : History) (c : Cluster) : Prop where
  named : c.names = names
  distinct : c.Distinct
  size : c.quorum = quorum
  unled : c.leader = none
  lawful : h.Lawful names quorum voters
  holds : ∀ m ∈ c.members, voters m.node.id = m.voter
  fit : ∀ m ∈ c.members, m.Fit names quorum h fun r b => (r, b) ∈ started
  idle : c.Idle
  backed : ∀ e ∈ c.pool, e.message.Backed h

/-- A sane cluster, and traffic that the history accounts for. -/
def Reaches (names : List NodeId) (quorum : Nat) (started : List (NodeId × Ballot)) (h : History)
    (r : Cluster × Carried) : Prop :=
  ∃ voters k, Delivers names quorum h k r.2 ∧ r.1.Sane names quorum voters started k

variable {names : List NodeId} {quorum : Nat} {voters : NodeId → Voter}
  {started : List (NodeId × Ballot)} {h k : History} {c : Cluster} {m : Member}

theorem mem_begun {r : NodeId} {b : Ballot} :
    (r, b) ∈ c.begun ↔ ∃ m ∈ c.members, m.node.proposer.promises = [] ∧ m.node.id = r ∧
      m.node.proposer.ballot = b := by
  simp [begun, and_assoc]

/-- Forgetting what was begun, and adding what is. -/
theorem Sane.renew (sane : c.Sane names quorum voters started h) {less : List (NodeId × Ballot)}
    (sub : less ⊆ started) : c.Sane names quorum voters (less ++ c.begun) h := by
  refine { sane with fit := fun m mem => (sane.fit m mem).renew fun b new => ?_ }
  rcases List.mem_append.1 new with old | bare
  · exact .inl (sub old)
  · obtain ⟨m', mem', none, same, ballot⟩ := mem_begun.1 bare
    rw [eq_of_id sane.distinct mem mem' same] at none ballot
    exact .inr ⟨ballot.symm, none⟩

/-! ## One member acts -/

/-- Messages may be lost and repeated, and time may pass. -/
theorem Sane.network (sane : c.Sane names quorum voters started h) {pool : List Envelope}
    (sub : pool ⊆ c.pool) (now : Nat) :
    ({ c with pool, now } : Cluster).Sane names quorum voters started h :=
  { sane with backed := fun e mem => sane.backed e (sub mem) }

theorem Sane.busy (sane : c.Sane names quorum voters started h) (mem : m ∈ c.members) :
    m.Busy names quorum voters (fun r b => (r, b) ∈ started) h where
  fit := sane.fit m mem
  lawful := by
    rw [← sane.holds m mem, Function.update_eq_self]
    exact sane.lawful
  own := by simp [sane.idle m mem]
  backed := by simp [sane.idle m mem]

theorem Sane.reaches (sane : c.Sane names quorum voters started h) :
    Reaches names quorum started h c.collect := by
  rw [collect_idle sane.idle]
  exact ⟨voters, h, .refl h, sane⟩

/-- **A cluster stays sane while one member acts** and its traffic is carried, if what it
announces is permitted. -/
theorem Sane.deed (sane : c.Sane names quorum voters started h) (mem : m ∈ c.members)
    {f : Member → Member} (id : (f m).node.id = m.node.id) {less : List (NodeId × Ballot)}
    (sub : less ⊆ started) (grows : h.Grows k) (requests : k.requests = h.requests)
    (busy : (f m).Busy names quorum voters (fun r b => (r, b) ∈ less) k)
    (permitted : Permitted (fun r b => (r, b) ∈ less) h.requests
      (c.update m.node.id f).collect.2.announced) :
    Reaches names quorum less h (c.update m.node.id f).collect := by
  rw [collect_update sane.distinct sane.idle mem id] at permitted ⊢
  obtain ⟨l, delivers, after, quiet⟩ :=
    busy.collect c.now (c.others m.node.id) (requests ▸ permitted)
  have done := ((f m).collect_id c.now (c.others m.node.id)).trans id
  generalize (f m).collect c.now (c.others m.node.id) = r at *
  have names : (c.update m.node.id fun _ => r.1).names = c.names :=
    names_update fun _ _ _ => done
  have more := grows.trans delivers.grows
  refine ⟨Function.update voters m.node.id r.1.voter, l,
    ⟨more, requests ▸ delivers.requests, delivers.sent, delivers.decided⟩,
    names.trans sane.named, ?_, sane.size, sane.unled, done ▸ after.lawful, ?_, ?_, ?_, ?_⟩
  · exact (congrArg List.Nodup names).mpr sane.distinct
  · intro x found
    obtain ⟨k, old, ⟨-, rfl⟩ | ⟨other, rfl⟩⟩ := mem_update found
    · rw [done, Function.update_self]
    · rw [Function.update_of_ne other, sane.holds x old]
  · intro x found
    obtain ⟨k, old, ⟨-, rfl⟩ | ⟨-, rfl⟩⟩ := mem_update found
    · exact after.fit
    · exact ((sane.fit x old).mono more).renew fun b new => .inl (sub new)
  · intro x found
    obtain ⟨k, old, ⟨-, rfl⟩ | ⟨-, rfl⟩⟩ := mem_update found
    · exact quiet
    · exact sane.idle x old
  · intro e found
    rcases List.mem_append.1 found with old | new
    · exact (sane.backed e old).mono more
    · exact delivers.sent e new

/-- The member of a name acts, if there is one. -/
theorem Sane.change (sane : c.Sane names quorum voters started h) {id : NodeId}
    {f : Member → Member} (named : ∀ m, (f m).node.id = m.node.id)
    (answers : ∀ m ∈ c.members, m.node.id = id →
      (f m).Answers names quorum voters (fun r b => (r, b) ∈ started) h)
    (permitted : Permitted (fun r b => (r, b) ∈ started) h.requests
      (c.update id f).collect.2.announced) :
    Reaches names quorum started h (c.update id f).collect := by
  by_cases known : ∃ m ∈ c.members, m.node.id = id
  · obtain ⟨m, mem, rfl⟩ := known
    obtain ⟨k, grows, requests, busy⟩ := answers m mem rfl
    exact sane.deed mem (named m) (List.Subset.refl _) grows requests busy permitted
  · have absent : c.update id f = c :=
      update_absent (fun m mem same => known ⟨m, mem, same⟩) f
    rw [absent]
    exact sane.reaches

/-- One input of a node. -/
theorem Sane.answers (sane : c.Sane names quorum voters started h) (mem : m ∈ c.members)
    (input : Node.Input) (ordinary : input.Ordinary)
    (backed : ∀ x, input = .receive x → x.Backed h) :
    (m.absorb (m.node.step c.now input)).Answers names quorum voters
      (fun r b => (r, b) ∈ started) h :=
  (sane.busy mem).absorb c.now ordinary backed (.inl (sane.idle m mem))

/-- One input of the node of this name, other than a message. -/
theorem Sane.operate (sane : c.Sane names quorum voters started h) (id : NodeId)
    (input : Node.Input) (ordinary : input.Ordinary) (silent : ∀ x, input ≠ .receive x)
    (permitted : Permitted (fun r b => (r, b) ∈ started) h.requests
      (c.operate id fun n => n.step c.now input).collect.2.announced) :
    Reaches names quorum started h (c.operate id fun n => n.step c.now input).collect := by
  refine sane.change (fun m => (m.node.step_roles c.now input).id) (fun m mem _ => ?_) permitted
  exact sane.answers mem input ordinary fun x received => absurd received (silent x)

theorem Sane.pulse (sane : c.Sane names quorum voters started h) (mem : m ∈ c.members) :
    (m.absorb (let r := m.node.pulse c.now; (r.1, r.2 ++ r.1.resend))).Answers names quorum voters
      (fun r b => (r, b) ∈ started) h := by
  rw [absorb_pulse]
  obtain ⟨k, grows, requests, busy⟩ :=
    sane.answers mem .pulse trivial fun _ same => by cases same
  have resend : Node.Input.resend.Ordinary := trivial
  obtain ⟨l, more, still, after⟩ :=
    busy.absorb c.now resend (fun _ same => by cases same) (.inr rfl)
  exact ⟨l, grows.trans more, still.trans requests, after⟩

/-! ## New nodes -/

/-- A resumed node is fit, whatever happened before it. -/
theorem fit_resume (setup : Setup) (unled : setup.leader = none) (member : setup.id ∈ names)
    (size : setup.quorum = quorum) (now : Nat) (s : Snapshot)
    (same : m.node = Node.resume setup now s) {fresh : NodeId → Ballot → Prop}
    (stale : ∀ b, ¬ fresh setup.id b) : m.Fit names quorum h fresh := by
  have alone : setup.leader ≠ some setup.id := by simp [unled]
  obtain ⟨idle, bare, unheard⟩ := Node.resume_bare alone now s
  obtain ⟨owner, promises⟩ := Node.resume_identity setup now s
  rw [← same] at idle bare unheard owner promises
  have id : m.node.id = setup.id := by rw [same]; rfl
  have learner : m.node.learner = .start setup.quorum := by rw [same]; rfl
  refine ⟨id ▸ member, owner.trans id.symm, promises.trans size, ?_, ?_, ?_, ?_⟩
  · exact (Proposer.collected_bare _ idle bare).renew fun b new => absurd (id ▸ new) (stale b)
  · intro a found
    rw [unheard] at found
    cases found
  · rw [learner]
    exact size
  · rw [learner]
    exact Learner.counts_start _ _

theorem sane_start (names : List NodeId) (quorum : Nat) (timing : Timing) :
    (start names quorum timing none).Sane (start names quorum timing none).names quorum
      (fun _ => .start 0 timing.livenessWindow) (start names quorum timing none).begun {} := by
  have origin : ∀ m ∈ (start names quorum timing none).members,
      ∃ id ∈ names.foldr insertName [], m = { node := Node.start { id, quorum, timing } 0 } := by
    intro m mem
    obtain ⟨id, known, rfl⟩ := List.mem_map.1 mem
    exact ⟨id, known, rfl⟩
  have bare : (start names quorum timing none).Sane (start names quorum timing none).names quorum
      (fun _ => .start 0 timing.livenessWindow) [] {} := by
    refine ⟨rfl, (distinct_start names quorum timing none).1, rfl, rfl,
      History.lawful_start _ _, fun m mem => ?_, fun m mem => ?_, fun m mem => ?_,
      fun e mem => absurd mem (by simp [start])⟩
    · obtain ⟨id, -, rfl⟩ := origin m mem
      rfl
    · obtain ⟨id, known, rfl⟩ := origin m mem
      rw [names_start]
      exact fit_resume { id, quorum, timing } rfl known rfl 0 {} rfl (by simp)
    · obtain ⟨id, -, rfl⟩ := origin m mem
      rfl
  exact bare.renew (List.Subset.refl _)

/-- A node restarts from its durable snapshot, and announces nothing. -/
theorem Sane.restart (sane : c.Sane names quorum voters started h) (id : NodeId) :
    Reaches names quorum (Action.forget started (.restart id)) h
      (c.act (.restart id)).1.collect := by
  let f (m : Member) : Member :=
    { m with node := Node.resume (c.setup id) c.now m.durable, queue := [] }
  show Reaches names quorum (Action.forget started (.restart id)) h (c.update id f).collect
  have less : Action.forget started (.restart id) ⊆ started := List.filter_sublist.subset
  have quiet : (c.update id f).Idle := by
    intro x found
    obtain ⟨k, old, ⟨-, rfl⟩ | ⟨-, rfl⟩⟩ := mem_update found
    · rfl
    · exact sane.idle x old
  by_cases known : ∃ m ∈ c.members, m.node.id = id
  · obtain ⟨m, mem, rfl⟩ := known
    have member : m.node.id ∈ names := (sane.fit m mem).member
    refine sane.deed mem (f := f) rfl less (History.grows_record h m.node.id []) rfl
      ⟨?_, ?_, ?_, ?_⟩ ?_
    · have forgotten (b : Ballot) :
          (m.node.id, b) ∉ Action.forget started (.restart m.node.id) := by
        simp [Action.forget]
      exact fit_resume (c.setup m.node.id) sane.unled member sane.size c.now m.durable rfl forgotten
    · have move : Voter.Move m.voter (.restart c.now c.timing.livenessWindow) (f m).voter [] :=
        .restart
      rw [← sane.holds m mem] at move
      exact sane.lawful.move member move fun _ _ _ same => by cases same
    · simp [f]
    · simp [f]
    · rw [collect_idle quiet]
      refine ⟨by simp, fun x hx y hy same => ?_⟩
      simp only [requests, List.filterMap_nil, List.append_nil] at hx hy
      exact sane.lawful.single x.1 x.2 y.2 hx (same ▸ hy)
  · have absent : c.update id f = c :=
      update_absent (fun m mem same => known ⟨m, mem, same⟩) f
    have fewer : c.Sane names quorum voters (Action.forget started (.restart id)) h :=
      { sane with fit := fun m mem => (sane.fit m mem).renew fun b new => .inl (less new) }
    rw [absent]
    exact fewer.reaches

/-! ## Every action -/

/-- **Every elementary action keeps a cluster sane**, if what it announces is permitted. -/
theorem Sane.step (sane : c.Sane names quorum voters started h) {a : Action}
    (elementary : a.Elementary)
    (permitted : Permitted (fun r b => (r, b) ∈ started) h.requests (c.step a).2.announced) :
    Reaches names quorum (a.forget started ++ (c.step a).1.begun) h (c.step a) := by
  rw [step_elementary c elementary] at permitted ⊢
  suffices kept : Reaches names quorum (a.forget started) h (c.act a).1.collect by
    obtain ⟨voters', k, delivers, after⟩ := kept
    exact ⟨voters', k, delivers, after.renew (List.Subset.refl _)⟩
  cases a with
  | deliver index =>
    simp only [act] at permitted ⊢
    split at permitted
    · next e found =>
      have there : e ∈ c.pool := List.mem_of_getElem? found
      have taken := sane.network (List.eraseIdx_subset (k := c.place index)) c.now
      refine taken.change (fun m => ?_) (fun m mem _ => ?_) permitted
      · split
        · rfl
        · exact m.receive_id c.now e.message
      · split
        · exact (taken.busy mem).answers
        · refine taken.answers mem (.receive e.message) trivial fun x same => ?_
          cases same
          exact sane.backed e there
    · exact sane.reaches
  | drop index => exact (sane.network List.eraseIdx_subset c.now).reaches
  | duplicate index =>
    have sub : c.pool ++ (c.addressed? index).toList ⊆ c.pool := by
      intro e mem
      rcases List.mem_append.1 mem with old | copy
      · exact old
      · exact List.mem_of_getElem? (Option.mem_toList.1 copy)
    exact (sane.network sub c.now).reaches
  | advance duration => exact (sane.network (List.Subset.refl _) _).reaches
  | persist id =>
    exact sane.change Member.persist_id (fun m mem _ => (sane.busy mem).persist) permitted
  | propose id v => exact sane.operate id (.propose v) trivial (by simp) permitted
  | prepare id fresh => exact sane.operate id (.prepare fresh) trivial (by simp) permitted
  | pollLiveness id => exact sane.operate id .pollLiveness trivial (by simp) permitted
  | pulse id =>
    refine sane.change (fun m => ?_) (fun m mem _ => sane.pulse mem) permitted
    exact (m.node.step_roles c.now .pulse).id
  | restart id => exact sane.restart id
  | down id | up id =>
    refine sane.change (fun m => rfl) (fun m mem _ => ?_) permitted
    apply Member.Busy.answers
    exact (sane.busy mem).fewer rfl rfl (List.Subset.refl _)
  | settle | setActive => exact elementary.elim

/-- **A run keeps a cluster sane**, if its requests are earned and its ballots used once. -/
theorem Sane.run (sane : c.Sane names quorum voters started h) {actions : List Action}
    (elementary : ∀ a ∈ actions, a.Elementary) (earned : Earned started c actions)
    (once : UsedOnce (h.requests ++ requests (c.run actions).2.announced)) :
    ∃ started', Reaches names quorum started' h (c.run actions) := by
  induction actions generalizing c voters started h with
  | nil => exact ⟨started, voters, h, .refl h, sane⟩
  | cons a rest ih =>
    rw [run_cons] at once ⊢
    rw [Carried.append_announced, requests_append, ← List.append_assoc] at once
    have permitted : Permitted (fun r b => (r, b) ∈ started) h.requests
        (c.step a).2.announced := by
      refine ⟨fun s b v mem => earned.1 (List.mem_filterMap.2 ⟨_, mem, rfl⟩), ?_⟩
      exact once.mono (List.subset_append_left _ _)
    obtain ⟨voters', k, delivers, after⟩ := sane.step (elementary a List.mem_cons_self) permitted
    rw [← delivers.requests] at once
    obtain ⟨started', voters'', l, more, last⟩ :=
      ih after (fun b mem => elementary b (List.mem_cons_of_mem _ mem)) earned.2 once
    exact ⟨started', voters'', l, delivers.trans more, last⟩

/-- **Decisions agree**, at one node or at several, if every request for votes is earned and
no ballot is used for two values. -/
theorem decisions_agree {names : List NodeId} {quorum : Nat} (timing : Timing)
    {actions : List Action} (majority : names.length < 2 * quorum)
    (elementary : ∀ a ∈ actions, a.Elementary)
    (earned : Earned (start names quorum timing none).begun (start names quorum timing none)
      actions)
    (once : UsedOnce (requests ((start names quorum timing none).run actions).2.announced)) :
    ∀ d ∈ ((start names quorum timing none).run actions).2.decided,
      ∀ e ∈ ((start names quorum timing none).run actions).2.decided, d.value = e.value := by
  intro d hd e he
  have fewer := (distinct_start names quorum timing none).2
  obtain ⟨started, voters, k, delivers, sane⟩ :=
    (sane_start names quorum timing).run elementary earned (by simpa using once)
  exact sane.lawful.chosen_unique (by omega) (delivers.decided d hd) (delivers.decided e he)

/-- Three nodes, two of which make a quorum. -/
def trio : Cluster := start ["a", "b", "c"] 2 {} none

/-- A round of `a` that is decided, and after a restart of `b` a round of `b`, which carries
on the value of the first. -/
def carriedOn : List Action :=
  [ .propose "a" "x", .prepare "a" true, .deliver 2, .deliver 0, .persist "b", .deliver 1,
    .deliver 1, .persist "b", .deliver 6,
    .restart "b", .propose "b" "y", .prepare "b" true, .deliver 9, .deliver 8, .persist "c",
    .deliver 8, .deliver 9, .persist "c", .deliver 14 ]

theorem decisions_agree_carriedOn :
    (["a", "b", "c"] : List NodeId).length < 2 * 2 ∧ (∀ a ∈ carriedOn, a.Elementary) ∧
      Earned trio.begun trio carriedOn ∧ UsedOnce (requests (trio.run carriedOn).2.announced) ∧
      (trio.run carriedOn).2.decided = [⟨"a", ⟨1, "a"⟩, "x"⟩, ⟨"b", ⟨2, "b"⟩, "x"⟩] ∧
      ∀ d ∈ (trio.run carriedOn).2.decided, ∀ e ∈ (trio.run carriedOn).2.decided,
        d.value = e.value := by
  have elementary : ∀ a ∈ carriedOn, a.Elementary := by simp [carriedOn, Action.Elementary]
  have earned : Earned trio.begun trio carriedOn := by decide +kernel
  have once : UsedOnce (requests (trio.run carriedOn).2.announced) := by decide +kernel
  exact ⟨by decide, elementary, earned, once, by decide +kernel,
    decisions_agree {} (by decide) elementary earned once⟩

/-! ## Both conditions are needed -/

/-- The promise for the round of one life arrives in the next life, too. -/
def repeatedPromise : List Action :=
  [ .propose "a" "x", .prepare "a" true, .duplicate 0, .deliver 0,
    .restart "a", .propose "a" "y", .deliver 0 ]

/-- One node decides two values, under a ballot that it has begun in both lives. -/
theorem repeatedPromise_disagrees :
    (∀ a ∈ repeatedPromise, a.Elementary) ∧
      Earned (start ["a"] 1 {} none).begun (start ["a"] 1 {} none) repeatedPromise ∧
      ((start ["a"] 1 {} none).run repeatedPromise).2.decided =
        [⟨"a", ⟨1, "a"⟩, "x"⟩, ⟨"a", ⟨1, "a"⟩, "y"⟩] :=
  ⟨by simp [repeatedPromise, Action.Elementary], by decide +kernel, by decide +kernel⟩

/-- While `a` holds a promise to `c`, its own prepare of a second round is ignored.  After the
restart a promise of the first round and one of the second make up a quorum. -/
def mixedPromises : List Action :=
  [ .prepare "a" true, .propose "c" "y", .prepare "c" true, .deliver 3, .prepare "a" true,
    .deliver 5, .persist "b", .deliver 4, .deliver 5, .deliver 6, .persist "a", .deliver 12,
    .restart "a", .propose "a" "x", .deliver 2, .deliver 4, .deliver 10, .persist "b",
    .deliver 13 ]

/-- Two nodes decide two values, under ballots that are used once. -/
theorem mixedPromises_disagree :
    (∀ a ∈ mixedPromises, a.Elementary) ∧
      UsedOnce (requests (trio.run mixedPromises).2.announced) ∧
      (trio.run mixedPromises).2.decided = [⟨"c", ⟨1, "c"⟩, "y"⟩, ⟨"b", ⟨2, "a"⟩, "x"⟩] :=
  ⟨by simp [mixedPromises, Action.Elementary], by decide +kernel, by decide +kernel⟩

end Cluster

end Synod
