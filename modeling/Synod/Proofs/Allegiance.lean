/-
Synod.Proofs.Allegiance -- a live leader is left alone

A follower watches its leader: it knows the leader's ballot, and when it last heard of that very
ballot.  `step_watch` says once what an input can do to that watch, as long as the node neither
leads nor comes to lead.  Prepares, promises, votes and rejections do nothing to it, and neither
do heartbeats of lower ballots.

So the leader counts as dead once it has been silent for longer than the timeout, whatever others
send (`Loyal.run`).  Until then the follower does not try to take over, whenever it is asked to
(`live_leader_undisturbed`).
-/
import Synod.Proofs.Heartbeat

namespace Synod

set_option autoImplicit false

namespace Node

/-- The ballot that a heartbeat carries. -/
def Input.beat? : Input → Option Ballot
  | .receive (.heartbeat _ b) => some b
  | _ => none

variable {n : Node} {now last : Nat} {input : Input} {b : Ballot} {inputs : List (Nat × Input)}

/-! ## Watches -/

/-- What decides whether a node takes over. -/
structure Watch where
  timing : Timing
  ballot : Option Ballot
  heard : Nat
  acquiring : Bool

def watch (n : Node) : Watch where
  timing := n.timing
  ballot := n.leaderBallot
  heard := n.lastHeartbeat
  acquiring := n.acquiring

/-- Everything an input can do to the watch of a node that follows, and goes on to follow. -/
inductive Attention (n : Node) (now : Nat) : Input → Watch → Prop
  | rest {input : Input} (low : ∀ b ∈ input.beat?, b.Valid → some b < n.leaderBallot) :
      Attention n now input n.watch
  | adopt {source : NodeId} {b : Ballot} (outranked : n.Outranked b) :
      Attention n now (.receive (.heartbeat source b))
        { n.watch with ballot := some b, heard := now, acquiring := false }
  | hear {source : NodeId} {b : Ballot} (known : n.leaderBallot = some b) :
      Attention n now (.receive (.heartbeat source b)) { n.watch with heard := now }
  | relent {input : Input} (silent : input.beat? = none) :
      Attention n now input { n.watch with acquiring := false }
  | takeOver {input : Input} (silent : input.beat? = none) (dead : n.leaderAlive now = false) :
      Attention n now input { n.watch with acquiring := true }

theorem acquire_watch (n : Node) (now : Nat) (silent : input.beat? = none) :
    n.Attention now input (n.acquire now).1.watch := by
  unfold acquire
  split
  · exact .relent silent
  · next dead => exact .takeOver silent (by simpa using dead)

theorem rest_of_silent (silent : input.beat? = none) : n.Attention now input n.watch :=
  .rest fun b mem => by simp [silent] at mem

/-- A leader that is deposed watches the new one as any other node does. -/
theorem adopt_watch (outranked : n.Outranked b) (now : Nat) (source : NodeId) :
    (n.heard now ⟨source, b⟩).watch =
      { n.watch with ballot := some b, heard := now, acquiring := false } := by
  have followed : n.heard now ⟨source, b⟩ = (n.follow source b).1.refresh now b := by
    show (n.receiveHeartbeat now source b).1 = _
    simp only [receiveHeartbeat, if_pos outranked.1, if_pos outranked.2]
  rw [followed]
  unfold follow refresh
  simp only
  split <;> simp [watch]

theorem heartbeat_watch (n : Node) (now : Nat) (source : NodeId) (b : Ballot) :
    n.Attention now (.receive (.heartbeat source b)) (n.heard now ⟨source, b⟩).watch := by
  by_cases valid : b.Valid
  · rcases lt_trichotomy (some b) n.leaderBallot with lower | known | higher
    · rw [heard_of_lt lower]
      exact .rest fun c mem _ => Option.mem_some.1 mem ▸ lower
    · rw [heard_of_eq valid known.symm]
      exact .hear known.symm
    · have outranked : n.Outranked b := ⟨valid, Ballot.exceeds_iff.2 higher⟩
      rw [adopt_watch outranked]
      exact .adopt outranked
  · have dropped : n.heard now ⟨source, b⟩ = n := congrArg Prod.fst (if_neg valid)
    rw [dropped]
    exact .rest fun c mem validc => absurd (Option.mem_some.1 mem ▸ validc) valid

/-- A promise that does not win the round is only counted. -/
theorem receivePromise_watch {source : NodeId} {vote : Option Ballot} {value : Option Value}
    (still : (n.receivePromise now source b vote value).1.leading = false) :
    (n.receivePromise now source b vote value).1.watch = n.watch := by
  have lost : ¬ (n.leading = false ∧
      (n.proposer.receivePromise source b vote value).1.leader = true) := fun elected => by
    have seat := congrArg Seat.leading (n.receivePromise_seat now source b vote value)
    rw [if_pos elected] at seat
    have leads : (n.seatWon (n.proposer.receivePromise source b vote value).1.ballot).leading =
        true := by
      unfold seatWon
      split <;> rfl
    exact Bool.false_ne_true (still.symm.trans (seat.trans leads))
  have counted : n.receivePromise now source b vote value =
      n.withProposer (n.proposer.receivePromise source b vote value) := if_neg lost
  rw [counted]
  rfl

/-- **What an input does to the watch of a follower.** -/
theorem step_watch (follows : n.leading = false)
    (still : (n.step now input).1.leading = false) :
    n.Attention now input (n.step now input).1.watch := by
  cases input with
  | prepare | propose | resend | persisted | setActive | recover => exact rest_of_silent rfl
  | acquire => exact n.acquire_watch now rfl
  | pollLiveness =>
    show n.Attention now _ (n.pollLiveness now).1.watch
    unfold pollLiveness
    split
    · exact rest_of_silent rfl
    · split
      · exact rest_of_silent rfl
      · exact n.acquire_watch now rfl
  | pulse =>
    show n.Attention now _ (n.pulse now).1.watch
    rw [pulse, if_neg (by simp [follows])]
    exact rest_of_silent rfl
  | receive m =>
    cases m with
    | prepare | prepareNack | accept | accepted | propose => exact rest_of_silent rfl
    | heartbeat source b => exact n.heartbeat_watch now source b
    | promise source b vote value =>
      have kept : (n.step now (.receive (.promise source b vote value))).1.watch = n.watch :=
        receivePromise_watch still
      rw [kept]
      exact rest_of_silent rfl
    | acceptNack source b promised =>
      have stays : ¬ n.Resigns source b promised := fun resigns =>
        Bool.false_ne_true (follows.symm.trans resigns.1)
      show n.Attention now _ (n.receiveAcceptNack source b promised).1.watch
      rw [receiveAcceptNack_eq, if_neg stays]
      exact rest_of_silent rfl

/-! ## Loyal followers -/

/-- When an input was a heartbeat with this ballot, or else when one came last. -/
def Input.lastHeard (input : Input) (b : Ballot) (now last : Nat) : Nat :=
  if input.beat? = some b then now else last

/-- When a heartbeat with this ballot came last. -/
def lastHeard (b : Ballot) (last : Nat) : List (Nat × Input) → Nat
  | [] => last
  | i :: rest => lastHeard b (i.2.lastHeard b i.1 last) rest

/-- A node follows throughout, and no heartbeat has a ballot above this one. -/
def Serves (n : Node) (b : Ballot) : List (Nat × Input) → Prop
  | [] => n.leading = false
  | i :: rest => n.leading = false ∧ (∀ c ∈ i.2.beat?, c ≤ b) ∧ (n.step i.1 i.2).1.Serves b rest

/-- No input comes later than the timeout allows after the last heartbeat with this ballot. -/
def Attended (timeout : Nat) (b : Ballot) (last : Nat) : List (Nat × Input) → Prop
  | [] => True
  | i :: rest => i.1 ≤ last + timeout ∧ Attended timeout b (i.2.lastHeard b i.1 last) rest

instance decidableServes (n : Node) (b : Ballot) :
    (inputs : List (Nat × Input)) → Decidable (n.Serves b inputs)
  | [] => inferInstanceAs (Decidable (n.leading = false))
  | i :: rest =>
    have := decidableServes (n.step i.1 i.2).1 b rest
    inferInstanceAs (Decidable (_ ∧ (∀ c ∈ i.2.beat?, c ≤ b) ∧ _))

instance decidableAttended (timeout : Nat) (b : Ballot) (last : Nat) :
    (inputs : List (Nat × Input)) → Decidable (Attended timeout b last inputs)
  | [] => inferInstanceAs (Decidable True)
  | i :: rest =>
    have := decidableAttended timeout b (i.2.lastHeard b i.1 last) rest
    inferInstanceAs (Decidable (_ ∧ _))

theorem Serves.follows (serves : n.Serves b inputs) : n.leading = false := by
  cases inputs with
  | nil => exact serves
  | cons => exact serves.1

/-- The node follows a ballot, and heard of it last at this instant. -/
structure Loyal (n : Node) (timing : Timing) (b : Ballot) (last : Nat) : Prop where
  valid : b.Valid
  timing : n.watch.timing = timing
  ballot : n.watch.ballot = some b
  heard : n.watch.heard = last

variable {timing : Timing}

theorem Loyal.alive_iff (loyal : n.Loyal timing b last) (now : Nat) :
    n.leaderAlive now = true ↔ now ≤ last + timing.heartbeatTimeout := by
  have heard : n.lastHeartbeat = last := loyal.heard
  have timed : n.timing = timing := loyal.timing
  rw [leaderAlive, decide_eq_true_iff, heard, timed]
  omega

/-- A loyal follower takes no other ballot, and notes every heartbeat with its own. -/
theorem Loyal.step (loyal : n.Loyal timing b last) (follows : n.leading = false)
    (low : ∀ c ∈ input.beat?, c ≤ b) (still : (n.step now input).1.leading = false) :
    (n.step now input).1.Loyal timing b (input.lastHeard b now last) := by
  have ballot : n.leaderBallot = some b := loyal.ballot
  have attention := step_watch follows still
  generalize watched : (n.step now input).1.watch = w at attention
  suffices w.timing = timing ∧ w.ballot = some b ∧ w.heard = input.lastHeard b now last by
    obtain ⟨timed, kept, heard⟩ := watched ▸ this
    exact ⟨loyal.valid, timed, kept, heard⟩
  have silence (silent : input.beat? = none) : last = input.lastHeard b now last := by
    rw [Input.lastHeard, if_neg (by simp [silent])]
  cases attention with
  | rest stale =>
    have other : input.beat? ≠ some b := fun same =>
      (ballot ▸ stale b same loyal.valid).false
    exact ⟨loyal.timing, loyal.ballot, loyal.heard.trans (if_neg other).symm⟩
  | @adopt source c outranked =>
    have higher : b < c := by simpa [ballot, Ballot.Exceeds] using outranked.2
    exact absurd higher (not_lt.2 (low c rfl))
  | @hear source c known =>
    have same : c = b := Option.some.inj (known.symm.trans ballot)
    exact ⟨loyal.timing, loyal.ballot, (if_pos (congrArg some same)).symm⟩
  | relent silent | takeOver silent =>
    exact ⟨loyal.timing, loyal.ballot, loyal.heard.trans (silence silent)⟩

/-- While its leader is alive, a follower that does not try to take over does not begin to. -/
theorem Loyal.step_calm (loyal : n.Loyal timing b last) (follows : n.leading = false)
    (still : (n.step now input).1.leading = false) (calm : n.acquiring = false)
    (early : now ≤ last + timing.heartbeatTimeout) : (n.step now input).1.acquiring = false := by
  have attention := step_watch follows still
  show (n.step now input).1.watch.acquiring = false
  generalize (n.step now input).1.watch = w at attention
  cases attention with
  | rest | hear => exact calm
  | adopt | relent => rfl
  | takeOver silent dead =>
    have alive := (loyal.alive_iff now).2 early
    exact absurd (dead.symm.trans alive) Bool.false_ne_true

theorem Loyal.run (loyal : n.Loyal timing b last) (serves : n.Serves b inputs) :
    (n.run inputs).1.Loyal timing b (lastHeard b last inputs) := by
  induction inputs generalizing n last with
  | nil => exact loyal
  | cons i rest ih =>
    obtain ⟨follows, low, serves⟩ := serves
    rw [run_cons]
    exact ih (loyal.step follows low serves.follows) serves

theorem Loyal.run_calm (loyal : n.Loyal timing b last) (serves : n.Serves b inputs)
    (calm : n.acquiring = false) (attended : Attended timing.heartbeatTimeout b last inputs) :
    (n.run inputs).1.acquiring = false := by
  induction inputs generalizing n last with
  | nil => exact calm
  | cons i rest ih =>
    obtain ⟨follows, low, serves⟩ := serves
    obtain ⟨early, attended⟩ := attended
    rw [run_cons]
    exact ih (loyal.step follows low serves.follows) serves
      (loyal.step_calm follows serves.follows calm early) attended

/-- While the leader is alive, a node has no part in elections. -/
theorem elections_idle (alive : n.leaderAlive now = true) (calm : n.acquiring = false) :
    n.step now .pollLiveness = (n, []) ∧ n.step now .acquire = (n, []) := by
  constructor
  · exact if_pos (.inl alive)
  · have same : ({ n with acquiring := false } : Node) = n := by rw [← calm]
    show n.acquire now = (n, [])
    rw [acquire, if_pos alive, same]

/-- **A live leader is not disturbed.**  A node adopts a ballot by a heartbeat, then it follows,
and hears of no higher one.  It counts the leader as dead when the timeout has passed since the
last heartbeat with that ballot, and a lower ballot changes nothing.  If such heartbeats never
failed to come in time, the node does not try to take over when it is polled or told to. -/
theorem live_leader_undisturbed {source : NodeId} (outranked : n.Outranked b)
    (serves : (n.heard last ⟨source, b⟩).Serves b inputs) :
    let timeout := n.timing.heartbeatTimeout
    let m := ((n.heard last ⟨source, b⟩).run inputs).1
    (∀ now, m.leaderAlive now = true ↔ now ≤ lastHeard b last inputs + timeout) ∧
    (∀ now source c, c < b → m.step now (.receive (.heartbeat source c)) = (m, [])) ∧
    (Attended timeout b last inputs → ∀ now, now ≤ lastHeard b last inputs + timeout →
      m.acquiring = false ∧
        m.step now .pollLiveness = (m, []) ∧ m.step now .acquire = (m, [])) := by
  intro timeout m
  have adopted := adopt_watch outranked last source
  have loyal : (n.heard last ⟨source, b⟩).Loyal n.timing b last :=
    { valid := outranked.1
      timing := congrArg Watch.timing adopted
      ballot := congrArg Watch.ballot adopted
      heard := congrArg Watch.heard adopted }
  have calm : (n.heard last ⟨source, b⟩).acquiring = false := congrArg Watch.acquiring adopted
  have still : m.Loyal n.timing b (lastHeard b last inputs) := loyal.run serves
  refine ⟨still.alive_iff, fun now source c lower => ?_, fun attended now early => ?_⟩
  · have ballot : m.leaderBallot = some b := still.ballot
    exact receiveHeartbeat_of_lt (ballot ▸ Option.some_lt_some.2 lower)
  · have calm : m.acquiring = false := loyal.run_calm serves calm attended
    exact ⟨calm, elections_idle ((still.alive_iff now).2 early) calm⟩

/-- Node `a` follows `b`, hears now and then of it, and of everything else in between. -/
def busyFollower : List (Nat × Input) :=
  [ (1000, .receive (.heartbeat "c" ⟨2, "c"⟩)), (1200, .receive (.prepare "c" ⟨7, "c"⟩)),
    (1600, .receive (.heartbeat "b" ⟨3, "b"⟩)), (1600, .receive (.promise "c" ⟨0, "a"⟩ none none)),
    (2000, .receive (.acceptNack "c" ⟨0, "a"⟩ ⟨7, "c"⟩)), (3000, .receive (.propose "x")),
    (3100, .acquire), (3100, .receive (.heartbeat "b" ⟨3, "b"⟩)),
    (3500, .receive (.accepted "c" ⟨7, "c"⟩ "y")), (4500, .receive (.heartbeat "c" ⟨2, "c"⟩)) ]

/-- The leader is alive up to the timeout after its last heartbeat. -/
theorem live_leader_undisturbed_busy :
    let n := Node.start { id := "a", quorum := 2 } 0
    let m := ((n.heard 100 ⟨"b", ⟨3, "b"⟩⟩).run busyFollower).1
    m.step 4600 .pollLiveness = (m, []) ∧ m.step 4600 .acquire = (m, []) ∧
      m.leaderAlive 4601 = false := by
  intro n m
  obtain ⟨alive, -, idle⟩ := @live_leader_undisturbed n 100 ⟨3, "b"⟩ busyFollower "b"
    (by decide +kernel) (by decide +kernel)
  obtain ⟨-, polled, told⟩ := idle (by decide +kernel) 4600 (by decide +kernel)
  refine ⟨polled, told, ?_⟩
  have silent : ¬ m.leaderAlive 4601 = true := fun live =>
    absurd ((alive 4601).1 live) (by decide +kernel)
  simpa using silent

end Node

end Synod
