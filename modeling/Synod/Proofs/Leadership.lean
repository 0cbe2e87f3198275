/-
Synod.Proofs.Leadership -- who leads, and who is known to lead

A node's proposer knows whether it leads, and the node itself whom it knows to lead, and under
which ballot: its `Seat`.  `Succession` says once what an input can do to the seat.

A node that wins a round takes the seat if nobody was known to lead, or if its ballot outranks
the one it knows (`seatWon`).  It may have heard of a higher one while it collected promises.
Then it leads, and goes on to name the other node: its own heartbeats do not outrank that ballot
either.  There is no other way to lead without knowing it (`unaware_iff_wonUnaware`).
-/
import Synod.Proofs.Overturn

namespace Synod

set_option autoImplicit false

/-! ## Proposers that lead -/

theorem Proposer.propose_leader (p : Proposer) (v : Value) : (p.propose v).1.leader = p.leader := by
  unfold Proposer.propose
  split <;> rfl

/-- No promise ends a lead. -/
theorem Proposer.receivePromise_leads {p : Proposer} (leads : p.leader = true) (source : NodeId)
    (b : Ballot) (vote : Option Ballot) (value : Option Value) :
    (p.receivePromise source b vote value).1.leader = true := by
  have still : (p.observe b).leader = true := (p.observe_leader b).trans leads
  have ignored : ¬ (p.observe b).Counts source b := fun counts => by
    rw [counts.1] at still
    cases still
  rw [receivePromise_eq, if_neg ignored]
  exact still

namespace Node

/-! ## Seats -/

structure Seat where
  leading : Bool
  /-- Who is known to lead, and under which ballot. -/
  leader : Option NodeId
  ballot : Option Ballot
deriving DecidableEq, Repr

def seat (n : Node) : Seat where
  leading := n.leading
  leader := n.leader
  ballot := n.leaderBallot

/-- Whether a heartbeat with this ballot is followed. -/
def Outranked (n : Node) (c : Ballot) : Prop := c.Valid ∧ Ballot.Exceeds (some c) n.leaderBallot

instance (n : Node) (c : Ballot) : Decidable (n.Outranked c) :=
  inferInstanceAs (Decidable (_ ∧ _))

/-- The seat of a node that has won the round of ballot `c`. -/
def seatWon (n : Node) (c : Ballot) : Seat :=
  if n.leader = none ∨ n.Outranked c then
    { leading := true, leader := some n.id, ballot := some c }
  else { n.seat with leading := true }

/-- Everything an input can do to a seat. -/
inductive Succession (n : Node) : Input → Seat → Prop
  | stay {input : Input} : Succession n input n.seat
  | standDown {input : Input} : Succession n input { n.seat with leading := false }
  | follow {source : NodeId} {b : Ballot} (outranked : n.Outranked b) :
      Succession n (.receive (.heartbeat source b))
        { leading := n.leading && decide (source = n.id), leader := some source, ballot := some b }
  | confirm (leads : n.leading = true) (outranked : n.Outranked n.proposer.ballot) :
      Succession n .pulse { leading := true, leader := some n.id, ballot := some n.proposer.ballot }
  | win {source : NodeId} {b : Ballot} {vote : Option Ballot} {value : Option Value}
      (follows : n.leading = false)
      (won : (n.proposer.receivePromise source b vote value).1.leader = true) :
      Succession n (.receive (.promise source b vote value))
        (n.seatWon (n.proposer.receivePromise source b vote value).1.ballot)
  | resign {source : NodeId} {b promised : Ballot} :
      Succession n (.receive (.acceptNack source b promised))
        { leading := false, leader := none, ballot := none }

variable {n : Node} {now : Nat} {input : Input}

theorem refresh_seat (n : Node) (now : Nat) (b : Ballot) : (n.refresh now b).seat = n.seat := by
  unfold refresh
  split <;> rfl

/-- A heartbeat that outranks the known ballot is followed, and ends the lead of others. -/
theorem receiveHeartbeat_seat (n : Node) (now : Nat) (source : NodeId) (b : Ballot) :
    (n.receiveHeartbeat now source b).1.seat =
      if n.Outranked b then
        { leading := n.leading && decide (source = n.id), leader := some source, ballot := some b }
      else n.seat := by
  by_cases outranked : n.Outranked b
  · have followed : (n.receiveHeartbeat now source b).1 = (n.follow source b).1.refresh now b := by
      simp only [receiveHeartbeat, if_pos outranked.1, if_pos outranked.2]
    rw [if_pos outranked, followed, refresh_seat]
    unfold follow
    simp only
    split
    · next deposed => simp [seat, leading, Proposer.setLeader, deposed.2]
    · next stays =>
      by_cases leads : n.leading = true
      · have own : source = n.id := not_not.1 fun other => stays ⟨leads, other⟩
        have leader : n.proposer.leader = true := leads
        simp [seat, leading, leader, own]
      · have leader : n.proposer.leader = false := by simpa [leading] using leads
        simp [seat, leading, leader]
  · rw [if_neg outranked]
    unfold receiveHeartbeat
    split
    · next valid =>
      have low : ¬ Ballot.Exceeds (some b) n.leaderBallot := fun high => outranked ⟨valid, high⟩
      simp only [if_neg low]
      exact n.refresh_seat now b
    · rfl

theorem pulse_seat (n : Node) (now : Nat) :
    (n.pulse now).1.seat = if n.leading = true ∧ n.Outranked n.proposer.ballot then
        { leading := true, leader := some n.id, ballot := some n.proposer.ballot }
      else n.seat := by
  unfold pulse
  split
  · next leads =>
    simp only
    rw [receiveHeartbeat_seat]
    by_cases outranked : n.Outranked n.proposer.ballot
    · rw [if_pos outranked, if_pos ⟨leads, outranked⟩]
      simp [leads]
    · rw [if_neg outranked, if_neg fun both => outranked both.2]
  · next follows => rw [if_neg fun both => follows both.1]

/-- Whoever wins pulses, and so takes the seat if it can. -/
theorem lead_seat (leads : n.leading = true) (now : Nat) :
    (n.lead now).1.seat = n.seatWon n.proposer.ballot := by
  unfold lead seatWon
  simp only
  split
  · next other known =>
    have pulsed := pulse_seat { n with acquiring := false } now
    refine pulsed.trans ?_
    show (if n.leading = true ∧ n.Outranked n.proposer.ballot then _ else n.seat) = _
    by_cases outranked : n.Outranked n.proposer.ballot
    · rw [if_pos ⟨leads, outranked⟩, if_pos (.inr outranked)]
    · rw [if_neg fun both => outranked both.2,
        if_neg fun either => either.elim (by simp [known]) outranked]
      simp [seat, leads]
  · next unknown =>
    have pulsed := pulse_seat { n with
      acquiring := false, leader := some n.id, leaderBallot := some n.proposer.ballot } now
    have level : ¬ (n.proposer.ballot.Valid ∧
        Ballot.Exceeds (some n.proposer.ballot) (some n.proposer.ballot)) :=
      fun outranked => Ballot.lt_irrefl _ outranked.2
    rw [if_neg fun both => level both.2] at pulsed
    rw [if_pos (.inl unknown)]
    refine pulsed.trans ?_
    have leader : n.proposer.leader = true := leads
    simp [seat, leading, leader]

/-- A promise that wins the round takes the seat, if it can be taken. -/
theorem receivePromise_seat (n : Node) (now : Nat) (source : NodeId) (b : Ballot)
    (vote : Option Ballot) (value : Option Value) :
    (n.receivePromise now source b vote value).1.seat =
      if n.leading = false ∧ (n.proposer.receivePromise source b vote value).1.leader = true then
        n.seatWon (n.proposer.receivePromise source b vote value).1.ballot
      else n.seat := by
  by_cases elected : n.leading = false ∧
      (n.proposer.receivePromise source b vote value).1.leader = true
  · have leads : (n.withProposer (n.proposer.receivePromise source b vote value)).1.leading =
        true := elected.2
    have result : (n.receivePromise now source b vote value).1 =
        ((n.withProposer (n.proposer.receivePromise source b vote value)).1.lead now).1 := by
      simp only [receivePromise, elected.1, leads, and_self, if_true]
    rw [if_pos elected, result]
    exact lead_seat leads now
  · have result : (n.receivePromise now source b vote value).1 =
        (n.withProposer (n.proposer.receivePromise source b vote value)).1 :=
      congrArg Prod.fst (if_neg elected)
    have kept : (n.proposer.receivePromise source b vote value).1.leader = n.leading := by
      cases leads : n.leading with
      | true => exact Proposer.receivePromise_leads leads source b vote value
      | false => simpa [leads] using elected
    rw [if_neg elected, result, seat, leading, withProposer, kept]
    rfl

/-- **What an input does to the seat.** -/
theorem step_succession (n : Node) (now : Nat) (input : Input) :
    n.Succession input (n.step now input).1.seat := by
  have kept {m : Node} (leading : m.leading = n.leading) (leader : m.leader = n.leader)
      (ballot : m.leaderBallot = n.leaderBallot) : n.Succession input m.seat := by
    have same : m.seat = n.seat := by simp only [seat, leading, leader, ballot]
    rw [same]
    exact .stay
  have stood {m : Node} (leading : m.leading = false) (leader : m.leader = n.leader)
      (ballot : m.leaderBallot = n.leaderBallot) : n.Succession input m.seat := by
    have same : m.seat = { n.seat with leading := false } := by
      simp only [seat, leading, leader, ballot]
    rw [same]
    exact .standDown
  cases input with
  | prepare fresh =>
    cases fresh with
    | true => exact stood rfl rfl rfl
    | false => exact kept rfl rfl rfl
  | propose v => exact kept (n.proposer.propose_leader v) rfl rfl
  | resend | persisted | setActive => exact kept rfl rfl rfl
  | pollLiveness =>
    show n.Succession _ (n.pollLiveness now).1.seat
    unfold pollLiveness acquire
    split
    · exact kept rfl rfl rfl
    · split
      · exact stood rfl rfl rfl
      · split
        · exact kept rfl rfl rfl
        · exact stood rfl rfl rfl
  | acquire =>
    show n.Succession _ (n.acquire now).1.seat
    unfold acquire
    split
    · exact kept rfl rfl rfl
    · exact stood rfl rfl rfl
  | pulse =>
    show n.Succession _ (n.pulse now).1.seat
    rw [pulse_seat]
    split
    · next takes => exact .confirm takes.1 takes.2
    · exact .stay
  | recover s =>
    show n.Succession _ (n.recover s).seat
    unfold recover
    split
    · exact stood (Proposer.observe_leader _ _) rfl rfl
    · exact kept rfl rfl rfl
  | receive m =>
    cases m with
    | prepare | accept | accepted => exact kept rfl rfl rfl
    | propose v => exact kept (n.proposer.propose_leader v) rfl rfl
    | prepareNack source b promised => exact kept (Proposer.observe_leader _ promised) rfl rfl
    | promise source b vote value =>
      show n.Succession _ (n.receivePromise now source b vote value).1.seat
      rw [receivePromise_seat]
      split
      · next elected => exact .win elected.1 elected.2
      · exact .stay
    | acceptNack source b promised =>
      show n.Succession _ (n.receiveAcceptNack source b promised).1.seat
      unfold receiveAcceptNack
      simp only
      split
      · have vacant : ((n.noteRejection source b promised).resign promised).1.seat =
            { leading := false, leader := none, ballot := none } := by
          simp [resign, seat, leading, Proposer.setLeader]
        rw [vacant]
        exact .resign
      · exact kept (Proposer.observe_leader _ promised) rfl rfl
    | heartbeat source b =>
      show n.Succession _ (n.receiveHeartbeat now source b).1.seat
      rw [receiveHeartbeat_seat]
      split
      · next outranked => exact .follow outranked
      · exact .stay

/-- A leader that goes on to lead keeps its ballot. -/
theorem step_ballot (leads : n.leading = true) (still : (n.step now input).1.leading = true) :
    (n.step now input).1.proposer.ballot = n.proposer.ballot := by
  rcases n.orders_cases now input with ⟨o, one⟩ | quiet
  · have elected : o ≠ .setLeader true := by
      rintro rfl
      exact n.orders_elected now input (one ▸ List.mem_singleton_self _)
    have move := n.proposer.step_move elected
    have after : (n.step now input).1.proposer = (n.proposer.step o).1 := by
      rw [(n.step_roles now input).proposer, one]
      rfl
    have leader : n.proposer.leader = true := leads
    have still : (n.step now input).1.proposer.leader = true := still
    rw [after] at still ⊢
    generalize (n.proposer.step o).1 = q at move still
    cases move with
    | stay | propose | setActive => rfl
    | follow idle =>
      rw [leader] at idle
      cases idle
    | count counts =>
      have idle := counts.1
      rw [Proposer.observe_leader, leader] at idle
      cases idle
    | begin | depose => cases still
  · -- giving way to others ends the lead before the ballot changes
    refine step_keeps (P := fun q => q.leader = true → q.ballot = n.proposer.ballot)
      (fun p q o mem move kept leader => ?_) (fun _ => rfl) still
    have subdues := quiet o mem
    cases move with
    | stay => exact kept leader
    | follow idle =>
      have idle : p.leader = true := leader
      simp_all
    | depose => cases leader
    | _ => exact subdues.elim

/-! ## Leading without knowing it -/

/-- The node leads, and does not know itself to lead. -/
def Unaware (n : Node) : Prop := n.leading = true ∧ n.leader ≠ some n.id

/-- Whether a promise wins the round for a node that knows another leader, under a ballot that
its own does not outrank. -/
def WinsUnaware (n : Node) : Input → Prop
  | .receive (.promise source b vote value) =>
    let p := (n.proposer.receivePromise source b vote value).1
    n.leading = false ∧ p.leader = true ∧ n.leader ≠ none ∧ n.leader ≠ some n.id ∧
      ¬ n.Outranked p.ballot
  | _ => False

/-- Whether a node stops leading, or hears in its own name of a higher ballot than it knows. -/
def Recovers (n : Node) (now : Nat) (input : Input) : Prop :=
  (n.step now input).1.leading = false ∨
    ∃ b, input = .receive (.heartbeat n.id b) ∧ n.Outranked b

/-- The node has won a round unaware, and has not recovered since. -/
inductive WonUnaware (n : Node) : List (Nat × Input) → Prop
  | win {inputs : List (Nat × Input)} {i : Nat × Input}
      (wins : (n.run inputs).1.WinsUnaware i.2) : WonUnaware n (inputs ++ [i])
  | remain {inputs : List (Nat × Input)} {i : Nat × Input} (won : WonUnaware n inputs)
      (still : ¬ (n.run inputs).1.Recovers i.1 i.2) : WonUnaware n (inputs ++ [i])

/-- The only ways to lead after an input and not to know it. -/
theorem Succession.unaware {seat : Seat} (succession : n.Succession input seat)
    (leads : seat.leading = true) (other : seat.leader ≠ some n.id) :
    seat = n.seat ∨ n.WinsUnaware input ∧ seat = { n.seat with leading := true } := by
  cases succession with
  | stay => exact .inl rfl
  | standDown | resign => cases leads
  | confirm => exact absurd rfl other
  | follow outranked =>
    have own := of_decide_eq_true (Bool.and_eq_true_iff.1 leads).2
    exact absurd (congrArg some own) other
  | win follows won =>
    unfold seatWon at other ⊢
    split at other
    · exact absurd rfl other
    · next stays =>
      obtain ⟨known, low⟩ := not_or.1 stays
      rw [if_neg stays]
      exact .inr ⟨⟨follows, won, known, other, low⟩, rfl⟩

/-- The ballot of a node that leads unaware does not outrank the one it knows. -/
def Low (n : Node) : Prop := n.Unaware → ¬ n.Outranked n.proposer.ballot

theorem Low.step (low : n.Low) (now : Nat) (input : Input) : (n.step now input).1.Low := by
  rintro ⟨leads, other⟩
  rw [(n.step_roles now input).id] at other
  rcases (n.step_succession now input).unaware leads other with same | ⟨wins, same⟩
  · have leading : (n.step now input).1.leading = n.leading := congrArg Seat.leading same
    have leader : (n.step now input).1.leader = n.leader := congrArg Seat.leader same
    have known : (n.step now input).1.leaderBallot = n.leaderBallot := congrArg Seat.ballot same
    have led : n.leading = true := leading.symm.trans leads
    rw [Outranked, known, step_ballot led leads]
    exact low ⟨led, fun own => other (leader.trans own)⟩
  · have known : (n.step now input).1.leaderBallot = n.leaderBallot := congrArg Seat.ballot same
    unfold WinsUnaware at wins
    split at wins
    · next source b vote value =>
      have proposer : (n.step now (.receive (.promise source b vote value))).1.proposer =
          (n.proposer.receivePromise source b vote value).1 :=
        (n.receivePromise_heeds now source b vote value).proposer
      rw [Outranked, known, proposer]
      exact wins.2.2.2.2
    · exact wins.elim

/-- **A node comes to lead unaware by a promise**, and stays so until it recovers. -/
theorem step_unaware_iff (low : n.Low) (now : Nat) (input : Input) :
    (n.step now input).1.Unaware ↔ n.WinsUnaware input ∨ n.Unaware ∧ ¬ n.Recovers now input := by
  have id := (n.step_roles now input).id
  have succession := n.step_succession now input
  constructor
  · rintro ⟨leads, other⟩
    rw [id] at other
    rcases succession.unaware leads other with same | ⟨wins, -⟩
    · have leading : (n.step now input).1.leading = n.leading := congrArg Seat.leading same
      have leader : (n.step now input).1.leader = n.leader := congrArg Seat.leader same
      refine .inr ⟨⟨leading.symm.trans leads, fun own => other (leader.trans own)⟩, ?_⟩
      rintro (stops | ⟨b, rfl, outranked⟩)
      · rw [stops] at leads
        cases leads
      · have followed := n.receiveHeartbeat_seat now n.id b
        rw [if_pos outranked] at followed
        exact other (congrArg Seat.leader followed)
    · exact .inl wins
  · rintro (wins | ⟨⟨leads, other⟩, still⟩)
    · unfold WinsUnaware at wins
      split at wins
      · next source b vote value =>
        obtain ⟨follows, won, known, foreign, low⟩ := wins
        have seat := n.receivePromise_seat now source b vote value
        rw [if_pos ⟨follows, won⟩, seatWon, if_neg (not_or.2 ⟨known, low⟩)] at seat
        refine ⟨congrArg Seat.leading seat, ?_⟩
        rw [id]
        exact fun own => foreign ((congrArg Seat.leader seat).symm.trans own)
      · exact wins.elim
    · have goes : (n.step now input).1.leading = true := by
        have stays := not_or.1 still |>.1
        simpa using stays
      refine ⟨goes, ?_⟩
      rw [id]
      have goes : (n.step now input).1.seat.leading = true := goes
      show (n.step now input).1.seat.leader ≠ some n.id
      generalize (n.step now input).1.seat = seat at succession goes
      cases succession with
      | stay => exact other
      | standDown | resign => cases goes
      | follow outranked =>
        have own := of_decide_eq_true (Bool.and_eq_true_iff.1 goes).2
        exact absurd (.inr ⟨_, by rw [own], outranked⟩) still
      | confirm _ outranked => exact absurd outranked (low ⟨leads, other⟩)
      | win follows =>
        rw [leads] at follows
        cases follows

/-! ## Runs -/

theorem run_low (setup : Setup) (start : Nat) (inputs : List (Nat × Input)) :
    ((Node.start setup start).run inputs).1.Low := by
  induction inputs using List.reverseRecOn with
  | nil =>
    rintro ⟨leads, other⟩
    exact absurd (of_decide_eq_true leads) other
  | append_singleton inputs i ih =>
    rw [run_concat]
    exact ih.step i.1 i.2

theorem wonUnaware_concat {inputs : List (Nat × Input)} {i : Nat × Input} :
    n.WonUnaware (inputs ++ [i]) ↔ (n.run inputs).1.WinsUnaware i.2 ∨
      n.WonUnaware inputs ∧ ¬ (n.run inputs).1.Recovers i.1 i.2 := by
  constructor
  · intro won
    generalize same : inputs ++ [i] = all at won
    cases won with
    | win wins =>
      obtain ⟨rfl, one⟩ := List.append_inj' same rfl
      cases one
      exact .inl wins
    | remain won still =>
      obtain ⟨rfl, one⟩ := List.append_inj' same rfl
      cases one
      exact .inr ⟨won, still⟩
  · rintro (wins | ⟨won, still⟩)
    · exact .win wins
    · exact .remain won still

/-- **A leader knows that it leads**, unless it won a round unaware and has not recovered.  When a
promise wins a round, the node takes the seat, unless the ballot it knows is not outranked. -/
theorem unaware_iff_wonUnaware (setup : Setup) (start : Nat) (inputs : List (Nat × Input)) :
    let n := ((Node.start setup start).run inputs).1
    (n.leading = true ∧ n.leader ≠ some n.id ↔ (Node.start setup start).WonUnaware inputs) ∧
    ∀ now source b vote value,
      let m := (n.receivePromise now source b vote value).1
      m.seat = if n.leading = false ∧ m.leading = true then n.seatWon m.proposer.ballot
        else n.seat := by
  intro n
  constructor
  · show n.Unaware ↔ _
    induction inputs using List.reverseRecOn with
    | nil =>
      refine iff_of_false ?_ ?_
      · rintro ⟨leads, other⟩
        exact absurd (of_decide_eq_true leads) other
      · intro won
        generalize same : ([] : List (Nat × Input)) = all at won
        cases won <;> simp at same
    | append_singleton inputs i ih =>
      have before : ((Node.start setup start).run inputs).1.Unaware ↔
          (Node.start setup start).WonUnaware inputs := ih
      have stepped := step_unaware_iff (run_low setup start inputs) i.1 i.2
      rw [wonUnaware_concat, ← before, ← stepped]
      simp only [n, run_concat]
  · intro now source b vote value
    have proposer : (n.receivePromise now source b vote value).1.proposer =
        (n.proposer.receivePromise source b vote value).1 :=
      (n.receivePromise_heeds now source b vote value).proposer
    simp only [leading, proposer]
    exact n.receivePromise_seat now source b vote value

/-- Node `a` starts a round after it has heard of a higher ballot of node `b`. -/
def outrankedRound : List (Nat × Input) :=
  [ (0, .receive (.heartbeat "b" ⟨9, "b"⟩)), (0, .prepare true),
    (0, .receive (.promise "a" ⟨1, "a"⟩ none none)),
    (0, .receive (.promise "c" ⟨1, "a"⟩ none none)), (500, .pulse) ]

/-- It wins, and takes `b` for the leader, even when it has pulsed. -/
theorem outrankedRound_unaware :
    let n := ((Node.start { id := "a", quorum := 2 } 0).run outrankedRound).1
    n.id = "a" ∧ n.seat = { leading := true, leader := some "b", ballot := some ⟨9, "b"⟩ } := by
  decide +kernel

end Node

end Synod
