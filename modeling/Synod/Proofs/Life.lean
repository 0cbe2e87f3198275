/-
Synod.Proofs.Life -- everything that happens to a replica between two starts

`Life` follows a replica from its start, through inputs, saves and pieces of work in any order,
while tables of its store break and are mended.  It logs the messages that got past the membership
check, the replica's own among them.  What a replica does in its steps is such a life (`Life.step`).

`Change` says once what little can happen at a time to all that decisions are made from: the node,
its traffic, the decision on record and the one published.  What each change keeps, a whole life
keeps (`Life.keeps`).
-/
import Synod.Proofs.Durable

namespace Synod

set_option autoImplicit false

namespace Replica

/-! ## Lives -/

/-- A message, if it gets past the membership check. -/
def heeded (r : Replica) (message : Message) : List Message :=
  if r.knows message then [message] else []

/-- What an input makes a replica take in. -/
def taken (r : Replica) : Input → List Message
  | .receive message => r.heeded message
  | .pulse | .pollLiveness => []

/-- What the next piece of work makes a replica take in. -/
def next (r : Replica) : List Message :=
  match r.queue, r.loopback with
  | .broadcast message :: _, _ => r.heeded message
  | [], message :: _ => r.heeded message
  | _, _ => []

inductive Life (r : Replica) : List Message → Replica → Prop
  | begin : Life r [] r
  | tables {log : List Message} {s : Replica} (life : Life r log s) (broken : List Table) :
      Life r log (s.under broken)
  | input {log : List Message} {s : Replica} (life : Life r log s) (now : Nat) (input : Input) :
      Life r (log ++ s.taken input) (s.act now input)
  | save {log : List Message} {s : Replica} (life : Life r log s) : Life r log s.persist
  | work {log : List Message} {s t : Replica} {now : Nat} (life : Life r log s)
      (worked : s.step? now = some t) : Life r (log ++ s.next) t

theorem Life.settle {r s : Replica} {log : List Message} (life : Life r log s) (now : Nat) :
    ∃ more, Life r (log ++ more) (s.settle now) := by
  fun_induction Replica.settle s now generalizing log with
  | case1 s t worked ih =>
    obtain ⟨more, after⟩ := ih (life.work worked)
    rw [List.append_assoc] at after
    exact ⟨_, after⟩
  | case2 s idle => exact ⟨[], by rwa [List.append_nil]⟩

/-- A replica's own steps belong to its life. -/
theorem Life.step {r s : Replica} {log : List Message} (life : Life r log s) (now : Nat)
    (input : Input) : ∃ more, Life r (log ++ s.taken input ++ more) (s.step now input) :=
  (life.input now input).save.settle now

/-! ## Changes -/

/-- Nothing happens that concerns decisions. -/
structure Aside (r t : Replica) : Prop where
  node : t.node = r.node
  queue : t.queue = r.queue
  peers : t.peers = r.peers
  decision : t.store.decision = r.store.decision
  published : t.published = r.published

/-- What happens at a time, and the messages that are taken in. -/
inductive Change (r : Replica) : List Message → Replica → Prop
  | aside {taken : List Message} {t : Replica} (same : Aside r t)
      (known : ∀ message ∈ taken, r.knows message = true) : Change r taken t
  | operate (now : Nat) {input : Node.Input} (internal : ∀ message, input ≠ .receive message) :
      Change r [] (r.absorb (r.node.step now input))
  | hear (now : Nat) {message : Message} (known : r.knows message = true) :
      Change r [message] (r.absorb (r.node.step now (.receive message)))
  | take {o : Outbound} {rest : List Outbound} (queued : r.queue = o :: rest)
      (traffic : ∀ b v, o ≠ .resolved b v) : Change r [] { r with queue := rest }
  | resolve {b : Ballot} {v : Value} {rest : List Outbound}
      (queued : r.queue = .resolved b v :: rest) :
      Change r [] ({ r with queue := rest }.resolve b v)

theorem deliver_aside (r : Replica) (recipient : NodeId) (message : Message) :
    Aside r (r.deliver recipient message) := by
  unfold deliver
  split
  · exact ⟨rfl, rfl, rfl, rfl, rfl⟩
  · split <;> exact ⟨rfl, rfl, rfl, rfl, rfl⟩

theorem announce_aside (r : Replica) (message : Message) : Aside r (r.announce message) := by
  unfold announce
  split <;> exact ⟨rfl, rfl, rfl, rfl, rfl⟩

/-- What every change keeps. -/
def Stable (I : List Message → Replica → Prop) : Prop :=
  ∀ past r taken t, Change r taken t → I past r → I (past ++ taken) t

section Stable

variable {I : List Message → Replica → Prop} {past : List Message} {r t : Replica}

theorem Stable.aside (stable : Stable I) (holds : I past r) (same : Aside r t) : I past t := by
  have kept := stable past r [] t (.aside same (by simp)) holds
  rwa [List.append_nil] at kept

theorem Stable.operate (stable : Stable I) (holds : I past r) (now : Nat) {input : Node.Input}
    (internal : ∀ message, input ≠ .receive message) :
    I past (r.absorb (r.node.step now input)) := by
  have kept := stable past r [] _ (.operate now internal) holds
  rwa [List.append_nil] at kept

theorem Stable.handle (stable : Stable I) (holds : I past r) (now : Nat) (message : Message) :
    I (past ++ r.heeded message) (r.handle now message) := by
  unfold Replica.handle heeded
  by_cases known : r.knows message = true
  · rw [if_pos known, if_pos known]
    have heard : I (past ++ [message]) (r.dispatch now message) :=
      stable past r _ _ (.hear now known) holds
    cases message with
    | propose v =>
      show I _ (r.submit now v)
      unfold submit
      split
      · refine stable past r _ _ (.aside (r.deliver_aside _ _) ?_) holds
        intro m mem
        rw [List.mem_singleton.1 mem]
        exact known
      · exact heard
    | _ => exact heard
  · rw [if_neg known, if_neg known, List.append_nil]
    exact holds

theorem Stable.persist (stable : Stable I) (holds : I past r) : I past r.persist := by
  unfold Replica.persist
  split
  · split
    · next store saved =>
      have stored : Aside r { r with store } := ⟨rfl, rfl, rfl, Store.save_decision saved, rfl⟩
      have internal : ∀ message, Node.Input.persisted ≠ .receive message := by simp
      exact stable.operate (stable.aside holds stored) 0 internal
    · exact holds
  · exact holds

theorem Stable.act (stable : Stable I) (holds : I past r) (now : Nat) (input : Input) :
    I (past ++ r.taken input) (r.act now input) := by
  cases input with
  | receive message => exact stable.handle holds now message
  | pollLiveness =>
    have internal : ∀ message, Node.Input.pollLiveness ≠ .receive message := by simp
    have kept := stable.operate holds now internal
    rwa [← List.append_nil past] at kept
  | pulse =>
    have pulse : ∀ message, Node.Input.pulse ≠ .receive message := by simp
    have resend : ∀ message, Node.Input.resend ≠ .receive message := by simp
    have kept := stable.operate (stable.operate holds now pulse) now resend
    rw [act_pulse]
    rwa [← List.append_nil past] at kept

theorem Stable.route (stable : Stable I) (holds : I past r) (now : Nat) {o : Outbound}
    {rest : List Outbound} (queued : r.queue = o :: rest) :
    I (past ++ r.next) ({ r with queue := rest }.route now o) := by
  have take (traffic : ∀ b v, o ≠ .resolved b v) : I past { r with queue := rest } := by
    have kept := stable past r [] _ (.take queued traffic) holds
    rwa [List.append_nil] at kept
  cases o with
  | broadcast message =>
    have handled := stable.handle (take (by simp)) now message
    have next : r.next = { r with queue := rest }.heeded message := by
      simp only [Replica.next, queued]
      rfl
    rw [next]
    exact stable.aside (stable.persist handled) (announce_aside _ message)
  | unicast recipient message =>
    have next : r.next = [] := by simp only [Replica.next, queued]
    rw [next, List.append_nil]
    exact stable.aside (take (by simp)) (deliver_aside _ recipient message)
  | resolved b v =>
    have next : r.next = [] := by simp only [Replica.next, queued]
    rw [next]
    exact stable past r [] _ (.resolve queued) holds

theorem Stable.work (stable : Stable I) (holds : I past r) {now : Nat}
    (worked : r.step? now = some t) : I (past ++ r.next) t := by
  rcases step?_cases worked with ⟨o, rest, queued, rfl⟩ | ⟨m, rest, empty, looped, rfl⟩
  · exact stable.route holds now queued
  · have next : r.next = { r with loopback := rest }.heeded m := by
      simp only [Replica.next, empty, looped]
      rfl
    have behind : Aside r { r with loopback := rest } := ⟨rfl, rfl, rfl, rfl, rfl⟩
    rw [next]
    exact stable.persist (stable.handle (stable.aside holds behind) now m)

/-- **What every change keeps, a life keeps.** -/
theorem Life.keeps (stable : Stable I) (begins : I [] r) {log : List Message}
    (life : Life r log t) : I log t := by
  induction life with
  | begin => exact begins
  | tables _ broken ih => exact stable.aside ih ⟨rfl, rfl, rfl, rfl, rfl⟩
  | input _ now input ih => exact stable.act ih now input
  | save _ ih => exact stable.persist ih
  | work _ worked ih => exact stable.work ih worked

end Stable

end Replica

end Synod
