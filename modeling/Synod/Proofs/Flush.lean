/-
Synod.Proofs.Flush -- a flush ends, and nothing waits for the store after it

Between two pieces of a flush, time passes, and tables of the store break or are mended
(`Flushing`).  However that may be, no flush has more pieces than the replica's load at its start,
and it stops only where no traffic is left, neither queued nor looped back.

Each piece that changes the node's durable state ends with a save.  So while none fails, nothing is
held between two pieces, the store holds the node's current snapshot, and a replica that starts on
it resumes just there (`flush_ends_clean`).
-/
import Synod.Proofs.Life

namespace Synod

set_option autoImplicit false

namespace Replica

variable {r s t : Replica}

/-! ## Pieces of work -/

/-- No traffic is left, neither queued nor looped back. -/
def Idle (r : Replica) : Prop := r.queue = [] ∧ r.loopback = []

theorem step?_eq_none {now : Nat} : r.step? now = none ↔ r.Idle := by
  unfold Idle step?
  cases r.queue <;> cases r.loopback <;> simp

theorem settle_idle (r : Replica) (now : Nat) : (r.settle now).Idle := by
  fun_induction Replica.settle r now with
  | case1 r s worked ih => exact ih
  | case2 r idle => exact step?_eq_none.1 idle

/-- What the store answers a replica that persists, if anything has to be saved. -/
def saves (r : Replica) : List (Except Error Store) :=
  if r.node.persistenceRequired then [r.store.save r.node.snapshot] else []

/-- What the store answers in the next piece of work. -/
def workSaves (r : Replica) (now : Nat) : List (Except Error Store) :=
  match r.queue, r.loopback with
  | .broadcast message :: rest, _ => ({ r with queue := rest }.handle now message).saves
  | [], message :: rest => ({ r with loopback := rest }.handle now message).saves
  | _, _ => []

/-- No save failed. -/
def Saved (log : List (Except Error Store)) : Prop := ∀ answer ∈ log, answer.isOk = true

instance (log : List (Except Error Store)) : Decidable (Saved log) :=
  inferInstanceAs (Decidable (∀ _ ∈ _, _))

theorem persist_released (saved : Saved r.saves) : r.persist.node.persistenceRequired = false := by
  rcases r.persist_cases with ⟨-, broken, required⟩ | ⟨-, released, -⟩
  · rcases r.store.save_cases r.node.snapshot with ⟨-, e, failed⟩ | ⟨works, -⟩
    · have ok := saved (.error e) (by simp [saves, required, failed])
      cases ok
    · exact absurd broken works
  · exact released

theorem Leaves.node (leaves : Leaves r t) : t.node = r.node := congrArg Member.node leaves.member

/-- What a piece of work makes the node hold is released with it, if no save fails. -/
theorem step?_released (released : r.node.persistenceRequired = false) {now : Nat}
    (worked : r.step? now = some t) (saved : Saved (r.workSaves now)) :
    t.node.persistenceRequired = false := by
  rcases step?_cases worked with ⟨o, rest, queued, rfl⟩ | ⟨m, rest, empty, looped, rfl⟩
  · cases o with
    | broadcast message =>
      simp only [workSaves, queued] at saved
      show (announce _ message).node.persistenceRequired = false
      rw [(announce_leaves _ message).node]
      exact persist_released saved
    | unicast recipient message =>
      show (deliver _ recipient message).node.persistenceRequired = false
      rw [(deliver_leaves _ recipient message).node]
      exact released
    | resolved b v =>
      show (resolve _ b v).node.persistenceRequired = false
      rw [(resolve_leaves _ b v).node]
      exact released
  · have answers : r.workSaves now = ({ r with loopback := rest }.handle now m).saves := by
      simp only [workSaves, empty, looped]
    exact persist_released (answers ▸ saved)

/-! ## What is broken stays broken -/

theorem handle_store (r : Replica) (now : Nat) (message : Message) :
    (r.handle now message).store = r.store := by
  have delivered (recipient : NodeId) (m : Message) : (r.deliver recipient m).store = r.store := by
    unfold deliver
    split
    · rfl
    · split <;> rfl
  unfold handle
  split
  · split
    · unfold submit
      split
      · exact delivered _ _
      · rfl
    · rfl
  · rfl

theorem persist_broken (r : Replica) : r.persist.store.brokenTables = r.store.brokenTables := by
  unfold persist
  split
  · split
    · next saved => exact Store.save_broken saved
    · rfl
  · rfl

theorem step?_broken {now : Nat} (worked : r.step? now = some t) :
    t.store.brokenTables = r.store.brokenTables := by
  have handled (s : Replica) (message : Message) :
      (s.handle now message).persist.store.brokenTables = s.store.brokenTables := by
    rw [persist_broken, handle_store]
  rcases step?_cases worked with ⟨o, rest, -, rfl⟩ | ⟨m, rest, -, -, rfl⟩
  · cases o with
    | broadcast message => exact (announce_leaves _ message).broken.trans (handled _ message)
    | unicast recipient message => exact (deliver_leaves _ recipient message).broken
    | resolved b v => exact (resolve_leaves _ b v).broken
  · exact handled _ m

/-! ## Flushes -/

/-- A replica in its flush, after pieces of work at these times, each with these tables broken, and
with these answers to its saves. -/
inductive Flushing (r : Replica) :
    List (Nat × List Table) → List (Except Error Store) → Replica → Prop
  | save : Flushing r [] r.saves r.persist
  | work {past : List (Nat × List Table)} {log : List (Except Error Store)} {s t : Replica}
      {now : Nat} {broken : List Table} (flushing : Flushing r past log s)
      (worked : (s.under broken).step? now = some t) :
      Flushing r (past ++ [(now, broken)]) (log ++ (s.under broken).workSaves now) t

theorem Flushing.settle {past : List (Nat × List Table)} {log : List (Except Error Store)}
    (flushing : Flushing r past log s) (now : Nat) : ∃ n more,
      Flushing r (past ++ .replicate n (now, s.store.brokenTables)) (log ++ more)
        (s.settle now) := by
  fun_induction Replica.settle s now generalizing past log with
  | case1 s t worked ih =>
    have worked' : (s.under s.store.brokenTables).step? now = some t := worked
    obtain ⟨n, more, after⟩ := ih (flushing.work worked')
    rw [step?_broken worked, List.append_assoc, List.append_assoc] at after
    exact ⟨n + 1, _, after⟩
  | case2 s idle => exact ⟨0, [], by simpa using flushing⟩

theorem Flushing.flush (r : Replica) (now : Nat) : ∃ n log,
    Flushing r (.replicate n (now, r.store.brokenTables)) log (r.flush now) := by
  obtain ⟨n, more, flushed⟩ := (Flushing.save (r := r)).settle now
  rw [persist_broken] at flushed
  exact ⟨n, _, flushed⟩

section Flushing

variable {past : List (Nat × List Table)} {log : List (Except Error Store)}

/-- **The load pays for every piece.** -/
theorem Flushing.load_le (flushing : Flushing r past log t) : past.length + t.load ≤ r.load := by
  induction flushing with
  | save => simpa using r.persist_load
  | @work past log s t now broken _ worked ih =>
    have lighter := step?_load worked
    have same : (s.under broken).load = s.load := rfl
    rw [List.length_append, List.length_singleton]
    omega

theorem Flushing.released (flushing : Flushing r past log t) (saved : Saved log) :
    t.node.persistenceRequired = false := by
  induction flushing with
  | save => exact persist_released saved
  | @work past log s t now broken _ worked ih =>
    have before : (s.under broken).node.persistenceRequired = false :=
      ih fun answer mem => saved answer (List.mem_append_left _ mem)
    exact step?_released before worked fun answer mem => saved answer (List.mem_append_right _ mem)

theorem Flushing.sturdy {name : NodeId} (flushing : Flushing r past log t)
    (sturdy : r.member.Sturdy name) : t.member.Sturdy name := by
  induction flushing with
  | save => exact sturdy_persist sturdy
  | @work past log s t now broken _ worked ih =>
    have before : (s.under broken).member.Sturdy name := ih
    exact sturdy_step? before worked

end Flushing

/-! ## Reachable replicas -/

/-- What a replica may come to over all its lives, each of them begun on the store that an earlier
one has left, wherever that one ended. -/
inductive Reached : Replica → Prop
  | first {c : Config} {now : Nat} {log : List Message} {new r : Replica}
      (started : start c {} now = .ok new) (life : Life new log r) : Reached r
  | again {t : Replica} {broken : List Table} {c : Config} {now : Nat} {log : List Message}
      {new r : Replica} (reached : Reached t)
      (started : start c (t.under broken).store now = .ok new) (life : Life new log r) : Reached r

theorem Life.sturdy {name : NodeId} {log : List Message} (life : Life r log t)
    (sturdy : r.member.Sturdy name) : t.member.Sturdy name := by
  induction life with
  | begin => exact sturdy
  | tables _ broken ih => exact ih
  | input _ now input ih => exact sturdy_act ih now input
  | save _ ih => exact sturdy_persist ih
  | work _ worked ih => exact sturdy_step? ih worked

theorem Reached.sturdy (reached : Reached r) : ∃ name, r.member.Sturdy name := by
  induction reached with
  | first started life => exact ⟨_, life.sturdy (sturdy_start started Voter.coherent_empty)⟩
  | again _ started life ih =>
    obtain ⟨name, before⟩ := ih
    exact ⟨_, life.sturdy (sturdy_start started before.sound.durable)⟩

/-- The node resumes where the store leaves it. -/
theorem start_snapshot {c : Config} {store : Store} {now : Nat}
    (started : start c store now = .ok r) : r.node.snapshot = store.saved := by
  rw [start_eq started]
  rfl

/-- Nothing waits for the store, which holds what the node would need if it had to start again. -/
structure Clean (r : Replica) : Prop where
  released : r.node.persistenceRequired = false
  loads : ∀ broken, .state ∉ broken → ∃ found, (r.under broken).store.load = .ok found ∧
    found.getD {} = r.node.snapshot
  resumes : ∀ c broken now new, start c (r.under broken).store now = .ok new →
    new.node.snapshot = r.node.snapshot

theorem Reached.clean (reached : Reached r) {past : List (Nat × List Table)}
    {log : List (Except Error Store)} (flushing : Flushing r past log t) (saved : Saved log) :
    t.Clean := by
  obtain ⟨name, sturdy⟩ := reached.sturdy
  have released := flushing.released saved
  have durable : t.store.saved = t.node.snapshot :=
    (flushing.sturdy sturdy).sound.durable_eq released
  refine ⟨released, fun broken works => ?_, fun c broken now new started => ?_⟩
  · exact ⟨_, Store.load_ok works, durable⟩
  · exact (start_snapshot started).trans durable

/-- **A flush ends, and ends clean**, whatever is queued, looped back or held at its start.  It is
a flushing that stops with no traffic left.

However time passes in a flushing, and whatever tables break and are mended, the load at the start
pays for the pieces done and for the load that is left, and it can go on just while traffic is
left.  If the replica was reachable and no save has failed, it is clean after each piece. -/
theorem flush_ends_clean (r : Replica) (now : Nat) :
    ((r.flush now).Idle ∧
      ∃ n log, Flushing r (.replicate n (now, r.store.brokenTables)) log (r.flush now)) ∧
    ∀ past log t, Flushing r past log t →
      past.length + t.load ≤ r.load ∧
      (∀ later broken, (t.under broken).step? later = none ↔ t.Idle) ∧
      (Reached r → Saved log → t.Clean) := by
  refine ⟨⟨settle_idle _ now, Flushing.flush r now⟩, fun past log t flushing => ?_⟩
  exact ⟨flushing.load_le, fun later broken => step?_eq_none,
    fun reached saved => reached.clean flushing saved⟩

/-- A pair's node that is about to start its first round. -/
def roundAhead : Replica :=
  ({ node := .start pair.setup 0, store := {}, peers := ["b"] } : Replica).act 5000 .pollLiveness

/-- Its request goes out once its own promise is saved, although no decision could be recorded. -/
theorem flush_ends_clean_roundAhead :
    ∃ t log, Reached roundAhead ∧ Flushing roundAhead [(5001, [.resolution])] log t ∧
      log.length = 1 ∧ Saved log ∧ 1 + t.load ≤ roundAhead.load ∧
      t.sent = [⟨"b", .prepare "a" ⟨1, "a"⟩⟩] ∧ t.node.persistenceRequired = false ∧
      ∃ found, (t.under []).store.load = .ok found ∧
        found.getD {} = { promised := some ⟨1, "a"⟩ } := by
  have reached : Reached roundAhead := by
    have started : start pair {} 0 =
        .ok { node := .start pair.setup 0, store := {}, peers := ["b"] } := rfl
    exact .first started (Life.begin.input 5000 .pollLiveness)
  let before : Replica := roundAhead.persist.under [.resolution]
  have queued : before.queue = [.broadcast (.prepare "a" ⟨1, "a"⟩)] := by decide +kernel
  obtain ⟨t, worked⟩ : ∃ t, before.step? 5001 = some t := ⟨_, by rw [step?, queued]⟩
  have flushing := (Flushing.save (r := roundAhead)).work worked
  have answers : (roundAhead.saves ++ before.workSaves 5001).length = 1 ∧
      Saved (roundAhead.saves ++ before.workSaves 5001) := by decide +kernel
  have after : (before.step? 5001).map (fun t => (t.sent, t.node.snapshot)) =
      some ([⟨"b", .prepare "a" ⟨1, "a"⟩⟩], { promised := some ⟨1, "a"⟩ }) := by decide +kernel
  rw [worked] at after
  have sent : t.sent = [⟨"b", .prepare "a" ⟨1, "a"⟩⟩] := congrArg Prod.fst (Option.some.inj after)
  have snapshot : t.node.snapshot = { promised := some ⟨1, "a"⟩ } :=
    congrArg Prod.snd (Option.some.inj after)
  obtain ⟨-, flush⟩ := flush_ends_clean roundAhead 5000
  obtain ⟨lighter, -, clean⟩ := flush _ _ _ flushing
  have clean := clean reached answers.2
  refine ⟨t, _, reached, flushing, answers.1, answers.2, lighter, sent, clean.released, ?_⟩
  rw [← snapshot]
  exact clean.loads [] List.not_mem_nil

end Replica

end Synod
