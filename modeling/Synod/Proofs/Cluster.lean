/-
Synod.Proofs.Cluster -- one action touches one member

A cluster has a member for each name, under this name alone (`distinct_start`).  Between
actions no member holds traffic of its own, so after an action on one member all that is
carried is its traffic, and the others stay as they are (`collect_update`).

An action is elementary if it is no shorthand for many, and switches no node.
-/
import Mathlib.Data.List.Nodup
import Synod.Proofs.Member

namespace Synod

set_option autoImplicit false

namespace Cluster

/-! ## Names -/

/-- Each member under its own name. -/
def Distinct (c : Cluster) : Prop := c.names.Nodup

theorem eq_of_id {c : Cluster} (distinct : c.Distinct) {m k : Member} (hm : m ∈ c.members)
    (hk : k ∈ c.members) (same : k.node.id = m.node.id) : k = m :=
  List.inj_on_of_nodup_map distinct hk hm same

/-- Adding a name to an ascending list keeps it ascending, with the names it had. -/
theorem insertName_ascending (name : NodeId) {names : List NodeId}
    (ascending : names.Pairwise (· < ·)) :
    (insertName name names).Pairwise (· < ·) ∧
      (∀ r ∈ insertName name names, r = name ∨ r ∈ names) ∧
      (insertName name names).length ≤ names.length + 1 := by
  induction names with
  | nil => simp [insertName]
  | cons n rest ih =>
    obtain ⟨above, ascending'⟩ := List.pairwise_cons.1 ascending
    unfold insertName
    split
    · next less =>
      refine ⟨List.pairwise_cons.2 ⟨fun r mem => ?_, ascending⟩, by simp, le_rfl⟩
      rcases List.mem_cons.1 mem with rfl | later
      · exact less
      · exact less.trans (above r later)
    · next notLess =>
      split
      · exact ⟨ascending, fun r mem => .inr mem, Nat.le_succ _⟩
      · next different =>
        obtain ⟨inserted, origin, size⟩ := ih ascending'
        refine ⟨List.pairwise_cons.2 ⟨fun r mem => ?_, inserted⟩, fun r mem => ?_,
          Nat.succ_le_succ size⟩
        · rcases origin r mem with rfl | old
          · exact lt_of_le_of_ne (not_lt.1 notLess) (Ne.symm different)
          · exact above r old
        · rcases List.mem_cons.1 mem with rfl | later
          · exact .inr List.mem_cons_self
          · exact (origin r later).imp_right (List.mem_cons_of_mem _)

theorem names_start (names : List NodeId) (quorum : Nat) (timing : Timing)
    (leader : Option NodeId) :
    (start names quorum timing leader).names = names.foldr insertName [] := by
  show List.map _ (List.map _ _) = _
  rw [List.map_map]
  exact List.map_id' _

theorem mem_insertName {name r : NodeId} {names : List NodeId} :
    r ∈ insertName name names ↔ r = name ∨ r ∈ names := by
  induction names with
  | nil => simp [insertName]
  | cons n rest ih =>
    unfold insertName
    split
    · exact List.mem_cons
    · split
      · next same => simp [same]
      · rw [List.mem_cons, ih, List.mem_cons]
        tauto

theorem mem_names_start {names : List NodeId} {quorum : Nat} {timing : Timing}
    {leader : Option NodeId} {r : NodeId} :
    r ∈ (start names quorum timing leader).names ↔ r ∈ names := by
  rw [names_start]
  induction names with
  | nil => simp
  | cons n rest ih => rw [List.foldr_cons, mem_insertName, ih, List.mem_cons]

/-- A cluster starts with one member for each name. -/
theorem distinct_start (names : List NodeId) (quorum : Nat) (timing : Timing)
    (leader : Option NodeId) :
    (start names quorum timing leader).Distinct ∧
      (start names quorum timing leader).names.length ≤ names.length := by
  unfold Distinct
  rw [names_start]
  have sorted : (names.foldr insertName []).Pairwise (· < ·) ∧
      (names.foldr insertName []).length ≤ names.length := by
    induction names with
    | nil => simp
    | cons n rest ih =>
      obtain ⟨ascending, -, size⟩ := insertName_ascending n ih.1
      exact ⟨ascending, size.trans (Nat.succ_le_succ ih.2)⟩
  exact ⟨sorted.1.imp ne_of_lt, sorted.2⟩

theorem names_update {c : Cluster} {id : NodeId} {f : Member → Member}
    (named : ∀ m ∈ c.members, m.node.id = id → (f m).node.id = id) :
    (c.update id f).names = c.names := by
  unfold update names
  rw [List.map_map]
  refine List.map_congr_left fun m mem => ?_
  simp only [Function.comp]
  split
  · next same => exact (named m mem same).trans same.symm
  · rfl

theorem mem_update {c : Cluster} {id : NodeId} {f : Member → Member} {x : Member}
    (mem : x ∈ (c.update id f).members) :
    ∃ m ∈ c.members, m.node.id = id ∧ x = f m ∨ m.node.id ≠ id ∧ x = m := by
  obtain ⟨m, old, rfl⟩ := List.mem_map.1 mem
  refine ⟨m, old, ?_⟩
  split
  · next same => exact .inl ⟨same, rfl⟩
  · next other => exact .inr ⟨other, rfl⟩

theorem update_same {c : Cluster} {id : NodeId} {f : Member → Member}
    (same : ∀ m ∈ c.members, m.node.id = id → f m = m) : c.update id f = c := by
  have members : (c.members.map fun m => if m.node.id = id then f m else m) = c.members := by
    refine (List.map_congr_left fun m mem => ?_).trans (List.map_id c.members)
    split
    · next found => exact same m mem found
    · rfl
  unfold update
  rw [members]

theorem update_absent {c : Cluster} {id : NodeId} (absent : ∀ m ∈ c.members, m.node.id ≠ id)
    (f : Member → Member) : c.update id f = c :=
  update_same fun m mem found => absurd found (absent m mem)

/-! ## Collecting -/

def Idle (c : Cluster) : Prop := ∀ m ∈ c.members, m.queue = []

/-- Whom a member's broadcasts go to. -/
def others (c : Cluster) (id : NodeId) : List NodeId := c.names.filter fun name => name ≠ id

theorem collect_of_idle {m : Member} (idle : m.queue = []) (now : Nat) (peers : List NodeId) :
    m.collect now peers = (m, {}) := by
  rw [Member.collect]
  split
  · rfl
  · next o rest traffic =>
    rw [idle] at traffic
    cases traffic

def total (xs : List Carried) : Carried := xs.foldr (· ++ ·) {}

theorem sent_total (xs : List Carried) : (total xs).sent = xs.flatMap Carried.sent := by
  induction xs with
  | nil => rfl
  | cons x rest ih =>
    rw [List.flatMap_cons, ← ih]
    rfl

/-- What one member of a list carries is what all carry, if the others carry nothing. -/
theorem total_single {ms : List Member} {m : Member} (mem : m ∈ ms)
    (distinct : (ms.map fun k => k.node.id).Nodup) (x : Carried) :
    total (ms.map fun k => if k.node.id = m.node.id then x else {}) = x := by
  have silent : ∀ ks : List Member, m.node.id ∉ ks.map (fun k => k.node.id) →
      total (ks.map fun k => if k.node.id = m.node.id then x else {}) = {} := by
    intro ks absent
    induction ks with
    | nil => rfl
    | cons k rest ih =>
      simp only [List.map_cons, List.mem_cons, not_or] at absent
      have later := ih absent.2
      simp only [total, List.map_cons, List.foldr_cons] at later ⊢
      rw [later, if_neg (Ne.symm absent.1)]
      rfl
  induction ms with
  | nil => cases mem
  | cons k rest ih =>
    obtain ⟨new, distinct⟩ := List.nodup_cons.1 distinct
    simp only [total, List.map_cons, List.foldr_cons] at ih silent ⊢
    rcases List.mem_cons.1 mem with rfl | later
    · rw [if_pos rfl, silent rest new, Carried.append_empty]
    · have other : k.node.id ≠ m.node.id := fun same => new (List.mem_map.2 ⟨m, later, same.symm⟩)
      rw [if_neg other, ih later distinct, Carried.empty_append]

theorem collect_eq (c : Cluster) :
    c.collect = ({ c with
        members := c.members.map fun m => (m.collect c.now (c.others m.node.id)).1
        pool := c.pool ++
          (total (c.members.map fun m => (m.collect c.now (c.others m.node.id)).2)).sent },
      total (c.members.map fun m => (m.collect c.now (c.others m.node.id)).2)) := by
  unfold collect
  simp only [List.map_map]
  rfl

theorem collect_idle {c : Cluster} (idle : c.Idle) : c.collect = (c, {}) := by
  have each : ∀ m ∈ c.members, m.collect c.now (c.others m.node.id) = (m, {}) :=
    fun m mem => collect_of_idle (idle m mem) _ _
  have stay : (c.members.map fun m => (m.collect c.now (c.others m.node.id)).1) = c.members := by
    rw [List.map_congr_left fun m mem => congrArg Prod.fst (each m mem)]
    exact List.map_id' _
  have silent : total (c.members.map fun m => (m.collect c.now (c.others m.node.id)).2) = {} := by
    rw [List.map_congr_left fun m mem => congrArg Prod.snd (each m mem)]
    induction c.members with
    | nil => rfl
    | cons m rest ih => exact ih
  rw [collect_eq, stay, silent]
  simp

/-- Only the member that acted carries traffic. -/
theorem collect_update {c : Cluster} (distinct : c.Distinct) (idle : c.Idle) {m : Member}
    (mem : m ∈ c.members) {f : Member → Member} (named : (f m).node.id = m.node.id) :
    (c.update m.node.id f).collect =
      ({ c.update m.node.id fun _ => ((f m).collect c.now (c.others m.node.id)).1 with
          pool := c.pool ++ ((f m).collect c.now (c.others m.node.id)).2.sent },
        ((f m).collect c.now (c.others m.node.id)).2) := by
  have names : (c.update m.node.id f).names = c.names := names_update fun k hk same => by
    rw [c.eq_of_id distinct mem hk same, named]
  -- what a member of the changed cluster comes to, by its place in the old one
  have each : ∀ k ∈ c.members,
      (if k.node.id = m.node.id then f k else k).collect c.now
        ((c.update m.node.id f).others (if k.node.id = m.node.id then f k else k).node.id) =
      if k.node.id = m.node.id then (f m).collect c.now (c.others m.node.id) else (k, {}) := by
    intro k hk
    unfold others
    rw [names]
    by_cases same : k.node.id = m.node.id
    · rw [if_pos same, if_pos same, c.eq_of_id distinct mem hk same, named]
    · rw [if_neg same, if_neg same]
      exact collect_of_idle (idle k hk) _ _
  have first : ((c.update m.node.id f).members.map fun k =>
      (k.collect c.now ((c.update m.node.id f).others k.node.id)).1) =
      (c.update m.node.id fun _ => ((f m).collect c.now (c.others m.node.id)).1).members := by
    show (c.members.map _).map _ = c.members.map _
    rw [List.map_map]
    refine List.map_congr_left fun k hk => (congrArg Prod.fst (each k hk)).trans ?_
    split <;> rfl
  have second : total ((c.update m.node.id f).members.map fun k =>
      (k.collect c.now ((c.update m.node.id f).others k.node.id)).2) =
      ((f m).collect c.now (c.others m.node.id)).2 := by
    refine Eq.trans (congrArg total ?_) (total_single mem distinct _)
    show (c.members.map _).map _ = c.members.map _
    rw [List.map_map]
    refine List.map_congr_left fun k hk => (congrArg Prod.snd (each k hk)).trans ?_
    split <;> rfl
  have now : (c.update m.node.id f).now = c.now := rfl
  rw [collect_eq, now, first, second]
  rfl

/-! ## Runs -/

/-- One event of the network, the clock, a node, its storage or its operator.  Settling is
a run of such events. -/
def Action.Elementary : Action → Prop
  | .settle | .setActive .. => False
  | _ => True

theorem step_elementary (c : Cluster) {a : Action} (elementary : a.Elementary) :
    c.step a = (c.act a).1.collect := by
  have silent : (c.act a).2 = {} := by
    cases a with
    | deliver index =>
      simp only [act]
      split <;> rfl
    | settle | setActive => exact elementary.elim
    | _ => rfl
  unfold step
  simp only [silent, Carried.empty_append]

/-- A heartbeat, and then what was asked for again, are two inputs. -/
theorem absorb_pulse (m : Member) (now : Nat) :
    m.absorb (let r := m.node.pulse now; (r.1, r.2 ++ r.1.resend)) =
      (m.absorb (m.node.step now .pulse)).absorb
        ((m.absorb (m.node.step now .pulse)).node.step now .resend) := by
  have id := (m.node.step_roles now .pulse).id
  unfold Member.absorb
  simp only [outbound_append, id, ← List.append_assoc]
  rfl

/-- What a run carries comes after what was carried before. -/
theorem run_from (c : Cluster) (acc : Carried) (actions : List Action) :
    actions.foldl (fun r a => let s := r.1.step a; (s.1, r.2 ++ s.2)) (c, acc) =
      ((c.run actions).1, acc ++ (c.run actions).2) := by
  induction actions generalizing c acc with
  | nil => simp [run]
  | cons a rest ih =>
    unfold run
    simp only [List.foldl_cons]
    rw [ih, ih (c.step a).1 ({} ++ (c.step a).2), Carried.empty_append, Carried.append_assoc]

theorem run_cons (c : Cluster) (a : Action) (rest : List Action) :
    c.run (a :: rest) =
      (((c.step a).1.run rest).1, (c.step a).2 ++ ((c.step a).1.run rest).2) := by
  have later := run_from (c.step a).1 ({} ++ (c.step a).2) rest
  rw [Carried.empty_append] at later
  exact later

end Cluster

end Synod
