/-
Synod.Proofs.Configuration -- nodes that agree on the members have quorums that meet

Validation is said once, as what it asks for (`Valid`, `validate_eq_ok_iff`), and what follows
from it is read off there.

Each node has a configuration of its own, which may list the node or leave it out, and may ask
for a quorum of its own.  The cluster is the set of the node and its members either way, and its
size is counted right: no member is listed twice, and the node itself is not counted among its
peers (`clusterSize_eq_card`).  So a quorum of one node and a quorum of another one have somebody
in common as soon as both have the same cluster in mind (`quorums_intersect`).
-/
import Mathlib.Data.Finset.Card
import Synod.Config.Basic

namespace Synod.Config

set_option autoImplicit false

/-! ## What validation asks for -/

structure Valid (c : Config) : Prop where
  named : c.node.id ≠ ""
  bound : c.node.bindAddress ≠ ""
  complete : ∀ m ∈ c.cluster.members, m.id ≠ "" ∧ m.address ≠ ""
  distinct : (c.cluster.members.map MemberConfig.id).Nodup
  /-- There are enough nodes for a quorum. -/
  met : c.quorumSize ≤ c.clusterSize
  majority : c.clusterSize < 2 * c.quorumSize
  patient : c.cluster.heartbeatInterval < c.cluster.heartbeatTimeout
  polls : c.cluster.livenessPoll ≠ 0

theorem memberFault?_eq_none_iff {seen : List NodeId} {members : List MemberConfig} :
    memberFault? seen members = none ↔
      (∀ m ∈ members, m.id ≠ "" ∧ m.address ≠ "") ∧
        (∀ m ∈ members, m.id ∉ seen) ∧ (members.map MemberConfig.id).Nodup := by
  induction members generalizing seen with
  | nil => simp [memberFault?]
  | cons m rest ih =>
    have apart : m.id ∉ rest.map MemberConfig.id ↔ ∀ n ∈ rest, n.id ≠ m.id := by simp
    have unseen : (∀ n ∈ rest, n.id ∉ m.id :: seen) ↔
        (∀ n ∈ rest, n.id ≠ m.id) ∧ ∀ n ∈ rest, n.id ∉ seen := by
      simp only [List.mem_cons, not_or, forall_and]
    unfold memberFault?
    split
    · next incomplete =>
      simp only [List.forall_mem_cons, reduceCtorEq, false_iff]
      tauto
    · next complete =>
      rw [not_or] at complete
      split
      · next known => simp [known]
      · next fresh =>
        rw [ih, unseen, List.forall_mem_cons, List.forall_mem_cons, List.map_cons,
          List.nodup_cons, apart]
        tauto

theorem quorumFault?_eq_none_iff {c : Config} :
    c.quorumFault? = none ↔ c.quorumSize ≤ c.clusterSize ∧ c.clusterSize < 2 * c.quorumSize := by
  unfold quorumFault?
  by_cases large : c.clusterSize < c.quorumSize
  · simp only [if_pos large, reduceCtorEq, false_iff]
    omega
  · -- only a quorum that is asked for is checked, since any other one is a majority
    have small : (c.cluster.minQuorum ≠ 0 ∧ c.cluster.minQuorum ≤ c.clusterSize / 2) ↔
        ¬ c.clusterSize < 2 * c.quorumSize := by
      unfold quorumSize
      split <;> omega
    rw [if_neg large]
    split
    · next minority =>
      simp only [reduceCtorEq, false_iff, not_and]
      exact fun _ => small.1 minority
    · next majority => exact iff_of_true rfl ⟨not_lt.1 large, not_not.1 (mt small.2 majority)⟩

theorem timingFault?_eq_none_iff {c : Config} :
    c.timingFault? = none ↔
      c.cluster.heartbeatInterval < c.cluster.heartbeatTimeout ∧ c.cluster.livenessPoll ≠ 0 := by
  unfold timingFault?
  split
  · simp; omega
  · split <;> simp_all

theorem fault?_eq_none_iff {c : Config} : c.fault? = none ↔ c.Valid := by
  unfold fault?
  split
  · next unnamed => exact ⟨fun h => (by cases h), fun valid => absurd unnamed valid.named⟩
  · next named =>
    split
    · next unbound => exact ⟨fun h => (by cases h), fun valid => absurd unbound valid.bound⟩
    · next bound =>
      simp only [Option.or_eq_none_iff, memberFault?_eq_none_iff, quorumFault?_eq_none_iff,
        timingFault?_eq_none_iff]
      constructor
      · rintro ⟨⟨complete, -, distinct⟩, ⟨met, majority⟩, patient, polls⟩
        exact ⟨named, bound, complete, distinct, met, majority, patient, polls⟩
      · rintro ⟨-, -, complete, distinct, met, majority, patient, polls⟩
        exact ⟨⟨complete, by simp, distinct⟩, ⟨met, majority⟩, patient, polls⟩

/-- Validation accepts what is valid, and hands it on as it is. -/
theorem validate_eq_ok_iff {c d : Config} : c.validate = .ok d ↔ c.Valid ∧ c = d := by
  rw [← fault?_eq_none_iff]
  unfold validate
  cases c.fault? <;> simp

theorem valid_of_validate {c d : Config} (accepted : c.validate = .ok d) : c.Valid :=
  (validate_eq_ok_iff.1 accepted).1

/-! ## The cluster -/

/-- The node and its peers. -/
def names (c : Config) : List NodeId := c.node.id :: c.peers.map MemberConfig.id

/-- The cluster that a configuration has in mind: the node, and whoever it lists. -/
def roster (c : Config) : Finset NodeId :=
  insert c.node.id (c.cluster.members.map MemberConfig.id).toFinset

theorem toFinset_names (c : Config) : c.names.toFinset = c.roster := by
  ext id
  simp only [names, roster, peers, List.toFinset_cons, Finset.mem_insert, List.mem_toFinset,
    List.mem_map, List.mem_filter, decide_eq_true_eq]
  constructor
  · rintro (self | ⟨m, ⟨listed, -⟩, same⟩)
    · exact .inl self
    · exact .inr ⟨m, listed, same⟩
  · rintro (self | ⟨m, listed, rfl⟩)
    · exact .inl self
    · by_cases self : m.id = c.node.id
      · exact .inl self
      · exact .inr ⟨m, ⟨listed, self⟩, rfl⟩

theorem Valid.names_nodup {c : Config} (valid : c.Valid) : c.names.Nodup := by
  have peers : (c.peers.map MemberConfig.id).Sublist (c.cluster.members.map MemberConfig.id) :=
    List.filter_sublist.map _
  refine List.nodup_cons.2 ⟨?_, valid.distinct.sublist peers⟩
  simp [Config.peers]

/-- The size of the cluster is the number of its members. -/
theorem Valid.clusterSize_eq_card {c : Config} (valid : c.Valid) : c.clusterSize = c.roster.card := by
  have counted := List.toFinset_card_of_nodup valid.names_nodup
  rw [toFinset_names] at counted
  simp [counted, names, clusterSize]

theorem Valid.quorumSize_pos {c : Config} (valid : c.Valid) : 1 ≤ c.quorumSize := by
  have := valid.majority
  omega

/-! ## Two configurations of one cluster -/

/-- **Quorums intersect**, of whatever nodes.  Let two valid configurations have the same cluster
in mind.  Both count its members, and any quorum that one of them asks for has a member in common
with any quorum that the other one asks for.  Such quorums exist; and they are of one size if
neither configuration asks for a size. -/
theorem quorums_intersect {a b : Config} (accepted : a.validate = .ok a)
    (accepted' : b.validate = .ok b) (same : a.roster = b.roster) :
    (a.clusterSize = a.roster.card ∧ b.clusterSize = a.roster.card) ∧
      (∀ S ⊆ a.roster, ∀ T ⊆ a.roster, a.quorumSize ≤ S.card → b.quorumSize ≤ T.card →
        (S ∩ T).Nonempty) ∧
      (1 ≤ a.quorumSize ∧ a.quorumSize ≤ a.clusterSize) ∧
      (1 ≤ b.quorumSize ∧ b.quorumSize ≤ b.clusterSize) ∧
      (a.cluster.minQuorum = 0 → b.cluster.minQuorum = 0 → a.quorumSize = b.quorumSize) := by
  have valid := valid_of_validate accepted
  have valid' := valid_of_validate accepted'
  have size := valid.clusterSize_eq_card
  have size' := same ▸ valid'.clusterSize_eq_card
  refine ⟨⟨size, size'⟩, ?_, ⟨valid.quorumSize_pos, valid.met⟩,
    ⟨valid'.quorumSize_pos, valid'.met⟩, ?_⟩
  · intro S inside T inside' enough enough'
    have majority := valid.majority
    have majority' := valid'.majority
    exact Finset.inter_nonempty_of_card_lt_card_add_card inside inside' (by omega)
  · intro unasked unasked'
    simp [quorumSize, unasked, unasked', size, size']

/-- Lists itself, and asks for all three nodes. -/
def unanimous : Config where
  node := { id := "a", bindAddress := "127.0.0.1:4000" }
  cluster := {
    members := [⟨"c", "127.0.0.1:4002"⟩, ⟨"a", "127.0.0.1:4000"⟩, ⟨"b", "127.0.0.1:4001"⟩]
    minQuorum := 3 }

/-- Leaves itself out, and asks for no size. -/
def ordinary : Config where
  node := { id := "b", bindAddress := "127.0.0.1:4001" }
  cluster := { members := [⟨"a", "127.0.0.1:4000"⟩, ⟨"c", "127.0.0.1:4002"⟩] }

theorem quorums_intersect_unanimous :
    unanimous.validate = .ok unanimous ∧ ordinary.validate = .ok ordinary ∧
      unanimous.roster = ordinary.roster ∧
      unanimous.clusterSize = 3 ∧ ordinary.clusterSize = 3 ∧
      unanimous.quorumSize = 3 ∧ ordinary.quorumSize = 2 ∧
      (({"a", "b", "c"} : Finset NodeId) ∩ {"a", "c"}).Nonempty := by
  have accepted : unanimous.validate = .ok unanimous := rfl
  have accepted' : ordinary.validate = .ok ordinary := rfl
  have same : unanimous.roster = ordinary.roster := by decide
  obtain ⟨⟨size, size'⟩, meet, -⟩ := quorums_intersect accepted accepted' same
  exact ⟨accepted, accepted', same, size, size', rfl, rfl,
    meet _ (by decide) _ (by decide) (by decide) (by decide)⟩

end Synod.Config
