/-
Synod.Proofs.Ballot -- ballots are totally ordered

Ballots are ordered by round first and by owner second, and this order is linear.
So is the order of optional ballots, where nothing is below every ballot;
`Ballot.Exceeds` is the strict part of it (`exceeds_iff`).

A next round, where one is left, is above the round it follows, and observing a
round never leads to the last one.
-/
import Mathlib.Data.String.Basic
import Synod.Ballot

namespace Synod

set_option autoImplicit false

namespace Ballot

/-! ## Ballots -/

protected theorem lt_irrefl (a : Ballot) : ¬ a < a := by
  rw [lt_def]
  rintro (h | ⟨-, h⟩)
  · exact UInt64.lt_irrefl _ h
  · exact lt_irrefl _ h

protected theorem lt_trans {a b c : Ballot} (ab : a < b) (bc : b < c) : a < c := by
  rw [lt_def] at ab bc ⊢
  rcases ab with ab | ⟨ab, ab'⟩ <;> rcases bc with bc | ⟨bc, bc'⟩
  · exact .inl (UInt64.lt_trans ab bc)
  · exact .inl (bc ▸ ab)
  · exact .inl (ab ▸ bc)
  · exact .inr ⟨ab.trans bc, ab'.trans bc'⟩

protected theorem lt_trichotomy (a b : Ballot) : a < b ∨ a = b ∨ b < a := by
  simp only [lt_def]
  rcases lt_trichotomy a.number.toNat b.number.toNat with h | h | h
  · exact .inl (.inl h)
  · have same : a.number = b.number := UInt64.toNat_inj.1 h
    rcases lt_trichotomy a.owner b.owner with o | o | o
    · exact .inl (.inr ⟨same, o⟩)
    · refine .inr (.inl ?_)
      cases a
      cases b
      simp_all
    · exact .inr (.inr (.inr ⟨same.symm, o⟩))
  · exact .inr (.inr (.inl h))

instance : LinearOrder Ballot where
  le_refl a := Ballot.lt_irrefl a
  le_trans a b c ab bc ca := by
    rcases Ballot.lt_trichotomy b c with h | rfl | h
    · exact ab (Ballot.lt_trans h ca)
    · exact ab ca
    · exact bc h
  le_antisymm a b ab ba := by
    rcases Ballot.lt_trichotomy a b with h | h | h
    · exact absurd h ba
    · exact h
    · exact absurd h ab
  le_total a b := by
    rcases Ballot.lt_trichotomy a b with h | rfl | h
    · exact .inl fun h' => Ballot.lt_irrefl _ (Ballot.lt_trans h h')
    · exact .inl (Ballot.lt_irrefl _)
    · exact .inr fun h' => Ballot.lt_irrefl _ (Ballot.lt_trans h h')
  lt_iff_le_not_ge a b := by
    constructor
    · intro h
      exact ⟨fun h' => Ballot.lt_irrefl _ (Ballot.lt_trans h h'), not_not.2 h⟩
    · intro h
      exact not_not.1 h.2
  toDecidableLE := inferInstance
  toDecidableLT := inferInstance
  toDecidableEq := inferInstance

/-! ## Optional ballots -/

theorem exceeds_iff {a b : Option Ballot} : Exceeds a b ↔ b < a := by
  cases a <;> cases b <;> simp [Exceeds]

theorem not_exceeds_iff {a b : Option Ballot} : ¬ Exceeds a b ↔ a ≤ b := by
  cases a <;> cases b <;> simp [Exceeds]

instance (a b : Option Ballot) : Decidable (a < b) := decidable_of_iff _ exceeds_iff

instance (a b : Option Ballot) : Decidable (a ≤ b) := decidable_of_iff _ not_exceeds_iff

instance : LinearOrder (Option Ballot) where
  le_refl a := by cases a <;> simp
  le_trans a b c ab bc := by
    cases a <;> cases b <;> cases c <;> simp_all
    exact ab.trans bc
  le_antisymm a b ab ba := by
    cases a <;> cases b <;> simp_all
    exact le_antisymm ab ba
  le_total a b := by
    cases a <;> cases b <;> simp
    exact le_total _ _
  lt_iff_le_not_ge a b := by
    cases a <;> cases b <;> simp
    exact le_of_lt
  toDecidableLE := inferInstance
  toDecidableLT := inferInstance
  toDecidableEq := inferInstance
  min a b := if a ≤ b then a else b
  max a b := if a ≤ b then b else a
  compare a b := compareOfLessAndEq a b

/-! ## Rounds -/

protected theorem ext' {a b : Ballot} (number : a.number = b.number) (owner : a.owner = b.owner) :
    a = b := by
  cases a
  cases b
  cases number
  cases owner
  rfl

theorem number_le_of_le {a b : Ballot} (h : a ≤ b) : a.number ≤ b.number := by
  rw [le_def, lt_def] at h
  exact UInt64.not_lt.1 fun less => h (.inl less)

theorem le_of_number_le {a b : Ballot} (owner : a.owner = b.owner) (number : a.number ≤ b.number) :
    a ≤ b := by
  rw [le_def, lt_def, owner]
  rintro (less | ⟨-, less⟩)
  · exact UInt64.not_lt.2 number less
  · exact lt_irrefl _ less

@[simp] theorem next_owner (b : Ballot) : b.next.owner = b.owner := by
  unfold next next?
  split <;> rfl

/-- A fresh round is the next one, unless the rounds are spent. -/
theorem next_number (b : Ballot) : b.next.number.toNat =
    if b.number = lastRound then b.number.toNat else b.number.toNat + 1 := by
  have last : lastRound.toNat = 18446744073709551615 := rfl
  by_cases left : b.number < lastRound
  · have some : b.next = { b with number := b.number + 1 } := by simp [next, next?, left]
    have before : b.number ≠ lastRound := fun same => UInt64.lt_irrefl _ (same ▸ left)
    rw [if_neg before, some, UInt64.toNat_add]
    rw [UInt64.lt_iff_toNat_lt] at left
    have one : (1 : UInt64).toNat = 1 := rfl
    omega
  · have spent : b.number = lastRound := by
      have below := b.number.toNat_lt
      rw [UInt64.lt_iff_toNat_lt] at left
      exact UInt64.toNat_inj.1 (by omega)
    have none : b.next = b := by simp [next, next?, left]
    rw [if_pos spent, none]

theorem number_le_next (b : Ballot) : b.number ≤ b.next.number := by
  rw [UInt64.le_iff_toNat_le, next_number]
  split <;> omega

theorem le_cap {m n : UInt64} (le : m ≤ n) (left : m < lastRound) : m ≤ min n (lastRound - 1) := by
  show m ≤ if n ≤ lastRound - 1 then n else lastRound - 1
  split
  · exact le
  · have one : (lastRound - 1).toNat = 18446744073709551614 := rfl
    have last : lastRound.toNat = 18446744073709551615 := rfl
    rw [UInt64.lt_iff_toNat_lt] at left
    rw [UInt64.le_iff_toNat_le]
    omega

end Ballot

end Synod
