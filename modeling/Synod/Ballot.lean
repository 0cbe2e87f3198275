/-
Synod.Ballot -- numbered rounds, each owned by one proposer

A ballot is a round number together with the node that owns it.  Ballots are
ordered by round first; the owner breaks ties, so two proposers never issue
equal ballots.  `compare` is the same order as `<`.

A ballot without an owner is not valid, and every role drops what carries one.
Rounds end at `Ballot.lastRound`: `next?` has no answer there, so a round number
never wraps.
-/

namespace Synod

set_option autoImplicit false

/-- The name of a cluster member. -/
abbrev NodeId := String

/-- What the cluster decides on. -/
abbrev Value := String

structure Ballot where
  number : UInt64
  owner : NodeId
deriving DecidableEq, Repr

namespace Ballot

/-! ## Order -/

instance : LT Ballot where
  lt a b := a.number < b.number ∨ a.number = b.number ∧ a.owner < b.owner

instance : LE Ballot where
  le a b := ¬ b < a

theorem lt_def {a b : Ballot} :
    a < b ↔ a.number < b.number ∨ a.number = b.number ∧ a.owner < b.owner := Iff.rfl

theorem le_def {a b : Ballot} : a ≤ b ↔ ¬ b < a := Iff.rfl

instance (a b : Ballot) : Decidable (a < b) := decidable_of_iff' _ lt_def

instance (a b : Ballot) : Decidable (a ≤ b) := decidable_of_iff' _ le_def

instance : Ord Ballot where
  compare a b := compareOfLessAndEq a b

/-! ## Rounds -/

/-- A ballot means something only when somebody owns it. -/
def Valid (b : Ballot) : Prop := b.owner ≠ ""

instance (b : Ballot) : Decidable b.Valid := inferInstanceAs (Decidable (b.owner ≠ ""))

def lastRound : UInt64 := 18446744073709551615

/-- The same owner's next round, if one is left. -/
def next? (b : Ballot) : Option Ballot :=
  if b.number < lastRound then some { b with number := b.number + 1 } else none

/-- The next round; the last one is kept. -/
def next (b : Ballot) : Ballot := b.next?.getD b

def render (b : Ballot) : String :=
  "(" ++ Nat.repr b.number.toNat ++ ", " ++ b.owner ++ ")"

end Ballot

/-- Whether an optional ballot exceeds another one; nothing is below every ballot. -/
def Ballot.Exceeds : Option Ballot → Option Ballot → Prop
  | none, _ => False
  | some _, none => True
  | some a, some b => b < a

instance : (a b : Option Ballot) → Decidable (Ballot.Exceeds a b)
  | none, _ => inferInstanceAs (Decidable False)
  | some _, none => inferInstanceAs (Decidable True)
  | some a, some b => inferInstanceAs (Decidable (b < a))

end Synod
