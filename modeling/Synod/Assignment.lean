/-
Synod.Assignment -- finite maps as lists of pairs

A list of pairs stands for the map that `List.lookup` reads from it.  `assign`
changes the map at one key, keeps the keys distinct, and moves the key to the end.
-/

namespace Synod

set_option autoImplicit false

variable {α β : Type} [DecidableEq α]

def assign (pairs : List (α × β)) (key : α) (value : β) : List (α × β) :=
  pairs.filter (fun pair => pair.1 ≠ key) ++ [(key, value)]

theorem mem_assign {pairs : List (α × β)} {key k : α} {value v : β} :
    (k, v) ∈ assign pairs key value ↔ (k, v) ∈ pairs ∧ k ≠ key ∨ k = key ∧ v = value := by
  simp [assign]

theorem lookup_assign (pairs : List (α × β)) (key k : α) (value : β) :
    (assign pairs key value).lookup k = if k = key then some value else pairs.lookup k := by
  have others : (pairs.filter fun pair => pair.1 ≠ key).lookup k =
      if k = key then none else pairs.lookup k := by
    induction pairs with
    | nil => simp
    | cons pair rest ih =>
      obtain ⟨k', v'⟩ := pair
      by_cases gone : k' = key
      · by_cases asked : k = key
        · simpa [gone, asked] using ih
        · have other : (k == key) = false := beq_eq_false_iff_ne.2 asked
          simpa [gone, asked, List.lookup_cons, other] using ih
      · simp only [ne_eq, gone, not_false_eq_true, decide_true, List.filter_cons_of_pos,
          List.lookup_cons, ih]
        by_cases found : k = k'
        · simp [found, gone]
        · have other : (k == k') = false := beq_eq_false_iff_ne.2 found
          simp [other]
  rw [assign, List.lookup_append, others]
  by_cases same : k = key
  · simp [same]
  · have other : (k == key) = false := beq_eq_false_iff_ne.2 same
    simp [same, List.lookup_cons, other]

end Synod
