import Mathlib.Algebra.Order.BigOperators.Group.List
import Mathlib.Data.List.Sort

/-! The largest first: among choices of one length none has a larger sum. -/

set_option autoImplicit false

namespace Largest

variable {Weight : Type} [AddCommMonoid Weight] [LinearOrder Weight] [IsOrderedAddMonoid Weight] {weights : List Weight}

/-- The first weights come to no less than as many of the later ones. -/
theorem sum_take_le {weight : Weight} (descending : (weight :: weights).Pairwise fun first second => second ≤ first)
    {count : Nat} (short : count ≤ weights.length) : (weights.take count).sum ≤ ((weight :: weights).take count).sum := by
  induction count generalizing weight weights with
  | zero => simp
  | succ count ih =>
    cases weights with
    | nil => cases short
    | cons next rest =>
      obtain ⟨largest, descending⟩ := List.pairwise_cons.mp descending
      rw [List.take_succ_cons, List.take_succ_cons, List.sum_cons, List.sum_cons]
      exact add_le_add (largest next (List.mem_cons_self ..)) (ih descending (Nat.le_of_succ_le_succ short))

/-- No choice comes to more than as many of the first weights. -/
theorem sum_le_sum_take {chosen : List Weight} (descending : weights.Pairwise fun first second => second ≤ first)
    (sub : chosen.Sublist weights) : chosen.sum ≤ (weights.take chosen.length).sum := by
  induction sub with
  | slnil => exact le_rfl
  | cons weight sub ih => exact (ih (List.pairwise_cons.mp descending).2).trans (sum_take_le descending sub.length_le)
  | cons_cons weight sub ih =>
    rw [List.length_cons, List.take_succ_cons, List.sum_cons, List.sum_cons]
    exact add_le_add le_rfl (ih (List.pairwise_cons.mp descending).2)

omit [IsOrderedAddMonoid Weight] in
/-- A longer prefix comes to no less, where no weight is negative. -/
theorem sum_take_mono [CanonicallyOrderedAdd Weight] {first second : Nat} (le : first ≤ second) :
    (weights.take first).sum ≤ (weights.take second).sum := by
  rw [← Nat.add_sub_of_le le, List.take_add, List.sum_append]
  exact le_self_add

/-- Where a prefix stays below a target, no choice of its length or less reaches it. -/
theorem length_lt [CanonicallyOrderedAdd Weight] {chosen : List Weight} {target : Weight} {count : Nat}
    (descending : weights.Pairwise fun first second => second ≤ first) (sub : chosen.Subperm weights)
    (below : (weights.take count).sum < target) (reaches : target ≤ chosen.sum) : count < chosen.length := by
  obtain ⟨ordered, same, sub⟩ := sub
  by_contra short
  have most := sum_le_sum_take descending sub
  rw [same.sum_eq, same.length_eq] at most
  have bounded : (weights.take chosen.length).sum ≤ (weights.take count).sum := sum_take_mono (Nat.not_lt.mp short)
  exact absurd (reaches.trans (most.trans bounded)) (not_le.mpr below)

end Largest
