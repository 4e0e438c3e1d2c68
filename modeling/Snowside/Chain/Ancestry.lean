import Mathlib.Logic.Relation
import Mathlib.Tactic.Common

/-! Trees of parents: everything has at most one parent, one level below it. -/

set_option autoImplicit false

namespace Ancestry

class Lineage (α : Type) where
  /-- The first is the parent of the second. -/
  IsParent : α → α → Prop
  level : α → Nat
  level_child {parent child : α} : IsParent parent child → level child = level parent + 1
  parent_unique {parent other child : α} : IsParent parent child → IsParent other child → parent = other

export Lineage (IsParent level level_child parent_unique)

variable {α : Type} [Lineage α]

/-- The first is reached from the second by steps to the parent. -/
def Ancestor (ancestor child : α) : Prop :=
  Relation.ReflTransGen (fun child parent => IsParent parent child) child ancestor

namespace Ancestor

variable {a b c : α}

theorem refl (a : α) : Ancestor a a := Relation.ReflTransGen.refl

theorem of_parent (parent : IsParent a b) : Ancestor a b := Relation.ReflTransGen.single parent

theorem trans (first : Ancestor a b) (second : Ancestor b c) : Ancestor a c :=
  Relation.ReflTransGen.trans second first

/-- What is above a parent is above its child. -/
theorem child (first : Ancestor a b) (parent : IsParent b c) : Ancestor a c := first.trans (.of_parent parent)

/-- An ancestor is the thing itself or an ancestor of its parent. -/
theorem eq_or_parent (ancestor : Ancestor a b) : a = b ∨ ∃ parent, IsParent parent b ∧ Ancestor a parent := by
  cases Relation.ReflTransGen.cases_head ancestor with
  | inl same => exact .inl same.symm
  | inr further =>
    obtain ⟨parent, step, rest⟩ := further
    exact .inr ⟨parent, step, rest⟩

/-- A proper ancestor is an ancestor of the parent. -/
theorem of_child {parent : α} (ancestor : Ancestor a b) (other : a ≠ b) (step : IsParent parent b) : Ancestor a parent := by
  rcases ancestor.eq_or_parent with same | ⟨found, isParent, rest⟩
  · exact absurd same other
  · rwa [parent_unique step isParent]

theorem level_le (ancestor : Ancestor a b) : level a ≤ level b := by
  induction ancestor with
  | refl => exact Nat.le_refl _
  | tail _ step ih =>
    have := level_child step
    omega

theorem eq_of_level (ancestor : Ancestor a b) (high : level b ≤ level a) : a = b := by
  rcases ancestor.eq_or_parent with same | ⟨parent, step, rest⟩
  · exact same
  · have := level_child step
    have := rest.level_le
    omega

/-- Two ancestors of one thing are on one line. -/
theorem comparable (first : Ancestor a c) (second : Ancestor b c) : Ancestor a b ∨ Ancestor b a := by
  have unique : Relator.RightUnique fun child parent : α => IsParent parent child := fun _ _ _ one other => parent_unique one other
  exact (Relation.ReflTransGen.total_of_right_unique unique first second).symm

theorem of_level_le (first : Ancestor a c) (second : Ancestor b c) (low : level a ≤ level b) : Ancestor a b := by
  rcases first.comparable second with holds | holds
  · exact holds
  · rw [holds.eq_of_level low]
    exact .refl a

/-- At every level there is at most one ancestor. -/
theorem unique (first : Ancestor a c) (second : Ancestor b c) (same : level a = level b) : a = b :=
  (first.of_level_le second (Nat.le_of_eq same)).eq_of_level (Nat.le_of_eq same.symm)

/-- The line between two things passes through every level between theirs. -/
theorem exists_level (ancestor : Ancestor a b) {number : Nat} (low : level a ≤ number) (high : number ≤ level b) :
    ∃ c, Ancestor a c ∧ Ancestor c b ∧ level c = number := by
  induction ancestor using Relation.ReflTransGen.head_induction_on with
  | refl => exact ⟨a, .refl a, .refl a, Nat.le_antisymm low high⟩
  | head step rest ih =>
    next child parent =>
    have next := level_child step
    by_cases top : number = level child
    · exact ⟨child, Ancestor.child rest step, .refl child, top.symm⟩
    · obtain ⟨c, above, below, here⟩ := ih (by omega)
      exact ⟨c, above, below.child step, here⟩

end Ancestor

/-! ## Paths -/

/-- The chain leads from its start, which is not on it, to its end. -/
def Path (start : α) : List α → α → Prop
  | [], last => start = last
  | next :: rest, last => IsParent start next ∧ Path next rest last

namespace Path

variable {start next last child : α} {chain : List α}

theorem ancestor (path : Path start chain last) : Ancestor start last := by
  induction chain generalizing start with
  | nil =>
    cases path
    exact .refl _
  | cons next rest ih => exact (Ancestor.of_parent path.1).trans (ih path.2)

theorem append_child (path : Path start chain last) (step : IsParent last child) : Path start (chain ++ [child]) child := by
  induction chain generalizing start with
  | nil =>
    cases path
    exact ⟨step, rfl⟩
  | cons next rest ih => exact ⟨path.1, ih path.2⟩

theorem append {other : List α} {final : α} (path : Path start chain last) (further : Path last other final) :
    Path start (chain ++ other) final := by
  induction chain generalizing start with
  | nil =>
    cases path
    exact further
  | cons next rest ih => exact ⟨path.1, ih path.2⟩

/-- A path that is not empty ends with a step. -/
theorem exists_last (path : Path start chain last) :
    (chain = [] ∧ start = last) ∨ ∃ rest parent, chain = rest ++ [last] ∧ Path start rest parent ∧ IsParent parent last := by
  induction chain generalizing start with
  | nil => exact .inl ⟨rfl, path⟩
  | cons next rest ih =>
    obtain ⟨step, path⟩ := path
    rcases ih path with ⟨rfl, rfl⟩ | ⟨front, parent, rfl, path, last⟩
    · exact .inr ⟨[], _, rfl, rfl, step⟩
    · exact .inr ⟨next :: front, parent, rfl, ⟨step, path⟩, last⟩

/-- An ancestor has a path to its descendant. -/
theorem exists_of_ancestor (ancestor : Ancestor start last) : ∃ chain, Path start chain last := by
  induction ancestor using Relation.ReflTransGen.head_induction_on with
  | refl => exact ⟨[], rfl⟩
  | head step rest ih =>
    obtain ⟨chain, path⟩ := ih
    exact ⟨_, path.append_child step⟩

/-- There is only one path from one thing to another. -/
theorem unique {other : List α} (path : Path start chain last) (another : Path start other last) : chain = other := by
  induction length : chain.length generalizing chain other last with
  | zero =>
    obtain rfl := List.length_eq_zero_iff.mp length
    obtain rfl : start = last := path
    rcases another.exists_last with ⟨empty, _⟩ | ⟨rest, parent, _, above, step⟩
    · exact empty.symm
    · have next := level_child step
      have low := above.ancestor.level_le
      omega
  | succ count ih =>
    rcases path.exists_last with ⟨empty, _⟩ | ⟨rest, parent, whole, above, step⟩
    · rw [empty] at length
      cases length
    rcases another.exists_last with ⟨_, same⟩ | ⟨further, found, split, beside, isParent⟩
    · have next := level_child step
      have low := above.ancestor.level_le
      rw [same] at low
      omega
    · obtain rfl := parent_unique step isParent
      rw [whole, List.length_append, List.length_singleton] at length
      rw [whole, split, ih above beside (by omega)]

/-- What is on a path is between its start and its end. -/
theorem between {middle : α} (path : Path start chain last) (member : middle ∈ chain) :
    Ancestor start middle ∧ start ≠ middle ∧ Ancestor middle last := by
  induction chain generalizing start with
  | nil => cases member
  | cons next rest ih =>
    obtain ⟨step, further⟩ := path
    have above := level_child step
    have apart : ∀ {other : α}, Ancestor next other → start ≠ other := by
      rintro other ancestor rfl
      have low := ancestor.level_le
      omega
    rcases List.mem_cons.mp member with rfl | later
    · exact ⟨.of_parent step, apart (.refl middle), further.ancestor⟩
    · obtain ⟨first, _, second⟩ := ih further later
      exact ⟨(Ancestor.of_parent step).trans first, apart first, second⟩

end Path

end Ancestry
