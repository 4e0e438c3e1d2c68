import Mathlib.Data.List.Nodup

/-! Tables of rows by key, and steps that keep, insert or update one row. -/

set_option autoImplicit false

namespace Keyed

variable {Row : Type} {key : Row → Nat} {Fresh : Row → Prop} {Moves : Row → Row → Prop} {rows after : List Row}

inductive Step (key : Row → Nat) (Fresh : Row → Prop) (Moves : Row → Row → Prop) (rows : List Row) : List Row → Prop where
  | same : Step key Fresh Moves rows rows
  | insert (row : Row) : key row ∉ rows.map key → Fresh row → Step key Fresh Moves rows (rows ++ [row])
  | update (row : Row) (edit : Row → Row) : row ∈ rows → (∀ other, key (edit other) = key other) → Moves row (edit row) →
      Step key Fresh Moves rows (rows.map fun other => if key other = key row then edit other else other)

/-- The row of a key. -/
def lookup (key : Row → Nat) (rows : List Row) (id : Nat) : Option Row := rows.find? (key · = id)

theorem lookup_eq {row : Row} (distinct : (rows.map key).Nodup) (member : row ∈ rows) :
    lookup key rows (key row) = some row := by
  cases found : lookup key rows (key row) with
  | none => exact absurd (List.find?_eq_none.mp found row member) (by simp)
  | some other =>
    have same : key other = key row := of_decide_eq_true (List.find?_some found :)
    rw [List.inj_on_of_nodup_map distinct (List.mem_of_find?_eq_some found) member same]

theorem lookup_append (row : Row) (id : Nat) :
    lookup key (rows ++ [row]) id = (lookup key rows id).or (if key row = id then some row else none) := by
  simp [lookup, List.find?_append, List.find?_singleton]

theorem lookup_update {edit : Row → Row} (kept : ∀ other, key (edit other) = key other) (target id : Nat) :
    lookup key (rows.map fun other => if key other = target then edit other else other) id =
      (lookup key rows id).map fun other => if key other = target then edit other else other := by
  have through (other : Row) : key (if key other = target then edit other else other) = key other := by
    split
    · exact kept other
    · rfl
  simp only [lookup, List.find?_map, Function.comp_def, through]

/-- The row of a key stays, is inserted, or moves. -/
theorem Step.lookup_cases (distinct : (rows.map key).Nodup) (step : Step key Fresh Moves rows after) (id : Nat) :
    lookup key after id = lookup key rows id ∨
      (lookup key rows id = none ∧ ∃ row, lookup key after id = some row ∧ Fresh row) ∨
      ∃ row later, lookup key rows id = some row ∧ lookup key after id = some later ∧ Moves row later := by
  cases step with
  | same => exact .inl rfl
  | insert row taken fresh =>
    rw [lookup_append]
    by_cases same : key row = id
    · subst same
      -- The key is new, so it had no row.
      have none : lookup key rows (key row) = none := List.find?_eq_none.mpr fun other member same =>
        taken (List.mem_map.mpr ⟨other, member, of_decide_eq_true same⟩)
      rw [none, if_pos rfl]
      exact .inr (.inl ⟨rfl, row, rfl, fresh⟩)
    · rw [if_neg same, Option.or_none]
      exact .inl rfl
  | update row edit member kept moves =>
    rw [lookup_update kept]
    by_cases same : key row = id
    · subst same
      rw [lookup_eq distinct member]
      exact .inr (.inr ⟨row, edit row, rfl, congrArg some (if_pos rfl), moves⟩)
    · cases found : lookup key rows id with
      | none => exact .inl rfl
      | some other =>
        have reached : key other = id := of_decide_eq_true (List.find?_some found :)
        exact .inl (congrArg some (if_neg fun equal => same (equal.symm.trans reached)))

/-- What fresh rows have and moves keep, all rows keep. -/
theorem Step.forall_rows {holds : Row → Prop} (fresh : ∀ row, Fresh row → holds row)
    (moves : ∀ row later, Moves row later → holds row → holds later) (step : Step key Fresh Moves rows after)
    (distinct : (rows.map key).Nodup) (all : ∀ row ∈ rows, holds row) : ∀ row ∈ after, holds row := by
  cases step with
  | same => exact all
  | insert row _ new =>
    intro other member
    rcases List.mem_append.mp member with old | last
    · exact all other old
    · rw [List.mem_singleton.mp last]
      exact fresh row new
  | update row edit member _ moved =>
    intro later present
    obtain ⟨other, known, rfl⟩ := List.mem_map.mp present
    split
    · next same =>
      rw [List.inj_on_of_nodup_map distinct known member same]
      exact moves row _ moved (all row member)
    · exact all other known

/-- Each row is there later, related as moves are. -/
theorem Step.exists_later {related : Row → Row → Prop} (refl : ∀ row, related row row)
    (moves : ∀ row later, Moves row later → related row later) (step : Step key Fresh Moves rows after)
    (distinct : (rows.map key).Nodup) : ∀ row ∈ rows, ∃ later ∈ after, related row later := by
  cases step with
  | same => exact fun row member => ⟨row, member, refl row⟩
  | insert new _ _ => exact fun row member => ⟨row, List.mem_append_left _ member, refl row⟩
  | update row edit member _ moved =>
    intro other known
    refine ⟨_, List.mem_map_of_mem known, ?_⟩
    split
    · next same =>
      rw [List.inj_on_of_nodup_map distinct known member same]
      exact moves row _ moved
    · exact refl other

end Keyed
