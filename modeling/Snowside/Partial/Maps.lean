import Mathlib.Data.List.AList

/-! Finite maps that are compared entry by entry. -/

set_option autoImplicit false

namespace Maps

variable {Key Value : Type} [DecidableEq Key]

/-- A map of values of one type. -/
abbrev Map (Key Value : Type) : Type := AList fun _ : Key => Value

/-- As many entries, and each with an equal one at its key. -/
def agree (same : Value → Value → Bool) (first second : Map Key Value) : Bool :=
  first.entries.length = second.entries.length &&
    first.entries.all fun entry => (second.lookup entry.1).elim false (same entry.2)

theorem agree_refl {same : Value → Value → Bool} (refl : ∀ value, same value value) (map : Map Key Value) :
    agree same map map := by
  simp only [agree, decide_true, Bool.true_and, List.all_eq_true]
  intro entry member
  have found : map.lookup entry.1 = some entry.2 := AList.mem_lookup_iff.mpr member
  rw [found]
  exact refl entry.2

/-- Maps that agree find related values at every key, or none at both. -/
theorem lookup_of_agree {same : Value → Value → Bool} {first second : Map Key Value} (agreed : agree same first second)
    (key : Key) : Option.Rel (fun one other => same one other) (first.lookup key) (second.lookup key) := by
  simp only [agree, Bool.and_eq_true, decide_eq_true_eq, List.all_eq_true] at agreed
  obtain ⟨long, each⟩ := agreed
  have covers : first.keys ⊆ second.keys := by
    intro key member
    obtain ⟨entry, inside, rfl⟩ := List.mem_map.mp member
    have found := each entry inside
    cases there : second.lookup entry.1 with
    | none =>
      rw [there] at found
      cases found
    | some value => exact List.mem_map.mpr ⟨⟨entry.1, value⟩, AList.mem_lookup_iff.mp there, rfl⟩
  -- As many keys without repetition: none is left over in the second map.
  have same_keys : first.keys.Perm second.keys :=
    (List.subperm_of_subset first.nodupKeys covers).perm_of_length_le (by simp [AList.keys, List.keys, long])
  cases here : first.lookup key with
  | none =>
    have absent : key ∉ second := fun member =>
      AList.lookup_eq_none.mp here (AList.mem_keys.mpr (same_keys.mem_iff.mpr (AList.mem_keys.mp member)))
    rw [AList.lookup_eq_none.mpr absent]
    exact .none
  | some value =>
    have found := each ⟨key, value⟩ (AList.mem_lookup_iff.mp here)
    cases there : second.lookup key with
    | none =>
      rw [there] at found
      cases found
    | some other =>
      rw [there] at found
      exact .some found

/-- Maps that agree on equal values have the same entries. -/
theorem perm_of_agree {same : Value → Value → Bool} (only : ∀ one other, same one other → one = other)
    {first second : Map Key Value} (agreed : agree same first second) : first.entries.Perm second.entries := by
  have covers : first.entries ⊆ second.entries := by
    intro entry member
    have found : first.lookup entry.1 = some entry.2 := AList.mem_lookup_iff.mpr member
    have related := lookup_of_agree agreed entry.1
    rw [found] at related
    cases there : second.lookup entry.1 with
    | none =>
      rw [there] at related
      cases related
    | some value =>
      rw [there] at related
      cases related with
      | some holds =>
        have equal := only _ _ holds
        subst equal
        exact AList.mem_lookup_iff.mp there
  simp only [agree, Bool.and_eq_true, decide_eq_true_eq] at agreed
  exact (List.subperm_of_subset first.nodupKeys.nodup covers).perm_of_length_le (Nat.le_of_eq agreed.1.symm)

theorem perm_of_lookup {first second : Map Key Value} (same : ∀ key, first.lookup key = second.lookup key) :
    first.entries.Perm second.entries :=
  List.lookup_ext first.nodupKeys second.nodupKeys fun key value => by
    have found : first.entries.dlookup key = second.entries.dlookup key := same key
    rw [found]

/-- Where values are compared by equality, so are maps. -/
theorem agree_iff {same : Value → Value → Bool} (equality : ∀ one other, same one other ↔ one = other) {first second : Map Key Value} :
    agree same first second ↔ ∀ key, first.lookup key = second.lookup key := by
  constructor
  · intro agreed key
    have related := lookup_of_agree agreed key
    generalize first.lookup key = one at related
    generalize second.lookup key = other at related
    cases related with
    | none => rfl
    | some holds => rw [(equality _ _).mp holds]
  · intro found
    simp only [agree, Bool.and_eq_true, decide_eq_true_eq, List.all_eq_true]
    refine ⟨(perm_of_lookup found).length_eq, fun entry member => ?_⟩
    have here : first.lookup entry.1 = some entry.2 := AList.mem_lookup_iff.mpr member
    rw [← found, here]
    exact (equality _ _).mpr rfl

end Maps
