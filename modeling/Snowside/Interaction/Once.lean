import Mathlib.Tactic.Common

/-! At most one effect for each item, where an effect and the mark that an item
is done are two separate writes.

One item at a time may be busy, its effect made and its mark not yet set. Items
that are excused may lose their mark and are not counted.
-/

set_option autoImplicit false

namespace Interaction

variable {Item Effect : Type}

/-- `Made effect item`: the effect was made for the item. `Unmarked item`: the
item awaits its mark. -/
structure Once (Excused : Item → Prop) (Made : Effect → Item → Prop) (Unmarked : Item → Prop)
    (busy : Option Item) : Prop where
  unique : ∀ item first second, ¬ Excused item → Made first item → Made second item → first = second
  clear : ∀ item effect, ¬ Excused item → Unmarked item → busy ≠ some item → ¬ Made effect item

namespace Once

variable {Excused : Item → Prop} {Made after : Effect → Item → Prop} {Unmarked later : Item → Prop}
  {busy : Option Item} {item : Item}

theorem empty (nothing : ∀ effect item, ¬ Made effect item) : Once Excused Made Unmarked busy :=
  ⟨fun _ _ _ _ made => absurd made (nothing _ _), fun _ _ _ _ _ => nothing _ _⟩

/-- Nothing was made, and what lost its mark or is new had no effect. -/
theorem frame (once : Once Excused Made Unmarked busy)
    (kept : ∀ effect item, after effect item → Made effect item)
    (marks : ∀ item, later item → Unmarked item ∨ ∀ effect, ¬ after effect item) :
    Once Excused after later busy where
  unique item first second excused left right :=
    once.unique item first second excused (kept _ _ left) (kept _ _ right)
  clear item effect excused waits idle made := by
    obtain waits | nothing := marks item waits
    · exact once.clear item effect excused waits idle (kept _ _ made)
    · exact nothing _ made

/-- An unmarked item may be served when none is busy. -/
theorem make (once : Once Excused Made Unmarked .none) (waits : Unmarked item) (effect : Effect)
    (made : ∀ other served, after other served → Made other served ∨ (other = effect ∧ served = item)) :
    Once Excused after Unmarked (some item) where
  unique other first second excused left right := by
    obtain left | ⟨rfl, rfl⟩ := made _ _ left
    · obtain right | ⟨rfl, rfl⟩ := made _ _ right
      · exact once.unique _ _ _ excused left right
      · exact absurd left (once.clear _ _ excused waits (by simp))
    · obtain right | ⟨rfl, -⟩ := made _ _ right
      · exact absurd right (once.clear _ _ excused waits (by simp))
      · rfl
  clear other effect excused unmarked idle left := by
    obtain left | ⟨rfl, rfl⟩ := made _ _ left
    · exact once.clear _ _ excused unmarked (by simp) left
    · exact idle rfl

/-- What was made for an unmarked item when none was busy is the only effect for it. -/
theorem make_only (once : Once Excused Made Unmarked .none) (waits : Unmarked item) {effect other : Effect}
    (made : after other item → Made other item ∨ other = effect) (excused : ¬ Excused item)
    (left : after other item) : other = effect :=
  (made left).resolve_left (once.clear _ _ excused waits (by simp))

/-- The busy item may be left once it is marked, or excused, or without effect. -/
theorem settle (once : Once Excused Made Unmarked (some item))
    (done : Excused item ∨ ¬ Unmarked item ∨ ∀ effect, ¬ Made effect item) :
    Once Excused Made Unmarked .none where
  unique := once.unique
  clear other effect excused waits idle := by
    by_cases same : other = item
    · subst same
      obtain granted | marked | nothing := done
      · exact absurd granted excused
      · exact absurd waits marked
      · exact nothing effect
    · exact once.clear other effect excused waits (by simpa using Ne.symm same)

end Once

end Interaction
