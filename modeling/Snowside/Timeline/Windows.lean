import Mathlib.Data.List.Chain
import Mathlib.Tactic.Common

/-! Items that become due in time, and the windows of time in which they are collected. -/

set_option autoImplicit false

namespace Timeline

variable {Time Item : Type} [LE Time] [DecidableLE Time]

/-- The time has come. Without a time it never does. -/
def reached (now : Time) : Option Time → Bool
  | none => false
  | some time => time ≤ now

/-- A time after the last look, or any where there was none, and not after the next. -/
def due (last : Option Time) (now : Time) (time : Option Time) : Bool :=
  !last.elim false (reached · time) && reached now time

@[simp] theorem reached_none (now : Time) : reached now none = false := rfl

@[simp] theorem reached_some (now time : Time) : reached now (some time) = decide (time ≤ now) := rfl

@[simp] theorem due_none (now : Time) (time : Option Time) : due none now time = reached now time := rfl

@[simp] theorem due_some (last now : Time) (time : Option Time) :
    due (some last) now time = (!reached last time && reached now time) := rfl

/-- Of two items with times the first comes no later. -/
def InOrder (time : Item → Option Time) (items : List Item) : Prop :=
  items.Pairwise fun earlier later => ∀ first ∈ time earlier, ∀ second ∈ time later, first ≤ second

/-- The windows between successive looks. -/
def windows : Option Time → List Time → List (Option Time × Time)
  | _, [] => []
  | last, now :: later => (last, now) :: windows (some now) later

/-- The last time is none, or it is no later. -/
def NoLater (last : Option Time) (now : Time) : Prop := ∀ time ∈ last, time ≤ now

section

variable [Std.IsLinearPreorder Time]

theorem reached_mono {now later : Time} (forward : now ≤ later) {time : Option Time} (holds : reached now time) :
    reached later time := by
  cases time with
  | none => exact holds
  | some time => exact decide_eq_true (Std.le_trans (of_decide_eq_true holds) forward)

theorem due_of_due_later {last : Option Time} {mid now : Time} (forward : NoLater last mid) {time : Option Time}
    (holds : due (some mid) now time) : due last now time := by
  simp only [due_some, Bool.and_eq_true, Bool.not_eq_true'] at holds
  cases last with
  | none => exact holds.2
  | some last =>
    have early : reached last time = false := by
      refine Bool.eq_false_iff.mpr fun come => ?_
      have := reached_mono (forward last rfl) come
      simp only [holds.1, Bool.false_eq_true] at this
    simp only [due_some, early, holds.2, Bool.not_false, Bool.and_self]

theorem due_of_due_earlier {last : Option Time} {mid now : Time} (forward : mid ≤ now) {time : Option Time}
    (holds : due last mid time) : due last now time := by
  simp only [due, Bool.and_eq_true] at holds ⊢
  exact ⟨holds.1, reached_mono forward holds.2⟩

omit [Std.IsLinearPreorder Time] in
/-- What is due is due before the middle or after it. -/
theorem due_split {last : Option Time} {mid now : Time} {time : Option Time} (holds : due last now time) :
    due last mid time ∨ due (some mid) now time := by
  simp only [due_some]
  simp only [due, Bool.and_eq_true] at holds ⊢
  cases reached mid time with
  | false => exact .inr ⟨rfl, holds.2⟩
  | true => exact .inl ⟨holds.1, rfl⟩

/-- What comes no earlier than an item of the later window is not due in the one before. -/
theorem not_due_behind {last : Option Time} {mid now : Time} {earlier later : Option Time}
    (ordered : ∀ first ∈ earlier, ∀ second ∈ later, first ≤ second) (late : due (some mid) now earlier) :
    ¬ due last mid later := by
  intro holds
  simp only [due_some, Bool.and_eq_true, Bool.not_eq_true'] at late
  simp only [due, Bool.and_eq_true] at holds
  cases earlier with
  | none => cases late.2
  | some first =>
    cases later with
    | none => cases holds.2
    | some second =>
      have := Std.le_trans (ordered first rfl second rfl) (of_decide_eq_true holds.2)
      exact of_decide_eq_false late.1 this

/-- Two windows that meet collect what the whole window does, in the same order. -/
theorem filter_due_append {time : Item → Option Time} {items : List Item} (ordered : InOrder time items)
    {last : Option Time} {mid now : Time} (forward : NoLater last mid) (onward : mid ≤ now) :
    items.filter (fun item => due last mid (time item)) ++ items.filter (fun item => due (some mid) now (time item)) =
      items.filter fun item => due last now (time item) := by
  induction items with
  | nil => rfl
  | cons item rest ih =>
    obtain ⟨first, ordered⟩ := List.pairwise_cons.mp ordered
    have ih := ih ordered
    by_cases early : due last mid (time item)
    · have late : due (some mid) now (time item) = false := by
        simp only [due, Bool.and_eq_true] at early
        simp only [due_some, early.2, Bool.not_true, Bool.false_and]
      simp only [List.filter_cons, early, late, due_of_due_earlier onward early, if_true, List.cons_append, ih,
        Bool.false_eq_true, if_false]
    by_cases late : due (some mid) now (time item)
    · have none : rest.filter (fun item => due last mid (time item)) = [] :=
        List.filter_eq_nil_iff.mpr fun other member => not_due_behind (first other member) late
      simp only [List.filter_cons, early, late, due_of_due_later forward late, if_true, none, List.nil_append,
        Bool.false_eq_true, if_false]
      rw [none, List.nil_append] at ih
      rw [ih]
    · have never : due last now (time item) = false :=
        Bool.eq_false_iff.mpr fun holds => (due_split holds).elim early late
      simp only [List.filter_cons, early, late, never, Bool.false_eq_true, if_false, ih]

/-- Of items that all have a time, those that have come by now are the first ones. -/
theorem filter_reached_first {time : Item → Option Time} {items : List Item} (ordered : InOrder time items)
    (timed : ∀ item ∈ items, (time item).isSome) (now : Time) :
    items.filter (fun item => reached now (time item)) <+: items := by
  induction items with
  | nil => exact List.prefix_rfl
  | cons item rest ih =>
    obtain ⟨first, ordered⟩ := List.pairwise_cons.mp ordered
    have ih := ih ordered fun other member => timed other (List.mem_cons_of_mem _ member)
    by_cases come : reached now (time item)
    · rw [List.filter_cons, if_pos come]
      exact (List.prefix_cons_inj item).mpr ih
    · have none : rest.filter (fun item => reached now (time item)) = [] := by
        refine List.filter_eq_nil_iff.mpr fun other member holds => come ?_
        obtain ⟨start, here⟩ := Option.isSome_iff_exists.mp (timed item (List.mem_cons_self ..))
        obtain ⟨second, there⟩ := Option.isSome_iff_exists.mp (timed other (List.mem_cons_of_mem _ member))
        rw [there] at holds
        rw [here]
        exact decide_eq_true (Std.le_trans (first other member start here second there) (of_decide_eq_true holds))
      rw [List.filter_cons, if_neg come, none]
      exact List.nil_prefix

/-- Successive windows collect, one after another, what one window from the start does. -/
theorem flatMap_windows {time : Item → Option Time} {items : List Item} (ordered : InOrder time items)
    {last : Option Time} {now : Time} {later : List Time} (forward : NoLater last now)
    (onward : (now :: later).IsChain (· ≤ ·)) :
    (windows last (now :: later)).flatMap (fun window => items.filter fun item => due window.1 window.2 (time item)) =
      items.filter fun item => due last ((now :: later).getLast (List.cons_ne_nil _ _)) (time item) := by
  have whole (later : List Time) : ∀ now, NoLater last now → (now :: later).IsChain (· ≤ ·) →
      items.filter (fun item => due last now (time item)) ++
        (windows (some now) later).flatMap (fun window => items.filter fun item => due window.1 window.2 (time item)) =
      items.filter fun item => due last ((now :: later).getLast (List.cons_ne_nil _ _)) (time item) := by
    induction later with
    | nil => intro now _ _; simp [windows]
    | cons next later ih =>
      intro now forward onward
      obtain ⟨step, onward⟩ := List.isChain_cons_cons.mp onward
      simp only [windows, List.flatMap_cons]
      rw [← List.append_assoc, filter_due_append ordered forward step,
        ih next (fun time member => Std.le_trans (forward time member) step) onward]
      simp only [List.getLast_cons_cons]
  exact whole later now forward onward

end

end Timeline
