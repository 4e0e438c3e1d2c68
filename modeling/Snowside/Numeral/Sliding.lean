import Mathlib.Algebra.BigOperators.Group.List.Lemmas
import Mathlib.Algebra.Order.BigOperators.Group.List
import Mathlib.Algebra.Order.Group.Nat
import Mathlib.Algebra.Ring.Nat

/-! Sums over a sliding window: amounts dated by whole seconds, sorted by age. -/

set_option autoImplicit false

namespace Sliding

variable {Event : Type} (time amount : Event → Nat)

/-- The amounts whose age is exactly so much. -/
def aged (events : List Event) (now age : Nat) : Nat :=
  ((events.filter fun event => time event + age = now).map amount).sum

/-- The amounts whose age is below the length of the window. -/
def recent (events : List Event) (now length : Nat) : Nat :=
  ((events.filter fun event => now < time event + length).map amount).sum

variable {time amount}

@[simp] theorem aged_nil (now age : Nat) : aged time amount [] now age = 0 := rfl

theorem aged_cons (event : Event) (events : List Event) (now age : Nat) :
    aged time amount (event :: events) now age =
      (if time event + age = now then amount event else 0) + aged time amount events now age := by
  unfold aged
  by_cases same : time event + age = now <;> simp [same]

/-- Waiting makes every amount older by the same. -/
theorem aged_later {events : List Event} {now later : Nat} (past : ∀ event ∈ events, time event ≤ now)
    (forward : now ≤ later) (age : Nat) :
    aged time amount events later (age + (later - now)) = aged time amount events now age := by
  unfold aged
  congr 2
  refine List.filter_congr fun event member => ?_
  have := past event member
  simp only [decide_eq_decide]
  omega

/-- Nothing is younger than the time that has passed. -/
theorem aged_young {events : List Event} {now later age : Nat} (past : ∀ event ∈ events, time event ≤ now)
    (young : age < later - now) : aged time amount events later age = 0 := by
  unfold aged
  rw [List.filter_eq_nil_iff.mpr fun event member => ?_]
  · rfl
  · have := past event member
    simp only [decide_eq_true_eq]
    omega

/-- The window is the sum of its ages. -/
theorem recent_eq {events : List Event} {now : Nat} (past : ∀ event ∈ events, time event ≤ now) (length : Nat) :
    recent time amount events now length = ((List.range length).map (aged time amount events now)).sum := by
  induction length with
  | zero =>
    unfold recent
    rw [List.filter_eq_nil_iff.mpr fun event member => ?_]
    · rfl
    · have := past event member
      simp only [decide_eq_true_eq]
      omega
  | succ length ih =>
    -- A longer window adds its last age; for that the induction is on the events.
    rw [List.range_succ, List.map_append, List.sum_append, ← ih, List.map_singleton, List.sum_singleton]
    clear ih
    unfold recent aged
    induction events with
    | nil => rfl
    | cons event events ih =>
      have rest := ih fun other member => past other (List.mem_cons_of_mem _ member)
      have here := past event List.mem_cons_self
      by_cases within : now < time event + length
      · simp [within, show now < time event + (length + 1) by omega, show time event + length ≠ now by omega, rest]
        omega
      · by_cases last : time event + length = now
        · simp [last, show now < time event + (length + 1) by omega, rest]
          omega
        · simp [within, last, show ¬ now < time event + (length + 1) by omega, rest]

/-! ## Capped sums -/

/-- Adding to a capped sum loses nothing that the cap does not. -/
theorem min_add_min (cap first second : Nat) : min cap (min cap first + second) = min cap (first + second) := by
  omega

theorem min_sum_min (cap : Nat) (values : List Nat) :
    min cap ((values.map (min cap)).sum) = min cap values.sum := by
  induction values with
  | nil => rfl
  | cons value values ih =>
    rw [List.map_cons, List.sum_cons, List.sum_cons]
    omega

end Sliding
