import Mathlib.Tactic.Common

/-! Computations that may stop with an error, and lists of checks. -/

set_option autoImplicit false

namespace Checked

variable {Error α β : Type}

@[simp] theorem ok_bind (value : α) (rest : α → Except Error β) : (.ok value : Except Error α) >>= rest = rest value := rfl

@[simp] theorem error_bind (error : Error) (rest : α → Except Error β) :
    (.error error : Except Error α) >>= rest = .error error := rfl

@[simp] theorem pure_eq (value : α) : (pure value : Except Error α) = .ok value := rfl

/-- A sequence succeeds if its parts do. -/
theorem bind_eq_ok {first : Except Error α} {rest : α → Except Error β} {result : β} :
    first >>= rest = .ok result ↔ ∃ value, first = .ok value ∧ rest value = .ok result := by
  cases first with
  | error error => simp
  | ok value => simp

/-- A sequence stops where one of its parts does. -/
theorem bind_eq_error {first : Except Error α} {rest : α → Except Error β} {error : Error} :
    first >>= rest = .error error ↔ first = .error error ∨ ∃ value, first = .ok value ∧ rest value = .error error := by
  cases first with
  | error error => simp
  | ok value => simp

/-- The value of an option, or the error that stands for none. -/
def need (error : Error) : Option α → Except Error α
  | none => .error error
  | some value => .ok value

@[simp] theorem need_some (error : Error) (value : α) : need error (some value) = .ok value := rfl

theorem need_eq_ok {error : Error} {option : Option α} {value : α} : need error option = .ok value ↔ option = some value := by
  cases option <;> simp [need]

theorem need_eq_error {error cause : Error} {option : Option α} :
    need error option = .error cause ↔ option = none ∧ error = cause := by
  cases option <;> simp [need]

@[simp] theorem mapError_eq_ok {Other : Type} {result : Except Error α} {wrap : Error → Other} {value : α} :
    result.mapError wrap = .ok value ↔ result = .ok value := by
  cases result <;> simp [Except.mapError]

/-- One check that may fail. -/
def refuse (failed : Prop) [Decidable failed] (error : Error) : Except Error Unit :=
  if failed then .error error else .ok ()

theorem refuse_eq_ok {failed : Prop} [Decidable failed] {error : Error} {done : Unit} :
    refuse failed error = .ok done ↔ ¬ failed := by
  by_cases holds : failed <;> simp [refuse, holds]

theorem refuse_eq_error {failed : Prop} [Decidable failed] {error cause : Error} :
    refuse failed error = .error cause ↔ failed ∧ error = cause := by
  by_cases holds : failed <;> simp [refuse, holds]

theorem refuse_congr {failed other : Prop} [Decidable failed] [Decidable other] (same : failed ↔ other) (error : Error) :
    refuse failed error = refuse other error := by
  unfold refuse
  simp only [same]

/-- The error of the first check that fails. -/
def firstFailure : List (Bool × Error) → Except Error Unit
  | [] => .ok ()
  | (failed, error) :: rest => if failed then .error error else firstFailure rest

theorem firstFailure_eq_ok {checks : List (Bool × Error)} :
    firstFailure checks = .ok () ↔ ∀ check ∈ checks, check.1 = false := by
  induction checks with
  | nil => simp [firstFailure]
  | cons check rest ih =>
    obtain ⟨failed, error⟩ := check
    cases failed <;> simp [firstFailure, ih]

end Checked
