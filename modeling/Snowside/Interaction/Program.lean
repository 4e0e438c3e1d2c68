import Mathlib.Data.List.Basic

/-! Programs that wait on external calls.

A program is the tree of its calls: at each call it stops until a reply comes
back, and the reply selects the rest. Nothing is said here about who answers.
-/

set_option autoImplicit false

namespace Interaction

/-- A program over the calls `Call`, each with its own type of replies. -/
inductive Program {Call : Type} (Reply : Call → Type) (α : Type) where
  | done : α → Program Reply α
  | ask : (call : Call) → (Reply call → Program Reply α) → Program Reply α

namespace Program

variable {Call : Type} {Reply : Call → Type} {α β γ : Type}

def bind : Program Reply α → (α → Program Reply β) → Program Reply β
  | .done value, rest => rest value
  | .ask call next, rest => .ask call fun reply => (next reply).bind rest

instance : Monad (Program Reply) where
  pure := .done
  bind := bind

/-- One call, its reply handed on. -/
def call (request : Call) : Program Reply (Reply request) := .ask request .done

@[simp] theorem pure_eq (value : α) : (pure value : Program Reply α) = .done value := rfl

@[simp] theorem done_bind (value : α) (rest : α → Program Reply β) :
    (.done value : Program Reply α) >>= rest = rest value := rfl

@[simp] theorem ask_bind (request : Call) (next : Reply request → Program Reply α)
    (rest : α → Program Reply β) :
    .ask request next >>= rest = .ask request fun reply => next reply >>= rest := rfl

@[simp] theorem call_bind (request : Call) (rest : Reply request → Program Reply β) :
    call request >>= rest = .ask request rest := rfl

theorem bind_bind (program : Program Reply α) (first : α → Program Reply β) (second : β → Program Reply γ) :
    (program >>= first) >>= second = program >>= fun value => first value >>= second := by
  induction program with
  | done value => rfl
  | ask request next ih =>
    rw [ask_bind, ask_bind, ask_bind]
    exact congrArg (Program.ask request) (funext ih)

/-- The call the program waits on, if it has not finished. -/
def head : Program Reply α → Option Call
  | .done _ => none
  | .ask request _ => some request

/-- The calls of a program whose calls, counted from a number on, are answered so. -/
def calls (answers : Nat → ∀ request, Reply request) : Program Reply α → Nat → List Call
  | .done _, _ => []
  | .ask request next, count => request :: (next (answers count request)).calls answers (count + 1)

@[simp] theorem calls_done (answers : Nat → ∀ request, Reply request) (value : α) (count : Nat) :
    (.done value : Program Reply α).calls answers count = [] := rfl

@[simp] theorem calls_ask (answers : Nat → ∀ request, Reply request) (request : Call) (next : Reply request → Program Reply α)
    (count : Nat) : (Program.ask request next).calls answers count =
      request :: (next (answers count request)).calls answers (count + 1) := rfl

/-- Run the body on every item in turn. -/
def forEach (body : β → Program Reply Unit) : List β → Program Reply Unit
  | [] => .done ()
  | item :: rest => do
    body item
    forEach body rest

end Program

end Interaction
