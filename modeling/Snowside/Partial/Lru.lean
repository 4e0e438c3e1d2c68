import Mathlib.Tactic.Common

/-! A cache that drops what was used least recently. -/

set_option autoImplicit false

variable {Key Value : Type}

/-- The entries, from the one used last on. -/
structure Lru (Key Value : Type) where
  size : Nat
  entries : List (Key × Value)

namespace Lru

def empty (size : Nat) : Lru Key Value := ⟨size, []⟩

variable [DecidableEq Key] (cache : Lru Key Value) (key : Key)

def get : Option Value × Lru Key Value :=
  match cache.entries.lookup key with
  | none => (none, cache)
  | some value => (some value, ⟨cache.size, (key, value) :: cache.entries.filter fun entry => entry.1 ≠ key⟩)

def put (value : Value) : Lru Key Value :=
  ⟨cache.size, ((key, value) :: cache.entries.filter fun entry => entry.1 ≠ key).take cache.size⟩

variable {cache key}

theorem mem_of_lookup {entries : List (Key × Value)} {value : Value} (found : entries.lookup key = some value) :
    (key, value) ∈ entries := by
  obtain ⟨before, later, rfl, -⟩ := List.lookup_eq_some_iff.mp found
  exact List.mem_append_right before List.mem_cons_self

theorem mem_of_get {value : Value} {after : Lru Key Value} (got : cache.get key = (some value, after)) :
    (key, value) ∈ cache.entries := by
  unfold get at got
  split at got
  · cases got
  · next found =>
    cases got
    exact mem_of_lookup found

/-- A look into the cache brings nothing new. -/
theorem mem_get (key : Key) {entry : Key × Value} (member : entry ∈ (cache.get key).2.entries) : entry ∈ cache.entries := by
  unfold get at member
  split at member
  · exact member
  · next found =>
    rcases List.mem_cons.mp member with here | later
    · rw [here]
      exact mem_of_lookup found
    · exact (List.mem_filter.mp later).1

theorem mem_put {value : Value} {entry : Key × Value} (member : entry ∈ (cache.put key value).entries) :
    entry = (key, value) ∨ entry ∈ cache.entries := by
  rcases List.mem_cons.mp (List.mem_of_mem_take member) with here | later
  · exact .inl here
  · exact .inr (List.mem_filter.mp later).1

end Lru
