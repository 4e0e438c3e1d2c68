import Mathlib.Data.List.Lex
import Mathlib.Data.List.Sort
import Snowside.Partial.Maps

/-! Stores whose keys are strings in lexicographic order, and scans of the keys with a prefix. -/

set_option autoImplicit false

namespace Stores

open Maps (Map)

variable {Symbol Value : Type} [LinearOrder Symbol]

/-- A map of values by strings. -/
abbrev Store (Symbol Value : Type) : Type := Map (List Symbol) Value

/-! ## Strings in order -/

/-- Strings that begin with as many symbols are ordered by these first. -/
theorem append_lt_append_iff {first second : List Symbol} (length : first.length = second.length) (left right : List Symbol) :
    first ++ left < second ++ right ↔ first < second ∨ first = second ∧ left < right := by
  induction first generalizing second with
  | nil =>
    obtain rfl := List.length_eq_zero_iff.mp length.symm
    simp
  | cons symbol rest ih =>
    cases second with
    | nil => simp at length
    | cons other others =>
      have shorter : rest.length = others.length := Nat.succ.inj length
      simp only [List.cons_append, List.cons_lt_cons_iff, ih shorter, List.cons.injEq]
      tauto

theorem append_le_append_left_iff (first left right : List Symbol) : first ++ left ≤ first ++ right ↔ left ≤ right := by
  rw [← not_lt, ← not_lt, append_lt_append_iff rfl]
  simp

theorem nil_le (string : List Symbol) : [] ≤ string := not_lt.mp (List.not_lt_nil string)

/-- A string is up to a longer one if it is up to its beginning. -/
theorem le_append_iff {first second : List Symbol} (length : first.length = second.length) (rest : List Symbol) :
    first ≤ second ++ rest ↔ first ≤ second := by
  have compared := append_lt_append_iff length.symm rest []
  rw [List.append_nil] at compared
  rw [← not_lt, ← not_lt, compared]
  simp

/-! ## Scans -/

/-- The keys that begin with a prefix, from the one where a string follows it, in their order. -/
def scan (store : Store Symbol Value) (beginning start : List Symbol) : List (List Symbol) :=
  (store.keys.filter fun key => decide (beginning <+: key) && decide (beginning ++ start ≤ key)).insertionSort (· ≤ ·)

variable {store : Store Symbol Value} {beginning start : List Symbol}

theorem mem_scan {key : List Symbol} : key ∈ scan store beginning start ↔ key ∈ store ∧ beginning <+: key ∧ beginning ++ start ≤ key := by
  rw [scan, List.mem_insertionSort, List.mem_filter, Bool.and_eq_true, decide_eq_true_iff, decide_eq_true_iff, AList.mem_keys]

theorem scan_increasing : (scan store beginning start).Pairwise (· < ·) := by
  have sorted : (scan store beginning start).Pairwise (· ≤ ·) := List.pairwise_insertionSort _ _
  have distinct : (scan store beginning start).Nodup :=
    (List.perm_insertionSort _ _).nodup_iff.mpr (store.keys_nodup.filter _)
  exact (sorted.and distinct).imp fun ⟨up_to, differs⟩ => lt_of_le_of_ne up_to differs

/-! ## Deletions -/

def deleteAll (keys : List (List Symbol)) (store : Store Symbol Value) : Store Symbol Value :=
  keys.foldl (fun store key => store.erase key) store

theorem lookup_deleteAll (keys : List (List Symbol)) (store : Store Symbol Value) (key : List Symbol) :
    (deleteAll keys store).lookup key = if key ∈ keys then none else store.lookup key := by
  induction keys generalizing store with
  | nil => simp [deleteAll]
  | cons deleted rest ih =>
    have onwards : deleteAll (deleted :: rest) store = deleteAll rest (store.erase deleted) := rfl
    rw [onwards, ih]
    rcases eq_or_ne key deleted with rfl | differs
    · simp
    · simp [differs, AList.lookup_erase_ne differs]

end Stores
