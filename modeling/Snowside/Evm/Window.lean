import Snowside.Numeral.BigEndian
import Snowside.Numeral.Sliding

/-! The dynamic fee window: the gas used in each of the last ten seconds. -/

set_option autoImplicit false

namespace Snowside.Evm

open Numeral

abbrev Bytes := List UInt8

/-- The seconds of gas consumption to track. -/
abbrev windowLen : Nat := 10

def longLen : Nat := 8

/-- The bytes of an encoded window. -/
def windowSize : Nat := longLen * windowLen

def maxUint64 : Nat := 2 ^ 64 - 1

/-- Index 0 is the oldest entry, the last one is the current entry. -/
abbrev Window := Vector UInt64 windowLen

/-- `binary.BigEndian.Uint64`. -/
def readUint64 (bytes : Bytes) : UInt64 := .ofNat (value 256 ((bytes.take longLen).map UInt8.toNat))

/-- `binary.BigEndian.PutUint64`. -/
def putUint64 (number : UInt64) : Bytes := (spellFixed 256 longLen number.toNat).map UInt8.ofNat

/-- `SafeAdd`: the sum, and whether it overflows. -/
def safeAdd (x y : UInt64) : UInt64 × Bool := (x + y, decide (maxUint64 < x.toNat + y.toNat))

def add (sum : UInt64) : List UInt64 → UInt64
  | [] => sum
  | value :: rest => if (safeAdd sum value).2 then .ofNat maxUint64 else add (safeAdd sum value).1 rest

inductive WindowError where
  | insufficientLength (expected found : Nat)
  deriving DecidableEq, Repr

def parseWindow (bytes : Bytes) : Except WindowError Window :=
  if bytes.length < windowSize then .error (.insufficientLength windowSize bytes.length)
  else .ok (Vector.ofFn fun index => readUint64 (bytes.drop (index * longLen)))

namespace Window

def empty : Window := Vector.replicate windowLen 0

/-- Adds the amounts to the most recent entry. -/
def add (window : Window) (amounts : List UInt64) : Window :=
  window.set (windowLen - 1) (Evm.add window[windowLen - 1] amounts)

/-- Removes the oldest entries and adds as many new empty ones. -/
def shift (window : Window) (n : UInt64) : Window :=
  if windowLen ≤ n.toNat then empty
  else Vector.ofFn fun index => window.toList.getD (n.toNat + index) 0

def sum (window : Window) : UInt64 := Evm.add 0 window.toList

def bytes (window : Window) : Bytes := window.toList.flatMap putUint64

end Window

/-! ## Sums -/

theorem maxUint64_toNat : (UInt64.ofNat maxUint64).toNat = maxUint64 := rfl

theorem toNat_le_max (number : UInt64) : number.toNat ≤ maxUint64 := Nat.le_pred_of_lt number.toNat_lt

/-- `add` is exact up to the largest number. -/
theorem add_toNat (sum : UInt64) (values : List UInt64) :
    (add sum values).toNat = min maxUint64 (sum.toNat + (values.map UInt64.toNat).sum) := by
  induction values generalizing sum with
  | nil =>
    have := toNat_le_max sum
    simp only [add, List.map_nil, List.sum_nil]
    omega
  | cons value rest ih =>
    unfold add safeAdd
    rw [List.map_cons, List.sum_cons]
    split
    · -- The sum stays at the largest number once it is reached.
      next overflow =>
      have := of_decide_eq_true overflow
      rw [maxUint64_toNat]
      omega
    · next fits =>
      have small : ¬ maxUint64 < sum.toNat + value.toNat := fun large => fits (decide_eq_true large)
      have exact_sum : (sum + value).toNat = sum.toNat + value.toNat := by
        rw [UInt64.toNat_add, Nat.mod_eq_of_lt]
        unfold maxUint64 at small
        omega
      rw [ih, exact_sum]
      omega

namespace Window

/-- The sum is that of the entries, capped once. -/
theorem sum_toNat (window : Window) :
    window.sum.toNat = min maxUint64 (window.toList.map UInt64.toNat).sum := by
  rw [sum, add_toNat]
  simp

end Window

/-! ## Encoding -/

theorem length_putUint64 (number : UInt64) : (putUint64 number).length = longLen := by
  simp [putUint64]

theorem readUint64_putUint64 (number : UInt64) (rest : Bytes) : readUint64 (putUint64 number ++ rest) = number := by
  have digits : ((spellFixed 256 longLen number.toNat).map UInt8.ofNat).map UInt8.toNat =
      spellFixed 256 longLen number.toNat := map_toNat_ofNat (spellFixed_lt (by decide) longLen number.toNat)
  have exact_value : number.toNat % 256 ^ longLen = number.toNat := Nat.mod_eq_of_lt number.toNat_lt
  unfold readUint64
  rw [List.take_left' (length_putUint64 number), putUint64, digits, value_spellFixed, exact_value, UInt64.ofNat_toNat]

theorem readUint64_drop {numbers : List UInt64} {index : Nat} (small : index < numbers.length) (rest : Bytes) :
    readUint64 ((numbers.flatMap putUint64 ++ rest).drop (index * longLen)) = numbers[index] := by
  induction numbers generalizing index with
  | nil => cases small
  | cons number numbers ih =>
    rw [List.flatMap_cons, List.append_assoc]
    cases index with
    | zero => rw [Nat.zero_mul, List.drop_zero, readUint64_putUint64]; rfl
    | succ index =>
      rw [Nat.succ_mul, Nat.add_comm, ← List.drop_drop, List.drop_left' (length_putUint64 number)]
      exact ih (Nat.lt_of_succ_lt_succ small)

theorem length_flatMap_putUint64 (numbers : List UInt64) :
    (numbers.flatMap putUint64).length = numbers.length * longLen := by
  induction numbers with
  | nil => rfl
  | cons number numbers ih =>
    rw [List.flatMap_cons, List.length_append, length_putUint64, ih, List.length_cons, Nat.succ_mul, Nat.add_comm]

@[simp] theorem Window.length_bytes (window : Window) : window.bytes.length = windowSize := by
  rw [bytes, length_flatMap_putUint64, Vector.length_toList, windowSize, Nat.mul_comm]

/-- A parser of longer extra data reads back the window in front of it. -/
@[simp] theorem parseWindow_bytes (window : Window) (rest : Bytes) :
    parseWindow (window.bytes ++ rest) = .ok window := by
  have long : ¬ (window.bytes ++ rest).length < windowSize := by
    rw [List.length_append, Window.length_bytes]
    omega
  rw [parseWindow, if_neg long]
  congr 1
  ext index small
  simp only [Vector.getElem_ofFn, Window.bytes]
  rw [readUint64_drop (by simpa using small)]
  simp

end Snowside.Evm
