import Mathlib.Algebra.Order.Floor.Div
import Snowside.Numeral.Bits

/-! `convertBits` of the federation wallet: values of one width in bits are read, and
groups of another width leave.
-/

set_option autoImplicit false

namespace Snowside

open Numeral

/-- The inner loop of `convertBits`: full groups leave the accumulator. -/
def emitGroups (toBits acc : Nat) (bits : Nat) (ret : List Nat) : Nat × List Nat :=
  if _full : 0 < toBits ∧ toBits ≤ bits then
    emitGroups toBits acc (bits - toBits) (ret ++ [(acc >>> (bits - toBits)) &&& ((1 <<< toBits) - 1)])
  else (bits, ret)
termination_by bits
decreasing_by omega

/-- The outer loop, one value at a time. -/
def regroup (fromBits toBits : Nat) : List Nat → Nat × Nat × List Nat → Nat × Nat × List Nat
  | [], state => state
  | value :: data, (acc, bits, ret) =>
      let acc := ((acc <<< fromBits) ||| value) &&& ((1 <<< (fromBits + toBits - 1)) - 1)
      let emitted := emitGroups toBits acc (bits + fromBits) ret
      regroup fromBits toBits data (acc, emitted)

def convertBits (data : List Nat) (fromBits toBits : Nat) (pad : Bool) : List Nat :=
  let (acc, bits, ret) := regroup fromBits toBits data (0, 0, [])
  if pad && bits != 0 then ret ++ [(acc <<< (toBits - bits)) &&& ((1 <<< toBits) - 1)] else ret

section

variable {fromBits toBits : Nat} {data : List Nat}

/-! ## The loops -/

/-- The inner loop leaves less than a group. The accumulator need only have the bits that wait. -/
theorem emitGroups_groups {total kept acc bits : Nat} {ret : List Nat} (positive : 0 < toBits) (same : acc = total % 2 ^ kept)
    (enough : bits ≤ kept) (cut : Groups toBits total bits ret) :
    (emitGroups toBits acc bits ret).1 = bits % toBits ∧
      (emitGroups toBits acc bits ret).2.length = ret.length + bits / toBits ∧
      Groups toBits total (bits % toBits) (emitGroups toBits acc bits ret).2 := by
  fun_induction emitGroups toBits acc bits ret with
  | case1 bits ret full ih =>
    obtain ⟨-, full⟩ := full
    have group : (acc >>> (bits - toBits)) &&& ((1 <<< toBits) - 1) = total / 2 ^ (bits - toBits) % 2 ^ toBits := by
      rw [Nat.one_shiftLeft, Nat.and_two_pow_sub_one_eq_mod, Nat.shiftRight_eq_div_pow, same]
      exact group_of_masked (by omega)
    rw [← Nat.sub_add_cancel full] at cut
    obtain ⟨left, length, result⟩ := ih (by omega) (group ▸ cut.concat)
    rw [← Nat.mod_eq_sub_mod full] at left result
    refine ⟨left, ?_, result⟩
    rw [length, List.length_append, List.length_singleton, Nat.div_eq_sub_div positive full]
    ring
  | case2 bits ret full =>
    have short : bits < toBits := by omega
    rw [Nat.mod_eq_of_lt short, Nat.div_eq_of_lt short]
    exact ⟨rfl, rfl, cut⟩

/-- The loop invariant: the accumulator is the last bits read, as many as its mask
keeps, and fewer than a group of them wait. -/
structure Regrouping (fromBits toBits : Nat) (data : List Nat) (state : Nat × Nat × List Nat) : Prop where
  acc : state.1 = value (2 ^ fromBits) data % 2 ^ (fromBits + toBits - 1)
  bits : state.2.1 = fromBits * data.length % toBits
  length : state.2.2.length = fromBits * data.length / toBits
  groups : Groups toBits (value (2 ^ fromBits) data) (fromBits * data.length % toBits) state.2.2

theorem Regrouping.step {state : Nat × Nat × List Nat} (invariant : Regrouping fromBits toBits data state) (positive : 0 < toBits)
    {digit : Nat} (small : digit < 2 ^ fromBits) :
    Regrouping fromBits toBits (data ++ [digit])
      (((state.1 <<< fromBits) ||| digit) &&& ((1 <<< (fromBits + toBits - 1)) - 1),
        emitGroups toBits (((state.1 <<< fromBits) ||| digit) &&& ((1 <<< (fromBits + toBits - 1)) - 1))
          (state.2.1 + fromBits) state.2.2) := by
  obtain ⟨acc, bits, ret⟩ := state
  obtain ⟨sameAcc, sameBits, length, groups⟩ := invariant
  simp only at *
  have total : value (2 ^ fromBits) (data ++ [digit]) = value (2 ^ fromBits) data * 2 ^ fromBits + digit := by
    rw [value_append, value_singleton, List.length_singleton, pow_one]
  have more : fromBits * (data ++ [digit]).length = fromBits * data.length + fromBits := by
    rw [List.length_append, List.length_singleton, Nat.mul_succ]
  have masked : ((acc <<< fromBits) ||| digit) &&& ((1 <<< (fromBits + toBits - 1)) - 1) =
      value (2 ^ fromBits) (data ++ [digit]) % 2 ^ (fromBits + toBits - 1) := by
    rw [Nat.one_shiftLeft, Nat.and_two_pow_sub_one_eq_mod, ← Nat.shiftLeft_add_eq_or_of_lt small, Nat.shiftLeft_eq, sameAcc,
      total]
    exact ((Nat.mod_modEq _ _).mul_right _).add_right _
  have waiting := Nat.mod_lt (fromBits * data.length) positive
  have before := total ▸ sameBits ▸ groups.extend small
  obtain ⟨left, count, after⟩ := emitGroups_groups positive masked (by omega) before
  have rest : (bits + fromBits) % toBits = fromBits * (data ++ [digit]).length % toBits := by
    rw [sameBits, Nat.mod_add_mod, more]
  refine ⟨masked, left.trans rest, ?_, rest ▸ after⟩
  rw [count, length, more, sameBits]
  conv_rhs => rw [← Nat.div_add_mod (fromBits * data.length) toBits, Nat.add_assoc, Nat.mul_add_div positive]

theorem regroup_regrouping (positive : 0 < toBits) (small : ∀ digit ∈ data, digit < 2 ^ fromBits) :
    Regrouping fromBits toBits data (regroup fromBits toBits data (0, 0, [])) := by
  suffices extend : ∀ (rest done : List Nat) state, (∀ digit ∈ rest, digit < 2 ^ fromBits) →
      Regrouping fromBits toBits done state → Regrouping fromBits toBits (done ++ rest) (regroup fromBits toBits rest state) from
    extend data [] _ small ⟨by simp [value], by simp, by simp, by simpa [value] using groups_nil toBits⟩
  intro rest
  induction rest with
  | nil =>
    intro done state _ invariant
    rwa [List.append_nil]
  | cons digit rest ih =>
    intro done state small invariant
    have next := ih (done ++ [digit]) _ (fun other member => small other (List.mem_cons_of_mem digit member))
      (invariant.step positive (small digit List.mem_cons_self))
    rwa [List.append_assoc, List.singleton_append] at next

/-- The accumulator before it is masked. For bytes it has twenty bits, and the shifts of the source keep thirty-two. -/
theorem Regrouping.shifted_lt {state : Nat × Nat × List Nat} (invariant : Regrouping fromBits toBits data state) {digit : Nat}
    (small : digit < 2 ^ fromBits) : (state.1 <<< fromBits) ||| digit < 2 ^ (fromBits + toBits - 1 + fromBits) := by
  have masked : state.1 < 2 ^ (fromBits + toBits - 1) := invariant.acc ▸ Nat.mod_lt _ (by positivity)
  rw [← Nat.shiftLeft_add_eq_or_of_lt small, Nat.shiftLeft_eq, pow_add]
  calc state.1 * 2 ^ fromBits + digit < (state.1 + 1) * 2 ^ fromBits := by
        rw [Nat.succ_mul]
        omega
    _ ≤ 2 ^ (fromBits + toBits - 1) * 2 ^ fromBits := Nat.mul_le_mul_right _ masked

/-! ## What is returned -/

/-- Without padding the bits that wait are dropped. -/
theorem convertBits_truncated (positive : 0 < toBits) (small : ∀ digit ∈ data, digit < 2 ^ fromBits) :
    (convertBits data fromBits toBits false).length = fromBits * data.length / toBits ∧
      Groups toBits (value (2 ^ fromBits) data) (fromBits * data.length % toBits) (convertBits data fromBits toBits false) :=
  ⟨(regroup_regrouping positive small).length, (regroup_regrouping positive small).groups⟩

/-- The zeros behind the last group. -/
def padding (fromBits toBits count : Nat) : Nat := (toBits - fromBits * count % toBits) % toBits

/-- With padding all bits leave, and the zeros behind them. -/
theorem convertBits_padded (positive : 0 < toBits) (small : ∀ digit ∈ data, digit < 2 ^ fromBits) :
    toBits * (convertBits data fromBits toBits true).length = fromBits * data.length + padding fromBits toBits data.length ∧
      Groups toBits (value (2 ^ fromBits) data * 2 ^ padding fromBits toBits data.length) 0
        (convertBits data fromBits toBits true) := by
  have invariant := regroup_regrouping positive small
  have below := Nat.mod_lt (fromBits * data.length) positive
  have parts := Nat.div_add_mod (fromBits * data.length) toBits
  rw [convertBits, padding]
  generalize regroup fromBits toBits data (0, 0, []) = state at *
  obtain ⟨acc, bits, ret⟩ := state
  obtain ⟨sameAcc, sameBits, length, groups⟩ := invariant
  simp only at sameAcc sameBits length groups ⊢
  rw [← sameBits] at groups below parts ⊢
  by_cases whole : bits = 0
  · subst whole
    rw [Nat.sub_zero, Nat.mod_self, pow_zero, Nat.mul_one]
    refine ⟨?_, groups⟩
    rw [if_neg (by decide), length]
    exact parts
  · have last : (acc <<< (toBits - bits)) &&& ((1 <<< toBits) - 1) =
        value (2 ^ fromBits) data * 2 ^ (toBits - bits) / 2 ^ 0 % 2 ^ toBits := by
      rw [Nat.one_shiftLeft, Nat.and_two_pow_sub_one_eq_mod, Nat.shiftLeft_eq, sameAcc, pow_zero, Nat.div_one]
      exact filled_of_masked (by omega)
    have filled : Groups toBits (value (2 ^ fromBits) data * 2 ^ (toBits - bits)) toBits ret := by
      have filled := groups.extend (show 0 < 2 ^ (toBits - bits) by positivity)
      rwa [Nat.add_zero, Nat.add_sub_cancel' below.le] at filled
    have some : (true && bits != 0) = true := by simpa using whole
    rw [if_pos some, last, Nat.mod_eq_of_lt (show toBits - bits < toBits by omega)]
    refine ⟨?_, Groups.concat (by rwa [Nat.zero_add])⟩
    rw [List.length_append, length, List.length_singleton, Nat.mul_succ]
    omega

/-- Padding is dropped on the way back, when it is less than a value. -/
theorem convertBits_convertBits (positive : 0 < toBits) (narrower : toBits ≤ fromBits)
    (small : ∀ digit ∈ data, digit < 2 ^ fromBits) :
    convertBits (convertBits data fromBits toBits true) toBits fromBits false = data := by
  have few : padding fromBits toBits data.length < fromBits := (Nat.mod_lt _ positive).trans_le narrower
  obtain ⟨length, groups⟩ := convertBits_padded positive small
  obtain ⟨back, values⟩ := convertBits_truncated (positive.trans_le narrower) groups.small
  rw [length] at back values
  rw [Nat.mul_add_div (by omega), Nat.div_eq_of_lt few, Nat.add_zero] at back
  rw [Nat.mul_add_mod, Nat.mod_eq_of_lt few, groups.value, pow_zero, Nat.div_one] at values
  refine value_injective (Nat.one_lt_two_pow (by omega)) values.small small back ?_
  rw [values.value, Nat.mul_div_cancel _ (by positivity)]

theorem convertBits_lossless (data : List Nat) (bytes : ∀ byte ∈ data, byte < 256) :
    (convertBits data 8 5 true).length = 8 * data.length ⌈/⌉ 5 ∧
      (∀ group ∈ convertBits data 8 5 true, group < 32) ∧
      (∃ zeros < 5, bits 5 (convertBits data 8 5 true) = bits 8 data ++ List.replicate zeros 0) ∧
      convertBits (convertBits data 8 5 true) 5 8 false = data := by
  have small : ∀ byte ∈ data, byte < 2 ^ 8 := bytes
  obtain ⟨length, groups⟩ := convertBits_padded (by decide : 0 < 5) small
  have few : padding 8 5 data.length < 5 := Nat.mod_lt _ (by decide)
  refine ⟨?_, groups.small, ⟨_, few, bits_eq_append_zeros groups.small small length ?_⟩, ?_⟩
  · rw [Nat.ceilDiv_eq_add_pred_div]
    omega
  · rw [groups.value, pow_zero, Nat.div_one]
  · exact convertBits_convertBits (by decide) (by decide) small

theorem convertBits_lossless_pair : (∀ byte ∈ [255, 1], byte < 256) ∧
    convertBits (convertBits [255, 1] 8 5 true) 5 8 false = [255, 1] :=
  ⟨by decide, (convertBits_lossless [255, 1] (by decide)).2.2.2⟩

end

end Snowside
