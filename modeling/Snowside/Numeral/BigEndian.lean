import Mathlib.Data.Nat.Digits.Lemmas

/-! Big-endian numerals: lists of digits with the most significant one first. -/

set_option autoImplicit false

namespace Numeral

variable {base : Nat}

/-- The number that the digits spell. -/
def value (base : Nat) (digits : List Nat) : Nat := Nat.ofDigits base digits.reverse

/-- The shortest numeral of a number; zero has no digits. -/
def spell (base number : Nat) : List Nat := (Nat.digits base number).reverse

theorem value_append (first rest : List Nat) :
    value base (first ++ rest) = value base first * base ^ rest.length + value base rest := by
  simp only [value, List.reverse_append, Nat.ofDigits_append, List.length_reverse]
  ring

theorem value_singleton (digit : Nat) : value base [digit] = digit := by
  simp [value]

theorem value_cons (digit : Nat) (rest : List Nat) :
    value base (digit :: rest) = digit * base ^ rest.length + value base rest := by
  rw [← List.singleton_append, value_append, value_singleton]

@[simp] theorem value_zeros (count : Nat) : value base (List.replicate count 0) = 0 := by
  induction count with
  | zero => rfl
  | succ count ih => rw [List.replicate_succ, value_cons, ih, Nat.zero_mul]

@[simp] theorem value_zeros_append (count : Nat) (digits : List Nat) :
    value base (List.replicate count 0 ++ digits) = value base digits := by
  rw [value_append, value_zeros, Nat.zero_mul, Nat.zero_add]

theorem value_lt (large : 1 < base) {digits : List Nat} (small : ∀ digit ∈ digits, digit < base) :
    value base digits < base ^ digits.length := by
  have bound := Nat.ofDigits_lt_base_pow_length large
    (fun digit member => small digit (List.mem_reverse.mp member))
  rwa [List.length_reverse] at bound

theorem value_injective (large : 1 < base) {first second : List Nat} (left : ∀ digit ∈ first, digit < base)
    (right : ∀ digit ∈ second, digit < base) (length : first.length = second.length)
    (same : value base first = value base second) : first = second := by
  apply List.reverse_injective
  exact Nat.ofDigits_inj_of_len_eq large (by simpa using length)
    (fun digit member => left digit (List.mem_reverse.mp member))
    (fun digit member => right digit (List.mem_reverse.mp member)) same

@[simp] theorem value_spell (number : Nat) : value base (spell base number) = number := by
  rw [value, spell, List.reverse_reverse, Nat.ofDigits_digits]

theorem spell_lt (large : 1 < base) (number : Nat) : ∀ digit ∈ spell base number, digit < base :=
  fun _ member => Nat.digits_lt_base large (List.mem_reverse.mp member)

theorem length_spell_le (large : 1 < base) (count number : Nat) :
    (spell base number).length ≤ count ↔ number < base ^ count := by
  rw [spell, List.length_reverse]
  exact Nat.digits_length_le_iff large number

/-- The numeral of a number in so many digits; higher ones are lost. -/
def spellFixed (base : Nat) : Nat → Nat → List Nat
  | 0, _ => []
  | count + 1, number => spellFixed base count (number / base) ++ [number % base]

@[simp] theorem length_spellFixed (base count number : Nat) : (spellFixed base count number).length = count := by
  induction count generalizing number with
  | zero => rfl
  | succ count ih => rw [spellFixed, List.length_append, ih, List.length_singleton]

theorem spellFixed_lt (positive : 0 < base) (count number : Nat) :
    ∀ digit ∈ spellFixed base count number, digit < base := by
  induction count generalizing number with
  | zero => exact fun _ member => absurd member List.not_mem_nil
  | succ count ih =>
    intro digit member
    obtain member | last := List.mem_append.mp member
    · exact ih _ digit member
    · rw [List.mem_singleton.mp last]
      exact Nat.mod_lt _ positive

theorem value_spellFixed (count number : Nat) : value base (spellFixed base count number) = number % base ^ count := by
  induction count generalizing number with
  | zero => simp [spellFixed, value, Nat.mod_one]
  | succ count ih =>
    rw [spellFixed, value_append, value_singleton, ih, List.length_singleton, pow_one, pow_succ', Nat.mod_mul]
    ring

/-- Digits that are bytes are kept as bytes. -/
theorem map_toNat_ofNat {digits : List Nat} (small : ∀ digit ∈ digits, digit < 256) :
    (digits.map UInt8.ofNat).map UInt8.toNat = digits := by
  rw [List.map_map]
  refine (List.map_congr_left fun digit member => ?_).trans (List.map_id _)
  exact UInt8.toNat_ofNat_of_lt' (small digit member)

/-- Two digits become one digit of the squared base; an odd digit is an error. -/
def pairUp (base : Nat) : List Nat → Option (List Nat)
  | [] => some []
  | [_] => none
  | high :: low :: rest => (pairUp base rest).map fun pairs => (high * base + low) :: pairs

theorem pairUp_isSome (base : Nat) (digits : List Nat) :
    (pairUp base digits).isSome ↔ digits.length % 2 = 0 := by
  induction digits using pairUp.induct with
  | case1 => simp [pairUp]
  | case2 digit => simp [pairUp]
  | case3 high low rest ih =>
    simp only [pairUp, Option.isSome_map, ih, List.length_cons]
    omega

theorem pairUp_length {digits pairs : List Nat} (paired : pairUp base digits = some pairs) :
    digits.length = 2 * pairs.length := by
  induction digits using pairUp.induct generalizing pairs with
  | case1 => cases paired; rfl
  | case2 digit => cases paired
  | case3 high low rest ih =>
    simp only [pairUp, Option.map_eq_some_iff] at paired
    obtain ⟨tail, paired, rfl⟩ := paired
    simp only [List.length_cons, ih paired]
    omega

theorem pairUp_value {digits pairs : List Nat} (paired : pairUp base digits = some pairs) :
    value (base * base) pairs = value base digits := by
  induction digits using pairUp.induct generalizing pairs with
  | case1 => cases paired; rfl
  | case2 digit => cases paired
  | case3 high low rest ih =>
    simp only [pairUp, Option.map_eq_some_iff] at paired
    obtain ⟨tail, paired, rfl⟩ := paired
    have same : (base * base) ^ tail.length = base ^ rest.length := by
      rw [pairUp_length paired, pow_mul, pow_two]
    rw [value_cons, value_cons, value_cons, ih paired, same, List.length_cons, pow_succ]
    ring

theorem pairUp_take {digits pairs : List Nat} (paired : pairUp base digits = some pairs) (count : Nat) :
    pairUp base (digits.take (2 * count)) = some (pairs.take count) := by
  induction digits using pairUp.induct generalizing pairs count with
  | case1 => cases paired; simp [pairUp]
  | case2 digit => cases paired
  | case3 high low rest ih =>
    simp only [pairUp, Option.map_eq_some_iff] at paired
    obtain ⟨tail, paired, rfl⟩ := paired
    cases count with
    | zero => rfl
    | succ count =>
      rw [Nat.mul_succ]
      simp [pairUp, ih paired]

theorem pairUp_drop {digits pairs : List Nat} (paired : pairUp base digits = some pairs) (count : Nat) :
    pairUp base (digits.drop (2 * count)) = some (pairs.drop count) := by
  induction digits using pairUp.induct generalizing pairs count with
  | case1 => cases paired; simp [pairUp]
  | case2 digit => cases paired
  | case3 high low rest ih =>
    cases count with
    | zero => simpa using paired
    | succ count =>
      simp only [pairUp, Option.map_eq_some_iff] at paired
      obtain ⟨tail, paired, rfl⟩ := paired
      rw [Nat.mul_succ]
      simp [ih paired]

end Numeral
