import Snowside.Numeral.Double
import Snowside.Text

/-! JavaScript numbers in decimal: the literals that `Number` and `parseFloat` read,
and the text that `String` prints. -/

set_option autoImplicit false

namespace Snowside

namespace Text

def isDigit (char : Char) : Bool := decide ('0' ≤ char ∧ char ≤ '9')

/-- The number that decimal digits spell. -/
def digitsValue (digits : Text) : Nat := Numeral.value 10 (digits.map fun char => char.toNat - 48)

/-! ## Reading -/

/-- The exponent at the front of a text; zero without one. -/
def leadingExponent : Text → Int
  | 'e' :: '-' :: digits => -digitsValue (digits.takeWhile isDigit)
  | 'E' :: '-' :: digits => -digitsValue (digits.takeWhile isDigit)
  | 'e' :: '+' :: digits => digitsValue (digits.takeWhile isDigit)
  | 'E' :: '+' :: digits => digitsValue (digits.takeWhile isDigit)
  | 'e' :: digits => digitsValue (digits.takeWhile isDigit)
  | 'E' :: digits => digitsValue (digits.takeWhile isDigit)
  | _ => 0

/-- The digits after a point at the front of a text, and what follows. -/
def leadingFraction : Text → Text × Text
  | '.' :: rest => (rest.takeWhile isDigit, rest.dropWhile isDigit)
  | rest => ([], rest)

/-- The longest unsigned decimal literal at the front of a text. -/
def decimalValue (text : Text) : Option ℚ :=
  let whole := text.takeWhile isDigit
  let (fraction, rest) := leadingFraction (text.dropWhile isDigit)
  if whole = [] ∧ fraction = [] then none
  else some (digitsValue (whole ++ fraction) * 10 ^ (leadingExponent rest - fraction.length))

/-! ## Printing -/

/-- `Number::toString` of the digits times the power of ten. -/
def printDigits (digits : Text) (power : Int) : Text :=
  let point := digits.length + power
  if 0 ≤ power ∧ point ≤ 21 then digits ++ List.replicate power.toNat '0'
  else if 0 < point ∧ point ≤ 21 then digits.take point.toNat ++ '.' :: digits.drop point.toNat
  else if -6 < point ∧ point ≤ 0 then '0' :: '.' :: (List.replicate (-point).toNat '0' ++ digits)
  else
    let mantissa := if digits.length = 1 then digits else digits.take 1 ++ '.' :: digits.drop 1
    mantissa ++ 'e' :: (if point - 1 < 0 then '-' else '+') :: toRadix 10 (point - 1).natAbs

/-- So many digits of a number, as an integer and its power of ten: the two integers
around it, the nearer one first. One more digit is a power of ten. -/
def roundedTo (count : Nat) (number : ℚ) : List (Nat × Int) :=
  let power := Int.log 10 number + 1 - count
  let scaled := number / 10 ^ power
  let low := ⌊scaled⌋.toNat
  let high := if low + 1 = 10 ^ count then (1, Int.log 10 number + 1) else (low + 1, power)
  if scaled - low ≤ 1 / 2 then [(low, power), high] else [high, (low, power)]

/-- The fewest digits that are read as the positive double; seventeen are enough. -/
def shortest (double : ℚ) : Nat × Int :=
  let candidates := (List.range 17).flatMap fun count => roundedTo (count + 1) double
  (candidates.find? fun (digits, power) => Double.nearest (digits * 10 ^ power) = some double).getD
    (⌊double * 2 ^ 1074⌋.toNat * 5 ^ 1074, -1074)

/-- `String(number)` of a finite number that is not negative. -/
def printNumber (double : ℚ) : Text :=
  if double = 0 then ['0']
  else
    let (digits, power) := shortest double
    printDigits (toRadix 10 digits) power

/-! ## Digits -/

/-- The text is decimal digits alone. -/
def Digits (text : Text) : Prop := ∀ char ∈ text, isDigit char = true

section

variable {digits first rest whole fraction : Text} {number : Nat}

theorem Digits.append (left : Digits first) (right : Digits rest) : Digits (first ++ rest) := fun char member =>
  (List.mem_append.mp member).elim (left char) (right char)

theorem Digits.of_subset (all : Digits digits) (inside : rest ⊆ digits) : Digits rest := fun char member =>
  all char (inside member)

theorem zeros_digits (count : Nat) : Digits (List.replicate count '0') := by
  intro char member
  rw [List.eq_of_mem_replicate member]
  rfl

theorem hexDigit_decimal {digit : Nat} (small : digit < 10) :
    isDigit (hexDigit digit) = true ∧ (hexDigit digit).toNat - 48 = digit := by
  have all : ∀ digit < 10, isDigit (hexDigit digit) = true ∧ (hexDigit digit).toNat - 48 = digit := by decide
  exact all digit small

theorem hexValue_of_isDigit {char : Char} (digit : isDigit char = true) :
    hexValue char = some (char.toNat - 48) ∧ char.toNat - 48 < 10 := by
  have between := of_decide_eq_true digit
  refine ⟨if_pos between, ?_⟩
  have high : char.toNat ≤ 57 := between.2
  omega

theorem toRadix_digits (number : Nat) : Digits (toRadix 10 number) := by
  intro char member
  rw [toRadix] at member
  split at member
  · rw [List.mem_singleton.mp member]
    rfl
  · obtain ⟨digit, spelled, rfl⟩ := List.mem_map.mp member
    exact (hexDigit_decimal (Numeral.spell_lt (by decide) number digit spelled)).1

theorem toRadix_ne_nil (number : Nat) : toRadix 10 number ≠ [] := by
  rw [toRadix]
  split
  · exact List.cons_ne_nil _ _
  · next nonzero =>
    intro empty
    have value : Numeral.value 10 (Numeral.spell 10 number) = number := Numeral.value_spell number
    rw [List.map_eq_nil_iff.mp empty] at value
    exact nonzero value.symm

@[simp] theorem digitsValue_toRadix (number : Nat) : digitsValue (toRadix 10 number) = number := by
  rw [digitsValue, toRadix]
  split
  · next zero => rw [zero]; rfl
  · rw [List.map_map]
    refine (congrArg _ ?_).trans (Numeral.value_spell number)
    refine (List.map_congr_left fun digit spelled => ?_).trans (List.map_id _)
    exact (hexDigit_decimal (Numeral.spell_lt (by decide) number digit spelled)).2

theorem digitsValue_append (first rest : Text) :
    digitsValue (first ++ rest) = digitsValue first * 10 ^ rest.length + digitsValue rest := by
  rw [digitsValue, List.map_append, Numeral.value_append, List.length_map]
  rfl

@[simp] theorem digitsValue_zeros (count : Nat) : digitsValue (List.replicate count '0') = 0 := by
  rw [digitsValue, List.map_replicate]
  exact Numeral.value_zeros count

/-! ## What is printed is read -/

/-- What follows digits begins with none. -/
def Ends (rest : Text) : Prop := rest.takeWhile isDigit = []

theorem Ends.dropWhile (ends : Ends rest) : rest.dropWhile isDigit = rest := by
  have whole : rest.takeWhile isDigit ++ rest.dropWhile isDigit = rest := List.takeWhile_append_dropWhile
  rwa [show rest.takeWhile isDigit = [] from ends, List.nil_append] at whole

theorem takeWhile_digits (all : Digits digits) (ends : Ends rest) : (digits ++ rest).takeWhile isDigit = digits := by
  rw [List.takeWhile_append_of_pos all, show rest.takeWhile isDigit = [] from ends, List.append_nil]

theorem dropWhile_digits (all : Digits digits) (ends : Ends rest) : (digits ++ rest).dropWhile isDigit = rest := by
  rw [List.dropWhile_append_of_pos all, ends.dropWhile]

theorem decimalValue_whole (all : Digits whole) (filled : whole ≠ []) (ends : Ends rest)
    (pointless : leadingFraction rest = ([], rest)) :
    decimalValue (whole ++ rest) = some ((digitsValue whole : ℚ) * 10 ^ leadingExponent rest) := by
  rw [decimalValue, takeWhile_digits all ends, dropWhile_digits all ends, pointless]
  simp [filled]

theorem decimalValue_point (all : Digits whole) (others : Digits fraction) (filled : whole ≠ []) (ends : Ends rest) :
    decimalValue (whole ++ '.' :: (fraction ++ rest)) =
      some ((digitsValue (whole ++ fraction) : ℚ) * 10 ^ (leadingExponent rest - fraction.length)) := by
  have point : Ends ('.' :: (fraction ++ rest)) := rfl
  rw [decimalValue, takeWhile_digits all point, dropWhile_digits all point, leadingFraction,
    takeWhile_digits others ends, dropWhile_digits others ends]
  simp [filled]

theorem printedExponent_ends (sign : Char) (digits : Text) : Ends ('e' :: sign :: digits) := rfl

/-- The exponent that is printed. -/
theorem leadingExponent_printed (exponent : Int) : leadingExponent ('e' :: (if exponent < 0 then '-' else '+') ::
    toRadix 10 exponent.natAbs) = exponent := by
  have digits := toRadix_digits exponent.natAbs
  have whole : (toRadix 10 exponent.natAbs).takeWhile isDigit = toRadix 10 exponent.natAbs := by
    have taken := takeWhile_digits digits (show Ends [] from rfl)
    rwa [List.append_nil] at taken
  split
  · rw [leadingExponent, whole, digitsValue_toRadix]
    omega
  · rw [leadingExponent, whole, digitsValue_toRadix]
    omega

/-- Digits are read with the power of ten that they were printed with. -/
theorem decimalValue_printDigits (all : Digits digits) (filled : digits ≠ []) (power : Int) :
    decimalValue (printDigits digits power) = some ((digitsValue digits : ℚ) * 10 ^ power) := by
  have positive : 0 < digits.length := List.length_pos_iff.mpr filled
  have done : Ends [] := rfl
  have taken (count : Nat) : Digits (digits.take count) := all.of_subset (List.take_subset count digits)
  have dropped (count : Nat) : Digits (digits.drop count) := all.of_subset (List.drop_subset count digits)
  unfold printDigits
  dsimp only
  split
  · -- An integer.
    next integer =>
    have read := decimalValue_whole (all.append (zeros_digits power.toNat)) (by simp [filled]) done rfl
    rw [List.append_nil] at read
    rw [read, digitsValue_append, digitsValue_zeros, List.length_replicate, Nat.add_zero]
    push_cast
    rw [← zpow_natCast, Int.toNat_of_nonneg integer.1]
    simp [leadingExponent]
  split
  · -- The point is inside the digits.
    next inside =>
    have nonempty : digits.take (digits.length + power).toNat ≠ [] := by
      intro empty
      rcases List.take_eq_nil_iff.mp empty with zero | nil
      · omega
      · exact filled nil
    have read := decimalValue_point (taken _) (dropped (digits.length + power).toNat) nonempty done
    rw [List.append_nil] at read
    rw [read, List.take_append_drop, List.length_drop]
    congr 2
    simp only [leadingExponent]
    congr 1
    omega
  split
  · -- Zeros come before the digits.
    next small =>
    have read := decimalValue_point (show Digits ['0'] from zeros_digits 1)
      ((zeros_digits (-(digits.length + power)).toNat).append all) (List.cons_ne_nil _ _) done
    rw [List.append_nil] at read
    rw [show '0' :: '.' :: (List.replicate (-(digits.length + power)).toNat '0' ++ digits) =
      ['0'] ++ '.' :: (List.replicate (-(digits.length + power)).toNat '0' ++ digits) from rfl, read,
      digitsValue_append, digitsValue_append, digitsValue_zeros, List.length_append, List.length_replicate]
    have zero : digitsValue ['0'] = 0 := rfl
    rw [zero, Nat.zero_mul, Nat.zero_mul, Nat.zero_add, Nat.zero_add]
    congr 2
    simp only [leadingExponent]
    congr 1
    omega
  · -- One digit comes before the exponent, and a point if there are more.
    have exponent := leadingExponent_printed (digits.length + power - 1)
    generalize (if digits.length + power - 1 < 0 then '-' else '+') = sign at *
    split
    · next single =>
      rw [decimalValue_whole all filled (printedExponent_ends _ _) rfl, exponent, single]
      congr 2
      congr 1
      omega
    · next more =>
      have read := decimalValue_point (taken 1) (dropped 1) (by simp [filled])
        (printedExponent_ends sign (toRadix 10 (digits.length + power - 1).natAbs))
      rw [List.append_assoc, List.cons_append, read, exponent, List.take_append_drop, List.length_drop]
      congr 2
      congr 1
      omega

theorem printDigits_head (all : Digits digits) (filled : digits ≠ []) (power : Int) :
    ∃ char rest, isDigit char = true ∧ printDigits digits power = char :: rest := by
  obtain ⟨char, others, rfl⟩ := List.exists_cons_of_ne_nil filled
  have digit := all char List.mem_cons_self
  unfold printDigits
  dsimp only
  split
  · exact ⟨char, _, digit, List.cons_append⟩
  split
  · next inside =>
    obtain ⟨count, next⟩ := Nat.exists_eq_succ_of_ne_zero
      (show ((char :: others).length + power).toNat ≠ 0 by omega)
    rw [next, List.take_succ_cons]
    exact ⟨char, _, digit, List.cons_append⟩
  split
  · exact ⟨'0', _, rfl, rfl⟩
  split
  · exact ⟨char, _, digit, List.cons_append⟩
  · exact ⟨char, _, digit, rfl⟩

/-- Without a point a number is printed as an integer, or as one digit and an exponent. -/
theorem printDigits_pointless {power : Int} (pointless : '.' ∉ printDigits digits power) :
    (0 ≤ power ∧ printDigits digits power = digits ++ List.replicate power.toNat '0') ∨
    ∃ sign exponent, digits.length = 1 ∧ (sign = '-' ∨ sign = '+') ∧ Digits exponent ∧
      printDigits digits power = digits ++ 'e' :: sign :: exponent := by
  unfold printDigits at *
  dsimp only at *
  split at pointless
  · next integer => exact .inl ⟨integer.1, if_pos integer⟩
  split at pointless
  · exact absurd (List.mem_append_right _ List.mem_cons_self) pointless
  split at pointless
  · exact absurd (List.mem_cons_of_mem '0' List.mem_cons_self) pointless
  split at pointless
  · next large inside small single =>
    refine .inr ⟨_, _, single, ?_, toRadix_digits _, by rw [if_neg large, if_neg inside, if_neg small, if_pos single]⟩
    exact (ite_eq_or_eq _ '-' '+')
  · exact absurd (List.mem_append_left _ (List.mem_append_right _ List.mem_cons_self)) pointless

/-- Binary fractions are decimal ones. -/
theorem binary_eq_decimal (count : ℚ) (power : Nat) :
    count * 2 ^ (-power : ℤ) = count * 5 ^ power * 10 ^ (-power : ℤ) := by
  rw [zpow_neg, zpow_neg, zpow_natCast, zpow_natCast, show (10 : ℚ) = 2 * 5 by norm_num, mul_pow]
  field_simp

/-- The digits that are printed are read as the double. -/
theorem nearest_shortest {double : ℚ} (positive : 0 < double) (fixed : Double.nearest double = some double) :
    Double.nearest (((shortest double).1 : ℚ) * 10 ^ (shortest double).2) = some double := by
  rw [shortest]
  cases found : List.find? (fun candidate : Nat × Int =>
      decide (Double.nearest ((candidate.1 : ℚ) * 10 ^ candidate.2) = some double))
      ((List.range 17).flatMap fun count => roundedTo (count + 1) double) with
  | some candidate =>
    have kept := List.find?_some found
    exact of_decide_eq_true kept
  | none =>
    -- Every double is a multiple of the smallest.
    obtain ⟨count, multiple⟩ := Double.double_grid fixed
    have scaled : double * 2 ^ 1074 = count := by
      rw [multiple, mul_assoc, ← zpow_natCast, ← zpow_add₀ (by norm_num)]
      norm_num
    have nonnegative : 0 ≤ count := by
      have cast : (0 : ℚ) ≤ count := scaled ▸ by positivity
      exact_mod_cast cast
    have whole : ((count.toNat : Nat) : ℚ) = count := by exact_mod_cast Int.toNat_of_nonneg nonnegative
    rw [Option.getD_none, scaled, Int.floor_intCast, Nat.cast_mul, Nat.cast_pow, whole]
    have decimal := binary_eq_decimal count 1074
    rw [Nat.cast_ofNat] at decimal
    rw [Nat.cast_ofNat, ← decimal, ← multiple]
    exact fixed

/-- What is printed is read as the double. -/
theorem decimalValue_printNumber {double : ℚ} (nonnegative : 0 ≤ double) (fixed : Double.nearest double = some double) :
    (decimalValue (printNumber double)).bind Double.nearest = some double := by
  unfold printNumber
  split
  · next zero =>
    have read := decimalValue_whole (zeros_digits 1) (List.cons_ne_nil _ _) (show Ends [] from rfl) rfl
    have value : digitsValue (List.replicate 1 '0') = 0 := digitsValue_zeros 1
    rw [List.append_nil, value, Nat.cast_zero, zero_mul] at read
    rw [show ['0'] = List.replicate 1 '0' from rfl, read, Option.bind_some, ← zero]
    exact fixed
  · next nonzero =>
    have positive : 0 < double := lt_of_le_of_ne nonnegative (Ne.symm nonzero)
    dsimp only
    rw [decimalValue_printDigits (toRadix_digits _) (toRadix_ne_nil _), digitsValue_toRadix, Option.bind_some]
    exact nearest_shortest positive fixed

theorem decimalValue_isSome {text : Text} (filled : text.takeWhile isDigit ≠ []) :
    ∃ number, decimalValue text = some number := by
  unfold decimalValue
  dsimp only
  rw [if_neg fun empty => filled empty.1]
  exact ⟨_, rfl⟩

theorem decimalValue_nonneg {text : Text} {number : ℚ} (read : decimalValue text = some number) : 0 ≤ number := by
  unfold decimalValue at read
  dsimp only at read
  split at read
  · cases read
  · rw [← Option.some.inj read]
    positivity

theorem decimalValue_digits (all : Digits digits) (filled : digits ≠ []) :
    decimalValue digits = some (digitsValue digits : ℚ) := by
  have read := decimalValue_whole all filled (show Ends [] from rfl) rfl
  rwa [List.append_nil, show leadingExponent [] = 0 from rfl, zpow_zero, mul_one] at read

theorem printNumber_head {double : ℚ} : ∃ char rest, isDigit char = true ∧ printNumber double = char :: rest := by
  unfold printNumber
  split
  · exact ⟨'0', [], rfl, rfl⟩
  · exact printDigits_head (toRadix_digits _) (toRadix_ne_nil _) _

theorem printNumber_pointless {double : ℚ} (pointless : '.' ∉ printNumber double) :
    Digits (printNumber double) ∨ ∃ char sign exponent, isDigit char = true ∧ (sign = '-' ∨ sign = '+') ∧
      Digits exponent ∧ printNumber double = char :: 'e' :: sign :: exponent := by
  unfold printNumber at *
  split at pointless
  · next zero =>
    rw [if_pos zero]
    exact .inl (zeros_digits 1)
  · next nonzero =>
    rw [if_neg nonzero]
    dsimp only at *
    obtain ⟨-, integer⟩ | ⟨sign, exponent, single, signed, digits, scientific⟩ := printDigits_pointless pointless
    · rw [integer]
      exact .inl ((toRadix_digits _).append (zeros_digits _))
    · obtain ⟨char, only⟩ := List.length_eq_one_iff.mp single
      have digit := toRadix_digits (shortest double).1 char (by rw [only]; exact List.mem_cons_self)
      exact .inr ⟨char, sign, exponent, digit, signed, digits, by rw [scientific, only]; rfl⟩

end

end Text

end Snowside
