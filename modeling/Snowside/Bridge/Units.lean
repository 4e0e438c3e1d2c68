import Snowside.Decimal
import Snowside.Federation.Loop

/-! The amount of a withdrawal on its way from the form through the burn and the
table to the federation. -/

set_option autoImplicit false

namespace Snowside

/-! ## The form -/

/-- `/^\d+(\.\d+)?$/`. -/
def isDecimal (amount : Text) : Bool :=
  amount.takeWhile Text.isDigit ≠ [] &&
    match amount.dropWhile Text.isDigit with
    | [] => true
    | '.' :: fraction => fraction ≠ [] && fraction.all Text.isDigit
    | _ => false

/-- `Number(amount)` of a decimal; `none` is infinity. -/
def toNumber (amount : Text) : Option ℚ := (Text.decimalValue amount).bind Double.nearest

def amountValid (amount : Text) : Bool := isDecimal amount && toNumber amount ≠ some 0

/-- What `parseEther` documents: ether with 18 decimals, and a rounded last one of
more. -/
structure ParsesEther (parseEther : Text → Nat) : Prop where
  low : ∀ amount number, isDecimal amount = true → Text.decimalValue amount = some number →
    ⌊number * 10 ^ 18⌋ ≤ parseEther amount
  high : ∀ amount number, isDecimal amount = true → Text.decimalValue amount = some number →
    parseEther amount ≤ ⌈number * 10 ^ 18⌉

/-! ## The column -/

inductive Stored where
  | integer (number : Nat)
  | real (double : ℚ)
  | infinity
  deriving DecidableEq, Repr

/-- A real that is an integer of 64 bits is stored as one. -/
def storeReal (double : ℚ) : Stored :=
  if ⌊double⌋ = double ∧ double < 2 ^ 63 then .integer ⌊double⌋.toNat else .real double

/-- A decimal in an INTEGER column: an integer literal that has no 64 bits is a real. -/
def store (amount : Text) : Stored :=
  let digits := Text.digitsValue amount
  if amount.all Text.isDigit ∧ digits < 2 ^ 63 then .integer digits
  else (toNumber amount).elim .infinity storeReal

/-- The JavaScript number of a stored one. -/
def Stored.toNumber : Stored → Option ℚ
  | .integer number => Double.nearest number
  | .real double => some double
  | .infinity => none

/-- `String` of the amount that the federation receives; JSON has null for infinity. -/
def readBack (amount : Text) : Option Text := (store amount).toNumber.map Text.printNumber

/-! ## The federation -/

/-- `parseFloat`; `none` is NaN or an infinity. -/
def parseFloat (text : Text) : Option ℚ :=
  match text.dropWhile isSpace with
  | '-' :: rest => (toNumber rest).map (- ·)
  | '+' :: rest => toNumber rest
  | rest => toNumber rest

/-- `Math.floor(parseFloat(text) * 100_000_000)`. -/
def decimalSats (text : Text) : Option Int :=
  (parseFloat text).bind fun ecxFloat => (Double.nearest (ecxFloat * 100000000)).map Int.floor

/-- The condition under which the satoshis are those of the burn: the stored number
is printed with a point and its product with 10^8 has their integral part, or the
burn is below a satoshi. -/
def ReadInEcx (amount : Text) (wei : Nat) : Prop :=
  (∃ double, toNumber amount = some double ∧ '.' ∈ Text.printNumber double ∧
    Double.HasFloor (double * 100000000) (wei / satsToEcx : Nat)) ∨
  ((∀ double, toNumber amount = some double → '.' ∉ Text.printNumber double) ∧ wei < satsToEcx)

section

variable {amount text : Text} {number double : ℚ}

/-! ## What is read back -/

theorem isDecimal_digits (decimal : isDecimal amount = true) : amount.takeWhile Text.isDigit ≠ [] := by
  rw [isDecimal, Bool.and_eq_true] at decimal
  exact of_decide_eq_true decimal.1

theorem toNumber_nonneg (found : toNumber amount = some double) : 0 ≤ double := by
  obtain ⟨number, read, rounded⟩ := Option.bind_eq_some_iff.mp found
  exact Double.nearest_nonneg (Text.decimalValue_nonneg read) rounded

theorem toNumber_double (found : toNumber amount = some double) : Double.nearest double = some double := by
  obtain ⟨number, -, rounded⟩ := Option.bind_eq_some_iff.mp found
  exact Double.nearest_double rounded

/-- The storage class of a double is not seen. -/
theorem storeReal_toNumber (nonnegative : 0 ≤ double) (fixed : Double.nearest double = some double) :
    (storeReal double).toNumber = some double := by
  rw [storeReal]
  split
  · next whole =>
    have floor : 0 ≤ ⌊double⌋ := Int.floor_nonneg.mpr nonnegative
    have same : ((⌊double⌋.toNat : Nat) : ℚ) = double := by
      rw [← Int.cast_natCast, Int.toNat_of_nonneg floor, whole.1]
    rw [Stored.toNumber, same]
    exact fixed
  · rfl

/-- The column keeps the number of the text. -/
theorem readBack_eq (decimal : isDecimal amount = true) : readBack amount = (toNumber amount).map Text.printNumber := by
  rw [readBack, store]
  refine congrArg _ ?_
  split
  · next integer =>
    have digits : Text.Digits amount := List.all_eq_true.mp integer.1
    have filled : amount ≠ [] := by
      rintro rfl
      exact isDecimal_digits decimal rfl
    rw [toNumber, Text.decimalValue_digits digits filled, Option.bind_some]
    rfl
  · cases found : toNumber amount with
    | none => rfl
    | some double => exact storeReal_toNumber (toNumber_nonneg found) (toNumber_double found)

/-! ## What is paid -/

theorem isSpace_of_isDigit {char : Char} (digit : Text.isDigit char = true) : isSpace char = false := by
  have between := of_decide_eq_true digit
  have low : 48 ≤ char.toNat := between.1
  have high : char.toNat ≤ 57 := between.2
  have codes : ∀ code < 58, 48 ≤ code → isSpace (Char.ofNat code) = false := by decide
  have same := codes char.toNat (by omega) low
  rwa [Char.ofNat_toNat] at same

theorem trim_eq (unspaced : ∀ char ∈ text, isSpace char = false) : trim text = text := by
  have kept (rest : Text) (none : ∀ char ∈ rest, isSpace char = false) : rest.dropWhile isSpace = rest := by
    cases rest with
    | nil => rfl
    | cons char others =>
      rw [List.dropWhile_cons, none char List.mem_cons_self]
      rfl
  rw [trim, kept text unspaced, kept text.reverse fun char member => unspaced char (List.mem_reverse.mp member),
    List.reverse_reverse]

theorem readNumeral_digits (digits : Text.Digits text) (filled : text ≠ []) :
    readNumeral 10 text = some (Text.digitsValue text : Int) := by
  have spelled : Text.hexValues text = some (text.map fun char => char.toNat - 48) := by
    rw [Text.hexValues_eq_some, List.map_map]
    exact List.map_congr_left fun char member => (Text.hexValue_of_isDigit (digits char member)).1
  have small : ∀ digit ∈ text.map fun char => char.toNat - 48, digit < 10 := by
    intro digit member
    obtain ⟨char, inside, rfl⟩ := List.mem_map.mp member
    exact (Text.hexValue_of_isDigit (digits char inside)).2
  rw [readNumeral, if_neg filled, spelled, Option.bind_some, if_pos small]
  rfl

/-- A text without sign and radix prefix is read in decimal. -/
theorem bigInt_unprefixed {char : Char} {rest : Text} (unspaced : ∀ other ∈ char :: rest, isSpace other = false)
    (digit : Text.isDigit char = true) (plain : ∀ mark ∈ ['x', 'X', 'o', 'O', 'b', 'B'], ∀ digits, rest ≠ mark :: digits) :
    bigInt (char :: rest) = readNumeral 10 (char :: rest) := by
  have unmarked {mark : Char} {digits : Text} (marked : mark ∈ ['x', 'X', 'o', 'O', 'b', 'B'])
      (same : char :: rest = '0' :: mark :: digits) : False :=
    plain mark marked digits (List.cons.inj same).2
  have unsigned {sign : Char} {digits : Text} (other : Text.isDigit sign = false)
      (same : char :: rest = sign :: digits) : False := by
    rw [(List.cons.inj same).1, other] at digit
    cases digit
  unfold bigInt
  rw [trim_eq unspaced]
  split
  · next empty => cases empty
  · next same => exact (unmarked (by decide) same).elim
  · next same => exact (unmarked (by decide) same).elim
  · next same => exact (unmarked (by decide) same).elim
  · next same => exact (unmarked (by decide) same).elim
  · next same => exact (unmarked (by decide) same).elim
  · next same => exact (unmarked (by decide) same).elim
  · next same => exact (unsigned rfl same).elim
  · next same => exact (unsigned rfl same).elim
  · rfl

theorem bigInt_digits (digits : Text.Digits text) (filled : text ≠ []) : bigInt text = some (Text.digitsValue text : Int) := by
  rw [← readNumeral_digits digits filled]
  obtain ⟨char, rest, rfl⟩ := List.exists_cons_of_ne_nil filled
  refine bigInt_unprefixed (fun other member => isSpace_of_isDigit (digits other member)) (digits char List.mem_cons_self) ?_
  rintro mark marked others rfl
  have digit := digits mark (by simp)
  have letter : Text.isDigit mark = false := by
    simp only [List.mem_cons, List.not_mem_nil, or_false] at marked
    rcases marked with rfl | rfl | rfl | rfl | rfl | rfl <;> rfl
  rw [letter] at digit
  cases digit

/-- `BigInt` throws at an exponent. -/
theorem bigInt_exponent {char sign : Char} {exponent : Text} (digit : Text.isDigit char = true)
    (signed : sign = '-' ∨ sign = '+') (digits : Text.Digits exponent) : bigInt (char :: 'e' :: sign :: exponent) = none := by
  have unspaced : ∀ other ∈ char :: 'e' :: sign :: exponent, isSpace other = false := by
    intro other member
    rcases List.mem_cons.mp member with rfl | member
    · exact isSpace_of_isDigit digit
    rcases List.mem_cons.mp member with rfl | member
    · rfl
    rcases List.mem_cons.mp member with rfl | member
    · rcases signed with rfl | rfl <;> rfl
    · exact isSpace_of_isDigit (digits other member)
  have plain : ∀ mark ∈ ['x', 'X', 'o', 'O', 'b', 'B'], ∀ digits, 'e' :: sign :: exponent ≠ mark :: digits := by
    rintro mark marked others same
    rw [← (List.cons.inj same).1] at marked
    exact absurd marked (by decide)
  have unsigned : Text.hexValue sign = none := by rcases signed with rfl | rfl <;> rfl
  have unspelled : Text.hexValues (char :: 'e' :: sign :: exponent) = none := by
    rw [Option.eq_none_iff_forall_ne_some]
    intro values spelled
    have read := Text.hexValues_isSome.mp (Option.isSome_of_eq_some spelled) sign (by simp)
    rw [unsigned] at read
    cases read
  rw [bigInt_unprefixed unspaced digit plain, readNumeral, if_neg (List.cons_ne_nil _ _), unspelled]
  rfl

/-- Rounding an integer does not double it. -/
theorem nearestDouble_le (number : Nat) : nearestDouble number ≤ 2 * number := by
  rw [nearestDouble]
  split
  · omega
  · next large =>
    dsimp only
    set unit := 2 ^ (number.log2 - 52)
    have fits : unit ≤ number := by
      refine (Nat.pow_le_pow_right (by decide) (Nat.sub_le _ _)).trans (Nat.log2_self_le ?_)
      omega
    have low : number / unit * unit ≤ number := Nat.div_mul_le_self number unit
    split
    · rw [Nat.succ_mul]
      omega
    · omega

theorem parseFloat_digit {char : Char} {rest : Text} (digit : Text.isDigit char = true) :
    parseFloat (char :: rest) = toNumber (char :: rest) := by
  rw [parseFloat, List.dropWhile_cons, isSpace_of_isDigit digit]
  split
  · next same =>
    rw [(List.cons.inj same).1] at digit
    cases digit
  · next same =>
    rw [(List.cons.inj same).1] at digit
    cases digit
  · rfl

/-- A number that is printed with a point is read in ECX. -/
theorem ecxToSats_point (config : Config) (nonnegative : 0 ≤ double) (fixed : Double.nearest double = some double)
    (point : '.' ∈ Text.printNumber double) :
    ecxToSats { config with decimalSats } (some (Text.printNumber double)) =
      (Double.nearest (double * 100000000)).map Int.floor := by
  obtain ⟨char, rest, digit, printed⟩ := @Text.printNumber_head double
  have read : parseFloat (Text.printNumber double) = some double := by
    rw [printed, parseFloat_digit digit, ← printed]
    exact Text.decimalValue_printNumber nonnegative fixed
  rw [ecxToSats]
  dsimp only
  rw [if_pos point, decimalSats, read, Option.bind_some]

/-- Another number is read in wei, or not at all. -/
theorem ecxToSats_pointless (config : Config) (nonnegative : 0 ≤ double) (fixed : Double.nearest double = some double)
    (pointless : '.' ∉ Text.printNumber double) :
    ecxToSats { config with decimalSats } (some (Text.printNumber double)) = some 0 ∨
    ∃ wei : Nat, Double.nearest wei = some double ∧
      ecxToSats { config with decimalSats } (some (Text.printNumber double)) = some (nearestDouble (wei / satsToEcx) : Int) := by
  obtain ⟨char, rest, digit, printed⟩ := @Text.printNumber_head double
  rw [ecxToSats]
  dsimp only
  rw [if_neg pointless]
  obtain digits | ⟨char, sign, exponent, digit, signed, others, scientific⟩ := Text.printNumber_pointless pointless
  · have filled : Text.printNumber double ≠ [] := by
      rw [printed]
      exact List.cons_ne_nil _ _
    have read := Text.decimalValue_printNumber nonnegative fixed
    rw [Text.decimalValue_digits digits filled, Option.bind_some] at read
    refine .inr ⟨_, read, ?_⟩
    rw [bigInt_digits digits filled]
    dsimp only
    rw [← Int.ofNat_tdiv, Int.natAbs_natCast]
    rcases Nat.eq_zero_or_pos (Text.digitsValue (Text.printNumber double) / satsToEcx) with zero | positive
    · rw [zero]
      rfl
    · rw [Int.sign_natCast_of_ne_zero positive.ne', one_mul]
  · rw [scientific, bigInt_exponent digit signed others]
    exact .inl rfl

/-- Read in wei, an amount of at least one ECX is paid less than was burned. -/
theorem paid_lt_burned {read wei : Nat} (nonnegative : 0 ≤ number) (positive : double ≠ 0)
    (found : Double.nearest number = some double) (same : Double.nearest read = some double)
    (parsed : ⌊number * 10 ^ 18⌋ ≤ wei) : satsToEcx ≤ wei ∧ nearestDouble (read / satsToEcx) < wei / satsToEcx := by
  have least : 1 ≤ read := by
    rw [Nat.one_le_iff_ne_zero]
    rintro rfl
    rw [Nat.cast_zero, Double.nearest_zero] at same
    exact positive (Option.some.inj same).symm
  have cast : (1 : ℚ) ≤ read := by exact_mod_cast least
  -- Both numbers round to one double, so they are of one size; the wei of an ECX are far more.
  have coarse := abs_le.mp (Double.nearest_coarse (Nat.cast_nonneg read) same)
  have near := abs_le.mp (Double.nearest_coarse nonnegative found)
  have size : (read : ℚ) ≤ 6 * number := by linarith [coarse.1, near.2]
  have burned : ((read * 10 ^ 17 : Nat) : ℚ) ≤ number * 10 ^ 18 := by
    push_cast
    linarith
  have enough : read * 10 ^ 17 ≤ wei := by
    have floor : ((read * 10 ^ 17 : Nat) : Int) ≤ ⌊number * 10 ^ 18⌋ := Int.le_floor.mpr (by exact_mod_cast burned)
    exact_mod_cast floor.trans parsed
  have unit : satsToEcx = 10 ^ 10 := rfl
  have part : read / satsToEcx ≤ read := Nat.div_le_self _ _
  have sats : read * 10 ^ 7 ≤ wei / satsToEcx := by
    rw [Nat.le_div_iff_mul_le (by decide), unit, Nat.mul_assoc, ← Nat.pow_add]
    exact enough
  have rounded := nearestDouble_le (read / satsToEcx)
  omega

/-- An infinite amount is some ECX, too. -/
theorem infinite_burned {wei : Nat} (nonnegative : 0 ≤ number) (infinite : Double.nearest number = none)
    (parsed : ⌊number * 10 ^ 18⌋ ≤ wei) : satsToEcx ≤ wei := by
  have large := Double.one_le_of_nearest nonnegative infinite
  have floor : (10 ^ 18 : Int) ≤ ⌊number * 10 ^ 18⌋ := by
    rw [Int.le_floor]
    push_cast
    linarith
  have enough : 10 ^ 18 ≤ wei := by exact_mod_cast floor.trans parsed
  have unit : satsToEcx = 10 ^ 10 := rfl
  omega

/-- The federation pays the satoshis that were burned for exactly the amounts that it
reads in ECX. -/
theorem paid_eq_burned_iff (config : Config) (parseEther : Text → Nat) (parses : ParsesEther parseEther)
    (amount : Text) (valid : amountValid amount = true) :
    ecxToSats { config with decimalSats } (readBack amount) = some ((parseEther amount / satsToEcx : Nat) : Int) ↔
      ReadInEcx amount (parseEther amount) := by
  obtain ⟨decimal, positive⟩ := (Bool.and_eq_true _ _).mp valid
  obtain ⟨number, read⟩ := Text.decimalValue_isSome (isDecimal_digits decimal)
  have nonnegative := Text.decimalValue_nonneg read
  have parsed := parses.low amount number decimal read
  have below : parseEther amount / satsToEcx = 0 ↔ parseEther amount < satsToEcx := Nat.div_eq_zero_iff_lt (by decide)
  rw [readBack_eq decimal]
  cases found : toNumber amount with
  -- Infinity is stored, JSON has null for it, and nothing is paid.
  | none =>
    have infinite : Double.nearest number = none := by rwa [toNumber, read] at found
    have burned := infinite_burned nonnegative infinite parsed
    rw [Option.map_none, show ecxToSats { config with decimalSats } none = some ((0 : Nat) : Int) from rfl,
      Option.some.injEq, Nat.cast_inj, eq_comm, below]
    constructor
    · intro less
      omega
    · rintro (⟨double, finite, -⟩ | ⟨-, less⟩)
      · rw [found] at finite
        cases finite
      · exact less
  | some double =>
    have rounded : Double.nearest number = some double := by rwa [toNumber, read] at found
    have fixed := toNumber_double found
    have doubleNonneg := toNumber_nonneg found
    have condition : ReadInEcx amount (parseEther amount) ↔
        ('.' ∈ Text.printNumber double ∧ Double.HasFloor (double * 100000000) (parseEther amount / satsToEcx : Nat)) ∨
          ('.' ∉ Text.printNumber double ∧ parseEther amount < satsToEcx) := by
      simp [ReadInEcx, found]
    rw [Option.map_some, condition]
    -- The federation decides by the point whether the amount is in ECX or in wei.
    by_cases point : '.' ∈ Text.printNumber double
    · rw [ecxToSats_point config doubleNonneg fixed point, Double.floor_nearest_iff]
      simp only [point, true_and, not_true_eq_false, false_and, or_false]
    · simp only [point, false_and, not_false_eq_true, true_and, false_or]
      obtain unread | ⟨wei, same, paid⟩ := ecxToSats_pointless config doubleNonneg fixed point
      · rw [unread, ← below, Option.some.injEq, eq_comm]
        exact Nat.cast_eq_zero
      · -- The form accepts no zero, so the payment in wei is too small.
        have nonzero : double ≠ 0 := by
          rintro rfl
          exact of_decide_eq_true positive found
        obtain ⟨large, less⟩ := paid_lt_burned nonnegative nonzero rounded same parsed
        rw [paid, Option.some.injEq, Nat.cast_inj]
        omega

end

/-- Ether in wei, with more than 18 decimals cut off. -/
def truncateEther (amount : Text) : Nat :=
  (Text.decimalValue amount).elim 0 fun number => ⌊number * 10 ^ 18⌋.toNat

theorem truncateEther_parses : ParsesEther truncateEther := by
  have value (amount : Text) (number : ℚ) (read : Text.decimalValue amount = some number) :
      (truncateEther amount : Int) = ⌊number * 10 ^ 18⌋ := by
    have nonnegative := Text.decimalValue_nonneg read
    rw [truncateEther, read]
    exact Int.toNat_of_nonneg (Int.floor_nonneg.mpr (by positivity))
  constructor
  · intro amount number _ read
    exact (value amount number read).ge
  · intro amount number _ read
    exact (value amount number read).le.trans (Int.floor_le_ceil _)

/-- Half an ECX. -/
theorem paid_eq_burned_iff_sample : amountValid "0.5".toList = true ∧ truncateEther "0.5".toList = 5 * 10 ^ 17 ∧
    ecxToSats { sampleConfig with decimalSats } (readBack "0.5".toList) =
      some ((truncateEther "0.5".toList / satsToEcx : Nat) : Int) := by
  refine ⟨by decide +kernel, by decide +kernel, ?_⟩
  refine (paid_eq_burned_iff sampleConfig truncateEther truncateEther_parses "0.5".toList (by decide +kernel)).mpr ?_
  refine .inl ⟨1 / 2, by decide +kernel, by decide +kernel, ?_⟩
  unfold Double.HasFloor
  decide +kernel

/-- One ECX is stored as the integer 1 and read as one wei. -/
theorem one_ecx_paid_nothing : amountValid "1".toList = true ∧ ParsesEther truncateEther ∧
    truncateEther "1".toList = 10 ^ 18 ∧ readBack "1".toList = some "1".toList ∧
    ecxToSats { sampleConfig with decimalSats } (readBack "1".toList) = some 0 ∧
    ecxToSats { sampleConfig with decimalSats } (readBack "1".toList) ≠
      some ((truncateEther "1".toList / satsToEcx : Nat) : Int) := by
  exact ⟨by decide +kernel, truncateEther_parses, by decide +kernel, by decide +kernel, by decide +kernel, by decide +kernel⟩

end Snowside
