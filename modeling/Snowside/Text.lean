import Snowside.Numeral.BigEndian

/-! The string and number operations of JavaScript that the bridge relies on.

Text is a list of Unicode characters, as table columns and JSON bodies hold it.
-/

set_option autoImplicit false

namespace Snowside

abbrev Text := List Char

namespace Text

/-- `length`: JavaScript counts UTF-16 units, two above the basic plane. -/
def utf16Length (text : Text) : Nat :=
  (text.map fun char => if char.toNat < 0x10000 then 1 else 2).sum

def padStart (text : Text) (count : Nat) (fill : Char) : Text :=
  List.replicate (count - utf16Length text) fill ++ text

/-- `replace(pattern, '')`: only the first occurrence goes. -/
def removeFirst (pattern : Text) : Text → Text
  | [] => []
  | char :: rest =>
      if pattern.isPrefixOf (char :: rest) then (char :: rest).drop pattern.length
      else char :: removeFirst pattern rest

theorem removeFirst_absent {pattern text : Text} {mark : Char} (marked : mark ∈ pattern)
    (absent : mark ∉ text) : removeFirst pattern text = text := by
  induction text with
  | nil => rfl
  | cons char rest ih =>
    have no : ¬ pattern.isPrefixOf (char :: rest) = true := fun is_prefix =>
      absent ((List.isPrefixOf_iff_prefix.mp is_prefix).subset marked)
    rw [removeFirst, if_neg no, ih fun member => absent (List.mem_cons_of_mem char member)]

/-- `replace(/^0x/, '')`. -/
def dropHexPrefix (text : Text) : Text := if ['0', 'x'] <+: text then text.drop 2 else text

def lowerAscii (char : Char) : Char :=
  if 'A' ≤ char ∧ char ≤ 'Z' then Char.ofNat (char.toNat + 32) else char

/-! ## Hexadecimal -/

def hexValue (char : Char) : Option Nat :=
  if '0' ≤ char ∧ char ≤ '9' then some (char.toNat - 48)
  else if 'a' ≤ char ∧ char ≤ 'f' then some (char.toNat - 87)
  else if 'A' ≤ char ∧ char ≤ 'F' then some (char.toNat - 55)
  else none

def hexDigit (digit : Nat) : Char :=
  if digit < 10 then Char.ofNat (48 + digit) else Char.ofNat (87 + digit)

/-- `toString(radix)` of a non-negative integer. -/
def toRadix (radix number : Nat) : Text :=
  if number = 0 then ['0'] else (Numeral.spell radix number).map hexDigit

def toHex (number : Nat) : Text := toRadix 16 number

def hexValues (text : Text) : Option (List Nat) := text.mapM hexValue

/-- The bytes that hexadecimal text spells, two digits a byte. -/
def hexBytes (text : Text) : Option (List Nat) := (hexValues text).bind (Numeral.pairUp 16)

theorem hexValue_hexDigit {digit : Nat} (small : digit < 16) : hexValue (hexDigit digit) = some digit := by
  have all : ∀ digit < 16, hexValue (hexDigit digit) = some digit := by decide
  exact all digit small

theorem hexValue_lowerAscii {char : Char} (ascii : char.toNat < 128) :
    hexValue (lowerAscii char) = hexValue char := by
  have all : ∀ code < 128, hexValue (lowerAscii (Char.ofNat code)) = hexValue (Char.ofNat code) := by decide
  have same := all char.toNat ascii
  rwa [Char.ofNat_toNat] at same

theorem lowerAscii_eq_zero {char : Char} (ascii : char.toNat < 128) : lowerAscii char = '0' ↔ char = '0' := by
  have all : ∀ code < 128, lowerAscii (Char.ofNat code) = '0' ↔ Char.ofNat code = '0' := by decide
  have same := all char.toNat ascii
  rwa [Char.ofNat_toNat] at same

theorem lowerAscii_eq_x {char : Char} (ascii : char.toNat < 128) :
    lowerAscii char = 'x' ↔ char = 'x' ∨ char = 'X' := by
  have all : ∀ code < 128,
      lowerAscii (Char.ofNat code) = 'x' ↔ Char.ofNat code = 'x' ∨ Char.ofNat code = 'X' := by decide
  have same := all char.toNat ascii
  rwa [Char.ofNat_toNat] at same

theorem hexValues_eq_some {text : Text} {values : List Nat} :
    hexValues text = some values ↔ text.map hexValue = values.map some := by
  induction text generalizing values with
  | nil => cases values <;> simp [hexValues]
  | cons char rest ih =>
    have unfolded : hexValues (char :: rest) =
        (hexValue char).bind fun digit => (hexValues rest).bind fun tail => some (digit :: tail) := by
      simp [hexValues]
    rw [unfolded]
    cases values with
    | nil => simp [Option.bind_eq_some_iff]
    | cons digit tail =>
      simp only [Option.bind_eq_some_iff, Option.some.injEq, List.cons.injEq, List.map_cons, ← ih]
      constructor
      · rintro ⟨first, read, others, spelled, rfl, rfl⟩
        exact ⟨read, spelled⟩
      · rintro ⟨read, spelled⟩
        exact ⟨digit, read, tail, spelled, rfl, rfl⟩

theorem hexValues_isSome {text : Text} : (hexValues text).isSome ↔ ∀ char ∈ text, (hexValue char).isSome := by
  constructor
  · intro some char member
    obtain ⟨values, spelled⟩ := Option.isSome_iff_exists.mp some
    have read : hexValue char ∈ values.map Option.some :=
      hexValues_eq_some.mp spelled ▸ List.mem_map_of_mem member
    obtain ⟨digit, -, same⟩ := List.mem_map.mp read
    rw [← same]
    rfl
  · intro all
    induction text with
    | nil => rfl
    | cons char rest ih =>
      obtain ⟨digit, read⟩ := Option.isSome_iff_exists.mp (all char (by simp))
      obtain ⟨tail, spelled⟩ := Option.isSome_iff_exists.mp (ih fun c member => all c (by simp [member]))
      rw [show hexValues (char :: rest) = some (digit :: tail) from
        hexValues_eq_some.mpr (by simp [read, hexValues_eq_some.mp spelled])]
      rfl

theorem hexValues_length {text : Text} {values : List Nat} (spelled : hexValues text = some values) :
    values.length = text.length := by
  simpa using (congrArg List.length (hexValues_eq_some.mp spelled)).symm

theorem hexValue_bounds {char : Char} {digit : Nat} (read : hexValue char = some digit) :
    char.toNat < 128 ∧ digit < 16 := by
  have code (other : Char) : other.toNat = other.val.toNat := rfl
  simp only [hexValue, Char.le_def, UInt32.le_iff_toNat_le, ← code] at read
  split at read
  next between =>
    cases read
    have high : char.toNat ≤ 57 := between.2
    omega
  next =>
    split at read
    next between =>
      cases read
      have high : char.toNat ≤ 102 := between.2
      omega
    next =>
      split at read
      next between =>
        cases read
        have high : char.toNat ≤ 70 := between.2
        omega
      next => cases read

theorem hexValues_lt {text : Text} {values : List Nat} (spelled : hexValues text = some values) :
    ∀ digit ∈ values, digit < 16 := by
  intro digit member
  have read : some digit ∈ text.map hexValue :=
    hexValues_eq_some.mp spelled ▸ List.mem_map_of_mem member
  obtain ⟨char, -, same⟩ := List.mem_map.mp read
  exact (hexValue_bounds same).2

theorem hexValues_append {first rest : Text} {left right : List Nat}
    (front : hexValues first = some left) (back : hexValues rest = some right) :
    hexValues (first ++ rest) = some (left ++ right) := by
  rw [hexValues_eq_some] at *
  rw [List.map_append, List.map_append, front, back]

theorem hexValues_zeros (count : Nat) :
    hexValues (List.replicate count '0') = some (List.replicate count 0) := by
  rw [hexValues_eq_some, List.map_replicate, List.map_replicate]
  rfl

/-- The digits of `toRadix`, as numbers. -/
def radixDigits (radix number : Nat) : List Nat := if number = 0 then [0] else Numeral.spell radix number

def hexDigits (number : Nat) : List Nat := radixDigits 16 number

theorem hexValues_toRadix {radix : Nat} (large : 1 < radix) (bound : radix ≤ 16) (number : Nat) :
    hexValues (toRadix radix number) = some (radixDigits radix number) := by
  rw [hexValues_eq_some, toRadix, radixDigits]
  split
  · rfl
  · rw [List.map_map]
    exact List.map_congr_left fun digit member =>
      hexValue_hexDigit (Nat.lt_of_lt_of_le (Numeral.spell_lt large number digit member) bound)

theorem hexValues_toHex (number : Nat) : hexValues (toHex number) = some (hexDigits number) :=
  hexValues_toRadix (by decide) (by decide) number

@[simp] theorem value_radixDigits (radix number : Nat) :
    Numeral.value radix (radixDigits radix number) = number := by
  unfold radixDigits
  split
  next zero => subst zero; exact Numeral.value_singleton 0
  next => exact Numeral.value_spell number

@[simp] theorem value_hexDigits (number : Nat) : Numeral.value 16 (hexDigits number) = number :=
  value_radixDigits 16 number

theorem toRadix_injective {radix : Nat} (large : 1 < radix) (bound : radix ≤ 16) :
    Function.Injective (toRadix radix) := by
  intro first second same
  have digits := (hexValues_toRadix large bound first).symm.trans
    (same ▸ hexValues_toRadix large bound second)
  have values := congrArg (Numeral.value radix) (Option.some.inj digits)
  rwa [value_radixDigits, value_radixDigits] at values

theorem length_hexDigits_le {count : Nat} (positive : 0 < count) (number : Nat) :
    (hexDigits number).length ≤ count ↔ number < 16 ^ count := by
  unfold hexDigits radixDigits
  split
  next zero =>
    subst zero
    simp only [List.length_singleton]
    exact ⟨fun _ => by positivity, fun _ => positive⟩
  next => exact Numeral.length_spell_le (by decide) count number

theorem utf16Length_of_hex {text : Text} (hex : (hexValues text).isSome) : utf16Length text = text.length := by
  have ones : (text.map fun char => if char.toNat < 0x10000 then 1 else 2) = text.map fun _ => 1 := by
    apply List.map_congr_left
    intro char member
    obtain ⟨digit, read⟩ := Option.isSome_iff_exists.mp (hexValues_isSome.mp hex char member)
    have small := (hexValue_bounds read).1
    exact if_pos (by omega)
  rw [utf16Length, ones]
  simp

end Text

/-- `toLowerCase`. Its table beyond ASCII is Unicode's; of that part only this is
used, that a string with such a character keeps one that is neither a
hexadecimal digit nor an `x`. -/
structure LowerCase where
  apply : Text → Text
  ascii : ∀ text : Text, (∀ char ∈ text, char.toNat < 128) → apply text = text.map Text.lowerAscii
  other : ∀ text : Text, (∃ char ∈ text, 128 ≤ char.toNat) →
    ∃ char ∈ apply text, Text.hexValue char = none ∧ char ≠ 'x'

/-- Lower case of ASCII letters alone. -/
def LowerCase.basic : LowerCase where
  apply text := text.map fun char => if char.toNat < 128 then Text.lowerAscii char else char
  ascii text small := List.map_congr_left fun char member => if_pos (small char member)
  other text large := by
    obtain ⟨char, member, high⟩ := large
    refine ⟨char, List.mem_map.mpr ⟨char, member, if_neg (by omega)⟩, ?_, ?_⟩
    · by_contra read
      obtain ⟨digit, read⟩ := Option.ne_none_iff_exists'.mp read
      have low := (Text.hexValue_bounds read).1
      omega
    · rintro rfl
      exact absurd high (by decide)

end Snowside
