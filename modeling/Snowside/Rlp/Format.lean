import Snowside.Numeral.BigEndian

/-! Recursive length prefix, as far as lists of strings: what is written is read again. -/

set_option autoImplicit false

namespace Rlp

open Numeral (spell spellFixed value)

abbrev Bytes := List UInt8

/-! ## Numbers -/

/-- The shortest big-endian bytes. -/
def digits (number : Nat) : Bytes := (spell 256 number).map UInt8.ofNat

def number (contents : Bytes) : Nat := value 256 (contents.map UInt8.toNat)

/-- Leading zeros are refused. -/
def readNumber (contents : Bytes) : Option Nat := if contents.head? = some 0 then none else some (number contents)

/-- So many bytes, with leading zeros. -/
def fixedBytes (count : Nat) {width : Nat} (word : BitVec width) : Bytes := (spellFixed 256 count word.toNat).map UInt8.ofNat

def readFixed (count width : Nat) (contents : Bytes) : Option (BitVec width) :=
  if contents.length = count then some (.ofNat width (number contents)) else none

@[simp] theorem number_digits (count : Nat) : number (digits count) = count := by
  rw [number, digits, Numeral.map_toNat_ofNat (Numeral.spell_lt (by decide) count), Numeral.value_spell]

theorem head?_digits (count : Nat) : (digits count).head? ≠ some 0 := by
  intro zero
  have small : ∀ digit ∈ spell 256 count, digit < 256 := Numeral.spell_lt (by decide) count
  rw [digits, List.head?_map, Option.map_eq_some_iff] at zero
  obtain ⟨digit, first, zero⟩ := zero
  have member : digit ∈ spell 256 count := List.mem_of_mem_head? first
  have same : digit = 0 := by
    have := congrArg UInt8.toNat zero
    rwa [UInt8.toNat_ofNat_of_lt' (small digit member)] at this
  subst same
  -- The first of the digits is the last of those that begin with the lowest.
  rw [spell, List.head?_reverse] at first
  have nonzero : count ≠ 0 := by
    rintro rfl
    simp at first
  have last := Nat.getLast_digit_ne_zero 256 nonzero
  rw [List.getLast?_eq_some_getLast (Nat.digits_ne_nil_iff_ne_zero.mpr nonzero)] at first
  exact last (Option.some.inj first)

@[simp] theorem readNumber_digits (count : Nat) : readNumber (digits count) = some count := by
  rw [readNumber, if_neg (head?_digits count), number_digits]

@[simp] theorem readNumber_nil : readNumber [] = some 0 := rfl

theorem length_digits_le (bound count : Nat) : (digits count).length ≤ bound ↔ count < 256 ^ bound := by
  rw [digits, List.length_map, Numeral.length_spell_le (by decide)]

@[simp] theorem length_fixedBytes (count : Nat) {width : Nat} (word : BitVec width) : (fixedBytes count word).length = count := by
  rw [fixedBytes, List.length_map, Numeral.length_spellFixed]

theorem readFixed_fixedBytes {count width : Nat} (whole : width = 8 * count) (word : BitVec width) :
    readFixed count width (fixedBytes count word) = some word := by
  have size : 2 ^ width = 256 ^ count := by
    rw [whole, pow_mul]
    rfl
  rw [readFixed, if_pos (length_fixedBytes count word), number, fixedBytes,
    Numeral.map_toNat_ofNat (Numeral.spellFixed_lt (by decide) count _), Numeral.value_spellFixed, ← size,
    Nat.mod_eq_of_lt word.isLt, BitVec.ofNat_toNat, BitVec.setWidth_eq]

/-! ## Strings and lists -/

/-- What comes before so many bytes of one kind. -/
def header (offset size : Nat) : Bytes :=
  if size < 56 then [.ofNat (offset + size)] else .ofNat (offset + 55 + (digits size).length) :: digits size

/-- One byte below 128 stands for itself. -/
def Plain (contents : Bytes) : Prop := ∃ byte, contents = [byte] ∧ byte < 0x80

instance (contents : Bytes) : Decidable (Plain contents) :=
  match contents with
  | [] => .isFalse fun ⟨_, impossible, _⟩ => (by cases impossible)
  | [byte] => if small : byte < 0x80 then .isTrue ⟨byte, rfl, small⟩
      else .isFalse fun ⟨_, same, small'⟩ => small (by cases same; exact small')
  | _ :: _ :: _ => .isFalse fun ⟨_, impossible, _⟩ => (by cases impossible)

def string (contents : Bytes) : Bytes := if Plain contents then contents else header 0x80 contents.length ++ contents

def list (payload : Bytes) : Bytes := header 0xc0 payload.length ++ payload

/-- The size that a header announces, and what follows it. -/
def readHeader (offset : Nat) : Bytes → Option (Nat × Bytes)
  | [] => none
  | first :: rest =>
      if first.toNat < offset ∨ offset + 64 ≤ first.toNat then none
      else if first.toNat < offset + 56 then some (first.toNat - offset, rest)
      else if rest.length < first.toNat - offset - 55 then none
      else do
        let size ← readNumber (rest.take (first.toNat - offset - 55))
        -- A short size is not written so.
        if size < 56 then none else some (size, rest.drop (first.toNat - offset - 55))

/-- The contents of the string that comes first, and what follows it. -/
def readString (bytes : Bytes) : Option (Bytes × Bytes) :=
  match bytes with
  | [] => none
  | first :: rest =>
      if first < 0x80 then some ([first], rest)
      else do
        let (size, body) ← readHeader 0x80 bytes
        if body.length < size ∨ Plain (body.take size) then none else some (body.take size, body.drop size)

/-- Strings up to the end. -/
def readStrings : Nat → Bytes → Option (List Bytes)
  | _, [] => some []
  | 0, _ :: _ => none
  | fuel + 1, first :: after => do
      let (contents, rest) ← readString (first :: after)
      let more ← readStrings fuel rest
      some (contents :: more)

/-- The contents of the strings in a list, and nothing after it. -/
def elements (bytes : Bytes) : Option (List Bytes) := do
  let (size, payload) ← readHeader 0xc0 bytes
  if payload.length = size then readStrings size payload else none

/-! ## Round trips -/

theorem byteSize {size : Nat} (small : size < 256) : size < UInt8.size := small

theorem readHeader_header {offset size : Nat} (small : offset ≤ 0xc0) (fits : size < 2 ^ 64) (rest : Bytes) :
    readHeader offset (header offset size ++ rest) = some (size, rest) := by
  unfold header
  by_cases short : size < 56
  · have byte : (UInt8.ofNat (offset + size)).toNat = offset + size := UInt8.toNat_ofNat_of_lt' (byteSize (by omega))
    rw [if_pos short, List.singleton_append, readHeader, byte, if_neg (by omega), if_pos (by omega)]
    simp
  · have width : (digits size).length ≤ 8 := (length_digits_le 8 size).mpr (by omega)
    have long : ¬ (digits size).length ≤ 0 := by
      rw [length_digits_le]
      omega
    have byte : (UInt8.ofNat (offset + 55 + (digits size).length)).toNat = offset + 55 + (digits size).length :=
      UInt8.toNat_ofNat_of_lt' (byteSize (by omega))
    have announced : offset + 55 + (digits size).length - offset - 55 = (digits size).length := by omega
    rw [if_neg short, List.cons_append, readHeader, byte, if_neg (by omega), if_neg (by omega), announced,
      if_neg (by rw [List.length_append]; omega), List.take_left, List.drop_left, readNumber_digits]
    exact if_neg short

/-- What comes before a string that does not stand for itself is no such string. -/
theorem header_cons {size : Nat} (fits : size < 2 ^ 64) : ∃ first after, header 0x80 size = first :: after ∧ ¬ first < 0x80 := by
  unfold header
  by_cases short : size < 56
  · refine ⟨_, _, if_pos short, ?_⟩
    rw [UInt8.lt_iff_toNat_lt, UInt8.toNat_ofNat_of_lt' (byteSize (by omega))]
    exact Nat.not_lt.mpr (Nat.le_add_right ..)
  · have width : (digits size).length ≤ 8 := (length_digits_le 8 size).mpr (by omega)
    refine ⟨_, _, if_neg short, ?_⟩
    rw [UInt8.lt_iff_toNat_lt, UInt8.toNat_ofNat_of_lt' (byteSize (by omega)), Nat.add_assoc]
    exact Nat.not_lt.mpr (Nat.le_add_right ..)

theorem readString_string {contents : Bytes} (fits : contents.length < 2 ^ 64) (rest : Bytes) :
    readString (string contents ++ rest) = some (contents, rest) := by
  unfold string
  by_cases plain : Plain contents
  · rw [if_pos plain]
    obtain ⟨byte, rfl, small⟩ := plain
    exact if_pos small
  · rw [if_neg plain, List.append_assoc]
    have read := readHeader_header (show 0x80 ≤ 0xc0 by decide) fits (contents ++ rest)
    obtain ⟨first, after, split, large⟩ := header_cons fits
    rw [split, List.cons_append] at read ⊢
    rw [readString, if_neg large, read]
    simp only [Option.bind_eq_bind, Option.bind_some, List.take_left, List.drop_left]
    exact if_neg (by rw [List.length_append]; exact fun failed => failed.elim (by omega) plain)

theorem string_ne_nil (contents : Bytes) : string contents ≠ [] := by
  unfold string
  by_cases plain : Plain contents
  · rw [if_pos plain]
    obtain ⟨byte, rfl, _⟩ := plain
    exact List.cons_ne_nil _ _
  · rw [if_neg plain, header]
    split <;> simp

theorem readStrings_flatMap {fuel : Nat} {contents : List Bytes} (enough : contents.length ≤ fuel)
    (fits : ∀ one ∈ contents, one.length < 2 ^ 64) : readStrings fuel (contents.flatMap string) = some contents := by
  induction contents generalizing fuel with
  | nil => cases fuel <;> rfl
  | cons first rest ih =>
    obtain ⟨fuel, rfl⟩ : ∃ less, fuel = less + 1 := ⟨fuel - 1, by rw [List.length_cons] at enough; omega⟩
    have read := readString_string (fits first (List.mem_cons_self ..)) (rest.flatMap string)
    have fewer : rest.length ≤ fuel := by
      rw [List.length_cons] at enough
      omega
    have more := ih fewer fun one member => fits one (List.mem_cons_of_mem _ member)
    rw [List.flatMap_cons]
    obtain ⟨byte, after, split⟩ := List.exists_cons_of_ne_nil (l := string first ++ rest.flatMap string) (by simp [string_ne_nil])
    rw [split] at read ⊢
    rw [readStrings, read]
    simp only [Option.bind_eq_bind, Option.bind_some, more]

theorem length_le_string (contents : Bytes) : contents.length ≤ (string contents).length := by
  unfold string
  split
  · exact Nat.le_refl _
  · rw [List.length_append]
    omega

theorem length_le_flatMap (contents : List Bytes) : contents.length ≤ (contents.flatMap string).length := by
  induction contents with
  | nil => exact Nat.le_refl _
  | cons first rest ih =>
    have some_bytes := List.length_pos_iff.mpr (string_ne_nil first)
    rw [List.flatMap_cons, List.length_append, List.length_cons]
    omega

/-- A list of strings is read as it was written. -/
theorem elements_list {contents : List Bytes} (fits : (list (contents.flatMap string)).length < 2 ^ 64) :
    elements (list (contents.flatMap string)) = some contents := by
  have payload : (contents.flatMap string).length < 2 ^ 64 := by
    rw [list, List.length_append] at fits
    omega
  have read := readHeader_header (Nat.le_refl 0xc0) payload (contents.flatMap string)
  rw [elements, list, read]
  simp only [Option.bind_eq_bind, Option.bind_some, if_true]
  have each : ∀ one ∈ contents, one.length ≤ (contents.flatMap string).length := fun one member =>
    (length_le_string one).trans (List.Sublist.length_le (List.sublist_flatten_of_mem (List.mem_map_of_mem member)))
  exact readStrings_flatMap (length_le_flatMap contents) fun one member => Nat.lt_of_le_of_lt (each one member) payload

/-! ## Fields that may be missing at the end -/

/-- What is written of them: up to the last that is there, with an empty string for those before it that are not. -/
def trailing : List (Option Bytes) → List Bytes
  | [] => []
  | field :: rest => if field.isSome || rest.any Option.isSome then field.getD [] :: trailing rest else []

/-- None that is there comes after one that is not. -/
def Leading : List (Option Bytes) → Prop
  | [] => True
  | field :: rest => (field = none → rest.any Option.isSome = false) ∧ Leading rest

theorem trailing_nil : trailing [] = [] := rfl

theorem trailing_missing {fields : List (Option Bytes)} (missing : fields.any Option.isSome = false) : trailing fields = [] := by
  cases fields with
  | nil => rfl
  | cons field rest =>
    rw [List.any_cons] at missing
    rw [trailing, missing]
    rfl

theorem flatMap_trailing_cons (write : Bytes → Bytes) (field : Option Bytes) (rest : List (Option Bytes)) :
    (trailing (field :: rest)).flatMap write =
      (if field.isSome || rest.any Option.isSome then write (field.getD []) else []) ++ (trailing rest).flatMap write := by
  rw [trailing]
  by_cases there : (field.isSome || rest.any Option.isSome) = true
  · rw [if_pos there, if_pos there, List.flatMap_cons]
  · rw [if_neg there, if_neg there, trailing_missing (Bool.or_eq_false_iff.mp (Bool.eq_false_iff.mpr there)).2]
    rfl

theorem length_trailing_le (fields : List (Option Bytes)) : (trailing fields).length ≤ fields.length := by
  induction fields with
  | nil => exact Nat.le_refl _
  | cons field rest ih =>
    rw [trailing]
    split
    · exact Nat.succ_le_succ ih
    · exact Nat.zero_le _

theorem any_of_getElem? {fields : List (Option Bytes)} {index : Nat} {contents : Bytes} (found : fields[index]? = some (some contents)) :
    fields.any Option.isSome := List.any_eq_true.mpr ⟨_, List.mem_of_getElem? found, rfl⟩

/-- A field that is there is written in its place. -/
theorem trailing_getElem?_some {fields : List (Option Bytes)} {index : Nat} {contents : Bytes}
    (found : fields[index]? = some (some contents)) : (trailing fields)[index]? = some contents := by
  induction fields generalizing index with
  | nil => cases found
  | cons field rest ih =>
    have there : (field.isSome || rest.any Option.isSome) = true := by
      rw [← List.any_cons]
      exact any_of_getElem? found
    rw [trailing, if_pos there]
    cases index with
    | zero =>
      obtain rfl : field = some contents := Option.some.inj found
      rfl
    | succ index => exact ih found

/-- What is not there is read as missing exactly if nothing comes after it. -/
theorem leading_iff {fields : List (Option Bytes)} :
    Leading fields ↔ ∀ index : Nat, fields[index]? = some none → (trailing fields)[index]? = none := by
  induction fields with
  | nil => exact ⟨fun _ _ _ => rfl, fun _ => trivial⟩
  | cons field rest ih =>
    rw [Leading, ih]
    constructor
    · intro ⟨first, later⟩ index missing
      by_cases there : (field.isSome || rest.any Option.isSome) = true
      · rw [trailing, if_pos there]
        cases index with
        | zero =>
          obtain rfl : field = none := Option.some.inj missing
          rw [first rfl] at there
          cases there
        | succ index => exact later index missing
      · rw [trailing, if_neg there]
        rfl
    · intro reads
      refine ⟨fun missing => ?_, fun index missing => ?_⟩
      · subst missing
        by_contra there
        have absent := reads 0 rfl
        rw [trailing, if_pos (by rw [Bool.not_eq_false] at there; rw [there]; rfl)] at absent
        cases absent
      · have absent := reads (index + 1) missing
        rw [trailing] at absent
        by_cases there : (field.isSome || rest.any Option.isSome) = true
        · rwa [if_pos there] at absent
        · rw [trailing_missing (Bool.or_eq_false_iff.mp (Bool.eq_false_iff.mpr there)).2]
          rfl

theorem Leading.getElem? {fields : List (Option Bytes)} (leading : Leading fields) (index : Nat) :
    (trailing fields)[index]? = fields[index]?.join := by
  cases found : fields[index]? with
  | none =>
    have long := List.getElem?_eq_none_iff.mp found
    exact List.getElem?_eq_none_iff.mpr ((length_trailing_le fields).trans long)
  | some field =>
    cases field with
    | none => exact leading_iff.mp leading index found
    | some contents => exact trailing_getElem?_some found

end Rlp
