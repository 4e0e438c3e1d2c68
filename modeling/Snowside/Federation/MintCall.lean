import Snowside.Api.Tables
import Snowside.Precompile.NativeMinter

/-! The call data of a mint, from the federation's encoder to the precompile's
decoder. The encoder pads and concatenates text; the decoder reads words. -/

set_option autoImplicit false

namespace Snowside

open Numeral Text

/-- Wei of one satoshi. -/
def satsToEcx : Nat := 10 ^ 10

def mintSelector : Text := "0x4f5aaaba".toList

/-- The digits of an address as the call data takes them, before padding. -/
def addressDigits (lower : LowerCase) (toAddress : Text) : Text :=
  dropHexPrefix (lower.apply toAddress)

def encodeMintCall (lower : LowerCase) (toAddress : Text) (amount : Nat) : Text :=
  mintSelector ++ (padStart (addressDigits lower toAddress) 64 '0' ++ padStart (toHex amount) 64 '0')

/-- The bytes of call data; text that spells none is refused by the RPC. -/
def callBytes : Text → Option (List Nat)
  | '0' :: 'x' :: digits => hexBytes digits
  | _ => none

/-- Recipient and wei of the mint that call data brings about, if any. -/
def mintOf (data : Text) : Option (Nat × Nat) :=
  (callBytes data).bind fun bytes => (NativeMinter.decodeMint bytes false).toOption

/-- Either spelling of the hexadecimal mark removed. -/
def stripHexMark (text : Text) : Text :=
  if ['0', 'x'] <+: text ∨ ['0', 'X'] <+: text then text.drop 2 else text

/-- The 20-byte address that a string spells: forty digits, after an optional `0x`. -/
def spelledAddress (text : Text) : Option Nat :=
  if (stripHexMark text).length = 40 then (hexValues (stripHexMark text)).map (value 16) else none

/-! ## What the digits of a mint call spell -/

def selectorDigits : List Nat := [4, 15, 5, 10, 10, 10, 11, 10]

/-- Left padding to the 64 digits of a word; longer digits stay as they are. -/
def padWord (digits : List Nat) : List Nat := List.replicate (64 - digits.length) 0 ++ digits

theorem padWord_length (digits : List Nat) : (padWord digits).length = max 64 digits.length := by
  simp only [padWord, List.length_append, List.length_replicate]
  omega

@[simp] theorem value_padWord (digits : List Nat) : value 16 (padWord digits) = value 16 digits :=
  value_zeros_append _ _

theorem hexValues_padStart {text : Text} {digits : List Nat} (spelled : hexValues text = some digits) :
    hexValues (padStart text 64 '0') = some (padWord digits) := by
  have size : utf16Length text = digits.length := by
    rw [hexValues_length spelled, utf16Length_of_hex (by rw [spelled]; rfl)]
  rw [padStart, size]
  exact hexValues_append (hexValues_zeros _) spelled

section
variable (lower : LowerCase) (toAddress : Text) (amount : Nat)

theorem callBytes_encodeMintCall {digits : List Nat}
    (spelled : hexValues (addressDigits lower toAddress) = some digits) :
    callBytes (encodeMintCall lower toAddress amount) =
      pairUp 16 (selectorDigits ++ (padWord digits ++ padWord (hexDigits amount))) := by
  have whole := hexValues_append (show hexValues "4f5aaaba".toList = some selectorDigits by decide)
    (hexValues_append (hexValues_padStart spelled) (hexValues_padStart (hexValues_toHex amount)))
  change (hexValues ("4f5aaaba".toList ++ _)).bind (pairUp 16) = _
  rw [whole, Option.bind_some]

theorem callBytes_encodeMintCall_none (garbled : hexValues (addressDigits lower toAddress) = none) :
    callBytes (encodeMintCall lower toAddress amount) = none := by
  change (hexValues ("4f5aaaba".toList ++ (_ ++ _))).bind (pairUp 16) = none
  rw [Option.bind_eq_none_iff]
  intro values spelled
  have parts : ∀ char ∈ addressDigits lower toAddress, (hexValue char).isSome := by
    intro char member
    refine hexValues_isSome.mp (by rw [spelled]; rfl) char ?_
    simp [padStart, member]
  rw [← hexValues_isSome, garbled] at parts
  cases parts

theorem mintOf_encodeMintCall_none (garbled : hexValues (addressDigits lower toAddress) = none) :
    mintOf (encodeMintCall lower toAddress amount) = none := by
  rw [mintOf, callBytes_encodeMintCall_none lower toAddress amount garbled, Option.bind_none]

/-- Only an address of hexadecimal digits gets something minted. -/
theorem spelled_of_mintOf {minted : Nat × Nat} (mints : mintOf (encodeMintCall lower toAddress amount) = some minted) :
    ∃ digits, hexValues (addressDigits lower toAddress) = some digits := by
  cases spelled : hexValues (addressDigits lower toAddress) with
  | none =>
    rw [mintOf_encodeMintCall_none lower toAddress amount spelled] at mints
    cases mints
  | some digits => exact ⟨digits, rfl⟩

/-- The decoder takes digits 24 to 64 after the selector as the recipient and
the next 64 as the amount, wherever the padded parts happen to end. -/
theorem mintOf_encodeMintCall {digits : List Nat}
    (spelled : hexValues (addressDigits lower toAddress) = some digits)
    (even : ((padWord digits).length + (padWord (hexDigits amount)).length) % 2 = 0) :
    mintOf (encodeMintCall lower toAddress amount) =
      some (value 16 (((padWord digits).drop 24).take 40),
        value 16 (((padWord digits ++ padWord (hexDigits amount)).drop 64).take 64)) := by
  have sizes := And.intro (padWord_length digits) (padWord_length (hexDigits amount))
  set address := padWord digits
  set wei := padWord (hexDigits amount)
  obtain ⟨bytes, paired⟩ := Option.isSome_iff_exists.mp
    ((pairUp_isSome 16 (selectorDigits ++ (address ++ wei))).mpr (by
      simp only [List.length_append, selectorDigits, List.length_cons, List.length_nil]; omega))
  have size := pairUp_length paired
  simp only [List.length_append, selectorDigits, List.length_cons, List.length_nil] at size
  -- The selector and both words are read at fixed places, two digits for a byte.
  have selector : bytes.take NativeMinter.selectorLen = NativeMinter.mintNativeCoinSelector := by
    have front := pairUp_take paired 4
    exact (Option.some.inj ((show pairUp 16 selectorDigits = some NativeMinter.mintNativeCoinSelector by
      decide).symm.trans front)).symm
  have recipient := pairUp_value (pairUp_take (pairUp_drop paired 16) 20)
  have minted := pairUp_value (pairUp_take (pairUp_drop paired 36) 32)
  have decoded := NativeMinter.decodeMint_of_words selector (by
    simp only [NativeMinter.selectorLen, NativeMinter.mintInputLen]; omega)
  rw [mintOf, callBytes_encodeMintCall lower toAddress amount spelled, paired, Option.bind_some, decoded]
  change some (value (16 * 16) _, value (16 * 16) _) = _
  rw [show NativeMinter.selectorLen + 12 = 16 from rfl, show NativeMinter.selectorLen + 32 = 36 from rfl,
    recipient, minted]
  have first : (selectorDigits ++ (address ++ wei)).drop (2 * 16) = address.drop 24 ++ wei := by
    rw [List.drop_append_of_le_length (by omega : 24 ≤ address.length) |>.symm]
    rfl
  have second : (selectorDigits ++ (address ++ wei)).drop (2 * 36) = (address ++ wei).drop 64 := rfl
  rw [first, second, List.take_append_of_le_length (by rw [List.length_drop]; omega)]

end

/-! ## When a mint does what its address string says -/

theorem dropHexPrefix_lowerAscii {text : Text} (ascii : ∀ char ∈ text, char.toNat < 128) :
    dropHexPrefix (text.map lowerAscii) = (stripHexMark text).map lowerAscii := by
  have same : ['0', 'x'] <+: text.map lowerAscii ↔ ['0', 'x'] <+: text ∨ ['0', 'X'] <+: text := by
    match text with
    | [] => simp
    | [char] => simp [List.cons_prefix_cons]
    | first :: second :: rest =>
      have zero := lowerAscii_eq_zero (ascii first (by simp))
      have mark := lowerAscii_eq_x (ascii second (by simp))
      simp only [List.map_cons, List.cons_prefix_cons, List.nil_prefix, and_true, @eq_comm Char '0',
        @eq_comm Char 'x', @eq_comm Char 'X', zero, mark]
      tauto
  rw [dropHexPrefix, stripHexMark]
  by_cases marked : ['0', 'x'] <+: text ∨ ['0', 'X'] <+: text
  · rw [if_pos marked, if_pos (same.mpr marked), List.map_drop]
  · rw [if_neg marked, if_neg (mt same.mp marked)]

/-- A string whose digits can be encoded spells an address exactly when they
are forty, whatever the case of its letters and of the `x`. -/
theorem spelledAddress_eq (lower : LowerCase) {toAddress : Text} {digits : List Nat}
    (spelled : hexValues (addressDigits lower toAddress) = some digits) :
    spelledAddress toAddress = if digits.length = 40 then some (value 16 digits) else none := by
  -- A letter outside ASCII leaves a character that is no digit in lower case.
  have ascii : ∀ char ∈ toAddress, char.toNat < 128 := by
    by_contra large
    push Not at large
    obtain ⟨char, member, notHex, notMark⟩ := lower.other toAddress large
    have kept : char ∈ addressDigits lower toAddress := by
      rw [addressDigits, dropHexPrefix]
      split
      next marked =>
        obtain ⟨rest, whole⟩ := marked
        rw [← whole] at member ⊢
        rcases List.mem_append.mp member with front | back
        · have cases : char = '0' ∨ char = 'x' := by simpa using front
          rcases cases with rfl | rfl
          · cases notHex
          · exact absurd rfl notMark
        · exact back
      next => exact member
    have read := hexValues_isSome.mp (by rw [spelled]; rfl) char kept
    rw [notHex] at read
    cases read
  rw [addressDigits, lower.ascii toAddress ascii, dropHexPrefix_lowerAscii ascii] at spelled
  have stripped : ∀ char ∈ stripHexMark toAddress, char.toNat < 128 := by
    intro char member
    apply ascii
    rw [stripHexMark] at member
    split at member
    · exact List.mem_of_mem_drop member
    · exact member
  have original : hexValues (stripHexMark toAddress) = some digits := by
    rw [hexValues_eq_some, ← hexValues_eq_some.mp spelled, List.map_map]
    exact List.map_congr_left fun char member => (hexValue_lowerAscii (stripped char member)).symm
  rw [spelledAddress, original, Option.map_some, hexValues_length original]

/-- The call is rejected, or it mints the amount asked for to the address spelled. -/
def MintsAsSpelled (lower : LowerCase) (toAddress : Text) (sats : Nat) : Prop :=
  match mintOf (encodeMintCall lower toAddress (sats * satsToEcx)) with
  | none => True
  | some (recipient, wei) => wei = sats * satsToEcx ∧ spelledAddress toAddress = some recipient

section
variable (lower : LowerCase) (toAddress : Text)

theorem mintOf_encodeMintCall_odd (amount : Nat) {digits : List Nat}
    (spelled : hexValues (addressDigits lower toAddress) = some digits)
    (odd : ((padWord digits).length + (padWord (hexDigits amount)).length) % 2 = 1) :
    mintOf (encodeMintCall lower toAddress amount) = none := by
  have unpaired : pairUp 16 (selectorDigits ++ (padWord digits ++ padWord (hexDigits amount))) = none := by
    rw [← Option.not_isSome_iff_eq_none, pairUp_isSome]
    simp only [List.length_append, selectorDigits, List.length_cons, List.length_nil]
    omega
  rw [mintOf, callBytes_encodeMintCall lower toAddress amount spelled, unpaired, Option.bind_none]

/-- Digits that fit the first word leave the second word to the amount. -/
theorem mintOf_encodeMintCall_fit (amount : Nat) {digits : List Nat}
    (spelled : hexValues (addressDigits lower toAddress) = some digits) (short : digits.length ≤ 64)
    (small : amount < 2 ^ 256) :
    mintOf (encodeMintCall lower toAddress amount) =
      some (value 16 ((padWord digits).drop 24), amount) := by
  have fits := (length_hexDigits_le (by decide : 0 < 64) amount).mpr (by
    rwa [show 16 ^ 64 = 2 ^ 256 from by norm_num])
  have address := padWord_length digits
  have wei := padWord_length (hexDigits amount)
  have second : ((padWord digits ++ padWord (hexDigits amount)).drop 64).take 64 = padWord (hexDigits amount) := by
    rw [List.drop_append_of_le_length (by omega), List.drop_of_length_le (by omega : (padWord digits).length ≤ 64),
      List.nil_append, List.take_of_length_le (by omega)]
  rw [mintOf_encodeMintCall lower toAddress amount spelled (by omega), second,
    List.take_of_length_le (by rw [List.length_drop]; omega), value_padWord, value_hexDigits]

theorem mintOf_encodeMintCall_amount (amount : Nat) {recipient wei : Nat}
    (short : (addressDigits lower toAddress).length ≤ 64) (small : amount < 2 ^ 256)
    (minted : mintOf (encodeMintCall lower toAddress amount) = some (recipient, wei)) : wei = amount := by
  obtain ⟨digits, spelled⟩ := spelled_of_mintOf lower toAddress amount minted
  rw [mintOf_encodeMintCall_fit lower toAddress amount spelled
    (by rw [hexValues_length spelled]; exact short) small] at minted
  cases minted
  rfl

/-- The second word is one word. -/
theorem mintOf_encodeMintCall_lt (amount : Nat) {recipient wei : Nat}
    (minted : mintOf (encodeMintCall lower toAddress amount) = some (recipient, wei)) : wei < 2 ^ 256 := by
  obtain ⟨digits, spelled⟩ := spelled_of_mintOf lower toAddress amount minted
  rcases Nat.mod_two_eq_zero_or_one ((padWord digits).length + (padWord (hexDigits amount)).length)
    with even | odd
  · rw [mintOf_encodeMintCall lower toAddress amount spelled even] at minted
    cases minted
    have small : ∀ digit ∈ ((padWord digits ++ padWord (hexDigits amount)).drop 64).take 64, digit < 16 := by
      intro digit member
      have inside := List.mem_of_mem_drop (List.mem_of_mem_take member)
      have zeros (count : Nat) {other : Nat} (member : other ∈ List.replicate count 0) : other < 16 := by
        rw [List.eq_of_mem_replicate member]; decide
      rcases List.mem_append.mp inside with inside | inside <;>
        rcases List.mem_append.mp inside with inside | inside
      · exact zeros _ inside
      · exact hexValues_lt spelled digit inside
      · exact zeros _ inside
      · exact hexValues_lt (hexValues_toHex amount) digit inside
    have bound := value_lt (by decide : 1 < 16) small
    have length := List.length_take_le 64 ((padWord digits ++ padWord (hexDigits amount)).drop 64)
    have power := Nat.pow_le_pow_right (by decide : 0 < 16) length
    rw [show 16 ^ 64 = 2 ^ 256 from by norm_num] at power
    omega
  · rw [mintOf_encodeMintCall_odd lower toAddress amount spelled odd] at minted
    cases minted

theorem mintOf_encodeMintCall_le (amount : Nat) {recipient wei : Nat}
    (short : (addressDigits lower toAddress).length ≤ 64)
    (minted : mintOf (encodeMintCall lower toAddress amount) = some (recipient, wei)) : wei ≤ amount := by
  have word := mintOf_encodeMintCall_lt lower toAddress amount minted
  by_cases small : amount < 2 ^ 256
  · exact (mintOf_encodeMintCall_amount lower toAddress amount short small minted).le
  · omega

/-- The precompile mints as spelled exactly when it gets no bytes, because of a
character that is no digit or of an odd number of digits, or gets an address of
forty digits and an amount of one word. -/
theorem mintsAsSpelled_iff (sats : Nat) :
    MintsAsSpelled lower toAddress sats ↔
      (∃ char ∈ addressDigits lower toAddress, hexValue char = none) ∨
      (max 64 (addressDigits lower toAddress).length + max 64 (toHex (sats * satsToEcx)).length) % 2 = 1 ∨
      ((addressDigits lower toAddress).length = 40 ∧ sats * satsToEcx < 2 ^ 256) := by
  set amount := sats * satsToEcx with amountEq
  rw [MintsAsSpelled, ← amountEq]
  cases spelled : hexValues (addressDigits lower toAddress) with
  | none =>
    rw [mintOf_encodeMintCall_none lower toAddress amount spelled]
    refine iff_of_true trivial (.inl ?_)
    by_contra readable
    push Not at readable
    have all : (hexValues (addressDigits lower toAddress)).isSome :=
      hexValues_isSome.mpr fun char member => Option.isSome_iff_ne_none.mpr (readable char member)
    rw [spelled] at all
    cases all
  | some digits =>
    have readable : ¬ ∃ char ∈ addressDigits lower toAddress, hexValue char = none := by
      rintro ⟨char, member, garbled⟩
      have read := hexValues_isSome.mp (by rw [spelled]; rfl) char member
      rw [garbled] at read
      cases read
    rw [← hexValues_length spelled, ← hexValues_length (hexValues_toHex amount),
      ← padWord_length digits, ← padWord_length (hexDigits amount)]
    rcases Nat.mod_two_eq_zero_or_one ((padWord digits).length + (padWord (hexDigits amount)).length)
      with even | odd
    · have address := spelledAddress_eq lower spelled
      have decoded := mintOf_encodeMintCall lower toAddress amount spelled even
      rw [decoded]
      simp only [readable, even, false_or, Nat.zero_ne_one]
      constructor
      · -- A recipient as spelled needs forty digits, and then the amount is a word of its own.
        rintro ⟨whole, same⟩
        have forty : digits.length = 40 := by
          by_contra other
          rw [address, if_neg other] at same
          cases same
        refine ⟨forty, ?_⟩
        rw [← whole]
        exact mintOf_encodeMintCall_lt lower toAddress amount decoded
      · rintro ⟨forty, small⟩
        have fit := mintOf_encodeMintCall_fit lower toAddress amount spelled (by omega) small
        rw [decoded] at fit
        obtain ⟨recipient, wei⟩ := Prod.mk.inj (Option.some.inj fit)
        refine ⟨wei, ?_⟩
        rw [address, if_pos forty, recipient, padWord, forty]
        simp
    · rw [mintOf_encodeMintCall_odd lower toAddress amount spelled odd]
      exact iff_of_true trivial (.inr (.inl odd))

end

/-- A deposit address of 128 digits: a recipient's word and an amount's word. -/
def craftedAddress : Text :=
  "0x".toList ++ List.replicate 24 '0' ++ List.replicate 40 'a' ++ List.replicate 32 '0' ++
    List.replicate 32 'f'

/-- The API stores the crafted address, and one satoshi sent to its deposit
mints the amount the address carries. -/
theorem crafted_deposit_chooses_amount :
    (∃ rows, Api.createDeposit 0 0 .signet craftedAddress [] = .ok rows) ∧
      mintOf (encodeMintCall .basic craftedAddress (1 * satsToEcx)) =
        some (value 16 (List.replicate 40 10), 2 ^ 128 - 1) ∧
      ¬ MintsAsSpelled .basic craftedAddress 1 := by
  have decoded : mintOf (encodeMintCall .basic craftedAddress (1 * satsToEcx)) =
      some (value 16 (List.replicate 40 10), 2 ^ 128 - 1) := by decide +kernel
  refine ⟨⟨_, rfl⟩, decoded, ?_⟩
  rw [MintsAsSpelled, decoded]
  rintro ⟨exact, -⟩
  revert exact
  decide

end Snowside
