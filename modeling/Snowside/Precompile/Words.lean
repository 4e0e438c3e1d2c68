import Snowside.Evm.Header

/-! Words of 32 bytes: hashes, addresses in them, and the part of the ABI that the
precompiles decode and encode with them.
-/

set_option autoImplicit false

namespace Snowside.Precompile

open Numeral
open Evm (Address Bytes)

abbrev Hash := BitVec 256

def hashLength : Nat := 32

/-! ## Hashes -/

/-- `BytesToHash`: the last bytes, on the right. -/
def bytesToHash (bytes : Bytes) : Hash := .ofNat 256 (value 256 (bytes.map UInt8.toNat))

def Hash.bytes (hash : Hash) : Bytes := (spellFixed 256 hashLength hash.toNat).map UInt8.ofNat

/-- `BigToHash`, of the magnitude. -/
def bigToHash (number : Int) : Hash := .ofNat 256 number.natAbs

def Hash.big (hash : Hash) : Int := hash.toNat

/-- `BytesToHash` of the bytes of an address. -/
def addressToHash (address : Address) : Hash := address.setWidth 256

/-- `BytesToAddress` of the bytes of a hash. -/
def Hash.address (hash : Hash) : Address := BitVec.setWidth 160 hash

/-- A hash literal with its first bytes; the others are zero. -/
def hashOf (first : Bytes) : Hash := bytesToHash (first ++ List.replicate (hashLength - first.length) 0)

theorem addressToHash_toNat (address : Address) : (addressToHash address).toNat = address.toNat := by
  have := address.isLt
  rw [addressToHash, BitVec.toNat_setWidth, Nat.mod_eq_of_lt (by omega)]

theorem addressToHash_injective : Function.Injective addressToHash := fun first second same => by
  have same := congrArg BitVec.toNat same
  rw [addressToHash_toNat, addressToHash_toNat] at same
  exact BitVec.eq_of_toNat_eq same

theorem bytes_lt (bytes : Bytes) : ∀ digit ∈ bytes.map UInt8.toNat, digit < 256 := by
  intro digit member
  obtain ⟨byte, -, rfl⟩ := List.mem_map.mp member
  exact byte.toNat_lt

theorem bytesToHash_toNat {bytes : Bytes} (short : bytes.length ≤ hashLength) :
    (bytesToHash bytes).toNat = value 256 (bytes.map UInt8.toNat) := by
  have small := value_lt (by decide) (bytes_lt bytes)
  rw [List.length_map] at small
  rw [bytesToHash, BitVec.toNat_ofNat, Nat.mod_eq_of_lt]
  exact small.trans_le (Nat.pow_le_pow_right (by decide) short)

/-- A hash that starts with a byte is no address. -/
theorem hashOf_ne_addressToHash {byte : UInt8} (nonzero : byte ≠ 0) {rest : Bytes} (short : rest.length < hashLength)
    (address : Address) : hashOf (byte :: rest) ≠ addressToHash address := by
  intro same
  have placed : (byte :: rest ++ List.replicate (hashLength - (rest.length + 1)) (0 : UInt8)).length = hashLength := by
    simp only [List.length_append, List.length_cons, List.length_replicate]
    omega
  have same := congrArg BitVec.toNat same
  rw [hashOf, List.length_cons, bytesToHash_toNat placed.le, addressToHash_toNat, List.cons_append, List.map_cons,
    value_cons] at same
  have first : byte.toNat ≠ 0 := fun zero => nonzero (UInt8.toNat_inj.mp zero)
  have behind : ((rest ++ List.replicate (hashLength - (rest.length + 1)) (0 : UInt8)).map UInt8.toNat).length = 31 := by
    rw [List.length_map, ← Nat.succ_inj]
    exact placed
  have large := Nat.le_mul_of_pos_left (256 ^ 31) (Nat.pos_of_ne_zero first)
  have := address.isLt
  rw [behind] at same
  omega

/-! ## Decoding of inputs -/

inductive AbiError where
  | improperlyFormatted
  | emptyInput
  | lengthInsufficient (found required : Nat)
  | offsetTooLarge (offset : Nat)
  | lengthTooLarge (length : Nat)
  | badUint32
  deriving DecidableEq, Repr

def wordAt (data : Bytes) (index : Nat) : Except AbiError Hash :=
  if data.length < index + hashLength then .error (.lengthInsufficient data.length (index + hashLength))
  else .ok (bytesToHash ((data.drop index).take hashLength))

/-- What every decoding of arguments checks of the data first. -/
def checkInput (data : Bytes) (useStrictMode : Bool) : Except AbiError Unit :=
  if useStrictMode ∧ data.length % hashLength ≠ 0 then .error .improperlyFormatted
  else if data.length = 0 then .error .emptyInput
  else .ok ()

/-- One word of static arguments. -/
def unpackWord (data : Bytes) (useStrictMode : Bool) : Except AbiError Hash := do
  checkInput data useStrictMode
  wordAt data 0

def readWords (data : Bytes) : (count : Nat) → Except AbiError (Vector Hash count)
  | 0 => .ok #v[]
  | count + 1 => do
      let words ← readWords data count
      let word ← wordAt data (hashLength * count)
      return words.push word

/-- Static arguments of one word each. -/
def unpackWords (data : Bytes) (count : Nat) (useStrictMode : Bool) : Except AbiError (Vector Hash count) := do
  checkInput data useStrictMode
  readWords data count

/-- `ReadInteger` at uint32. -/
def readUint32 (word : Hash) : Except AbiError Nat :=
  if 2 ^ 32 ≤ word.toNat then .error .badUint32 else .ok word.toNat

/-- Where the bytes of a dynamic argument start, and how many there are. -/
def lengthPrefixPointsTo (data : Bytes) (index : Nat) : Except AbiError (Nat × Nat) := do
  let offset ← wordAt data index
  let offsetEnd := offset.toNat + hashLength
  if data.length < offsetEnd then throw (.offsetTooLarge offsetEnd)
  else if 2 ^ 63 ≤ offsetEnd then throw (.offsetTooLarge offsetEnd)
  else
    let length := bytesToHash ((data.drop offset.toNat).take hashLength)
    let totalSize := offsetEnd + length.toNat
    if 2 ^ 63 ≤ totalSize then throw (.lengthTooLarge totalSize)
    else if data.length < totalSize then throw (.lengthInsufficient data.length totalSize)
    else return (offsetEnd, length.toNat)

/-- One argument of any number of bytes. -/
def unpackBytes (data : Bytes) (useStrictMode : Bool) : Except AbiError Bytes := do
  checkInput data useStrictMode
  let place ← lengthPrefixPointsTo data 0
  return (data.drop place.1).take place.2

/-! ## Encoding of outputs -/

def packWords (words : List Hash) : Bytes := words.flatMap Hash.bytes

/-- A length and as many bytes, padded to whole words. -/
def packBytesSlice (bytes : Bytes) : Bytes :=
  Hash.bytes (.ofNat 256 bytes.length) ++ bytes ++
    List.replicate ((bytes.length + 31) / hashLength * hashLength - bytes.length) 0

def packBool (value : Bool) : Hash := if value then 1 else 0

end Snowside.Precompile
