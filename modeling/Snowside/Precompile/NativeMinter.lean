import Snowside.Numeral.BigEndian

/-! The call interface of the NativeMinter precompile: selector dispatch and the
ABI decoding of `mintNativeCoin(address,uint256)`. Bytes are numbers below 256. -/

set_option autoImplicit false

namespace Snowside.NativeMinter

open Numeral

abbrev Bytes := List Nat

def selectorLen : Nat := 4

def mintInputLen : Nat := 32 + 32

def mintNativeCoinSelector : Bytes := [0x4f, 0x5a, 0xaa, 0xba]

inductive UnpackError where
  | improperlyFormatted
  | empty
  | insufficient (length required : Nat)
  deriving DecidableEq, Repr

inductive CallError where
  | missingSelector (length : Nat)
  | invalidFunctionSelector (selector : Bytes)
  | invalidLen (length : Nat)
  | unpackInput (cause : UnpackError)
  deriving DecidableEq, Repr

/-- The word at a byte index, as `toGoType` slices it. -/
def wordAt (index : Nat) (output : Bytes) : Except UnpackError Bytes :=
  if index + 32 > output.length then .error (.insufficient output.length (index + 32))
  else .ok ((output.drop index).take 32)

/-- `BytesToAddress` keeps the last 20 bytes of the word. -/
def readAddress (word : Bytes) : Nat := value 256 (word.drop 12)

/-- `ReadInteger` at uint256. -/
def readUint256 (word : Bytes) : Nat := value 256 word

/-- `UnpackInput` for the two arguments of `mintNativeCoin`. -/
def unpackInput (data : Bytes) (useStrictMode : Bool) : Except UnpackError (Nat × Nat) := do
  if useStrictMode && data.length % 32 != 0 then throw .improperlyFormatted
  if data.length = 0 then throw .empty
  let address ← wordAt 0 data
  let amount ← wordAt 32 data
  return (readAddress address, readUint256 amount)

def unpackMintNativeCoinInput (input : Bytes) (useStrictMode : Bool) : Except CallError (Nat × Nat) :=
  if useStrictMode && input.length != mintInputLen then .error (.invalidLen input.length)
  else
    match unpackInput input useStrictMode with
    | .error cause => .error (.unpackInput cause)
    | .ok arguments => .ok arguments

/-- Recipient and amount of the mint that a call's data asks for. The other
selectors of the precompile read and set roles; none of them mints. -/
def decodeMint (input : Bytes) (useStrictMode : Bool) : Except CallError (Nat × Nat) :=
  if input.length < selectorLen then .error (.missingSelector input.length)
  else if input.take selectorLen = mintNativeCoinSelector then
    unpackMintNativeCoinInput (input.drop selectorLen) useStrictMode
  else .error (.invalidFunctionSelector (input.take selectorLen))

theorem wordAt_of_le (index : Nat) (output : Bytes) (long : index + 32 ≤ output.length) :
    wordAt index output = .ok ((output.drop index).take 32) := by
  rw [wordAt, if_neg (by omega)]

/-- Without strict mode only the first two words matter. -/
theorem decodeMint_of_words {input : Bytes} (selector : input.take selectorLen = mintNativeCoinSelector)
    (long : selectorLen + mintInputLen ≤ input.length) :
    decodeMint input false =
      .ok (value 256 ((input.drop (selectorLen + 12)).take 20),
        value 256 ((input.drop (selectorLen + 32)).take 32)) := by
  have size : (input.drop 4).length = input.length - 4 := List.length_drop
  simp only [selectorLen, mintInputLen] at long
  have first := wordAt_of_le 0 (input.drop 4) (by omega)
  have second := wordAt_of_le 32 (input.drop 4) (by omega)
  rw [decodeMint, if_neg (by simp only [selectorLen]; omega), if_pos selector]
  simp [unpackMintNativeCoinInput, unpackInput, selectorLen, first, second, bind, Except.bind, pure,
    Except.pure, readAddress, readUint256, List.drop_take, show input.length - 4 ≠ 0 by omega]

end Snowside.NativeMinter
