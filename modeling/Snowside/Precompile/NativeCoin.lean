import Snowside.Precompile.Setter

/-! The native minter on the state of accounts. -/

set_option autoImplicit false

namespace Snowside.Precompile.NativeCoin

open Evm (Address Bytes)
open Checked Stateful

def contractAddress : Address := 0x0200000000000000000000000000000000000001

def mintGasCost : UInt64 := 30000

def mintInputLen : Nat := hashLength + hashLength

def nativeCoinMintedEventGasCost : UInt64 := logGas + logTopicGas * 3 + logDataGas * .ofNat hashLength

structure MintNativeCoinInput where
  addr : Address
  amount : Hash
  deriving DecidableEq, Repr

def unpackMintNativeCoinInput (input : Bytes) (useStrictMode : Bool) : Except PrecompileError MintNativeCoinInput := do
  refuse (useStrictMode ∧ input.length ≠ mintInputLen) (.invalidLen input.length)
  let words ← (unpackWords input 2 useStrictMode).mapError .unpackInput
  return { addr := words[0].address, amount := words[1] }

def nativeCoinMintedID : Hash := 0x400cd392f3d56fd10bb1dbd5839fdda8298208ddaa97b368faa053e1850930ee

def packNativeCoinMintedEvent (sender recipient : Address) (amount : Hash) : Event :=
  ([nativeCoinMintedID, addressToHash sender, addressToHash recipient], packWords [amount])

/-- An account is created if there is none. -/
def mint (recipient : Address) (amount : Hash) (db : StateDB) : StateDB :=
  (if db.exist recipient then db else db.createAccount recipient).addBalance recipient amount

def mintNativeCoinSetter : Setter MintNativeCoinInput where
  address := contractAddress
  gasCost := mintGasCost
  unpack := unpackMintNativeCoinInput
  refusal := .cannotMint
  eventGasCost := nativeCoinMintedEventGasCost
  pack _ caller input := packNativeCoinMintedEvent caller input.addr input.amount
  store _ input := modify (mint input.addr input.amount)

def mintNativeCoin : RunStatefulPrecompileFunc := mintNativeCoinSetter.execute

def precompile : StatefulPrecompile where
  functions := createAllowListFunctions contractAddress ++ [
    { selector := [0x4f, 0x5a, 0xaa, 0xba], execute := mintNativeCoin }]

end Snowside.Precompile.NativeCoin
