import Snowside.Evm.DelayExcess
import Snowside.Precompile.Words
import Snowside.Rlp.Format

/-! The encoding of headers with their extras: a list of strings, the last of which may be missing. -/

set_option autoImplicit false

namespace Snowside.CustomTypes

open Checked
open Evm (Address Bytes)
open Precompile (Hash)
open Rlp (digits fixedBytes readFixed readNumber)

/-! ## Headers -/

/-- Pointers that may be nil are options. -/
structure EthHeader where
  parentHash : Hash := 0
  uncleHash : Hash := 0
  coinbase : Address := 0
  root : Hash := 0
  txHash : Hash := 0
  receiptHash : Hash := 0
  bloom : BitVec 2048 := 0
  difficulty : Option Int := none
  number : Option Int := none
  gasLimit : UInt64 := 0
  gasUsed : UInt64 := 0
  time : UInt64 := 0
  extra : Bytes := []
  mixDigest : Hash := 0
  nonce : BitVec 64 := 0
  baseFee : Option Int := none
  withdrawalsHash : Option Hash := none
  blobGasUsed : Option UInt64 := none
  excessBlobGas : Option UInt64 := none
  parentBeaconRoot : Option Hash := none
  deriving DecidableEq, Repr

structure HeaderExtra where
  blockGasCost : Option Int := none
  timeMilliseconds : Option UInt64 := none
  minDelayExcess : Option UInt64 := none
  deriving DecidableEq, Repr

/-- A header with its extras. -/
structure Header where
  eth : EthHeader := {}
  extras : HeaderExtra := {}
  deriving DecidableEq, Repr

structure HeaderSerializable where
  parentHash : Hash := 0
  uncleHash : Hash := 0
  coinbase : Address := 0
  root : Hash := 0
  txHash : Hash := 0
  receiptHash : Hash := 0
  bloom : BitVec 2048 := 0
  difficulty : Option Int := none
  number : Option Int := none
  gasLimit : UInt64 := 0
  gasUsed : UInt64 := 0
  time : UInt64 := 0
  extra : Bytes := []
  mixDigest : Hash := 0
  nonce : BitVec 64 := 0
  baseFee : Option Int := none
  blockGasCost : Option Int := none
  blobGasUsed : Option UInt64 := none
  excessBlobGas : Option UInt64 := none
  parentBeaconRoot : Option Hash := none
  timeMilliseconds : Option UInt64 := none
  minDelayExcess : Option UInt64 := none
  deriving DecidableEq, Repr

namespace HeaderSerializable

def updateFromEth (eth : EthHeader) (h : HeaderSerializable) : HeaderSerializable :=
  { h with
    parentHash := eth.parentHash
    uncleHash := eth.uncleHash
    coinbase := eth.coinbase
    root := eth.root
    txHash := eth.txHash
    receiptHash := eth.receiptHash
    bloom := eth.bloom
    difficulty := eth.difficulty
    number := eth.number
    gasLimit := eth.gasLimit
    gasUsed := eth.gasUsed
    time := eth.time
    extra := eth.extra
    mixDigest := eth.mixDigest
    nonce := eth.nonce
    baseFee := eth.baseFee
    blobGasUsed := eth.blobGasUsed
    excessBlobGas := eth.excessBlobGas
    parentBeaconRoot := eth.parentBeaconRoot }

def updateToEth (h : HeaderSerializable) (eth : EthHeader) : EthHeader :=
  { eth with
    parentHash := h.parentHash
    uncleHash := h.uncleHash
    coinbase := h.coinbase
    root := h.root
    txHash := h.txHash
    receiptHash := h.receiptHash
    bloom := h.bloom
    difficulty := h.difficulty
    number := h.number
    gasLimit := h.gasLimit
    gasUsed := h.gasUsed
    time := h.time
    extra := h.extra
    mixDigest := h.mixDigest
    nonce := h.nonce
    baseFee := h.baseFee
    blobGasUsed := h.blobGasUsed
    excessBlobGas := h.excessBlobGas
    parentBeaconRoot := h.parentBeaconRoot }

def updateFromExtras (extras : HeaderExtra) (h : HeaderSerializable) : HeaderSerializable :=
  { h with
    blockGasCost := extras.blockGasCost
    timeMilliseconds := extras.timeMilliseconds
    minDelayExcess := extras.minDelayExcess }

def updateToExtras (h : HeaderSerializable) (extras : HeaderExtra) : HeaderExtra :=
  { extras with
    blockGasCost := h.blockGasCost
    timeMilliseconds := h.timeMilliseconds
    minDelayExcess := h.minDelayExcess }

end HeaderSerializable

/-! ## The format -/

/-- What the package for the format offers: strings, lists around what is in them, and the
contents of the strings that a list consists of. -/
structure Package where
  string : Bytes → Bytes
  list : Bytes → Bytes
  elements : Bytes → Option (List Bytes)

/-- What is relied on: lists of strings are read as they were written, and the empty string is one byte. -/
structure Package.Lawful (rlp : Package) : Prop where
  elements_list : ∀ contents : List Bytes, (rlp.list (contents.flatMap rlp.string)).length < 2 ^ 64 →
    rlp.elements (rlp.list (contents.flatMap rlp.string)) = some contents
  emptyString : rlp.string [] = [0x80]

inductive EncodeError where
  | negativeBigInt
  deriving DecidableEq, Repr

def emptyString : Bytes := [0x80]

section

variable (rlp : Package)

def writeUint64 (number : UInt64) : Bytes := rlp.string (digits number.toNat)

/-- A missing number is written as the empty string. -/
def writeBigInt : Option Int → Except EncodeError Bytes
  | none => .ok emptyString
  | some number => if number < 0 then .error .negativeBigInt else .ok (rlp.string (digits number.toNat))

/-- An optional number is written if it is there or one after it. -/
def writeIf (needed : Bool) (write : Except EncodeError Bytes) : Except EncodeError Bytes := if needed then write else .ok []

def writeOptional {α : Type} (write : α → Bytes) : Option α → Bytes
  | none => [0x80]
  | some value => write value

namespace HeaderSerializable

variable (obj : HeaderSerializable)

def encodeRLP : Except EncodeError Bytes := do
  let difficulty ← writeBigInt rlp obj.difficulty
  let number ← writeBigInt rlp obj.number
  let hasMinDelayExcess := obj.minDelayExcess.isSome
  let hasTimeMilliseconds := obj.timeMilliseconds.isSome || hasMinDelayExcess
  let hasParentBeaconRoot := obj.parentBeaconRoot.isSome || hasTimeMilliseconds
  let hasExcessBlobGas := obj.excessBlobGas.isSome || hasParentBeaconRoot
  let hasBlobGasUsed := obj.blobGasUsed.isSome || hasExcessBlobGas
  let hasBlockGasCost := obj.blockGasCost.isSome || hasBlobGasUsed
  let hasBaseFee := obj.baseFee.isSome || hasBlockGasCost
  let baseFee ← writeIf hasBaseFee (writeBigInt rlp obj.baseFee)
  let blockGasCost ← writeIf hasBlockGasCost (writeBigInt rlp obj.blockGasCost)
  let blobGasUsed := if hasBlobGasUsed then writeOptional (writeUint64 rlp) obj.blobGasUsed else []
  let excessBlobGas := if hasExcessBlobGas then writeOptional (writeUint64 rlp) obj.excessBlobGas else []
  let parentBeaconRoot :=
    if hasParentBeaconRoot then writeOptional (fun root => rlp.string (fixedBytes 32 root)) obj.parentBeaconRoot else []
  let timeMilliseconds := if hasTimeMilliseconds then writeOptional (writeUint64 rlp) obj.timeMilliseconds else []
  let minDelayExcess := if hasMinDelayExcess then writeOptional (writeUint64 rlp) obj.minDelayExcess else []
  return rlp.list (rlp.string (fixedBytes 32 obj.parentHash) ++ rlp.string (fixedBytes 32 obj.uncleHash) ++
    rlp.string (fixedBytes 20 obj.coinbase) ++ rlp.string (fixedBytes 32 obj.root) ++ rlp.string (fixedBytes 32 obj.txHash) ++
    rlp.string (fixedBytes 32 obj.receiptHash) ++ rlp.string (fixedBytes 256 obj.bloom) ++ difficulty ++ number ++
    writeUint64 rlp obj.gasLimit ++ writeUint64 rlp obj.gasUsed ++ writeUint64 rlp obj.time ++ rlp.string obj.extra ++
    rlp.string (fixedBytes 32 obj.mixDigest) ++ rlp.string (fixedBytes 8 obj.nonce) ++ baseFee ++ blockGasCost ++ blobGasUsed ++
    excessBlobGas ++ parentBeaconRoot ++ timeMilliseconds ++ minDelayExcess)

end HeaderSerializable

end

def readUint64 (contents : Bytes) : Option UInt64 := do
  let number ← readNumber contents
  if number < 2 ^ 64 then some (.ofNat number) else none

def readBigInt (contents : Bytes) : Option Int := (readNumber contents).map Int.ofNat

/-- A field that is missing at the end stays nil; one that is there is read, and is not. -/
def readOptional {α : Type} (read : Bytes → Option α) : Option Bytes → Option (Option α)
  | none => some none
  | some contents => (read contents).map some

/-- Field by field, in their order. There must be neither too few nor too many. -/
def decodeFields : List Bytes → Option HeaderSerializable
  | parentHash :: uncleHash :: coinbase :: root :: txHash :: receiptHash :: bloom :: difficulty :: number :: gasLimit ::
      gasUsed :: time :: extra :: mixDigest :: nonce :: optional => do
      if 7 < optional.length then none
      return {
        parentHash := ← readFixed 32 256 parentHash
        uncleHash := ← readFixed 32 256 uncleHash
        coinbase := ← readFixed 20 160 coinbase
        root := ← readFixed 32 256 root
        txHash := ← readFixed 32 256 txHash
        receiptHash := ← readFixed 32 256 receiptHash
        bloom := ← readFixed 256 2048 bloom
        difficulty := some (← readBigInt difficulty)
        number := some (← readBigInt number)
        gasLimit := ← readUint64 gasLimit
        gasUsed := ← readUint64 gasUsed
        time := ← readUint64 time
        extra := extra
        mixDigest := ← readFixed 32 256 mixDigest
        nonce := ← readFixed 8 64 nonce
        baseFee := ← readOptional readBigInt optional[0]?
        blockGasCost := ← readOptional readBigInt optional[1]?
        blobGasUsed := ← readOptional readUint64 optional[2]?
        excessBlobGas := ← readOptional readUint64 optional[3]?
        parentBeaconRoot := ← readOptional (readFixed 32 256) optional[4]?
        timeMilliseconds := ← readOptional readUint64 optional[5]?
        minDelayExcess := ← readOptional readUint64 optional[6]? }
  | _ => none

section

variable (rlp : Package)

/-- Of the stream with nothing but the header. -/
def HeaderSerializable.decode (bytes : Bytes) : Option HeaderSerializable := (rlp.elements bytes).bind decodeFields

namespace Header

/-- `EncodeRLP`: both structures in one. -/
def encodeRLP (h : Header) : Except EncodeError Bytes :=
  HeaderSerializable.encodeRLP rlp ((({} : HeaderSerializable).updateFromEth h.eth).updateFromExtras h.extras)

/-- `DecodeRLP`, to a new header. -/
def decodeRLP (bytes : Bytes) : Option Header := do
  let temp ← HeaderSerializable.decode rlp bytes
  return { eth := temp.updateToEth {}, extras := temp.updateToExtras {} }

end Header

end

/-! ## What is written -/

namespace HeaderSerializable

/-- The contents of the fields that are always there. -/
def contents (obj : HeaderSerializable) : List Bytes :=
  [fixedBytes 32 obj.parentHash, fixedBytes 32 obj.uncleHash, fixedBytes 20 obj.coinbase, fixedBytes 32 obj.root,
    fixedBytes 32 obj.txHash, fixedBytes 32 obj.receiptHash, fixedBytes 256 obj.bloom,
    (obj.difficulty.map fun number => digits number.toNat).getD [], (obj.number.map fun number => digits number.toNat).getD [],
    digits obj.gasLimit.toNat, digits obj.gasUsed.toNat, digits obj.time.toNat, obj.extra, fixedBytes 32 obj.mixDigest,
    fixedBytes 8 obj.nonce]

/-- The contents of the optional fields. -/
def optionals (obj : HeaderSerializable) : List (Option Bytes) :=
  [obj.baseFee.map fun number => digits number.toNat, obj.blockGasCost.map fun number => digits number.toNat,
    obj.blobGasUsed.map fun number => digits number.toNat, obj.excessBlobGas.map fun number => digits number.toNat,
    obj.parentBeaconRoot.map (fixedBytes 32), obj.timeMilliseconds.map fun number => digits number.toNat,
    obj.minDelayExcess.map fun number => digits number.toNat]

/-- No number is negative. -/
structure NonNegative (obj : HeaderSerializable) : Prop where
  difficulty : ∀ number, obj.difficulty = some number → 0 ≤ number
  number : ∀ number, obj.number = some number → 0 ≤ number
  baseFee : ∀ number, obj.baseFee = some number → 0 ≤ number
  blockGasCost : ∀ number, obj.blockGasCost = some number → 0 ≤ number

end HeaderSerializable

section

variable {rlp : Package} {obj : HeaderSerializable}

theorem writeBigInt_nonneg (lawful : rlp.Lawful) {field : Option Int} (nonneg : ∀ number, field = some number → 0 ≤ number) :
    writeBigInt rlp field = .ok (rlp.string ((field.map fun number => digits number.toNat).getD [])) := by
  cases field with
  | none => exact congrArg Except.ok lawful.emptyString.symm
  | some number => exact if_neg (Int.not_lt.mpr (nonneg number rfl))

theorem writeIf_ok (needed : Bool) (written : Bytes) : writeIf needed (.ok written) = .ok (if needed then written else []) := by
  cases needed <;> rfl

theorem nonneg_of_writeBigInt {field : Option Int} {written : Bytes} (success : writeBigInt rlp field = .ok written) :
    ∀ number, field = some number → 0 ≤ number := by
  rintro number rfl
  by_contra negative
  rw [writeBigInt, if_pos (Int.not_le.mp negative)] at success
  cases success

theorem writeOptional_eq (lawful : rlp.Lawful) {α : Type} (encode : α → Bytes) (field : Option α) :
    writeOptional (fun value => rlp.string (encode value)) field = rlp.string ((field.map encode).getD []) := by
  cases field with
  | none => exact lawful.emptyString.symm
  | some value => rfl

/-- Where nothing is negative, the fields are written in their order. -/
theorem encodeRLP_nonneg (lawful : rlp.Lawful) (nonneg : obj.NonNegative) :
    obj.encodeRLP rlp = .ok (rlp.list ((obj.contents ++ Rlp.trailing obj.optionals).flatMap rlp.string)) := by
  have uint64 (field : Option UInt64) : writeOptional (writeUint64 rlp) field =
      rlp.string ((field.map fun number => digits number.toNat).getD []) :=
    writeOptional_eq lawful (fun number : UInt64 => digits number.toNat) field
  unfold HeaderSerializable.encodeRLP
  simp only [writeBigInt_nonneg lawful nonneg.difficulty, writeBigInt_nonneg lawful nonneg.number,
    writeBigInt_nonneg lawful nonneg.baseFee, writeBigInt_nonneg lawful nonneg.blockGasCost, writeIf_ok, ok_bind, uint64,
    writeOptional_eq lawful (fixedBytes 32)]
  simp only [HeaderSerializable.optionals, HeaderSerializable.contents, List.flatMap_append, Rlp.flatMap_trailing_cons,
    List.flatMap_cons, List.flatMap_nil, List.any_cons, List.any_nil, Bool.or_false, Option.isSome_map, Rlp.trailing_nil,
    List.append_assoc, List.append_nil, writeUint64]
  rfl

/-- A header is encoded exactly if nothing is negative. -/
theorem encodeRLP_eq_ok (lawful : rlp.Lawful) {encoded : Bytes} : obj.encodeRLP rlp = .ok encoded ↔
    obj.NonNegative ∧ rlp.list ((obj.contents ++ Rlp.trailing obj.optionals).flatMap rlp.string) = encoded := by
  constructor
  · intro success
    have nonneg : obj.NonNegative := by
      unfold HeaderSerializable.encodeRLP at success
      obtain ⟨_, difficulty, success⟩ := bind_eq_ok.mp success
      obtain ⟨_, number, success⟩ := bind_eq_ok.mp success
      obtain ⟨_, baseFee, success⟩ := bind_eq_ok.mp success
      obtain ⟨_, blockGasCost, success⟩ := bind_eq_ok.mp success
      refine ⟨nonneg_of_writeBigInt difficulty, nonneg_of_writeBigInt number, fun number there => ?_, fun number there => ?_⟩
      · rw [writeIf, if_pos (by rw [there]; rfl)] at baseFee
        exact nonneg_of_writeBigInt baseFee number there
      · rw [writeIf, if_pos (by rw [there]; rfl)] at blockGasCost
        exact nonneg_of_writeBigInt blockGasCost number there
    rw [encodeRLP_nonneg lawful nonneg] at success
    exact ⟨nonneg, Except.ok.inj success⟩
  · rintro ⟨nonneg, rfl⟩
    exact encodeRLP_nonneg lawful nonneg

end

/-! ## What is read -/

theorem readUint64_digits (number : UInt64) : readUint64 (digits number.toNat) = some number := by
  rw [readUint64, Rlp.readNumber_digits]
  show (if number.toNat < 2 ^ 64 then some (UInt64.ofNat number.toNat) else none) = _
  rw [if_pos number.toNat_lt, UInt64.ofNat_toNat]

theorem readBigInt_digits {number : Int} (nonneg : 0 ≤ number) : readBigInt (digits number.toNat) = some number := by
  rw [readBigInt, Rlp.readNumber_digits]
  exact congrArg some (Int.toNat_of_nonneg nonneg)

theorem readOptional_written {α : Type} {read : Bytes → Option α} {encode : α → Bytes} {field : Option α}
    (inverts : ∀ value, field = some value → read (encode value) = some value) :
    readOptional read (field.map encode) = some field := by
  cases field with
  | none => rfl
  | some value => exact congrArg (Option.map some) (inverts value rfl)

theorem readOptional_none {α : Type} {read : Bytes → Option α} {written : Option Bytes} (nil : readOptional read written = some none) :
    written = none := by
  cases written with
  | none => rfl
  | some contents =>
    rw [readOptional] at nil
    cases found : read contents with
    | none =>
      rw [found] at nil
      cases nil
    | some value =>
      rw [found] at nil
      cases nil

theorem readOptional_missing {α : Type} {read : Bytes → Option α} {encode : α → Bytes} {field : Option α} {written : Option Bytes}
    (same : readOptional read written = some field) (missing : some (field.map encode) = some none) : written = none := by
  cases field with
  | none => exact readOptional_none same
  | some value => cases missing

section

variable {obj : HeaderSerializable}

/-- Of what is always there every field is read, so that the optional fields are left. -/
theorem decodeFields_contents (nonneg : obj.NonNegative) (numbered : obj.difficulty.isSome ∧ obj.number.isSome)
    {optional : List Bytes} (few : optional.length ≤ 7) :
    decodeFields (obj.contents ++ optional) = (do
      let baseFee ← readOptional readBigInt optional[0]?
      let blockGasCost ← readOptional readBigInt optional[1]?
      let blobGasUsed ← readOptional readUint64 optional[2]?
      let excessBlobGas ← readOptional readUint64 optional[3]?
      let parentBeaconRoot ← readOptional (readFixed 32 256) optional[4]?
      let timeMilliseconds ← readOptional readUint64 optional[5]?
      let minDelayExcess ← readOptional readUint64 optional[6]?
      return { obj with
        baseFee, blockGasCost, blobGasUsed, excessBlobGas, parentBeaconRoot, timeMilliseconds, minDelayExcess }) := by
  obtain ⟨difficulty, here⟩ := Option.isSome_iff_exists.mp numbered.1
  obtain ⟨number, there⟩ := Option.isSome_iff_exists.mp numbered.2
  have hash (word : Hash) : readFixed 32 256 (fixedBytes 32 word) = some word := Rlp.readFixed_fixedBytes (by norm_num) word
  have address (word : Address) : readFixed 20 160 (fixedBytes 20 word) = some word := Rlp.readFixed_fixedBytes (by norm_num) word
  have bloom (word : BitVec 2048) : readFixed 256 2048 (fixedBytes 256 word) = some word :=
    Rlp.readFixed_fixedBytes (by norm_num) word
  have nonce (word : BitVec 64) : readFixed 8 64 (fixedBytes 8 word) = some word := Rlp.readFixed_fixedBytes (by norm_num) word
  simp only [HeaderSerializable.contents, here, there, Option.map_some, Option.getD_some, List.cons_append, List.nil_append,
    decodeFields, if_neg (Nat.not_lt.mpr few), hash, address, bloom, nonce, readUint64_digits,
    readBigInt_digits (nonneg.difficulty _ here), readBigInt_digits (nonneg.number _ there), Option.bind_eq_bind, Option.bind_some]

/-- The fields are read back exactly if none that is there comes after one that is not. -/
theorem decodeFields_written_iff (nonneg : obj.NonNegative) (numbered : obj.difficulty.isSome ∧ obj.number.isSome) :
    decodeFields (obj.contents ++ Rlp.trailing obj.optionals) = some obj ↔ Rlp.Leading obj.optionals := by
  rw [decodeFields_contents nonneg numbered (Rlp.length_trailing_le _)]
  constructor
  · intro decoded
    simp only [Option.bind_eq_bind, Option.bind_eq_some_iff, Option.pure_def, Option.some.injEq] at decoded
    obtain ⟨baseFee, first, blockGasCost, second, blobGasUsed, third, excessBlobGas, fourth, parentBeaconRoot, fifth, timeMilliseconds,
      sixth, minDelayExcess, seventh, same⟩ := decoded
    have first := first.trans (congrArg (fun obj => some obj.baseFee) same)
    have second := second.trans (congrArg (fun obj => some obj.blockGasCost) same)
    have third := third.trans (congrArg (fun obj => some obj.blobGasUsed) same)
    have fourth := fourth.trans (congrArg (fun obj => some obj.excessBlobGas) same)
    have fifth := fifth.trans (congrArg (fun obj => some obj.parentBeaconRoot) same)
    have sixth := sixth.trans (congrArg (fun obj => some obj.timeMilliseconds) same)
    have seventh := seventh.trans (congrArg (fun obj => some obj.minDelayExcess) same)
    refine Rlp.leading_iff.mpr fun index missing => ?_
    rcases index with _ | _ | _ | _ | _ | _ | _ | index
    · exact readOptional_missing first missing
    · exact readOptional_missing second missing
    · exact readOptional_missing third missing
    · exact readOptional_missing fourth missing
    · exact readOptional_missing fifth missing
    · exact readOptional_missing sixth missing
    · exact readOptional_missing seventh missing
    · cases missing
  · intro leading
    have hash (root : Hash) (_ : obj.parentBeaconRoot = some root) : readFixed 32 256 (fixedBytes 32 root) = some root :=
      Rlp.readFixed_fixedBytes (by norm_num) root
    have uint64 (field : Option UInt64) : readOptional readUint64 (field.map fun number => digits number.toNat) = some field :=
      readOptional_written fun number _ => readUint64_digits number
    have baseFee : readOptional readBigInt (obj.baseFee.map fun number => digits number.toNat) = some obj.baseFee :=
      readOptional_written fun number there => readBigInt_digits (nonneg.baseFee number there)
    have blockGasCost : readOptional readBigInt (obj.blockGasCost.map fun number => digits number.toNat) = some obj.blockGasCost :=
      readOptional_written fun number there => readBigInt_digits (nonneg.blockGasCost number there)
    simp only [leading.getElem?]
    simp only [HeaderSerializable.optionals, List.getElem?_cons_zero, List.getElem?_cons_succ, Option.join_some,
      baseFee, blockGasCost, uint64, readOptional_written hash, Option.bind_eq_bind, Option.bind_some]
    rfl

end

/-! ## Headers -/

namespace Header

/-- Both structures in one. -/
def serializable (h : Header) : HeaderSerializable := (({} : HeaderSerializable).updateFromEth h.eth).updateFromExtras h.extras

variable {rlp : Package} {header other : Header} {encoded : Bytes}

/-- All of a header is in the one structure but the hash of withdrawals. -/
theorem eq_update_iff {temp : HeaderSerializable} : ({ eth := temp.updateToEth {}, extras := temp.updateToExtras {} } : Header) = header ↔
    temp = header.serializable ∧ header.eth.withdrawalsHash = none := by
  constructor
  · rintro rfl
    exact ⟨rfl, rfl⟩
  · rintro ⟨rfl, none⟩
    obtain ⟨eth, extras⟩ := header
    obtain ⟨⟩ := eth
    obtain rfl := none
    rfl

/-- Decoding its encoding gives the header again, extras included. -/
def Survives (rlp : Package) (header : Header) : Prop :=
  ∃ encoded, header.encodeRLP rlp = .ok encoded ∧ decodeRLP rlp encoded = some header

/-- What decoding makes of an encoding. -/
theorem decodeRLP_written (lawful : rlp.Lawful) (success : header.encodeRLP rlp = .ok encoded) (fits : encoded.length < 2 ^ 64) :
    decodeRLP rlp encoded =
      (decodeFields (header.serializable.contents ++ Rlp.trailing header.serializable.optionals)).map fun temp =>
        { eth := temp.updateToEth {}, extras := temp.updateToExtras {} } := by
  obtain ⟨-, rfl⟩ := (encodeRLP_eq_ok lawful).mp success
  rw [decodeRLP, HeaderSerializable.decode, lawful.elements_list _ fits]
  exact (Option.map_eq_bind ..).symm

/-- A header survives exactly if no number is negative, no field that is there comes after one
that is not, and there is no hash of withdrawals. -/
theorem survives_iff (lawful : rlp.Lawful) (numbered : header.eth.difficulty.isSome ∧ header.eth.number.isSome)
    (fits : ∀ encoded, header.encodeRLP rlp = .ok encoded → encoded.length < 2 ^ 64) :
    header.Survives rlp ↔ header.serializable.NonNegative ∧ Rlp.Leading header.serializable.optionals ∧
      header.eth.withdrawalsHash = none := by
  have decodes (encoded : Bytes) (success : header.encodeRLP rlp = .ok encoded) (nonneg : header.serializable.NonNegative) :
      decodeRLP rlp encoded = some header ↔ Rlp.Leading header.serializable.optionals ∧ header.eth.withdrawalsHash = none := by
    rw [decodeRLP_written lawful success (fits encoded success), Option.map_eq_some_iff, ← decodeFields_written_iff nonneg numbered]
    constructor
    · rintro ⟨temp, read, same⟩
      obtain ⟨rfl, none⟩ := eq_update_iff.mp same
      exact ⟨read, none⟩
    · rintro ⟨read, none⟩
      exact ⟨_, read, eq_update_iff.mpr ⟨rfl, none⟩⟩
  constructor
  · rintro ⟨encoded, success, decoded⟩
    have nonneg := ((encodeRLP_eq_ok lawful).mp success).1
    exact ⟨nonneg, (decodes encoded success nonneg).mp decoded⟩
  · rintro ⟨nonneg, rest⟩
    have success := encodeRLP_nonneg lawful nonneg
    exact ⟨_, success, (decodes _ success nonneg).mpr rest⟩

/-- Headers that survive are told apart by their encodings. -/
theorem Survives.injective (first : header.Survives rlp) (second : other.Survives rlp)
    (same : header.encodeRLP rlp = other.encodeRLP rlp) : header = other := by
  obtain ⟨encoded, success, decoded⟩ := first
  obtain ⟨encoded', success', decoded'⟩ := second
  cases success.symm.trans (same.trans success')
  exact Option.some.inj (decoded.symm.trans decoded')

end Header

end Snowside.CustomTypes
