import Snowside.Precompile.Settings

/-! Setting the fees: eight words that are unpacked, verified, stored and read again. -/

set_option autoImplicit false

namespace Snowside.Precompile

open Numeral
open Evm (Address Bytes FeeValues VerifiedFees)
open Checked Stateful

/-! ## Words -/

@[simp] theorem Hash.length_bytes (hash : Hash) : hash.bytes.length = hashLength := by
  simp [Hash.bytes]

theorem bytesToHash_bytes (hash : Hash) : bytesToHash hash.bytes = hash := by
  have digits : hash.bytes.map UInt8.toNat = spellFixed 256 hashLength hash.toNat :=
    map_toNat_ofNat (spellFixed_lt (by decide) hashLength hash.toNat)
  have small : hash.toNat % 256 ^ hashLength = hash.toNat := Nat.mod_eq_of_lt hash.isLt
  rw [bytesToHash, digits, value_spellFixed, small, BitVec.ofNat_toNat, BitVec.setWidth_eq]

theorem length_packWords (words : List Hash) : (packWords words).length = hashLength * words.length := by
  induction words with
  | nil => rfl
  | cons word words ih =>
    rw [packWords, List.flatMap_cons, List.length_append, Hash.length_bytes, ← packWords, ih, List.length_cons, Nat.mul_succ,
      Nat.add_comm]

theorem wordAt_packWords {words : List Hash} {index : Nat} (small : index < words.length) :
    wordAt (packWords words) (hashLength * index) = .ok words[index] := by
  have long : hashLength * (index + 1) ≤ hashLength * words.length := Nat.mul_le_mul_left _ small
  rw [Nat.mul_succ] at long
  unfold wordAt
  rw [if_neg (by rw [length_packWords]; omega)]
  congr 1
  clear long
  induction words generalizing index with
  | nil => cases small
  | cons word words ih =>
    rw [packWords, List.flatMap_cons, ← packWords]
    cases index with
    | zero =>
      rw [Nat.mul_zero, List.drop_zero, List.take_left' word.length_bytes, bytesToHash_bytes]
      rfl
    | succ index =>
      rw [Nat.mul_succ, Nat.add_comm, ← List.drop_drop, List.drop_left' word.length_bytes]
      exact ih (Nat.lt_of_succ_lt_succ small)

theorem readWords_packWords (words : List Hash) (count : Nat) (enough : count ≤ words.length) :
    readWords (packWords words) count = .ok (Vector.ofFn fun index : Fin count => words[index]) := by
  induction count with
  | zero => rfl
  | succ count ih =>
    rw [readWords, ih (Nat.le_of_succ_le enough), ok_bind, wordAt_packWords (Nat.lt_of_succ_le enough), ok_bind, pure_eq,
      Vector.ofFn_succ]
    rfl

/-- Packed words are unpacked. -/
theorem unpackWords_packWords {count : Nat} (words : Vector Hash count) (some_words : count ≠ 0) (useStrictMode : Bool) :
    unpackWords (packWords words.toList) count useStrictMode = .ok words := by
  have length : (packWords words.toList).length = hashLength * count := by rw [length_packWords, Vector.length_toList]
  have whole : (packWords words.toList).length % hashLength = 0 := by rw [length, Nat.mul_mod_right]
  have filled : (packWords words.toList).length ≠ 0 := by
    rw [length]
    exact Nat.mul_ne_zero (by decide) some_words
  unfold unpackWords checkInput
  rw [if_neg fun failed => failed.2 whole, if_neg filled, ok_bind,
    readWords_packWords words.toList count (Nat.le_of_eq words.length_toList.symm)]
  congr 1
  ext index small
  simp

/-! ## Charges -/

theorem perform_charge_bind {α : Type} {requiredGas : UInt64} {before : Machine} (enough : requiredGas ≤ before.gas)
    (next : Unit → Execution α) :
    perform (charge requiredGas >>= next) before = perform (next ()) { before with gas := before.gas - requiredGas } := by
  have deducted : deductGas before.gas requiredGas = (before.gas - requiredGas, .ok ()) := if_neg (UInt64.not_lt.mpr enough)
  refine perform_bind_ok ?_
  show ((deductGas before.gas requiredGas).2, { before with gas := (deductGas before.gas requiredGas).1 }) = _
  rw [deducted]

namespace FeeManager

open Evm.FeeValues

variable {accessibleState : AccessibleState} {number : UInt64} {caller : Address} {words : Vector Hash numFeeConfigField}
  {before : StateDB} {gas : UInt64}

/-- The word of a field. -/
def wordOf (words : Vector Hash numFeeConfigField) (field : FeeConfigField) : Hash := words.get field.index

theorem toList_words (words : Vector Hash numFeeConfigField) : feeConfigFields.map (wordOf words) = words.toList := by
  refine List.ext_getElem (by simp [feeConfigFields]) fun index small _ => ?_
  have small : index < 8 := small
  interval_cases index <;> rfl

theorem unpackSetFeeConfigInput_packWords (words : Vector Hash numFeeConfigField) (useStrictMode : Bool) :
    unpackSetFeeConfigInput (packWords words.toList) useStrictMode = .ok (feesOf (wordOf words)) := by
  have length : (packWords words.toList).length = feeConfigInputLen := by rw [length_packWords, Vector.length_toList]; rfl
  have passes : refuse (useStrictMode ∧ (packWords words.toList).length ≠ feeConfigInputLen)
      (PrecompileError.invalidLen (packWords words.toList).length) = .ok () := refuse_eq_ok.mpr fun failed => failed.2 length
  unfold unpackSetFeeConfigInput
  rw [passes, ok_bind, unpackWords_packWords words (by decide)]
  rfl

/-- With the gas for it, an enabled caller's configuration is stored. -/
theorem perform_setFeeConfig (words : Vector Hash numFeeConfigField) (numbered : accessibleState.blockNumber = some (number.toNat : Int))
    (enabled : (getAllowListStatus before contractAddress caller).isEnabled)
    (enough : setFeeConfigGasCost.toNat + feeConfigChangedEventGasCost.toNat ≤ gas.toNat) :
    ∃ gas' logs, perform (setFeeConfig accessibleState caller (packWords words.toList) false) ⟨gas, before⟩ =
      perform (onState (storeFeeConfig (feesOf (wordOf words)).toConfig (some (number.toNat : Int))) >>= fun _ => return [])
        ⟨gas', { before with logs }⟩ := by
  have costs : setFeeConfigGasCost.toNat = 180000 ∧ feeConfigChangedEventGasCost.toNat = 45221 := by decide +kernel
  have first : setFeeConfigGasCost ≤ gas := UInt64.le_iff_toNat_le.mpr (by omega)
  have second : feeConfigChangedEventGasCost ≤ gas - setFeeConfigGasCost := by
    rw [UInt64.le_iff_toNat_le, UInt64.toNat_sub_of_le _ _ first]
    omega
  have writable : refuse (false = true) PrecompileError.writeProtection = .ok () := rfl
  have permitted : refuse ((getAllowListStatus before contractAddress caller).isEnabled = false)
      (PrecompileError.cannotChangeFee caller) = .ok () := refuse_eq_ok.mpr (by rw [enabled]; decide)
  unfold setFeeConfig Setter.execute
  rw [perform_charge_bind first]
  simp only [setFeeConfigSetter, writable, check_ok_bind, unpackSetFeeConfigInput_packWords]
  show ∃ gas' logs, perform (check (refuse ((getAllowListStatus before contractAddress caller).isEnabled = false)
    (PrecompileError.cannotChangeFee caller)) >>= fun _ => _) _ = _
  rw [permitted]
  simp only [check_ok_bind]
  unfold announce
  by_cases durango : accessibleState.rules.isDurangoActivated
  · rw [if_pos durango]
    simp only [bind_assoc]
    rw [perform_charge_bind second]
    simp only [emit, numbered, need_some, check_ok_bind]
    exact ⟨gas - setFeeConfigGasCost - feeConfigChangedEventGasCost, _, rfl⟩
  · rw [if_neg durango, pure_bind, numbered]
    exact ⟨gas - setFeeConfigGasCost, before.logs, rfl⟩

/-! ## Storing and reading -/

/-- Where a verified configuration is in force. -/
def stored (fees : FeeValues) (number : UInt64) (db : StateDB) : StateDB :=
  (feeConfigFields.foldl (fun db field => db.setState contractAddress field.key (bigToHash (field.get fees))) db).setState
    contractAddress feeConfigLastChangedAtKey (bigToHash (number.toNat : Int))

theorem perform_storeFeeConfig (fees : VerifiedFees) (number : UInt64) (db : StateDB) :
    perform (storeFeeConfig fees.toConfig (some (number.toNat : Int))) db = (.ok (), stored fees.toFeeValues number db) := by
  have verified : fees.toConfig.verify = .ok () := Evm.FeeConfig.verify_eq_ok.mpr ⟨fees, rfl⟩
  unfold storeFeeConfig
  rw [verified, Evm.FeeValues.values_toConfig]
  simp only [Except.mapError, check_ok_bind]
  rw [perform_bind_ok (perform_forM_modify _ _ _), need_some, check_ok_bind, perform_modify]
  rfl

theorem getState_stored (fees : FeeValues) (number : UInt64) (db : StateDB) (field : FeeConfigField) :
    (stored fees number db).getState contractAddress field.key = bigToHash (field.get fees) := by
  have behind : field.key ≠ feeConfigLastChangedAtKey := by cases field <;> decide
  have found := StateDB.getState_foldl_setState FeeConfigField.key_injective (fun field => bigToHash (field.get fees))
    contractAddress db (show field ∈ feeConfigFields by cases field <;> decide)
  exact (StateDB.getState_setState_key _ _ _ behind _).trans found

theorem big_bigToHash {number : Nat} (small : number < 2 ^ 256) : (bigToHash (number : Int)).big = number := by
  rw [Hash.big, bigToHash, BitVec.toNat_ofNat, Int.natAbs_natCast, Nat.mod_eq_of_lt small]

theorem getFeeConfigLastChangedAt_stored (fees : FeeValues) (number : UInt64) (db : StateDB) :
    getFeeConfigLastChangedAt (stored fees number db) = number.toNat := by
  have small := number.toNat_lt
  unfold getFeeConfigLastChangedAt stored
  rw [StateDB.getState_setState_same, big_bigToHash (by omega)]

theorem bigToHash_big (hash : Hash) : bigToHash hash.big = hash := by
  rw [Hash.big, bigToHash, Int.natAbs_natCast, BitVec.ofNat_toNat, BitVec.setWidth_eq]

/-- Only the block rate is narrower than its word. -/
theorem get_feesOf {word : FeeConfigField → Hash} (fits : (word .targetBlockRate).toNat < 2 ^ 64) (field : FeeConfigField) :
    field.get (feesOf word) = (word field).big := by
  cases field with
  | targetBlockRate =>
    have exact_rate : (UInt64.ofNat (word .targetBlockRate).toNat).toNat = (word .targetBlockRate).toNat := by
      rw [UInt64.toNat_ofNat', Nat.mod_eq_of_lt fits]
    show ((UInt64.ofNat (word .targetBlockRate).toNat).toNat : Int) = (word .targetBlockRate).toNat
    rw [exact_rate]
  | _ => rfl

/-- The configuration that the words give is what is read again, if the block rate fits. -/
theorem getStoredFeeConfig_stored (fits : (wordOf words .targetBlockRate).toNat < 2 ^ 64) (number : UInt64) (db : StateDB) :
    getStoredFeeConfig (stored (feesOf (wordOf words)) number db) = feesOf (wordOf words) := by
  have kept : (fun field => (stored (feesOf (wordOf words)) number db).getState contractAddress (FeeConfigField.key field)) =
      wordOf words := by
    funext field
    rw [getState_stored, get_feesOf fits, bigToHash_big]
  rw [getStoredFeeConfig, kept]

/-! ## What is accepted -/

/-- After a call the accepted words are in force, or nothing in storage has changed. -/
structure InForce (accessibleState : AccessibleState) (number : UInt64) (words : Vector Hash numFeeConfigField) (before : StateDB)
    (result : Except PrecompileError Bytes) (after : StateDB) : Prop where
  read : ∀ output, result = .ok output → ∀ caller input readOnly gas, getFeeConfigGasCost ≤ gas →
    (perform (getFeeConfig accessibleState caller input readOnly) ⟨gas, after⟩).1 = .ok (packWords words.toList)
  stored : ∀ output, result = .ok output → ∀ field : FeeConfigField, field.get (getStoredFeeConfig after) = (wordOf words field).big
  changedAt : ∀ output, result = .ok output → getFeeConfigLastChangedAt after = number.toNat
  kept : ∀ error, result = .error error → after.storage = before.storage

theorem perform_getFeeConfig {db : StateDB} {input : Bytes} {readOnly : Bool} (enough : getFeeConfigGasCost ≤ gas) :
    (perform (getFeeConfig accessibleState caller input readOnly) ⟨gas, db⟩).1 = .ok (packWords (packFees (getStoredFeeConfig db))) := by
  unfold getFeeConfig reader
  rw [perform_charge_bind enough]
  rfl

/-- Accepted words are in force exactly if the block rate fits in 64 bits, or its low bits are refused with the rest. -/
theorem setFeeConfig_inForce_iff (numbered : accessibleState.blockNumber = some (number.toNat : Int))
    (enabled : (getAllowListStatus before contractAddress caller).isEnabled)
    (enough : setFeeConfigGasCost.toNat + feeConfigChangedEventGasCost.toNat ≤ gas.toNat) :
    InForce accessibleState number words before
        (perform (setFeeConfig accessibleState caller (packWords words.toList) false) ⟨gas, before⟩).1
        (perform (setFeeConfig accessibleState caller (packWords words.toList) false) ⟨gas, before⟩).2.db ↔
      (wordOf words .targetBlockRate).toNat < 2 ^ 64 ∨ (feesOf (wordOf words)).toConfig.verify ≠ .ok () := by
  obtain ⟨gas', logs, performed⟩ := perform_setFeeConfig words numbered enabled enough
  rw [performed]
  cases verified : (feesOf (wordOf words)).toConfig.verify with
  | error cause =>
    have refused : perform (storeFeeConfig (feesOf (wordOf words)).toConfig (some (number.toNat : Int))) { before with logs } =
        (.error (.feeConfig cause), { before with logs }) := by
      unfold storeFeeConfig
      rw [verified]
      rfl
    have failed : perform (onState (storeFeeConfig (feesOf (wordOf words)).toConfig (some (number.toNat : Int))) >>=
        fun _ => (return [] : Execution Bytes)) ⟨gas', { before with logs }⟩ = (.error (.feeConfig cause), ⟨gas', { before with logs }⟩) := by
      refine perform_bind_error ?_
      unfold onState
      rw [perform_zoom, refused]
    rw [failed]
    refine ⟨fun _ => .inr fun impossible => (by cases impossible), fun _ => ⟨?_, ?_, ?_, fun _ _ => rfl⟩⟩
    all_goals exact fun _ impossible => (by cases impossible)
  | ok done =>
    obtain ⟨fees, same⟩ := Evm.FeeConfig.verify_eq_ok.mp verified
    have same : feesOf (wordOf words) = fees.toFeeValues := FeeValues.toConfig_injective same
    have succeeded : perform (onState (storeFeeConfig (feesOf (wordOf words)).toConfig (some (number.toNat : Int))))
        ⟨gas', { before with logs }⟩ = (.ok (), ⟨gas', stored (feesOf (wordOf words)) number { before with logs }⟩) := by
      unfold onState
      rw [perform_zoom, same, perform_storeFeeConfig]
    rw [perform_bind_ok succeeded, perform_pure]
    constructor
    · intro inForce
      -- What is stored as the block rate has 64 bits.
      have rate := inForce.stored [] rfl .targetBlockRate
      have small := (getStoredFeeConfig (stored (feesOf (wordOf words)) number { before with logs })).targetBlockRate.toNat_lt
      refine .inl ?_
      have rate : ((getStoredFeeConfig (stored (feesOf (wordOf words)) number { before with logs })).targetBlockRate.toNat : Int) =
        (wordOf words .targetBlockRate).toNat := rate
      omega
    · rintro (fits | impossible)
      · have kept := getStoredFeeConfig_stored fits number { before with logs }
        refine ⟨fun _ _ caller input readOnly gas enough => ?_, fun _ _ field => ?_, fun _ _ => ?_,
          fun _ impossible => (by cases impossible)⟩
        · have packed : packFees (feesOf (wordOf words)) = words.toList := by
            rw [packFees, ← toList_words]
            exact List.map_congr_left fun field _ => by rw [get_feesOf fits, bigToHash_big]
          rw [perform_getFeeConfig enough, kept, packed]
        · rw [kept]
          exact get_feesOf fits field
        · exact getFeeConfigLastChangedAt_stored _ number _
      · exact absurd rfl impossible

/-! ## Samples -/

/-- Before Durango, at block 7. -/
def sampleState : AccessibleState where
  rules := ⟨false, false⟩
  blockNumber := some 7
  chainID := 0
  networkID := 1
  getPredicate _ _ := none
  predicateResults _ _ := false

/-- The address 1 is an admin. -/
def sampleDB : StateDB where
  storage address key := if address = contractAddress ∧ key = addressToHash 1 then Role.adminRole.hash else 0
  balance _ := 0
  exist _ := true
  logs := []

def sampleWords (targetBlockRate : Hash) : Vector Hash numFeeConfigField :=
  #v[8000000, targetBlockRate, 25, 15000000, 36, 0, 1000000, 200000]

/-- A block rate of 2^64 + 2 is accepted as one of 2. -/
theorem wideRate_truncated : ¬ ∀ (accessibleState : AccessibleState) (number : UInt64) (caller : Address)
    (words : Vector Hash numFeeConfigField) (before : StateDB) (gas : UInt64),
    accessibleState.blockNumber = some (number.toNat : Int) → (getAllowListStatus before contractAddress caller).isEnabled →
    setFeeConfigGasCost.toNat + feeConfigChangedEventGasCost.toNat ≤ gas.toNat →
    InForce accessibleState number words before
      (perform (setFeeConfig accessibleState caller (packWords words.toList) false) ⟨gas, before⟩).1
      (perform (setFeeConfig accessibleState caller (packWords words.toList) false) ⟨gas, before⟩).2.db := by
  intro claimed
  have inForce := claimed sampleState 7 1 (sampleWords 18446744073709551618) sampleDB 1000000 rfl (by decide +kernel)
    (by decide +kernel)
  have rate := inForce.stored [] (by decide +kernel) .targetBlockRate
  exact absurd rate (by decide +kernel)

theorem setFeeConfig_inForce_iff_sample : InForce sampleState 7 (sampleWords 2) sampleDB
    (perform (setFeeConfig sampleState 1 (packWords (sampleWords 2).toList) false) ⟨1000000, sampleDB⟩).1
    (perform (setFeeConfig sampleState 1 (packWords (sampleWords 2).toList) false) ⟨1000000, sampleDB⟩).2.db :=
  (setFeeConfig_inForce_iff rfl (by decide +kernel) (by decide +kernel)).mpr (.inl (by decide +kernel))

end FeeManager

end Snowside.Precompile
