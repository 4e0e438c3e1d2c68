import Snowside.Precompile.Settings
import Snowside.Upgrades.Compatible
import Snowside.Upgrades.Configure
import Snowside.Upgrades.WarpPredicate

/-! How activated configurations behave: what they write and which predicates they
accept. Equal ones may differ in what they leave to the chain, or do not compare.
-/

set_option autoImplicit false

namespace Snowside.Upgrades

open Evm (Address FeeConfig FeeValues VerifiedFees)
open Precompile (Hash bigToHash addressToHash ApartFromRoles PrecompileError)
open Precompile.FeeManager (FeeConfigField feeConfigFields feeConfigLastChangedAtKey)
open Precompile.RewardManager (rewardAddressStorageKey allowFeeRecipientsAddressValue blackholeAddr)
open Checked Stateful
open Maps (Map)

/-- The same writes and the same result, whatever the block and the state. -/
def SameConfigure (chain newChain : ChainConfig) (config other : Config) : Prop :=
  ∀ (blockContext : BlockContext) (db : Precompile.StateDB), perform (config.key.configure chain config blockContext) db =
    perform (other.key.configure newChain other blockContext) db

/-- Of one precompile, at one time, both disabling or both of the same effect. -/
structure SameBehaviour {ValidatorSet : Type} (library : WarpLibrary ValidatorSet) (chain newChain : ChainConfig)
    (config other : Config) : Prop where
  key : config.key = other.key
  upgrade : config.upgrade = other.upgrade
  configure : config.isDisabled = false → SameConfigure chain newChain config other
  verifyPredicate : config.isDisabled = false → ∀ predicateContext predicate,
    config.verifyPredicate library predicateContext predicate = other.verifyPredicate library predicateContext predicate

/-! ## What is left to the chain -/

/-- A reward manager without rewards of its own has those of the chain. -/
def firstRewards (chain : ChainConfig) (initialRewardConfig : Option InitialRewardConfig) : InitialRewardConfig :=
  initialRewardConfig.getD { allowFeeRecipients := chain.allowFeeRecipients, rewardAddress := 0 }

/-- The address that is paid; none where fee recipients are. -/
def InitialRewardConfig.paid (config : InitialRewardConfig) : Option Address :=
  if config.allowFeeRecipients then none
  else some (if config.rewardAddress = 0 then blackholeAddr else config.rewardAddress)

/-- The configurations agree in what their comparison leaves out. -/
def SameFallback (chain newChain : ChainConfig) : Config → Config → Prop
  | .warp _ _ requirePrimaryNetworkSigners, .warp _ _ requirePrimaryNetworkSigners' =>
      requirePrimaryNetworkSigners = requirePrimaryNetworkSigners'
  | .feeManager _ _ none, .feeManager _ _ none => chain.feeConfig = newChain.feeConfig
  | .rewardManager _ _ initialRewardConfig, .rewardManager _ _ initialRewardConfig' =>
      (firstRewards chain initialRewardConfig).paid = (firstRewards newChain initialRewardConfig').paid
  | _, _ => True

/-- What is stored for the paid address. -/
def paidValue (paid : Option Address) : Hash := paid.elim allowFeeRecipientsAddressValue addressToHash

theorem paidValue_injective : Function.Injective paidValue := by
  intro first second same
  cases first with
  | none =>
    cases second with
    | none => rfl
    | some address => exact absurd same (Precompile.hashOf_ne_addressToHash (by decide) (by decide) address)
  | some address =>
    cases second with
    | none => exact absurd same.symm (Precompile.hashOf_ne_addressToHash (by decide) (by decide) address)
    | some other => exact congrArg some (Precompile.addressToHash_injective same)

theorem configureRewards_eq {S : Type} [ContractStateDB S] (chain : ChainConfig)
    (initialRewardConfig : Option InitialRewardConfig) (db : S) :
    configureRewards chain initialRewardConfig db = ContractStateDB.setState Module.rewardManager.address
      rewardAddressStorageKey (paidValue (firstRewards chain initialRewardConfig).paid) db := by
  have configured (config : InitialRewardConfig) : config.configure db = ContractStateDB.setState
      Module.rewardManager.address rewardAddressStorageKey (paidValue config.paid) db := by
    unfold InitialRewardConfig.configure InitialRewardConfig.paid
    cases config.allowFeeRecipients with
    | true => rfl
    | false =>
      by_cases none : config.rewardAddress = 0
      · simp only [none, if_true, Bool.false_eq_true, if_false]
        rfl
      · simp only [none, if_false, Bool.false_eq_true]
        rfl
  cases initialRewardConfig with
  | some config => exact configured config
  | none =>
    unfold configureRewards firstRewards
    cases chain.allowFeeRecipients with
    | true => exact configured ⟨true, 0⟩
    | false => exact configured ⟨false, 0⟩

/-! ## Equal configurations that agree in the rest behave alike -/

theorem sameConfigure_of_equal {chain newChain : ChainConfig} {config other : Config} (equal : config.equal other)
    (fallback : SameFallback chain newChain config other) : SameConfigure chain newChain config other := by
  intro blockContext db
  cases config <;> cases other <;> try cases equal
  case deployerAllowList.deployerAllowList =>
    simp only [Config.equal, Bool.and_eq_true, Upgrade.equal_iff, AllowListConfig.equal_iff] at equal
    obtain ⟨rfl, rfl⟩ := equal
    rfl
  case txAllowList.txAllowList =>
    simp only [Config.equal, Bool.and_eq_true, Upgrade.equal_iff, AllowListConfig.equal_iff] at equal
    obtain ⟨rfl, rfl⟩ := equal
    rfl
  case nativeMinter.nativeMinter allowList _ initialMint _ _ initialMint' =>
    simp only [Config.equal, Bool.and_eq_true, Upgrade.equal_iff, AllowListConfig.equal_iff] at equal
    obtain ⟨⟨rfl, rfl⟩, agreed⟩ := equal
    have mints := perform_configureMint (Maps.perm_of_agree (fun _ _ => bigNumEqual_iff.mp) agreed) db
    change perform (configureMint initialMint >>= fun _ => allowList.configure _) db =
      perform (configureMint initialMint' >>= fun _ => allowList.configure _) db
    have minted : perform (configureMint initialMint : Action ConfigureError Precompile.StateDB Unit) db = (.ok (), _) :=
      perform_forM_modify _ _ _
    rw [perform_bind_ok minted, perform_bind_ok (mints.symm.trans minted)]
  case feeManager.feeManager allowList _ initialFeeConfig _ _ initialFeeConfig' =>
    simp only [Config.equal, Bool.and_eq_true, Upgrade.equal_iff, AllowListConfig.equal_iff] at equal
    obtain ⟨⟨rfl, rfl⟩, fees⟩ := equal
    change perform (configureFees chain initialFeeConfig blockContext >>= fun _ => allowList.configure _) db =
      perform (configureFees newChain initialFeeConfig' blockContext >>= fun _ => allowList.configure _) db
    have same : configureFees chain initialFeeConfig blockContext =
        (configureFees newChain initialFeeConfig' blockContext : Action ConfigureError Precompile.StateDB Unit) := by
      cases initialFeeConfig with
      | none =>
        cases initialFeeConfig' with
        | none => simp only [configureFees, show chain.feeConfig = newChain.feeConfig from fallback]
        | some => cases fees
      | some feeConfig =>
        cases initialFeeConfig' with
        | none => cases fees
        | some feeConfig' =>
          simp only [Option.elim_some, feeConfigEqual_iff] at fees
          rw [fees]
          rfl
    rw [same]
  case rewardManager.rewardManager allowList _ initialRewardConfig _ _ initialRewardConfig' =>
    simp only [Config.equal, Bool.and_eq_true, Upgrade.equal_iff, AllowListConfig.equal_iff] at equal
    obtain ⟨⟨-, rfl⟩, rfl⟩ := equal
    have fallback : (firstRewards chain initialRewardConfig).paid = (firstRewards newChain initialRewardConfig').paid := fallback
    change perform (modify (configureRewards chain initialRewardConfig) >>= fun _ => allowList.configure _) db =
      perform (modify (configureRewards newChain initialRewardConfig') >>= fun _ => allowList.configure _) db
    rw [perform_modify_bind, perform_modify_bind, configureRewards_eq, configureRewards_eq, fallback]
  case warp.warp => rfl

/-! ## Configurations that behave alike agree in the rest -/

/-- Configuring an allow list writes at the keys of roles only. -/
theorem getState_configure_allowList {key : Hash} (apart : ApartFromRoles key) (precompileAddr : Address)
    (config : AllowListConfig) (db : Precompile.StateDB) :
    (perform (config.configure precompileAddr) db).2.getState precompileAddr key = db.getState precompileAddr key := by
  let keeps (before after : Precompile.StateDB) : Prop := after.getState precompileAddr key = before.getState precompileAddr key
  have trans (first second third : Precompile.StateDB) (before : keeps first second) (after : keeps second third) :
      keeps first third := Eq.trans after before
  have sets (addresses : List Address) (role : Precompile.Role) : Moves keeps
      (addresses.forM fun address => modify (setAllowListRole precompileAddr address role) :
        Action ConfigureError Precompile.StateDB Unit) :=
    .forM (fun db => show keeps db db from rfl) trans fun address _ => .modify fun db =>
      show keeps db _ from Precompile.getState_setAllowListRole apart db precompileAddr address precompileAddr role
  have moves : Moves keeps (config.configure precompileAddr : Action ConfigureError Precompile.StateDB Unit) :=
    .bind trans (sets _ _) fun _ => .bind trans (sets _ _) fun _ => sets _ _
  exact moves db

theorem bigToHash_injective {number other : Int} (nonneg : 0 ≤ number) (small : number < 2 ^ 256) (nonneg' : 0 ≤ other)
    (small' : other < 2 ^ 256) (same : bigToHash number = bigToHash other) : number = other := by
  have same := congrArg BitVec.toNat same
  simp only [bigToHash, BitVec.toNat_ofNat] at same
  rw [Nat.mod_eq_of_lt (by omega), Nat.mod_eq_of_lt (by omega)] at same
  omega

/-- Words of accepted fees are the fees. -/
theorem fees_of_words {fees other : VerifiedFees}
    (same : ∀ field, bigToHash (FeeConfigField.get fees.toFeeValues field) = bigToHash (field.get other.toFeeValues)) :
    fees.toFeeValues = other.toFeeValues := by
  have rate := fees.targetBlockRate.toNat_lt
  have rate' := other.targetBlockRate.toNat_lt
  have bounds := fees.maxBlockGasCost_lt
  have bounds' := other.maxBlockGasCost_lt
  have ordered := fees.minBlockGasCost_le
  have ordered' := other.minBlockGasCost_le
  have nonneg := fees.minBlockGasCost_nonneg
  have nonneg' := other.minBlockGasCost_nonneg
  have sameRate : (fees.targetBlockRate.toNat : Int) = other.targetBlockRate.toNat := bigToHash_injective (by omega) (by omega)
    (by omega) (by omega) (same .targetBlockRate)
  have gasLimit := bigToHash_injective fees.gasLimit_pos.le fees.gasLimit_lt other.gasLimit_pos.le other.gasLimit_lt
    (same .gasLimit)
  have minBaseFee := bigToHash_injective fees.minBaseFee_nonneg fees.minBaseFee_lt other.minBaseFee_nonneg
    other.minBaseFee_lt (same .minBaseFee)
  have targetGas := bigToHash_injective fees.targetGas_pos.le fees.targetGas_lt other.targetGas_pos.le other.targetGas_lt
    (same .targetGas)
  have denominator := bigToHash_injective fees.baseFeeChangeDenominator_pos.le fees.baseFeeChangeDenominator_lt
    other.baseFeeChangeDenominator_pos.le other.baseFeeChangeDenominator_lt (same .baseFeeChangeDenominator)
  have minCost := bigToHash_injective nonneg (by omega) nonneg'
    (by omega) (same .minBlockGasCost)
  have maxCost := bigToHash_injective (nonneg.trans ordered) (by omega)
    (nonneg'.trans ordered') (by omega) (same .maxBlockGasCost)
  have step := bigToHash_injective fees.blockGasCostStep_nonneg fees.blockGasCostStep_lt other.blockGasCostStep_nonneg
    other.blockGasCostStep_lt (same .blockGasCostStep)
  have sameRate : fees.targetBlockRate = other.targetBlockRate := UInt64.toNat_inj.mp (Int.ofNat_inj.mp sameRate)
  obtain ⟨⟨⟩⟩ := fees
  obtain ⟨⟨⟩⟩ := other
  simp only at gasLimit minBaseFee targetGas denominator minCost maxCost step sameRate
  simp only [FeeValues.mk.injEq]
  exact ⟨gasLimit, sameRate, minBaseFee, targetGas, denominator, minCost, maxCost, step⟩

/-- The fees of a fee manager that has none of its own are found in its storage. -/
theorem getState_configure_feeManager (chain : ChainConfig) {fees : VerifiedFees} (falls : chain.feeConfig = fees.toConfig)
    (allowList : AllowListConfig) (upgrade : Upgrade) (blockContext : BlockContext) (db : Precompile.StateDB)
    (field : FeeConfigField) :
    (perform (Module.feeManager.configure chain (.feeManager allowList upgrade none) blockContext) db).2.getState
      Module.feeManager.address field.key = bigToHash (field.get fees.toFeeValues) := by
  have stored : perform (configureFees chain none blockContext) db =
      (.ok (), (perform (storeFeeConfig fees.toConfig blockContext) db).2) := by
    change (Except.mapError _ (perform (storeFeeConfig chain.feeConfig blockContext) db).1,
      (perform (storeFeeConfig chain.feeConfig blockContext) db).2) = _
    rw [falls, perform_storeFeeConfig]
    rfl
  change (perform (configureFees chain none blockContext >>= fun _ => allowList.configure _) db).2.getState _ _ = _
  rw [perform_bind_ok stored, getState_configure_allowList field.key_apart, perform_storeFeeConfig]
  have behind : field.key ≠ feeConfigLastChangedAtKey := by cases field <;> decide
  exact (Precompile.StateDB.getState_setState_key _ _ _ behind _).trans
    (Precompile.StateDB.getState_foldl_setState FeeConfigField.key_injective (fun field => bigToHash (field.get fees.toFeeValues)) _ db
      (by cases field <;> decide))

theorem getState_configure_rewardManager (chain : ChainConfig) (allowList : AllowListConfig) (upgrade : Upgrade)
    (initialRewardConfig : Option InitialRewardConfig) (blockContext : BlockContext) (db : Precompile.StateDB) :
    (perform (Module.rewardManager.configure chain (.rewardManager allowList upgrade initialRewardConfig) blockContext)
      db).2.getState Module.rewardManager.address rewardAddressStorageKey =
        paidValue (firstRewards chain initialRewardConfig).paid := by
  change (perform (modify (configureRewards chain initialRewardConfig) >>= fun _ => allowList.configure _) db).2.getState
    _ _ = _
  rw [perform_modify_bind, getState_configure_allowList Precompile.RewardManager.rewardAddressStorageKey_apart,
    configureRewards_eq]
  exact Precompile.StateDB.getState_setState_same ..

/-- Configurations of verified chains that behave alike leave the same to the chain. -/
theorem sameFallback_of_behaviour {ValidatorSet : Type} {library : WarpLibrary ValidatorSet}
    (discerning : library.Discerning) {chain newChain : ChainConfig} (fees : chain.feeConfig.verify = .ok ())
    (newFees : newChain.feeConfig.verify = .ok ()) {config other : Config} {networkUpgrades newUpgrades : Evm.NetworkUpgrades}
    (verified : config.verify networkUpgrades = .ok ()) (newVerified : other.verify newUpgrades = .ok ())
    (enabled : config.isDisabled = false) (behaviour : SameBehaviour library chain newChain config other) :
    SameFallback chain newChain config other := by
  have configure := behaviour.configure enabled
  have predicates := behaviour.verifyPredicate enabled
  unfold SameFallback
  split
  · have quorum {upgrade : Upgrade} {quorumNumerator : UInt64} {flag : Bool} {upgrades : Evm.NetworkUpgrades}
        (verified : Config.verify upgrades (.warp upgrade quorumNumerator flag) = .ok ()) :
        quorumNumerator ≤ warpQuorumDenominator := by
      obtain ⟨_, -, verified⟩ := bind_eq_ok.mp verified
      obtain ⟨_, bounded, -⟩ := bind_eq_ok.mp verified
      exact UInt64.not_lt.mp (refuse_eq_ok.mp bounded)
    exact requirePrimary_of_same discerning (quorum verified) (quorum newVerified) fun predicateContext predicate =>
      Option.some.inj (predicates predicateContext predicate)
  · next allowList upgrade allowList' upgrade' =>
    obtain ⟨values, falls⟩ := Evm.FeeConfig.verify_eq_ok.mp fees
    obtain ⟨newValues, newFalls⟩ := Evm.FeeConfig.verify_eq_ok.mp newFees
    have same : values.toFeeValues = newValues.toFeeValues := by
      refine fees_of_words fun field => ?_
      rw [← getState_configure_feeManager chain falls allowList upgrade ⟨0, 0⟩ blankStateDB field,
        ← getState_configure_feeManager newChain newFalls allowList' upgrade' ⟨0, 0⟩ blankStateDB field]
      exact congrArg (fun ended : Except ConfigureError Unit × Precompile.StateDB =>
        ended.2.getState Module.feeManager.address field.key) (configure ⟨0, 0⟩ blankStateDB)
    rw [falls, newFalls, same]
  · next allowList upgrade initialRewardConfig allowList' upgrade' initialRewardConfig' =>
    refine paidValue_injective ?_
    rw [← getState_configure_rewardManager chain allowList upgrade initialRewardConfig ⟨0, 0⟩ blankStateDB,
      ← getState_configure_rewardManager newChain allowList' upgrade' initialRewardConfig' ⟨0, 0⟩ blankStateDB]
    exact congrArg (fun ended : Except ConfigureError Unit × Precompile.StateDB =>
      ended.2.getState Module.rewardManager.address rewardAddressStorageKey) (configure ⟨0, 0⟩ blankStateDB)
  · trivial

/-- Equal configurations that leave the same to the chain behave alike. -/
theorem sameBehaviour_of_equal {ValidatorSet : Type} (library : WarpLibrary ValidatorSet) {chain newChain : ChainConfig}
    {config other : Config} (equal : config.equal other)
    (fallback : config.isDisabled = false → SameFallback chain newChain config other) :
    SameBehaviour library chain newChain config other where
  key := (Config.of_equal equal).1
  upgrade := (Config.of_equal equal).2
  configure enabled := sameConfigure_of_equal equal (fallback enabled)
  verifyPredicate enabled predicateContext predicate := by
    have left := fallback enabled
    cases config <;> cases other <;> try cases equal
    case warp.warp upgrade quorumNumerator flag upgrade' quorumNumerator' flag' =>
      simp only [Config.equal, Bool.and_eq_true, decide_eq_true_eq] at equal
      obtain ⟨-, rfl⟩ := equal
      have left : flag = flag' := left
      subst left
      rfl
    all_goals rfl

end Snowside.Upgrades
