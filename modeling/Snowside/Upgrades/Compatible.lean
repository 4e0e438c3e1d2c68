import Snowside.Upgrades.Verified

/-! Whether a configuration may replace another on a chain that has come to some
time: what is activated must be equal, entry by entry.
-/

set_option autoImplicit false

namespace Snowside.Upgrades

open Evm (Address FeeConfig NetworkUpgrades isTimestampForked)
open Checked

/-! ## Equal configurations -/

/-- Both nil, or both of one value. -/
def bigNumEqual (x y : Option Int) : Bool :=
  match x, y with
  | none, none => true
  | some first, some second => first = second
  | _, _ => false

def configTimestampEqual (x y : Option UInt64) : Bool :=
  match x, y with
  | none, none => true
  | some first, some second => first = second
  | _, _ => false

/-- `Uint64PtrEqual`. -/
def uint64PtrEqual (x y : Option UInt64) : Bool := configTimestampEqual x y

def Upgrade.equal (upgrade other : Upgrade) : Bool :=
  upgrade.disable = other.disable && uint64PtrEqual upgrade.blockTimestamp other.blockTimestamp

def AllowListConfig.equal (config other : AllowListConfig) : Bool :=
  config.adminAddresses = other.adminAddresses && config.managerAddresses = other.managerAddresses &&
    config.enabledAddresses = other.enabledAddresses

def feeConfigEqual (config other : FeeConfig) : Bool :=
  bigNumEqual config.gasLimit other.gasLimit &&
    config.targetBlockRate = other.targetBlockRate &&
    bigNumEqual config.minBaseFee other.minBaseFee &&
    bigNumEqual config.targetGas other.targetGas &&
    bigNumEqual config.baseFeeChangeDenominator other.baseFeeChangeDenominator &&
    bigNumEqual config.minBlockGasCost other.minBlockGasCost &&
    bigNumEqual config.maxBlockGasCost other.maxBlockGasCost &&
    bigNumEqual config.blockGasCostStep other.blockGasCostStep

def InitialRewardConfig.equal (config other : InitialRewardConfig) : Bool :=
  config.allowFeeRecipients = other.allowFeeRecipients && config.rewardAddress = other.rewardAddress

/-- Nothing is asked of the other's rewards where there are none. -/
def equalRewards (initialRewardConfig other : Option InitialRewardConfig) : Bool :=
  initialRewardConfig.elim true fun config => other.elim false config.equal

def Config.equal : Config → Config → Bool
  | deployerAllowList allowList upgrade, deployerAllowList allowList' upgrade' =>
      upgrade.equal upgrade' && allowList.equal allowList'
  | nativeMinter allowList upgrade initialMint, nativeMinter allowList' upgrade' initialMint' =>
      upgrade.equal upgrade' && allowList.equal allowList' && Maps.agree bigNumEqual initialMint initialMint'
  | txAllowList allowList upgrade, txAllowList allowList' upgrade' =>
      upgrade.equal upgrade' && allowList.equal allowList'
  | feeManager allowList upgrade initialFeeConfig, feeManager allowList' upgrade' initialFeeConfig' =>
      upgrade.equal upgrade' && allowList.equal allowList' &&
        match initialFeeConfig with
        | none => initialFeeConfig'.isNone
        | some feeConfig => initialFeeConfig'.elim false (feeConfigEqual feeConfig)
  | rewardManager allowList upgrade initialRewardConfig, rewardManager allowList' upgrade' initialRewardConfig' =>
      equalRewards initialRewardConfig initialRewardConfig' && upgrade.equal upgrade' && allowList.equal allowList'
  -- The flag for signers of the primary network is not compared.
  | warp upgrade quorumNumerator _, warp upgrade' quorumNumerator' _ =>
      upgrade.equal upgrade' && quorumNumerator = quorumNumerator'
  | _, _ => false

/-- Deeply equal: maps by their entries, nil apart from empty. -/
def StateUpgradeAccount.equal (account other : StateUpgradeAccount) : Bool :=
  account.code = other.code && account.balanceChange = other.balanceChange &&
    match account.storage, other.storage with
    | none, none => true
    | some storage, some storage' => Maps.agree (fun value value' => value = value') storage storage'
    | _, _ => false

def StateUpgrade.equal (upgrade other : StateUpgrade) : Bool :=
  upgrade.blockTimestamp = other.blockTimestamp &&
    match upgrade.stateUpgradeAccounts, other.stateUpgradeAccounts with
    | none, none => true
    | some accounts, some accounts' => Maps.agree StateUpgradeAccount.equal accounts accounts'
    | _, _ => false

/-! ## Compatible configurations -/

/-- What is wrong: a fork, or an entry of a list of upgrades. -/
inductive Incompatible where
  | fork (name : String)
  | missing (list : String) (index : Nat)
  | changed (list : String) (index : Nat)
  | retroactive (list : String) (index : Nat)
  deriving DecidableEq, Repr

structure ConfigCompatError where
  what : Incompatible
  storedTime : Option UInt64
  newTime : Option UInt64
  deriving DecidableEq, Repr

def isForkTimestampIncompatible (first second : Option UInt64) (head : UInt64) : Bool :=
  (isTimestampForked first head || isTimestampForked second head) && !configTimestampEqual first second

/-- The network upgrades with their names. -/
def namedForks : List (String × (NetworkUpgrades → Option UInt64)) := [
  ("SubnetEVM fork block timestamp", NetworkUpgrades.subnetEVMTimestamp),
  ("Durango fork block timestamp", NetworkUpgrades.durangoTimestamp),
  ("Etna fork block timestamp", NetworkUpgrades.etnaTimestamp),
  ("Fortuna fork block timestamp", NetworkUpgrades.fortunaTimestamp),
  ("Granite fork block timestamp", NetworkUpgrades.graniteTimestamp),
  ("Helicon fork block timestamp", NetworkUpgrades.heliconTimestamp)]

def checkNetworkUpgradesCompatible (networkUpgrades newUpgrades : NetworkUpgrades) (time : UInt64) :
    Except ConfigCompatError Unit :=
  namedForks.forM fun fork =>
    refuse (isForkTimestampIncompatible (fork.2 networkUpgrades) (fork.2 newUpgrades) time)
      ⟨.fork fork.1, fork.2 networkUpgrades, fork.2 newUpgrades⟩

/-- What has activated must be there and equal, with nothing behind it. -/
def checkActivated {Item : Type} (list : String) (time : Item → Option UInt64) (equal : Item → Item → Bool)
    (index : Nat) : List Item → List Item → Except ConfigCompatError Unit
  | [], [] => .ok ()
  | upgrade :: _, [] => .error ⟨.missing list index, time upgrade, none⟩
  | upgrade :: active, newUpgrade :: new => do
      refuse (equal upgrade newUpgrade = false) ⟨.changed list index, time upgrade, time newUpgrade⟩
      checkActivated list time equal (index + 1) active new
  | [], newUpgrade :: _ => .error ⟨.retroactive list index, none, time newUpgrade⟩

namespace ChainConfig

variable (config : ChainConfig)

def checkPrecompileCompatible (address : Address) (precompileUpgrades : List Config) (time : UInt64) :
    Except ConfigCompatError Unit :=
  let activeUpgrades := config.getActivatingPrecompileConfigs address none time config.precompileUpgrades
  let newUpgrades := config.getActivatingPrecompileConfigs address none time precompileUpgrades
  checkActivated "PrecompileUpgrade" Config.timestamp Config.equal 0 activeUpgrades newUpgrades

def checkPrecompilesCompatible (precompileUpgrades : List Config) (time : UInt64) : Except ConfigCompatError Unit :=
  registeredModules.forM fun module => config.checkPrecompileCompatible module.address precompileUpgrades time

def checkStateUpgradesCompatible (stateUpgrades : List StateUpgrade) (lastTimestamp : UInt64) :
    Except ConfigCompatError Unit :=
  let activeUpgrades := getActivatingStateUpgrades none lastTimestamp config.stateUpgrades
  let newUpgrades := getActivatingStateUpgrades none lastTimestamp stateUpgrades
  checkActivated "StateUpgrade" StateUpgrade.blockTimestamp StateUpgrade.equal 0 activeUpgrades newUpgrades

def checkConfigCompatible (newConfig : ChainConfig) (headTimestamp : UInt64) : Except ConfigCompatError Unit := do
  checkNetworkUpgradesCompatible config.networkUpgrades newConfig.networkUpgrades headTimestamp
  config.checkPrecompilesCompatible newConfig.precompileUpgrades headTimestamp
  config.checkStateUpgradesCompatible newConfig.stateUpgrades headTimestamp

end ChainConfig

/-! ## What equal says -/

@[simp] theorem bigNumEqual_iff {x y : Option Int} : bigNumEqual x y ↔ x = y := by
  cases x <;> cases y <;> simp [bigNumEqual]

@[simp] theorem configTimestampEqual_iff {x y : Option UInt64} : configTimestampEqual x y ↔ x = y := by
  cases x <;> cases y <;> simp [configTimestampEqual]

@[simp] theorem Upgrade.equal_iff {upgrade other : Upgrade} : upgrade.equal other ↔ upgrade = other := by
  obtain ⟨blockTimestamp, disable⟩ := upgrade
  obtain ⟨blockTimestamp', disable'⟩ := other
  simp only [equal, uint64PtrEqual, Bool.and_eq_true, decide_eq_true_eq, configTimestampEqual_iff, mk.injEq]
  exact And.comm

@[simp] theorem AllowListConfig.equal_iff {config other : AllowListConfig} : config.equal other ↔ config = other := by
  obtain ⟨admins, managers, enabled⟩ := config
  obtain ⟨admins', managers', enabled'⟩ := other
  simp only [equal, Bool.and_eq_true, decide_eq_true_eq, mk.injEq, and_assoc]

@[simp] theorem feeConfigEqual_iff {config other : FeeConfig} : feeConfigEqual config other ↔ config = other := by
  obtain ⟨⟩ := config
  obtain ⟨⟩ := other
  simp only [feeConfigEqual, Bool.and_eq_true, bigNumEqual_iff, decide_eq_true_eq, FeeConfig.mk.injEq, and_assoc]

@[simp] theorem InitialRewardConfig.equal_iff {config other : InitialRewardConfig} :
    config.equal other ↔ config = other := by
  obtain ⟨allowed, address⟩ := config
  obtain ⟨allowed', address'⟩ := other
  simp only [equal, Bool.and_eq_true, decide_eq_true_eq, mk.injEq]

theorem equalRewards_refl (initialRewardConfig : Option InitialRewardConfig) :
    equalRewards initialRewardConfig initialRewardConfig := by
  cases initialRewardConfig <;> simp [equalRewards]

theorem Config.equal_refl (config : Config) : config.equal config := by
  cases config with
  | feeManager allowList upgrade initialFeeConfig => cases initialFeeConfig <;> simp [equal]
  | nativeMinter allowList upgrade initialMint =>
    have same := Maps.agree_refl (fun value => bigNumEqual_iff.mpr rfl) initialMint
    simp [equal, same]
  | _ => simp [equal, equalRewards_refl]

theorem StateUpgradeAccount.equal_refl (account : StateUpgradeAccount) : account.equal account := by
  obtain ⟨code, storage, balanceChange⟩ := account
  cases storage with
  | none => simp [equal]
  | some storage =>
    have same : Maps.agree (fun value value' => decide (value = value')) storage storage :=
      Maps.agree_refl (fun value => by simp) storage
    simp [equal, same]

theorem StateUpgrade.equal_refl (upgrade : StateUpgrade) : upgrade.equal upgrade := by
  obtain ⟨blockTimestamp, accounts⟩ := upgrade
  cases accounts with
  | none => simp [equal]
  | some accounts =>
    have same := Maps.agree_refl StateUpgradeAccount.equal_refl accounts
    simp [equal, same]

/-- Equal configurations are of one precompile, with one time and one flag. -/
theorem Config.of_equal {config other : Config} (equal : config.equal other) :
    config.key = other.key ∧ config.upgrade = other.upgrade := by
  cases config <;> cases other <;> simp_all [Config.equal, key, upgrade]

/-! ## What the checks accept -/

theorem checkActivated_eq_ok {Item : Type} {list : String} {time : Item → Option UInt64} {equal : Item → Item → Bool}
    {index : Nat} {active new : List Item} :
    checkActivated list time equal index active new = .ok () ↔ List.Forall₂ (fun one other => equal one other) active new := by
  induction active generalizing index new with
  | nil =>
    cases new with
    | nil => exact ⟨fun _ => .nil, fun _ => rfl⟩
    | cons upgrade new =>
      refine ⟨fun failed => ?_, fun none => ?_⟩
      · cases failed
      · cases none
  | cons upgrade active ih =>
    cases new with
    | nil =>
      refine ⟨fun failed => ?_, fun none => ?_⟩
      · cases failed
      · cases none
    | cons newUpgrade new =>
      rw [List.forall₂_cons, ← @ih (index + 1)]
      simp only [checkActivated, bind_eq_ok, refuse_eq_ok, Bool.not_eq_false, exists_and_left, exists_const]

theorem forM_eq_ok {Item Error : Type} {items : List Item} {check : Item → Except Error Unit} :
    items.forM check = .ok () ↔ ∀ item ∈ items, check item = .ok () := by
  induction items with
  | nil => simp [List.forM, pure_eq]
  | cons item rest ih =>
    change (check item >>= fun _ => rest.forM check) = _ ↔ _
    simp only [bind_eq_ok, ih, List.forall_mem_cons, exists_and_right]
    exact ⟨fun ⟨⟨_, holds⟩, others⟩ => ⟨holds, others⟩, fun ⟨holds, others⟩ => ⟨⟨(), holds⟩, others⟩⟩

/-- What an accepted configuration agrees on up to the head. -/
structure Compatible (config newConfig : ChainConfig) (head : UInt64) : Prop where
  forks : ∀ fork ∈ namedForks, isForkTimestampIncompatible (fork.2 config.networkUpgrades)
    (fork.2 newConfig.networkUpgrades) head = false
  precompiles : ∀ module : Module, List.Forall₂ (fun one other => Config.equal one other)
    (config.getActivatingPrecompileConfigs module.address none head config.precompileUpgrades)
    (config.getActivatingPrecompileConfigs module.address none head newConfig.precompileUpgrades)
  states : List.Forall₂ (fun one other => StateUpgrade.equal one other)
    (getActivatingStateUpgrades none head config.stateUpgrades)
    (getActivatingStateUpgrades none head newConfig.stateUpgrades)

theorem checkConfigCompatible_eq_ok {config newConfig : ChainConfig} {head : UInt64} :
    config.checkConfigCompatible newConfig head = .ok () ↔ Compatible config newConfig head := by
  have forks : checkNetworkUpgradesCompatible config.networkUpgrades newConfig.networkUpgrades head = .ok () ↔
      ∀ fork ∈ namedForks, isForkTimestampIncompatible (fork.2 config.networkUpgrades)
        (fork.2 newConfig.networkUpgrades) head = false := by
    simp only [checkNetworkUpgradesCompatible, forM_eq_ok, refuse_eq_ok, Bool.not_eq_true]
  have precompiles : config.checkPrecompilesCompatible newConfig.precompileUpgrades head = .ok () ↔
      ∀ module : Module, List.Forall₂ (fun one other => Config.equal one other)
        (config.getActivatingPrecompileConfigs module.address none head config.precompileUpgrades)
        (config.getActivatingPrecompileConfigs module.address none head newConfig.precompileUpgrades) := by
    simp only [ChainConfig.checkPrecompilesCompatible, forM_eq_ok, ChainConfig.checkPrecompileCompatible,
      checkActivated_eq_ok, mem_registeredModules, true_imp_iff]
  unfold ChainConfig.checkConfigCompatible
  constructor
  · intro accepted
    obtain ⟨_, networks, accepted⟩ := bind_eq_ok.mp accepted
    obtain ⟨_, activated, states⟩ := bind_eq_ok.mp accepted
    exact ⟨forks.mp networks, precompiles.mp activated, checkActivated_eq_ok.mp states⟩
  · intro compatible
    rw [forks.mpr compatible.forks, ok_bind, precompiles.mpr compatible.precompiles, ok_bind]
    exact checkActivated_eq_ok.mpr compatible.states

end Snowside.Upgrades
