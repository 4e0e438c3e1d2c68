import Snowside.Partial.Maps
import Snowside.Precompile.FeeManager
import Snowside.Precompile.NativeCoin
import Snowside.Precompile.RewardManager
import Snowside.Precompile.Warp

/-! Scheduled upgrades: precompiles that are enabled and disabled at genesis or
later, changes of state, and the check that accepts a configuration with them.
-/

set_option autoImplicit false

namespace Snowside.Upgrades

open Evm (Address Bytes FeeConfig FeeConfigError NetworkUpgrades isTimestampForked)
open Precompile (Hash Role)
open Checked
open Maps (Map)

/-! ## Modules -/

/-- The registered precompiles. Each has its own key in configurations. -/
inductive Module where
  | deployerAllowList
  | nativeMinter
  | txAllowList
  | feeManager
  | rewardManager
  | warp
  deriving DecidableEq, Repr

def Module.address : Module → Address
  | deployerAllowList => Precompile.deployerAllowList
  | nativeMinter => Precompile.NativeCoin.contractAddress
  | txAllowList => Precompile.txAllowList
  | feeManager => Precompile.FeeManager.contractAddress
  | rewardManager => Precompile.RewardManager.contractAddress
  | warp => Precompile.Warp.contractAddress

/-- In the order of their addresses. -/
def registeredModules : List Module :=
  [.deployerAllowList, .nativeMinter, .txAllowList, .feeManager, .rewardManager, .warp]

def getPrecompileModuleByAddress (address : Address) : Option Module :=
  registeredModules.find? fun module => module.address = address

theorem Module.address_injective : Function.Injective Module.address := by
  intro first second same
  cases first <;> cases second <;> first | rfl | (revert same; decide)

theorem mem_registeredModules (module : Module) : module ∈ registeredModules := by
  cases module <;> decide

@[simp] theorem getPrecompileModuleByAddress_address (module : Module) :
    getPrecompileModuleByAddress module.address = some module := by
  cases module <;> decide

theorem address_of_getPrecompileModuleByAddress {address : Address} {module : Module}
    (found : getPrecompileModuleByAddress address = some module) : module.address = address := by
  have holds := List.find?_some found
  exact of_decide_eq_true holds

/-! ## Configurations of one precompile -/

structure Upgrade where
  blockTimestamp : Option UInt64
  disable : Bool := false
  deriving DecidableEq, Repr

structure AllowListConfig where
  adminAddresses : List Address := []
  managerAddresses : List Address := []
  enabledAddresses : List Address := []
  deriving DecidableEq, Repr

structure InitialRewardConfig where
  allowFeeRecipients : Bool
  rewardAddress : Address
  deriving DecidableEq, Repr

inductive Config where
  | deployerAllowList (allowList : AllowListConfig) (upgrade : Upgrade)
  | nativeMinter (allowList : AllowListConfig) (upgrade : Upgrade) (initialMint : Map Address (Option Int))
  | txAllowList (allowList : AllowListConfig) (upgrade : Upgrade)
  | feeManager (allowList : AllowListConfig) (upgrade : Upgrade) (initialFeeConfig : Option FeeConfig)
  | rewardManager (allowList : AllowListConfig) (upgrade : Upgrade) (initialRewardConfig : Option InitialRewardConfig)
  | warp (upgrade : Upgrade) (quorumNumerator : UInt64) (requirePrimaryNetworkSigners : Bool)

namespace Config

def key : Config → Module
  | deployerAllowList .. => .deployerAllowList
  | nativeMinter .. => .nativeMinter
  | txAllowList .. => .txAllowList
  | feeManager .. => .feeManager
  | rewardManager .. => .rewardManager
  | warp .. => .warp

def upgrade : Config → Upgrade
  | deployerAllowList _ upgrade => upgrade
  | nativeMinter _ upgrade _ => upgrade
  | txAllowList _ upgrade => upgrade
  | feeManager _ upgrade _ => upgrade
  | rewardManager _ upgrade _ => upgrade
  | warp upgrade _ _ => upgrade

def timestamp (config : Config) : Option UInt64 := config.upgrade.blockTimestamp

def isDisabled (config : Config) : Bool := config.upgrade.disable

end Config

inductive ConfigError where
  | duplicateEnabledAddress (address : Address)
  | duplicateAdminAddress (address : Address)
  | adminAndEnabledAddress (address : Address)
  | cannotAddManagersBeforeDurango
  | duplicateManagerAddress (address : Address)
  | adminAndManagerAddress (address : Address)
  | enabledAndManagerAddress (address : Address)
  | initialMintNilAmount (address : Address)
  | initialMintInvalidAmount (amount : Int) (address : Address)
  | feeConfig (cause : FeeConfigError)
  | cannotEnableBothRewards
  | warpCannotBeActivated
  | invalidQuorumRatio (numerator : UInt64)
  deriving DecidableEq, Repr

/-- The roles of the addresses seen so far. -/
abbrev AddressMap : Type := Address → Option Role

/-- Gives an address its role, unless its earlier one is in conflict. -/
def AddressMap.claim (conflict : Role → Address → Option ConfigError) (role : Role) (addressMap : AddressMap)
    (address : Address) : Except ConfigError AddressMap :=
  match (addressMap address).bind fun other => conflict other address with
  | some error => .error error
  | none => .ok (Function.update addressMap address (some role))

def AllowListConfig.verify (networkUpgrades : NetworkUpgrades) (upgrade : Upgrade) (config : AllowListConfig) :
    Except ConfigError Unit := do
  let addressMap ← config.enabledAddresses.foldlM
    (AddressMap.claim (fun _ address => some (.duplicateEnabledAddress address)) .enabledRole) fun _ => none
  let addressMap ← config.adminAddresses.foldlM (AddressMap.claim (fun role address =>
    if role = .adminRole then some (.duplicateAdminAddress address) else some (.adminAndEnabledAddress address)) .adminRole)
    addressMap
  -- Managers are activated with Durango.
  refuse (config.managerAddresses ≠ [] ∧ upgrade.blockTimestamp.any fun timestamp => !networkUpgrades.isDurango timestamp)
    .cannotAddManagersBeforeDurango
  let _ ← config.managerAddresses.foldlM (AddressMap.claim (fun role address =>
    if role = .managerRole then some (.duplicateManagerAddress address)
    else if role = .adminRole then some (.adminAndManagerAddress address)
    else if role = .enabledRole then some (.enabledAndManagerAddress address)
    else none) .managerRole) addressMap
  return ()

def InitialRewardConfig.verify (config : InitialRewardConfig) : Except ConfigError Unit :=
  refuse (config.allowFeeRecipients ∧ config.rewardAddress ≠ 0) .cannotEnableBothRewards

def warpQuorumNumeratorMinimum : UInt64 := 33

def warpQuorumDenominator : UInt64 := 100

def verifyInitialMint (initialMint : Map Address (Option Int)) : Except ConfigError Unit :=
  initialMint.entries.forM fun entry => do
    let amount ← need (.initialMintNilAmount entry.1) entry.2
    refuse (amount < 1) (.initialMintInvalidAmount amount entry.1)

def Config.verify (networkUpgrades : NetworkUpgrades) : Config → Except ConfigError Unit
  | deployerAllowList allowList upgrade => allowList.verify networkUpgrades upgrade
  | nativeMinter allowList upgrade initialMint => do
      verifyInitialMint initialMint
      allowList.verify networkUpgrades upgrade
  | txAllowList allowList upgrade => allowList.verify networkUpgrades upgrade
  | feeManager allowList upgrade initialFeeConfig => do
      allowList.verify networkUpgrades upgrade
      initialFeeConfig.elim (.ok ()) fun feeConfig => feeConfig.verify.mapError .feeConfig
  | rewardManager allowList upgrade initialRewardConfig => do
      initialRewardConfig.elim (.ok ()) InitialRewardConfig.verify
      allowList.verify networkUpgrades upgrade
  | warp upgrade quorumNumerator _ => do
      refuse (upgrade.blockTimestamp.any fun timestamp => !networkUpgrades.isDurango timestamp) .warpCannotBeActivated
      refuse (warpQuorumDenominator < quorumNumerator) (.invalidQuorumRatio quorumNumerator)
      -- Zero stands for the default.
      refuse (quorumNumerator ≠ 0 ∧ quorumNumerator < warpQuorumNumeratorMinimum) (.invalidQuorumRatio quorumNumerator)

/-! ## Changes of state -/

/-- What is nil is told from what is empty. -/
structure StateUpgradeAccount where
  code : Option Bytes := none
  storage : Option (Map Hash Hash) := none
  balanceChange : Option Int := none

structure StateUpgrade where
  blockTimestamp : Option UInt64
  stateUpgradeAccounts : Option (Map Address StateUpgradeAccount)

/-! ## Configurations of a chain -/

/-- The configurations at genesis, each under its own key. -/
structure Precompiles where
  configs : Map Module Config
  keyed : ∀ entry ∈ configs.entries, entry.2.key = entry.1

instance : EmptyCollection Precompiles where
  emptyCollection := ⟨∅, fun _ member => (List.not_mem_nil member).elim⟩

/-- The times of the node's upgrades in seconds, and its two times that stand for always and never. -/
structure AgoUpgrades where
  durangoTime : UInt64
  etnaTime : UInt64
  graniteTime : UInt64
  heliconTime : UInt64
  initiallyActiveTime : UInt64
  unscheduledActivationTime : UInt64

structure ChainConfig where
  networkUpgrades : NetworkUpgrades
  agoUpgrades : AgoUpgrades
  feeConfig : FeeConfig
  allowFeeRecipients : Bool
  genesisPrecompiles : Precompiles
  precompileUpgrades : List Config
  stateUpgrades : List StateUpgrade

/-- Whether a fork activates between its parent and the current time. -/
def isForkTransition (fork : Option UInt64) (parent : Option UInt64) (current : UInt64) : Bool :=
  let parentForked := parent.elim false (isTimestampForked fork)
  let currentForked := isTimestampForked fork current
  !parentForked && currentForked

namespace ChainConfig

variable (config : ChainConfig)

def getActivatingPrecompileConfigs (address : Address) (parent : Option UInt64) (current : UInt64)
    (upgrades : List Config) : List Config :=
  match getPrecompileModuleByAddress address with
  | none => []
  | some module =>
      let genesis := (config.genesisPrecompiles.configs.lookup module).toList.filter fun config =>
        isForkTransition config.timestamp parent current
      genesis ++ upgrades.filter fun upgrade => upgrade.key = module && isForkTransition upgrade.timestamp parent current

def getActivePrecompileConfig (address : Address) (timestamp : UInt64) : Option Config :=
  (config.getActivatingPrecompileConfigs address none timestamp config.precompileUpgrades).getLast?

def isPrecompileEnabled (address : Address) (timestamp : UInt64) : Bool :=
  (config.getActivePrecompileConfig address timestamp).elim false fun config => !config.isDisabled

/-- The modules that are enabled, with their configurations. -/
def enabledStatefulPrecompiles (timestamp : UInt64) : List (Module × Config) :=
  registeredModules.filterMap fun module =>
    ((config.getActivePrecompileConfig module.address timestamp).filter fun config => !config.isDisabled).map (module, ·)

end ChainConfig

/-- Of any configuration. -/
def getActivatingStateUpgrades (parent : Option UInt64) (current : UInt64) (upgrades : List StateUpgrade) :
    List StateUpgrade :=
  upgrades.filter fun upgrade => isForkTransition upgrade.blockTimestamp parent current

/-! ## Verification -/

inductive NetworkUpgradeError where
  | cannotBeNil
  | timestampTooEarly (provided default : UInt64)
  deriving DecidableEq, Repr

inductive VerifyError where
  | invalidFeeConfig (cause : FeeConfigError)
  | config (cause : ConfigError)
  | precompileUpgradeNilTimestamp (key : Module) (index : Nat)
  | precompileUpgradeTimestampNotMonotonic (key : Module) (index : Nat) (timestamp previous : UInt64)
  | precompileUpgradeInvalidDisable (key : Module) (index : Nat) (disable : Bool)
  | precompileUpgradeSameKeyTimestampNotStrictly (key : Module) (index : Nat) (timestamp previous : UInt64)
  | stateUpgradeNilTimestamp (index : Nat)
  | stateUpgradeTimestampZero (index : Nat)
  | stateUpgradeTimestampNotMonotonic (index : Nat) (timestamp previous : UInt64)
  | networkUpgrade (name : String) (cause : NetworkUpgradeError)
  deriving DecidableEq, Repr

structure LastUpgradeData where
  blockTimestamp : UInt64
  disabled : Bool
  deriving DecidableEq, Repr

abbrev LastUpgrades : Type := Module → Option LastUpgradeData

/-- Genesis configurations with a time count as enabled. -/
def verifyGenesisPrecompiles (networkUpgrades : NetworkUpgrades) (lastUpgrades : LastUpgrades) :
    List (Sigma fun _ : Module => Config) → Except ConfigError LastUpgrades
  | [] => .ok lastUpgrades
  | ⟨key, config⟩ :: rest => do
      config.verify networkUpgrades
      match config.timestamp with
      | none => verifyGenesisPrecompiles networkUpgrades lastUpgrades rest
      | some blockTimestamp =>
          verifyGenesisPrecompiles networkUpgrades
            (Function.update lastUpgrades key (some { blockTimestamp, disabled := false })) rest

/-- The upgrades from an index on, after an upgrade at the previous time. -/
def verifyUpgradesFrom (networkUpgrades : NetworkUpgrades) (lastUpgrades : LastUpgrades) (previous : Option UInt64)
    (index : Nat) : List Config → Except VerifyError Unit
  | [] => .ok ()
  | upgrade :: rest => do
      let key := upgrade.key
      let disabled := (lastUpgrades key).elim true LastUpgradeData.disabled
      let timestamp ← need (.precompileUpgradeNilTimestamp key index) upgrade.timestamp
      previous.elim (.ok ()) fun previous =>
        refuse (timestamp < previous) (.precompileUpgradeTimestampNotMonotonic key index timestamp previous)
      refuse (disabled = upgrade.isDisabled) (.precompileUpgradeInvalidDisable key index (!disabled))
      (lastUpgrades key).elim (.ok ()) fun last => refuse (timestamp ≤ last.blockTimestamp)
        (.precompileUpgradeSameKeyTimestampNotStrictly key index timestamp last.blockTimestamp)
      (upgrade.verify networkUpgrades).mapError .config
      let data := { blockTimestamp := timestamp, disabled := upgrade.isDisabled }
      verifyUpgradesFrom networkUpgrades (Function.update lastUpgrades key (some data)) (some timestamp) (index + 1) rest

def verifyStateUpgradesFrom (previous : Option UInt64) (index : Nat) : List StateUpgrade → Except VerifyError Unit
  | [] => .ok ()
  | upgrade :: rest => do
      let timestamp ← need (.stateUpgradeNilTimestamp index) upgrade.blockTimestamp
      -- Zero would be confused with genesis.
      refuse (timestamp = 0) (.stateUpgradeTimestampZero index)
      previous.elim (.ok ()) fun previous =>
        refuse (timestamp ≤ previous) (.stateUpgradeTimestampNotMonotonic index timestamp previous)
      verifyStateUpgradesFrom (some timestamp) (index + 1) rest

/-- Fortuna is optional. -/
def getNetworkUpgrades (agoUpgrades : AgoUpgrades) : NetworkUpgrades where
  subnetEVMTimestamp := some 0
  durangoTimestamp := some agoUpgrades.durangoTime
  etnaTimestamp := some agoUpgrades.etnaTime
  fortunaTimestamp := none
  graniteTimestamp := some agoUpgrades.graniteTime
  heliconTimestamp := some agoUpgrades.heliconTime

def verifyWithDefault (agoUpgrades : AgoUpgrades) (configTimestamp defaultTimestamp : Option UInt64) :
    Except NetworkUpgradeError Unit :=
  match defaultTimestamp, configTimestamp with
  | none, _ => .ok ()
  | some default, none => if agoUpgrades.unscheduledActivationTime ≤ default then .ok () else .error .cannotBeNil
  | some default, some provided =>
      if provided = 0 ∧ default ≤ agoUpgrades.initiallyActiveTime then .ok ()
      else refuse (provided < default) (.timestampTooEarly provided default)

def verifyNetworkUpgrades (agoUpgrades : AgoUpgrades) (networkUpgrades : NetworkUpgrades) : Except VerifyError Unit := do
  let defaults := getNetworkUpgrades agoUpgrades
  let verify (name : String) (timestamp : NetworkUpgrades → Option UInt64) : Except VerifyError Unit :=
    (verifyWithDefault agoUpgrades (timestamp networkUpgrades) (timestamp defaults)).mapError (.networkUpgrade name)
  verify "subnetEVM" NetworkUpgrades.subnetEVMTimestamp
  verify "durango" NetworkUpgrades.durangoTimestamp
  verify "etna" NetworkUpgrades.etnaTimestamp
  verify "fortuna" NetworkUpgrades.fortunaTimestamp
  verify "granite" NetworkUpgrades.graniteTimestamp
  verify "helicon" NetworkUpgrades.heliconTimestamp

namespace ChainConfig

variable (config : ChainConfig)

def verifyPrecompileUpgrades : Except VerifyError Unit := do
  let lastUpgrades ← (verifyGenesisPrecompiles config.networkUpgrades (fun _ => none)
    config.genesisPrecompiles.configs.entries).mapError .config
  verifyUpgradesFrom config.networkUpgrades lastUpgrades none 0 config.precompileUpgrades

def verifyStateUpgrades : Except VerifyError Unit := verifyStateUpgradesFrom none 0 config.stateUpgrades

def verify : Except VerifyError Unit := do
  config.feeConfig.verify.mapError .invalidFeeConfig
  config.verifyPrecompileUpgrades
  config.verifyStateUpgrades
  verifyNetworkUpgrades config.agoUpgrades config.networkUpgrades

end ChainConfig

end Snowside.Upgrades
