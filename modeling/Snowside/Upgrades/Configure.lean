import Snowside.State.StateDB
import Snowside.Upgrades.Verified

/-! What a precompile writes when it is configured. The writes go to any state that
has storage and balances.
-/

set_option autoImplicit false

namespace Snowside.Upgrades

open Evm (Address Bytes FeeConfig)
open Precompile (Hash Role PrecompileError bigToHash addressToHash)
open Precompile.FeeManager (feeConfigFields feeConfigLastChangedAtKey)
open Precompile.RewardManager (rewardAddressStorageKey allowFeeRecipientsAddressValue blackholeAddr)
open State (Account StateDB LawfulStateDB Edits)
open Checked Stateful
open Maps (Map)

/-- What a precompile may do with the state when it is configured. -/
class ContractStateDB (S : Type) where
  setState : Address → Hash → Hash → S → S
  addBalance : Address → BitVec 256 → S → S

instance {S : Type} [StateDB S] : ContractStateDB S where
  setState := StateDB.setState
  addBalance := StateDB.addBalance

instance : ContractStateDB Precompile.StateDB where
  setState address key value db := db.setState address key value
  addBalance address amount db := db.addBalance address amount

/-- Of the current block. -/
structure BlockContext where
  number : Int
  timestamp : UInt64
  deriving DecidableEq, Repr

inductive ConfigureError where
  | expectedConfigType (expected found : Module)
  | initialFeeConfig (cause : PrecompileError)
  | chainFeeConfig (cause : PrecompileError)
  deriving DecidableEq, Repr

section

variable {S : Type} [ContractStateDB S]

open ContractStateDB

/-! ## Storage -/

def setAllowListRole (precompileAddr address : Address) (role : Role) (db : S) : S :=
  setState precompileAddr (addressToHash address) role.hash db

def storeFeeConfig (feeConfig : FeeConfig) (blockContext : BlockContext) : Action PrecompileError S Unit := do
  check (feeConfig.verify.mapError .feeConfig)
  let fees ← check (feeConfig.values.mapError .feeConfig)
  feeConfigFields.forM fun field =>
    modify (setState Module.feeManager.address field.key (bigToHash (field.get fees)))
  modify (setState Module.feeManager.address feeConfigLastChangedAtKey (bigToHash blockContext.number))

def storeRewardAddress (val : Address) (db : S) : S :=
  setState Module.rewardManager.address rewardAddressStorageKey (addressToHash val) db

def enableAllowFeeRecipients (db : S) : S :=
  setState Module.rewardManager.address rewardAddressStorageKey allowFeeRecipientsAddressValue db

def disableFeeRewards (db : S) : S :=
  setState Module.rewardManager.address rewardAddressStorageKey (addressToHash blackholeAddr) db

/-! ## Configurators -/

def AllowListConfig.configure (precompileAddr : Address) (config : AllowListConfig) : Action ConfigureError S Unit := do
  config.enabledAddresses.forM fun address => modify (setAllowListRole precompileAddr address .enabledRole)
  config.adminAddresses.forM fun address => modify (setAllowListRole precompileAddr address .adminRole)
  config.managerAddresses.forM fun address => modify (setAllowListRole precompileAddr address .managerRole)

def InitialRewardConfig.configure (config : InitialRewardConfig) (db : S) : S :=
  if config.allowFeeRecipients then enableAllowFeeRecipients db
  else if config.rewardAddress = 0 then disableFeeRewards db
  else storeRewardAddress config.rewardAddress db

/-- The first rewards of a reward manager without its own are those of the chain. -/
def configureRewards (chain : ChainConfig) (initialRewardConfig : Option InitialRewardConfig) (db : S) : S :=
  match initialRewardConfig with
  | some config => config.configure db
  | none => if chain.allowFeeRecipients then enableAllowFeeRecipients db else disableFeeRewards db

/-- The first fees of a fee manager without its own are those of the chain. -/
def configureFees (chain : ChainConfig) (initialFeeConfig : Option FeeConfig) (blockContext : BlockContext) :
    Action ConfigureError S Unit :=
  match initialFeeConfig with
  | some feeConfig => wrap .initialFeeConfig (storeFeeConfig feeConfig blockContext)
  | none => wrap .chainFeeConfig (storeFeeConfig chain.feeConfig blockContext)

/-- Amounts wrap at 256 bits. -/
def configureMint (initialMint : Map Address (Option Int)) : Action ConfigureError S Unit :=
  initialMint.entries.forM fun entry =>
    modify fun db => entry.2.elim db fun amount => addBalance entry.1 (.ofInt 256 amount) db

def Module.configure (module : Module) (chain : ChainConfig) (config : Config) (blockContext : BlockContext) :
    Action ConfigureError S Unit :=
  match module, config with
  | deployerAllowList, .deployerAllowList allowList _ => allowList.configure deployerAllowList.address
  | nativeMinter, .nativeMinter allowList _ initialMint => do
      configureMint initialMint
      allowList.configure nativeMinter.address
  | txAllowList, .txAllowList allowList _ => allowList.configure txAllowList.address
  | feeManager, .feeManager allowList _ initialFeeConfig => do
      configureFees chain initialFeeConfig blockContext
      allowList.configure feeManager.address
  | rewardManager, .rewardManager allowList _ initialRewardConfig => do
      modify (configureRewards chain initialRewardConfig)
      allowList.configure rewardManager.address
  | warp, .warp .. => return ()
  | expected, config => throw (.expectedConfigType expected config.key)

end

/-! ## The functions of precompiles -/

theorem setAllowListRole_eq : setAllowListRole (S := Precompile.StateDB) = Precompile.setAllowListRole := rfl

theorem storeFeeConfig_eq (feeConfig : FeeConfig) (blockContext : BlockContext) :
    storeFeeConfig (S := Precompile.StateDB) feeConfig blockContext =
      Precompile.FeeManager.storeFeeConfig feeConfig (some blockContext.number) := rfl

theorem storeRewardAddress_eq : storeRewardAddress (S := Precompile.StateDB) = Precompile.RewardManager.storeRewardAddress := rfl

theorem enableAllowFeeRecipients_eq :
    enableAllowFeeRecipients (S := Precompile.StateDB) = Precompile.RewardManager.enableAllowFeeRecipients := rfl

theorem disableFeeRewards_eq : disableFeeRewards (S := Precompile.StateDB) = Precompile.RewardManager.disableFeeRewards := rfl

/-! ## Mints in any order -/

theorem addBalance_comm (db : Precompile.StateDB) (first second : Address) (amount more : BitVec 256) :
    (db.addBalance first amount).addBalance second more = (db.addBalance second more).addBalance first amount := by
  unfold Precompile.StateDB.addBalance
  simp only [Precompile.StateDB.mk.injEq, true_and, and_true]
  constructor
  · funext address
    by_cases same : second = first
    · subst same
      simp only [Function.update_self, Function.update_idem]
      rw [BitVec.add_assoc, BitVec.add_assoc, BitVec.add_comm amount]
    · rw [Function.update_of_ne same, Function.update_of_ne (Ne.symm same), Function.update_comm same]
  · by_cases same : second = first
    · rw [same]
    · rw [Function.update_comm same]

theorem perform_configureMint {initialMint other : Map Address (Option Int)} (same : initialMint.entries.Perm other.entries)
    (db : Precompile.StateDB) :
    perform (configureMint initialMint : Action ConfigureError Precompile.StateDB Unit) db = perform (configureMint other) db := by
  unfold configureMint
  rw [perform_forM_modify, perform_forM_modify]
  refine congrArg (Except.ok (), ·) (same.foldl_eq' (fun one _ two _ db => ?_) db)
  cases one.2 with
  | none => rfl
  | some amount =>
    cases two.2 with
    | none => rfl
    | some more => exact addBalance_comm db one.1 two.1 _ _

/-! ## What configuring leaves alone -/

section

variable {S : Type} [StateDB S] [LawfulStateDB S]

/-- Since the start only balances and the storage of one precompile have changed, and
that storage is as in the image. -/
structure Tracks (module : Module) (start now : S) (image : Precompile.StateDB) : Prop where
  nonce : ∀ address, (StateDB.account now address).nonce = (StateDB.account start address).nonce
  code : ∀ address, (StateDB.account now address).code = (StateDB.account start address).code
  storage : ∀ address ≠ module.address, (StateDB.account now address).storage = (StateDB.account start address).storage
  own : (StateDB.account now module.address).storage = image.storage module.address
  hasSelfDestructed : StateDB.hasSelfDestructed now = StateDB.hasSelfDestructed start

variable {module : Module} {start now : S} {image : Precompile.StateDB}

theorem Tracks.setState (tracks : Tracks module start now image) (key value : Hash) :
    Tracks module start (StateDB.setState module.address key value now) (image.setState module.address key value) := by
  have edits := LawfulStateDB.setState now module.address key value
  refine ⟨fun address => ?_, fun address => ?_, fun address apart => ?_, ?_, ?_⟩
  · by_cases same : address = module.address
    · rw [same, edits.account_same]
      exact tracks.nonce _
    · rw [edits.account_other same]
      exact tracks.nonce _
  · by_cases same : address = module.address
    · rw [same, edits.account_same]
      exact tracks.code _
    · rw [edits.account_other same]
      exact tracks.code _
  · rw [edits.account_other apart]
    exact tracks.storage _ apart
  · rw [edits.account_same]
    simp only [Precompile.StateDB.setState, Function.update_self, tracks.own]
  · rw [edits.hasSelfDestructed]
    exact tracks.hasSelfDestructed

theorem Tracks.addBalance (tracks : Tracks module start now image) (address : Address) (amount : BitVec 256) :
    Tracks module start (StateDB.addBalance address amount now) (image.addBalance address amount) := by
  have edits := LawfulStateDB.addBalance now address amount
  have same (other : Address) : (StateDB.account (StateDB.addBalance address amount now) other).nonce =
        (StateDB.account now other).nonce ∧
      (StateDB.account (StateDB.addBalance address amount now) other).code = (StateDB.account now other).code ∧
      (StateDB.account (StateDB.addBalance address amount now) other).storage = (StateDB.account now other).storage := by
    by_cases same : other = address
    · rw [same, edits.account_same]
      exact ⟨rfl, rfl, rfl⟩
    · rw [edits.account_other same]
      exact ⟨rfl, rfl, rfl⟩
  exact ⟨fun other => (same other).1.trans (tracks.nonce other), fun other => (same other).2.1.trans (tracks.code other),
    fun other apart => (same other).2.2.trans (tracks.storage other apart), (same _).2.2.trans tracks.own,
    edits.hasSelfDestructed.trans tracks.hasSelfDestructed⟩

theorem mirrors_setState {Error : Type} (key value : Hash) :
    Mirrors (Tracks module start) (modify (ContractStateDB.setState module.address key value) : Action Error S Unit)
      (modify (ContractStateDB.setState module.address key value)) :=
  .modify fun _ _ tracks => tracks.setState key value

theorem mirrors_allowList (config : AllowListConfig) :
    Mirrors (Tracks module start) (config.configure (S := S) module.address) (config.configure module.address) := by
  have sets (addresses : List Address) (role : Role) : Mirrors (Tracks module start)
      (addresses.forM fun address => modify (setAllowListRole module.address address role) : Action ConfigureError S Unit)
      (addresses.forM fun address => modify (setAllowListRole module.address address role)) :=
    .forM fun address _ => mirrors_setState (addressToHash address) role.hash
  exact .bind (sets _ _) fun _ => .bind (sets _ _) fun _ => sets _ _

theorem mirrors_storeFeeConfig {start : S} (feeConfig : FeeConfig) (blockContext : BlockContext) :
    Mirrors (Tracks .feeManager start) (storeFeeConfig (S := S) feeConfig blockContext)
      (storeFeeConfig feeConfig blockContext) := by
  refine .bind (.check _) fun _ => .bind (.check _) fun fees => ?_
  exact .bind (.forM fun field _ => mirrors_setState field.key _) fun _ => mirrors_setState feeConfigLastChangedAtKey _

theorem mirrors_configureRewards {start : S} (chain : ChainConfig) (initialRewardConfig : Option InitialRewardConfig) :
    Mirrors (Tracks .rewardManager start)
      (modify (configureRewards chain initialRewardConfig) : Action ConfigureError S Unit)
      (modify (configureRewards chain initialRewardConfig)) := by
  refine .modify fun now image tracks => ?_
  unfold configureRewards
  cases initialRewardConfig with
  | none =>
    cases chain.allowFeeRecipients with
    | false => exact tracks.setState rewardAddressStorageKey _
    | true => exact tracks.setState rewardAddressStorageKey _
  | some config =>
    simp only [InitialRewardConfig.configure]
    cases config.allowFeeRecipients with
    | true => exact tracks.setState rewardAddressStorageKey _
    | false =>
      by_cases none : config.rewardAddress = 0
      · simp only [Bool.false_eq_true, if_false, if_pos none]
        exact tracks.setState rewardAddressStorageKey _
      · simp only [Bool.false_eq_true, if_false, if_neg none]
        exact tracks.setState rewardAddressStorageKey _

/-- On any state a precompile is configured as on its own storage. -/
theorem mirrors_configure (module : Module) (chain : ChainConfig) (config : Config) (blockContext : BlockContext) (start : S) :
    Mirrors (Tracks module start) (module.configure (S := S) chain config blockContext)
      (module.configure chain config blockContext) := by
  have mints (initialMint : Map Address (Option Int)) : Mirrors (Tracks .nativeMinter start)
      (configureMint initialMint : Action ConfigureError S Unit) (configureMint initialMint) := by
    refine .forM fun entry _ => .modify fun now image tracks => ?_
    cases entry.2 with
    | none => exact tracks
    | some amount => exact tracks.addBalance entry.1 _
  unfold Module.configure
  split
  · exact mirrors_allowList _
  · exact .bind (mints _) fun _ => mirrors_allowList _
  · exact mirrors_allowList _
  · next initialFeeConfig =>
    refine .bind ?_ fun _ => mirrors_allowList _
    cases initialFeeConfig with
    | none => exact (mirrors_storeFeeConfig _ blockContext).wrap
    | some feeConfig => exact (mirrors_storeFeeConfig _ blockContext).wrap
  · exact .bind (mirrors_configureRewards chain _) fun _ => mirrors_allowList _
  · exact .pure ()
  · exact fun _ _ tracks => ⟨rfl, tracks⟩

end

/-! ## Success -/

section

variable {S : Type} [ContractStateDB S]

open ContractStateDB

theorem configure_allowList_ok (precompileAddr : Address) (config : AllowListConfig) (before : S) :
    (perform (config.configure precompileAddr) before).1 = .ok () := by
  unfold AllowListConfig.configure
  rw [perform_bind_ok (perform_forM_modify _ _ _), perform_bind_ok (perform_forM_modify _ _ _), perform_forM_modify]

theorem perform_storeFeeConfig (fees : Evm.VerifiedFees) (blockContext : BlockContext) (before : S) :
    perform (storeFeeConfig fees.toConfig blockContext) before = (.ok (),
      setState Module.feeManager.address feeConfigLastChangedAtKey (bigToHash blockContext.number)
        (feeConfigFields.foldl (fun db field =>
          setState Module.feeManager.address field.key (bigToHash (field.get fees.toFeeValues)) db) before)) := by
  have verified : fees.toConfig.verify = .ok () := Evm.FeeConfig.verify_eq_ok.mpr ⟨fees, rfl⟩
  unfold storeFeeConfig
  rw [verified, Evm.FeeValues.values_toConfig]
  simp only [Except.mapError, check_ok_bind]
  rw [perform_bind_ok (perform_forM_modify _ _ _), perform_modify]

theorem storeFeeConfig_ok {feeConfig : FeeConfig} (verified : feeConfig.verify = .ok ()) (blockContext : BlockContext)
    (before : S) : (perform (storeFeeConfig feeConfig blockContext) before).1 = .ok () := by
  obtain ⟨fees, rfl⟩ := Evm.FeeConfig.verify_eq_ok.mp verified
  rw [perform_storeFeeConfig]

/-- A verified configuration is configured without an error. -/
theorem configure_ok {chain : ChainConfig} {networkUpgrades : Evm.NetworkUpgrades} {config : Config}
    (verified : config.verify networkUpgrades = .ok ()) (fees : chain.feeConfig.verify = .ok ())
    (blockContext : BlockContext) (before : S) :
    (perform (config.key.configure chain config blockContext) before).1 = .ok () := by
  cases config with
  | deployerAllowList allowList _ => exact configure_allowList_ok _ allowList before
  | nativeMinter allowList _ initialMint =>
    change (perform (configureMint initialMint >>= fun _ => allowList.configure _) before).1 = _
    unfold configureMint
    rw [perform_bind_ok (perform_forM_modify _ _ _)]
    exact configure_allowList_ok _ allowList _
  | txAllowList allowList _ => exact configure_allowList_ok _ allowList before
  | feeManager allowList upgrade initialFeeConfig =>
    change (perform (configureFees chain initialFeeConfig blockContext >>= fun _ => allowList.configure _) before).1 = _
    have stored : (perform (configureFees chain initialFeeConfig blockContext) before).1 = .ok () := by
      cases initialFeeConfig with
      | none => exact congrArg (Except.mapError _) (storeFeeConfig_ok fees blockContext before)
      | some feeConfig =>
        obtain ⟨_, -, verified⟩ := bind_eq_ok.mp verified
        exact congrArg (Except.mapError _) (storeFeeConfig_ok (mapError_eq_ok.mp verified) blockContext before)
    rw [perform_bind_ok (Prod.ext stored rfl)]
    exact configure_allowList_ok _ allowList _
  | rewardManager allowList _ initialRewardConfig =>
    change (perform (modify (configureRewards chain initialRewardConfig) >>= fun _ => allowList.configure _) before).1 = _
    rw [perform_modify_bind]
    exact configure_allowList_ok _ allowList _
  | warp => rfl

end

/-- Storage without entries. -/
def blankStateDB : Precompile.StateDB where
  storage _ _ := 0
  balance _ := 0
  exist _ := false
  logs := []

/-- What a precompile has in its storage, once it is configured where there was none. -/
def activationStorage (chain : ChainConfig) (config : Config) (blockContext : BlockContext) : Hash → Hash :=
  (perform (config.key.configure chain config blockContext) blankStateDB).2.storage config.key.address

end Snowside.Upgrades
