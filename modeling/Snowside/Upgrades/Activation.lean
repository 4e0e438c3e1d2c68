import Snowside.Upgrades.Configure

/-! Upgrades as blocks apply them: which are applied over a sequence of blocks, and
what they leave of the account of a precompile.
-/

set_option autoImplicit false

namespace Snowside.Upgrades

open Evm (Address Bytes)
open Precompile (Hash)
open State (Account StateDB LawfulStateDB Edits)
open Stateful
open Timeline (due windows NoLater)

/-! ## Application -/

inductive ActivationError where
  | couldNotConfigurePrecompile (module : Module) (cause : ConfigureError)
  deriving DecidableEq, Repr

section

variable {S : Type} [StateDB S]

/-- A precompile is disabled, or it is marked as a contract and configured. -/
def applyActivation (chain : ChainConfig) (blockContext : BlockContext) (module : Module) (activating : Config) :
    Action ActivationError S Unit :=
  if activating.isDisabled then
    -- The account is wiped at once, so that it can be configured again in the same block.
    modify fun db => StateDB.finalise (StateDB.selfDestruct module.address db)
  else do
    modify (StateDB.setNonce module.address 1)
    modify (StateDB.setCode module.address [1])
    wrap (.couldNotConfigurePrecompile module) (module.configure chain activating blockContext)

def applyPrecompileActivations (chain : ChainConfig) (parentTimestamp : Option UInt64) (blockContext : BlockContext) :
    Action ActivationError S Unit :=
  registeredModules.forM fun module =>
    (chain.getActivatingPrecompileConfigs module.address parentTimestamp blockContext.timestamp
      chain.precompileUpgrades).forM (applyActivation chain blockContext module)

def upgradeAccount (account : Address) (upgrade : StateUpgradeAccount) (isEIP158 : Bool) (db : S) : S :=
  let db := if StateDB.exist db account then db else StateDB.createAccount account db
  let db := upgrade.balanceChange.elim db fun change => StateDB.addBalance account (.ofInt 256 change) db
  let code := upgrade.code.getD []
  let db := if code = [] then db else
    -- As when a contract is deployed.
    let db := if isEIP158 ∧ (StateDB.account db account).nonce = 0 then StateDB.setNonce account 1 db else db
    StateDB.setCode account code db
  let storage := upgrade.storage.elim [] AList.entries
  storage.foldl (fun db entry => StateDB.setState account entry.1 entry.2 db) db

variable (isEIP158 : Int → Bool)

def configureStateUpgrade (upgrade : StateUpgrade) (blockContext : BlockContext) (db : S) : S :=
  (upgrade.stateUpgradeAccounts.elim [] AList.entries).foldl
    (fun db entry => upgradeAccount entry.1 entry.2 (isEIP158 blockContext.number) db) db

def applyStateUpgrades (chain : ChainConfig) (parentTimestamp : Option UInt64) (blockContext : BlockContext) :
    Action ActivationError S Unit :=
  (getActivatingStateUpgrades parentTimestamp blockContext.timestamp chain.stateUpgrades).forM fun upgrade =>
    modify (configureStateUpgrade isEIP158 upgrade blockContext)

def applyUpgrades (chain : ChainConfig) (parentTimestamp : Option UInt64) (blockContext : BlockContext) :
    Action ActivationError S Unit := do
  applyPrecompileActivations chain parentTimestamp blockContext
  applyStateUpgrades isEIP158 chain parentTimestamp blockContext

/-- Block after block, from a parent on. -/
def applyBlocks (chain : ChainConfig) : Option UInt64 → List BlockContext → Action ActivationError S Unit
  | _, [] => return ()
  | parentTimestamp, blockContext :: later => do
      applyUpgrades isEIP158 chain parentTimestamp blockContext
      applyBlocks chain (some blockContext.timestamp) later

end

/-! ## Events -/

/-- One configuration or change of state that a block applies. -/
inductive UpgradeEvent where
  | activation (module : Module) (config : Config) (blockContext : BlockContext)
  | stateUpgrade (upgrade : StateUpgrade) (blockContext : BlockContext)

def blockEvents (chain : ChainConfig) (parentTimestamp : Option UInt64) (blockContext : BlockContext) : List UpgradeEvent :=
  (registeredModules.flatMap fun module =>
    (chain.getActivatingPrecompileConfigs module.address parentTimestamp blockContext.timestamp
      chain.precompileUpgrades).map fun config => .activation module config blockContext) ++
  (getActivatingStateUpgrades parentTimestamp blockContext.timestamp chain.stateUpgrades).map fun upgrade =>
    .stateUpgrade upgrade blockContext

/-- Blocks, each with the time of its parent. -/
def withParents : Option UInt64 → List BlockContext → List (Option UInt64 × BlockContext)
  | _, [] => []
  | parentTimestamp, blockContext :: later =>
      (parentTimestamp, blockContext) :: withParents (some blockContext.timestamp) later

def events (chain : ChainConfig) (parentTimestamp : Option UInt64) (blockContexts : List BlockContext) : List UpgradeEvent :=
  (withParents parentTimestamp blockContexts).flatMap fun block => blockEvents chain block.1 block.2

/-- The configurations of one precompile, each with the block that applied it. -/
def UpgradeEvent.activationOf (module : Module) : UpgradeEvent → Option (Config × BlockContext)
  | activation other config blockContext => if other = module then some (config, blockContext) else none
  | stateUpgrade .. => none

def history (module : Module) (events : List UpgradeEvent) : List (Config × BlockContext) :=
  events.filterMap (UpgradeEvent.activationOf module)

section

variable {S : Type} [StateDB S] (isEIP158 : Int → Bool) (chain : ChainConfig)

def UpgradeEvent.apply : UpgradeEvent → Action ActivationError S Unit
  | activation module config blockContext => applyActivation chain blockContext module config
  | stateUpgrade upgrade blockContext => modify (configureStateUpgrade isEIP158 upgrade blockContext)

theorem applyUpgrades_eq_events (parentTimestamp : Option UInt64) (blockContext : BlockContext) :
    applyUpgrades (S := S) isEIP158 chain parentTimestamp blockContext =
      (blockEvents chain parentTimestamp blockContext).forM (UpgradeEvent.apply isEIP158 chain) := by
  unfold blockEvents
  rw [forM_append, forM_flatMap, forM_map]
  simp only [forM_map]
  rfl

/-- Blocks apply their events one after another. -/
theorem applyBlocks_eq_events (parentTimestamp : Option UInt64) (blockContexts : List BlockContext) :
    applyBlocks (S := S) isEIP158 chain parentTimestamp blockContexts =
      (events chain parentTimestamp blockContexts).forM (UpgradeEvent.apply isEIP158 chain) := by
  induction blockContexts generalizing parentTimestamp with
  | nil => rfl
  | cons blockContext later ih =>
    have ih := ih (some blockContext.timestamp)
    unfold events at ih ⊢
    rw [applyBlocks, withParents, List.flatMap_cons, forM_append, ← ih, ← applyUpgrades_eq_events]

end

/-! ## The account of a precompile -/

structure Wiped (account : Account) : Prop where
  nonce : account.nonce = 0
  code : account.code = []
  storage : account.storage = fun _ => 0

structure Configured (chain : ChainConfig) (config : Config) (blockContext : BlockContext) (account : Account) : Prop where
  nonce : account.nonce = 1
  code : account.code = [1]
  storage : account.storage = activationStorage chain config blockContext

/-- The account is the same but for its balance, or an account without nonce and code is gone. -/
def Kept (before after : Account) : Prop :=
  (after.nonce = before.nonce ∧ after.code = before.code ∧ after.storage = before.storage) ∨
    (before.nonce = 0 ∧ before.code = [] ∧ Wiped after)

theorem Wiped.default : Wiped {} := ⟨rfl, rfl, rfl⟩

theorem Kept.refl (account : Account) : Kept account account := .inl ⟨rfl, rfl, rfl⟩

theorem Kept.trans {first second third : Account} (before : Kept first second) (after : Kept second third) :
    Kept first third := by
  rcases after with ⟨nonce, code, storage⟩ | ⟨nonce, code, wiped⟩
  · rcases before with ⟨nonce', code', storage'⟩ | ⟨nonce', code', wiped⟩
    · exact .inl ⟨nonce.trans nonce', code.trans code', storage.trans storage'⟩
    · exact .inr ⟨nonce', code', nonce.trans wiped.nonce, code.trans wiped.code, storage.trans wiped.storage⟩
  · rcases before with ⟨nonce', code', -⟩ | ⟨nonce', code', -⟩
    · exact .inr ⟨nonce'.symm.trans nonce, code'.symm.trans code, wiped⟩
    · exact .inr ⟨nonce', code', wiped⟩

/-- What the last configuration of a precompile leaves of its account. -/
def Settled (chain : ChainConfig) (last : Option (Config × BlockContext)) (account : Account) : Prop :=
  match last with
  | none => account.storage = fun _ => 0
  | some (config, blockContext) => if config.isDisabled then Wiped account else Configured chain config blockContext account

theorem settled_disabled {chain : ChainConfig} {config : Config} {blockContext : BlockContext} {account : Account}
    (disabled : config.isDisabled) : Settled chain (some (config, blockContext)) account ↔ Wiped account := by
  simp only [Settled, disabled, if_true]

theorem settled_enabled {chain : ChainConfig} {config : Config} {blockContext : BlockContext} {account : Account}
    (enabled : config.isDisabled = false) :
    Settled chain (some (config, blockContext)) account ↔ Configured chain config blockContext account := by
  simp only [Settled, enabled, Bool.false_eq_true, if_false]

theorem Settled.kept {chain : ChainConfig} {last : Option (Config × BlockContext)} {before after : Account}
    (settled : Settled chain last before) (kept : Kept before after) : Settled chain last after := by
  rcases last with _ | ⟨config, blockContext⟩
  · rcases kept with ⟨-, -, storage⟩ | ⟨-, -, wiped⟩
    · exact storage.trans settled
    · exact wiped.storage
  · cases disabled : config.isDisabled with
    | true =>
      rw [settled_disabled disabled] at settled ⊢
      rcases kept with ⟨nonce, code, storage⟩ | ⟨-, -, wiped⟩
      · exact ⟨nonce.trans settled.nonce, code.trans settled.code, storage.trans settled.storage⟩
      · exact wiped
    | false =>
      rw [settled_enabled disabled] at settled ⊢
      rcases kept with ⟨nonce, code, storage⟩ | ⟨bare, -, -⟩
      · exact ⟨nonce.trans settled.nonce, code.trans settled.code, storage.trans settled.storage⟩
      -- An account with nonce one is not empty.
      · rw [settled.nonce] at bare
        cases bare

section

variable {S : Type} [StateDB S]

/-- An account that was not destructed keeps its contract. -/
def Keeps (address : Address) (before after : S) : Prop :=
  StateDB.hasSelfDestructed before address = false → Kept (StateDB.account before address) (StateDB.account after address) ∧
    StateDB.hasSelfDestructed after address = false

theorem Keeps.refl (address : Address) (db : S) : Keeps address db db := fun present => ⟨.refl _, present⟩

theorem Keeps.trans {address : Address} {first second third : S} (before : Keeps address first second)
    (after : Keeps address second third) : Keeps address first third := fun present => by
  obtain ⟨kept, present⟩ := before present
  obtain ⟨kept', present⟩ := after present
  exact ⟨kept.trans kept', present⟩

theorem keeps_of_edits {address other : Address} {change : Account → Account} {before after : S}
    (edits : Edits other change before after) (apart : address ≠ other) : Keeps address before after := fun present => by
  rw [edits.account_other apart, edits.hasSelfDestructed]
  exact ⟨.refl _, present⟩

theorem Tracks.keeps {module other : Module} (apart : other ≠ module) {start now : S} {image : Precompile.StateDB}
    (tracks : Tracks module start now image) : Keeps other.address start now := fun present => by
  refine ⟨.inl ⟨tracks.nonce _, tracks.code _, tracks.storage _ (Module.address_injective.ne apart)⟩, ?_⟩
  rw [tracks.hasSelfDestructed]
  exact present

variable [LawfulStateDB S]

theorem keeps_finalise (address : Address) (db : S) : Keeps address db (StateDB.finalise db) := fun present => by
  refine ⟨?_, LawfulStateDB.hasSelfDestructed_finalise db address⟩
  cases blank : (StateDB.account db address).empty with
  | false =>
    rw [LawfulStateDB.account_finalise db address present blank]
    exact .refl _
  | true =>
    rcases LawfulStateDB.account_finalise_empty db address present blank with same | gone
    · rw [same]
      exact .refl _
    · obtain ⟨nonce, -, code⟩ := of_decide_eq_true blank
      rw [gone]
      exact .inr ⟨nonce, code, .default⟩

theorem keeps_selfDestruct {address other : Address} (apart : address ≠ other) (db : S) :
    Keeps address db (StateDB.selfDestruct other db) := fun present => by
  rw [LawfulStateDB.account_selfDestruct, LawfulStateDB.hasSelfDestructed_selfDestruct, Function.update_of_ne apart,
    Function.update_of_ne apart]
  exact ⟨.refl _, present⟩

/-- Whatever the state, destructing and finalising wipes the account. -/
theorem wiped_selfDestruct (address : Address) (db : S) :
    Wiped (StateDB.account (StateDB.finalise (StateDB.selfDestruct address db)) address) := by
  by_cases destructed : StateDB.hasSelfDestructed (StateDB.selfDestruct address db) address
  · rw [LawfulStateDB.account_finalise_destructed _ _ destructed]
    exact .default
  · have present := Bool.eq_false_iff.mpr destructed
    rw [LawfulStateDB.hasSelfDestructed_selfDestruct, Function.update_self, Bool.or_eq_false_iff] at present
    -- There was no account.
    have absent : StateDB.account (StateDB.selfDestruct address db) address = {} := by
      rw [LawfulStateDB.account_selfDestruct, Function.update_self, LawfulStateDB.account_absent db address present.1]
    rcases LawfulStateDB.account_finalise_empty _ address (Bool.eq_false_iff.mpr destructed)
      (by rw [absent]; rfl) with same | gone
    · rw [same, absent]
      exact .default
    · rw [gone]
      exact .default

/-! ## What one event does -/

variable {chain : ChainConfig} (fees : chain.feeConfig.verify = .ok ()) {networkUpgrades : Evm.NetworkUpgrades}
  {config : Config} (verified : config.verify networkUpgrades = .ok ()) (blockContext : BlockContext)

include fees verified

/-- A precompile that is enabled keeps the accounts of the others. -/
theorem applyActivation_other {other : Module} (apart : other ≠ config.key) (before : S) :
    Ends before (applyActivation chain blockContext config.key config) fun result after =>
      result = .ok () ∧ Keeps other.address before after := by
  have away := Module.address_injective.ne apart
  unfold applyActivation
  by_cases disabled : config.isDisabled
  · rw [if_pos disabled]
    exact ⟨rfl, (keeps_selfDestruct away before).trans (keeps_finalise _ _)⟩
  · rw [if_neg disabled]
    set marked := StateDB.setCode config.key.address [1] (StateDB.setNonce config.key.address 1 before)
    have keeps : Keeps other.address before marked :=
      (keeps_of_edits (LawfulStateDB.setNonce before config.key.address 1) away).trans
        (keeps_of_edits (LawfulStateDB.setCode _ config.key.address [1]) away)
    -- The image starts with the storage that is there.
    have tracks : Tracks config.key marked marked
        { blankStateDB with storage := fun _ => (StateDB.account marked config.key.address).storage } :=
      ⟨fun _ => rfl, fun _ => rfl, fun _ _ => rfl, rfl, rfl⟩
    have tracked := (mirrors_configure config.key chain config blockContext marked _ _ tracks).2
    exact ⟨congrArg (Except.mapError _) (configure_ok verified fees blockContext marked), keeps.trans (tracked.keeps apart)⟩

/-- A precompile that is enabled where it has no storage is configured. -/
theorem applyActivation_own {before : S} (present : StateDB.hasSelfDestructed before config.key.address = false)
    (blank : config.isDisabled = false → (StateDB.account before config.key.address).storage = fun _ => 0) :
    Ends before (applyActivation chain blockContext config.key config) fun result after =>
      result = .ok () ∧ StateDB.hasSelfDestructed after config.key.address = false ∧
        Settled chain (some (config, blockContext)) (StateDB.account after config.key.address) := by
  unfold applyActivation
  cases disabled : config.isDisabled with
  | true =>
    simp only [settled_disabled disabled, if_true]
    exact ⟨rfl, LawfulStateDB.hasSelfDestructed_finalise _ _, wiped_selfDestruct _ before⟩
  | false =>
    simp only [settled_enabled disabled, Bool.false_eq_true, if_false]
    have blank := blank disabled
    set marked := StateDB.setCode config.key.address [1] (StateDB.setNonce config.key.address 1 before)
    have first := LawfulStateDB.setNonce before config.key.address 1
    have second := LawfulStateDB.setCode (StateDB.setNonce config.key.address 1 before) config.key.address [1]
    have contract : StateDB.account marked config.key.address =
        { StateDB.account before config.key.address with nonce := 1, code := [1] } := by
      rw [second.account_same, first.account_same]
    have tracks : Tracks config.key marked marked blankStateDB :=
      ⟨fun _ => rfl, fun _ => rfl, fun _ _ => rfl, by rw [contract]; exact blank, rfl⟩
    have tracked := (mirrors_configure config.key chain config blockContext marked _ _ tracks).2
    refine ⟨congrArg (Except.mapError _) (configure_ok verified fees blockContext marked), ?_, ?_, ?_, tracked.own⟩
    · exact (congrFun tracked.hasSelfDestructed _).trans
        (by rw [second.hasSelfDestructed, first.hasSelfDestructed]; exact present)
    · exact (tracked.nonce _).trans (by rw [contract])
    · exact (tracked.code _).trans (by rw [contract])

omit fees verified

theorem keeps_upgradeAccount {address account : Address} (apart : address ≠ account) (upgrade : StateUpgradeAccount)
    (isEIP158 : Bool) (db : S) : Keeps address db (upgradeAccount account upgrade isEIP158 db) := by
  have writes (entries : List (Sigma fun _ : Hash => Hash)) (db : S) :
      Keeps address db (entries.foldl (fun db entry => StateDB.setState account entry.1 entry.2 db) db) := by
    induction entries generalizing db with
    | nil => exact .refl _ _
    | cons entry rest ih =>
      exact (keeps_of_edits (LawfulStateDB.setState db account entry.1 entry.2) apart).trans (ih _)
  have creates : Keeps address db (if StateDB.exist db account then db else StateDB.createAccount account db) := by
    by_cases exist : StateDB.exist db account
    · rw [if_pos exist]
      exact .refl _ _
    · rw [if_neg exist]
      exact keeps_of_edits (LawfulStateDB.createAccount db account (Bool.eq_false_iff.mpr exist)) apart
  have pays (db : S) : Keeps address db
      (upgrade.balanceChange.elim db fun change => StateDB.addBalance account (.ofInt 256 change) db) := by
    cases upgrade.balanceChange with
    | none => exact .refl _ _
    | some change => exact keeps_of_edits (LawfulStateDB.addBalance db account _) apart
  have deploys (db : S) : Keeps address db (if upgrade.code.getD [] = [] then db else
      StateDB.setCode account (upgrade.code.getD [])
        (if isEIP158 ∧ (StateDB.account db account).nonce = 0 then StateDB.setNonce account 1 db else db)) := by
    split
    · exact .refl _ _
    · refine Keeps.trans ?_ (keeps_of_edits (LawfulStateDB.setCode _ account _) apart)
      split
      · exact keeps_of_edits (LawfulStateDB.setNonce db account 1) apart
      · exact .refl _ _
  exact ((creates.trans (pays _)).trans (deploys _)).trans (writes _ _)

/-- A change of state keeps the accounts that it does not name. -/
theorem keeps_configureStateUpgrade {address : Address} (isEIP158 : Int → Bool) {upgrade : StateUpgrade}
    (apart : ∀ accounts ∈ upgrade.stateUpgradeAccounts, address ∉ accounts) (blockContext : BlockContext) (db : S) :
    Keeps address db (configureStateUpgrade isEIP158 upgrade blockContext db) := by
  have each (entries : List (Sigma fun _ : Address => StateUpgradeAccount)) (absent : ∀ entry ∈ entries, address ≠ entry.1)
      (db : S) : Keeps address db (entries.foldl
        (fun db entry => upgradeAccount entry.1 entry.2 (isEIP158 blockContext.number) db) db) := by
    induction entries generalizing db with
    | nil => exact .refl _ _
    | cons entry rest ih =>
      exact (keeps_upgradeAccount (absent entry (List.mem_cons_self ..)) entry.2 _ db).trans
        (ih (fun other member => absent other (List.mem_cons_of_mem _ member)) _)
  refine each _ (fun entry member same => ?_) db
  cases found : upgrade.stateUpgradeAccounts with
  | none =>
    rw [found] at member
    exact (List.not_mem_nil member).elim
  | some accounts =>
    rw [found] at member
    exact apart accounts found (same ▸ List.mem_map_of_mem member)

end

end Snowside.Upgrades
