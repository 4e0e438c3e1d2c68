import Snowside.Upgrades.Activation

/-! Over a sequence of blocks every scheduled upgrade is applied once, whatever the
gaps between the blocks, and the last of a precompile's settles its account.
-/

set_option autoImplicit false

namespace Snowside.Upgrades

open Evm (Address)
open State (Account StateDB LawfulStateDB)
open Stateful
open Timeline (due windows InOrder NoLater flatMap_windows)

/-! ## Which upgrades the blocks collect -/

theorem windows_eq_map_withParents (parentTimestamp : Option UInt64) (blockContexts : List BlockContext) :
    windows parentTimestamp (blockContexts.map BlockContext.timestamp) =
      (withParents parentTimestamp blockContexts).map fun block => (block.1, block.2.timestamp) := by
  induction blockContexts generalizing parentTimestamp with
  | nil => rfl
  | cons blockContext later ih => exact congrArg ((parentTimestamp, blockContext.timestamp) :: ·) (ih _)

/-- The time of the last of some blocks. -/
def lastTimestamp (genesis : BlockContext) (later : List BlockContext) : UInt64 :=
  ((genesis :: later).getLast (List.cons_ne_nil _ _)).timestamp

/-- Block times do not decrease. -/
def Onward (blockContexts : List BlockContext) : Prop := (blockContexts.map BlockContext.timestamp).IsChain (· ≤ ·)

instance (blockContexts : List BlockContext) : Decidable (Onward blockContexts) := inferInstanceAs (Decidable (List.IsChain ..))

section

variable {chain : ChainConfig} {genesis : BlockContext} {later : List BlockContext}

/-- Items in order are collected once each. -/
theorem collected_once {Item : Type} {time : Item → Option UInt64} {items : List Item} (ordered : InOrder time items)
    (onward : Onward (genesis :: later)) :
    (withParents none (genesis :: later)).flatMap
        (fun block => items.filter fun item => due block.1 block.2.timestamp (time item)) =
      items.filter fun item => due none (lastTimestamp genesis later) (time item) := by
  have nothing : NoLater none genesis.timestamp := fun _ member => (Option.not_mem_none _ member).elim
  have collected := flatMap_windows ordered nothing onward
  have last : ((genesis :: later).map BlockContext.timestamp).getLast (List.cons_ne_nil _ _) = lastTimestamp genesis later :=
    List.getLast_map _
  have ends : (genesis.timestamp :: later.map BlockContext.timestamp).getLast (List.cons_ne_nil _ _) =
      lastTimestamp genesis later := last
  rw [ends] at collected
  rw [← collected]
  change _ = (windows none ((genesis :: later).map BlockContext.timestamp)).flatMap _
  rw [windows_eq_map_withParents, List.flatMap_map]

theorem precompileConfigs_once (accepted : chain.verifyPrecompileUpgrades = .ok ()) (onward : Onward (genesis :: later))
    (address : Address) :
    (withParents none (genesis :: later)).flatMap (fun block =>
        chain.getActivatingPrecompileConfigs address block.1 block.2.timestamp chain.precompileUpgrades) =
      chain.getActivatingPrecompileConfigs address none (lastTimestamp genesis later) chain.precompileUpgrades := by
  cases found : getPrecompileModuleByAddress address with
  | none => simp only [ChainConfig.getActivatingPrecompileConfigs, found, List.flatMap_eq_nil_iff, implies_true]
  | some module =>
    rw [← address_of_getPrecompileModuleByAddress found]
    simp only [ChainConfig.getActivatingPrecompileConfigs_address]
    exact collected_once (ChainConfig.scheduled accepted module).inOrder onward

theorem stateUpgrades_once (accepted : chain.verifyStateUpgrades = .ok ()) (onward : Onward (genesis :: later)) :
    (withParents none (genesis :: later)).flatMap (fun block =>
        getActivatingStateUpgrades block.1 block.2.timestamp chain.stateUpgrades) =
      getActivatingStateUpgrades none (lastTimestamp genesis later) chain.stateUpgrades := by
  unfold getActivatingStateUpgrades
  simp only [isForkTransition_eq_due]
  exact collected_once (stateUpgrades_inOrder accepted) onward

end

/-! ## What the blocks apply -/

theorem history_blockEvents (chain : ChainConfig) (module : Module) (parentTimestamp : Option UInt64)
    (blockContext : BlockContext) :
    history module (blockEvents chain parentTimestamp blockContext) =
      (chain.getActivatingPrecompileConfigs module.address parentTimestamp blockContext.timestamp
        chain.precompileUpgrades).map (·, blockContext) := by
  have own (configs : List Config) :
      history module (configs.map fun config => .activation module config blockContext) = configs.map (·, blockContext) := by
    simp only [history, List.filterMap_map, Function.comp_def, UpgradeEvent.activationOf, if_true]
    exact congrFun List.filterMap_eq_map' configs
  have others {other : Module} (apart : other ≠ module) (configs : List Config) :
      history module (configs.map fun config => .activation other config blockContext) = [] := by
    simp only [history, List.filterMap_map, Function.comp_def, UpgradeEvent.activationOf, if_neg apart]
    exact List.filterMap_eq_nil_iff.mpr fun _ _ => rfl
  have states (upgrades : List StateUpgrade) :
      history module (upgrades.map fun upgrade => .stateUpgrade upgrade blockContext) = [] := by
    simp only [history, List.filterMap_map, Function.comp_def, UpgradeEvent.activationOf]
    exact List.filterMap_eq_nil_iff.mpr fun _ _ => rfl
  unfold history at own others states ⊢
  simp only [blockEvents, registeredModules, List.flatMap_cons, List.flatMap_nil, List.filterMap_append, states, List.append_nil]
  cases module <;> simp only [own, others, ne_eq, reduceCtorEq, not_false_eq_true, List.nil_append, List.append_nil]

theorem history_events (chain : ChainConfig) (module : Module) (parentTimestamp : Option UInt64)
    (blockContexts : List BlockContext) :
    history module (events chain parentTimestamp blockContexts) =
      (withParents parentTimestamp blockContexts).flatMap fun block =>
        (chain.getActivatingPrecompileConfigs module.address block.1 block.2.timestamp
          chain.precompileUpgrades).map (·, block.2) := by
  simp only [← history_blockEvents, history, events, List.filterMap_flatMap]

/-- Configurations that were verified, of the precompile that they are applied to. -/
def UpgradeEvent.Good (chain : ChainConfig) : UpgradeEvent → Prop
  | activation module config _ => config.key = module ∧ config.verify chain.networkUpgrades = .ok ()
  | stateUpgrade .. => True

/-- A change of state of the account. -/
def UpgradeEvent.Names (address : Address) : UpgradeEvent → Prop
  | activation .. => False
  | stateUpgrade upgrade _ => ∃ accounts ∈ upgrade.stateUpgradeAccounts, address ∈ accounts

theorem events_good {chain : ChainConfig} (accepted : chain.verifyPrecompileUpgrades = .ok ()) (parentTimestamp : Option UInt64)
    (blockContexts : List BlockContext) : ∀ event ∈ events chain parentTimestamp blockContexts, event.Good chain := by
  intro event member
  obtain ⟨block, -, member⟩ := List.mem_flatMap.mp member
  rcases List.mem_append.mp member with member | member
  · obtain ⟨module, -, member⟩ := List.mem_flatMap.mp member
    obtain ⟨config, inside, rfl⟩ := List.mem_map.mp member
    rw [ChainConfig.getActivatingPrecompileConfigs_address] at inside
    have inside := (List.mem_filter.mp inside).1
    exact ⟨(chain.scheduled accepted module).key config inside, (chain.scheduled accepted module).verified config inside⟩
  · obtain ⟨upgrade, -, rfl⟩ := List.mem_map.mp member
    trivial

section

variable {S : Type} [StateDB S] [LawfulStateDB S] (isEIP158 : Int → Bool) {chain : ChainConfig}
  (fees : chain.feeConfig.verify = .ok ())

include fees

theorem apply_ok {event : UpgradeEvent} (good : event.Good chain) (before : S) :
    (perform (event.apply isEIP158 chain) before).1 = .ok () := by
  cases event with
  | activation module config blockContext =>
    obtain ⟨rfl, verified⟩ := good
    obtain ⟨other, apart⟩ : ∃ other : Module, other ≠ config.key := by
      cases config.key
      · exact ⟨.warp, by decide⟩
      all_goals exact ⟨.deployerAllowList, by decide⟩
    exact (applyActivation_other fees verified blockContext apart before).1
  | stateUpgrade upgrade blockContext => rfl

theorem applyEvents_ok {events : List UpgradeEvent} (good : ∀ event ∈ events, event.Good chain) (before : S) :
    (perform (events.forM (UpgradeEvent.apply isEIP158 chain)) before).1 = .ok () := by
  induction events generalizing before with
  | nil => rfl
  | cons event rest ih =>
    change (perform (event.apply isEIP158 chain >>= fun _ => rest.forM _) before).1 = _
    rw [perform_bind_ok (Prod.ext (apply_ok isEIP158 fees (good event (List.mem_cons_self ..)) before) rfl)]
    exact ih (fun event member => good event (List.mem_cons_of_mem _ member)) _

theorem keeps_apply {module : Module} {event : UpgradeEvent} (good : event.Good chain)
    (unnamed : ¬ event.Names module.address) (away : event.activationOf module = none) (before : S) :
    Keeps module.address before (perform (event.apply isEIP158 chain) before).2 := by
  cases event with
  | activation other config blockContext =>
    obtain ⟨rfl, verified⟩ := good
    have apart : module ≠ config.key := by
      rintro rfl
      simp only [UpgradeEvent.activationOf, if_true, reduceCtorEq] at away
    exact (applyActivation_other fees verified blockContext apart before).2
  | stateUpgrade upgrade blockContext =>
    exact keeps_configureStateUpgrade isEIP158 (fun accounts found member => unnamed ⟨accounts, found, member⟩)
      blockContext before

/-- The last configuration of a precompile settles its account. -/
theorem settled_events {module : Module} {events : List UpgradeEvent} (good : ∀ event ∈ events, event.Good chain)
    (unnamed : ∀ event ∈ events, ¬ event.Names module.address) {last : Option (Config × BlockContext)} {before : S}
    (present : StateDB.hasSelfDestructed before module.address = false)
    (settled : Settled chain last (StateDB.account before module.address))
    (alternates : Alternates ((last.toList ++ history module events).map Prod.fst)) :
    Settled chain ((history module events).getLast?.or last)
      (StateDB.account (perform (events.forM (UpgradeEvent.apply isEIP158 chain)) before).2 module.address) := by
  induction events generalizing last before with
  | nil => exact settled
  | cons event rest ih =>
    have fine := good event (List.mem_cons_self ..)
    have ih {last : Option (Config × BlockContext)} {before : S} :=
      @ih (fun event member => good event (List.mem_cons_of_mem _ member))
        (fun event member => unnamed event (List.mem_cons_of_mem _ member)) last before
    change Settled chain _ (StateDB.account (perform (event.apply isEIP158 chain >>= fun _ => rest.forM _) before).2 _)
    rw [perform_bind_ok (Prod.ext (apply_ok isEIP158 fees fine before) rfl)]
    cases own : event.activationOf module with
    | none =>
      have skips : history module (event :: rest) = history module rest := List.filterMap_cons_none own
      rw [skips] at alternates ⊢
      have keeps := keeps_apply isEIP158 fees fine (unnamed event (List.mem_cons_self ..)) own before present
      exact ih keeps.2 (settled.kept keeps.1) alternates
    | some applied =>
      have takes : history module (event :: rest) = applied :: history module rest := List.filterMap_cons_some own
      rw [takes] at alternates ⊢
      obtain ⟨config, blockContext⟩ := applied
      have same : event = .activation config.key config blockContext ∧ config.key = module := by
        cases event with
        | activation other config' blockContext' =>
          obtain ⟨rfl, -⟩ := fine
          simp only [UpgradeEvent.activationOf, Option.ite_none_right_eq_some, Option.some.injEq, Prod.mk.injEq] at own
          obtain ⟨key, rfl, rfl⟩ := own
          exact ⟨rfl, key⟩
        | stateUpgrade => cases own
      obtain ⟨rfl, rfl⟩ := same
      -- Without storage before it is enabled: it was never configured, or it has just been disabled.
      have blank : config.isDisabled = false → (StateDB.account before config.key.address).storage = fun _ => 0 := by
        intro enabled
        rcases last with _ | ⟨earlier, _⟩
        · exact settled
        · have disabled := (List.isChain_cons_cons.mp alternates).1.resolve_right (by simp [enabled])
          exact ((settled_disabled disabled).mp settled).storage
      obtain ⟨-, present, settled⟩ := applyActivation_own fees fine.2 blockContext present blank
      have alternates : Alternates ((config, blockContext) :: history config.key rest |>.map Prod.fst) := by
        rcases last with _ | earlier
        · exact alternates
        · exact (List.isChain_cons_cons.mp alternates).2
      have ended := ih present settled alternates
      rw [List.getLast?_cons, Option.some_or]
      cases behind : (history config.key rest).getLast? with
      | none =>
        rw [behind] at ended
        exact ended
      | some final =>
        rw [behind] at ended
        exact ended

end

/-! ## Over all blocks -/

/-- A change of state that has come by a time and names the account. -/
def NamedBy (chain : ChainConfig) (now : UInt64) (address : Address) : Prop :=
  ∃ upgrade ∈ getActivatingStateUpgrades none now chain.stateUpgrades, ∃ accounts ∈ upgrade.stateUpgradeAccounts,
    address ∈ accounts

theorem unnamed_events {chain : ChainConfig} (accepted : chain.verifyStateUpgrades = .ok ()) {genesis : BlockContext}
    {later : List BlockContext} (onward : Onward (genesis :: later)) {address : Address}
    (unnamed : ¬ NamedBy chain (lastTimestamp genesis later) address) :
    ∀ event ∈ events chain none (genesis :: later), ¬ event.Names address := by
  intro event member names
  obtain ⟨block, inside, member⟩ := List.mem_flatMap.mp member
  rcases List.mem_append.mp member with member | member
  · obtain ⟨module, -, member⟩ := List.mem_flatMap.mp member
    obtain ⟨config, -, rfl⟩ := List.mem_map.mp member
    exact names
  · obtain ⟨upgrade, activating, rfl⟩ := List.mem_map.mp member
    refine unnamed ⟨upgrade, ?_, names⟩
    rw [← stateUpgrades_once accepted onward]
    exact List.mem_flatMap.mpr ⟨block, inside, activating⟩

/-- For every accepted configuration and all blocks from genesis on: what the blocks
activate is, in order, what the last of them activates from the start, and applying
them settles the account of each precompile that no change of state names. -/
theorem upgrades_applied_once {S : Type} [StateDB S] [LawfulStateDB S] (isEIP158 : Int → Bool) {chain : ChainConfig}
    (accepted : chain.verify = .ok ()) (genesis : BlockContext) (later : List BlockContext)
    (onward : Onward (genesis :: later)) (start : S)
    (blank : ∀ module : Module, (StateDB.account start module.address).storage = (fun _ => 0) ∧
      StateDB.hasSelfDestructed start module.address = false) :
    (∀ address, (withParents none (genesis :: later)).flatMap (fun block =>
        chain.getActivatingPrecompileConfigs address block.1 block.2.timestamp chain.precompileUpgrades) =
      chain.getActivatingPrecompileConfigs address none (lastTimestamp genesis later) chain.precompileUpgrades) ∧
    (withParents none (genesis :: later)).flatMap (fun block =>
        getActivatingStateUpgrades block.1 block.2.timestamp chain.stateUpgrades) =
      getActivatingStateUpgrades none (lastTimestamp genesis later) chain.stateUpgrades ∧
    ∃ final, perform (applyBlocks isEIP158 chain none (genesis :: later)) start = (.ok (), final) ∧
      ∀ module : Module, ¬ NamedBy chain (lastTimestamp genesis later) module.address →
        (chain.isPrecompileEnabled module.address (lastTimestamp genesis later) →
          ∃ config, chain.getActivePrecompileConfig module.address (lastTimestamp genesis later) = some config ∧
            ∃ block ∈ withParents none (genesis :: later),
              config ∈ chain.getActivatingPrecompileConfigs module.address block.1 block.2.timestamp
                chain.precompileUpgrades ∧
              Configured chain config block.2 (StateDB.account final module.address)) ∧
        ∀ config, chain.getActivePrecompileConfig module.address (lastTimestamp genesis later) = some config →
          config.isDisabled → Wiped (StateDB.account final module.address) := by
  obtain ⟨fees, precompiles, states⟩ := ChainConfig.parts_of_verify accepted
  have good := events_good precompiles none (genesis :: later)
  refine ⟨precompileConfigs_once precompiles onward, stateUpgrades_once states onward, _,
    Prod.ext ?_ rfl, fun module unnamed => ?_⟩
  · rw [applyBlocks_eq_events]
    exact applyEvents_ok isEIP158 fees good start
  have applied : (history module (events chain none (genesis :: later))).map Prod.fst =
      chain.getActivatingPrecompileConfigs module.address none (lastTimestamp genesis later) chain.precompileUpgrades := by
    rw [← precompileConfigs_once precompiles onward, history_events, List.map_flatMap]
    simp only [List.map_map, Function.comp_def, List.map_id']
  have active : chain.getActivePrecompileConfig module.address (lastTimestamp genesis later) =
      (history module (events chain none (genesis :: later))).getLast?.map Prod.fst := by
    rw [ChainConfig.getActivePrecompileConfig, ← applied, List.getLast?_map]
  have alternates : Alternates ((history module (events chain none (genesis :: later))).map Prod.fst) := by
    rw [applied, ChainConfig.getActivatingPrecompileConfigs_address]
    have scheduled := chain.scheduled precompiles module
    exact List.IsChain.prefix scheduled.alternates (scheduled.reached_first _)
  have settled := settled_events isEIP158 fees good (unnamed_events states onward unnamed) (blank module).2
    (show Settled chain none (StateDB.account start module.address) from (blank module).1) alternates
  rw [← applyBlocks_eq_events, Option.or_none] at settled
  constructor
  · intro enabled
    rw [ChainConfig.isPrecompileEnabled, active] at enabled
    cases last : (history module (events chain none (genesis :: later))).getLast? with
    | none =>
      rw [last] at enabled
      cases enabled
    | some applied =>
      obtain ⟨config, blockContext⟩ := applied
      rw [last] at enabled active settled
      have kept : config.isDisabled = false := by simpa using enabled
      have member := List.mem_of_getLast? last
      rw [history_events] at member
      obtain ⟨block, inside, member⟩ := List.mem_flatMap.mp member
      obtain ⟨_, activating, same⟩ := List.mem_map.mp member
      cases same
      exact ⟨config, active, block, inside, activating, (settled_enabled kept).mp settled⟩
  · intro config found disabled
    rw [active, Option.map_eq_some_iff] at found
    obtain ⟨⟨_, blockContext⟩, last, rfl⟩ := found
    rw [last] at settled
    exact (settled_disabled disabled).mp settled

/-! ## Samples -/

/-- A list of who sends transactions, from time 10 to 20 and, with another
administrator, from 21 on. -/
def sampleChain : ChainConfig where
  networkUpgrades := { subnetEVMTimestamp := some 0, durangoTimestamp := some 0, etnaTimestamp := some 0,
                       graniteTimestamp := some 0, heliconTimestamp := some 0 }
  agoUpgrades := ⟨0, 0, 0, 0, 1607144400, 253399622400⟩
  feeConfig := { gasLimit := some 8000000, targetBlockRate := 2, minBaseFee := some 25000000000, targetGas := some 15000000
                 baseFeeChangeDenominator := some 36, minBlockGasCost := some 0, maxBlockGasCost := some 1000000
                 blockGasCostStep := some 200000 }
  allowFeeRecipients := false
  genesisPrecompiles := ∅
  precompileUpgrades := [.txAllowList { adminAddresses := [5] } { blockTimestamp := some 10 },
    .txAllowList {} { blockTimestamp := some 20, disable := true },
    .txAllowList { adminAddresses := [6] } { blockTimestamp := some 21 }]
  stateUpgrades := []

def genesisBlock : BlockContext := ⟨0, 0⟩

/-- One block disables the list and enables it again. -/
theorem upgrades_applied_once_sample : ∃ final : State.Ledger,
    perform (applyBlocks (fun _ => true) sampleChain none [genesisBlock, ⟨1, 10⟩, ⟨2, 21⟩]) {} = (.ok (), final) ∧
      ∃ config, sampleChain.getActivePrecompileConfig Module.txAllowList.address 21 = some config ∧
        ∃ block ∈ withParents none [genesisBlock, ⟨1, 10⟩, ⟨2, 21⟩],
          config ∈ sampleChain.getActivatingPrecompileConfigs Module.txAllowList.address block.1 block.2.timestamp
            sampleChain.precompileUpgrades ∧
          Configured sampleChain config block.2 (StateDB.account final Module.txAllowList.address) := by
  obtain ⟨-, -, final, applied, settled⟩ := upgrades_applied_once (fun _ => true)
    (show sampleChain.verify = .ok () from rfl) genesisBlock [⟨1, 10⟩, ⟨2, 21⟩] (by decide) ({} : State.Ledger)
    fun _ => ⟨rfl, rfl⟩
  have unnamed : ¬ NamedBy sampleChain 21 Module.txAllowList.address := fun ⟨_, member, _⟩ => List.not_mem_nil member
  exact ⟨final, applied, (settled .txAllowList unnamed).1 rfl⟩

/-- At time 22 a change of state replaces the code of the list's account. -/
def replacingChain : ChainConfig :=
  { sampleChain with
    stateUpgrades := [⟨some 22, some (AList.singleton Module.txAllowList.address { code := some [0xfe] })⟩] }

def replacedLedger : State.Ledger :=
  (perform (applyBlocks (fun _ => true) replacingChain none [genesisBlock, ⟨1, 22⟩]) {}).2

theorem replacedLedger_code : (StateDB.account replacedLedger Module.txAllowList.address).code = [0xfe] := by rfl

/-- The list is enabled, and its account is not configured. -/
theorem upgrades_applied_once_replaced : replacingChain.verify = .ok () ∧ Onward [genesisBlock, ⟨1, 22⟩] ∧
    replacingChain.isPrecompileEnabled Module.txAllowList.address 22 ∧
    ∃ final : State.Ledger,
      perform (applyBlocks (fun _ => true) replacingChain none [genesisBlock, ⟨1, 22⟩]) {} = (.ok (), final) ∧
      ∀ config blockContext,
        ¬ Configured replacingChain config blockContext (StateDB.account final Module.txAllowList.address) := by
  have verified : replacingChain.verify = .ok () := rfl
  obtain ⟨fees, precompiles, -⟩ := ChainConfig.parts_of_verify verified
  refine ⟨verified, by decide, rfl, replacedLedger, Prod.ext ?_ rfl, fun config blockContext configured => ?_⟩
  · rw [applyBlocks_eq_events]
    exact applyEvents_ok _ fees (events_good precompiles _ _) _
  have marked := replacedLedger_code.symm.trans configured.code
  simp at marked

end Snowside.Upgrades
