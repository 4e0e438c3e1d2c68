import Snowside.Upgrades.Behaviour

/-! What a compatible configuration keeps of the time up to the head, and what it
may still change of it.
-/

set_option autoImplicit false

namespace Snowside.Upgrades

open Evm (Address NetworkUpgrades isTimestampForked)
open Precompile (Hash)
open Timeline (due reached)
open Maps (Map)

/-! ## The same history -/

structure AvalancheRules where
  isSubnetEVM : Bool
  isDurango : Bool
  isEtna : Bool
  isFortuna : Bool
  isGranite : Bool
  isHelicon : Bool
  deriving DecidableEq, Repr

def getAvalancheRules (networkUpgrades : NetworkUpgrades) (time : UInt64) : AvalancheRules where
  isSubnetEVM := isTimestampForked networkUpgrades.subnetEVMTimestamp time
  isDurango := isTimestampForked networkUpgrades.durangoTimestamp time
  isEtna := isTimestampForked networkUpgrades.etnaTimestamp time
  isFortuna := isTimestampForked networkUpgrades.fortunaTimestamp time
  isGranite := isTimestampForked networkUpgrades.graniteTimestamp time
  isHelicon := isTimestampForked networkUpgrades.heliconTimestamp time

/-- Maps with related values at every key, in whatever order. -/
def SameMap {Key Value : Type} [DecidableEq Key] (same : Value → Value → Prop) (first second : Map Key Value) : Prop :=
  ∀ key, Option.Rel same (first.lookup key) (second.lookup key)

structure SameAccountChange (account other : StateUpgradeAccount) : Prop where
  code : account.code = other.code
  storage : Option.Rel (SameMap (· = ·)) account.storage other.storage
  balanceChange : account.balanceChange = other.balanceChange

structure SameStateUpgrade (upgrade other : StateUpgrade) : Prop where
  blockTimestamp : upgrade.blockTimestamp = other.blockTimestamp
  accounts : Option.Rel (SameMap SameAccountChange) upgrade.stateUpgradeAccounts other.stateUpgradeAccounts

/-- Up to the head the two chains have one set of rules and of enabled precompiles, and
their blocks apply upgrades of the same effect. -/
structure SameHistory {ValidatorSet : Type} (library : WarpLibrary ValidatorSet) (config newConfig : ChainConfig)
    (head : UInt64) : Prop where
  rules : ∀ time ≤ head, getAvalancheRules config.networkUpgrades time = getAvalancheRules newConfig.networkUpgrades time
  enabled : ∀ time ≤ head, (config.enabledStatefulPrecompiles time).map Prod.fst =
    (newConfig.enabledStatefulPrecompiles time).map Prod.fst
  activated : ∀ parent, ∀ time ≤ head, ∀ address, List.Forall₂ (SameBehaviour library config newConfig)
    (config.getActivatingPrecompileConfigs address parent time config.precompileUpgrades)
    (newConfig.getActivatingPrecompileConfigs address parent time newConfig.precompileUpgrades)
  states : ∀ parent, ∀ time ≤ head, List.Forall₂ SameStateUpgrade
    (getActivatingStateUpgrades parent time config.stateUpgrades)
    (getActivatingStateUpgrades parent time newConfig.stateUpgrades)

/-- What has come by the head is the same in both; the rest may differ. -/
structure ChangesOnlyLater (config newConfig : ChainConfig) (head : UInt64) : Prop where
  forks : ∀ fork ∈ namedForks, fork.2 config.networkUpgrades = fork.2 newConfig.networkUpgrades ∨
    (isTimestampForked (fork.2 config.networkUpgrades) head = false ∧
      isTimestampForked (fork.2 newConfig.networkUpgrades) head = false)
  precompiles : config.precompileUpgrades.filter (fun upgrade => isTimestampForked upgrade.timestamp head) =
    newConfig.precompileUpgrades.filter fun upgrade => isTimestampForked upgrade.timestamp head
  states : config.stateUpgrades.filter (fun upgrade => isTimestampForked upgrade.blockTimestamp head) =
    newConfig.stateUpgrades.filter fun upgrade => isTimestampForked upgrade.blockTimestamp head

/-- The enabled configurations that have come by the head leave the same to their chains. -/
def LeavesSame (config newConfig : ChainConfig) (head : UInt64) : Prop :=
  ∀ module : Module, List.Forall₂ (fun one other => one.isDisabled = false → SameFallback config newConfig one other)
    (config.getActivatingPrecompileConfigs module.address none head config.precompileUpgrades)
    (newConfig.getActivatingPrecompileConfigs module.address none head newConfig.precompileUpgrades)

/-! ## Windows up to the head -/

theorem forall₂_imp_mem {First Second : Type} {related weaker : First → Second → Prop} {first : List First}
    {second : List Second} (holds : List.Forall₂ related first second)
    (weaken : ∀ one ∈ first, ∀ other ∈ second, related one other → weaker one other) : List.Forall₂ weaker first second := by
  induction holds with
  | nil => exact .nil
  | cons head _ ih =>
    exact .cons (weaken _ (List.mem_cons_self ..) _ (List.mem_cons_self ..) head) (ih fun one inside other there =>
      weaken one (List.mem_cons_of_mem _ inside) other (List.mem_cons_of_mem _ there))

/-- What is due in a window is due by any later time. -/
theorem filter_due_of_reached {Item : Type} {time : Item → Option UInt64} {parent : Option UInt64} {now head : UInt64}
    (early : now ≤ head) (items : List Item) :
    items.filter (fun item => due parent now (time item)) =
      (items.filter fun item => due none head (time item)).filter fun item => due parent now (time item) := by
  rw [List.filter_filter]
  refine List.filter_congr fun item _ => ?_
  cases holds : due parent now (time item) with
  | false => rfl
  | true =>
    simp only [due, Bool.and_eq_true] at holds
    exact (Timeline.reached_mono early holds.2).symm

/-- Items that are related, with times alike, are related in each window. -/
theorem forall₂_filter_due {Item : Type} {time : Item → Option UInt64} {related : Item → Item → Prop} {first second : List Item}
    (times : ∀ one other, related one other → time one = time other) {parent : Option UInt64} {now head : UInt64}
    (early : now ≤ head)
    (holds : List.Forall₂ related (first.filter fun item => due none head (time item))
      (second.filter fun item => due none head (time item))) :
    List.Forall₂ related (first.filter fun item => due parent now (time item))
      (second.filter fun item => due parent now (time item)) := by
  rw [filter_due_of_reached early first, filter_due_of_reached early second]
  refine List.rel_filter (fun one other same => ?_) holds
  simp only [times one other same]

theorem forall₂_getLast? {First Second : Type} {related : First → Second → Prop} {first : List First} {second : List Second}
    (holds : List.Forall₂ related first second) : Option.Rel related first.getLast? second.getLast? := by
  have reversed := List.rel_reverse holds
  rw [← List.head?_reverse, ← List.head?_reverse]
  generalize first.reverse = one at *
  generalize second.reverse = other at *
  cases reversed with
  | nil => exact .none
  | cons last _ => exact .some last

section

variable {config newConfig : ChainConfig} {head : UInt64}

/-- With one genesis the comparison sees the activations of the new configuration. -/
theorem activating_of_genesis (genesis : config.genesisPrecompiles = newConfig.genesisPrecompiles) (address : Address)
    (parent : Option UInt64) (time : UInt64) (upgrades : List Config) :
    config.getActivatingPrecompileConfigs address parent time upgrades =
      newConfig.getActivatingPrecompileConfigs address parent time upgrades := by
  unfold ChainConfig.getActivatingPrecompileConfigs
  rw [genesis]

theorem sameRules_of_compatible (compatible : Compatible config newConfig head) {time : UInt64} (early : time ≤ head) :
    getAvalancheRules config.networkUpgrades time = getAvalancheRules newConfig.networkUpgrades time := by
  have same {first second : Option UInt64} (agreed : isForkTimestampIncompatible first second head = false) :
      isTimestampForked first time = isTimestampForked second time := by
    simp only [isForkTimestampIncompatible, Bool.and_eq_false_iff, Bool.or_eq_false_iff, Bool.not_eq_false'] at agreed
    rcases agreed with ⟨first', second'⟩ | equal
    · have never {fork : Option UInt64} (future : isTimestampForked fork head = false) : isTimestampForked fork time = false :=
        Bool.eq_false_iff.mpr fun come => Bool.eq_false_iff.mp future (Evm.isTimestampForked_mono early come)
      rw [never first', never second']
    · rw [configTimestampEqual_iff.mp equal]
  have forks := compatible.forks
  simp only [namedForks, List.forall_mem_cons] at forks
  obtain ⟨subnetEVM, durango, etna, fortuna, granite, helicon, -⟩ := forks
  simp only [getAvalancheRules, AvalancheRules.mk.injEq]
  exact ⟨same subnetEVM, same durango, same etna, same fortuna, same granite, same helicon⟩

theorem sameAccountChange_of_equal {account other : StateUpgradeAccount} (equal : account.equal other) :
    SameAccountChange account other := by
  obtain ⟨code, storage, balanceChange⟩ := account
  obtain ⟨code', storage', balanceChange'⟩ := other
  simp only [StateUpgradeAccount.equal, Bool.and_eq_true, decide_eq_true_eq] at equal
  obtain ⟨⟨codes, balances⟩, stored⟩ := equal
  refine ⟨codes, ?_, balances⟩
  cases storage <;> cases storage' <;> try cases stored
  · exact .none
  · exact .some fun key => by
      have related := Maps.lookup_of_agree stored key
      simpa only [decide_eq_true_eq] using related

theorem sameStateUpgrade_of_equal {upgrade other : StateUpgrade} (equal : upgrade.equal other) :
    SameStateUpgrade upgrade other := by
  obtain ⟨blockTimestamp, accounts⟩ := upgrade
  obtain ⟨blockTimestamp', accounts'⟩ := other
  simp only [StateUpgrade.equal, Bool.and_eq_true, decide_eq_true_eq] at equal
  obtain ⟨times, changes⟩ := equal
  refine ⟨times, ?_⟩
  cases accounts <;> cases accounts' <;> try cases changes
  · exact .none
  · next accounts accounts' =>
    refine .some fun address => ?_
    have related := Maps.lookup_of_agree changes address
    cases one : accounts.lookup address <;> cases two : accounts'.lookup address <;> rw [one, two] at related <;>
      try cases related
    · exact .none
    · next same => exact .some (sameAccountChange_of_equal same)

theorem enabled_of_activated {ValidatorSet : Type} {library : WarpLibrary ValidatorSet} {time : UInt64}
    (activated : ∀ address, List.Forall₂ (SameBehaviour library config newConfig)
      (config.getActivatingPrecompileConfigs address none time config.precompileUpgrades)
      (newConfig.getActivatingPrecompileConfigs address none time newConfig.precompileUpgrades)) :
    (config.enabledStatefulPrecompiles time).map Prod.fst = (newConfig.enabledStatefulPrecompiles time).map Prod.fst := by
  unfold ChainConfig.enabledStatefulPrecompiles
  rw [List.map_filterMap, List.map_filterMap]
  refine List.filterMap_congr fun module _ => ?_
  have last := forall₂_getLast? (activated module.address)
  unfold ChainConfig.getActivePrecompileConfig
  generalize List.getLast? _ = one at *
  generalize List.getLast? _ = other at *
  cases last with
  | none => rfl
  | @some one other same =>
    have disabled : one.isDisabled = other.isDisabled := congrArg Upgrade.disable same.upgrade
    simp only [Option.filter, disabled]
    split <;> rfl

/-- A compatible configuration that leaves the same to the chain keeps the history. -/
theorem sameHistory_of_compatible {ValidatorSet : Type} (library : WarpLibrary ValidatorSet)
    (genesis : config.genesisPrecompiles = newConfig.genesisPrecompiles) (compatible : Compatible config newConfig head)
    (leaves : LeavesSame config newConfig head) : SameHistory library config newConfig head := by
  have activated (parent : Option UInt64) {time : UInt64} (early : time ≤ head) (address : Address) :
      List.Forall₂ (SameBehaviour library config newConfig)
        (config.getActivatingPrecompileConfigs address parent time config.precompileUpgrades)
        (newConfig.getActivatingPrecompileConfigs address parent time newConfig.precompileUpgrades) := by
    cases found : getPrecompileModuleByAddress address with
    | none =>
      simp only [ChainConfig.getActivatingPrecompileConfigs, found]
      exact .nil
    | some module =>
      rw [← address_of_getPrecompileModuleByAddress found]
      have equal := compatible.precompiles module
      have left := leaves module
      rw [activating_of_genesis genesis _ _ _ newConfig.precompileUpgrades] at equal
      rw [ChainConfig.getActivatingPrecompileConfigs_address, ChainConfig.getActivatingPrecompileConfigs_address] at *
      refine forall₂_filter_due (fun one other same => congrArg Upgrade.blockTimestamp same.upgrade) early ?_
      rw [List.forall₂_iff_get] at equal left ⊢
      exact ⟨equal.1, fun index inside there =>
        sameBehaviour_of_equal library (equal.2 index inside there) (left.2 index inside there)⟩
  refine ⟨fun _ early => sameRules_of_compatible compatible early, fun _ early => ?_, fun parent _ => activated parent, ?_⟩
  · exact enabled_of_activated (activated none early)
  · intro parent time early
    have states := compatible.states
    unfold getActivatingStateUpgrades at *
    simp only [isForkTransition_eq_due] at *
    exact forall₂_filter_due (fun _ _ same => same.blockTimestamp) early
      (states.imp fun _ _ equal => sameStateUpgrade_of_equal equal)

/-- Changes of what has not come by the head are accepted. -/
theorem compatible_of_changesOnlyLater (changes : ChangesOnlyLater config newConfig head) :
    Compatible config newConfig head := by
  refine ⟨fun fork member => ?_, fun module => ?_, ?_⟩
  · unfold isForkTimestampIncompatible
    rcases changes.forks fork member with equal | ⟨future, future'⟩
    · rw [equal, configTimestampEqual_iff.mpr rfl, Bool.not_true, Bool.and_false]
    · rw [future, future', Bool.or_self, Bool.false_and]
  · have same : config.getActivatingPrecompileConfigs module.address none head config.precompileUpgrades =
        config.getActivatingPrecompileConfigs module.address none head newConfig.precompileUpgrades := by
      simp only [ChainConfig.getActivatingPrecompileConfigs, getPrecompileModuleByAddress_address,
        isForkTransition_eq_due, Timeline.due_none, ← isTimestampForked_eq_reached]
      rw [← List.filter_filter, ← List.filter_filter, changes.precompiles]
    rw [← same]
    exact List.forall₂_same.mpr fun config _ => config.equal_refl
  · have same : getActivatingStateUpgrades none head config.stateUpgrades =
        getActivatingStateUpgrades none head newConfig.stateUpgrades := by
      simp only [getActivatingStateUpgrades, isForkTransition_eq_due, Timeline.due_none, ← isTimestampForked_eq_reached]
      exact changes.states
    rw [← same]
    exact List.forall₂_same.mpr fun upgrade _ => upgrade.equal_refl

/-- A kept history shows what is left to the chain. -/
theorem leavesSame_of_history {ValidatorSet : Type} {library : WarpLibrary ValidatorSet} (discerning : library.Discerning)
    (accepted : config.verify = .ok ()) (newAccepted : newConfig.verify = .ok ())
    (history : SameHistory library config newConfig head) : LeavesSame config newConfig head := by
  intro module
  obtain ⟨fees, precompiles, -⟩ := ChainConfig.parts_of_verify accepted
  obtain ⟨newFees, newPrecompiles, -⟩ := ChainConfig.parts_of_verify newAccepted
  have activated := history.activated none head UInt64.le_rfl module.address
  rw [ChainConfig.getActivatingPrecompileConfigs_address, ChainConfig.getActivatingPrecompileConfigs_address] at *
  refine forall₂_imp_mem activated fun one inside other there behaviour enabled => ?_
  exact sameFallback_of_behaviour discerning fees newFees
    ((config.scheduled precompiles module).verified one (List.mem_filter.mp inside).1)
    ((newConfig.scheduled newPrecompiles module).verified other (List.mem_filter.mp there).1) enabled behaviour

end

/-- Warp from time 10 on, with or without the signers of the primary network. -/
def warpChain (requirePrimaryNetworkSigners : Bool) : ChainConfig where
  networkUpgrades := { subnetEVMTimestamp := some 0, durangoTimestamp := some 0, etnaTimestamp := some 0,
                       graniteTimestamp := some 0, heliconTimestamp := some 0 }
  agoUpgrades := ⟨0, 0, 0, 0, 1607144400, 253399622400⟩
  feeConfig := { gasLimit := some 8000000, targetBlockRate := 2, minBaseFee := some 25000000000, targetGas := some 15000000
                 baseFeeChangeDenominator := some 36, minBlockGasCost := some 0, maxBlockGasCost := some 1000000
                 blockGasCostStep := some 200000 }
  allowFeeRecipients := false
  genesisPrecompiles := ∅
  precompileUpgrades := [.warp { blockTimestamp := some 10 } 0 requirePrimaryNetworkSigners]
  stateUpgrades := []

theorem warpChain_verify (flag : Bool) : (warpChain flag).verify = .ok () := by
  cases flag <;> rfl

/-- One message, of chain 1, that one of two sets of validators has signed. -/
def sampleLibrary : WarpLibrary Bool where
  format :=
    { predicateBytes := fun _ => some []
      parseMessage := fun _ => some ⟨1, []⟩
      parseAddressedCall := fun _ => none
      parseHash := fun _ => none
      newAddressedCall := fun _ _ => none
      newUnsignedMessage := fun _ _ _ => none }
  verifySignature _ _ validators _ _ := validators
  primaryNetworkID := 0
  platformChainID := 0

theorem sampleLibrary_discerning : sampleLibrary.Discerning :=
  ⟨[], [], ⟨1, []⟩, 1, true, false, rfl, rfl, by decide, fun _ _ _ => ⟨rfl, rfl⟩⟩

end Snowside.Upgrades
