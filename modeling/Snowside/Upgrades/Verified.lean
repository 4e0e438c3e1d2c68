import Snowside.Timeline.Windows
import Snowside.Upgrades.Schedule

/-! What an accepted configuration schedules for one precompile: times that
increase, and a disable before each enable but the first.
-/

set_option autoImplicit false

namespace Snowside.Upgrades

open Evm (NetworkUpgrades isTimestampForked)
open Checked
open Timeline (InOrder due windows)

/-! ## Schedules -/

theorem isTimestampForked_eq_reached (fork : Option UInt64) (now : UInt64) :
    isTimestampForked fork now = Timeline.reached now fork := by
  cases fork <;> rfl

theorem isForkTransition_eq_due (fork parent : Option UInt64) (current : UInt64) :
    isForkTransition fork parent current = due parent current fork := by
  cases parent <;> simp [isForkTransition, isTimestampForked_eq_reached]

namespace ChainConfig

variable (config : ChainConfig)

/-- The configuration at genesis with a time, and the upgrades. -/
def schedule (module : Module) : List Config :=
  ((config.genesisPrecompiles.configs.lookup module).toList.filter fun config => config.timestamp.isSome) ++
    config.precompileUpgrades.filter fun upgrade => upgrade.key = module

theorem getActivatingPrecompileConfigs_address (module : Module) (parent : Option UInt64) (current : UInt64) :
    config.getActivatingPrecompileConfigs module.address parent current config.precompileUpgrades =
      (config.schedule module).filter fun config => due parent current config.timestamp := by
  simp only [getActivatingPrecompileConfigs, getPrecompileModuleByAddress_address, schedule, List.filter_append,
    List.filter_filter, isForkTransition_eq_due]
  congr 1
  · refine List.filter_congr fun genesis _ => ?_
    cases genesis.timestamp <;> simp [due]
  · refine List.filter_congr fun upgrade _ => ?_
    rw [Bool.and_comm]

end ChainConfig

/-! ## What the loops of the verification accept -/

/-- Upgrades of one precompile that may follow its last one. -/
def Follows (networkUpgrades : NetworkUpgrades) : Option LastUpgradeData → List Config → Prop
  | _, [] => True
  | last, upgrade :: rest => ∃ timestamp, upgrade.timestamp = some timestamp ∧
      (∀ data ∈ last, data.blockTimestamp < timestamp) ∧ upgrade.isDisabled = !last.elim true LastUpgradeData.disabled ∧
      upgrade.verify networkUpgrades = .ok () ∧
      Follows networkUpgrades (some { blockTimestamp := timestamp, disabled := upgrade.isDisabled }) rest

theorem follows_of_verified {networkUpgrades : NetworkUpgrades} {upgrades : List Config} {lastUpgrades : LastUpgrades}
    {previous : Option UInt64} {index : Nat}
    (accepted : verifyUpgradesFrom networkUpgrades lastUpgrades previous index upgrades = .ok ()) (module : Module) :
    Follows networkUpgrades (lastUpgrades module) (upgrades.filter fun upgrade => upgrade.key = module) := by
  induction upgrades generalizing lastUpgrades previous index with
  | nil => trivial
  | cons upgrade rest ih =>
    obtain ⟨timestamp, needed, accepted⟩ := bind_eq_ok.mp accepted
    obtain ⟨_, -, accepted⟩ := bind_eq_ok.mp accepted
    obtain ⟨_, toggles, accepted⟩ := bind_eq_ok.mp accepted
    obtain ⟨_, later, accepted⟩ := bind_eq_ok.mp accepted
    obtain ⟨_, verified, accepted⟩ := bind_eq_ok.mp accepted
    have ih := ih accepted
    by_cases same : upgrade.key = module
    · subst same
      rw [Function.update_self] at ih
      rw [List.filter_cons, if_pos (decide_eq_true rfl)]
      refine ⟨timestamp, need_eq_ok.mp needed, ?_, ?_, mapError_eq_ok.mp verified, ih⟩
      · intro data member
        rw [Option.mem_def.mp member] at later
        exact UInt64.not_le.mp (refuse_eq_ok.mp later)
      · have toggles := refuse_eq_ok.mp toggles
        exact Bool.eq_not_of_ne (Ne.symm toggles)
    · rw [Function.update_of_ne (Ne.symm same)] at ih
      rwa [List.filter_cons_of_neg (by simpa using same)]

/-- Genesis configurations pass their checks, and one with a time is the last upgrade of its precompile. -/
theorem lastUpgrades_of_verified {networkUpgrades : NetworkUpgrades} {entries : List (Sigma fun _ : Module => Config)}
    (distinct : entries.NodupKeys) {before after : LastUpgrades}
    (accepted : verifyGenesisPrecompiles networkUpgrades before entries = .ok after) :
    (∀ entry ∈ entries, entry.2.verify networkUpgrades = .ok ()) ∧
      ∀ module, after module = match entries.dlookup module with
        | none => before module
        | some config => config.timestamp.elim (before module) fun blockTimestamp => some { blockTimestamp, disabled := false } := by
  induction entries generalizing before with
  | nil =>
    cases accepted
    exact ⟨fun entry member => (List.not_mem_nil member).elim, fun _ => rfl⟩
  | cons entry rest ih =>
    obtain ⟨key, config⟩ := entry
    obtain ⟨fresh, distinct⟩ := List.nodupKeys_cons.mp distinct
    obtain ⟨_, verified, accepted⟩ := bind_eq_ok.mp accepted
    have absent : rest.dlookup key = none := List.dlookup_eq_none.mpr fresh
    cases timed : config.timestamp with
    | none =>
      simp only [timed] at accepted
      obtain ⟨each, last⟩ := ih distinct accepted
      refine ⟨List.forall_mem_cons.mpr ⟨verified, each⟩, fun module => ?_⟩
      by_cases same : module = key
      · subst same
        rw [last, absent, List.dlookup_cons_eq]
        simp only [timed, Option.elim_none]
      · rw [last, List.dlookup_cons_ne _ _ same]
    | some blockTimestamp =>
      simp only [timed] at accepted
      obtain ⟨each, last⟩ := ih distinct accepted
      refine ⟨List.forall_mem_cons.mpr ⟨verified, each⟩, fun module => ?_⟩
      by_cases same : module = key
      · subst same
        rw [last, absent, List.dlookup_cons_eq]
        simp only [timed, Option.elim_some, Function.update_self]
      · rw [last, List.dlookup_cons_ne _ _ same, Function.update_of_ne same]

/-! ## The accepted schedule -/

/-- Of two configurations one after another, one at least disables. -/
def Alternates (configs : List Config) : Prop := configs.IsChain fun first second => first.isDisabled ∨ second.isDisabled

theorem Follows.later {networkUpgrades : NetworkUpgrades} {last : Option LastUpgradeData} {upgrades : List Config}
    (follows : Follows networkUpgrades last upgrades) :
    ∀ data ∈ last, ∀ upgrade ∈ upgrades, ∀ timestamp ∈ upgrade.timestamp, data.blockTimestamp < timestamp := by
  induction upgrades generalizing last with
  | nil => intro _ _ upgrade member; exact (List.not_mem_nil member).elim
  | cons upgrade rest ih =>
    obtain ⟨timestamp, timed, first, -, -, follows⟩ := follows
    intro data member other inside at' found
    have less := first data member
    rcases List.mem_cons.mp inside with rfl | inside
    · rw [timed] at found
      cases found
      exact less
    · exact UInt64.lt_trans less (ih follows _ rfl other inside at' found)

theorem Follows.inOrder {networkUpgrades : NetworkUpgrades} {last : Option LastUpgradeData} {upgrades : List Config}
    (follows : Follows networkUpgrades last upgrades) : InOrder Config.timestamp upgrades := by
  induction upgrades generalizing last with
  | nil => exact .nil
  | cons upgrade rest ih =>
    obtain ⟨timestamp, timed, -, -, -, follows⟩ := follows
    refine .cons (fun other inside first found second later => ?_) (ih follows)
    rw [timed] at found
    cases found
    exact UInt64.le_of_lt (follows.later _ rfl other inside second later)

theorem Follows.alternates {networkUpgrades : NetworkUpgrades} {last : Option LastUpgradeData} {upgrades : List Config}
    (follows : Follows networkUpgrades last upgrades) : Alternates upgrades := by
  induction upgrades generalizing last with
  | nil => exact .nil
  | cons upgrade rest ih =>
    obtain ⟨timestamp, -, -, -, -, follows⟩ := follows
    cases rest with
    | nil => exact .singleton _
    | cons next rest =>
      refine .cons_cons ?_ (ih follows)
      obtain ⟨_, -, -, toggles, -⟩ := follows
      cases off : upgrade.isDisabled with
      | true => exact .inl rfl
      | false => exact .inr (by rw [toggles, Option.elim_some, off, Bool.not_false])

theorem Follows.verified {networkUpgrades : NetworkUpgrades} {last : Option LastUpgradeData} {upgrades : List Config}
    (follows : Follows networkUpgrades last upgrades) : ∀ upgrade ∈ upgrades, upgrade.verify networkUpgrades = .ok () := by
  induction upgrades generalizing last with
  | nil => intro upgrade member; exact (List.not_mem_nil member).elim
  | cons upgrade rest ih =>
    obtain ⟨timestamp, -, -, -, verified, follows⟩ := follows
    exact List.forall_mem_cons.mpr ⟨verified, ih follows⟩

theorem Follows.timed {networkUpgrades : NetworkUpgrades} {last : Option LastUpgradeData} {upgrades : List Config}
    (follows : Follows networkUpgrades last upgrades) : ∀ upgrade ∈ upgrades, upgrade.timestamp.isSome := by
  induction upgrades generalizing last with
  | nil => intro upgrade member; exact (List.not_mem_nil member).elim
  | cons upgrade rest ih =>
    obtain ⟨timestamp, timed, -, -, -, follows⟩ := follows
    exact List.forall_mem_cons.mpr ⟨timed ▸ rfl, ih follows⟩

/-- What the upgrades of one precompile are relied on for. -/
structure Scheduled (networkUpgrades : NetworkUpgrades) (module : Module) (configs : List Config) : Prop where
  timed : ∀ config ∈ configs, config.timestamp.isSome
  inOrder : InOrder Config.timestamp configs
  alternates : Alternates configs
  key : ∀ config ∈ configs, config.key = module
  verified : ∀ config ∈ configs, config.verify networkUpgrades = .ok ()

theorem ChainConfig.scheduled {config : ChainConfig} (accepted : config.verifyPrecompileUpgrades = .ok ()) (module : Module) :
    Scheduled config.networkUpgrades module (config.schedule module) := by
  obtain ⟨lastUpgrades, genesis, accepted⟩ := bind_eq_ok.mp accepted
  obtain ⟨each, last⟩ := lastUpgrades_of_verified config.genesisPrecompiles.configs.nodupKeys (mapError_eq_ok.mp genesis)
  have follows := follows_of_verified accepted module
  have last := last module
  have keyed : ∀ upgrade ∈ config.precompileUpgrades.filter fun upgrade => upgrade.key = module, upgrade.key = module :=
    fun upgrade member => of_decide_eq_true (List.mem_filter.mp member).2
  have only : Scheduled config.networkUpgrades module
      (config.precompileUpgrades.filter fun upgrade => upgrade.key = module) :=
    ⟨follows.timed, follows.inOrder, follows.alternates, keyed, follows.verified⟩
  unfold schedule
  cases found : config.genesisPrecompiles.configs.lookup module with
  | none => exact only
  | some first =>
    have inside := AList.mem_lookup_iff.mp found
    have first_key := config.genesisPrecompiles.keyed _ inside
    have first_verified := each _ inside
    cases timed : first.timestamp with
    | none =>
      rw [Option.toList_some, List.filter_cons, timed, if_neg (by decide)]
      exact only
    | some timestamp =>
      rw [Option.toList_some, List.filter_cons, timed, if_pos (by rfl)]
      change _ = match config.genesisPrecompiles.configs.lookup module with | none => _ | some config => _ at last
      rw [found] at last
      simp only [timed, Option.elim_some] at last
      rw [last] at follows
      refine ⟨List.forall_mem_cons.mpr ⟨timed ▸ rfl, only.timed⟩, .cons ?_ only.inOrder, ?_, ?_, ?_⟩
      · intro other member start started second later
        rw [timed] at started
        cases started
        exact UInt64.le_of_lt (follows.later _ rfl other member second later)
      · cases rest : config.precompileUpgrades.filter fun upgrade => upgrade.key = module with
        | nil => exact .singleton _
        | cons next rest' =>
          have alternates := only.alternates
          rw [rest] at follows alternates
          -- Genesis counts as enabled, so that a disable comes next.
          obtain ⟨_, -, -, toggles, -⟩ := follows
          exact .cons_cons (.inr toggles) alternates
      · exact List.forall_mem_cons.mpr ⟨first_key, only.key⟩
      · exact List.forall_mem_cons.mpr ⟨first_verified, only.verified⟩

/-- The configurations that have come by a time are the first of the schedule. -/
theorem Scheduled.reached_first {networkUpgrades : NetworkUpgrades} {module : Module} {configs : List Config}
    (scheduled : Scheduled networkUpgrades module configs) (now : UInt64) :
    configs.filter (fun config => due none now config.timestamp) <+: configs :=
  Timeline.filter_reached_first scheduled.inOrder scheduled.timed now

/-- The parts of the verification. -/
theorem ChainConfig.parts_of_verify {config : ChainConfig} (accepted : config.verify = .ok ()) :
    config.feeConfig.verify = .ok () ∧ config.verifyPrecompileUpgrades = .ok () ∧ config.verifyStateUpgrades = .ok () := by
  obtain ⟨_, fees, accepted⟩ := bind_eq_ok.mp accepted
  obtain ⟨_, precompiles, accepted⟩ := bind_eq_ok.mp accepted
  obtain ⟨_, states, -⟩ := bind_eq_ok.mp accepted
  exact ⟨mapError_eq_ok.mp fees, precompiles, states⟩

theorem stateUpgrades_later {upgrades : List StateUpgrade} {previous : Option UInt64} {index : Nat}
    (accepted : verifyStateUpgradesFrom previous index upgrades = .ok ()) :
    ∀ last ∈ previous, ∀ upgrade ∈ upgrades, ∀ timestamp ∈ upgrade.blockTimestamp, last < timestamp := by
  induction upgrades generalizing previous index with
  | nil => intro _ _ upgrade member; exact (List.not_mem_nil member).elim
  | cons upgrade rest ih =>
    obtain ⟨timestamp, needed, accepted⟩ := bind_eq_ok.mp accepted
    obtain ⟨_, -, accepted⟩ := bind_eq_ok.mp accepted
    obtain ⟨_, later, accepted⟩ := bind_eq_ok.mp accepted
    intro last member other inside at' found
    rw [Option.mem_def.mp member] at later
    have less : last < timestamp := UInt64.not_le.mp (refuse_eq_ok.mp later)
    rcases List.mem_cons.mp inside with rfl | inside
    · rw [need_eq_ok.mp needed] at found
      cases found
      exact less
    · exact UInt64.lt_trans less (ih accepted _ rfl other inside at' found)

theorem stateUpgrades_inOrder {upgrades : List StateUpgrade} {previous : Option UInt64} {index : Nat}
    (accepted : verifyStateUpgradesFrom previous index upgrades = .ok ()) :
    InOrder StateUpgrade.blockTimestamp upgrades := by
  induction upgrades generalizing previous index with
  | nil => exact .nil
  | cons upgrade rest ih =>
    obtain ⟨timestamp, needed, accepted⟩ := bind_eq_ok.mp accepted
    obtain ⟨_, -, accepted⟩ := bind_eq_ok.mp accepted
    obtain ⟨_, -, accepted⟩ := bind_eq_ok.mp accepted
    refine .cons (fun other inside first found second later => ?_) (ih accepted)
    rw [need_eq_ok.mp needed] at found
    cases found
    exact UInt64.le_of_lt (stateUpgrades_later accepted _ rfl other inside second later)

end Snowside.Upgrades
