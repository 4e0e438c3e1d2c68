import Snowside.Upgrades.Compatible
import Snowside.Upgrades.Configure

/-! When the comparison of configurations is an equality, and what equal ones configure. -/

set_option autoImplicit false

namespace Snowside.Upgrades

open Evm (Address FeeConfig)
open Checked Stateful
open Maps (Map)

/-! ## Configurations field by field -/

/-- All fields agree, those of maps at every key. -/
def Config.Agree : Config → Config → Prop
  | .deployerAllowList allowList upgrade, .deployerAllowList allowList' upgrade' => allowList = allowList' ∧ upgrade = upgrade'
  | .nativeMinter allowList upgrade initialMint, .nativeMinter allowList' upgrade' initialMint' =>
      allowList = allowList' ∧ upgrade = upgrade' ∧ ∀ address, initialMint.lookup address = initialMint'.lookup address
  | .txAllowList allowList upgrade, .txAllowList allowList' upgrade' => allowList = allowList' ∧ upgrade = upgrade'
  | .feeManager allowList upgrade initialFeeConfig, .feeManager allowList' upgrade' initialFeeConfig' =>
      allowList = allowList' ∧ upgrade = upgrade' ∧ initialFeeConfig = initialFeeConfig'
  | .rewardManager allowList upgrade initialRewardConfig, .rewardManager allowList' upgrade' initialRewardConfig' =>
      allowList = allowList' ∧ upgrade = upgrade' ∧ initialRewardConfig = initialRewardConfig'
  | .warp upgrade quorumNumerator requirePrimaryNetworkSigners, .warp upgrade' quorumNumerator' requirePrimaryNetworkSigners' =>
      upgrade = upgrade' ∧ quorumNumerator = quorumNumerator' ∧ requirePrimaryNetworkSigners = requirePrimaryNetworkSigners'
  | _, _ => False

/-- What is not compared: rewards that only one has, and who must sign. -/
def Config.Overlooked : Config → Config → Prop
  | .rewardManager allowList upgrade initialRewardConfig, .rewardManager allowList' upgrade' initialRewardConfig' =>
      allowList = allowList' ∧ upgrade = upgrade' ∧ initialRewardConfig.isSome ≠ initialRewardConfig'.isSome
  | .warp upgrade quorumNumerator requirePrimaryNetworkSigners, .warp upgrade' quorumNumerator' requirePrimaryNetworkSigners' =>
      upgrade = upgrade' ∧ quorumNumerator = quorumNumerator' ∧ requirePrimaryNetworkSigners ≠ requirePrimaryNetworkSigners'
  | _, _ => False

/-- The comparison is that of the fields, both ways, and what is equal is configured alike. -/
structure Config.RealEquality (config other : Config) : Prop where
  fields : config.equal other ↔ config.Agree other
  symmetric : config.equal other = other.equal config
  configures : config.equal other → ∀ (chain : ChainConfig) (blockContext : BlockContext) (db : Precompile.StateDB),
    perform (config.key.configure chain config blockContext) db = perform (other.key.configure chain other blockContext) db

variable {config other : Config}

theorem Config.Agree.symm (agree : config.Agree other) : other.Agree config := by
  cases config <;> cases other <;> simp_all [Config.Agree]

theorem Config.Agree.configures (agree : config.Agree other) (chain : ChainConfig) (blockContext : BlockContext)
    (db : Precompile.StateDB) :
    perform (config.key.configure chain config blockContext) db = perform (other.key.configure chain other blockContext) db := by
  cases config <;> cases other <;> try exact agree.elim
  case deployerAllowList.deployerAllowList =>
    obtain ⟨rfl, rfl⟩ := agree
    rfl
  case nativeMinter.nativeMinter allowList _ initialMint _ _ initialMint' =>
    obtain ⟨rfl, rfl, same⟩ := agree
    change perform (configureMint initialMint >>= fun _ => allowList.configure _) db =
      perform (configureMint initialMint' >>= fun _ => allowList.configure _) db
    obtain ⟨after, minted⟩ : ∃ after, perform (configureMint initialMint) db = (.ok (), after) :=
      ⟨_, perform_forM_modify _ _ db⟩
    rw [perform_bind_ok minted, perform_bind_ok ((perform_configureMint (Maps.perm_of_lookup same) db).symm.trans minted)]
  case txAllowList.txAllowList =>
    obtain ⟨rfl, rfl⟩ := agree
    rfl
  case feeManager.feeManager =>
    obtain ⟨rfl, rfl, rfl⟩ := agree
    rfl
  case rewardManager.rewardManager =>
    obtain ⟨rfl, rfl, rfl⟩ := agree
    rfl
  case warp.warp =>
    obtain ⟨rfl, rfl, rfl⟩ := agree
    rfl

/-! ## The comparison -/

theorem equalRewards_iff {initialRewardConfig initialRewardConfig' : Option InitialRewardConfig}
    (both : initialRewardConfig.isSome = initialRewardConfig'.isSome) :
    equalRewards initialRewardConfig initialRewardConfig' ↔ initialRewardConfig = initialRewardConfig' := by
  cases initialRewardConfig <;> cases initialRewardConfig' <;> simp_all [equalRewards]

/-- Away from what it overlooks, the comparison is that of the fields. -/
theorem Config.equal_iff_agree (seen : ¬ config.Overlooked other) : config.equal other ↔ config.Agree other := by
  cases config <;> cases other <;> try exact ⟨fun impossible => (by cases impossible), fun impossible => impossible.elim⟩
  case deployerAllowList.deployerAllowList => simp [equal, Agree, and_comm]
  case nativeMinter.nativeMinter =>
    simp only [equal, Agree, Bool.and_eq_true, Upgrade.equal_iff, AllowListConfig.equal_iff,
      Maps.agree_iff fun _ _ => bigNumEqual_iff, and_assoc, and_left_comm]
  case txAllowList.txAllowList => simp [equal, Agree, and_comm]
  case feeManager.feeManager initialFeeConfig _ _ initialFeeConfig' =>
    cases initialFeeConfig <;> cases initialFeeConfig' <;> simp [equal, Agree, and_comm, and_left_comm]
  case rewardManager.rewardManager =>
    simp only [Overlooked, not_and, not_not] at seen
    simp only [equal, Agree, Bool.and_eq_true, Upgrade.equal_iff, AllowListConfig.equal_iff]
    constructor
    · rintro ⟨⟨rewards, rfl⟩, rfl⟩
      exact ⟨rfl, rfl, (equalRewards_iff (seen rfl rfl)).mp rewards⟩
    · rintro ⟨rfl, rfl, rfl⟩
      exact ⟨⟨equalRewards_refl _, rfl⟩, rfl⟩
  case warp.warp =>
    simp only [Overlooked, not_and, not_not] at seen
    simp only [equal, Agree, Bool.and_eq_true, Upgrade.equal_iff, decide_eq_true_eq]
    constructor
    · exact fun same => ⟨same.1, same.2, seen same.1 same.2⟩
    · exact fun same => ⟨same.1, same.2.1⟩

theorem Config.Overlooked.symm (overlooked : config.Overlooked other) : other.Overlooked config := by
  cases config <;> cases other <;> simp_all [Config.Overlooked, eq_comm]

/-- What is overlooked is equal one way, and not by its fields. -/
theorem Config.Overlooked.equal (overlooked : config.Overlooked other) :
    ¬ config.Agree other ∧ (config.equal other ∨ other.equal config) := by
  cases config <;> cases other <;> try exact overlooked.elim
  case rewardManager.rewardManager =>
    obtain ⟨rfl, rfl, one⟩ := overlooked
    refine ⟨fun agree => one (by rw [agree.2.2]), ?_⟩
    rename_i initialRewardConfig initialRewardConfig'
    cases initialRewardConfig <;> cases initialRewardConfig' <;> simp_all [Config.equal, equalRewards]
  case warp.warp =>
    obtain ⟨rfl, rfl, differ⟩ := overlooked
    refine ⟨fun agree => differ agree.2.2, .inl ?_⟩
    simp [Config.equal]

/-- The comparison of two configurations is an equality unless they differ in what it overlooks only. -/
theorem Config.realEquality_iff (config other : Config) : config.RealEquality other ↔ ¬ config.Overlooked other := by
  constructor
  · intro real overlooked
    obtain ⟨differ, equal⟩ := overlooked.equal
    rw [← real.symmetric, or_self, real.fields] at equal
    exact differ equal
  · intro seen
    have back := Config.equal_iff_agree fun overlooked => seen (Config.Overlooked.symm overlooked)
    have forth := Config.equal_iff_agree seen
    refine ⟨forth, ?_, fun equal chain blockContext db => (forth.mp equal).configures chain blockContext db⟩
    rw [Bool.eq_iff_iff, forth, back]
    exact ⟨Config.Agree.symm, Config.Agree.symm⟩

/-- A reward manager without first rewards, and one with. -/
theorem rewardManagers_not_symmetric : ¬ ∀ config other : Config, config.key = other.key → config.RealEquality other := by
  intro claimed
  have real := claimed (.rewardManager {} ⟨some 10, false⟩ none) (.rewardManager {} ⟨some 10, false⟩ (some ⟨true, 0⟩)) rfl
  exact absurd real.symmetric (by decide)

end Snowside.Upgrades
