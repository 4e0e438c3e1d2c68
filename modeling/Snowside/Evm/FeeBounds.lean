import Snowside.Evm.BaseFee

/-! The base fee stays within its bounds, grows with the gas in the window and falls with time. -/

set_option autoImplicit false

namespace Snowside.Evm

open Checked

/-! ## Sums of windows -/

namespace Window

variable {window wider : Window} {gasUsed more : UInt64}

/-- Every entry is at most that of the other window. -/
def Below (window wider : Window) : Prop := ∀ index : Fin windowLen, window.get index ≤ wider.get index

theorem Below.ago (below : window.Below wider) {age : Nat} (small : age < windowLen) : window.ago age ≤ wider.ago age := by
  have placed : windowLen - 1 - age < windowLen := by omega
  rw [ago_eq placed, ago_eq placed]
  exact UInt64.le_iff_toNat_le.mp (below ⟨windowLen - 1 - age, placed⟩)

theorem ago_add_mono (below : window.Below wider) (grows : gasUsed ≤ more) {age : Nat} (small : age < windowLen) :
    (window.add [gasUsed]).ago age ≤ (wider.add [more]).ago age := by
  cases age with
  | zero =>
    have first := below.ago small
    have amounts := UInt64.le_iff_toNat_le.mp grows
    rw [ago_add_zero, ago_add_zero]
    omega
  | succ age =>
    rw [ago_add_succ _ small, ago_add_succ _ small]
    exact below.ago small

/-- A shift leaves the younger entries and drops the others. -/
theorem sum_shifted (entry : Nat → Nat) (elapsed length : Nat) :
    ((List.range length).map fun age => if elapsed ≤ age then entry (age - elapsed) else 0).sum =
      ((List.range (length - elapsed)).map entry).sum := by
  induction length with
  | zero => simp
  | succ length ih =>
    rw [List.range_succ, List.map_append, List.sum_append, ih, List.map_singleton, List.sum_singleton]
    split
    · next kept => rw [Nat.succ_sub kept, List.range_succ, List.map_append, List.sum_append, List.map_singleton, List.sum_singleton]
    · next dropped => rw [show length + 1 - elapsed = length - elapsed by omega, Nat.add_zero]

theorem sum_shift (window : Window) (elapsed : UInt64) :
    (window.shift elapsed).sum.toNat = min maxUint64 ((List.range (windowLen - elapsed.toNat)).map window.ago).sum := by
  have entries : (List.range windowLen).map (window.shift elapsed).ago =
      (List.range windowLen).map fun age => if elapsed.toNat ≤ age then window.ago (age - elapsed.toNat) else 0 :=
    List.map_congr_left fun age member => ago_shift (List.mem_range.mp member)
  rw [sum_toNat, sum_ago, entries, sum_shifted]

/-- More gas in the window, or less time since, is more gas in total. -/
theorem sum_next_mono (below : window.Below wider) (grows : gasUsed ≤ more) {elapsed sooner : UInt64} (earlier : sooner ≤ elapsed) :
    ((window.add [gasUsed]).shift elapsed).sum ≤ ((wider.add [more]).shift sooner).sum := by
  have times := UInt64.le_iff_toNat_le.mp earlier
  have entries : ((List.range (windowLen - elapsed.toNat)).map (window.add [gasUsed]).ago).sum ≤
      ((List.range (windowLen - elapsed.toNat)).map (wider.add [more]).ago).sum := by
    refine List.sum_le_sum fun age member => ago_add_mono below grows ?_
    have small := List.mem_range.mp member
    omega
  have longer : ((List.range (windowLen - elapsed.toNat)).map (wider.add [more]).ago).sum ≤
      ((List.range (windowLen - sooner.toNat)).map (wider.add [more]).ago).sum := by
    have kept : (List.range (windowLen - elapsed.toNat)).Sublist (List.range (windowLen - sooner.toNat)) :=
      List.range_sublist.mpr (by omega)
    exact (kept.map _).sum_le_sum fun _ _ => Nat.zero_le _
  rw [UInt64.le_iff_toNat_le, sum_shift, sum_shift]
  omega

end Window

/-! ## The formula -/

namespace FeeValues

variable {fees : FeeValues} {totalGas moreGas parentBaseFee : Int}

theorem clamp_bounds (ordered : fees.minBaseFee ≤ maxUint256) (value : Int) :
    fees.minBaseFee ≤ fees.clamp value ∧ fees.clamp value ≤ maxUint256 := by
  unfold clamp
  generalize maxUint256 = maximum at ordered ⊢
  split <;> omega

theorem clamp_mono {value larger : Int} (less : value ≤ larger) (ordered : fees.minBaseFee ≤ maxUint256) :
    fees.clamp value ≤ fees.clamp larger := by
  unfold clamp
  generalize maxUint256 = maximum at ordered ⊢
  split <;> split <;> omega

theorem clamp_eq {value : Int} (lower : fees.minBaseFee ≤ value) (upper : value ≤ maxUint256) : fees.clamp value = value := by
  unfold clamp
  rw [if_neg (not_lt.mpr lower), min_eq_left upper]

theorem one_le_delta (fees : FeeValues) (totalGas parentBaseFee : Int) : 1 ≤ fees.delta totalGas parentBaseFee :=
  le_max_right _ _

/-- The further from the target, the larger the change. -/
theorem delta_mono (target : 0 < fees.targetGas) (denominator : 0 < fees.baseFeeChangeDenominator) (fee : 0 ≤ parentBaseFee)
    (further : |totalGas - fees.targetGas| ≤ |moreGas - fees.targetGas|) :
    fees.delta totalGas parentBaseFee ≤ fees.delta moreGas parentBaseFee := by
  have product := mul_le_mul_of_nonneg_right further fee
  have share := Int.ediv_le_ediv target product
  exact max_le_max (Int.ediv_le_ediv denominator share) le_rfl

variable (target : 0 < fees.targetGas) (denominator : 0 < fees.baseFeeChangeDenominator) (minimum : 0 ≤ fees.minBaseFee)
  (lower : fees.minBaseFee ≤ parentBaseFee) (upper : parentBaseFee ≤ maxUint256)

include lower upper in
theorem nextBaseFee_bounds (totalGas : Int) (elapsed : Nat) : fees.minBaseFee ≤ fees.nextBaseFee totalGas parentBaseFee elapsed ∧
    fees.nextBaseFee totalGas parentBaseFee elapsed ≤ maxUint256 := by
  unfold nextBaseFee
  split
  · exact ⟨lower, upper⟩
  · split <;> exact clamp_bounds (lower.trans upper) _

include lower upper in
/-- Below the target the fee falls, and above it rises. -/
theorem nextBaseFee_sides (totalGas : Int) (elapsed : Nat) :
    (totalGas ≤ fees.targetGas → fees.nextBaseFee totalGas parentBaseFee elapsed ≤ parentBaseFee) ∧
      (fees.targetGas ≤ totalGas → parentBaseFee ≤ fees.nextBaseFee totalGas parentBaseFee elapsed) := by
  have ordered := lower.trans upper
  have fixed := clamp_eq lower upper
  have step := fees.one_le_delta totalGas parentBaseFee
  unfold nextBaseFee
  by_cases same : totalGas = fees.targetGas
  · rw [if_pos same]
    exact ⟨fun _ => le_rfl, fun _ => le_rfl⟩
  rw [if_neg same]
  by_cases above : fees.targetGas < totalGas
  · rw [if_pos above]
    refine ⟨fun below => absurd above (not_lt.mpr below), fun _ => ?_⟩
    calc parentBaseFee = fees.clamp parentBaseFee := fixed.symm
      _ ≤ fees.clamp (parentBaseFee + fees.delta totalGas parentBaseFee) := clamp_mono (by omega) ordered
  · rw [if_neg above]
    refine ⟨fun _ => ?_, fun higher => absurd (lt_of_le_of_ne higher (Ne.symm same)) above⟩
    have change : 0 ≤ fees.delta totalGas parentBaseFee * (max 1 (elapsed / windowLen) : Nat) :=
      mul_nonneg (by omega) (Int.natCast_nonneg _)
    calc fees.clamp (parentBaseFee - fees.delta totalGas parentBaseFee * (max 1 (elapsed / windowLen) : Nat))
        ≤ fees.clamp parentBaseFee := clamp_mono (by omega) ordered
      _ = parentBaseFee := fixed

include target denominator minimum lower upper in
/-- More gas in less time is no lower fee. -/
theorem nextBaseFee_mono (grows : totalGas ≤ moreGas) {elapsed sooner : Nat} (earlier : sooner ≤ elapsed) :
    fees.nextBaseFee totalGas parentBaseFee elapsed ≤ fees.nextBaseFee moreGas parentBaseFee sooner := by
  have ordered := lower.trans upper
  have fee := minimum.trans lower
  have falls := (nextBaseFee_sides lower upper totalGas elapsed).1
  have rises := (nextBaseFee_sides lower upper moreGas sooner).2
  rcases le_or_gt totalGas fees.targetGas with low | high
  · rcases le_or_gt fees.targetGas moreGas with beyond | below
    · exact (falls low).trans (rises beyond)
    -- Both are below the target: the change of the smaller total is at least that of the larger one.
    have further : |moreGas - fees.targetGas| ≤ |totalGas - fees.targetGas| := by
      rw [abs_of_neg (by omega), abs_of_nonpos (by omega)]
      omega
    have change := delta_mono target denominator fee further
    have windows : (max 1 (sooner / windowLen) : Nat) ≤ (max 1 (elapsed / windowLen) : Nat) :=
      max_le_max le_rfl (Nat.div_le_div_right earlier)
    have whole : fees.delta moreGas parentBaseFee * (max 1 (sooner / windowLen) : Nat) ≤
        fees.delta totalGas parentBaseFee * (max 1 (elapsed / windowLen) : Nat) :=
      mul_le_mul change (by exact_mod_cast windows) (Int.natCast_nonneg _)
        (zero_le_one.trans (fees.one_le_delta totalGas parentBaseFee))
    unfold nextBaseFee
    rw [if_neg (by omega), if_neg (by omega), if_neg (by omega), if_neg (by omega)]
    exact clamp_mono (by omega) ordered
  · have further : |totalGas - fees.targetGas| ≤ |moreGas - fees.targetGas| := by
      rw [abs_of_pos (by omega), abs_of_pos (by omega)]
      omega
    have change := delta_mono target denominator fee further
    unfold nextBaseFee
    rw [if_neg (by omega), if_pos high, if_neg (by omega), if_pos (by omega)]
    exact clamp_mono (by omega) ordered

/-- Every field is positive and fits in 63 bits. -/
def Small (fees : FeeValues) : Prop :=
  ∀ number ∈ [fees.gasLimit, (fees.targetBlockRate.toNat : Int), fees.minBaseFee, fees.targetGas, fees.baseFeeChangeDenominator,
    fees.minBlockGasCost, fees.maxBlockGasCost, fees.blockGasCostStep], 0 < number ∧ number < 2 ^ 63

end FeeValues

/-! ## The base fee of a child -/

/-- A later block, with a base fee within the bounds. -/
structure Priced (config : NetworkUpgrades) (fees : FeeValues) (parent : Header) (parentBaseFee : Int) : Prop where
  active : config.isSubnetEVM parent.time
  later : parent.number ≠ 0
  baseFee : parent.baseFee = some parentBaseFee
  lower : fees.minBaseFee ≤ parentBaseFee
  upper : parentBaseFee ≤ maxUint256

variable {config : NetworkUpgrades} {fees : FeeValues} {parent : Header} {parentBaseFee : Int} {timestamp : UInt64} {window : Window}

theorem Priced.not_first (priced : Priced config fees parent parentBaseFee) : ¬ FirstBlock config parent := by
  rintro (inactive | first)
  · rw [priced.active] at inactive
    cases inactive
  · exact priced.later first

/-- Of the fees, the base fee reads the minimum, the target and the denominator only. -/
theorem baseFeeFromWindow_small (small : fees.Small) (config : NetworkUpgrades) (parent : Header) (timestamp : UInt64) :
    baseFeeFromWindow config fees.toConfig parent timestamp = fees.exactBaseFee config parent timestamp := by
  have minimum := small fees.minBaseFee (by simp)
  have target := small fees.targetGas (by simp)
  have denominator := small fees.baseFeeChangeDenominator (by simp)
  let read : VerifiedFees :=
    { fees with
      gasLimit := 1, gasLimit_pos := by decide, gasLimit_lt := by decide
      targetBlockRate := 1, targetBlockRate_ne := by decide
      minBlockGasCost := 0, minBlockGasCost_nonneg := le_rfl, minBlockGasCost_le := le_rfl
      maxBlockGasCost := 0, maxBlockGasCost_lt := by decide
      blockGasCostStep := 0, blockGasCostStep_nonneg := le_rfl, blockGasCostStep_lt := by decide
      minBaseFee_nonneg := minimum.1.le, minBaseFee_lt := minimum.2.trans (by decide)
      targetGas_pos := target.1, targetGas_lt := target.2.trans (by decide)
      baseFeeChangeDenominator_pos := denominator.1, baseFeeChangeDenominator_lt := denominator.2.trans (by decide) }
  exact baseFeeFromWindow_eq read (target.2.trans (by decide)) minimum.2 config parent timestamp

theorem baseFeeFromWindow_priced (small : fees.Small) (priced : Priced config fees parent parentBaseFee)
    (parsed : parseWindow parent.extra = .ok window) (forward : parent.time ≤ timestamp) :
    baseFeeFromWindow config fees.toConfig parent timestamp =
      .ok (fees.nextBaseFee ((window.add [parent.gasUsed]).shift (timestamp - parent.time)).sum.toNat parentBaseFee
        (timestamp.toNat - parent.time.toNat)) := by
  rw [baseFeeFromWindow_small small, FeeValues.exactBaseFee, if_neg priced.not_first,
    feeWindow_next priced.active priced.later parsed forward, ok_bind, priced.baseFee, need_some, ok_bind, pure_eq]

/-- From a window in the extra data of the parent, the base fee is within its bounds; it does not fall with gas, nor rise with time. -/
theorem baseFeeFromWindow_bounded_monotone (small : fees.Small) (priced : Priced config fees parent parentBaseFee)
    (forward : parent.time ≤ timestamp) :
    (parent.extra.length < windowSize → baseFeeFromWindow config fees.toConfig parent timestamp =
      .error (.windowTooShort (.insufficientLength windowSize parent.extra.length))) ∧
    (windowSize ≤ parent.extra.length → ∃ window baseFee, parseWindow parent.extra = .ok window ∧
      baseFeeFromWindow config fees.toConfig parent timestamp = .ok baseFee ∧ fees.minBaseFee ≤ baseFee ∧ baseFee ≤ maxUint256 ∧
      (∀ gasUsed extra wider, parent.gasUsed ≤ gasUsed → parseWindow extra = .ok wider → window.Below wider →
        ∃ higher, baseFeeFromWindow config fees.toConfig { parent with gasUsed := gasUsed, extra := extra } timestamp = .ok higher ∧
          baseFee ≤ higher) ∧
      ∀ later, timestamp ≤ later → ∃ lower, baseFeeFromWindow config fees.toConfig parent later = .ok lower ∧ lower ≤ baseFee) := by
  refine ⟨fun short => ?_, fun long => ?_⟩
  · have unparsed : parseWindow parent.extra = .error (.insufficientLength windowSize parent.extra.length) := if_pos short
    rw [baseFeeFromWindow_small small, FeeValues.exactBaseFee, if_neg priced.not_first, feeWindow, if_neg priced.not_first, unparsed]
    rfl
  obtain ⟨window, parsed⟩ : ∃ window, parseWindow parent.extra = .ok window := ⟨_, if_neg (Nat.not_lt.mpr long)⟩
  have minimum := (small fees.minBaseFee (by simp)).1.le
  have target := (small fees.targetGas (by simp)).1
  have denominator := (small fees.baseFeeChangeDenominator (by simp)).1
  have bounds := FeeValues.nextBaseFee_bounds priced.lower priced.upper
  refine ⟨window, _, parsed, baseFeeFromWindow_priced small priced parsed forward, (bounds _ _).1, (bounds _ _).2,
    fun gasUsed extra wider grows reparsed below => ?_, fun later passes => ?_⟩
  · have richer : Priced config fees { parent with gasUsed := gasUsed, extra := extra } parentBaseFee :=
      ⟨priced.active, priced.later, priced.baseFee, priced.lower, priced.upper⟩
    refine ⟨_, baseFeeFromWindow_priced small richer reparsed forward, ?_⟩
    have total := UInt64.le_iff_toNat_le.mp (Window.sum_next_mono below grows (UInt64.le_refl (timestamp - parent.time)))
    exact FeeValues.nextBaseFee_mono target denominator minimum priced.lower priced.upper (by exact_mod_cast total) le_rfl
  · have beyond := UInt64.le_trans forward passes
    have times := UInt64.le_iff_toNat_le.mp passes
    refine ⟨_, baseFeeFromWindow_priced small priced parsed beyond, ?_⟩
    have sooner : timestamp - parent.time ≤ later - parent.time := by
      rw [UInt64.le_iff_toNat_le, UInt64.toNat_sub_of_le _ _ forward, UInt64.toNat_sub_of_le _ _ beyond]
      omega
    have total := UInt64.le_iff_toNat_le.mp
      (Window.sum_next_mono (fun index => UInt64.le_refl (window.get index)) (UInt64.le_refl parent.gasUsed) sooner)
    exact FeeValues.nextBaseFee_mono target denominator minimum priced.lower priced.upper (by exact_mod_cast total) (by omega)

/-- A target of a million a window, and a base fee of ten at least. -/
def boundedFees : FeeValues := ⟨8000000, 2, 10, 1000000, 36, 1, 100, 20⟩

theorem boundedFees_small : boundedFees.Small := by
  simp only [FeeValues.Small, List.forall_mem_cons]
  decide

/-- A block without extra data. -/
def shortParent : Header where
  number := 1
  time := 100
  baseFee := some 50

theorem shortParent_priced : Priced sampleUpgrades boundedFees shortParent 50 where
  active := by decide
  later := by decide
  baseFee := rfl
  lower := by decide
  upper := by decide

/-- Without a window there is no base fee. -/
theorem shortParent_fails : ¬ ∀ (config : NetworkUpgrades) (fees : FeeValues) (parent : Header) (parentBaseFee : Int)
    (timestamp : UInt64), fees.Small → Priced config fees parent parentBaseFee → parent.time ≤ timestamp →
    ∃ baseFee, baseFeeFromWindow config fees.toConfig parent timestamp = .ok baseFee := by
  intro claimed
  obtain ⟨baseFee, found⟩ := claimed sampleUpgrades boundedFees shortParent 50 100 boundedFees_small shortParent_priced (by decide)
  have failed : baseFeeFromWindow sampleUpgrades boundedFees.toConfig shortParent 100 =
      .error (.windowTooShort (.insufficientLength 80 0)) := by decide +kernel
  rw [failed] at found
  cases found

/-- The child of the block with a window of two million. -/
theorem baseFeeFromWindow_bounded_monotone_sample :
    ∃ baseFee, baseFeeFromWindow sampleUpgrades boundedFees.toConfig
      { shortParent with extra := (Window.empty.add [2000000]).bytes } 101 = .ok baseFee ∧ 10 ≤ baseFee := by
  have priced : Priced sampleUpgrades boundedFees { shortParent with extra := (Window.empty.add [2000000]).bytes } 50 :=
    ⟨shortParent_priced.active, shortParent_priced.later, rfl, shortParent_priced.lower, shortParent_priced.upper⟩
  have forward : shortParent.time ≤ 101 := by decide
  have bounded := baseFeeFromWindow_bounded_monotone boundedFees_small priced forward
  obtain ⟨window, baseFee, -, found, lower, -⟩ := bounded.2 (by decide +kernel)
  exact ⟨baseFee, found, lower⟩

end Snowside.Evm
