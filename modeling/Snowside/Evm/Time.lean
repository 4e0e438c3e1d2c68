import Snowside.Evm.DelayExcess

/-! The times of a block: its seconds and milliseconds, against its parent and the clock. -/

set_option autoImplicit false

namespace Snowside.Evm

open Checked

/-- In milliseconds. -/
def maxFutureBlockTime : Int64 := 10000

inductive TimeError where
  | blockTooOld (headerTimeMS parentTimeMS : UInt64)
  | blockTooFarInFuture (headerTimeMS maxBlockTimeMS : UInt64)
  | timeMillisecondsBeforeGranite
  | timeMillisecondsRequired
  | timeMillisecondsMismatched (time expectedTime : UInt64)
  | minDelayNotMet (actualDelayMS minRequiredDelayMS : UInt64)
  deriving DecidableEq, Repr

section

-- The delay in milliseconds that an excess stands for.
variable (delay : UInt64 → UInt64) (config : NetworkUpgrades) (parent header : Header)

/-- From Granite on. -/
def verifyTimeMilliseconds : Except TimeError Unit := do
  let timeMilliseconds ← need .timeMillisecondsRequired header.timeMilliseconds
  let expectedTime := timeMilliseconds / 1000
  refuse (header.time ≠ expectedTime) (.timeMillisecondsMismatched header.time expectedTime)
  -- The parent of the first block in Granite may have no excess.
  parent.minDelayExcess.elim (.ok ()) fun excess =>
    refuse (header.timeMS - parent.timeMS < delay excess) (.minDelayNotMet (header.timeMS - parent.timeMS) (delay excess))

/-- The clock is in milliseconds since 1970. -/
def verifyTime (now : Int64) : Except TimeError Unit := do
  let headerTimeMS := header.timeMS
  let parentTimeMS := parent.timeMS
  refuse (headerTimeMS < parentTimeMS) (.blockTooOld headerTimeMS parentTimeMS)
  let maxBlockTimeMS := (now + maxFutureBlockTime).toUInt64
  refuse (maxBlockTimeMS < headerTimeMS) (.blockTooFarInFuture headerTimeMS maxBlockTimeMS)
  if config.isGranite header.time then verifyTimeMilliseconds delay parent header
  else refuse header.timeMilliseconds.isSome .timeMillisecondsBeforeGranite

end

/-! ## Times without overflow -/

/-- The milliseconds as an integer. -/
def Header.exactTimeMS (header : Header) : Nat := header.timeMilliseconds.elim (header.time.toNat * 1000) UInt64.toNat

/-- The milliseconds are within the second. -/
def Header.ExactTime (header : Header) : Prop := header.exactTimeMS < 2 ^ 64 ∧ header.exactTimeMS / 1000 = header.time.toNat

/-- What the time of a block must be, over the integers. -/
structure SaneTime (delay : UInt64 → UInt64) (config : NetworkUpgrades) (parent header : Header) (now : Int64) : Prop where
  not_before : parent.time ≤ header.time
  not_ahead : (1000 * header.time.toNat : Int) ≤ now.toInt + 10000
  granite : config.isGranite header.time → parent.exactTimeMS ≤ header.exactTimeMS ∧
    ∀ excess, parent.minDelayExcess = some excess → parent.exactTimeMS + (delay excess).toNat ≤ header.exactTimeMS

instance (header : Header) : Decidable header.ExactTime := inferInstanceAs (Decidable (_ ∧ _))

variable {delay : UInt64 → UInt64} {config : NetworkUpgrades} {parent header : Header} {now : Int64}

/-- Milliseconds that do not fit in 64 bits come from seconds. -/
theorem Header.timeMS_toNat (header : Header) : header.timeMS.toNat = header.exactTimeMS % 2 ^ 64 := by
  unfold Header.timeMS Header.exactTimeMS
  cases header.timeMilliseconds with
  | none => exact UInt64.toNat_mul header.time 1000
  | some timeMilliseconds => exact (Nat.mod_eq_of_lt timeMilliseconds.toNat_lt).symm

theorem Header.ExactTime.timeMS (exactTime : header.ExactTime) : header.timeMS.toNat = header.exactTimeMS := by
  rw [header.timeMS_toNat, Nat.mod_eq_of_lt exactTime.1]

/-- Before 1970 the bound is past all times. -/
theorem maxBlockTimeMS_toNat (now : Int64) :
    ((now + maxFutureBlockTime).toUInt64.toNat : Int) = (now.toInt + 10000) % 2 ^ 64 := by
  have size : (2 ^ 64 : Int) = (2 ^ 64 : Nat) := rfl
  have small : ((now + maxFutureBlockTime).toUInt64.toNat : Int) < (2 ^ 64 : Nat) := by
    exact_mod_cast (now + maxFutureBlockTime).toUInt64.toNat_lt
  have wrapped : (now + maxFutureBlockTime).toInt % (2 ^ 64 : Nat) = (now + maxFutureBlockTime).toUInt64.toNat := by
    rw [← Int64.toInt_toBitVec, BitVec.toInt_eq_toNat_bmod, Int.bmod_emod]
    exact Int.emod_eq_of_lt (Int.natCast_nonneg _) small
  rw [← wrapped, Int64.toInt_add, Int.bmod_emod, size]
  rfl

/-! ## What is accepted -/

theorem verifyTimeMilliseconds_eq_ok : verifyTimeMilliseconds delay parent header = .ok () ↔
    ∃ timeMilliseconds, header.timeMilliseconds = some timeMilliseconds ∧ header.time = timeMilliseconds / 1000 ∧
      ∀ excess, parent.minDelayExcess = some excess → delay excess ≤ header.timeMS - parent.timeMS := by
  unfold verifyTimeMilliseconds
  simp only [bind_eq_ok, need_eq_ok, refuse_eq_ok, not_not, exists_and_left, exists_const]
  refine exists_congr fun timeMilliseconds => and_congr_right fun _ => and_congr_right fun _ => ?_
  cases parent.minDelayExcess with
  | none => simp
  | some excess => simp [refuse_eq_ok, UInt64.not_lt]

theorem verifyTime_eq_ok : verifyTime delay config parent header now = .ok () ↔
    parent.timeMS ≤ header.timeMS ∧ header.timeMS ≤ (now + maxFutureBlockTime).toUInt64 ∧
      if config.isGranite header.time then verifyTimeMilliseconds delay parent header = .ok ()
      else header.timeMilliseconds = none := by
  unfold verifyTime
  simp only [bind_eq_ok, refuse_eq_ok, UInt64.not_lt, exists_and_left, exists_const]
  refine and_congr_right fun _ => and_congr_right fun _ => ?_
  split
  · exact Iff.rfl
  · rw [refuse_eq_ok, Bool.not_eq_true, Option.isSome_eq_false_iff, Option.isNone_iff_eq_none]

/-- In Granite, or where the product fits, the time of an accepted block is within its second. -/
theorem exactTime_of_accepted (accepted : verifyTime delay config parent header now = .ok ())
    (fits : config.isGranite header.time ∨ 1000 * header.time.toNat < 2 ^ 64) : header.ExactTime := by
  obtain ⟨-, -, rules⟩ := verifyTime_eq_ok.mp accepted
  by_cases granite : config.isGranite header.time
  · rw [if_pos granite] at rules
    obtain ⟨timeMilliseconds, found, seconds, -⟩ := verifyTimeMilliseconds_eq_ok.mp rules
    have same : header.exactTimeMS = timeMilliseconds.toNat := by rw [Header.exactTimeMS, found]; rfl
    refine ⟨same ▸ timeMilliseconds.toNat_lt, ?_⟩
    rw [same, seconds, UInt64.toNat_div]
    rfl
  · rw [if_neg granite] at rules
    have same : header.exactTimeMS = header.time.toNat * 1000 := by rw [Header.exactTimeMS, rules]; rfl
    have small := fits.resolve_left granite
    exact ⟨by omega, by omega⟩

/-- The time of an accepted block is sane exactly in Granite or where its product fits, with a clock that is not before 1970. -/
theorem verifyTime_sane_iff (valid : parent.ExactTime) (accepted : verifyTime delay config parent header now = .ok ()) :
    SaneTime delay config parent header now ↔
      0 ≤ now.toInt + 10000 ∧ (config.isGranite header.time ∨ 1000 * header.time.toNat < 2 ^ 64) := by
  obtain ⟨behind, ahead, rules⟩ := verifyTime_eq_ok.mp accepted
  have bound := maxBlockTimeMS_toNat now
  have range := now.toInt_lt
  have parentMS := valid.timeMS
  have parentSeconds := valid.2
  rw [UInt64.le_iff_toNat_le] at behind ahead
  constructor
  · intro sane
    have limit := sane.not_ahead
    refine ⟨by omega, ?_⟩
    by_contra outside
    rw [not_or] at outside
    omega
  · rintro ⟨after, fits⟩
    have exactTime := exactTime_of_accepted accepted fits
    have headerMS := exactTime.timeMS
    have headerSeconds := exactTime.2
    rw [Int.emod_eq_of_lt after (by omega)] at bound
    refine ⟨UInt64.le_iff_toNat_le.mpr (by omega), by omega, fun granite => ⟨by omega, fun excess found => ?_⟩⟩
    rw [if_pos granite] at rules
    obtain ⟨-, -, -, apart⟩ := verifyTimeMilliseconds_eq_ok.mp rules
    have waited := UInt64.le_iff_toNat_le.mp (apart excess found)
    rw [UInt64.toNat_sub_of_le _ _ (UInt64.le_iff_toNat_le.mpr behind)] at waited
    omega

/-- Without Granite, 2^61 seconds are no milliseconds. -/
def lateHeader : Header where
  number := 2
  time := 2305843009213694953

def earlyHeader : Header where
  number := 1
  time := 1000

/-- A block far in the future is accepted. -/
theorem lateHeader_accepted : ¬ ∀ (delay : UInt64 → UInt64) (config : NetworkUpgrades) (parent header : Header) (now : Int64),
    parent.ExactTime → verifyTime delay config parent header now = .ok () → SaneTime delay config parent header now := by
  intro claimed
  have sane := claimed id sampleUpgrades earlyHeader lateHeader 1000000 (by decide +kernel) (by decide +kernel)
  exact absurd sane.not_ahead (by decide +kernel)

/-- A block in Granite, two seconds and a half behind its parent. -/
theorem verifyTime_sane_iff_sample :
    SaneTime (fun _ => 2000) { sampleUpgrades with graniteTimestamp := some 0 }
      { earlyHeader with timeMilliseconds := some 1000000, minDelayExcess := some 1 }
      { number := 2, time := 1002, timeMilliseconds := some 1002500 } 1000000 := by
  refine (verifyTime_sane_iff ?_ ?_).mpr ⟨?_, ?_⟩ <;> decide +kernel

end Snowside.Evm
