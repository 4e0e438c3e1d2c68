import Snowside.Evm.BlockGasCost

/-! The minimum delay excess of a block in Granite. -/

set_option autoImplicit false

namespace Snowside.Evm

open Checked

/-- The delay excess and its update towards a desired value. -/
structure Acp226 where
  initialDelayExcess : UInt64
  updateDelayExcess : UInt64 → UInt64 → UInt64

/-- An update moves by a step at most, and reaches what is within the step. -/
structure Acp226.Bounded (acp226 : Acp226) (step : Nat) : Prop where
  moves : ∀ excess desired, (Safemath.absDiff excess (acp226.updateDelayExcess excess desired)).toNat ≤ step
  reaches : ∀ excess desired, (Safemath.absDiff excess desired).toNat ≤ step →
    acp226.updateDelayExcess excess desired = desired

inductive DelayExcessError where
  | remoteMinDelayExcessSet
  | remoteMinDelayExcessNil
  | incorrectMinDelayExcess (expected found : UInt64)
  | parentMinDelayExcessNil
  deriving DecidableEq, Repr

section

variable (acp226 : Acp226) (config : NetworkUpgrades) (parent : Header)

/-- The excess to start from. -/
def parentDelayExcess : Except DelayExcessError UInt64 :=
  if config.isGranite parent.time then need .parentMinDelayExcessNil parent.minDelayExcess
  else .ok acp226.initialDelayExcess

/-- From the excess of the parent as far towards the desired one as possible. -/
def nextMinDelayExcess (desiredMinDelayExcess : Option UInt64) : Except DelayExcessError UInt64 := do
  let minDelayExcess ← parentDelayExcess acp226 config parent
  return desiredMinDelayExcess.elim minDelayExcess (acp226.updateDelayExcess minDelayExcess)

/-- `MinDelayExcess`; none before Granite. -/
def minDelayExcess (timestamp : UInt64) (desiredMinDelayExcess : Option UInt64) :
    Except DelayExcessError (Option UInt64) :=
  if config.isGranite timestamp then (nextMinDelayExcess acp226 config parent desiredMinDelayExcess).map some
  else .ok none

def verifyMinDelayExcess (header : Header) : Except DelayExcessError Unit :=
  if config.isGranite header.time then do
    let remoteDelayExcess ← need .remoteMinDelayExcessNil header.minDelayExcess
    let expectedDelayExcess ← nextMinDelayExcess acp226 config parent (some remoteDelayExcess)
    refuse (remoteDelayExcess ≠ expectedDelayExcess) (.incorrectMinDelayExcess expectedDelayExcess remoteDelayExcess)
  else refuse header.minDelayExcess.isSome .remoteMinDelayExcessSet

end

variable {acp226 : Acp226} {step : Nat}

theorem Acp226.Bounded.stay (bounded : acp226.Bounded step) (excess : UInt64) :
    acp226.updateDelayExcess excess excess = excess := by
  refine bounded.reaches excess excess ?_
  have none := Safemath.absDiff_toNat excess excess
  rw [sub_self, abs_zero] at none
  omega

/-- Updating towards a value that an update has reached gives that value. -/
theorem Acp226.Bounded.again (bounded : acp226.Bounded step) (excess desired : UInt64) :
    acp226.updateDelayExcess excess (acp226.updateDelayExcess excess desired) = acp226.updateDelayExcess excess desired :=
  bounded.reaches excess _ (bounded.moves excess desired)

/-- A header with the computed excess is accepted. -/
theorem verifyMinDelayExcess_of_computed (bounded : acp226.Bounded step) {config : NetworkUpgrades}
    {parent header : Header} {desired : Option UInt64}
    (computed : minDelayExcess acp226 config parent header.time desired = .ok header.minDelayExcess) :
    verifyMinDelayExcess acp226 config parent header = .ok () := by
  unfold minDelayExcess at computed
  unfold verifyMinDelayExcess
  split at computed
  · next granite =>
    rw [if_pos granite]
    unfold nextMinDelayExcess at computed ⊢
    cases start : parentDelayExcess acp226 config parent with
    | error error =>
      rw [start] at computed
      cases computed
    | ok excess =>
      rw [start] at computed
      obtain computed : some (desired.elim excess (acp226.updateDelayExcess excess)) = header.minDelayExcess :=
        Except.ok.inj computed
      -- The verifier updates towards the excess that the header claims.
      have kept : acp226.updateDelayExcess excess (desired.elim excess (acp226.updateDelayExcess excess)) =
          desired.elim excess (acp226.updateDelayExcess excess) := by
        cases desired with
        | none => exact bounded.stay excess
        | some desired => exact bounded.again excess desired
      rw [← computed, need_some, ok_bind, ok_bind, pure_eq, ok_bind, refuse_eq_ok, not_not]
      exact kept.symm
  · next early =>
    rw [if_neg early, ← Except.ok.inj computed]
    rfl

end Snowside.Evm
