import Snowside.Precompile.AllowList

/-! Setters that the allow list of their precompile permits. They differ in what
they unpack, announce and store; the order of their checks is one.
-/

set_option autoImplicit false

namespace Snowside.Precompile

open Evm (Address Bytes)
open Checked Stateful

/-- What one setter has of its own. -/
structure Setter (Input : Type) where
  address : Address
  gasCost : UInt64
  unpack : Bytes → Bool → Except PrecompileError Input
  /-- The error for callers that are not enabled. -/
  refusal : Address → PrecompileError
  validate : Input → Except PrecompileError Unit := fun _ => .ok ()
  eventGasCost : UInt64
  pack : StateDB → Address → Input → Event
  store : AccessibleState → Input → Action PrecompileError StateDB Unit

namespace Setter

variable {Input : Type} (setter : Setter Input)

def execute : RunStatefulPrecompileFunc := fun accessibleState caller input readOnly => do
  charge setter.gasCost
  check (refuse readOnly .writeProtection)
  let argument ← check (setter.unpack input (!accessibleState.rules.isDurangoActivated))
  let db ← state
  let callerStatus := getAllowListStatus db setter.address caller
  check (refuse (callerStatus.isEnabled = false) (setter.refusal caller))
  check (setter.validate argument)
  announce accessibleState setter.eventGasCost setter.address (setter.pack · caller argument)
  onState (setter.store accessibleState argument)
  return []

variable {setter} {accessibleState : AccessibleState} {caller : Address} {input : Bytes} {readOnly : Bool}
  {before : Machine} {post : Except PrecompileError Bytes → Machine → Prop}

/-- A setter is refused, or what is left of it is to store what it has unpacked. -/
theorem ends_stores (refused : ∀ error, ∀ gas ≤ before.gas, post (.error error) { before with gas })
    (stores : readOnly = false → (getAllowListStatus before.db setter.address caller).isEnabled → ∀ argument,
      setter.unpack input (!accessibleState.rules.isDurangoActivated) = .ok argument → ∀ gas ≤ before.gas, ∀ logs,
      Ends ⟨gas, { before.db with logs }⟩ (onState (setter.store accessibleState argument) >>= fun _ => return []) post) :
    Ends before (setter.execute accessibleState caller input readOnly) post := by
  refine ends_charge (refused _ 0 UInt64.zero_le) fun gas less => ?_
  refine .check_bind (fun error _ => refused error gas less) fun _ writable => ?_
  refine .check_bind (fun error _ => refused error gas less) fun argument unpacked => ?_
  refine ends_state (.check_bind (fun error _ => refused error gas less) fun _ permitted => ?_)
  refine .check_bind (fun error _ => refused error gas less) fun _ _ => ?_
  have stores := stores (Bool.eq_false_iff.mpr (refuse_eq_ok.mp writable))
    (Bool.eq_true_of_not_eq_false (refuse_eq_ok.mp permitted)) argument unpacked
  refine ends_announce (fun error gas' less' => refused error gas' (UInt64.le_trans less' less)) fun gas' less' logs => ?_
  exact stores gas' (UInt64.le_trans less' less) logs

/-- A setter is refused, or its caller is enabled and it stores its argument. -/
theorem ends_execute (refused : ∀ error, ∀ gas ≤ before.gas, post (.error error) { before with gas })
    (stores : readOnly = false → (getAllowListStatus before.db setter.address caller).isEnabled →
      ∀ result, ∀ gas ≤ before.gas, ∀ db, post result ⟨gas, db⟩) :
    Ends before (setter.execute accessibleState caller input readOnly) post := by
  refine ends_stores refused fun writable permitted argument _ gas less logs => ?_
  have stored : Ends ⟨gas, { before.db with logs }⟩ (onState (setter.store accessibleState argument)) fun _ after =>
      after.gas = gas := rfl
  refine stored.bind ?_ ?_
  · rintro error ⟨_, db⟩ rfl
    exact stores writable permitted _ _ less db
  · rintro _ ⟨_, db⟩ rfl
    exact stores writable permitted _ _ less db

end Setter

end Snowside.Precompile
