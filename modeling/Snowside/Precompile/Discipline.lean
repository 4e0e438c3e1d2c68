import Snowside.Precompile.FeeManager
import Snowside.Precompile.NativeCoin
import Snowside.Precompile.Privileges
import Snowside.Precompile.RewardManager
import Snowside.Precompile.Warp

/-! What every stateful precompile respects: the gas it is supplied, read-only
calls, and the roles of its allow list.
-/

set_option autoImplicit false

namespace Snowside.Precompile

open Evm (Address Bytes)
open Checked Stateful

/-- The registered precompiles by their addresses. -/
def statefulPrecompiles (format : Warp.Format) : List (Address × StatefulPrecompile) := [
  (deployerAllowList, createAllowListPrecompile deployerAllowList),
  (NativeCoin.contractAddress, NativeCoin.precompile),
  (txAllowList, createAllowListPrecompile txAllowList),
  (FeeManager.contractAddress, FeeManager.precompile),
  (RewardManager.contractAddress, RewardManager.precompile),
  (Warp.contractAddress, Warp.precompile format)]

/-- No gas is gained, a read-only call changes nothing, and a change is permitted. -/
structure Disciplined (readOnly : Bool) (permitted : Prop) (before after : Machine) : Prop where
  gas : after.gas ≤ before.gas
  readOnly : readOnly → after.db = before.db
  permitted : after.db ≠ before.db → permitted

namespace Disciplined

variable {readOnly : Bool} {permitted : Prop} {before : Machine} {gas : UInt64}

theorem same (less : gas ≤ before.gas) : Disciplined readOnly permitted before { before with gas } where
  gas := less
  readOnly _ := rfl
  permitted changed := absurd rfl changed

theorem write (writable : readOnly = false) (holds : permitted) (less : gas ≤ before.gas) (db : StateDB) :
    Disciplined readOnly permitted before ⟨gas, db⟩ where
  gas := less
  readOnly readOnly := absurd readOnly (Bool.eq_false_iff.mp writable)
  permitted _ := holds

theorem mono {weaker : Prop} {after : Machine} (disciplined : Disciplined readOnly permitted before after)
    (weaken : permitted → weaker) : Disciplined readOnly weaker before after :=
  { disciplined with permitted := fun changed => weaken (disciplined.permitted changed) }

end Disciplined

/-- Wherever a function runs, it is disciplined. -/
def Respects (permitted : StateDB → Address → Prop) (execute : RunStatefulPrecompileFunc) : Prop :=
  ∀ accessibleState caller input readOnly before, Ends before (execute accessibleState caller input readOnly)
    fun _ after => Disciplined readOnly (permitted before.db caller) before after

/-- Callers with a role above none. -/
def EnabledAt (precompileAddr : Address) (db : StateDB) (caller : Address) : Prop :=
  (getAllowListStatus db precompileAddr caller).isEnabled

section

variable {permitted : StateDB → Address → Prop} {precompileAddr : Address}

theorem respects_run {contract : StatefulPrecompile} (direct : contract.fallback = none)
    (functions : ∀ function ∈ contract.functions, Respects permitted function.execute) : Respects permitted contract.run :=
  fun _ _ _ _ _ => ends_run direct (fun _ => .same UInt64.le_rfl) fun function member =>
    functions function member _ _ _ _ _

theorem respects_reader {gasCost : AccessibleState → UInt64}
    {read : AccessibleState → Bytes → StateDB → Except PrecompileError Bytes} :
    Respects permitted fun accessibleState _ input _ => reader (gasCost accessibleState) (read accessibleState input) :=
  fun _ _ _ _ _ => ends_reader fun _ _ less => .same less

theorem respects_allowListFunction {function : StatefulPrecompileFunction}
    (member : function ∈ createAllowListFunctions precompileAddr) :
    Respects (EnabledAt precompileAddr) function.execute := fun _ _ _ _ _ =>
  ends_allowListFunction member (fun _ _ less => .same less) fun _ _ writable _ allowed _ less _ =>
    .write writable (Role.isEnabled_of_canModify allowed) less _

theorem respects_setter {Input : Type} {setter : Setter Input} (own : setter.address = precompileAddr) :
    Respects (EnabledAt precompileAddr) setter.execute := fun _ _ _ _ _ =>
  Setter.ends_execute (fun _ _ less => .same less) fun writable enabled _ _ less _ =>
    .write writable (own ▸ enabled) less _

/-- An allow list and functions of its precompile. -/
theorem respects_withAllowList {functions : List StatefulPrecompileFunction}
    (respect : ∀ function ∈ functions, Respects (EnabledAt precompileAddr) function.execute) :
    Respects (EnabledAt precompileAddr)
      (StatefulPrecompile.run { functions := createAllowListFunctions precompileAddr ++ functions }) := by
  refine respects_run rfl fun function member => ?_
  rcases List.mem_append.mp member with allowList | own
  · exact respects_allowListFunction allowList
  · exact respect function own

end

theorem NativeCoin.respects : Respects (EnabledAt contractAddress) precompile.run :=
  respects_withAllowList (by
    simp only [List.mem_cons, List.not_mem_nil, or_false, forall_eq]
    exact respects_setter rfl)

theorem FeeManager.respects : Respects (EnabledAt contractAddress) precompile.run :=
  respects_withAllowList (by
    simp only [List.mem_cons, List.not_mem_nil, or_false, forall_eq_or_imp, forall_eq]
    exact ⟨respects_reader, respects_reader, respects_setter rfl⟩)

theorem RewardManager.respects : Respects (EnabledAt contractAddress) precompile.run :=
  respects_withAllowList (by
    simp only [List.mem_cons, List.not_mem_nil, or_false, forall_eq_or_imp, forall_eq]
    exact ⟨respects_setter rfl, respects_reader, respects_reader, respects_setter rfl, respects_setter rfl⟩)

theorem createAllowListPrecompile_respects (precompileAddr : Address) :
    Respects (EnabledAt precompileAddr) (createAllowListPrecompile precompileAddr).run :=
  respects_run rfl fun _ => respects_allowListFunction

namespace Warp

variable {before : Machine}

theorem ends_chargeEach {α : Type} {post : Except PrecompileError α → Machine → Prop} {gasCost : UInt64} {count : Nat}
    {next : Unit → Execution α} (short : post (.error .outOfGas) { before with gas := 0 })
    (paid : ∀ gas ≤ before.gas, Ends { before with gas } (next ()) post) :
    Ends before (chargeEach gasCost count >>= next) post := by
  by_cases overflow : (safeMul gasCost (.ofNat count)).2
  · have exhausted : chargeEach gasCost count = outOfGas := if_pos overflow
    rw [exhausted]
    exact short
  · have charged : chargeEach gasCost count = charge (safeMul gasCost (.ofNat count)).1 := if_neg overflow
    rw [charged]
    exact ends_charge short paid

theorem ends_readPredicate {format : Format} {handler : MessageHandler} {warpGasConfig : GasConfig}
    {post : Except PrecompileError Bytes → Machine → Prop} {predicate : Option (List Hash)}
    (reads : ∀ result, ∀ gas ≤ before.gas, post result { before with gas }) :
    Ends before (handleWarpMessage.readPredicate format handler warpGasConfig predicate) post := by
  cases predicate with
  | none => exact reads _ before.gas UInt64.le_rfl
  | some predicate =>
    refine ends_chargeEach (reads _ 0 UInt64.zero_le) fun gas less => ?_
    refine .check_bind (fun error _ => reads _ gas less) fun _ _ => ?_
    refine .check_bind (fun error _ => reads _ gas less) fun _ _ => ?_
    exact reads _ gas less

/-- Reading a message changes gas only. -/
theorem ends_handleWarpMessage {format : Format} {handler : MessageHandler} {accessibleState : AccessibleState}
    {caller : Address} {input : Bytes} {readOnly : Bool} {post : Except PrecompileError Bytes → Machine → Prop}
    (reads : ∀ result, ∀ gas ≤ before.gas, post result { before with gas }) :
    Ends before (handleWarpMessage format handler accessibleState caller input readOnly) post := by
  refine ends_charge (reads _ 0 UInt64.zero_le) fun gas less => ?_
  refine .check_bind (fun error _ => reads _ gas less) fun warpIndex _ => ?_
  refine .check_bind (fun error _ => reads _ gas less) fun _ _ => ?_
  exact ends_readPredicate fun result gas' less' => reads result gas' (UInt64.le_trans less' less)

/-- Sending a message changes nothing but gas, or adds a log. -/
theorem ends_sendWarpMessage {format : Format} {accessibleState : AccessibleState} {caller : Address} {input : Bytes}
    {readOnly : Bool} {post : Except PrecompileError Bytes → Machine → Prop}
    (refused : ∀ error, ∀ gas ≤ before.gas, post (.error error) { before with gas })
    (sends : readOnly = false → ∀ result, ∀ gas ≤ before.gas, ∀ logs, post (.ok result) ⟨gas, { before.db with logs }⟩) :
    Ends before (sendWarpMessage format accessibleState caller input readOnly) post := by
  refine ends_charge (refused _ 0 UInt64.zero_le) fun gas less => ?_
  refine ends_chargeEach (refused _ 0 UInt64.zero_le) fun gas' less' => ?_
  have less := UInt64.le_trans less' less
  refine .check_bind (fun error _ => refused error gas' less) fun _ writable => ?_
  refine .check_bind (fun error _ => refused error gas' less) fun _ _ => ?_
  refine .check_bind (fun error _ => refused error gas' less) fun _ _ => ?_
  refine .check_bind (fun error _ => refused error gas' less) fun _ _ => ?_
  refine ends_emit (fun error => refused error gas' less) fun logs => ?_
  exact sends (Bool.eq_false_iff.mpr (refuse_eq_ok.mp writable)) _ gas' less logs

theorem respects_handleWarpMessage (format : Format) (handler : MessageHandler) :
    Respects (fun _ _ => True) (handleWarpMessage format handler) := fun _ _ _ _ _ =>
  ends_handleWarpMessage fun _ _ less => .same less

theorem respects (format : Format) : Respects (fun _ _ => True) (precompile format).run := by
  refine respects_run rfl ?_
  simp only [precompile, List.mem_cons, List.not_mem_nil, or_false, forall_eq_or_imp, forall_eq]
  refine ⟨respects_reader, respects_handleWarpMessage _ _, respects_handleWarpMessage _ _, fun _ _ _ _ _ => ?_⟩
  exact ends_sendWarpMessage (fun _ _ less => .same less) fun writable _ _ less _ => .write writable trivial less _

end Warp

/-- Every run of every stateful precompile returns no more gas than it is
supplied, changes nothing if it is read-only, and changes anything only for
callers that are enabled, except where messages are sent. -/
theorem statefulPrecompiles_disciplined (format : Warp.Format) (accessibleState : AccessibleState) (caller : Address)
    (input : Bytes) (readOnly : Bool) (suppliedGas : UInt64) (db : StateDB) :
    ∀ registered ∈ statefulPrecompiles format, Disciplined readOnly
      (registered.1 = Warp.contractAddress ∨ EnabledAt registered.1 db caller) ⟨suppliedGas, db⟩
      (perform (registered.2.run accessibleState caller input readOnly) ⟨suppliedGas, db⟩).2 := by
  have enabled {precompileAddr : Address} {run : RunStatefulPrecompileFunc} (respects : Respects (EnabledAt precompileAddr) run) :
      Disciplined readOnly (precompileAddr = Warp.contractAddress ∨ EnabledAt precompileAddr db caller) ⟨suppliedGas, db⟩
        (perform (run accessibleState caller input readOnly) ⟨suppliedGas, db⟩).2 :=
    Disciplined.mono (respects accessibleState caller input readOnly ⟨suppliedGas, db⟩) .inr
  intro registered member
  simp only [statefulPrecompiles, List.mem_cons, List.not_mem_nil, or_false] at member
  rcases member with rfl | rfl | rfl | rfl | rfl | rfl
  · exact enabled (createAllowListPrecompile_respects _)
  · exact enabled NativeCoin.respects
  · exact enabled (createAllowListPrecompile_respects _)
  · exact enabled FeeManager.respects
  · exact enabled RewardManager.respects
  · exact Disciplined.mono (Warp.respects format accessibleState caller input readOnly ⟨suppliedGas, db⟩) fun _ => .inl rfl

/-- A format that knows no message. -/
def sampleFormat : Warp.Format where
  predicateBytes _ := none
  parseMessage _ := none
  parseAddressedCall _ := none
  parseHash _ := none
  newAddressedCall _ _ := none
  newUnsignedMessage _ _ _ := none

/-- An address that may mint. -/
def mintingDB : StateDB := setAllowListRole NativeCoin.contractAddress 9 .enabledRole sampleDB

def mintInput : Bytes := [0x4f, 0x5a, 0xaa, 0xba] ++ packWords [addressToHash 8, 1000]

/-- A mint of an enabled caller, and what is left of its gas. -/
theorem statefulPrecompiles_disciplined_sample :
    Disciplined false (NativeCoin.contractAddress = Warp.contractAddress ∨ EnabledAt NativeCoin.contractAddress mintingDB 9)
      ⟨100000, mintingDB⟩ (perform (NativeCoin.precompile.run sampleState 9 mintInput false) ⟨100000, mintingDB⟩).2 ∧
    (perform (NativeCoin.precompile.run sampleState 9 mintInput false) ⟨100000, mintingDB⟩).2.gas = 68244 ∧
    (perform (NativeCoin.precompile.run sampleState 9 mintInput false) ⟨100000, mintingDB⟩).2.db.balance 8 = 1000 := by
  refine ⟨?_, by decide, by decide⟩
  exact statefulPrecompiles_disciplined sampleFormat sampleState 9 _ false 100000 mintingDB
    (NativeCoin.contractAddress, NativeCoin.precompile) (List.mem_cons_of_mem _ (List.mem_cons_self ..))

end Snowside.Precompile
