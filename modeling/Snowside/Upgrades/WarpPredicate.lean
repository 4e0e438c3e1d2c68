import Snowside.Upgrades.Schedule

/-! The verification of a warp predicate under the configuration of the precompile. -/

set_option autoImplicit false

namespace Snowside.Upgrades

open Evm (Bytes)
open Precompile (Hash)
open Precompile.Warp (Format Message)
open Checked

/-- The format of messages, and the check of their signatures: by the bytes of the signed
message, on a network, of validators, with a quorum. -/
structure WarpLibrary (ValidatorSet : Type) where
  format : Format
  verifySignature : Bytes → UInt32 → ValidatorSet → UInt64 → UInt64 → Bool
  primaryNetworkID : Hash
  platformChainID : Hash

/-- What a block knows of the network and of validators. -/
structure PredicateContext (ValidatorSet : Type) where
  networkID : UInt32
  subnetID : Hash
  pChainHeight : UInt64
  getSubnetID : Hash → Option Hash
  getWarpValidatorSet : UInt64 → Hash → Option ValidatorSet

inductive PredicateError where
  | invalidPredicateBytes
  | cannotParseWarpMsg
  | cannotRetrieveValidatorSet
  | failedVerification
  deriving DecidableEq, Repr

def warpDefaultQuorumNumerator : UInt64 := 67

/-- Zero stands for the default. -/
def effectiveQuorum (quorumNumerator : UInt64) : UInt64 :=
  if quorumNumerator ≠ 0 then quorumNumerator else warpDefaultQuorumNumerator

variable {ValidatorSet : Type} (library : WarpLibrary ValidatorSet)

def verifyWarpPredicate (quorumNumerator : UInt64) (requirePrimaryNetworkSigners : Bool)
    (predicateContext : PredicateContext ValidatorSet) (predicate : List Hash) : Except PredicateError Unit := do
  let unpackedPredicateBytes ← need .invalidPredicateBytes (library.format.predicateBytes predicate)
  let warpMsg ← need .cannotParseWarpMsg (library.format.parseMessage unpackedPredicateBytes)
  let sourceSubnetID ← need .cannotRetrieveValidatorSet (predicateContext.getSubnetID warpMsg.sourceChainID)
  -- Messages of the primary network may be signed by the validators of this subnet alone.
  let sourceSubnetID :=
    if sourceSubnetID = library.primaryNetworkID ∧
        (requirePrimaryNetworkSigners = false ∨ warpMsg.sourceChainID = library.platformChainID)
    then predicateContext.subnetID else sourceSubnetID
  let validatorSet ← need .cannotRetrieveValidatorSet
    (predicateContext.getWarpValidatorSet predicateContext.pChainHeight sourceSubnetID)
  refuse (library.verifySignature unpackedPredicateBytes predicateContext.networkID validatorSet
    (effectiveQuorum quorumNumerator) warpQuorumDenominator = false) .failedVerification

/-- Only warp has predicates. -/
def Config.verifyPredicate (predicateContext : PredicateContext ValidatorSet) (predicate : List Hash) :
    Config → Option (Except PredicateError Unit)
  | warp _ quorumNumerator requirePrimaryNetworkSigners =>
      some (verifyWarpPredicate library quorumNumerator requirePrimaryNetworkSigners predicateContext predicate)
  | _ => none

/-- Some message from outside the platform chain is signed by one set of validators and not by another. -/
def WarpLibrary.Discerning : Prop :=
  ∃ predicate bytes message networkID signers others, library.format.predicateBytes predicate = some bytes ∧
    library.format.parseMessage bytes = some message ∧ message.sourceChainID ≠ library.platformChainID ∧
    ∀ quorum, 0 < quorum → quorum ≤ warpQuorumDenominator →
      library.verifySignature bytes networkID signers quorum warpQuorumDenominator = true ∧
      library.verifySignature bytes networkID others quorum warpQuorumDenominator = false

/-- Validators of the subnet that do not sign for the primary network tell whether its signers are required. -/
theorem requirePrimary_of_same {library : WarpLibrary ValidatorSet} (discerning : library.Discerning)
    {quorumNumerator quorumNumerator' : UInt64} (bounded : quorumNumerator ≤ warpQuorumDenominator)
    (bounded' : quorumNumerator' ≤ warpQuorumDenominator) {require require' : Bool}
    (same : ∀ predicateContext predicate, verifyWarpPredicate library quorumNumerator require predicateContext predicate =
      verifyWarpPredicate library quorumNumerator' require' predicateContext predicate) : require = require' := by
  obtain ⟨predicate, bytes, message, networkID, signers, others, packed, parsed, elsewhere, decides⟩ := discerning
  let predicateContext : PredicateContext ValidatorSet :=
    { networkID, subnetID := library.primaryNetworkID + 1, pChainHeight := 0
      getSubnetID := fun _ => some library.primaryNetworkID
      getWarpValidatorSet := fun _ subnetID => some (if subnetID = library.primaryNetworkID then signers else others) }
  have quorum (numerator : UInt64) (small : numerator ≤ warpQuorumDenominator) :
      0 < effectiveQuorum numerator ∧ effectiveQuorum numerator ≤ warpQuorumDenominator := by
    unfold effectiveQuorum
    split
    · next nonzero => exact ⟨UInt64.pos_iff_ne_zero.mpr nonzero, small⟩
    · exact ⟨by decide, by decide⟩
  have outcome (numerator : UInt64) (small : numerator ≤ warpQuorumDenominator) (flag : Bool) :
      verifyWarpPredicate library numerator flag predicateContext predicate =
        if flag then .ok () else .error .failedVerification := by
    obtain ⟨positive, most⟩ := quorum numerator small
    obtain ⟨signed, unsigned⟩ := decides _ positive most
    unfold verifyWarpPredicate
    cases flag with
    | true => simp [packed, parsed, elsewhere, predicateContext, need_some, refuse, signed]
    | false => simp [packed, parsed, predicateContext, need_some, refuse, unsigned]
  have same := same predicateContext predicate
  rw [outcome _ bounded, outcome _ bounded'] at same
  cases require <;> cases require' <;> simp at same <;> rfl

end Snowside.Upgrades
