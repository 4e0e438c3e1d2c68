import Snowside.Execution.Transaction
import Snowside.Upgrades.WarpPredicate

/-! The predicates of a block: where transactions carry them, how they are verified, and how the
verdicts travel in the header.
-/

set_option autoImplicit false

namespace Snowside.Execution

open Checked
open Evm (Address Bytes windowSize)
open Maps (Map)
open Precompile (Hash)
open Upgrades (PredicateContext PredicateError WarpLibrary)

/-! ## Access lists -/

/-- The predicates of each address that has any. -/
def fromAccessList (hasPredicate : Address → Bool) (list : AccessList) : Map Address (List Predicate) :=
  list.foldl
    (fun slots tuple =>
      if hasPredicate tuple.address then
        slots.insert tuple.address ((slots.lookup tuple.address).getD [] ++ [tuple.storageKeys])
      else slots) ∅

/-- `GetPredicate`, of the predicates that a transaction was prepared with. -/
def getPredicate (predicates : Map Address (List Predicate)) (address : Address) (index : Nat) : Option Predicate :=
  (predicates.lookup address).bind (·[index]?)

theorem lookup_fromAccessList (hasPredicate : Address → Bool) (list : AccessList) (address : Address) :
    ((fromAccessList hasPredicate list).lookup address).getD [] =
      if hasPredicate address then list.entries address else [] := by
  have folded (slots : Map Address (List Predicate)) :
      ((list.foldl (fun slots tuple =>
        if hasPredicate tuple.address then
          slots.insert tuple.address ((slots.lookup tuple.address).getD [] ++ [tuple.storageKeys])
        else slots) slots).lookup address).getD [] =
      (slots.lookup address).getD [] ++ if hasPredicate address then list.entries address else [] := by
    induction list generalizing slots with
    | nil => simp [AccessList.entries]
    | cons tuple rest ih =>
      rw [List.foldl_cons, ih]
      by_cases same : tuple.address = address
      · subst same
        by_cases has : hasPredicate tuple.address
        · simp [has, AccessList.entries]
        · simp [has]
      · have kept : ((if hasPredicate tuple.address then
            slots.insert tuple.address ((slots.lookup tuple.address).getD [] ++ [tuple.storageKeys])
          else slots).lookup address) = slots.lookup address := by
          split
          · exact AList.lookup_insert_ne (Ne.symm same)
          · rfl
        rw [kept]
        simp [AccessList.entries, same]
  simpa [fromAccessList] using folded ∅

/-- A predicate that is found is an entry of the list. -/
theorem getPredicate_fromAccessList (hasPredicate : Address → Bool) (list : AccessList) (address : Address) (index : Nat) :
    getPredicate (fromAccessList hasPredicate list) address index =
      if hasPredicate address then (list.entries address)[index]? else none := by
  have found := lookup_fromAccessList hasPredicate list address
  unfold getPredicate
  cases slots : (fromAccessList hasPredicate list).lookup address with
  | none =>
    rw [slots, Option.getD_none] at found
    split at found
    · rw [if_pos ‹_›, ← found]
      rfl
    · rw [if_neg ‹_›]
      rfl
  | some predicates =>
    rw [slots, Option.getD_some] at found
    rw [Option.bind_some, found]
    split <;> rfl

/-! ## Rules -/

section

variable {ValidatorSet : Type}

/-- A proposer context, for predicates that need one. -/
abbrev Predicater (ValidatorSet : Type) : Type := PredicateContext ValidatorSet → Predicate → Except PredicateError Unit

/-- The rules at a block, as far as predicates go. -/
structure Rules (ValidatorSet : Type) where
  isDurango : Bool
  predicaters : Address → Option (Predicater ValidatorSet)

namespace Rules

def hasPredicate (rules : Rules ValidatorSet) (address : Address) : Bool := (rules.predicaters address).isSome

theorem hasPredicate_of_known {rules : Rules ValidatorSet} {address : Address} {verify : Predicater ValidatorSet}
    (known : rules.predicaters address = some verify) : rules.hasPredicate address = true := by
  rw [hasPredicate, known]
  rfl

/-- Predicaters are registered modules. -/
def predicatersExist (rules : Rules ValidatorSet) : Bool :=
  Upgrades.registeredModules.any fun module => rules.hasPredicate module.address

/-- `constructRulesExtra`: the configurations that are enabled and verify predicates. -/
def construct (library : WarpLibrary ValidatorSet) (chain : Upgrades.ChainConfig) (timestamp : UInt64) : Rules ValidatorSet where
  isDurango := chain.networkUpgrades.isDurango timestamp
  predicaters address := do
    let config ← chain.getActivePrecompileConfig address timestamp
    if config.isDisabled then none
    else
      match config with
      | .warp _ quorumNumerator requirePrimaryNetworkSigners =>
          some (Upgrades.verifyWarpPredicate library quorumNumerator requirePrimaryNetworkSigners)
      | _ => none

/-- Only modules have predicaters. -/
theorem predicatersExist_construct {library : WarpLibrary ValidatorSet} {chain : Upgrades.ChainConfig} {timestamp : UInt64}
    {address : Address} (has : (construct library chain timestamp).hasPredicate address) :
    (construct library chain timestamp).predicatersExist := by
  cases registered : Upgrades.getPrecompileModuleByAddress address with
  | none => simp [hasPredicate, construct, Upgrades.ChainConfig.getActivePrecompileConfig,
      Upgrades.ChainConfig.getActivatingPrecompileConfigs, registered] at has
  | some module =>
    rw [← Upgrades.address_of_getPrecompileModuleByAddress registered] at has
    exact List.any_eq_true.mpr ⟨module, Upgrades.mem_registeredModules module, has⟩

end Rules

end

/-! ## Verdicts -/

/-- `set.Bits`: the indexes of the bits that are set. -/
abbrev Bits : Type := Nat

def Bits.add (index : Nat) (bits : Bits) : Bits := bits ||| 1 <<< index

def Bits.contains (bits : Bits) (index : Nat) : Bool := bits.testBit index

@[simp] theorem Bits.contains_zero (index : Nat) : Bits.contains 0 index = false := Nat.zero_testBit index

@[simp] theorem Bits.contains_add (index other : Nat) (bits : Bits) :
    (bits.add index).contains other = (bits.contains other || decide (index = other)) := by
  simp [add, contains, Nat.testBit_or, Nat.one_shiftLeft, Nat.testBit_two_pow]

/-- Failures by precompile. -/
abbrev PrecompileResults : Type := Map Address Bits

/-- Failures by transaction and precompile. -/
abbrev BlockResults : Type := Map Hash PrecompileResults

namespace BlockResults

/-- Results of no precompile are deleted. -/
def set (results : BlockResults) (txHash : Hash) (txResults : PrecompileResults) : BlockResults :=
  if txResults.entries = [] then results.erase txHash else results.insert txHash txResults

def get (results : BlockResults) (txHash : Hash) (address : Address) : Bits :=
  ((results.lookup txHash).bind (·.lookup address)).getD 0

@[simp] theorem get_empty (txHash : Hash) (address : Address) : get ∅ txHash address = 0 := rfl

theorem get_set_same (results : BlockResults) (txHash : Hash) (txResults : PrecompileResults) (address : Address) :
    (results.set txHash txResults).get txHash address = (txResults.lookup address).getD 0 := by
  unfold set get
  split
  · next none =>
    have missing : txResults.lookup address = .none := by simp [AList.lookup, none]
    rw [AList.lookup_erase, missing]
    rfl
  · rw [AList.lookup_insert, Option.bind_some]

theorem get_set_other (results : BlockResults) {txHash other : Hash} (apart : other ≠ txHash) (txResults : PrecompileResults)
    (address : Address) : (results.set txHash txResults).get other address = results.get other address := by
  unfold set get
  split
  · rw [AList.lookup_erase_ne apart]
  · rw [AList.lookup_insert_ne apart]

end BlockResults

/-- The bytes of results; `none` is an error. -/
structure Codec where
  bytes : BlockResults → Option Bytes
  parseBlockResults : Bytes → Option BlockResults

/-- What is relied on: parsing inverts, and the bytes begin with a version. -/
structure Codec.Lawful (codec : Codec) : Prop where
  inverts : ∀ results encoded, codec.bytes results = some encoded →
    ∃ parsed, codec.parseBlockResults encoded = some parsed ∧ parsed.get = results.get
  versioned : ∀ results, codec.bytes results ≠ some []

/-! ## Verification -/

inductive PredicateCheckError (TxError : Type) where
  | cause (cause : TxError)
  | intrinsicGas (gas intrinsicGas : UInt64)
  | missingPredicateContext
  deriving DecidableEq, Repr

section

variable {ValidatorSet T TxError : Type} [Transaction T TxError] (rules : Rules ValidatorSet) (number : Int) (time : UInt64)
  (predicateContext : Option (PredicateContext ValidatorSet))

/-- The bits of the predicates that fail, from an index on. -/
def failures (verify : Predicate → Except PredicateError Unit) : Nat → List Predicate → Bits → Bits
  | _, [], bitset => bitset
  | index, predicate :: rest, bitset =>
      match verify predicate with
      | .error _ => failures verify (index + 1) rest (bitset.add index)
      | .ok _ => failures verify (index + 1) rest bitset

def verifyArguments (predicateContext : PredicateContext ValidatorSet) (predicateArguments : Map Address (List Predicate)) :
    PrecompileResults :=
  predicateArguments.entries.foldl
    (fun results entry =>
      match rules.predicaters entry.1 with
      | some verify => results.insert entry.1 (failures (verify predicateContext) 0 entry.2 0)
      -- Never so: arguments have predicaters.
      | none => results) ∅

def checkTxPredicates (tx : T) : Except (PredicateCheckError TxError) PrecompileResults := do
  let intrinsicGas ← (Transaction.intrinsicGas number time tx).mapError .cause
  refuse (Transaction.gas tx < intrinsicGas) (.intrinsicGas (Transaction.gas tx) intrinsicGas)
  if rules.predicatersExist = false then return ∅
  let predicateArguments := fromAccessList rules.hasPredicate (Transaction.accessList tx)
  if predicateArguments.entries = [] then return ∅
  let predicateContext ← need .missingPredicateContext predicateContext
  return verifyArguments rules predicateContext predicateArguments

def checkBlockPredicates (txs : List T) : Except (PredicateCheckError TxError) BlockResults :=
  txs.foldlM
    (fun results tx => do
      let txResults ← checkTxPredicates rules number time predicateContext tx
      return results.set (Transaction.hash tx) txResults) ∅

end

/-! ## Header bytes -/

/-- After the window. -/
def predicateBytesFromExtra (extra : Bytes) : Bytes := extra.drop windowSize

/-- A window that is too short is padded. -/
def setPredicateBytesInExtra (extra predicateBytes : Bytes) : Bytes :=
  (extra ++ List.replicate (windowSize - extra.length) 0).take windowSize ++ predicateBytes

theorem predicateBytesFromExtra_set (extra predicateBytes : Bytes) :
    predicateBytesFromExtra (setPredicateBytesInExtra extra predicateBytes) = predicateBytes := by
  unfold predicateBytesFromExtra setPredicateBytesInExtra
  rw [List.drop_append_of_le_length (by simp; omega), List.drop_of_length_le (by simp), List.nil_append]

theorem predicateBytesFromExtra_append {window : Bytes} (full : window.length = windowSize) (predicateBytes : Bytes) :
    predicateBytesFromExtra (window ++ predicateBytes) = predicateBytes := by
  rw [predicateBytesFromExtra, ← full, List.drop_left]

/-! ## What the verdicts say -/

theorem contains_failures (verify : Predicate → Except PredicateError Unit) (index : Nat) (predicates : List Predicate)
    (bitset : Bits) (other : Nat) :
    (failures verify index predicates bitset).contains other ↔
      bitset.contains other ∨ ∃ offset predicate error, other = index + offset ∧ predicates[offset]? = some predicate ∧
        verify predicate = .error error := by
  induction predicates generalizing index bitset with
  | nil => simp [failures]
  | cons predicate rest ih =>
    have shift (other : Nat) : (∃ offset next error, other = index + 1 + offset ∧ rest[offset]? = some next ∧
        verify next = .error error) ↔ ∃ offset next error, other = index + (offset + 1) ∧
          (predicate :: rest)[offset + 1]? = some next ∧ verify next = .error error := by
      simp only [List.getElem?_cons_succ]
      constructor
      · rintro ⟨offset, next, error, rfl, rest⟩
        exact ⟨offset, next, error, by omega, rest⟩
      · rintro ⟨offset, next, error, rfl, rest⟩
        exact ⟨offset, next, error, by omega, rest⟩
    have split : (∃ offset next error, other = index + offset ∧ (predicate :: rest)[offset]? = some next ∧
        verify next = .error error) ↔ (other = index ∧ ∃ error, verify predicate = .error error) ∨
          ∃ offset next error, other = index + 1 + offset ∧ rest[offset]? = some next ∧ verify next = .error error := by
      rw [shift]
      constructor
      · rintro ⟨offset, next, error, same, found, failed⟩
        cases offset with
        | zero =>
          cases found
          exact .inl ⟨same, error, failed⟩
        | succ offset => exact .inr ⟨offset, next, error, same, found, failed⟩
      · rintro (⟨same, error, failed⟩ | ⟨offset, next, error, same, found, failed⟩)
        · exact ⟨0, predicate, error, same, rfl, failed⟩
        · exact ⟨offset + 1, next, error, same, found, failed⟩
    rw [split]
    unfold failures
    cases verdict : verify predicate with
    | error error =>
      rw [ih, Bits.contains_add]
      simp [eq_comm (a := index), or_assoc]
    | ok done =>
      rw [ih]
      simp

section

variable {ValidatorSet T TxError : Type} [Transaction T TxError] {rules : Rules ValidatorSet} {number : Int} {time : UInt64}
  {predicateContext : Option (PredicateContext ValidatorSet)} {address : Address} {verify : Predicater ValidatorSet}

theorem lookup_verifyArguments (context : PredicateContext ValidatorSet) {predicateArguments : Map Address (List Predicate)}
    {predicates : List Predicate} (known : rules.predicaters address = some verify)
    (given : predicateArguments.lookup address = some predicates) :
    (verifyArguments rules context predicateArguments).lookup address = some (failures (verify context) 0 predicates 0) := by
  have folded (entries : List (Sigma fun _ : Address => List Predicate)) (distinct : entries.NodupKeys)
      (results : PrecompileResults) :
      (entries.foldl (fun results entry =>
        match rules.predicaters entry.1 with
        | some verify => results.insert entry.1 (failures (verify context) 0 entry.2 0)
        | none => results) results).lookup address =
      match entries.dlookup address with
      | some predicates => some (failures (verify context) 0 predicates 0)
      | none => results.lookup address := by
    induction entries generalizing results with
    | nil => rfl
    | cons entry rest ih =>
      obtain ⟨other, others⟩ := entry
      obtain ⟨new, distinct⟩ := List.nodupKeys_cons.mp distinct
      rw [List.foldl_cons, ih distinct]
      by_cases same : other = address
      · subst same
        rw [List.dlookup_eq_none.mpr new, List.dlookup_cons_eq, known]
        exact AList.lookup_insert _
      · rw [List.dlookup_cons_ne _ _ (Ne.symm same)]
        cases found : rest.dlookup address with
        | some predicates => rfl
        | none =>
          simp only
          split
          · exact AList.lookup_insert_ne (Ne.symm same)
          · rfl
  have given : predicateArguments.entries.dlookup address = some predicates := given
  rw [verifyArguments, folded _ predicateArguments.nodupKeys, given]

/-- The verdict on an entry of a transaction. -/
theorem checkTxPredicates_verdict {tx : T} {results : PrecompileResults} {index : Nat} {predicate : Predicate}
    (modules : rules.predicatersExist) (known : rules.predicaters address = some verify)
    (checked : checkTxPredicates rules number time predicateContext tx = .ok results)
    (entry : ((Transaction.accessList tx).entries address)[index]? = some predicate) :
    ∃ context, predicateContext = some context ∧
      (Bits.contains ((results.lookup address).getD 0) index = false ↔ verify context predicate = .ok ()) := by
  have has : rules.hasPredicate address := by rw [Rules.hasPredicate, known]; rfl
  have found := lookup_fromAccessList rules.hasPredicate (Transaction.accessList tx) address
  rw [if_pos has] at found
  simp only [checkTxPredicates, bind_eq_ok, refuse_eq_ok, modules, Bool.true_eq_false, if_false] at checked
  obtain ⟨_, _, _, _, checked⟩ := checked
  split at checked
  · next none =>
    -- The entry would be among the arguments.
    simp only [AList.lookup, none, List.dlookup_nil, Option.getD_none] at found
    rw [← found] at entry
    cases entry
  · simp only [bind_eq_ok, need_eq_ok, pure_eq, Except.ok.injEq] at checked
    obtain ⟨context, present, rfl⟩ := checked
    refine ⟨context, present, ?_⟩
    cases given : (fromAccessList rules.hasPredicate (Transaction.accessList tx)).lookup address with
    | none =>
      rw [given, Option.getD_none] at found
      rw [← found] at entry
      cases entry
    | some predicates =>
      rw [given, Option.getD_some] at found
      rw [lookup_verifyArguments context known given, Option.getD_some, found, ← Bool.not_eq_true, contains_failures]
      simp only [Bits.contains_zero, Bool.false_eq_true, false_or, Nat.zero_add, exists_and_left, exists_eq_left', entry,
        Option.some.injEq]
      cases verdict : verify context predicate with
      | error error => simp
      | ok done => simp

/-- The results of a block at a transaction are those of some transaction of its hash. -/
theorem checkBlockPredicates_get {txs : List T} {results : BlockResults} {tx : T} (member : tx ∈ txs)
    (checked : checkBlockPredicates rules number time predicateContext txs = .ok results) :
    ∃ (other : T) (txResults : PrecompileResults), Transaction.hash other = Transaction.hash tx ∧
      checkTxPredicates rules number time predicateContext other = .ok txResults ∧
      ∀ address, results.get (Transaction.hash tx) address = (txResults.lookup address).getD 0 := by
  unfold checkBlockPredicates at checked
  generalize (∅ : BlockResults) = start at checked
  induction txs using List.reverseRecOn generalizing results with
  | nil => cases member
  | append_singleton earlier last ih =>
    simp only [List.foldlM_append, List.foldlM_cons, List.foldlM_nil, bind_eq_ok, pure_eq, Except.ok.injEq] at checked
    obtain ⟨before, passed, _, ⟨txResults, verified, rfl⟩, rfl⟩ := checked
    by_cases same : Transaction.hash last = Transaction.hash tx
    · refine ⟨last, txResults, same, verified, fun address => ?_⟩
      rw [same, BlockResults.get_set_same]
    · have earlierMember : tx ∈ earlier := by
        rcases List.mem_append.mp member with there | here
        · exact there
        · exact absurd (congrArg Transaction.hash (List.mem_singleton.mp here).symm) same
      obtain ⟨other, txResults, hashed, verified, read⟩ := ih earlierMember passed
      exact ⟨other, txResults, hashed, verified, fun address =>
        (BlockResults.get_set_other _ (Ne.symm same) _ address).trans (read address)⟩

variable [LawfulTransaction T]

/-- The verdict of a block on an entry of one of its transactions. -/
theorem checkBlockPredicates_verdict {txs : List T} {results : BlockResults} {tx : T} {index : Nat} {predicate : Predicate}
    (modules : rules.predicatersExist) (known : rules.predicaters address = some verify) (member : tx ∈ txs)
    (checked : checkBlockPredicates rules number time predicateContext txs = .ok results)
    (entry : ((Transaction.accessList tx).entries address)[index]? = some predicate) :
    ∃ context, predicateContext = some context ∧
      (Bits.contains (results.get (Transaction.hash tx) address) index = false ↔ verify context predicate = .ok ()) := by
  obtain ⟨other, txResults, hashed, verified, read⟩ := checkBlockPredicates_get member checked
  rw [← LawfulTransaction.accessList_of_hash other tx hashed] at entry
  rw [read]
  exact checkTxPredicates_verdict modules known verified entry

end

end Snowside.Execution
