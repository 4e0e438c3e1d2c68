import Snowside.Execution.Agreement
import Snowside.Upgrades.Replacement

/-! The warp messages that contracts see: a transaction's own, by index, as far as they were verified for its block. -/

set_option autoImplicit false

namespace Snowside.Execution.Messages

open Checked Stateful
open Evm (Address Bytes)
open Maps (Map)
open Precompile (AccessibleState Hash)
open Precompile.Warp (Format MessageHandler addressedPayloadHandler blockHashHandler bytesToAddress contractAddress currentGasConfig
  getVerifiedWarpBlockHash getVerifiedWarpMessage handleWarpMessage packGetVerifiedWarpBlockHashOutput
  packGetVerifiedWarpMessageOutput unpackGetVerifiedWarpMessageInput)
open Upgrades (PredicateContext)

/-! ## What a precompile reads -/

/-- extstate.StateDB, as far as precompiles ask it for predicates. -/
structure ExtStateDB where
  txHash : Hash
  predicates : Map Address (List Predicate)

namespace ExtStateDB

def setTxContext (hash : Hash) (db : ExtStateDB) : ExtStateDB := { db with txHash := hash }

def prepare (hasPredicate : Address → Bool) (list : AccessList) (db : ExtStateDB) : ExtStateDB :=
  { db with predicates := fromAccessList hasPredicate list }

def getPredicate (db : ExtStateDB) (address : Address) (index : Nat) : Option Predicate :=
  Execution.getPredicate db.predicates address index

/-- The state that the code of a transaction runs on, at every point: neither calls nor reverts touch what was set before. -/
def inTransaction (hasPredicate : Address → Bool) (hash : Hash) (list : AccessList) (db : ExtStateDB) : ExtStateDB :=
  (db.setTxContext hash).prepare hasPredicate list

end ExtStateDB

/-- vm.PrecompileEnvironment, but for the block and the state. -/
structure PrecompileEnvironment where
  rules : Precompile.Rules
  blockNumber : Option Int
  chainID : Hash
  networkID : UInt32

/-- makePrecompile: the results are read from the header of the block that is executed; `none` is a panic. -/
def makePrecompile (codec : Codec) (context : BlockContext) (env : PrecompileEnvironment) (db : ExtStateDB) :
    Option AccessibleState :=
  (context.predicateResults codec).map fun results =>
    { rules := env.rules
      blockNumber := env.blockNumber
      chainID := env.chainID
      networkID := env.networkID
      getPredicate := db.getPredicate
      predicateResults := fun address index => (results.get db.txHash address).contains index }

/-! ## Verification -/

inductive VerifyPredicatesError (TxError : Type) where
  | predicatesBeforeDurango
  | check (cause : PredicateCheckError TxError)
  | marshal
  | invalidHeaderPredicateResults (remote computed : Bytes)

section

variable {S T TxError ReaderError TipError ValidatorSet : Type} [Transaction T TxError]

/-- verifyPredicates, of a wrapped block. -/
def verifyPredicates (rules : Rules ValidatorSet) (codec : Codec) (predicateContext : Option (PredicateContext ValidatorSet))
    (block : Block T) : Except (VerifyPredicatesError TxError) Unit :=
  if rules.isDurango then do
    let predicateResults ← (checkBlockPredicates rules block.header.number block.header.time predicateContext
      block.transactions).mapError .check
    let predicateResultsBytes ← need .marshal (codec.bytes predicateResults)
    let headerPredicateResultsBytes := predicateBytesFromExtra block.header.extra
    refuse (headerPredicateResultsBytes ≠ predicateResultsBytes)
      (.invalidHeaderPredicateResults headerPredicateResultsBytes predicateResultsBytes)
  else refuse (rules.predicatersExist = true) .predicatesBeforeDurango

variable [Interpreter S TxError]

/-- buildBlockWithContext: what the worker built is verified under the context that it was built under. -/
def buildBlockWithContext (worker : Worker ValidatorSet) (chain : Chain T ReaderError TipError)
    (predicateContext : Option (PredicateContext ValidatorSet)) (parent : Header) (now : Evm.Clock) (db : S) (pending : Pending T) :
    Except (Evm.WorkerError ReaderError TipError (WorkError TxError ReaderError) ⊕ VerifyPredicatesError TxError) (Sealed S T) := do
  let built ← (worker.commitNewWork chain predicateContext parent now db pending).mapError .inl
  (verifyPredicates (worker.rules chain built.block.header) chain.encoding.codec predicateContext built.block).mapError .inr
  return built

end

/-! ## The messages that are verified -/

section

variable {ValidatorSet : Type}

/-- An entry of a transaction for the warp precompile, if it passes under the context. -/
def verifiedEntry (rules : Rules ValidatorSet) (predicateContext : Option (PredicateContext ValidatorSet)) (list : AccessList)
    (index : Nat) : Option Predicate := do
  let predicate ← (list.entries contractAddress)[index]?
  let verify ← rules.predicaters contractAddress
  let context ← predicateContext
  match verify context predicate with
  | .ok _ => some predicate
  | .error _ => none

theorem verifiedEntry_eq_some {rules : Rules ValidatorSet} {predicateContext : Option (PredicateContext ValidatorSet)}
    {list : AccessList} {index : Nat} {predicate : Predicate} :
    verifiedEntry rules predicateContext list index = some predicate ↔
      (list.entries contractAddress)[index]? = some predicate ∧ ∃ verify context,
        rules.predicaters contractAddress = some verify ∧ predicateContext = some context ∧ verify context predicate = .ok () := by
  unfold verifiedEntry
  cases (list.entries contractAddress)[index]? with
  | none => simp
  | some found =>
    cases rules.predicaters contractAddress with
    | none => simp
    | some verify =>
      cases predicateContext with
      | none => simp
      | some context =>
        simp only [Option.bind_eq_bind, Option.bind_some]
        cases verdict : verify context found with
        | ok done =>
          constructor
          · intro same
            cases same
            exact ⟨rfl, verify, context, rfl, rfl, verdict⟩
          · rintro ⟨same, -⟩
            exact same
        | error cause =>
          constructor
          · intro impossible
            cases impossible
          · rintro ⟨same, other, another, ⟨⟩, ⟨⟩, passed⟩
            cases same
            rw [verdict] at passed
            cases passed

/-- What a handler answers for an entry that is verified, or for none. -/
def answer (format : Format) (handler : MessageHandler) (rules : Precompile.Rules) (entry : Nat → Option Predicate)
    (input : Bytes) : Precompile.Execution Bytes := do
  let warpGasConfig := currentGasConfig rules
  Precompile.charge warpGasConfig.getVerifiedWarpMessageBase
  let warpIndex ← check ((unpackGetVerifiedWarpMessageInput input).mapError .invalidIndexInput)
  check (refuse (Precompile.Warp.maxInt32 < warpIndex) .indexTooLarge)
  handleWarpMessage.readPredicate format handler warpGasConfig (entry warpIndex)

theorem handleWarpMessage_answers (format : Format) (handler : MessageHandler) {accessibleState : AccessibleState}
    {entry : Nat → Option Predicate}
    (reads : ∀ index, (if accessibleState.predicateResults contractAddress index then none
      else accessibleState.getPredicate contractAddress index) = entry index) (caller : Address) (input : Bytes) (readOnly : Bool) :
    handleWarpMessage format handler accessibleState caller input readOnly =
      answer format handler accessibleState.rules entry input := by
  unfold handleWarpMessage answer
  simp only [reads]

/-- An answer is the failed one or what the handler makes of a message, with the entry at the index of the input. -/
theorem answer_ok {format : Format} {handler : MessageHandler} {rules : Precompile.Rules} {entry : Nat → Option Predicate}
    {input output : Bytes} {before after : Precompile.Machine}
    (answered : perform (answer format handler rules entry input) before = (.ok output, after)) :
    ∃ index, unpackGetVerifiedWarpMessageInput input = .ok index ∧
      ((entry index = none ∧ output = handler.packFailed) ∨ ∃ predicate bytes message, entry index = some predicate ∧
        format.predicateBytes predicate = some bytes ∧ format.parseMessage bytes = some message ∧
        handler.handleMessage message = .ok output) := by
  unfold answer at answered
  obtain ⟨_, _, -, answered⟩ := perform_bind_eq_ok.mp answered
  obtain ⟨index, _, unpacked, answered⟩ := perform_bind_eq_ok.mp answered
  obtain ⟨_, _, -, answered⟩ := perform_bind_eq_ok.mp answered
  have unpacked := mapError_eq_ok.mp (Prod.mk.inj unpacked).1
  refine ⟨index, unpacked, ?_⟩
  cases found : entry index with
  | none =>
    rw [found] at answered
    exact .inl ⟨rfl, (Except.ok.inj (Prod.mk.inj answered).1).symm⟩
  | some predicate =>
    rw [found] at answered
    unfold handleWarpMessage.readPredicate at answered
    obtain ⟨_, _, -, answered⟩ := perform_bind_eq_ok.mp answered
    obtain ⟨bytes, _, packed, answered⟩ := perform_bind_eq_ok.mp answered
    obtain ⟨message, _, parsed, answered⟩ := perform_bind_eq_ok.mp answered
    refine .inr ⟨predicate, bytes, message, rfl, need_eq_ok.mp (Prod.mk.inj packed).1, need_eq_ok.mp (Prod.mk.inj parsed).1, ?_⟩
    exact (Prod.mk.inj answered).1

/-- What a contract may rely on when it asks for messages: each answer depends on its own entry alone, and a message that is
called valid is the one of a verified entry. -/
structure Reliable (format : Format) (accessibleState : AccessibleState) (entry : Nat → Option Predicate) : Prop where
  messages : ∀ caller input readOnly, getVerifiedWarpMessage format accessibleState caller input readOnly =
    answer format (addressedPayloadHandler format) accessibleState.rules entry input
  blockHashes : ∀ caller input readOnly, getVerifiedWarpBlockHash format accessibleState caller input readOnly =
    answer format (blockHashHandler format) accessibleState.rules entry input
  message_valid : ∀ caller input readOnly before output after,
    perform (getVerifiedWarpMessage format accessibleState caller input readOnly) before = (.ok output, after) →
      ∃ index, unpackGetVerifiedWarpMessageInput input = .ok index ∧
        ((entry index = none ∧ output = packGetVerifiedWarpMessageOutput 0 0 [] false) ∨ ∃ predicate bytes message call,
          entry index = some predicate ∧ format.predicateBytes predicate = some bytes ∧ format.parseMessage bytes = some message ∧
          format.parseAddressedCall message.payload = some call ∧ output =
            packGetVerifiedWarpMessageOutput message.sourceChainID (bytesToAddress call.sourceAddress) call.payload true)
  blockHash_valid : ∀ caller input readOnly before output after,
    perform (getVerifiedWarpBlockHash format accessibleState caller input readOnly) before = (.ok output, after) →
      ∃ index, unpackGetVerifiedWarpMessageInput input = .ok index ∧
        ((entry index = none ∧ output = packGetVerifiedWarpBlockHashOutput 0 0 false) ∨ ∃ predicate bytes message hash,
          entry index = some predicate ∧ format.predicateBytes predicate = some bytes ∧ format.parseMessage bytes = some message ∧
          format.parseHash message.payload = some hash ∧
          output = packGetVerifiedWarpBlockHashOutput message.sourceChainID hash true)
  own_entry : ∀ handler rules input (other : Nat → Option Predicate),
    (∀ index, unpackGetVerifiedWarpMessageInput input = .ok index → other index = entry index) →
      answer format handler rules other input = answer format handler rules entry input

/-- Of the entries an answer reads the one at the index of the input. -/
theorem answer_congr (format : Format) (handler : MessageHandler) (rules : Precompile.Rules) {input : Bytes}
    {entry other : Nat → Option Predicate}
    (same : ∀ index, unpackGetVerifiedWarpMessageInput input = .ok index → other index = entry index) :
    answer format handler rules other input = answer format handler rules entry input := by
  unfold answer
  cases unpacked : unpackGetVerifiedWarpMessageInput input with
  | error cause => rfl
  | ok index =>
    show (do
      Precompile.charge (currentGasConfig rules).getVerifiedWarpMessageBase
      check (refuse (Precompile.Warp.maxInt32 < index) .indexTooLarge)
      handleWarpMessage.readPredicate format handler (currentGasConfig rules) (other index)) = _
    rw [same index unpacked]
    rfl

theorem reliable (format : Format) {accessibleState : AccessibleState} {entry : Nat → Option Predicate}
    (reads : ∀ index, (if accessibleState.predicateResults contractAddress index then none
      else accessibleState.getPredicate contractAddress index) = entry index) : Reliable format accessibleState entry := by
  refine ⟨fun caller input readOnly => ?_, fun caller input readOnly => ?_, ?_, ?_,
    fun handler rules input other same => answer_congr format handler rules same⟩
  · exact handleWarpMessage_answers format (addressedPayloadHandler format) reads caller input readOnly
  · exact handleWarpMessage_answers format (blockHashHandler format) reads caller input readOnly
  · intro caller input readOnly before output after answered
    unfold getVerifiedWarpMessage at answered
    rw [handleWarpMessage_answers format _ reads] at answered
    obtain ⟨index, unpacked, ended⟩ := answer_ok answered
    refine ⟨index, unpacked, ended.imp_right ?_⟩
    rintro ⟨predicate, bytes, message, found, packed, parsed, handled⟩
    obtain ⟨call, called, returned⟩ := bind_eq_ok.mp handled
    exact ⟨predicate, bytes, message, call, found, packed, parsed, need_eq_ok.mp called, (Except.ok.inj returned).symm⟩
  · intro caller input readOnly before output after answered
    unfold getVerifiedWarpBlockHash at answered
    rw [handleWarpMessage_answers format _ reads] at answered
    obtain ⟨index, unpacked, ended⟩ := answer_ok answered
    refine ⟨index, unpacked, ended.imp_right ?_⟩
    rintro ⟨predicate, bytes, message, found, packed, parsed, handled⟩
    obtain ⟨hash, hashed, returned⟩ := bind_eq_ok.mp handled
    exact ⟨predicate, bytes, message, hash, found, packed, parsed, need_eq_ok.mp hashed, (Except.ok.inj returned).symm⟩

/-! ## The bits of a block -/

section

variable {rules : Rules ValidatorSet} {predicateContext : Option (PredicateContext ValidatorSet)} {list : AccessList}

/-- The bits of the entries say which of them pass. -/
def Judged (rules : Rules ValidatorSet) (predicateContext : Option (PredicateContext ValidatorSet)) (list : AccessList)
    (bits : Bits) : Prop :=
  ∀ verify, rules.predicaters contractAddress = some verify → ∀ index predicate,
    (list.entries contractAddress)[index]? = some predicate →
      ∃ context, predicateContext = some context ∧ (bits.contains index = false ↔ verify context predicate = .ok ())

/-- A precompile in a transaction reads its verified entries. -/
theorem entry_of_judged {bits : Bits} (judged : Judged rules predicateContext list bits) (index : Nat) :
    (if bits.contains index then none else getPredicate (fromAccessList rules.hasPredicate list) contractAddress index) =
      verifiedEntry rules predicateContext list index := by
  rw [getPredicate_fromAccessList]
  unfold verifiedEntry
  cases known : rules.predicaters contractAddress with
  | none =>
    have has : rules.hasPredicate contractAddress = false := by rw [Rules.hasPredicate, known]; rfl
    rw [has]
    cases (list.entries contractAddress)[index]? with
    | none => simp
    | some predicate => simp
  | some verify =>
    have has := Rules.hasPredicate_of_known known
    rw [has, if_pos rfl]
    cases entry : (list.entries contractAddress)[index]? with
    | none => simp
    | some predicate =>
      obtain ⟨context, present, verdict⟩ := judged verify known index predicate entry
      simp only [Option.bind_eq_bind, Option.bind_some, present]
      cases verified : verify context predicate with
      | ok done => rw [verdict.mpr verified, if_neg Bool.false_ne_true]
      | error cause =>
        have failed : bits.contains index = true := by
          by_contra passed
          rw [verdict.mp (Bool.not_eq_true _ ▸ passed)] at verified
          cases verified
        rw [failed, if_pos rfl]

theorem judged_of_none (unknown : rules.predicaters contractAddress = none) (bits : Bits) :
    Judged rules predicateContext list bits := by
  intro verify known
  rw [unknown] at known
  cases known

end

end

/-! ## Blocks -/

section

variable {S T TxError ReaderError TipError ValidatorSet : Type} [Transaction T TxError]

/-- A context always has results: those of the header, if they can be read. -/
theorem predicateResults_context (chain : Chain T ReaderError TipError) (header : Header) :
    ∃ results, (chain.context header).predicateResults chain.encoding.codec = some results := by
  by_cases absent : predicateBytesFromExtra header.extra = []
  · exact ⟨∅, predicateResults_newEVMBlockContext_none absent⟩
  · unfold BlockContext.predicateResults
    cases parsed : chain.encoding.codec.parseBlockResults (predicateBytesFromExtra header.extra) with
    | none =>
      have context : (chain.context header).extra = [] := by
        unfold Chain.context newEVMBlockContext
        simp only [absent, if_false, parsed]
        rfl
      exact ⟨∅, by rw [context]; rfl⟩
    | some results =>
      have context : (chain.context header).extra = header.extra := by
        unfold Chain.context newEVMBlockContext
        simp only [absent, if_false, parsed]
        rfl
      exact ⟨results, by simp only [context, absent, if_false, parsed]⟩

variable {rules : Rules ValidatorSet} {predicateContext : Option (PredicateContext ValidatorSet)}

/-- A precompile that reads bits which judge a transaction is reliable. -/
theorem makePrecompile_reliable (format : Format) {codec : Codec} {context : BlockContext} {results : BlockResults} {hash : Hash}
    {list : AccessList} (read : context.predicateResults codec = some results)
    (judged : Judged rules predicateContext list (results.get hash contractAddress)) (env : PrecompileEnvironment)
    (db : ExtStateDB) :
    ∃ accessibleState, makePrecompile codec context env (db.inTransaction rules.hasPredicate hash list) = some accessibleState ∧
      Reliable format accessibleState (verifiedEntry rules predicateContext list) := by
  refine ⟨_, by rw [makePrecompile, read, Option.map_some], reliable format fun index => ?_⟩
  exact entry_of_judged judged index

/-- Before Durango nothing that is executed asks for messages. -/
theorem unknown_of_predicatersExist {worker : Worker ValidatorSet} {chain : Chain T ReaderError TipError} {header : Header}
    (none_exist : (worker.rules chain header).predicatersExist = false) :
    (worker.rules chain header).predicaters contractAddress = none := by
  cases known : (worker.rules chain header).predicaters contractAddress with
  | none => rfl
  | some verify =>
    have exists_some := Rules.predicatersExist_construct (Rules.hasPredicate_of_known known)
    rw [show (Rules.construct worker.library chain.config.upgrades header.time) = worker.rules chain header from rfl,
      none_exist] at exists_some
    cases exists_some

/-- A block that is built is verified under the context that it was built under. -/
theorem verified_of_built [Interpreter S TxError] {worker : Worker ValidatorSet} {chain : Chain T ReaderError TipError}
    {parent : Header} {now : Evm.Clock} {db : S} {pending : Pending T} {built : Sealed S T}
    (made : buildBlockWithContext worker chain predicateContext parent now db pending = .ok built) :
    verifyPredicates (worker.rules chain built.block.header) chain.encoding.codec predicateContext built.block = .ok () := by
  obtain ⟨block, -, made⟩ := bind_eq_ok.mp made
  obtain ⟨done, verified, returned⟩ := bind_eq_ok.mp made
  cases returned
  exact mapError_eq_ok.mp verified

theorem allowed_of_verified {codec : Codec} {block : Block T}
    (verified : verifyPredicates rules codec predicateContext block = .ok ()) :
    rules.isDurango = true ∨ rules.predicatersExist = false := by
  unfold verifyPredicates at verified
  split at verified
  · exact .inl ‹_›
  · exact .inr (Bool.eq_false_iff.mpr (refuse_eq_ok.mp verified))

variable [LawfulTransaction T]

/-- The header of a block that is verified judges its transactions. -/
theorem judged_of_verified {worker : Worker ValidatorSet} {chain : Chain T ReaderError TipError} {block : Block T}
    (lawful : chain.encoding.codec.Lawful)
    (verified : verifyPredicates (worker.rules chain block.header) chain.encoding.codec predicateContext block = .ok ()) {tx : T}
    (member : tx ∈ block.transactions) :
    ∃ results, (chain.context block.header).predicateResults chain.encoding.codec = some results ∧
      Judged (worker.rules chain block.header) predicateContext (Transaction.accessList tx)
        (results.get (Transaction.hash tx) contractAddress) := by
  unfold verifyPredicates at verified
  split at verified
  · obtain ⟨computed, checked, verified⟩ := bind_eq_ok.mp verified
    obtain ⟨encoded, written, verified⟩ := bind_eq_ok.mp verified
    have checked := mapError_eq_ok.mp checked
    have carried := not_not.mp (refuse_eq_ok.mp verified)
    obtain ⟨parsed, read, same⟩ : ∃ parsed, (chain.context block.header).predicateResults chain.encoding.codec = some parsed ∧
        parsed.get = computed.get := predicateResults_newEVMBlockContext lawful (need_eq_ok.mp written) carried
    refine ⟨parsed, read, fun verify known index predicate entry => ?_⟩
    rw [same]
    have exists_some := Rules.predicatersExist_construct (Rules.hasPredicate_of_known known)
    exact checkBlockPredicates_verdict exists_some known member checked entry
  · obtain ⟨results, read⟩ := predicateResults_context chain block.header
    have none_exist := Bool.eq_false_iff.mpr (refuse_eq_ok.mp verified)
    exact ⟨results, read, judged_of_none (unknown_of_predicatersExist none_exist) _⟩

variable [Interpreter S TxError]

omit [LawfulTransaction T] [Interpreter S TxError] in
/-- The context that the worker makes for a transaction judges it. -/
theorem judged_of_txContext {worker : Worker ValidatorSet} {chain : Chain T ReaderError TipError}
    (lawful : chain.encoding.codec.Lawful) {env after : Environment S T} {context : BlockContext} {tx : T}
    (extra : env.header.extra = [])
    (allowed : (worker.rules chain env.header).isDurango = true ∨ (worker.rules chain env.header).predicatersExist = false)
    (made : perform (worker.txContext chain predicateContext tx :
      Action (WorkError TxError ReaderError) (Environment S T) BlockContext) env = (.ok context, after)) :
    ∃ results, context.predicateResults chain.encoding.codec = some results ∧
      Judged (worker.rules chain env.header) predicateContext (Transaction.accessList tx)
        (results.get (Transaction.hash tx) contractAddress) := by
  unfold Worker.txContext at made
  obtain ⟨_, _, got, made⟩ := perform_bind_eq_ok.mp made
  cases got
  by_cases durango : (worker.rules chain env.header).isDurango
  · rw [if_pos durango] at made
    obtain ⟨txResults, _, checked, made⟩ := perform_bind_eq_ok.mp made
    obtain ⟨_, _, -, made⟩ := perform_bind_eq_ok.mp made
    obtain ⟨encoded, _, written, made⟩ := perform_bind_eq_ok.mp made
    have checked := mapError_eq_ok.mp (Prod.mk.inj checked).1
    have stored := need_eq_ok.mp (Prod.mk.inj written).1
    cases made
    obtain ⟨parsed, read, same⟩ : ∃ parsed, (newEVMBlockContextWithPredicateResults chain.encoding chain.getHeader env.header
        (some env.header.coinbase) encoded).predicateResults chain.encoding.codec = some parsed ∧
          parsed.get = (env.predicateResults.set (Transaction.hash tx) txResults).get :=
      predicateResults_withPredicateResults lawful stored
    refine ⟨parsed, read, fun verify known index predicate entry => ?_⟩
    rw [same, BlockResults.get_set_same]
    have exists_some := Rules.predicatersExist_construct (Rules.hasPredicate_of_known known)
    exact checkTxPredicates_verdict exists_some known checked entry
  · rw [if_neg durango] at made
    cases made
    have none_exist := allowed.resolve_left durango
    refine ⟨∅, predicateResults_newEVMBlockContext_none (by rw [extra]; rfl), ?_⟩
    exact judged_of_none (unknown_of_predicatersExist none_exist) _

/-- In a block that is built, or that a bootstrapped node verifies, a transaction sees exactly the messages of its own access
list that pass under the context of the block: when the block is processed, and when the worker executes the transaction at
the time of the block. -/
theorem warpMessages_verified (worker : Worker ValidatorSet) (chain : Chain T ReaderError TipError)
    (lawful : chain.encoding.codec.Lawful) (predicateContext : Option (PredicateContext ValidatorSet)) (block : Block T)
    (stands : (∃ parent now pending receipts, ∃ db after : S,
        buildBlockWithContext worker chain predicateContext parent now db pending = .ok ⟨block, receipts, after⟩) ∨
      verifyPredicates (worker.rules chain block.header) chain.encoding.codec predicateContext block = .ok ())
    (tx : T) (member : tx ∈ block.transactions) (env : PrecompileEnvironment) (state : ExtStateDB) :
    (∀ message, Transaction.toMessage block.header.number block.header.time block.header.baseFee tx = .ok message →
      ∃ accessibleState, makePrecompile chain.encoding.codec (chain.context block.header) env
          (state.inTransaction (worker.rules chain block.header).hasPredicate (Transaction.hash tx) message.accessList) =
            some accessibleState ∧
        Reliable worker.library.format accessibleState
          (verifiedEntry (worker.rules chain block.header) predicateContext (Transaction.accessList tx))) ∧
      ∀ (work after : Environment S T) context executed message, work.header.time = block.header.time → work.header.extra = [] →
        Transaction.hash executed = Transaction.hash tx →
        perform (worker.txContext chain predicateContext executed :
          Action (WorkError TxError ReaderError) (Environment S T) BlockContext) work = (.ok context, after) →
        Transaction.toMessage work.header.number work.header.time work.header.baseFee executed = .ok message →
        ∃ accessibleState, makePrecompile chain.encoding.codec context env
            (state.inTransaction (worker.rules chain block.header).hasPredicate (Transaction.hash tx) message.accessList) =
              some accessibleState ∧
          Reliable worker.library.format accessibleState
            (verifiedEntry (worker.rules chain block.header) predicateContext (Transaction.accessList tx)) := by
  have verified : verifyPredicates (worker.rules chain block.header) chain.encoding.codec predicateContext block = .ok () := by
    rcases stands with ⟨parent, now, pending, receipts, db, after, made⟩ | verified
    · exact verified_of_built made
    · exact verified
  constructor
  · intro message translated
    obtain ⟨results, read, judged⟩ := judged_of_verified lawful verified member
    rw [LawfulTransaction.accessList_toMessage _ _ _ tx message translated]
    exact makePrecompile_reliable worker.library.format read judged env state
  · intro work after context executed message time extra same made translated
    have rules_same : worker.rules chain work.header = worker.rules chain block.header := by
      unfold Worker.rules
      rw [time]
    have allowed := allowed_of_verified verified
    rw [← rules_same] at allowed ⊢
    obtain ⟨results, read, judged⟩ := judged_of_txContext lawful extra allowed made
    rw [LawfulTransaction.accessList_toMessage _ _ _ executed message translated,
      ← LawfulTransaction.accessList_of_hash executed tx same, ← same]
    exact makePrecompile_reliable worker.library.format read judged env state

end

/-! ## Samples -/

/-- A transaction with a message and one without. -/
inductive Delivery where
  | carrying
  | silent
  deriving DecidableEq

instance : Transaction Delivery TransferError where
  hash
    | .carrying => 1
    | .silent => 2
  type _ := 2
  nonce _ := 0
  gas _ := 100000
  accessList
    | .carrying => [⟨contractAddress, [7]⟩]
    | .silent => []
  blobHashes _ := []
  blobTxSidecar _ := none
  withoutBlobTxSidecar := id
  intrinsicGas _ _ _ := .ok 21000
  toMessage _ _ _ tx := .ok {
    recipient := none
    sender := 5
    nonce := 0
    value := 0
    gasLimit := 100000
    gasPrice := 0
    gasFeeCap := 0
    gasTipCap := 0
    data := []
    accessList :=
      match tx with
      | .carrying => [⟨contractAddress, [7]⟩]
      | .silent => []
    blobGasFeeCap := none
    blobHashes := [] }

instance : LawfulTransaction Delivery where
  accessList_of_hash tx other same := by
    cases tx with
    | carrying =>
      cases other with
      | carrying => rfl
      | silent => exact absurd same (by decide)
    | silent =>
      cases other with
      | carrying => exact absurd same (by decide)
      | silent => rfl
  hash_withoutBlobTxSidecar _ := rfl
  type_withoutBlobTxSidecar _ := rfl
  nonce_withoutBlobTxSidecar _ := rfl
  blobHashes_withoutBlobTxSidecar _ := rfl
  toMessage_withoutBlobTxSidecar _ _ _ _ := rfl
  accessList_toMessage _ _ _ tx message translated := by
    cases translated
    cases tx <;> rfl

/-- Results without any failure. -/
def BlockResults.clean (results : BlockResults) : Bool :=
  results.entries.all fun entry => entry.2.entries.all fun judged => judged.2 == 0

def cleanCodec : Codec where
  bytes results := if BlockResults.clean results then some [0] else none
  parseBlockResults encoded := if encoded = [0] then some ∅ else none

theorem cleanCodec_lawful : cleanCodec.Lawful where
  inverts results encoded written := by
    by_cases clean : BlockResults.clean results
    · cases (if_pos clean).symm.trans written
      refine ⟨∅, rfl, ?_⟩
      funext hash address
      have passing := List.all_eq_true.mp clean
      unfold BlockResults.get
      cases found : results.lookup hash with
      | none => rfl
      | some judged =>
        cases bits : judged.lookup address with
        | none =>
          rw [Option.bind_some, bits]
          rfl
        | some failed =>
          have entry := List.all_eq_true.mp (passing ⟨hash, judged⟩ (AList.mem_lookup_iff.mp found)) ⟨address, failed⟩
            (AList.mem_lookup_iff.mp bits)
          rw [Option.bind_some, bits]
          exact (beq_iff_eq.mp entry).symm
    · cases (if_neg clean).symm.trans written
  versioned results := by
    simp only [cleanCodec]
    split <;> decide

def deliveryLibrary : Upgrades.WarpLibrary Bool :=
  { Upgrades.sampleLibrary with
    format := { Upgrades.sampleLibrary.format with parseAddressedCall := fun _ => some ⟨[9], [1, 2]⟩ } }

def deliveryNode : Chain Delivery Unit Unit where
  encoding := {
    codec := cleanCodec
    headerHash := fun header => .ofInt 256 header.number
    createAddress := fun sender _ => sender
    createBloom := fun _ => []
    deriveTxSha := fun _ => 0
    deriveReceiptSha := fun _ => 0
    calcBlobFee := fun _ => 1
    calcExcessBlobGas := fun _ _ => 0 }
  config := {
    upgrades := Upgrades.warpChain true
    isByzantium _ := true
    isEIP158 _ := true
    isCancun _ _ := true }
  getHeader _ _ := none
  reader := Evm.sampleChain
  effectiveGasTip _ _ := .ok 0
  engine := { desiredDelayExcess := some 0 }

def deliveryBuilder : Worker Bool := { sampleBuilder with library := deliveryLibrary }

def deliveryBlock : Block Delivery where
  header := { Evm.sampleGenesis with number := 1, extra := List.replicate Evm.windowSize 0 ++ [0] }
  transactions := [.silent, .carrying]

def deliveryContext : PredicateContext Bool where
  networkID := 1
  subnetID := 1
  pChainHeight := 0
  getSubnetID _ := some 1
  getWarpValidatorSet _ _ := some true

/-- The second transaction sees its message. -/
theorem warpMessages_verified_sample : ∃ accessibleState,
    makePrecompile cleanCodec (deliveryNode.context deliveryBlock.header) ⟨⟨true, true⟩, some 1, 3, 1⟩
      (ExtStateDB.inTransaction (deliveryBuilder.rules deliveryNode deliveryBlock.header).hasPredicate 1
        [⟨contractAddress, [7]⟩] ⟨0, ∅⟩) = some accessibleState ∧
    Reliable deliveryLibrary.format accessibleState (verifiedEntry (deliveryBuilder.rules deliveryNode deliveryBlock.header)
      (some deliveryContext) [⟨contractAddress, [7]⟩]) ∧
    verifiedEntry (deliveryBuilder.rules deliveryNode deliveryBlock.header) (some deliveryContext) [⟨contractAddress, [7]⟩] 0 =
      some [7] := by
  have reliable := (warpMessages_verified (S := Machine) deliveryBuilder deliveryNode cleanCodec_lawful (some deliveryContext)
    deliveryBlock (.inr rfl) .carrying (by decide) ⟨⟨true, true⟩, some 1, 3, 1⟩ ⟨0, ∅⟩).1 _ rfl
  obtain ⟨accessibleState, made, reads⟩ := reliable
  exact ⟨accessibleState, made, reads, rfl⟩

end Snowside.Execution.Messages
