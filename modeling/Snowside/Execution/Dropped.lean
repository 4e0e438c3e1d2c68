import Snowside.Execution.Messages

/-! What a transaction that the worker drops leaves in the block under construction. -/

set_option autoImplicit false

namespace Snowside.Execution

open Checked Stateful
open Evm (Address)
open Interpreter (revertToSnapshot snapshot)
open Precompile (Hash)
open Precompile.Warp (contractAddress)
open Upgrades (PredicateContext)

/-! ## Results on record -/

/-- What is kept of the results of one transaction: nothing if there are none. -/
def PrecompileResults.kept (txResults : PrecompileResults) : Option (Address → Option Bits) :=
  if txResults.entries = [] then none else some fun address => txResults.lookup address

/-- What is on record for a transaction. -/
def BlockResults.record (results : BlockResults) (txHash : Hash) : Option (Address → Option Bits) :=
  (results.lookup txHash).map fun txResults address => txResults.lookup address

namespace BlockResults

theorem record_set_same (results : BlockResults) (txHash : Hash) (txResults : PrecompileResults) :
    (results.set txHash txResults).record txHash = PrecompileResults.kept txResults := by
  unfold set record PrecompileResults.kept
  by_cases none : txResults.entries = []
  · rw [if_pos none, if_pos none, AList.lookup_erase]
    rfl
  · rw [if_neg none, if_neg none, AList.lookup_insert]
    rfl

theorem record_set_other (results : BlockResults) {txHash other : Hash} (apart : other ≠ txHash) (txResults : PrecompileResults) :
    (results.set txHash txResults).record other = results.record other := by
  unfold set record
  by_cases none : txResults.entries = []
  · rw [if_pos none, AList.lookup_erase_ne apart]
  · rw [if_neg none, AList.lookup_insert_ne apart]

/-- Results that are on record already are the only ones whose setting changes nothing. -/
theorem record_set_eq_iff (results : BlockResults) (txHash : Hash) (txResults : PrecompileResults) :
    (results.set txHash txResults).record = results.record ↔ results.record txHash = PrecompileResults.kept txResults := by
  constructor
  · intro same
    rw [← same, record_set_same]
  · intro recorded
    funext other
    by_cases here : other = txHash
    · subst here
      rw [record_set_same, recorded]
    · exact record_set_other results here txResults

/-- Deleting forgets what was set before. -/
theorem record_set_set (results : BlockResults) (txHash : Hash) (txResults last : PrecompileResults) :
    ((results.set txHash txResults).set txHash last).record = (results.set txHash last).record := by
  funext other
  by_cases here : other = txHash
  · subst here
    rw [record_set_same, record_set_same]
  · rw [record_set_other _ here, record_set_other _ here, record_set_other _ here]

end BlockResults

/-! ## Dropping -/

section

variable {S T TxError ReaderError TipError ValidatorSet : Type} [Interpreter S TxError] [Transaction T TxError]

/-- The environment is as it was. -/
structure Environment.Untouched (before after : Environment S T) : Prop where
  state : after.state = before.state
  gasPool : after.gasPool = before.gasPool
  header : after.header = before.header
  txs : after.txs = before.txs
  receipts : after.receipts = before.receipts
  counts : after.tcount = before.tcount ∧ after.blobs = before.blobs
  predicateResults : after.predicateResults.record = before.predicateResults.record

omit [Interpreter S TxError] [Transaction T TxError] in
/-- Where nothing else changes, it is the record that counts. -/
theorem Environment.untouched_iff (env : Environment S T) (results : BlockResults) :
    env.Untouched { env with predicateResults := results } ↔ results.record = env.predicateResults.record :=
  ⟨fun untouched => untouched.predicateResults, fun same => ⟨rfl, rfl, rfl, rfl, rfl, ⟨rfl, rfl⟩, same⟩⟩

variable (chain : Chain T ReaderError TipError) (worker : Worker ValidatorSet)
  (predicateContext : Option (PredicateContext ValidatorSet)) (env : Environment S T) (tx : T)

/-- The predicates as the worker checks them. -/
def Worker.checked : Except (PredicateCheckError TxError) PrecompileResults :=
  checkTxPredicates (worker.rules chain env.header) env.header.number env.header.time predicateContext tx

/-- The transaction comes to be executed: from Durango on its predicates are checked, and the results written. -/
def Worker.Reached : Prop :=
  (worker.rules chain env.header).isDurango → ∃ results, worker.checked chain predicateContext env tx = .ok results ∧
    chain.encoding.codec.bytes (env.predicateResults.set (Transaction.hash tx) results) ≠ none

/-- Results that cannot be written were on record before, and before an execution there was no record. -/
structure Worker.Traceless : Prop where
  unwritten : (worker.rules chain env.header).isDurango → ∀ results, worker.checked chain predicateContext env tx = .ok results →
    chain.encoding.codec.bytes (env.predicateResults.set (Transaction.hash tx) results) = none →
    env.predicateResults.record (Transaction.hash tx) = PrecompileResults.kept results
  executed : worker.Reached chain predicateContext env tx → env.predicateResults.record (Transaction.hash tx) = none

variable {chain worker predicateContext env tx}

omit [Interpreter S TxError] in
/-- How far a transaction comes before it is executed. -/
theorem txContext_cases :
    Ends env (worker.txContext chain predicateContext tx : Action (WorkError TxError ReaderError) (Environment S T) BlockContext)
      fun result after =>
        match result with
        | .ok _ => worker.Reached chain predicateContext env tx ∧ ∃ results,
            after = { env with predicateResults := results } ∧
            (results.set (Transaction.hash tx) ∅).record = (env.predicateResults.set (Transaction.hash tx) ∅).record
        | .error _ => (worker.rules chain env.header).isDurango ∧
            ((∃ cause, worker.checked chain predicateContext env tx = .error cause) ∧ after = env ∨
              ∃ results, worker.checked chain predicateContext env tx = .ok results ∧
                chain.encoding.codec.bytes (env.predicateResults.set (Transaction.hash tx) results) = none ∧
                after = { env with predicateResults := env.predicateResults.set (Transaction.hash tx) results }) := by
  unfold Worker.txContext
  refine Ends.get_bind ?_
  by_cases durango : (worker.rules chain env.header).isDurango
  · rw [if_pos durango]
    refine Ends.check_bind (fun error failed => ?_) fun results checked => ?_
    · cases refused : worker.checked chain predicateContext env tx with
      | error cause => exact ⟨durango, .inl ⟨⟨cause, rfl⟩, rfl⟩⟩
      | ok results =>
        unfold Worker.checked at refused
        rw [refused] at failed
        cases failed
    · refine Ends.modify_bind (Ends.check_bind (fun error failed => ?_) fun encoded written => ?_)
      · exact ⟨durango, .inr ⟨results, mapError_eq_ok.mp checked, (need_eq_error.mp failed).1, rfl⟩⟩
      · refine Ends.pure ⟨fun _ => ⟨results, mapError_eq_ok.mp checked, ?_⟩, _, rfl, ?_⟩
        · rw [need_eq_ok.mp written]
          exact Option.some_ne_none _
        · exact BlockResults.record_set_set _ _ _ _
  · rw [if_neg durango]
    exact Ends.pure ⟨fun late => absurd late durango, _, rfl, rfl⟩

variable [LawfulInterpreter S]

/-- What each way to fail leaves. -/
theorem workerApplyTransaction_fails {cause : WorkError TxError ReaderError} {after : Environment S T}
    (failed : perform (worker.applyTransaction chain predicateContext tx) env = (.error cause, after)) :
    ((worker.rules chain env.header).isDurango ∧
        ((∃ cause, worker.checked chain predicateContext env tx = .error cause) ∧ after = env ∨
          ∃ results, worker.checked chain predicateContext env tx = .ok results ∧
            chain.encoding.codec.bytes (env.predicateResults.set (Transaction.hash tx) results) = none ∧
            after = { env with predicateResults := env.predicateResults.set (Transaction.hash tx) results })) ∨
      worker.Reached chain predicateContext env tx ∧ ∃ results, after = { env with predicateResults := results } ∧
        results.record = (env.predicateResults.set (Transaction.hash tx) ∅).record := by
  have ends : Ends env (worker.txContext chain predicateContext tx : Action (WorkError TxError ReaderError) (Environment S T) _) _ :=
    txContext_cases
  unfold Ends at ends
  unfold Worker.applyTransaction at failed
  rcases prepared : perform (worker.txContext chain predicateContext tx) env with ⟨result, middle⟩
  rw [prepared] at ends
  cases result with
  | error error =>
    rw [perform_bind_error prepared] at failed
    cases failed
    exact .inl ends
  | ok context =>
    obtain ⟨reached, results, rfl, same⟩ := ends
    rw [perform_bind_ok prepared, perform_execute] at failed
    rcases ran : perform (chain.applyTransaction context env.header tx) env.progress with ⟨result, progress⟩
    have ran' : perform (chain.applyTransaction context env.header tx)
        (Environment.progress { env with predicateResults := results }) = (result, progress) := ran
    rw [ran'] at failed
    cases result with
    | ok receipt => cases failed
    | error error =>
      cases failed
      have reverted : revertToSnapshot (snapshot env.state) progress.db = env.state := applyTransaction_reverted ran
      refine .inr ⟨reached, _, ?_, same⟩
      exact congrArg (fun state => ({ env with state, predicateResults := results.set (Transaction.hash tx) ∅ } : Environment S T))
        reverted

end

/-! ## In a run -/

section

variable {S T TxError ReaderError TipError ValidatorSet : Type} [Interpreter S TxError] [Transaction T TxError]

/-- Only one transaction's record may change. -/
def Environment.RecordsElsewhere (hash : Hash) (before after : Environment S T) : Prop :=
  ∀ other, other ≠ hash → after.predicateResults.record other = before.predicateResults.record other

namespace Environment.RecordsElsewhere

variable {hash : Hash}

omit [Interpreter S TxError] [Transaction T TxError] in
theorem refl (env : Environment S T) : env.RecordsElsewhere hash env := fun _ _ => rfl

omit [Interpreter S TxError] [Transaction T TxError] in
theorem trans (first second third : Environment S T) (before : first.RecordsElsewhere hash second)
    (after : second.RecordsElsewhere hash third) : first.RecordsElsewhere hash third :=
  fun other apart => (after other apart).trans (before other apart)

end Environment.RecordsElsewhere

variable {chain : Chain T ReaderError TipError} {worker : Worker ValidatorSet}
  {predicateContext : Option (PredicateContext ValidatorSet)} {env : Environment S T} {tx : T}

omit [Interpreter S TxError] in
theorem txContext_records :
    Moves (Environment.RecordsElsewhere (Transaction.hash tx))
      (worker.txContext chain predicateContext tx : Action (WorkError TxError ReaderError) (Environment S T) BlockContext) := by
  intro env
  refine txContext_cases.mono fun result after cases other apart => ?_
  cases result with
  | ok context =>
    obtain ⟨-, results, rfl, same⟩ := cases
    have here := congrFun same other
    rwa [BlockResults.record_set_other _ apart, BlockResults.record_set_other _ apart] at here
  | error cause =>
    obtain ⟨-, ⟨-, rfl⟩ | ⟨results, -, -, rfl⟩⟩ := cases
    · rfl
    · exact BlockResults.record_set_other _ apart results

theorem applyTransaction_records :
    Moves (Environment.RecordsElsewhere (Transaction.hash tx))
      (worker.applyTransaction chain predicateContext tx :
        Action (WorkError TxError ReaderError) (Environment S T) Receipt) := by
  refine Moves.bind Environment.RecordsElsewhere.trans txContext_records fun context before => ?_
  unfold Ends
  rw [perform_execute]
  rcases perform (chain.applyTransaction context before.header tx) before.progress with ⟨result, progress⟩
  cases result with
  | ok receipt => exact .refl before
  | error cause => exact fun other apart => BlockResults.record_set_other _ apart ∅

theorem commitTransaction_records :
    Moves (Environment.RecordsElsewhere (Transaction.hash tx))
      (worker.commitTransaction chain predicateContext tx :
        Action (WorkError TxError ReaderError) (Environment S T) Unit) := by
  intro env
  have applied : Moves (Environment.RecordsElsewhere (Transaction.hash tx))
      (worker.applyTransaction chain predicateContext tx : Action (WorkError TxError ReaderError) (Environment S T) Receipt) :=
    applyTransaction_records
  unfold Worker.commitTransaction
  by_cases isBlob : Transaction.type tx = blobTxType
  · rw [if_pos isBlob]
    unfold Worker.commitBlobTransaction
    refine Ends.check_bind (fun _ _ => .refl env) fun blobs _ => Ends.get_bind (Ends.check_bind (fun _ _ => .refl env) fun _ _ => ?_)
    refine Ends.bind (applied env) (fun _ _ elsewhere => elsewhere) fun receipt after elsewhere => Ends.get_bind ?_
    exact Ends.check_bind (fun _ _ => elsewhere) fun _ _ => Ends.set elsewhere
  · rw [if_neg isBlob]
    exact Ends.bind (applied env) (fun _ _ elsewhere => elsewhere) fun receipt after elsewhere => Ends.modify elsewhere

/-- A run changes no record but those of the transactions that it tries. -/
theorem commitTransactions_records {tried : List T} {final : Environment S T} {hash : Hash}
    (new : ∀ tx ∈ tried, Transaction.hash tx ≠ hash)
    (committed : worker.commitTransactions chain predicateContext tried env =
      (.ok final : Except (WorkError TxError ReaderError) (Environment S T))) :
    final.predicateResults.record hash = env.predicateResults.record hash := by
  induction tried generalizing env with
  | nil =>
    cases committed
    rfl
  | cons tx rest ih =>
    have apart : hash ≠ Transaction.hash tx := (new tx (List.mem_cons_self ..)).symm
    have later : ∀ other ∈ rest, Transaction.hash other ≠ hash := fun other member => new other (List.mem_cons_of_mem _ member)
    rw [Worker.commitTransactions] at committed
    have moves : Moves (Environment.RecordsElsewhere (Transaction.hash tx)) (worker.commitTransaction chain predicateContext tx :
      Action (WorkError TxError ReaderError) (Environment S T) Unit) := commitTransaction_records
    have moved := moves { env with state := Interpreter.setTxContext (Transaction.hash tx) env.tcount env.state }
    unfold Ends at moved
    rcases attempted : perform (worker.commitTransaction chain predicateContext tx)
      { env with state := Interpreter.setTxContext (Transaction.hash tx) env.tcount env.state } with ⟨result, after⟩
    rw [attempted] at moved committed
    cases result with
    | ok done => exact (ih later committed).trans (moved hash apart)
    | error cause =>
      cases cause with
      | panicked => cases committed
      | _ => exact (ih later committed).trans (moved hash apart)

/-- In a run from an environment without a record of the transaction, only results that cannot be written leave a trace. -/
theorem traceless_after {tried : List T} {start : Environment S T} (new : ∀ other ∈ tried, Transaction.hash other ≠ Transaction.hash tx)
    (fresh : start.predicateResults.record (Transaction.hash tx) = none)
    (committed : worker.commitTransactions chain predicateContext tried start =
      (.ok env : Except (WorkError TxError ReaderError) (Environment S T))) :
    worker.Traceless chain predicateContext env tx ↔
      ((worker.rules chain env.header).isDurango → ∀ results, worker.checked chain predicateContext env tx = .ok results →
        chain.encoding.codec.bytes (env.predicateResults.set (Transaction.hash tx) results) = none → results.entries = []) := by
  have unrecorded : env.predicateResults.record (Transaction.hash tx) = none := (commitTransactions_records new committed).trans fresh
  have empty_iff (results : PrecompileResults) : none = PrecompileResults.kept results ↔ results.entries = [] := by
    unfold PrecompileResults.kept
    split <;> simp_all
  constructor
  · intro traceless durango results checked unwritten
    exact (empty_iff results).mp (unrecorded.symm.trans (traceless.unwritten durango results checked unwritten))
  · intro silent
    exact ⟨fun durango results checked unwritten =>
      unrecorded.trans ((empty_iff results).mpr (silent durango results checked unwritten)), fun _ => unrecorded⟩

end

/-! ## Samples -/

section

variable {S T TxError ReaderError TipError ValidatorSet : Type} [Interpreter S TxError] [Transaction T TxError]
  {chain : Chain T ReaderError TipError} {worker : Worker ValidatorSet}
  {predicateContext : Option (PredicateContext ValidatorSet)} {env : Environment S T} {tx : T} {results : PrecompileResults}

/-- Results that cannot be written stay. -/
theorem perform_applyTransaction_unwritten (durango : (worker.rules chain env.header).isDurango)
    (checked : worker.checked chain predicateContext env tx = .ok results)
    (unwritten : chain.encoding.codec.bytes (env.predicateResults.set (Transaction.hash tx) results) = none) :
    perform (worker.applyTransaction chain predicateContext tx : Action (WorkError TxError ReaderError) (Environment S T) Receipt) env =
      (.error .marshalPredicateResults, { env with predicateResults := env.predicateResults.set (Transaction.hash tx) results }) := by
  refine perform_bind_error ?_
  unfold Worker.txContext
  rw [perform_get_bind, if_pos durango]
  unfold Worker.checked at checked
  rw [checked]
  have passes : perform (check ((Except.ok results : Except (PredicateCheckError TxError) PrecompileResults).mapError
      (.predicates : _ → WorkError TxError ReaderError)) : Action _ (Environment S T) _) env = (.ok results, env) := rfl
  refine (perform_bind_ok passes).trans ((perform_modify_bind _ _ env).trans ?_)
  refine perform_bind_error ?_
  rw [unwritten]
  rfl

end

/-- Version and number of transactions, then for each its hash, number of precompiles and their bits. -/
def encodedSize (results : BlockResults) : Nat :=
  2 + 4 + (results.entries.map fun entry =>
    32 + 4 + (entry.2.entries.map fun failed => 20 + 4 + (Nat.log2 failed.2 / 8 + 1)).sum).sum

/-- Results are written up to a mebibyte. -/
def cappedNode : Chain Messages.Delivery Unit Unit :=
  { Messages.deliveryNode with
    encoding := { Messages.deliveryNode.encoding with
      codec := { Messages.cleanCodec with
        bytes := fun results => if 1048576 < encodedSize results then none else Messages.cleanCodec.bytes results } } }

/-- One transaction is on record, with a failure far out. -/
def crowdedEnvironment (bits : Nat) : Environment Machine Messages.Delivery where
  state := {}
  gasPool := 8000000
  header := Messages.deliveryBlock.header
  predicateResults := AList.singleton 9 (AList.singleton contractAddress (2 ^ bits))

theorem checked_carrying (bits : Nat) :
    Messages.deliveryBuilder.checked cappedNode (some Messages.deliveryContext) (crowdedEnvironment bits) .carrying =
      .ok (AList.singleton contractAddress (0 : Nat)) := rfl

theorem encodedSize_crowded (bits : Nat) :
    encodedSize (crowdedEnvironment bits).predicateResults = 67 + bits / 8 ∧
      encodedSize ((crowdedEnvironment bits).predicateResults.set 1 (AList.singleton contractAddress (0 : Nat))) =
        128 + bits / 8 := by
  have entries : ((crowdedEnvironment bits).predicateResults.set 1 (AList.singleton contractAddress (0 : Nat))).entries =
      [⟨1, AList.singleton contractAddress (0 : Nat)⟩, ⟨9, AList.singleton contractAddress (2 ^ bits : Nat)⟩] := rfl
  constructor
  · simp [encodedSize, crowdedEnvironment, Nat.log2_two_pow]
    omega
  · rw [encodedSize, entries]
    simp [Nat.log2_two_pow]
    omega

/-- The results of the next transaction do not fit, and stay on record when it is dropped. -/
theorem crowded_leaves {bits : Nat} (crowded : 1048576 < 128 + bits / 8) :
    ∃ after, perform (Messages.deliveryBuilder.applyTransaction cappedNode (some Messages.deliveryContext) .carrying)
        (crowdedEnvironment bits) = (.error (.marshalPredicateResults : WorkError TransferError Unit), after) ∧
      ¬ (crowdedEnvironment bits).Untouched after := by
  have unwritten : cappedNode.encoding.codec.bytes
      ((crowdedEnvironment bits).predicateResults.set 1 (AList.singleton contractAddress (0 : Nat))) = none :=
    if_pos (by rwa [(encodedSize_crowded bits).2])
  refine ⟨_, perform_applyTransaction_unwritten rfl (checked_carrying bits) unwritten, ?_⟩
  rw [Environment.untouched_iff, BlockResults.record_set_eq_iff]
  have absent : (crowdedEnvironment bits).predicateResults.record 1 = none := rfl
  intro recorded
  cases absent.symm.trans recorded

/-- Without gas no transaction is executed. -/
def exhaustedEnvironment : Environment Machine Messages.Delivery :=
  { state := {}, gasPool := 0, header := Messages.deliveryBlock.header }

end Snowside.Execution
