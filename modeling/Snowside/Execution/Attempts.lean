import Snowside.Execution.Builder
import Snowside.Execution.Replay

/-! The transactions that the worker tries: the processor replays those that it includes. -/

set_option autoImplicit false

namespace Snowside.Execution

open Checked Stateful
open Interpreter (setTxContext txIndex)
open Precompile (Hash)
open Upgrades (PredicateContext)

section

variable {S T TxError ReaderError TipError ValidatorSet : Type} [Interpreter S TxError] [Transaction T TxError]

/-- Results that are the same but for one transaction. -/
def BlockResults.Elsewhere (hash : Hash) (before after : BlockResults) : Prop :=
  ∀ other, other ≠ hash → after.get other = before.get other

theorem BlockResults.elsewhere_set (hash : Hash) (results : BlockResults) (txResults : PrecompileResults) :
    results.Elsewhere hash (results.set hash txResults) := by
  intro other apart
  funext address
  exact get_set_other results apart txResults address

theorem BlockResults.Elsewhere.trans {hash : Hash} {first second third : BlockResults} (before : first.Elsewhere hash second)
    (after : second.Elsewhere hash third) : first.Elsewhere hash third :=
  fun other apart => (after other apart).trans (before other apart)

variable (chain : Chain T ReaderError TipError) (worker : Worker ValidatorSet)

/-- Before Durango there are no verdicts. -/
def Quiet (header : Header) (results : BlockResults) : Prop :=
  (worker.rules chain header).isDurango = false → ∀ hash, results.get hash = fun _ => 0

/-- The transaction, as the worker executes it, is executed so in any block with its verdicts. -/
structure Executed (tx : T) (env : Environment S T) (receipt : Receipt) (message : Message) (progress : Progress S)
    (results : BlockResults) : Prop where
  translated : Transaction.toMessage env.header.number env.header.time env.header.baseFee tx = .ok message
  placed : receipt.transactionIndex = txIndex env.state ∧ receipt.blockNumber = env.header.number
  anywhere : ∀ (context : BlockContext) blockHash, context.toBlockEnv = (chain.context env.header).toBlockEnv →
    (context.predicateResults chain.encoding.codec).map (fun parsed => parsed.get (Transaction.hash tx)) =
      some (results.get (Transaction.hash tx)) →
    perform (applyTransaction chain.encoding chain.config message env.header.number blockHash tx context) env.progress =
      (.ok (receipt.inBlock blockHash), progress)

variable {chain worker} {predicateContext : Option (PredicateContext ValidatorSet)} (lawful : chain.encoding.codec.Lawful)

theorem Quiet.set {header : Header} {results : BlockResults} (quiet : Quiet chain worker header results) (hash : Hash) :
    Quiet chain worker header (results.set hash ∅) := by
  intro early other
  funext address
  by_cases same : other = hash
  · subst same
    rw [BlockResults.get_set_same]
    rfl
  · rw [BlockResults.get_set_other results same, quiet early]

include lawful

omit [Interpreter S TxError] in
/-- The context of a transaction has the environment of the header, and the verdicts so far. -/
theorem txContext_ends {env : Environment S T} (tx : T) (extra : env.header.extra = [])
    (quiet : Quiet chain worker env.header env.predicateResults) :
    Ends env (worker.txContext chain predicateContext tx) fun result after => ∃ results,
      after = { env with predicateResults := results } ∧ env.predicateResults.Elsewhere (Transaction.hash tx) results ∧
      Quiet chain worker env.header results ∧ ∀ context, result = .ok context →
        context.toBlockEnv = (chain.context env.header).toBlockEnv ∧
        (context.predicateResults chain.encoding.codec).map (fun parsed => parsed.get (Transaction.hash tx)) =
          some (results.get (Transaction.hash tx)) := by
  have author : (newEVMBlockContext chain.encoding chain.getHeader env.header (some env.header.coinbase)).toBlockEnv =
      (chain.context env.header).toBlockEnv := by
    rw [Chain.context, toBlockEnv_newEVMBlockContext, toBlockEnv_newEVMBlockContext]
    rfl
  unfold Worker.txContext
  refine Ends.get_bind ?_
  by_cases durango : (worker.rules chain env.header).isDurango
  · rw [if_pos durango]
    have loud (results : BlockResults) : Quiet chain worker env.header results := fun early => by
      rw [durango] at early
      cases early
    refine Ends.check_bind (fun _ _ => ?_) fun txResults _ => ?_
    · exact ⟨env.predicateResults, rfl, fun _ _ => rfl, quiet, fun _ impossible => by cases impossible⟩
    · set results := env.predicateResults.set (Transaction.hash tx) txResults
      have elsewhere := env.predicateResults.elsewhere_set (Transaction.hash tx) txResults
      refine Ends.modify_bind (Ends.check_bind (fun _ _ => ?_) fun encoded written => ?_)
      · exact ⟨results, rfl, elsewhere, loud results, fun _ impossible => by cases impossible⟩
      refine Ends.pure ⟨results, rfl, elsewhere, loud results, ?_⟩
      rintro _ ⟨⟩
      have carries : ∃ parsed, (newEVMBlockContextWithPredicateResults chain.encoding chain.getHeader env.header
          (some env.header.coinbase) encoded).predicateResults chain.encoding.codec = some parsed ∧ parsed.get = results.get :=
        predicateResults_withPredicateResults lawful (need_eq_ok.mp written)
      obtain ⟨parsed, read, same⟩ := carries
      exact ⟨author, by rw [read, Option.map_some, same]⟩
  · rw [if_neg durango]
    refine Ends.pure ⟨env.predicateResults, rfl, fun _ _ => rfl, quiet, ?_⟩
    rintro _ ⟨⟩
    have none : (newEVMBlockContext chain.encoding chain.getHeader env.header (some env.header.coinbase)).predicateResults
        chain.encoding.codec = some ∅ := predicateResults_newEVMBlockContext_none (by rw [extra]; rfl)
    refine ⟨author, ?_⟩
    rw [none, Option.map_some, quiet (Bool.eq_false_iff.mpr durango)]
    rfl

omit lawful

theorem perform_execute (env : Environment S T) (context : BlockContext) (tx : T) :
    perform (Worker.execute chain context tx : Action (WorkError TxError ReaderError) (Environment S T) Receipt) env =
      match perform (chain.applyTransaction context env.header tx) env.progress with
      | (.ok receipt, progress) => (.ok receipt, env.advance progress)
      | (.error cause, progress) =>
          (.error (.execution cause),
            { env with
              state := Interpreter.revertToSnapshot (Interpreter.snapshot env.state) progress.db
              predicateResults := env.predicateResults.set (Transaction.hash tx) ∅ }) := rfl

variable [LawfulInterpreter S]

/-- A rejected execution leaves the state as it was before. -/
theorem applyTransaction_reverted {tx : T} {context : BlockContext} {header : Header} {progress after : Progress S} {cause : TxError}
    (failed : perform (chain.applyTransaction context header tx) progress = (.error cause, after)) :
    Interpreter.revertToSnapshot (Interpreter.snapshot progress.db) after.db = progress.db := by
  unfold Chain.applyTransaction at failed
  cases translated : Transaction.toMessage header.number header.time header.baseFee tx with
  | error refused =>
    rw [translated] at failed
    cases failed
    exact LawfulInterpreter.reverts_unchanged _
  | ok message =>
    rw [translated, check_ok_bind] at failed
    exact applyTransaction_reverts failed

include lawful

/-- A transaction is executed, or it leaves no more than results of its own. -/
theorem workerApplyTransaction_ends (env : Environment S T) {tx : T} (current : Interpreter.txHash env.state = Transaction.hash tx)
    (extra : env.header.extra = []) (quiet : Quiet chain worker env.header env.predicateResults) :
    Ends env (worker.applyTransaction chain predicateContext tx) fun result after => ∃ results,
      env.predicateResults.Elsewhere (Transaction.hash tx) results ∧ Quiet chain worker env.header results ∧
      match result with
      | .ok receipt => ∃ message progress, Executed chain tx env receipt message progress results ∧
          after = { env.advance progress with predicateResults := results }
      | .error _ => after = { env with predicateResults := results } := by
  unfold Worker.applyTransaction
  refine Ends.bind (txContext_ends lawful tx extra quiet) ?_ ?_
  · rintro error _ ⟨results, rfl, elsewhere, quiet, -⟩
    exact ⟨results, elsewhere, quiet, rfl⟩
  · rintro context _ ⟨results, rfl, elsewhere, quiet, described⟩
    obtain ⟨env', verdict⟩ := described context rfl
    rcases ran : perform (chain.applyTransaction context env.header tx) env.progress with ⟨result, progress⟩
    have ran' : perform (chain.applyTransaction context env.header tx)
        (Environment.progress { env with predicateResults := results }) = (result, progress) := ran
    rw [Ends, perform_execute, ran']
    cases result with
    | ok receipt =>
      obtain ⟨message, _, checked, applied⟩ := perform_bind_eq_ok.mp ran
      obtain ⟨translated, rfl⟩ := Prod.mk.inj checked
      refine ⟨results, elsewhere, quiet, message, progress, ⟨translated, ?_, fun other blockHash same found => ?_⟩, rfl⟩
      · exact applyTransaction_placed applied
      · rw [applyTransaction_inBlock message _ blockHash (chain.encoding.headerHash env.header),
          applyTransaction_congr message _ _ tx (same.trans env'.symm), applied]
        · rfl
        · rw [show Interpreter.txHash env.progress.db = Transaction.hash tx from current, found, verdict]
    | error cause =>
      refine ⟨results.set (Transaction.hash tx) ∅, elsewhere.trans (results.elsewhere_set _ _), quiet.set _, ?_⟩
      have reverted : Interpreter.revertToSnapshot (Interpreter.snapshot env.state) progress.db = env.state :=
        applyTransaction_reverted ran
      show ({ env with state := _, predicateResults := _ } : Environment S T) = _
      rw [reverted]

end

/-! ## The block under construction -/

section

variable {S T TxError ReaderError TipError ValidatorSet : Type} [Interpreter S TxError] [Transaction T TxError]

/-- A context has the verdicts of the worker on the transactions so far. -/
def Verdicts (codec : Codec) (context : BlockContext) (env : Environment S T) : Prop :=
  ∃ parsed, context.predicateResults codec = some parsed ∧
    ∀ tx ∈ env.txs, parsed.get (Transaction.hash tx) = env.predicateResults.get (Transaction.hash tx)

/-- The processor comes from the start to the same receipts, gas and state, in whatever block
the transactions so far will be. -/
structure Replayed (chain : Chain T ReaderError TipError) (worker : Worker ValidatorSet) (initial : Header)
    (start : Progress S) (env : Environment S T) : Prop where
  header : env.header = { initial with gasUsed := env.header.gasUsed, blobGasUsed := env.header.blobGasUsed }
  extra : env.header.extra = []
  quiet : Quiet chain worker initial env.predicateResults
  count : env.tcount = env.txs.length
  paired : env.receipts.length = env.txs.length
  placed : ∀ (index : Nat) (receipt : Receipt), env.receipts[index]? = some receipt →
    receipt.transactionIndex = index ∧ receipt.blockNumber = initial.number
  replays : ∀ (header : Header) blockHash (context : BlockContext), initial.SameBlock header →
    context.toBlockEnv = (chain.context initial).toBlockEnv → Verdicts chain.encoding.codec context env →
    ∃ db, perform (chain.processTransactions header blockHash context 0 env.txs) start =
      (.ok (env.receipts.map (·.inBlock blockHash)), ⟨env.gasPool, db, env.header.gasUsed⟩) ∧ Alike db env.state

namespace Replayed

variable {chain : Chain T ReaderError TipError} {worker : Worker ValidatorSet} {initial : Header} {start : Progress S}
  {env : Environment S T} {tx : T}

theorem same (replayed : Replayed chain worker initial start env) : initial.SameBlock env.header := by
  rw [replayed.header]
  exact ⟨rfl, rfl, rfl, rfl, rfl, rfl, rfl, rfl, rfl⟩

/-- Only the next transaction's results and context are new. -/
theorem leaveOut (replayed : Replayed chain worker initial start env) {state : S} {results : BlockResults}
    (alike : Alike env.state state) (elsewhere : env.predicateResults.Elsewhere (Transaction.hash tx) results)
    (new : ∀ other ∈ env.txs, Transaction.hash other ≠ Transaction.hash tx) (quiet : Quiet chain worker initial results) :
    Replayed chain worker initial start { env with state := state, predicateResults := results } where
  header := replayed.header
  extra := replayed.extra
  quiet := quiet
  count := replayed.count
  paired := replayed.paired
  placed := replayed.placed
  replays header blockHash context same env' verdicts := by
    obtain ⟨parsed, read, agrees⟩ := verdicts
    have before : Verdicts chain.encoding.codec context env :=
      ⟨parsed, read, fun other member => (agrees other member).trans (elsewhere _ (new other member))⟩
    obtain ⟨db, processed, reaches⟩ := replayed.replays header blockHash context same env' before
    exact ⟨db, processed, fun hash index => (reaches hash index).trans (alike hash index)⟩

variable [LawfulInterpreter S]

/-- The next transaction joins the block, perhaps without its blobs. -/
theorem join (replayed : Replayed chain worker initial start env) {included : T} {receipt : Receipt} {message : Message}
    {progress : Progress S} {results : BlockResults} {blobs : Nat} {blobGasUsed : Option UInt64}
    (executed : Executed chain tx { env with state := setTxContext (Transaction.hash tx) env.tcount env.state } receipt message
      progress results)
    (hashed : Transaction.hash included = Transaction.hash tx)
    (translates : ∀ number time baseFee,
      Transaction.toMessage number time baseFee included = Transaction.toMessage number time baseFee tx)
    (applies : ∀ message number blockHash context,
      (applyTransaction chain.encoding chain.config message number blockHash included context :
        Action TxError (Progress S) Receipt) = applyTransaction chain.encoding chain.config message number blockHash tx context)
    (elsewhere : env.predicateResults.Elsewhere (Transaction.hash tx) results)
    (new : ∀ other ∈ env.txs, Transaction.hash other ≠ Transaction.hash tx) (quiet : Quiet chain worker initial results) :
    Replayed chain worker initial start
      { state := progress.db, gasPool := progress.gasPool, header := { env.header with gasUsed := progress.usedGas, blobGasUsed },
        txs := env.txs ++ [included], receipts := env.receipts ++ [receipt], tcount := env.tcount + 1, blobs,
        predicateResults := results } where
  header := congrArg (fun header : Header => { header with gasUsed := progress.usedGas, blobGasUsed }) replayed.header
  extra := replayed.extra
  quiet := quiet
  count := by rw [List.length_append, ← replayed.count]; rfl
  paired := by rw [List.length_append, List.length_append, replayed.paired]; rfl
  placed index other found := by
    rcases Nat.lt_trichotomy index env.receipts.length with before | here | beyond
    · rw [List.getElem?_append_left before] at found
      exact replayed.placed index other found
    · rw [here, List.getElem?_append_right (Nat.le_refl _), Nat.sub_self] at found
      cases found
      obtain ⟨placed, numbered⟩ := executed.placed
      refine ⟨placed.trans ?_, numbered.trans replayed.same.number⟩
      rw [here, replayed.paired, ← replayed.count]
      exact LawfulInterpreter.txIndex_setTxContext _ _ _
    · rw [List.getElem?_eq_none (by rw [List.length_append, List.length_singleton]; omega)] at found
      cases found
  replays header blockHash context same env' verdicts := by
    obtain ⟨parsed, read, agrees⟩ := verdicts
    have before : Verdicts chain.encoding.codec context env :=
      ⟨parsed, read, fun other member =>
        (agrees other (List.mem_append_left _ member)).trans (elsewhere _ (new other member))⟩
    obtain ⟨db, processed, reaches⟩ := replayed.replays header blockHash context same env' before
    have last := agrees included (List.mem_append_right _ (List.mem_singleton_self _))
    rw [hashed] at last
    have translated : Transaction.toMessage header.number header.time header.baseFee included = .ok message := by
      rw [translates, same.number, same.time, same.baseFee, ← replayed.same.number, ← replayed.same.time,
        ← replayed.same.baseFee]
      exact executed.translated
    have applied : perform (applyTransaction chain.encoding chain.config message header.number blockHash included context)
        ⟨env.gasPool, setTxContext (Transaction.hash included) (0 + env.txs.length) db, env.header.gasUsed⟩ =
          (.ok (receipt.inBlock blockHash), progress) := by
      rw [applies, hashed, Nat.zero_add, ← replayed.count, reaches, same.number, ← replayed.same.number]
      refine executed.anywhere context blockHash (env'.trans (toBlockEnv_of_sameBlock replayed.same).symm) ?_
      rw [read, Option.map_some, last]
    refine ⟨progress.db, ?_, fun _ _ => rfl⟩
    rw [List.map_append]
    exact processTransactions_append processed translated applied

variable [LawfulTransaction T] {predicateContext : Option (PredicateContext ValidatorSet)} (lawful : chain.encoding.codec.Lawful)

include lawful

/-- The worker executes a transaction alone: it joins the block, or it is left out. -/
theorem workerApplyTransaction (replayed : Replayed chain worker initial start env)
    (new : ∀ other ∈ env.txs, Transaction.hash other ≠ Transaction.hash tx) :
    Ends { env with state := setTxContext (Transaction.hash tx) env.tcount env.state }
      (worker.applyTransaction chain predicateContext tx) fun result after =>
      match result with
      | .ok receipt => after.header.blobGasUsed = env.header.blobGasUsed ∧ ∀ (included : T) blobs blobGasUsed,
          (included = tx ∨ included = Transaction.withoutBlobTxSidecar tx) →
            Replayed chain worker initial start
              { after with
                header := { after.header with blobGasUsed }
                txs := after.txs ++ [included]
                receipts := after.receipts ++ [receipt]
                tcount := after.tcount + 1
                blobs } ∧
            (after.txs ++ [included]).map Transaction.hash = env.txs.map Transaction.hash ++ [Transaction.hash tx]
      | .error _ => Replayed chain worker initial start after ∧ after.txs = env.txs := by
  have quiet : Quiet chain worker env.header env.predicateResults := by
    have same : worker.rules chain env.header = worker.rules chain initial := by
      rw [Worker.rules, Worker.rules, replayed.same.time]
    rw [Quiet, same]
    exact replayed.quiet
  have current : Interpreter.txHash (setTxContext (Transaction.hash tx) env.tcount env.state) = Transaction.hash tx :=
    LawfulInterpreter.txHash_setTxContext _ _ _
  refine (workerApplyTransaction_ends lawful { env with state := setTxContext (Transaction.hash tx) env.tcount env.state }
    current replayed.extra quiet).mono ?_
  rintro result after ⟨results, elsewhere, quiet', outcome⟩
  have quiet' : Quiet chain worker initial results := by
    have same : worker.rules chain env.header = worker.rules chain initial := by
      rw [Worker.rules, Worker.rules, replayed.same.time]
    rw [Quiet, ← same]
    exact quiet'
  cases result with
  | error cause =>
    cases outcome
    exact ⟨replayed.leaveOut (fun hash index => (LawfulInterpreter.setTxContext_twice _ _ _ _ _).symm) elsewhere new quiet', rfl⟩
  | ok receipt =>
    obtain ⟨message, progress, executed, rfl⟩ := outcome
    refine ⟨rfl, fun included blobs blobGasUsed which => ?_⟩
    have hashed : Transaction.hash included = Transaction.hash tx := by
      rcases which with rfl | rfl
      · rfl
      · exact LawfulTransaction.hash_withoutBlobTxSidecar tx
    refine ⟨replayed.join executed hashed (fun number time baseFee => ?_) (fun message number blockHash context => ?_) elsewhere new
      quiet', ?_⟩
    · rcases which with rfl | rfl
      · rfl
      · exact LawfulTransaction.toMessage_withoutBlobTxSidecar number time baseFee tx
    · rcases which with rfl | rfl
      · rfl
      · exact applyTransaction_withoutBlobTxSidecar message number blockHash tx context
    · rw [List.map_append, List.map_singleton, hashed]
      rfl

/-- What one attempt does to the block. -/
theorem commitTransaction_ends (replayed : Replayed chain worker initial start env)
    (new : ∀ other ∈ env.txs, Transaction.hash other ≠ Transaction.hash tx) :
    Ends { env with state := setTxContext (Transaction.hash tx) env.tcount env.state }
      (worker.commitTransaction chain predicateContext tx) fun result after =>
      match result with
      | .ok _ => Replayed chain worker initial start { after with tcount := after.tcount + 1 } ∧
          after.txs.map Transaction.hash = env.txs.map Transaction.hash ++ [Transaction.hash tx]
      | .error .panicked => True
      | .error _ => Replayed chain worker initial start after ∧ after.txs = env.txs := by
  have applied : Ends { env with state := setTxContext (Transaction.hash tx) env.tcount env.state }
      (worker.applyTransaction chain predicateContext tx) _ := workerApplyTransaction lawful replayed new
  unfold Worker.commitTransaction
  by_cases isBlob : Transaction.type tx = blobTxType
  · rw [if_pos isBlob]
    unfold Worker.commitBlobTransaction
    refine Ends.check_bind (fun error missing => ?_) fun blobs _ => Ends.get_bind (Ends.check_bind (fun error many => ?_) fun _ _ => ?_)
    · rw [← (need_eq_error.mp missing).2]
      trivial
    · rw [← (refuse_eq_error.mp many).2]
      have alike : Alike env.state (setTxContext (Transaction.hash tx) env.tcount env.state) :=
        fun hash index => (LawfulInterpreter.setTxContext_twice _ _ _ _ _).symm
      exact ⟨replayed.leaveOut alike (fun _ _ => rfl) new replayed.quiet, rfl⟩
    · refine Ends.bind applied ?_ fun receipt after joined => Ends.get_bind (Ends.check_bind (fun error missing => ?_) fun used _ => ?_)
      · rintro error after ⟨replayed, same⟩
        cases error with
        | panicked => trivial
        | _ => exact ⟨replayed, same⟩
      · rw [← (need_eq_error.mp missing).2]
        trivial
      · obtain ⟨replayed, hashes⟩ := joined.2 (Transaction.withoutBlobTxSidecar tx) _ _ (.inr rfl)
        exact Ends.set ⟨replayed, hashes⟩
  · rw [if_neg isBlob]
    refine Ends.bind applied ?_ ?_
    · rintro error after ⟨replayed, same⟩
      cases error with
      | panicked => trivial
      | _ => exact ⟨replayed, same⟩
    · rintro receipt after ⟨-, joins⟩
      obtain ⟨replayed, hashes⟩ := joins tx after.blobs after.header.blobGasUsed (.inl rfl)
      exact Ends.modify ⟨replayed, hashes⟩

/-- However the attempts end, the processor comes to the block under construction. -/
theorem commitTransactions {offered : List T} {final : Environment S T} (replayed : Replayed chain worker initial start env)
    (distinct : (env.txs.map Transaction.hash ++ offered.map Transaction.hash).Nodup)
    (committed : worker.commitTransactions chain predicateContext offered env = .ok final) :
    Replayed chain worker initial start final := by
  induction offered generalizing env with
  | nil =>
    cases committed
    exact replayed
  | cons tx rest ih =>
    rw [List.map_cons] at distinct
    have new : ∀ other ∈ env.txs, Transaction.hash other ≠ Transaction.hash tx := fun other member same =>
      List.disjoint_of_nodup_append distinct (List.mem_map_of_mem member) (same ▸ List.mem_cons_self ..)
    have ends : Ends { env with state := setTxContext (Transaction.hash tx) env.tcount env.state }
        (worker.commitTransaction chain predicateContext tx) _ := commitTransaction_ends lawful replayed new
    rw [Worker.commitTransactions] at committed
    unfold Ends at ends
    rcases attempted : perform (worker.commitTransaction chain predicateContext tx)
      { env with state := setTxContext (Transaction.hash tx) env.tcount env.state } with ⟨result, after⟩
    rw [attempted] at ends committed
    cases result with
    | ok done =>
      obtain ⟨replayed, hashes⟩ := ends
      refine ih replayed ?_ committed
      rw [show ({ after with tcount := after.tcount + 1 } : Environment S T).txs = after.txs from rfl, hashes, List.append_assoc]
      exact distinct
    | error cause =>
      cases cause with
      | panicked => cases committed
      | _ =>
        obtain ⟨replayed, same⟩ := ends
        refine ih replayed ?_ committed
        rw [same]
        exact distinct.sublist ((List.Sublist.refl _).append (List.sublist_cons_self ..))

omit [LawfulInterpreter S] [LawfulTransaction T] lawful in
/-- An empty block is replayed. -/
theorem empty {header : Header} {state : S} {gasPool : UInt64} (extra : header.extra = []) :
    Replayed chain worker header ⟨gasPool, state, header.gasUsed⟩ ({ state, gasPool, header } : Environment S T) where
  header := rfl
  extra := extra
  quiet _ _ := rfl
  count := rfl
  paired := rfl
  placed _ _ found := by cases found
  replays _ _ _ _ _ _ := ⟨state, rfl, fun _ _ => rfl⟩

end Replayed

end

end Snowside.Execution
