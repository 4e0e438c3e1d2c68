import Mathlib.Algebra.BigOperators.Group.Finset.Basic
import Mathlib.Algebra.Order.BigOperators.Group.Finset
import Mathlib.Algebra.Order.Group.Multiset
import Snowside.Execution.Agreement
import Snowside.Execution.Ordering

/-! How the worker fills a block: it takes transactions in their order, and tries those that fit. -/

set_option autoImplicit false

namespace Snowside.Execution

open Stateful
open Evm (Address)
open Interpreter (setTxContext)
open Maps (Map)
open PriceAndNonce (LazyTransaction Move Queues TransactionsByPriceAndNonce)
open Upgrades (PredicateContext)

/-- `TxGas`. -/
def txGas : UInt64 := 21000

def targetTxsSize : UInt64 := 1800 * 1024

/-- What filling asks beyond the execution of a transaction. -/
structure Measures (T TxError : Type) where
  size : T → UInt64
  /-- `Protected`, against replay on another chain. -/
  isProtected : T → Bool
  isEIP155 : Int → Bool
  isNonceTooLow : TxError → Bool

/-- The loop of commitTransactions. The environment's size is beside it. -/
structure Packing (S T : Type) where
  plain : TransactionsByPriceAndNonce T
  blobs : TransactionsByPriceAndNonce T
  env : Environment S T
  size : UInt64 := 0

inductive Source where
  | plain
  | blobs
  deriving DecidableEq, Repr

section

variable {S T TxError ReaderError TipError ValidatorSet : Type} [Interpreter S TxError] [Transaction T TxError]

namespace Packing

/-- The better of both heads. Plain transactions come first where they pay as much. -/
def next (packing : Packing S T) : Option (Source × LazyTransaction T) :=
  match packing.plain.peek, packing.blobs.peek with
  | none, none => none
  | none, some (tx, _) => some (.blobs, tx)
  | some (tx, _), none => some (.plain, tx)
  | some (tx, tip), some (blobTx, blobTip) => if tip < blobTip then some (.blobs, blobTx) else some (.plain, tx)

/-- Shift or Pop of the set that the head was taken from. -/
def moved (packing : Packing S T) (source : Source) (move : Move) : Option (Packing S T) :=
  match source with
  | .plain => (packing.plain.advance move).map fun plain => { packing with plain }
  | .blobs => (packing.blobs.advance move).map fun blobs => { packing with blobs }

/-- Without room for another blob, blob transactions are given up. -/
def clearBlobs (packing : Packing S T) : Packing S T :=
  if packing.blobs.empty = false ∧ maxBlobGasPerBlock ≤ packing.env.blobs * blobTxBlobGasPerBlob then
    { packing with blobs := packing.blobs.clear }
  else packing

/-- The transaction, if it fits and is still there. -/
def fitting (measures : Measures T TxError) (packing : Packing S T) (ltx : LazyTransaction T) : Option T :=
  let left := UInt64.ofInt (maxBlobGasPerBlock - packing.env.blobs * blobTxBlobGasPerBlob : Int)
  if packing.env.gasPool < ltx.gas then none
  else if left < ltx.blobGas then none
  else
    match ltx.resolve with
    | none => none
    | some tx =>
        if targetTxsSize < packing.size + measures.size tx then none
        else if measures.isProtected tx && !measures.isEIP155 packing.env.header.number then none
        else some tx

end Packing

namespace Worker

variable (worker : Worker ValidatorSet) (chain : Chain T ReaderError TipError)
  (predicateContext : Option (PredicateContext ValidatorSet)) (measures : Measures T TxError)

/-- A transaction is executed. What it adds to the size, and what becomes of its account. -/
def attempt (env : Environment S T) (size : UInt64) (tx : T) :
    Except (WorkError TxError ReaderError) (Environment S T × UInt64 × Move) :=
  let prepared := { env with state := setTxContext (Transaction.hash tx) env.tcount env.state }
  match perform (worker.commitTransaction chain predicateContext tx) prepared with
  | (.ok _, after) =>
      .ok ({ after with tcount := after.tcount + 1 }, if Transaction.type tx = blobTxType then size else size + measures.size tx,
        .shift)
  | (.error .panicked, _) => .error .panicked
  | (.error (.execution cause), after) => .ok (after, size, if measures.isNonceTooLow cause then .shift else .pop)
  | (.error _, after) => .ok (after, size, .pop)

/-- One round of the loop: nothing if it ends. -/
def round (packing : Packing S T) : Except (WorkError TxError ReaderError) (Option (Packing S T)) := do
  if packing.env.gasPool < txGas then return none
  let packing := packing.clearBlobs
  match packing.next with
  | none => return none
  | some (source, ltx) =>
      match packing.fitting measures ltx with
      | none => return some (← Checked.need .panicked (packing.moved source .pop))
      | some tx =>
          let (env, size, move) ← worker.attempt chain predicateContext measures packing.env packing.size tx
          return some (← Checked.need .panicked ({ packing with env, size }.moved source move))

/-- The loop, with a bound on its rounds: nothing if it has not ended by then. -/
def pack : Nat → Packing S T → Except (WorkError TxError ReaderError) (Option (Packing S T))
  | 0, _ => .ok none
  | rounds + 1, packing => do
      match ← worker.round chain predicateContext measures packing with
      | none => return some packing
      | some next => pack rounds next

/-- All transactions of the accounts. -/
def listed (pending : Map Address (List (LazyTransaction T))) : List (LazyTransaction T) :=
  pending.entries.flatMap fun entry => entry.2

/-- commitTransactions on the sets of these accounts. -/
def commitOffers (plain blobs : Map Address (List (LazyTransaction T))) (env : Environment S T) (size : UInt64) :
    Except (WorkError TxError ReaderError) (Option (Packing S T)) := do
  let baseFee := env.header.baseFee.map Int.toNat
  let plainTxs ← Checked.need .panicked (TransactionsByPriceAndNonce.new plain baseFee)
  let blobTxs ← Checked.need .panicked (TransactionsByPriceAndNonce.new blobs baseFee)
  worker.pack chain predicateContext measures ((listed plain).length + (listed blobs).length + 1)
    { plain := plainTxs, blobs := blobTxs, env, size }

/-- The transactions of an account become local. -/
def moveLocal (split : Map Address (List (LazyTransaction T)) × Map Address (List (LazyTransaction T))) (account : Address) :
    Map Address (List (LazyTransaction T)) × Map Address (List (LazyTransaction T)) :=
  match split.2.lookup account with
  | some (tx :: later) => (split.1.insert account (tx :: later), split.2.erase account)
  | _ => split

/-- The transactions of the local accounts, and those of the others. -/
def splitLocals (locals : List Address) (pending : Map Address (List (LazyTransaction T))) :
    Map Address (List (LazyTransaction T)) × Map Address (List (LazyTransaction T)) :=
  locals.foldl moveLocal (∅, pending)

/-- The pending transactions of the pool go into the block, those of local accounts first. -/
def commitPending (plain blobs : Map Address (List (LazyTransaction T))) (locals : List Address) (env : Environment S T) :
    Except (WorkError TxError ReaderError) (Option (Environment S T)) := do
  let (localPlain, remotePlain) := splitLocals locals plain
  let (localBlobs, remoteBlobs) := splitLocals locals blobs
  match ← worker.commitOffers chain predicateContext measures localPlain localBlobs env 0 with
  | none => return none
  | some packing =>
      let done ← worker.commitOffers chain predicateContext measures remotePlain remoteBlobs packing.env packing.size
      return done.map Packing.env

end Worker

/-! ## The transactions of the block -/

section

variable (worker : Worker ValidatorSet) (chain : Chain T ReaderError TipError)
  (predicateContext : Option (PredicateContext ValidatorSet)) (measures : Measures T TxError)

omit [Interpreter S TxError] in
theorem txContext_keeps_txs (tx : T) : Moves (fun before after => after.txs = before.txs)
    (worker.txContext chain predicateContext tx : Action (WorkError TxError ReaderError) (Environment S T) BlockContext) := by
  have refl : ∀ env : Environment S T, env.txs = env.txs := fun _ => rfl
  have trans : ∀ first second third : Environment S T, second.txs = first.txs → third.txs = second.txs → third.txs = first.txs :=
    fun _ _ _ one other => other.trans one
  unfold Worker.txContext
  refine .bind trans (.get refl) fun env => ?_
  dsimp only
  split
  · exact .bind trans (.check refl _) fun results => .bind trans (.modify fun _ => rfl) fun _ =>
      .bind trans (.check refl _) fun _ => .pure refl _
  · exact .pure refl _

theorem workerApplyTransaction_keeps_txs (tx : T) : Moves (fun before after => after.txs = before.txs)
    (worker.applyTransaction chain predicateContext tx : Action (WorkError TxError ReaderError) (Environment S T) Receipt) := by
  refine .bind (fun _ _ _ one other => other.trans one) (txContext_keeps_txs worker chain predicateContext tx) fun context before => ?_
  unfold Ends perform Worker.execute
  simp only [ExceptT.run_mk, StateT.run]
  split <;> rfl

/-- As it stands in the block. -/
def included (tx : T) : T := if Transaction.type tx = blobTxType then Transaction.withoutBlobTxSidecar tx else tx

theorem commitTransaction_txs (env : Environment S T) (tx : T) :
    Ends env (worker.commitTransaction chain predicateContext tx : Action (WorkError TxError ReaderError) (Environment S T) Unit)
      fun result after => after.txs = match result with
        | .ok _ => env.txs ++ [included tx]
        | .error _ => env.txs := by
  unfold Worker.commitTransaction included
  split
  · next blob =>
    unfold Worker.commitBlobTransaction
    refine .check_bind (fun _ _ => rfl) fun blobs _ => .get_bind (.check_bind (fun _ _ => rfl) fun _ _ => ?_)
    refine .bind (workerApplyTransaction_keeps_txs worker chain predicateContext tx env) (fun _ _ kept => kept) fun receipt after kept => .get_bind ?_
    refine .check_bind (fun _ _ => kept) fun used _ => .set ?_
    show after.txs ++ _ = _
    rw [kept]
  · refine .bind (workerApplyTransaction_keeps_txs worker chain predicateContext tx env) (fun _ _ kept => kept) fun receipt after kept => .modify ?_
    show after.txs ++ _ = _
    rw [kept]

/-- One attempt is the first of the transactions that are tried. -/
theorem attempt_cases (env : Environment S T) (size : UInt64) (tx : T) :
    match worker.attempt chain predicateContext measures env size tx with
    | .error cause => ∀ rest, worker.commitTransactions chain predicateContext (tx :: rest) env = .error cause
    | .ok (after, size', _) =>
        (∀ rest, worker.commitTransactions chain predicateContext (tx :: rest) env =
          worker.commitTransactions chain predicateContext rest after) ∧
        ((after.txs = env.txs ∧ size' = size) ∨ (after.txs = env.txs ++ [included tx] ∧
          size' = if Transaction.type tx = blobTxType then size else size + measures.size tx)) := by
  have kept := commitTransaction_txs worker chain predicateContext
    { env with state := setTxContext (Transaction.hash tx) env.tcount env.state } tx
  unfold Worker.attempt
  simp only [Worker.commitTransactions]
  rcases ran : perform (worker.commitTransaction chain predicateContext tx)
    { env with state := setTxContext (Transaction.hash tx) env.tcount env.state } with ⟨result, after⟩
  have kept := kept.of_perform ran
  cases result with
  | ok _ => exact ⟨fun _ => rfl, .inr ⟨kept, rfl⟩⟩
  | error cause =>
    cases cause with
    | panicked => exact fun _ => rfl
    | reader cause => exact ⟨fun _ => rfl, .inl ⟨kept, rfl⟩⟩
    | fault cause => exact ⟨fun _ => rfl, .inl ⟨kept, rfl⟩⟩
    | upgrades cause => exact ⟨fun _ => rfl, .inl ⟨kept, rfl⟩⟩
    | predicates cause => exact ⟨fun _ => rfl, .inl ⟨kept, rfl⟩⟩
    | marshalPredicateResults => exact ⟨fun _ => rfl, .inl ⟨kept, rfl⟩⟩
    | execution cause => exact ⟨fun _ => rfl, .inl ⟨kept, rfl⟩⟩
    | maxDataBlobs => exact ⟨fun _ => rfl, .inl ⟨kept, rfl⟩⟩

end

/-! ## What is left to offer -/

section

variable {accounts : Finset Address} {t : TransactionsByPriceAndNonce T}

/-- No other account has transactions in line. -/
def Within (accounts : Finset Address) (t : TransactionsByPriceAndNonce T) : Prop := ∀ account ∉ accounts, t.waiting account = []

/-- All transactions that are in line. -/
def inLine (accounts : Finset Address) (t : TransactionsByPriceAndNonce T) : Multiset (LazyTransaction T) :=
  ∑ account ∈ accounts, (t.waiting account : Multiset (LazyTransaction T))

theorem inLine_advance (sound : t.Sound) (within : Within accounts t) {tx : LazyTransaction T} {tip : Nat}
    (peeked : t.peek = some (tx, tip)) (move : Move) :
    ∃ next, t.advance move = some next ∧ next.Sound ∧ Within accounts next ∧ tx ::ₘ inLine accounts next ≤ inLine accounts t := by
  obtain ⟨head, first, same⟩ := Option.map_eq_some_iff.mp peeked
  cases same
  obtain ⟨next, moved, sound', -, waiting⟩ := sound.advance first move
  have line := sound.waiting_of_mem (List.mem_of_mem_head? first)
  have inside : head.sender ∈ accounts := by
    by_contra outside
    rw [within _ outside] at line
    cases line
  refine ⟨next, moved, sound', fun account outside => ?_, ?_⟩
  · rw [waiting, Function.update_of_ne (ne_of_mem_of_not_mem inside outside).symm]
    exact within account outside
  · have others : ∑ account ∈ accounts.erase head.sender, (next.waiting account : Multiset (LazyTransaction T)) =
        ∑ account ∈ accounts.erase head.sender, (t.waiting account : Multiset (LazyTransaction T)) :=
      Finset.sum_congr rfl fun account member => by rw [waiting, Function.update_of_ne (Finset.ne_of_mem_erase member)]
    unfold inLine
    rw [← Finset.add_sum_erase accounts _ inside,
      ← Finset.add_sum_erase accounts (fun account => (t.waiting account : Multiset (LazyTransaction T))) inside, others,
      ← Multiset.cons_add]
    refine add_le_add_left ?_ _
    rw [waiting, Function.update_self, line, List.tail_cons, ← Multiset.cons_coe, Multiset.cons_le_cons_iff]
    cases move with
    | shift => exact le_rfl
    | pop => exact Multiset.zero_le _

namespace Packing

variable {packing : Packing S T}

structure Sound (accounts : Finset Address) (packing : Packing S T) : Prop where
  plain : packing.plain.Sound
  blobs : packing.blobs.Sound
  plainWithin : Within accounts packing.plain
  blobsWithin : Within accounts packing.blobs

def offers (accounts : Finset Address) (packing : Packing S T) : Multiset (LazyTransaction T) :=
  inLine accounts packing.plain + inLine accounts packing.blobs

/-- The set that a head is taken from. -/
def set (packing : Packing S T) : Source → TransactionsByPriceAndNonce T
  | .plain => packing.plain
  | .blobs => packing.blobs

theorem peek_of_next {source : Source} {ltx : LazyTransaction T} (next : packing.next = some (source, ltx)) :
    ∃ tip, (packing.set source).peek = some (ltx, tip) := by
  unfold Packing.next at next
  cases plain : packing.plain.peek with
  | none =>
    cases blobs : packing.blobs.peek with
    | none => simp [plain, blobs] at next
    | some front =>
      simp only [plain, blobs, Option.some.injEq, Prod.mk.injEq] at next
      obtain ⟨rfl, rfl⟩ := next
      exact ⟨_, blobs⟩
  | some front =>
    cases blobs : packing.blobs.peek with
    | none =>
      simp only [plain, blobs, Option.some.injEq, Prod.mk.injEq] at next
      obtain ⟨rfl, rfl⟩ := next
      exact ⟨_, plain⟩
    | some other =>
      simp only [plain, blobs] at next
      split at next
      · cases next
        exact ⟨_, blobs⟩
      · cases next
        exact ⟨_, plain⟩

/-- A move takes the head out of what is offered. -/
theorem Sound.moved (sound : Sound accounts packing) {source : Source} {ltx : LazyTransaction T}
    (next : packing.next = some (source, ltx)) (env : Environment S T) (size : UInt64) (move : Move) :
    ∃ after, ({ packing with env, size } : Packing S T).moved source move = some after ∧ Sound accounts after ∧ after.env = env ∧
      after.size = size ∧ ltx ::ₘ after.offers accounts ≤ packing.offers accounts := by
  obtain ⟨tip, peeked⟩ := peek_of_next next
  cases source with
  | plain =>
    obtain ⟨plain, advanced, sound', within, less⟩ := inLine_advance sound.plain sound.plainWithin peeked move
    refine ⟨{ packing with plain, env, size }, by simp [Packing.moved, advanced],
      ⟨sound', sound.blobs, within, sound.blobsWithin⟩, rfl, rfl, ?_⟩
    unfold Packing.offers
    rw [← Multiset.cons_add]
    exact add_le_add_left less _
  | blobs =>
    obtain ⟨blobs, advanced, sound', within, less⟩ := inLine_advance sound.blobs sound.blobsWithin peeked move
    refine ⟨{ packing with blobs, env, size }, by simp [Packing.moved, advanced],
      ⟨sound.plain, sound', sound.plainWithin, within⟩, rfl, rfl, ?_⟩
    unfold Packing.offers
    rw [← Multiset.add_cons]
    exact add_le_add_right less _

theorem Sound.clearBlobs (sound : Sound accounts packing) : Sound accounts packing.clearBlobs ∧
    packing.clearBlobs.env = packing.env ∧ packing.clearBlobs.size = packing.size ∧
    packing.clearBlobs.offers accounts ≤ packing.offers accounts := by
  unfold Packing.clearBlobs
  split
  · have nothing : ∀ account, packing.blobs.clear.waiting account = [] := fun account => rfl
    refine ⟨⟨sound.plain, ⟨?_, List.nodup_nil, List.forall_mem_nil _⟩, sound.plainWithin, fun account _ => nothing account⟩,
      rfl, rfl, ?_⟩
    · exact fun _ _ _ inside => absurd inside (Nat.not_lt_zero _)
    · unfold Packing.offers inLine
      simp only [nothing, Multiset.coe_nil, Finset.sum_const_zero, add_zero]
      exact Multiset.le_add_right _ _
  · exact ⟨sound, rfl, rfl, le_rfl⟩

end Packing

end

/-! ## The loop -/

section

variable {worker : Worker ValidatorSet} {chain : Chain T ReaderError TipError}
  {predicateContext : Option (PredicateContext ValidatorSet)} {measures : Measures T TxError} {accounts : Finset Address}
  {packing : Packing S T}

/-- The most that the pool accepts. -/
def txMaxSize : Nat := 4 * (32 * 1024)

/-- What the transactions of a block measure, those with blobs apart. -/
def plainSize (measures : Measures T TxError) (txs : List T) : Nat :=
  ((txs.filter (Transaction.type · ≠ blobTxType)).map fun tx => (measures.size tx).toNat).sum

/-- The size on record is that of the transactions, and within the target. -/
structure Packing.Sized (measures : Measures T TxError) (packing : Packing S T) : Prop where
  size : packing.size.toNat = plainSize measures packing.env.txs
  bounded : packing.size.toNat ≤ targetTxsSize.toNat

/-- A filling that has ended, as the execution of some transactions one after the other. -/
def Tries (worker : Worker ValidatorSet) (chain : Chain T ReaderError TipError)
    (predicateContext : Option (PredicateContext ValidatorSet)) (measures : Measures T TxError) (env : Environment S T)
    (tried : List T) : Except (WorkError TxError ReaderError) (Option (Packing S T)) → Prop
  | .error cause => worker.commitTransactions chain predicateContext tried env = .error cause
  | .ok none => False
  | .ok (some last) =>
      worker.commitTransactions chain predicateContext tried env = .ok last.env ∧ Packing.Sized measures last

theorem Tries.of_same {env after : Environment S T} {tried rest : List T}
    {result : Except (WorkError TxError ReaderError) (Option (Packing S T))}
    (tries : Tries worker chain predicateContext measures after rest result)
    (same : worker.commitTransactions chain predicateContext tried env =
      worker.commitTransactions chain predicateContext rest after) :
    Tries worker chain predicateContext measures env tried result := by
  match result with
  | .error cause => exact same.trans tries
  | .ok none => exact tries
  | .ok (some last) => exact ⟨same.trans tries.1, tries.2⟩

/-- A selection from the pool: the block is what its transactions make of the environment, and keeps to the target size. -/
def Selects (worker : Worker ValidatorSet) (chain : Chain T ReaderError TipError)
    (predicateContext : Option (PredicateContext ValidatorSet)) (measures : Measures T TxError) (env : Environment S T)
    (pending : Pending T) : Except (WorkError TxError ReaderError) (Option (Environment S T)) → Prop
  | .error cause => worker.commitTransactions chain predicateContext pending.transactions env = .error cause
  | .ok none => False
  | .ok (some final) => worker.commitTransactions chain predicateContext pending.transactions env = .ok final ∧
      plainSize measures final.txs ≤ targetTxsSize.toNat

/-- Every transaction on offer is one that the pool accepts by its size. -/
def Small (measures : Measures T TxError) (offers : Multiset (LazyTransaction T)) : Prop :=
  ∀ ltx ∈ offers, ∀ tx, ltx.resolve = some tx → (measures.size tx).toNat ≤ txMaxSize

omit [Interpreter S TxError] [Transaction T TxError] in
theorem fitting_eq_some {ltx : LazyTransaction T} {tx : T} (fits : packing.fitting measures ltx = some tx) :
    ltx.resolve = some tx ∧ packing.env.gasPool ≥ ltx.gas ∧ ¬ targetTxsSize < packing.size + measures.size tx := by
  unfold Packing.fitting at fits
  simp only at fits
  split at fits
  · cases fits
  · next room =>
    split at fits
    · cases fits
    · split at fits
      · cases fits
      · next resolved =>
        split at fits
        · cases fits
        · next short =>
          split at fits
          · cases fits
          · cases fits
            exact ⟨resolved, UInt64.not_lt.mp room, short⟩

variable [LawfulTransaction T]

theorem type_included (tx : T) : Transaction.type (included tx) = Transaction.type tx := by
  unfold included
  split
  · exact LawfulTransaction.type_withoutBlobTxSidecar tx
  · rfl

theorem plainSize_append (txs : List T) (tx : T) : plainSize measures (txs ++ [included tx]) =
    plainSize measures txs + if Transaction.type tx = blobTxType then 0 else (measures.size tx).toNat := by
  unfold plainSize
  rw [List.filter_append, List.map_append, List.sum_append, List.filter_singleton, type_included]
  by_cases blob : Transaction.type tx = blobTxType
  · simp [blob]
  · simp [blob, included]

omit [Interpreter S TxError] in
/-- A transaction that fits keeps the size within the target. -/
theorem Packing.Sized.attempt (sized : Packing.Sized measures packing) {ltx : LazyTransaction T} {tx : T}
    (fits : packing.fitting measures ltx = some tx) (small : (measures.size tx).toNat ≤ txMaxSize) {after : Packing S T}
    (grown : (after.env.txs = packing.env.txs ∧ after.size = packing.size) ∨ (after.env.txs = packing.env.txs ++ [included tx] ∧
      after.size = if Transaction.type tx = blobTxType then packing.size else packing.size + measures.size tx)) :
    Packing.Sized measures after := by
  rcases grown with ⟨txs, size⟩ | ⟨txs, size⟩
  · exact ⟨by rw [size, txs]; exact sized.size, by rw [size]; exact sized.bounded⟩
  · by_cases blob : Transaction.type tx = blobTxType
    · rw [if_pos blob] at size
      refine ⟨?_, by rw [size]; exact sized.bounded⟩
      rw [size, txs, plainSize_append, if_pos blob, Nat.add_zero]
      exact sized.size
    · rw [if_neg blob] at size
      have within := (fitting_eq_some fits).2.2
      have bounded := sized.bounded
      have sum : (packing.size + measures.size tx).toNat = packing.size.toNat + (measures.size tx).toNat := by
        rw [UInt64.toNat_add]
        refine Nat.mod_eq_of_lt ?_
        have target : targetTxsSize.toNat = 1843200 := rfl
        unfold txMaxSize at small
        omega
      refine ⟨?_, ?_⟩
      · rw [size, txs, plainSize_append, if_neg blob, sum, sized.size]
      · rw [size]
        exact UInt64.le_iff_toNat_le.mp (UInt64.not_lt.mp within)

variable (worker chain predicateContext)

/-- A round takes one head out of what is offered, and tries it or passes over it. -/
theorem round_cases (sound : packing.Sound accounts) (sized : Packing.Sized measures packing)
    (small : Small measures (packing.offers accounts)) :
    match worker.round chain predicateContext measures packing with
    | .error cause => ∃ ltx ∈ packing.offers accounts, ∃ tx, ltx.resolve = some tx ∧
        ∀ rest, worker.commitTransactions chain predicateContext (tx :: rest) packing.env = .error cause
    | .ok none => True
    | .ok (some after) => after.Sound accounts ∧ Packing.Sized measures after ∧
        ∃ ltx, ltx ::ₘ after.offers accounts ≤ packing.offers accounts ∧ (after.env = packing.env ∨
          ∃ tx, ltx.resolve = some tx ∧ ∀ rest, worker.commitTransactions chain predicateContext (tx :: rest) packing.env =
            worker.commitTransactions chain predicateContext rest after.env) := by
  obtain ⟨cleared, sameEnv, sameSize, fewer⟩ := sound.clearBlobs
  have sized' : Packing.Sized measures packing.clearBlobs :=
    ⟨by rw [sameEnv, sameSize]; exact sized.size, by rw [sameSize]; exact sized.bounded⟩
  unfold Worker.round
  by_cases spent : packing.env.gasPool < txGas
  · rw [if_pos spent]
    trivial
  · rw [if_neg spent]
    simp only
    cases next : packing.clearBlobs.next with
    | none => trivial
    | some front =>
      obtain ⟨source, ltx⟩ := front
      simp only
      cases fits : packing.clearBlobs.fitting measures ltx with
      | none =>
        obtain ⟨after, moved, sound', env, size, taken⟩ := cleared.moved next packing.clearBlobs.env packing.clearBlobs.size .pop
        simp only [moved, Checked.need_some]
        refine ⟨sound', ⟨by rw [size, env]; exact sized'.size, by rw [size]; exact sized'.bounded⟩, ltx, taken.trans fewer, ?_⟩
        exact .inl (env.trans sameEnv)
      | some tx =>
        have tried := attempt_cases worker chain predicateContext measures packing.env packing.size tx
        have resolved := (fitting_eq_some fits).1
        dsimp only
        rw [sameEnv, sameSize]
        cases made : worker.attempt chain predicateContext measures packing.env packing.size tx with
        | error cause =>
          rw [made] at tried
          obtain ⟨_, _, _, _, _, taken⟩ := cleared.moved next packing.env packing.size .pop
          exact ⟨ltx, Multiset.mem_of_le (taken.trans fewer) (Multiset.mem_cons_self ltx _), tx, resolved, tried⟩
        | ok result =>
          obtain ⟨env, size, move⟩ := result
          rw [made] at tried
          obtain ⟨after, moved, sound', env', size', taken⟩ := cleared.moved next env size move
          have inside := Multiset.mem_of_le (taken.trans fewer) (Multiset.mem_cons_self ltx _)
          dsimp only [bind, Except.bind]
          rw [moved]
          dsimp only [Checked.need_some, pure, Except.pure]
          refine ⟨sound', sized'.attempt fits (small ltx inside tx resolved) ?_, ltx, taken.trans fewer, .inr ⟨tx, resolved, ?_⟩⟩
          · rw [env', size', sameEnv, sameSize]
            exact tried.2
          · rw [env']
            exact tried.1

/-- The loop ends, and what it does is to try some of what is offered, each once. -/
theorem pack_tries (sound : packing.Sound accounts) (sized : Packing.Sized measures packing)
    (small : Small measures (packing.offers accounts)) {rounds : Nat} (enough : (packing.offers accounts).card < rounds) :
    ∃ tried : List T, (tried.map some : Multiset (Option T)) ≤ (packing.offers accounts).map LazyTransaction.resolve ∧
      Tries worker chain predicateContext measures packing.env tried
        (worker.pack chain predicateContext measures rounds packing) := by
  induction rounds generalizing packing with
  | zero => exact absurd enough (Nat.not_lt_zero _)
  | succ rounds ih =>
    have went := round_cases worker chain predicateContext sound sized small
    unfold Worker.pack
    cases made : worker.round chain predicateContext measures packing with
    | error cause =>
      rw [made] at went
      obtain ⟨ltx, inside, tx, resolved, stopped⟩ := went
      refine ⟨[tx], ?_, stopped []⟩
      rw [List.map_singleton, Multiset.coe_singleton, Multiset.singleton_le, ← resolved]
      exact Multiset.mem_map_of_mem _ inside
    | ok result =>
      rw [made] at went
      cases result with
      | none => exact ⟨[], Multiset.zero_le _, rfl, sized⟩
      | some after =>
        obtain ⟨sound', sized', ltx, taken, moved⟩ := went
        have count := Multiset.card_le_card taken
        rw [Multiset.card_cons] at count
        obtain ⟨tried, among, result⟩ := ih sound' sized'
          (fun other inside => small other (Multiset.mem_of_le ((Multiset.le_cons_self _ ltx).trans taken) inside)) (by omega)
        have below := (Multiset.map_cons LazyTransaction.resolve ltx (after.offers accounts)).symm.le.trans (Multiset.map_le_map taken)
        rcases moved with same | ⟨tx, resolved, first⟩
        · rw [same] at result
          exact ⟨tried, among.trans ((Multiset.le_cons_self _ _).trans below), result⟩
        · refine ⟨tx :: tried, ?_, ?_⟩
          · rw [List.map_cons, ← Multiset.cons_coe, ← resolved]
            exact (Multiset.cons_le_cons _ among).trans below
          · exact result.of_same (first tried)

/-! ## From the pool -/

/-- The transactions of some accounts. -/
def every (accounts : Finset Address) (pending : Map Address (List (LazyTransaction T))) : Multiset (LazyTransaction T) :=
  ∑ account ∈ accounts, ((pending.lookup account).getD [] : Multiset (LazyTransaction T))

omit [Interpreter S TxError] [Transaction T TxError] [LawfulTransaction T] in
theorem every_le_listed (accounts : Finset Address) (pending : Map Address (List (LazyTransaction T))) :
    every accounts pending ≤ (Worker.listed pending : Multiset (LazyTransaction T)) := by
  have inside : every accounts pending ≤ every pending.keys.toFinset pending := by
    refine Finset.sum_le_sum_of_ne_zero fun account _ some_there => ?_
    rw [List.mem_toFinset]
    by_contra absent
    rw [AList.lookup_eq_none.mpr (mt AList.mem_keys.mp absent)] at some_there
    exact some_there rfl
  have all : every pending.keys.toFinset pending = (Worker.listed pending : Multiset (LazyTransaction T)) := by
    have each : pending.keys.map (fun account => ((pending.lookup account).getD [] : Multiset (LazyTransaction T))) =
        pending.entries.map fun entry => (entry.2 : Multiset (LazyTransaction T)) := by
      unfold AList.keys List.keys
      rw [List.map_map]
      refine List.map_congr_left fun entry member => ?_
      show (((pending.lookup entry.1).getD [] : List (LazyTransaction T)) : Multiset (LazyTransaction T)) = _
      rw [AList.mem_lookup_iff.mpr member]
      rfl
    unfold every Worker.listed
    refine (List.sum_toFinset _ pending.nodupKeys).trans ?_
    refine (congrArg List.sum each).trans ?_
    induction pending.entries with
    | nil => rfl
    | cons entry rest ih => rw [List.map_cons, List.sum_cons, List.flatMap_cons, ← Multiset.coe_add, ih]
  exact inside.trans all.le

/-- Two parts of the pending transactions: each account is in one of them. -/
structure Split (pending : Map Address (List (LazyTransaction T)))
    (parts : Map Address (List (LazyTransaction T)) × Map Address (List (LazyTransaction T))) : Prop where
  all : ∀ account, (parts.1.lookup account).getD [] ++ (parts.2.lookup account).getD [] = (pending.lookup account).getD []
  apart : ∀ account, parts.1.lookup account = none ∨ parts.2.lookup account = none
  first : ∀ account, parts.1.lookup account ≠ some []
  second : (∀ account, pending.lookup account ≠ some []) → ∀ account, parts.2.lookup account ≠ some []

omit [Interpreter S TxError] [Transaction T TxError] [LawfulTransaction T] in
theorem Split.moveLocal {pending : Map Address (List (LazyTransaction T))}
    {parts : Map Address (List (LazyTransaction T)) × Map Address (List (LazyTransaction T))} (split : Split pending parts)
    (account : Address) : Split pending (Worker.moveLocal parts account) := by
  unfold Worker.moveLocal
  split
  · next tx later found =>
    have absent : parts.1.lookup account = none := (split.apart account).resolve_right (by rw [found]; exact Option.some_ne_none _)
    refine ⟨fun other => ?_, fun other => ?_, fun other => ?_, fun filled other => ?_⟩
    · by_cases here : other = account
      · subst here
        have all := split.all other
        rw [absent, found] at all
        rw [AList.lookup_insert, AList.lookup_erase]
        simpa using all
      · rw [AList.lookup_insert_ne here, AList.lookup_erase_ne here]
        exact split.all other
    · by_cases here : other = account
      · subst here
        exact .inr (AList.lookup_erase _ _)
      · rw [AList.lookup_insert_ne here, AList.lookup_erase_ne here]
        exact split.apart other
    · by_cases here : other = account
      · subst here
        rw [AList.lookup_insert]
        simp
      · rw [AList.lookup_insert_ne here]
        exact split.first other
    · by_cases here : other = account
      · subst here
        rw [AList.lookup_erase]
        simp
      · rw [AList.lookup_erase_ne here]
        exact split.second filled other
  · exact split

omit [Interpreter S TxError] [Transaction T TxError] [LawfulTransaction T] in
theorem splitLocals_split (locals : List Address) (pending : Map Address (List (LazyTransaction T))) :
    Split pending (Worker.splitLocals locals pending) := by
  unfold Worker.splitLocals
  have start : Split pending (∅, pending) := ⟨fun _ => rfl, fun _ => .inl rfl, fun _ => by simp, fun filled => filled⟩
  induction locals using List.reverseRecOn with
  | nil => exact start
  | append_singleton locals account ih =>
    rw [List.foldl_append]
    exact ih.moveLocal account

omit [Interpreter S TxError] [Transaction T TxError] [LawfulTransaction T] in
theorem Split.every {pending : Map Address (List (LazyTransaction T))}
    {parts : Map Address (List (LazyTransaction T)) × Map Address (List (LazyTransaction T))} (split : Split pending parts)
    (accounts : Finset Address) :
    Execution.every accounts parts.1 + Execution.every accounts parts.2 = Execution.every accounts pending := by
  unfold Execution.every
  rw [← Finset.sum_add_distrib]
  exact Finset.sum_congr rfl fun account _ => by rw [Multiset.coe_add, split.all]

/-- A fresh set offers no more than the transactions of its accounts. -/
theorem new_inLine {pending : Map Address (List (LazyTransaction T))} (filled : ∀ account, pending.lookup account ≠ some [])
    {accounts : Finset Address} (within : ∀ account ∉ accounts, (pending.lookup account).getD [] = []) (baseFee : Option Nat) :
    ∃ t, TransactionsByPriceAndNonce.new pending baseFee = some t ∧ t.Sound ∧ Within accounts t ∧
      inLine accounts t ≤ every accounts pending := by
  obtain ⟨t, made, sound, -, waiting⟩ := TransactionsByPriceAndNonce.new_sound baseFee filled
  refine ⟨t, made, sound, fun account outside => ?_, Finset.sum_le_sum fun account _ => ?_⟩
  · rw [waiting]
    simp only [within account outside]
    rfl
  · rw [waiting]
    exact Multiset.coe_le.mpr (List.takeWhile_sublist _).subperm

/-- The loop on fresh sets. -/
theorem commitOffers_tries (env : Environment S T) (size : UInt64) {plain blobs : Map Address (List (LazyTransaction T))}
    (plainFilled : ∀ account, plain.lookup account ≠ some []) (blobsFilled : ∀ account, blobs.lookup account ≠ some [])
    (plainWithin : ∀ account ∉ accounts, (plain.lookup account).getD [] = [])
    (blobsWithin : ∀ account ∉ accounts, (blobs.lookup account).getD [] = [])
    (small : Small measures (every accounts plain + every accounts blobs))
    (exact : size.toNat = plainSize measures env.txs) (bounded : size.toNat ≤ targetTxsSize.toNat) :
    ∃ tried : List T,
      (tried.map some : Multiset (Option T)) ≤ (every accounts plain + every accounts blobs).map LazyTransaction.resolve ∧
      Tries worker chain predicateContext measures env tried
        (worker.commitOffers chain predicateContext measures plain blobs env size) := by
  obtain ⟨plainTxs, plainMade, plainSound, plainIn, plainLess⟩ :=
    new_inLine plainFilled plainWithin (env.header.baseFee.map Int.toNat)
  obtain ⟨blobTxs, blobsMade, blobsSound, blobsIn, blobsLess⟩ :=
    new_inLine blobsFilled blobsWithin (env.header.baseFee.map Int.toNat)
  have less := add_le_add plainLess blobsLess
  have count := Multiset.card_le_card (less.trans (add_le_add (every_le_listed accounts plain) (every_le_listed accounts blobs)))
  rw [Multiset.card_add, Multiset.card_add, Multiset.coe_card, Multiset.coe_card] at count
  unfold Worker.commitOffers
  simp only [plainMade, blobsMade, Checked.need_some]
  have start : Packing.Sound accounts ({ plain := plainTxs, blobs := blobTxs, env, size } : Packing S T) :=
    ⟨plainSound, blobsSound, plainIn, blobsIn⟩
  have enough : (Packing.offers accounts ({ plain := plainTxs, blobs := blobTxs, env, size } : Packing S T)).card <
      (Worker.listed plain).length + (Worker.listed blobs).length + 1 := by
    rw [Packing.offers, Multiset.card_add]
    exact Nat.lt_succ_of_le count
  obtain ⟨tried, among, result⟩ := pack_tries worker chain predicateContext start ⟨exact, bounded⟩
    (fun ltx inside => small ltx (Multiset.mem_of_le less inside)) enough
  exact ⟨tried, among.trans (Multiset.map_le_map less), result⟩

omit [LawfulTransaction T] in
theorem commitTransactions_append (first second : List T) (env : Environment S T) :
    worker.commitTransactions chain predicateContext (first ++ second) env =
      worker.commitTransactions chain predicateContext first env >>= worker.commitTransactions chain predicateContext second := by
  induction first generalizing env with
  | nil => rfl
  | cons tx first ih =>
    rw [List.cons_append, Worker.commitTransactions, Worker.commitTransactions]
    split
    · exact ih _
    · rfl
    · exact ih _

omit [Interpreter S TxError] [LawfulTransaction T] in
/-- What is tried of distinct transactions is distinct. -/
theorem nodup_of_among {tried : List T} {offers : Multiset (LazyTransaction T)}
    (among : (tried.map some : Multiset (Option T)) ≤ offers.map LazyTransaction.resolve)
    (distinct : (offers.filterMap fun ltx => ltx.resolve.map Transaction.hash).Nodup) : (tried.map Transaction.hash).Nodup := by
  have mapped := Multiset.filterMap_le_filterMap (fun tx : Option T => tx.map Transaction.hash) among
  have hashes : (tried.map some).filterMap (fun tx : Option T => tx.map Transaction.hash) = tried.map Transaction.hash := by
    rw [List.filterMap_map]
    exact congrFun (List.filterMap_eq_map (f := Transaction.hash)) tried
  rw [Multiset.filterMap_coe, hashes, Multiset.filterMap_map] at mapped
  exact Multiset.coe_nodup.mp (Multiset.nodup_of_le mapped distinct)

end

end

/-- Two transactions of one account, and a cheaper one of another. -/
def samplePlain : Map Address (List (LazyTransaction Transfer)) :=
  let first : Map Address (List (LazyTransaction Transfer)) :=
    AList.insert 5 [⟨some ⟨11, 0, 5, 6, 40, 25000000000⟩, 0, 30000000000, 25000000000, 21000, 0⟩,
      ⟨some ⟨12, 1, 5, 6, 50, 26000000000⟩, 1, 30000000000, 26000000000, 21000, 0⟩] ∅
  first.insert 9 [⟨some ⟨13, 0, 9, 6, 1, 1000⟩, 2, 26000000000, 1000, 21000, 0⟩]

def sampleMeasures : Measures Transfer TransferError where
  size _ := 110
  isProtected _ := true
  isEIP155 _ := true
  isNonceTooLow _ := false

def sampleEnvironment : Environment Machine Transfer := { state := sampleState, gasPool := 8000000, header := sampleParent }

end Snowside.Execution
