import Snowside.TxPool.Priced

/-! The pool of the transactions that are not in the chain: pending ones, which can be executed, and
queued ones. What is done under the lock of the pool is one step; `none` is a panic.
-/

set_option autoImplicit false

namespace Snowside.TxPool

open Evm (Address)
open Maps (Map)
open Precompile (Hash)

/-! ## What the pool is made of -/

/-- The settings, after `sanitize`. -/
structure Config where
  priceBump : Nat
  accountSlots : Nat
  globalSlots : Nat
  accountQueue : Nat
  globalQueue : Nat
  lifetime : Int
  accountSlots_pos : 0 < accountSlots := by decide

structure Head where
  hash : Hash
  parentHash : Hash
  number : Nat
  time : Nat
  gasLimit : Nat
  root : Hash

structure Block where
  hash : Hash
  parentHash : Hash
  number : Nat
  transactions : List Transaction

/-- A state of the chain, with the roles of the allow list of transactions. -/
structure ChainState where
  nonce : Address → Nat
  balance : Address → Nat
  isEnabled : Address → Bool

/-- What the pool asks of the chain during a step. -/
structure ChainView where
  currentBlock : Head
  getBlock : Hash → Nat → Option Block
  stateAt : Hash → Option ChainState
  /-- The minimum base fee of the fees at a head. -/
  minBaseFeeAt : Head → Option Nat
  /-- `EstimateNextBaseFee` with the fees at a head. -/
  estimateNextBaseFee : Head → Option (Option Nat)
  isLondon : Nat → Bool
  txAllowListEnabled : Head → Bool
  feeManagerEnabled : Nat → Bool

inductive PoolError where
  | alreadyKnown
  | invalidSender
  | feeCapBelowMinimum (address : Address) (gasFeeCap minimum : Nat)
  | nonceTooLow (next nonce : Nat)
  | insufficientFunds (balance cost overshot : Nat)
  | insufficientForReplacement (balance queued : Nat) (bumped : Int) (overshot : Int)
  | insufficientForMore (balance queued cost overshot : Nat)
  | senderAddressNotAllowListed (address : Address)
  | alreadyReserved
  | notReserved
  | notOwned
  | underpriced
  | overflow
  | futureReplacePending
  | replaceUnderpriced
  deriving DecidableEq, Repr

/-- `reserver`: one of the subpools reserves or releases an account. To reserve one twice does nothing. -/
def reserver (reservations : Map Address Nat) (subpool : Nat) (addr : Address) (reserve : Bool) :
    Except PoolError (Map Address Nat) :=
  match reservations.lookup addr with
  | some owner =>
      if reserve then if owner = subpool then .ok reservations else .error .alreadyReserved
      else if owner = subpool then .ok (reservations.erase addr) else .error .notOwned
  | none => if reserve then .ok (reservations.insert addr subpool) else .error .notReserved

/-- The orders of the maps and the times of the accounts during a step. -/
structure Moment where
  ranges : Ranges
  now : Address → Int

structure Pool where
  config : Config
  gasTip : Nat
  minimumFee : Option Nat
  head : Head
  state : ChainState
  pendingNonces : Noncer
  locals : List Address
  /-- The owners of the accounts among the subpools. -/
  reservations : Map Address Nat
  /-- The name of this pool among the subpools. -/
  self : Nat
  pending : Map Address TxList
  queue : Map Address TxList
  beats : Map Address Int
  all : Lookup
  priced : PricedList
  changesSinceReorg : Nat

namespace Pool

/-- `New` and `Init`. -/
def init (config : Config) (locals : List Address) (gasTip : Nat) (head : Head) (state : ChainState)
    (reservations : Map Address Nat) (self : Nat) : Pool where
  config := config
  gasTip := gasTip
  minimumFee := none
  head := head
  state := state
  pendingNonces := newNoncer state.nonce
  locals := locals
  reservations := reservations
  self := self
  pending := ∅
  queue := ∅
  beats := ∅
  all := newLookup
  priced := newPricedList
  changesSinceReorg := 0

/-- The list of an account has changed in place. -/
def setPending (pool : Pool) (addr : Address) (list : TxList) : Pool := { pool with pending := pool.pending.insert addr list }

def setQueue (pool : Pool) (addr : Address) (list : TxList) : Pool := { pool with queue := pool.queue.insert addr list }

def setNonces (pool : Pool) (pendingNonces : Noncer) : Pool := { pool with pendingNonces }

/-! ## Parts of the steps -/

variable (moment : Moment)

def reserve (pool : Pool) (addr : Address) : Except PoolError Pool :=
  (reserver pool.reservations pool.self addr true).map fun reservations => { pool with reservations }

/-- The errors are only logged. -/
def release (pool : Pool) (addr : Address) : Pool :=
  match reserver pool.reservations pool.self addr false with
  | .ok reservations => { pool with reservations }
  | .error _ => pool

def hasLists (pool : Pool) (addr : Address) : Bool := (pool.pending.lookup addr).isSome || (pool.queue.lookup addr).isSome

def releaseEmpty (pool : Pool) (addr : Address) : Pool := if pool.hasLists addr then pool else pool.release addr

/-- `priced.Removed`. -/
def pricedRemoved (pool : Pool) (count : Nat) : Pool :=
  { pool with priced := pool.priced.removed moment.ranges pool.all count }

/-- `all.Remove` of each. -/
def forget (pool : Pool) (txs : List Transaction) : Pool :=
  { pool with all := txs.foldl (fun all tx => all.remove tx.hash) pool.all }

/-- `all.Add` and `priced.Put`. -/
def know (pool : Pool) (tx : Transaction) (isLocal : Bool) : Pool :=
  { pool with all := pool.all.add tx isLocal, priced := pool.priced.put tx isLocal }

def isLocal (pool : Pool) (addr : Address) : Bool := pool.locals.contains addr

/-- `containsTx`: no transaction without a sender is local. -/
def isLocalTx (pool : Pool) (tx : Transaction) : Bool := tx.sender.any pool.isLocal

def replacesOld (pool : Pool) : Option Transaction → Pool
  | some old => (pool.forget [old]).pricedRemoved moment 1
  | none => pool

def enqueueTx (pool : Pool) (tx : Transaction) (isLocal addAll : Bool) : Option (Except PoolError Bool × Pool) := do
  let addr := tx.from_
  let list := (pool.queue.lookup addr).getD (newList false)
  let (inserted, old, list) ← list.add tx pool.config.priceBump
  let pool := pool.setQueue addr list
  if ! inserted then return (.error .replaceUnderpriced, pool)
  let pool := pool.replacesOld moment old
  let pool := if addAll then pool.know tx isLocal else pool
  let pool := if pool.beats.lookup addr = none then { pool with beats := pool.beats.insert addr (moment.now addr) } else pool
  return (.ok old.isSome, pool)

/-- Transactions that leave the pending list of an account go back to the queue. -/
def requeue (txs : List Transaction) (pool : Pool) : Option Pool :=
  txs.foldlM (fun pool tx => (pool.enqueueTx moment tx false false).map Prod.snd) pool

def promoteTx (addr : Address) (tx : Transaction) (pool : Pool) : Option (Bool × Pool) := do
  let list := (pool.pending.lookup addr).getD (newList true)
  let (inserted, old, list) ← list.add tx pool.config.priceBump
  let pool := pool.setPending addr list
  if ! inserted then return (false, (pool.forget [tx]).pricedRemoved moment 1)
  let pool := pool.replacesOld moment old
  return (true, { pool with
    pendingNonces := pool.pendingNonces.set addr ((tx.nonce + 1) % 2 ^ 64)
    beats := pool.beats.insert addr (moment.now addr) })

/-- The list, or no entry if it has become empty. -/
def shelve (lists : Map Address TxList) (addr : Address) (list : TxList) : Map Address TxList :=
  if list.isEmpty then lists.erase addr else lists.insert addr list

def shelvePending (pool : Pool) (addr : Address) (list : TxList) : Pool :=
  { pool with pending := shelve pool.pending addr list }

/-- The queued part of `removeTx`. -/
def removeQueued (addr : Address) (tx : Transaction) (pool : Pool) : Option Pool :=
  match pool.queue.lookup addr with
  | none => some pool
  | some future => do
      let (_, _, future) ← future.remove moment.ranges tx
      return { pool with
        queue := shelve pool.queue addr future
        beats := if future.isEmpty then pool.beats.erase addr else pool.beats }

/-- A transaction leaves the list that it is in, with the number of those that leave the pending list. -/
def unlist (addr : Address) (tx : Transaction) (pool : Pool) : Option (Nat × Pool) :=
  match pool.pending.lookup addr with
  | none => do
      let pool ← pool.removeQueued moment addr tx
      return (0, pool)
  | some pending => do
      let (removed, invalids, pending) ← pending.remove moment.ranges tx
      if removed then
        let pool ← (pool.shelvePending addr pending).requeue moment invalids
        return (1 + invalids.length, pool.setNonces (pool.pendingNonces.setIfLower addr tx.nonce))
      else
        let pool ← pool.removeQueued moment addr tx
        return (0, pool)

def removeTx (hash : Hash) (outofbound unreserve : Bool) (pool : Pool) : Option (Nat × Pool) :=
  match pool.all.get hash with
  | none => some (0, pool)
  | some tx => do
      let pool := pool.forget [tx]
      let pool := if outofbound then pool.pricedRemoved moment 1 else pool
      let (count, pool) ← pool.unlist moment tx.from_ tx
      return (count, if unreserve then pool.releaseEmpty tx.from_ else pool)

/-- `removeTx` of each. -/
def removeTxs (outofbound unreserve : Bool) (txs : List Transaction) (pool : Pool) : Option Pool :=
  txs.foldlM (fun pool tx => (pool.removeTx moment tx.hash outofbound unreserve).map Prod.snd) pool

/-! ## Adding -/

/-- `ValidateTransactionWithState` with the pool's options: nonce gaps and any number of
transactions of an account are permitted. -/
def validateTx (chain : ChainView) (pool : Pool) (tx : Transaction) : Except PoolError Unit :=
  match tx.sender with
  | none => .error .invalidSender
  | some addr => do
      if pool.minimumFee.any (tx.gasFeeCap < ·) then throw (.feeCapBelowMinimum addr tx.gasFeeCap (pool.minimumFee.getD 0))
      if tx.nonce < pool.state.nonce addr then throw (.nonceTooLow (pool.state.nonce addr) tx.nonce)
      let balance := pool.state.balance addr
      if balance < tx.cost then throw (.insufficientFunds balance tx.cost (tx.cost - balance))
      let list := pool.pending.lookup addr
      let spent := (list.map TxList.totalcost).getD 0
      match list.bind (·.txs.get tx.nonce) with
      | some prev =>
          let bump := (tx.cost : Int) - prev.cost
          if (balance : Int) < spent + bump then throw (.insufficientForReplacement balance spent bump (spent + bump - balance))
      | none =>
          if balance < spent + tx.cost then throw (.insufficientForMore balance spent tx.cost (spent + tx.cost - balance))
      if chain.txAllowListEnabled pool.head ∧ ¬ pool.state.isEnabled addr then throw (.senderAddressNotAllowListed addr)

/-- Whether the queue has all nonces from one on. -/
def fillsGap (queue : TxList) : Nat → Nat → Bool
  | _, 0 => true
  | nonce, count + 1 => queue.contains nonce && fillsGap queue (nonce + 1) count

def isGapped (pool : Pool) (addr : Address) (tx : Transaction) : Bool × Pool :=
  let (next, pendingNonces) := pool.pendingNonces.get addr
  let pool := pool.setNonces pendingNonces
  if tx.nonce ≤ next then (false, pool)
  else match pool.queue.lookup addr with
    | none => (true, pool)
    | some queue => (! fillsGap queue next (tx.nonce - next), pool)

def isPending (pool : Pool) (tx : Transaction) : Bool := (pool.pending.lookup tx.from_).any (·.contains tx.nonce)

/-- A full pool discards underpriced transactions for the new one, or refuses it. -/
def makeRoom (addr : Address) (tx : Transaction) (isLocal : Bool) (pool : Pool) : Option (Except PoolError Unit × Pool) :=
  let limit := pool.config.globalSlots + pool.config.globalQueue
  if pool.all.slots + numSlots tx ≤ limit then some (.ok (), pool)
  else
    let (underpriced, priced) := if isLocal then (false, pool.priced) else pool.priced.underpriced pool.all tx
    let pool := { pool with priced }
    if underpriced then some (.error .underpriced, pool)
    else if pool.config.globalSlots / 4 < pool.changesSinceReorg then some (.error .overflow, pool)
    else
      let (drop, success, priced) := pool.priced.discard pool.all (pool.all.slots - limit + numSlots tx) isLocal
      let pool := { pool with priced }
      if ! isLocal && ! success then some (.error .overflow, pool)
      else
        let (gapped, pool) := if isLocal then (false, pool) else pool.isGapped addr tx
        if gapped && drop.any pool.isPending then
          some (.error .futureReplacePending, { pool with priced := drop.foldl (fun priced tx => priced.put tx false) pool.priced })
        else do
          -- The sender of the transaction keeps its reservation.
          let pool ← drop.foldlM (fun pool dropped => do
            let (count, pool) ← pool.removeTx moment dropped.hash false (dropped.from_ ≠ addr)
            return { pool with changesSinceReorg := pool.changesSinceReorg + count }) pool
          return (.ok (), pool)

/-- A transaction whose nonce is pending replaces the pending one. -/
def replacePending (pool : Pool) (list : TxList) (tx : Transaction) (isLocal : Bool) : Option (Except PoolError Bool × Pool) := do
  let addr := tx.from_
  let (inserted, old, list) ← list.add tx pool.config.priceBump
  let pool := pool.setPending addr list
  if ! inserted then return (.error .replaceUnderpriced, pool)
  let pool := (pool.replacesOld moment old).know tx isLocal
  return (.ok old.isSome, { pool with beats := pool.beats.insert addr (moment.now addr) })

/-- A sender becomes local, and its remote transactions with it. -/
def makeLocal (addr : Address) (pool : Pool) : Pool :=
  let pool := { pool with locals := addr :: pool.locals }
  let (migrated, all) := pool.all.remoteToLocals moment.ranges pool.isLocalTx
  { pool with all }.pricedRemoved moment migrated

/-- `add` once the account is reserved. -/
def addReserved (pool : Pool) (tx : Transaction) (local_ isLocal : Bool) : Option (Except PoolError Bool × Pool) := do
  let addr := tx.from_
  let (room, pool) ← pool.makeRoom moment addr tx isLocal
  match room with
  | .error error => return (.error error, pool)
  | .ok () =>
      match (pool.pending.lookup addr).filter (·.contains tx.nonce) with
      | some list => pool.replacePending moment list tx isLocal
      | none => do
          let (replaced, pool) ← pool.enqueueTx moment tx isLocal true
          match replaced with
          | .error error => return (.error error, pool)
          | .ok replaced => return (.ok replaced, if local_ && ! pool.isLocal addr then pool.makeLocal moment addr else pool)

def add (chain : ChainView) (pool : Pool) (tx : Transaction) (local_ : Bool) : Option (Except PoolError Bool × Pool) :=
  if (pool.all.get tx.hash).isSome then some (.error .alreadyKnown, pool)
  else
    let isLocal := local_ || pool.isLocalTx tx
    match pool.validateTx chain tx with
    | .error error => some (.error error, pool)
    | .ok () =>
        if pool.hasLists tx.from_ then pool.addReserved moment tx local_ isLocal
        else match pool.reserve tx.from_ with
          | .error error => some (.error error, pool)
          | .ok pool => do
              let (replaced, pool) ← pool.addReserved moment tx local_ isLocal
              match replaced with
              -- The deferred release of a refused transaction's account.
              | .error error => return (.error error, pool.release tx.from_)
              | .ok replaced => return (.ok replaced, pool)

/-- The senders of the transactions that did not replace one are to be promoted. -/
def addTxsLocked (chain : ChainView) (local_ : Bool) : List Transaction → Pool → Option (List (Except PoolError Bool) × Pool)
  | [], pool => some ([], pool)
  | tx :: rest, pool => do
      let (replaced, pool) ← pool.add moment chain tx local_
      let (others, pool) ← addTxsLocked chain local_ rest pool
      return (replaced :: others, pool)

end Pool

end Snowside.TxPool
