import Snowside.TxPool.Pool

/-! What the pool does in the background: the reset to a new head, promotion and demotion, its limits, and
the steps that it is made of.
-/

set_option autoImplicit false

namespace Snowside.TxPool

open Evm (Address)
open Maps (Map)
open Precompile (Hash)

namespace Pool

variable (moment : Moment)

/-! ## Promotion and demotion -/

def promoteTxs (addr : Address) (txs : List Transaction) (pool : Pool) : Option Pool :=
  txs.foldlM (fun pool tx => (pool.promoteTx moment addr tx).map Prod.snd) pool

/-- The end of the queue of an account if its list has become empty. -/
def settleQueue (addr : Address) (list : TxList) (pool : Pool) : Pool :=
  if list.isEmpty then
    let pool := { pool with queue := pool.queue.erase addr, beats := pool.beats.erase addr }
    if (pool.pending.lookup addr).isNone then pool.release addr else pool
  else pool

/-- Remote accounts have a limit of queued transactions. -/
def capQueue (pool : Pool) (addr : Address) (list : TxList) : Option (List Transaction × TxList) :=
  if pool.isLocal addr then some ([], list) else list.cap pool.config.accountQueue

/-- The part of `promoteExecutables` for one account. -/
def promoteAccount (addr : Address) (pool : Pool) : Option Pool :=
  match pool.queue.lookup addr with
  | none => some pool
  | some list => do
      let (forwards, list) ← list.forward (pool.state.nonce addr)
      let pool := (pool.setQueue addr list).forget forwards
      let (drops, _, list) ← list.filter moment.ranges (pool.state.balance addr) pool.head.gasLimit
      let pool := (pool.setQueue addr list).forget drops
      let (next, pendingNonces) := pool.pendingNonces.get addr
      let (readies, list) ← list.ready next
      let pool ← ((pool.setNonces pendingNonces).setQueue addr list).promoteTxs moment addr readies
      let (caps, list) ← pool.capQueue addr list
      let pool := ((pool.setQueue addr list).forget caps).pricedRemoved moment (forwards.length + drops.length + caps.length)
      return pool.settleQueue addr list

def promoteExecutables (accounts : List Address) (pool : Pool) : Option Pool :=
  accounts.foldlM (fun pool addr => pool.promoteAccount moment addr) pool

/-- The end of the pending transactions of an account if its list has become empty. -/
def settlePending (addr : Address) (list : TxList) (pool : Pool) : Pool :=
  if list.isEmpty then
    let pool := { pool with pending := pool.pending.erase addr }
    if (pool.queue.lookup addr).isNone then pool.release addr else pool
  else pool

/-- All of a list that does not have the nonce of the account. -/
def capGapped (nonce : Nat) (list : TxList) : Option (List Transaction × TxList) :=
  if ! list.isEmpty && ! list.contains nonce then list.cap 0 else some ([], list)

/-- The part of `demoteUnexecutables` for one account. -/
def demoteAccount (addr : Address) (pool : Pool) : Option Pool :=
  match pool.pending.lookup addr with
  | none => some pool
  | some list => do
      let nonce := pool.state.nonce addr
      let (olds, list) ← list.forward nonce
      let pool := (pool.setPending addr list).forget olds
      let (drops, invalids, list) ← list.filter moment.ranges (pool.state.balance addr) pool.head.gasLimit
      let pool := (pool.setPending addr list).forget drops
      let pool ← pool.requeue moment invalids
      let (gapped, list) ← capGapped nonce list
      let pool ← (pool.setPending addr list).requeue moment gapped
      return pool.settlePending addr list

def demoteUnexecutables (pool : Pool) : Option Pool :=
  (moment.ranges.addresses pool.pending.keys).foldlM (fun pool addr => pool.demoteAccount moment addr) pool

/-! ## The limits -/

/-- The last pending transaction of an account is dropped. -/
def capOne (addr : Address) (pool : Pool) : Option Pool := do
  let list ← pool.pending.lookup addr
  let (caps, list) ← list.cap ((list.len : Int) - 1)
  let pool := (pool.setPending addr list).forget caps
  return { pool with
    pendingNonces := caps.foldl (fun nonces (tx : Transaction) => nonces.setIfLower addr tx.nonce) pool.pendingNonces
    }.pricedRemoved moment caps.length

/-- Rounds in which each offender loses a transaction, while there are too many pending ones and one of
the offenders has more than a threshold. As many as that one has are enough. -/
def equalize (threshold : Nat) (last : Address) (offenders : List Address) : Nat → Nat → Pool → Option (Nat × Pool)
  | 0, pending, pool => some (pending, pool)
  | rounds + 1, pending, pool => do
      let list ← pool.pending.lookup last
      if pool.config.globalSlots < pending ∧ threshold < list.len then
        let pool ← offenders.foldlM (fun pool addr => pool.capOne moment addr) pool
        equalize threshold last offenders rounds (pending - offenders.length) pool
      else return (pending, pool)

/-- The spammers become offenders one by one, and those before are brought down to the next one's length. -/
def penalize : List Address → List Address → Nat → Pool → Option (List Address × Nat × Pool)
  | [], offenders, pending, pool => some (offenders, pending, pool)
  | offender :: spammers, offenders, pending, pool =>
      if pending ≤ pool.config.globalSlots then some (offenders, pending, pool)
      else do
        let list ← pool.pending.lookup offender
        match offenders.getLast? with
        | none => penalize spammers [offender] pending pool
        | some last => do
            let previous ← pool.pending.lookup last
            let (pending, pool) ← pool.equalize moment list.len last offenders previous.len pending
            penalize spammers (offenders ++ [offender]) pending pool

def pendingLen (pool : Pool) (addr : Address) : Nat := ((pool.pending.lookup addr).map TxList.len).getD 0

/-- The remote accounts with too many pending transactions, those with the most first. -/
def spammers (pool : Pool) : List Address :=
  ((moment.ranges.addresses pool.pending.keys).filter fun addr =>
    ! pool.isLocal addr && pool.config.accountSlots < pool.pendingLen addr).mergeSort fun first second =>
      pool.pendingLen second ≤ pool.pendingLen first

def truncatePending (pool : Pool) : Option Pool := do
  let pending := ((Maps.values pool.pending).map TxList.len).sum
  if pending ≤ pool.config.globalSlots then return pool
  let (offenders, pending, pool) ← pool.penalize moment (pool.spammers moment) [] pending
  match offenders.getLast? with
  | none => return pool
  | some last =>
      let list ← pool.pending.lookup last
      let (_, pool) ← pool.equalize moment pool.config.accountSlots last offenders list.len pending
      return pool

/-- The time of no heartbeat, in nanoseconds. -/
def zeroTime : Int := -62135596800 * 10 ^ 9

def beat (pool : Pool) (addr : Address) : Int := (pool.beats.lookup addr).getD zeroTime

/-- So many queued transactions leave, from the first of the accounts on. -/
def dropQueued : List Address → Nat → Pool → Option Pool
  | [], _, pool => some pool
  | addr :: addresses, drop, pool =>
      if drop = 0 then some pool
      else do
        let list ← pool.queue.lookup addr
        let (txs, list) := list.flatten
        let pool := pool.setQueue addr list
        if list.len ≤ drop then
          let pool ← pool.removeTxs moment true true txs
          dropQueued addresses (drop - list.len) pool
        else pool.removeTxs moment true true (txs.reverse.take drop)

/-- The remote accounts with queued transactions, that of the oldest heartbeat first. -/
def inactive (pool : Pool) : List Address :=
  ((moment.ranges.addresses pool.queue.keys).filter fun addr => ! pool.isLocal addr).mergeSort fun first second =>
    pool.beat first ≤ pool.beat second

def truncateQueue (pool : Pool) : Option Pool :=
  let queued := ((Maps.values pool.queue).map TxList.len).sum
  if queued ≤ pool.config.globalQueue then some pool
  else pool.dropQueued moment (pool.inactive moment) (queued - pool.config.globalQueue)

/-! ## The reset -/

variable (chain : ChainView)

/-- Down a branch to a number, with the transactions of the blocks that are left behind. -/
def descend (number : Nat) : Nat → Block → List Transaction → Option (Block × List Transaction)
  | 0, block, txs => if number < block.number then none else some (block, txs)
  | depth + 1, block, txs =>
      if number < block.number then do
        let parent ← chain.getBlock block.parentHash (block.number - 1)
        descend number depth parent (txs ++ block.transactions)
      else some (block, txs)

/-- Down both branches to a block in common; below the first block there is none. -/
def meet : Nat → Block → Block → List Transaction → List Transaction → Option (List Transaction × List Transaction)
  | 0, _, _, _, _ => none
  | depth + 1, rem, add, discarded, included =>
      if rem.hash = add.hash then some (discarded, included)
      else do
        let rem' ← chain.getBlock rem.parentHash ((rem.number + (2 ^ 64 - 1)) % 2 ^ 64)
        let add' ← chain.getBlock add.parentHash ((add.number + (2 ^ 64 - 1)) % 2 ^ 64)
        meet depth rem' add' (discarded ++ rem.transactions) (included ++ add.transactions)

/-- `TxDifference`. -/
def txDifference (a b : List Transaction) : List Transaction := a.filter fun tx => tx.hash ∉ b.map Transaction.hash

/-- The types that the pool takes: plain ones, with an access list, with dynamic fees. -/
def takesType (tx : Transaction) : Bool := tx.type = 0 || tx.type = 1 || tx.type = 2

/-- The transactions that the old branch had and the new one has not, unless the reset ends here. -/
def reinjected (oldHead : Option Head) (newHead : Head) : Option (List Transaction) :=
  match oldHead.filter (·.hash ≠ newHead.parentHash) with
  | none => some []
  | some oldHead =>
      if 64 < oldHead.number - newHead.number + (newHead.number - oldHead.number) then some []
      else match chain.getBlock oldHead.hash oldHead.number with
        | none => if oldHead.number ≤ newHead.number then none else some []
        | some rem => do
            let add ← chain.getBlock newHead.hash newHead.number
            let (rem, discarded) ← descend chain add.number rem.number rem []
            let (add, included) ← descend chain rem.number add.number add []
            let (discarded, included) ← meet chain (rem.number + 2) rem add discarded included
            return (txDifference discarded included).filter takesType

def reset (oldHead : Option Head) (newHead : Head) (pool : Pool) : Option Pool :=
  match reinjected chain oldHead newHead, chain.stateAt newHead.root with
  | some reinject, some state =>
      let pool := { pool with head := newHead, state, pendingNonces := newNoncer state.nonce }
      if chain.feeManagerEnabled newHead.time then
        match chain.minBaseFeeAt newHead with
        | none => some pool
        | some minimumFee => ({ pool with minimumFee := some minimumFee }.addTxsLocked moment chain false reinject).map Prod.snd
      else (pool.addTxsLocked moment chain false reinject).map Prod.snd
  | _, _ => some pool

/-- `updateBaseFeeAt`, whose errors are only logged. -/
def updateBaseFeeAt (head : Head) (pool : Pool) : Pool :=
  match chain.estimateNextBaseFee head with
  | some baseFee => { pool with priced := pool.priced.setBaseFee moment.ranges pool.all baseFee }
  | none => pool

/-- The nonces after the last pending transactions. -/
def nextNonces (pool : Pool) : List Address → Map Address Nat → Option (Map Address Nat × Pool)
  | [], nonces => some (nonces, pool)
  | addr :: rest, nonces => do
      let list ← pool.pending.lookup addr
      let (highestPending, list) ← list.lastElement
      nextNonces (pool.setPending addr list) rest (nonces.insert addr ((highestPending.nonce + 1) % 2 ^ 64))

/-- What `runReorg` does after a reset and the promotions. -/
def settleReset (newHead : Head) (pool : Pool) : Option Pool := do
  let pool ← pool.demoteUnexecutables moment
  let pool := if chain.isLondon newHead.number then pool.updateBaseFeeAt moment chain newHead
    else { pool with priced := pool.priced.reheap moment.ranges pool.all }
  let (nonces, pool) ← pool.nextNonces (moment.ranges.addresses pool.pending.keys) ∅
  return { pool with pendingNonces := pool.pendingNonces.setAll nonces }

/-- `runReorg` with a reset. -/
def resetReorg (oldHead : Option Head) (newHead : Head) (pool : Pool) : Option Pool := do
  let pool ← pool.reset moment chain oldHead newHead
  let pool ← pool.promoteExecutables moment (moment.ranges.addresses pool.queue.keys)
  pool.settleReset moment chain newHead

/-- The part of `runReorg` before the limits, with the heads of a reset if there is one. -/
def resetOrPromote (heads : Option (Option Head × Head)) (dirty : List Address) (pool : Pool) : Option Pool :=
  match heads with
  | some (oldHead, newHead) => pool.resetReorg moment chain oldHead newHead
  | none => pool.promoteExecutables moment dirty

def runReorg (heads : Option (Option Head × Head)) (dirty : List Address) (pool : Pool) : Option Pool := do
  let pool ← pool.resetOrPromote moment chain heads dirty
  let pool ← pool.truncatePending moment
  let pool ← pool.truncateQueue moment
  return { pool with changesSinceReorg := 0 }

/-! ## Other steps -/

def setGasTip (tip : Nat) (pool : Pool) : Option Pool :=
  let old := pool.gasTip
  let pool := { pool with gasTip := tip }
  if tip ≤ old then some pool
  else do
    let drop := pool.all.remotesBelowTip moment.ranges tip
    let pool ← pool.removeTxs moment false true drop
    return pool.pricedRemoved moment drop.length

/-- The largest duration. -/
def maxDuration : Int := 2 ^ 63 - 1

/-- The eviction of an account that was inactive for too long. -/
def evictAccount (addr : Address) (pool : Pool) : Option Pool :=
  if pool.isLocal addr then some pool
  else if pool.config.lifetime < min (moment.now addr - pool.beat addr) maxDuration then do
    let list ← pool.queue.lookup addr
    let (txs, list) := list.flatten
    (pool.setQueue addr list).removeTxs moment true true txs
  else some pool

def evict (pool : Pool) : Option Pool :=
  (moment.ranges.addresses pool.queue.keys).foldlM (fun pool addr => pool.evictAccount moment addr) pool

/-- A pending list is cut at the first transaction with too low a tip, unless its account is local. -/
def enforceTip (pool : Pool) (minTip baseFee : Option Nat) (addr : Address) (txs : List Transaction) : List Transaction :=
  match minTip with
  | none => txs
  | some minTip =>
      if pool.isLocal addr then txs
      else txs.takeWhile fun tx =>
        (minTip : Int) ≤ (baseFee.or pool.priced.baseFee).elim (tx.gasTipCap : Int) fun baseFee => effectiveGasTip baseFee tx

/-- `Pending` with a filter, in the order of the visit. -/
def pendingTxs (minTip baseFee : Option Nat) : List Address → Pool → List (Address × List Transaction) × Pool
  | [], pool => ([], pool)
  | addr :: rest, pool => match pool.pending.lookup addr with
      | none => pendingTxs minTip baseFee rest pool
      | some list =>
          let (txs, list) := list.flatten
          let txs := pool.enforceTip minTip baseFee addr txs
          let (others, pool) := pendingTxs minTip baseFee rest (pool.setPending addr list)
          (if txs.isEmpty then others else (addr, txs) :: others, pool)

end Pool

/-! ## The steps -/

inductive Call where
  | add (txs : List Transaction) (isLocal : Bool)
  | runReorg (heads : Option (Option Head × Head)) (dirty : List Address)
  | setGasTip (tip : Nat)
  | setMinFee (minFee : Nat)
  | evict
  | updateBaseFee
  | pending (minTip baseFee : Option Nat)
  /-- Another subpool reserves or releases an account. -/
  | reserver (subpool : Nat) (addr : Address) (reserve : Bool)

/-- A call with what it sees. -/
structure Event where
  moment : Moment
  chain : ChainView
  call : Call

def Pool.step (event : Event) (pool : Pool) : Option Pool :=
  match event.call with
  | .add txs isLocal => (pool.addTxsLocked event.moment event.chain isLocal txs).map Prod.snd
  | .runReorg heads dirty => pool.runReorg event.moment event.chain heads dirty
  | .setGasTip tip => pool.setGasTip event.moment tip
  | .setMinFee minFee => some { pool with minimumFee := some minFee }
  | .evict => pool.evict event.moment
  | .updateBaseFee => some (pool.updateBaseFeeAt event.moment event.chain pool.head)
  | .pending minTip baseFee =>
      some (Pool.pendingTxs minTip baseFee (event.moment.ranges.addresses pool.pending.keys) pool).2
  | .reserver subpool addr reserve =>
      match TxPool.reserver pool.reservations subpool addr reserve with
      | .ok reservations => some { pool with reservations }
      | .error _ => some pool

end Snowside.TxPool
